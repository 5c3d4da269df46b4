import LineShell.Toolbox.Script.Basic

/-!
# Reading scripts

A script is cut into tokens, and these are read as commands, a line at a time: what is wrong with a
line does not concern the lines before it.

## Implementation notes

Every function takes a bound on how deep it may go, which the length of the text or the number of
tokens provides.
-/

namespace LineShell.Toolbox.Script

/-- A token of a script. -/
inductive Token where
  | newline
  | sign (text : String)
  | diversion (descriptor : Option Nat) (sign : String)
  | word (pieces : Word)

/-- A token with the line in which it begins. -/
abbrev Placed := Nat × Token

/-- What is wrong with a script, and the line where it was found. -/
structure SyntaxFault where
  line : Nat
  text : String
  deriving DecidableEq, Repr

/-- Characters that end a word. -/
def endsWord (c : Char) : Bool := " \t\n;&|<>()".toList.contains c

/-- A piece in front of others; texts of one kind become one. -/
def joinPiece : Piece → Word → Word
  | .text first a, .text second b :: rest =>
    if a = b then .text (first ++ second) a :: rest else .text first a :: .text second b :: rest
  | piece, rest => piece :: rest

/-- The name of a parameter behind a dollar sign, and the rest behind it. -/
def parameterAt? : Text → Option (Text × Text)
  | '\x7b' :: rest =>
    let name := rest.takeWhile (· != '\x7d')
    if isName name || name.all Char.isDigit then some (name, rest.drop (name.length + 1)) else none
  | c :: rest =>
    if startsName c then
      let name := (c :: rest).takeWhile isNameChar
      some (name, (c :: rest).drop name.length)
    else if isSpecialParameter c then some ([c], rest)
    else none
  | [] => none

/-- Reads the pieces of a word, or those up to the closing double quote; nothing if a quote is not
closed. A quoted list of all operands makes a field only for operands, anything else in double
quotes makes one in any case. -/
def readPieces : Nat → Bool → Text → Option (Word × Text)
  | 0, _, _ => none
  | _, true, [] => none
  | _, false, [] => some ([], [])
  | n + 1, quoted, c :: rest => do
    let before (piece : Piece) (rest : Text) : Option (Word × Text) := do
      let (others, rest) ← readPieces n quoted rest
      return (joinPiece piece others, rest)
    match c, quoted, rest with
    | '"', true, rest => return ([], rest)
    | '"', false, rest =>
      let (inner, rest) ← readPieces n true rest
      let (others, rest) ← readPieces n false rest
      let word := inner.foldr joinPiece others
      return (if inner = [.value ['@'] true] then word else joinPiece (.text [] true) word, rest)
    | '\'', false, rest =>
      let text := rest.takeWhile (· != '\'')
      match rest.drop text.length with
      | _ :: rest => before (.text text true) rest
      | [] => none
    | '\\', _, '\n' :: rest => readPieces n quoted rest
    | '\\', false, d :: rest => before (.text [d] true) rest
    | '\\', true, d :: rest =>
      before (.text (if "\\\x60$\"".toList.contains d then [d] else ['\\', d]) true) rest
    | '$', _, rest =>
      match parameterAt? rest with
      | some (name, rest) => before (.value name quoted) rest
      | none => before (.text ['$'] quoted) rest
    | c, quoted, rest =>
      if !quoted && endsWord c then return ([], c :: rest) else before (.text [c] quoted) rest

/-- The tokens of a text from a line on, up to a quote that is not closed. -/
def tokensFrom : Nat → Nat → Text → List Placed × Option SyntaxFault
  | 0, _, _ | _, _, [] => ([], none)
  | n + 1, line, text =>
    let token (token : Token) (rest : Text) : List Placed × Option SyntaxFault :=
      let passed := (text.take (text.length - rest.length)).count '\n'
      let (others, fault) := tokensFrom n (line + passed) rest
      ((line, token) :: others, fault)
    match text with
    | ' ' :: rest | '\t' :: rest => tokensFrom n line rest
    | '#' :: rest => tokensFrom n line (rest.dropWhile (· != '\n'))
    | '\n' :: rest => token .newline rest
    | '&' :: '&' :: rest => token (.sign "&&") rest
    | '|' :: '|' :: rest => token (.sign "||") rest
    | text =>
      let descriptor := (text.head?.filter Char.isDigit).bind fun c =>
        if (text.drop 1).head?.any fun d => d == '<' || d == '>' then some (c.toNat - 48) else none
      match if descriptor.isSome then text.drop 1 else text with
      | '<' :: '&' :: rest => token (.diversion descriptor "<&") rest
      | '<' :: rest => token (.diversion descriptor "<") rest
      | '>' :: '>' :: rest => token (.diversion descriptor ">>") rest
      | '>' :: '&' :: rest => token (.diversion descriptor ">&") rest
      | '>' :: rest => token (.diversion descriptor ">") rest
      | text =>
        if text.head?.any endsWord then
          token (.sign (String.ofList (text.take 1))) (text.drop 1)
        else match readPieces (text.length + 1) false text with
          | some (word, rest) => token (.word word) rest
          | none => ([], some ⟨line, "Unterminated quoted string"⟩)

/-- The keywords that end a list of commands. -/
def closingKeywords : List String := ["then", "elif", "else", "fi", "do", "done"]

/-- The keyword that a token is. -/
def keyword? : Token → Option String
  | .word word => ((plainText? word).map String.ofList).filter
      (closingKeywords ++ ["!", "for", "if", "in", "until", "while"]).contains
  | _ => none

/-- A token as reports name it. -/
def Token.name (token : Token) : String :=
  match token, keyword? token with
  | .newline, _ => "newline"
  | .sign text, _ | .word _, some text => "\"" ++ text ++ "\""
  | .diversion _ _, _ => "redirection"
  | .word _, none => "word"

/-- Reading from tokens. -/
abbrev Reader := StateT (List Placed) (Except SyntaxFault)

/-- Stops because of the next token. -/
def unexpected {α : Type} (line : Nat) : Reader α := do
  match ← get with
  | (line, token) :: _ => throw ⟨line, token.name ++ " unexpected"⟩
  | [] => throw ⟨line, "end of file unexpected"⟩

/-- Takes a token if it is the keyword or the sign that comes next. -/
def accept (text : String) : Reader Bool := do
  match ← get with
  | (_, token) :: rest =>
    let isIt := keyword? token == some text || match token with
      | .sign sign => sign == text
      | _ => false
    if isIt then set rest
    return isIt
  | [] => return false

/-- Takes a keyword or a sign that has to come. -/
def expect (line : Nat) (text : String) : Reader Unit := do
  if !(← accept text) then unexpected line

/-- Skips ends of lines and, between commands, semicolons. -/
def skipEnds : List Placed → List Placed
  | (_, .newline) :: rest | (_, .sign ";") :: rest => skipEnds rest
  | tokens => tokens

/-- Whether a list of commands ends here. -/
def endsList : List Placed → Bool
  | [] | (_, .sign ")") :: _ => true
  | (_, token) :: _ => (keyword? token).any closingKeywords.contains

/-- Reads a redirect behind its sign. -/
def readDiversion (line : Nat) (descriptor : Option Nat) (sign : String) : Reader Diversion := do
  match ← get with
  | (_, .word word) :: rest =>
    set rest
    return match sign with
      | "<" => .file (descriptor.getD 0) .reading word
      | "<&" => .copy (descriptor.getD 0) word
      | ">&" => .copy (descriptor.getD 1) word
      | ">>" => .file (descriptor.getD 1) .appending word
      | _ => .file (descriptor.getD 1) .writing word
  | _ => unexpected line

/-- Reads redirects as long as there are some. -/
def readDiversions : Nat → Reader (List Diversion)
  | 0 => return []
  | n + 1 => do
    match ← get with
    | (line, .diversion descriptor sign) :: rest =>
      set rest
      let first ← readDiversion line descriptor sign
      return first :: (← readDiversions n)
    | _ => return []

/-- Reads words up to another token. -/
def readWords : Nat → Reader (List Word)
  | 0 => return []
  | n + 1 => do
    match ← get with
    | (_, .word word) :: rest =>
      set rest
      return word :: (← readWords n)
    | _ => return []

/-- Reads a command without keywords, behind what was read of it. -/
def readSimple (line : Nat) :
    Nat → List (Text × Word) → List Word → List Diversion → Reader Command
  | 0, assignments, words, diversions => return .simple line assignments words diversions
  | n + 1, assignments, words, diversions => do
    match ← get with
    | (_, .word word) :: rest =>
      set rest
      match if words.isEmpty then assignment? word else none with
      | some assignment => readSimple line n (assignments ++ [assignment]) words diversions
      | none => readSimple line n assignments (words ++ [word]) diversions
    | (_, .diversion descriptor sign) :: rest =>
      set rest
      let diversion ← readDiversion line descriptor sign
      readSimple line n assignments words (diversions ++ [diversion])
    | _ => return .simple line assignments words diversions

mutual

/-- Reads commands up to what ends a list. -/
def readList : Nat → Nat → Reader Command
  | 0, line => unexpected line
  | n + 1, line => do
    modify skipEnds
    let first ← readChain n line
    modify skipEnds
    if endsList (← get) then return first else return .sequence first (← readList n line)

/-- Reads pipelines joined by `&&` and `||`. -/
def readChain : Nat → Nat → Reader Command
  | 0, line => unexpected line
  | n + 1, line => do readLinks n line (← readPipeline n line)

/-- Reads what is joined to a command. -/
def readLinks : Nat → Nat → Command → Reader Command
  | 0, _, left => return left
  | n + 1, line, left => do
    if ← accept "&&" then
      modify skipEnds
      readLinks n line (.both left (← readPipeline n line))
    else if ← accept "||" then
      modify skipEnds
      readLinks n line (.either left (← readPipeline n line))
    else return left

/-- Reads commands with bars between them. -/
def readPipeline : Nat → Nat → Reader Command
  | 0, line => unexpected line
  | n + 1, line => do
    if ← accept "!" then return .negation (← readPipeline n line)
    let first ← readCommand n line
    if !(← accept "|") then return first
    modify skipEnds
    match ← readPipeline n line with
    | .pipeline others => return .pipeline (first :: others)
    | other => return .pipeline [first, other]

/-- Reads a single command. -/
def readCommand : Nat → Nat → Reader Command
  | 0, line => unexpected line
  | n + 1, line => do
    match ← get with
    | (line, .sign "(") :: rest =>
      set rest
      let inner ← readList n line
      expect line ")"
      return .copy inner (← readDiversions n)
    | [] | (_, .newline) :: _ | (_, .sign _) :: _ => unexpected line
    | (line, token) :: rest =>
      match keyword? token with
      | none => readSimple line n [] [] []
      | some "if" =>
        set rest
        readChoice n line
      | some "while" =>
        set rest
        readLoop n line false
      | some "until" =>
        set rest
        readLoop n line true
      | some "for" =>
        set rest
        match (← readWords 1).filterMap plainText? with
        | [name] =>
          let words ← if ← accept "in" then readWords n else pure [[.value ['@'] true]]
          modify skipEnds
          expect line "do"
          let action ← readList n line
          expect line "done"
          return .each name words action
        | _ => throw ⟨line, "Bad for loop variable"⟩
      | some _ => unexpected line

/-- Reads a choice behind its first keyword. -/
def readChoice : Nat → Nat → Reader Command
  | 0, line => unexpected line
  | n + 1, line => do
    let condition ← readList n line
    expect line "then"
    let yes ← readList n line
    if ← accept "elif" then return .choice condition yes (some (← readChoice n line))
    let no ← if ← accept "else" then some <$> readList n line else pure none
    expect line "fi"
    return .choice condition yes no

/-- Reads a loop behind its first keyword. -/
def readLoop : Nat → Nat → Bool → Reader Command
  | 0, line, _ => unexpected line
  | n + 1, line, until_ => do
    let condition ← readList n line
    expect line "do"
    let action ← readList n line
    expect line "done"
    return .loop until_ condition action

end

/-- Reads the commands of one line. -/
def readLine : Nat → Nat → Reader Command
  | 0, line => unexpected line
  | n + 1, line => do
    let first ← readChain n line
    if !(← accept ";") then return first
    match ← get with
    | [] | (_, .newline) :: _ => return first
    | _ => return .sequence first (← readLine n line)

/-- The next line of commands, and what is left behind it; nothing at the end. -/
def readNext (tokens : List Placed) : Except SyntaxFault (Option (Command × List Placed)) := do
  match tokens.dropWhile fun
    | (_, .newline) => true
    | _ => false with
  | [] => return none
  | (line, token) :: rest =>
    match ← (readLine (8 * rest.length + 16) line).run ((line, token) :: rest) with
    | (command, []) => return some (command, [])
    | (command, (_, .newline) :: rest) => return some (command, rest)
    | (_, (line, token) :: _) => throw ⟨line, token.name ++ " unexpected"⟩

end LineShell.Toolbox.Script
