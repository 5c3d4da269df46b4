/-!
# UTF-8 text as octets

Files, pipes and terminals carry octets; lines are made of characters. `encode` writes characters
as octets. `read` says what a handful of octets amounts to: a whole character, the beginning of
one, or neither. `decode` reads a whole run of octets and refuses it unless every octet belongs to
a character; `lossy` puts replacement characters instead.

## Implementation notes

`read` follows the table of well-formed octet sequences: the first octet fixes the number of octets
and the range of the second one, all later octets are continuation octets. Overlong forms,
surrogates and values past the last character fall outside these ranges, so `unfinished` is answered
exactly for the proper beginnings of well-formed sequences.
-/

namespace LineShell

/-- Contents of a file, a pipe or a stream. -/
abbrev Bytes := List UInt8

namespace Utf8

/-- The octets of a run of characters. -/
def encode (text : List Char) : Bytes :=
  text.flatMap String.utf8EncodeChar

@[simp] theorem encode_nil : encode [] = [] := rfl

@[simp] theorem encode_cons (c : Char) (text : List Char) :
    encode (c :: text) = String.utf8EncodeChar c ++ encode text := rfl

@[simp] theorem encode_append (a b : List Char) : encode (a ++ b) = encode a ++ encode b := by
  simp [encode]

/-- What a few octets amount to. -/
inductive Reading where
  | character (c : Char)
  | unfinished
  | malformed
  deriving DecidableEq, Repr

/-- Number of octets of a character with this first octet; zero if no character begins so. -/
def width (first : UInt8) : Nat :=
  if first < 0x80 then 1
  else if first < 0xC2 then 0
  else if first < 0xE0 then 2
  else if first < 0xF0 then 3
  else if first < 0xF5 then 4
  else 0

/-- Octets that only continue a character. -/
def isContinuation (octet : UInt8) : Bool :=
  0x80 ≤ octet && octet ≤ 0xBF

/-- The second octets that a first octet admits. -/
def mayFollow (first second : UInt8) : Bool :=
  if first = 0xE0 then 0xA0 ≤ second && second ≤ 0xBF
  else if first = 0xED then 0x80 ≤ second && second ≤ 0x9F
  else if first = 0xF0 then 0x90 ≤ second && second ≤ 0xBF
  else if first = 0xF4 then 0x80 ≤ second && second ≤ 0x8F
  else isContinuation second

/-- Octets that may stand after a first octet, as far as they go. -/
def continues (first : UInt8) : Bytes → Bool
  | [] => true
  | second :: rest => mayFollow first second && rest.all isContinuation

/-- The part of a character's value that its first octet carries. -/
def leadBits (first : UInt8) : Nat :=
  match width first with
  | 1 => first.toNat
  | 2 => first.toNat % 32
  | 3 => first.toNat % 16
  | _ => first.toNat % 8

/-- Reads octets as one character, or as the beginning of one. -/
def read : Bytes → Reading
  | [] => .unfinished
  | first :: rest =>
    if rest.length < width first && continues first rest then
      if rest.length + 1 = width first then
        .character (Char.ofNat
          (rest.foldl (fun value octet => value * 64 + octet.toNat % 64) (leadBits first)))
      else .unfinished
    else .malformed

/-- Text read so far, and the octets of a character that has not arrived completely. -/
structure Partial where
  text : String
  pending : Bytes
  deriving DecidableEq, Repr

/-- Takes one more octet; refuses it when no character can come of it. -/
def Partial.push? (state : Partial) (octet : UInt8) : Option Partial :=
  match read (state.pending ++ [octet]) with
  | .character c => some ⟨state.text.push c, []⟩
  | .unfinished => some ⟨state.text, state.pending ++ [octet]⟩
  | .malformed => none

/-- The text that the octets spell, if every octet belongs to a character. -/
def decode (octets : Bytes) : Option String :=
  match octets.foldlM Partial.push? ⟨"", []⟩ with
  | some ⟨text, []⟩ => some text
  | _ => none

/-- Takes one more octet. When no character can come of it, a replacement character stands for what
has arrived of one, and the octet may begin another one. -/
def Partial.pushLossy (state : Partial) (octet : UInt8) : Partial :=
  match state.push? octet with
  | some next => next
  | none =>
    let replaced : Partial := ⟨state.text.push '\uFFFD', []⟩
    if state.pending.isEmpty then replaced
    else (replaced.push? octet).getD ⟨replaced.text.push '\uFFFD', []⟩

/-- The text that octets spell, with a replacement character for each run of them of which no
character comes. -/
def lossy (octets : Bytes) : String :=
  let read := octets.foldl Partial.pushLossy ⟨"", []⟩
  if read.pending.isEmpty then read.text else read.text.push '\uFFFD'

end Utf8

/-- The octets of a text. -/
def octets (text : String) : Bytes :=
  Utf8.encode text.toList

end LineShell
