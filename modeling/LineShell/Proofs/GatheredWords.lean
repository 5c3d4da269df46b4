import LineShell.Proofs.CompletedLines
import Mathlib.Data.List.Flatten

/-!
# The words that a line is made of

A line is read as a list of words, each of them an argument or the path of a redirect. Whatever is
written, no word is empty, every redirect is for the stream of a digit, and the words one after the
other are characters of the line, in order and with some left out. A pipeline consists of such words
and of nothing else, so it has no empty arguments or paths, and could itself be written as a line.

## Implementation notes

`Scan.Gathers` is the invariant. It speaks of all words at once, arguments and paths in the order in
which they were completed, and of what has been read of the word under way. The commands hold those
words that were not dropped: a stage without arguments loses its redirects, and its place in the
list of words remains.
-/

namespace LineShell

open scoped List

/-- Streams that can be named before a `>`: those of the digits. -/
def Target.IsNamed (target : Target) : Prop := ∃ d : Fin 10, target = Target.ofDescriptor d

/-- A digit names a stream. -/
theorem Target.isNamed_of_isDigit {d : Char} (h : d.isDigit = true) :
    (Target.ofDescriptor (d.toNat - '0'.toNat)).IsNamed := by
  have hrange : 48 ≤ d.toNat ∧ d.toNat ≤ 57 := by
    simpa [Char.isDigit, UInt32.le_iff_toNat_le] using h
  have hvalue : d.toNat - '0'.toNat < 10 := by
    have hzero : '0'.toNat = 48 := rfl
    omega
  exact ⟨⟨d.toNat - '0'.toNat, hvalue⟩, rfl⟩

/-- A descriptor that is neither of the two streams is another digit. -/
theorem Target.IsNamed.of_unknown {n : Nat} (h : (Target.unknown n).IsNamed) :
    n = 0 ∨ 3 ≤ n ∧ n ≤ 9 := by
  obtain ⟨⟨d, hdigit⟩, hd⟩ := h
  simp only [Target.ofDescriptor] at hd
  split at hd
  case h_1 | h_2 => simp at hd
  case h_3 hone htwo =>
    obtain rfl : n = d := Target.unknown.inj hd
    have hother : n ≠ 1 ∧ n ≠ 2 := ⟨hone, htwo⟩
    omega

/-- A redirect is for a stream that can be named. -/
def Purpose.IsLawful : Purpose → Prop
  | .argument => True
  | .destination target _ => target.IsNamed

/-- A word with what it is for. -/
structure Word where
  purpose : Purpose
  text : String
  deriving DecidableEq, Repr

namespace Word

def characters (word : Word) : List Char := word.text.toList

/-- The argument that a word is. -/
def argument? : Word → Option String
  | ⟨.argument, text⟩ => some text
  | ⟨.destination _ _, _⟩ => none

/-- The redirect whose path a word is. -/
def redirect? : Word → Option Redirect
  | ⟨.argument, _⟩ => none
  | ⟨.destination target append, text⟩ => some ⟨target, text, append⟩

/-- What a line can make of its characters: something that is not empty, and for a stream that can
be named. -/
structure IsLawful (word : Word) : Prop where
  ne_empty : word.text ≠ ""
  purpose : word.purpose.IsLawful

theorem eq_of_argument? {word : Word} {argument : String} (h : word.argument? = some argument) :
    argument = word.text := by
  obtain ⟨_ | _, text⟩ := word
  · exact (Option.some.inj h).symm
  · exact absurd h (by simp [argument?])

theorem of_redirect? {word : Word} {r : Redirect} (h : word.redirect? = some r) :
    r.path = word.text ∧ word.purpose = .destination r.target r.append := by
  obtain ⟨_ | _, text⟩ := word
  · exact absurd h (by simp [redirect?])
  · obtain rfl := Option.some.inj h
    exact ⟨rfl, rfl⟩

/-- What parts of the words are made of is part of what all of them are made of. -/
theorem flatMap_parts_sublist {α : Type} {part : Word → Option α} {text : α → List Char}
    (h : ∀ word a, part word = some a → text a = word.characters) {parts : List α}
    {words : List Word} (hparts : parts <+ words.filterMap part) :
    parts.flatMap text <+ words.flatMap characters := by
  refine (hparts.flatMap text).trans ?_
  clear hparts
  induction words with
  | nil => exact List.Sublist.refl _
  | cons word rest ih =>
      cases hpart : part word with
      | none =>
          rw [List.filterMap_cons_none hpart, List.flatMap_cons]
          exact ih.trans (List.sublist_append_right _ _)
      | some a =>
          rw [List.filterMap_cons_some hpart, List.flatMap_cons, List.flatMap_cons, h word a hpart]
          exact ih.append_left _

end Word

/-- The words that a run of characters becomes: one, or none if it is empty. -/
def wordsOf (purpose : Purpose) (text : String) : List Word :=
  if text = "" then [] else [⟨purpose, text⟩]

theorem characters_wordsOf (purpose : Purpose) (text : String) :
    (wordsOf purpose text).flatMap Word.characters = text.toList := by
  unfold wordsOf
  split
  case isTrue hempty => simp [hempty]
  case isFalse => simp [Word.characters]

/-- What has been read of the word under way. -/
def Place.waiting : Place → List Char
  | .gap | .arrow _ | .before _ _ => []
  | .digit d => [d]
  | .word _ quoting text => text.toList ++ quoting.held

/-- The stream for which a word is going to be read can be named. -/
def Place.IsLawful : Place → Prop
  | .gap => True
  | .digit d => d.isDigit = true
  | .arrow target | .before target _ => target.IsNamed
  | .word purpose _ _ => purpose.IsLawful

namespace Scan

variable {line : List Char} {words : List Word} {s : Scan} {c : Char} {purpose : Purpose}

/-- The commands, complete or not, consist of some of the words in their order, and the words with
what is waiting are spelled by the line. -/
structure Gathers (line : List Char) (words : List Word) (s : Scan) : Prop where
  arguments : s.commands.flatMap Command.arguments ++ s.arguments <+ words.filterMap Word.argument?
  redirects : s.commands.flatMap Command.redirects ++ s.redirects <+ words.filterMap Word.redirect?
  lawful : ∀ word ∈ words, word.IsLawful
  spelled : words.flatMap Word.characters ++ s.place.waiting <+ line
  place : s.place.IsLawful

theorem gathers_start : start.Gathers [] [] :=
  ⟨List.Sublist.refl _, List.Sublist.refl _, by simp, List.Sublist.refl _, trivial⟩

/-- Between the words the same things are gathered at every place. -/
theorem Gathers.goTo (h : s.Gathers line words) (place : Place) (hwaiting : place.waiting = [])
    (hplace : place.IsLawful) : ({ s with place := place } : Scan).Gathers line words where
  arguments := h.arguments
  redirects := h.redirects
  lawful := h.lawful
  spelled := by
    rw [hwaiting, List.append_nil]
    exact (List.sublist_append_left _ _).trans h.spelled
  place := hplace

/-- More characters may be left out. -/
theorem Gathers.skip (h : s.Gathers line words) (c : Char) : s.Gathers (line ++ [c]) words :=
  { h with spelled := h.spelled.trans (List.sublist_append_left _ _) }

theorem Gathers.finishStage (h : s.Gathers line words) : s.finishStage.Gathers line words := by
  have hidle := h.goTo .gap rfl trivial
  cases harguments : s.arguments with
  | nil =>
      have hstage : s.finishStage = ⟨s.commands, [], [], .gap⟩ := by
        simp only [Scan.finishStage, harguments, Command.ofArguments?]
      rw [hstage]
      refine { hidle with arguments := ?_, redirects := ?_ }
      · rw [← harguments]
        exact h.arguments
      · rw [List.append_nil]
        exact (List.sublist_append_left _ _).trans h.redirects
  | cons program operands =>
      have hstage : s.finishStage =
          ⟨s.commands ++ [⟨program, operands, s.redirects⟩], [], [], .gap⟩ := by
        simp only [Scan.finishStage, harguments, Command.ofArguments?]
      rw [hstage]
      refine { hidle with arguments := ?_, redirects := ?_ }
      · simpa [Command.arguments, harguments] using h.arguments
      · simpa using h.redirects

/-- A complete word is one more word, unless it is empty. -/
theorem Gathers.finishWord {quoting : Quoting} {text : List Char}
    (h : (s.within purpose quoting text).Gathers line words) :
    (s.finishWord purpose (String.ofList text)).Gathers line
      (words ++ wordsOf purpose (String.ofList text)) := by
  have hspelled : (words ++ wordsOf purpose (String.ofList text)).flatMap Word.characters ++
      Place.gap.waiting <+ line := by
    rw [List.flatMap_append, characters_wordsOf, String.toList_ofList]
    refine List.Sublist.trans ?_ h.spelled
    simp [within, Place.waiting]
  by_cases hempty : String.ofList text = ""
  · simp only [wordsOf, Scan.finishWord, if_pos hempty, List.append_nil]
    exact h.goTo .gap rfl trivial
  · have hlawful : ∀ word ∈ words ++ [⟨purpose, String.ofList text⟩], word.IsLawful := by
      intro word hword
      rcases List.mem_append.mp hword with hword | hword
      · exact h.lawful word hword
      · obtain rfl := List.mem_singleton.mp hword
        exact ⟨hempty, h.place⟩
    simp only [wordsOf, Scan.finishWord, if_neg hempty] at hspelled ⊢
    cases purpose with
    | argument =>
        refine ⟨?_, ?_, hlawful, hspelled, trivial⟩
        · have harguments := h.arguments.append_right [String.ofList text]
          simpa [within, Word.argument?] using harguments
        · simpa [within, List.filterMap_cons, Word.redirect?] using h.redirects
    | destination target append =>
        refine ⟨?_, ?_, hlawful, hspelled, trivial⟩
        · simpa [within, List.filterMap_cons, Word.argument?] using h.arguments
        · have hredirects := h.redirects.append_right [⟨target, String.ofList text, append⟩]
          simpa [within, Word.redirect?] using hredirects

/-- A word begins with nothing waiting. -/
theorem Gathers.begin (h : s.Gathers line words) (purpose : Purpose)
    (hpurpose : purpose.IsLawful) : (s.within purpose .plain []).Gathers line words :=
  h.goTo (.word purpose .plain (String.ofList [])) (by simp [Place.waiting, Quoting.held]) hpurpose

/-- A character that does not end its word adds at most itself to what is waiting. -/
theorem Gathers.step_within {quoting : Quoting} {text : List Char}
    (h : (s.within purpose quoting text).Gathers line words) (hgo : quoting = .plain → ¬Ends c) :
    ((s.within purpose quoting text).step c).Gathers (line ++ [c]) words := by
  have hstep : (s.within purpose quoting text).step c =
      s.within purpose (quoting.next c) (text ++ quoting.adds c) := by
    by_cases hplain : quoting = .plain
    · subst hplain
      exact step_within_plain text (hgo rfl)
    · exact step_within_quoted hplain text c
  have hadds : quoting.adds c ++ (quoting.next c).held <+ quoting.held ++ [c] :=
    (Quoting.adds_sublist quoting hgo).trans ((Quoting.lets_sublist quoting c).append_left _)
  rw [hstep]
  refine { h with spelled := ?_, place := h.place }
  calc words.flatMap Word.characters ++
        (Place.word purpose (quoting.next c) (String.ofList (text ++ quoting.adds c))).waiting
      = words.flatMap Word.characters ++ text ++ (quoting.adds c ++ (quoting.next c).held) := by
        simp [Place.waiting]
    _ <+ words.flatMap Word.characters ++ text ++ (quoting.held ++ [c]) := hadds.append_left _
    _ = words.flatMap Word.characters ++ (s.within purpose quoting text).place.waiting ++ [c] := by
        simp [within, Place.waiting]
    _ <+ line ++ [c] := h.spelled.append_right [c]

theorem Gathers.inGap (h : s.Gathers line words) (c : Char) :
    (s.inGap c).Gathers (line ++ [c]) words := by
  unfold Scan.inGap
  split
  case isTrue => exact (h.goTo .gap rfl trivial).skip c
  case isFalse hseparator =>
    split
    case isTrue => exact h.finishStage.skip c
    case isFalse hpipe =>
      split
      case isTrue =>
        have houtput : Target.output.IsNamed := ⟨1, rfl⟩
        exact (h.goTo (.arrow .output) rfl houtput).skip c
      case isFalse hgreater =>
        split
        case isTrue hdigit =>
          have hidle := h.goTo .gap rfl trivial
          have hspelled := hidle.spelled.append_right [c]
          exact { hidle with spelled := by simpa [Place.waiting] using hspelled, place := hdigit }
        case isFalse =>
          have hgo : ¬Ends c := by simp [Ends, hseparator, hpipe, hgreater]
          rw [intoWord_start _ hgo]
          exact (h.begin .argument trivial).step_within fun _ => hgo

theorem Gathers.inBefore (h : s.Gathers line words) {target : Target} (hnamed : target.IsNamed)
    (append : Bool) (c : Char) : (s.inBefore target append c).Gathers (line ++ [c]) words := by
  unfold Scan.inBefore
  split
  case isTrue => exact (h.goTo (.before target append) rfl hnamed).skip c
  case isFalse hseparator =>
    split
    case isTrue => exact h.inGap c
    case isFalse hother =>
      have hgo : ¬Ends c := by
        rw [not_or] at hother
        simp [Ends, hseparator, hother]
      rw [intoWord_start _ hgo]
      exact (h.begin (.destination target append) hnamed).step_within fun _ => hgo

/-- A character may end the word under way, which is one more word then. -/
theorem Gathers.step_word {quoting : Quoting} {text : List Char}
    (h : (s.within purpose quoting text).Gathers line words) (c : Char) :
    ∃ more, ((s.within purpose quoting text).step c).Gathers (line ++ [c]) more := by
  by_cases hend : quoting = .plain ∧ Ends c
  · obtain ⟨rfl, hend⟩ := hend
    rw [step_within_ends text hend]
    exact ⟨_, h.finishWord.inGap c⟩
  · exact ⟨words, h.step_within fun hplain hends => hend ⟨hplain, hends⟩⟩

/-- A digit that waits is the beginning of a word. -/
theorem Gathers.of_digit {d : Char} (hplace : s.place = .digit d) (h : s.Gathers line words) :
    (s.within .argument .plain [d]).Gathers line words := by
  have hspelled := h.spelled
  rw [hplace] at hspelled
  refine { h with spelled := ?_, place := trivial }
  simpa [within, Place.waiting, Quoting.held] using hspelled

theorem within_of_place {quoting : Quoting} {text : String}
    (hplace : s.place = .word purpose quoting text) : s.within purpose quoting text.toList = s := by
  rw [within, String.ofList_toList, ← hplace]

/-- Every character keeps the invariant. -/
theorem Gathers.step (h : s.Gathers line words) (c : Char) :
    ∃ more, (s.step c).Gathers (line ++ [c]) more := by
  have hlawful := h.place
  cases hplace : s.place with
  | gap =>
      simp only [Scan.step, hplace]
      exact ⟨words, h.inGap c⟩
  | digit d =>
      rw [hplace] at hlawful
      by_cases hgreater : c = '>'
      · simp only [Scan.step, hplace, hgreater, if_true]
        exact ⟨words, (h.goTo (.arrow _) rfl (Target.isNamed_of_isDigit hlawful)).skip '>'⟩
      · rw [step_digit hplace hgreater]
        exact (h.of_digit hplace).step_word c
  | arrow target =>
      rw [hplace] at hlawful
      by_cases hgreater : c = '>'
      · simp only [Scan.step, hplace, hgreater, if_true]
        exact ⟨words, (h.goTo (.before target true) rfl hlawful).skip '>'⟩
      · simp only [Scan.step, hplace, if_neg hgreater]
        exact ⟨words, h.inBefore hlawful false c⟩
  | before target append =>
      rw [hplace] at hlawful
      simp only [Scan.step, hplace]
      exact ⟨words, h.inBefore hlawful append c⟩
  | word purpose quoting text =>
      have hwithin := within_of_place hplace
      rw [← hwithin] at h ⊢
      exact h.step_word c

/-- What is read goes on to be made of words. -/
theorem Gathers.read (h : s.Gathers line words) (text : List Char) :
    ∃ more, (s.read text).Gathers (line ++ text) more := by
  induction text generalizing s line words with
  | nil => exact ⟨words, by simpa using h⟩
  | cons c rest ih =>
      obtain ⟨next, hnext⟩ := h.step c
      obtain ⟨last, hlast⟩ := ih hnext
      exact ⟨last, by simpa using hlast⟩

/-- At the end of the line the commands are complete. -/
theorem Gathers.finish (h : s.Gathers line words) :
    ∃ more, (⟨s.finish, [], [], .gap⟩ : Scan).Gathers line more := by
  have hstage : ∀ {s : Scan} {words : List Word}, s.Gathers line words →
      (⟨s.finishStage.commands, [], [], .gap⟩ : Scan).Gathers line words := by
    intro s words h
    rw [← finishStage_eq]
    exact h.finishStage
  unfold Scan.finish
  cases hplace : s.place with
  | gap | arrow target | before target append => exact ⟨words, hstage h⟩
  | digit d => exact ⟨_, hstage (h.of_digit hplace).finishWord⟩
  | word purpose quoting text =>
      rw [← within_of_place hplace] at h
      have hword := h.finishWord
      rw [String.ofList_toList] at hword
      exact ⟨_, hstage hword⟩

end Scan

/-- A pipeline consists of the words of its line. -/
theorem exists_gathers (line : String) :
    ∃ words, (⟨parseLine line, [], [], .gap⟩ : Scan).Gathers line.toList words := by
  obtain ⟨words, hread⟩ := Scan.gathers_start.read line.toList
  exact hread.finish

/-- The commands of a line can be written. -/
theorem isWritable_of_mem_parseLine {line : String} {command : Command}
    (h : command ∈ parseLine line) : command.IsWritable := by
  obtain ⟨words, hgathers⟩ := exists_gathers line
  constructor
  · intro argument hargument
    have hmem : argument ∈ (parseLine line).flatMap Command.arguments ++ [] := by
      rw [List.append_nil]
      exact List.mem_flatMap_of_mem h hargument
    obtain ⟨word, hword, hpart⟩ := List.mem_filterMap.mp (hgathers.arguments.subset hmem)
    rw [Word.eq_of_argument? hpart]
    exact (hgathers.lawful word hword).ne_empty
  · intro r hr
    have hmem : r ∈ (parseLine line).flatMap Command.redirects ++ [] := by
      rw [List.append_nil]
      exact List.mem_flatMap_of_mem h hr
    obtain ⟨word, hword, hpart⟩ := List.mem_filterMap.mp (hgathers.redirects.subset hmem)
    obtain ⟨hpath, hpurpose⟩ := Word.of_redirect? hpart
    obtain ⟨hne, hlawful⟩ := hgathers.lawful word hword
    rw [hpurpose] at hlawful
    rw [hpath]
    exact ⟨hne, hlawful⟩

/-- Lines stand for exactly those pipelines whose commands can be written. -/
theorem exists_parseLine_eq_iff {commands : List Command} :
    (∃ line, parseLine line = commands) ↔ ∀ command ∈ commands, command.IsWritable := by
  constructor
  · rintro ⟨line, rfl⟩ command hcommand
    exact isWritable_of_mem_parseLine hcommand
  · intro h
    by_cases hne : commands = []
    · subst hne
      exact ⟨"", rfl⟩
    · obtain ⟨line, hline⟩ := exists_writesLine hne h
      refine ⟨String.ofList line, ?_⟩
      rw [parseLine, String.toList_ofList]
      exact Scan.finish_read_writesLine hline []

/-- A pipeline is well formed whatever the line is, and nothing in it is made up: each command has a
program, no argument and no path is empty, a descriptor that stands for neither stream is one of the
other digits, and the arguments are characters of the line in their order, as are the paths. -/
theorem parseLine_wellFormed (line : String) :
    (∀ command ∈ parseLine line,
      command.arguments ≠ [] ∧ command.arguments[0]? = some command.program ∧
      (∀ argument ∈ command.arguments, argument ≠ "") ∧
      ∀ r ∈ command.redirects, r.path ≠ "" ∧
        ∀ n, r.target = .unknown n → n = 0 ∨ 3 ≤ n ∧ n ≤ 9) ∧
    ((parseLine line).flatMap Command.arguments).flatMap String.toList <+ line.toList ∧
    ((parseLine line).flatMap Command.redirects).flatMap (fun r => r.path.toList) <+
      line.toList := by
  obtain ⟨words, hgathers⟩ := exists_gathers line
  have hspelled : words.flatMap Word.characters <+ line.toList := by
    simpa [Place.waiting] using hgathers.spelled
  refine ⟨?_, ?_, ?_⟩
  · intro command hcommand
    obtain ⟨harguments, hredirects⟩ := isWritable_of_mem_parseLine hcommand
    refine ⟨List.cons_ne_nil _ _, rfl, harguments, ?_⟩
    intro r hr
    obtain ⟨hpath, hnamed⟩ := hredirects r hr
    refine ⟨hpath, ?_⟩
    intro n hn
    rw [hn] at hnamed
    exact Target.IsNamed.of_unknown hnamed
  · have hwords : (parseLine line).flatMap Command.arguments <+ words.filterMap Word.argument? := by
      simpa using hgathers.arguments
    refine (Word.flatMap_parts_sublist ?_ hwords).trans hspelled
    intro word argument hargument
    rw [Word.eq_of_argument? hargument, Word.characters]
  · have hwords : (parseLine line).flatMap Command.redirects <+ words.filterMap Word.redirect? := by
      simpa using hgathers.redirects
    refine (Word.flatMap_parts_sublist ?_ hwords).trans hspelled
    intro word r hr
    rw [(Word.of_redirect? hr).1, Word.characters]

end LineShell
