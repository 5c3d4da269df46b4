import LineShell.Proofs.ReadingWords

/-!
# Cutting a line at a pipe

Outside quotes a `|` ends whatever is open, exactly as the end of the line does. What stands before
it and what stands behind it may therefore be read as two lines of their own.

## Implementation notes

`EndsPlain` follows the quotes of a line without reading it. `Place.quoting` is what the reader
knows of them, and `Scan.quoting_read` says that both agree at every character. What is read behind
a pipe depends on nothing that was read before, save that the commands stand behind those that are
complete already (`Scan.behind`).
-/

namespace LineShell

/-- How the next character is taken at a place. -/
def Place.quoting : Place → Quoting
  | .word _ quoting _ => quoting
  | .gap | .digit _ | .arrow _ | .before _ _ => .plain

namespace Scan

variable {s : Scan}

/-- Neither what ends a word nor a digit opens a quote. -/
theorem next_plain {c : Char} (h : Ends c ∨ c.isDigit = true) : Quoting.next .plain c = .plain := by
  have hquotes : c ≠ '\'' ∧ c ≠ '"' ∧ c ≠ '\\' := by
    refine ⟨?_, ?_, ?_⟩ <;> rintro rfl <;> exact absurd h (by decide)
  simp [Quoting.next, hquotes]

theorem quoting_intoWord (purpose : Purpose) (quoting : Quoting) (text : String) (c : Char) :
    (s.intoWord purpose quoting text c).place.quoting = quoting.next c := rfl

/-- At the end of a stage the scan is as it was at the start, with more commands. -/
theorem finishStage_eq (s : Scan) : s.finishStage = ⟨s.finishStage.commands, [], [], .gap⟩ := by
  cases hcommand : Command.ofArguments? s.arguments s.redirects with
  | none => simp only [finishStage, hcommand]
  | some command => simp only [finishStage, hcommand]

theorem quoting_inGap (s : Scan) (c : Char) :
    (s.inGap c).place.quoting = Quoting.next .plain c := by
  simp only [inGap]
  split
  case isTrue hseparator => exact (next_plain (.inl (.inl hseparator))).symm
  case isFalse =>
    split
    case isTrue hpipe =>
      rw [finishStage_eq, next_plain (.inl (.inr (.inl hpipe)))]
      rfl
    case isFalse =>
      split
      case isTrue hgreater => exact (next_plain (.inl (.inr (.inr hgreater)))).symm
      case isFalse =>
        split
        case isTrue hdigit => exact (next_plain (.inr hdigit)).symm
        case isFalse => exact quoting_intoWord ..

theorem quoting_inWord (purpose : Purpose) (quoting : Quoting) (text : String) (c : Char) :
    (s.inWord purpose quoting text c).place.quoting = quoting.next c := by
  simp only [inWord]
  split
  case isTrue hend =>
    rw [quoting_inGap, hend.1]
  case isFalse => exact quoting_intoWord ..

theorem quoting_inBefore (target : Target) (append : Bool) (c : Char) :
    (s.inBefore target append c).place.quoting = Quoting.next .plain c := by
  simp only [inBefore]
  split
  case isTrue hseparator => exact (next_plain (.inl (.inl hseparator))).symm
  case isFalse =>
    split
    case isTrue => exact quoting_inGap ..
    case isFalse => exact quoting_intoWord ..

/-- The quoting at the place of the reader moves with every character as that of the line does. -/
theorem quoting_step (s : Scan) (c : Char) :
    (s.step c).place.quoting = s.place.quoting.next c := by
  simp only [step]
  cases hplace : s.place with
  | gap => exact quoting_inGap ..
  | digit d =>
      by_cases hgreater : c = '>'
      · simp only [hgreater, if_true]
        rfl
      · simp only [if_neg hgreater]
        exact quoting_inWord ..
  | arrow target =>
      by_cases hgreater : c = '>'
      · simp only [hgreater, if_true]
        rfl
      · simp only [if_neg hgreater]
        exact quoting_inBefore ..
  | before target append => exact quoting_inBefore ..
  | word purpose quoting text => exact quoting_inWord ..

theorem quoting_read (s : Scan) (text : List Char) :
    (s.read text).place.quoting = s.place.quoting.after text := by
  induction text generalizing s with
  | nil => rfl
  | cons c rest ih => rw [read_cons, ih, quoting_step, Quoting.after_cons]

/-- Outside quotes a pipe completes the commands as the end of the line does, and nothing else of
what was read is left. -/
theorem step_pipe (h : s.place.quoting = .plain) : s.step '|' = ⟨s.finish, [], [], .gap⟩ := by
  simp only [step, finish]
  cases hplace : s.place with
  | gap => exact finishStage_eq s
  | digit d => exact finishStage_eq (s.finishWord .argument (String.singleton d))
  | arrow target => exact finishStage_eq s
  | before target append => exact finishStage_eq s
  | word purpose quoting text =>
      obtain rfl : quoting = .plain := by
        rw [hplace] at h
        exact h
      exact finishStage_eq (s.finishWord purpose text)

/-- The same scan behind some commands. -/
def behind (before : List Command) (s : Scan) : Scan :=
  { s with commands := before ++ s.commands }

variable {before : List Command}

theorem finishWord_behind (s : Scan) (purpose : Purpose) (text : String) :
    (s.behind before).finishWord purpose text = (s.finishWord purpose text).behind before := by
  simp only [finishWord]
  split
  · rfl
  · cases purpose <;> rfl

theorem finishStage_behind (s : Scan) :
    (s.behind before).finishStage = s.finishStage.behind before := by
  simp only [finishStage, behind]
  split
  · simp only [List.append_assoc]
  · rfl

theorem inGap_behind (s : Scan) (c : Char) :
    (s.behind before).inGap c = (s.inGap c).behind before := by
  simp only [inGap]
  split
  · rfl
  · split
    · exact finishStage_behind s
    · split
      · rfl
      · split <;> rfl

theorem inWord_behind (s : Scan) (purpose : Purpose) (quoting : Quoting) (text : String)
    (c : Char) :
    (s.behind before).inWord purpose quoting text c =
      (s.inWord purpose quoting text c).behind before := by
  simp only [inWord]
  split
  · rw [finishWord_behind, inGap_behind]
  · rfl

theorem inBefore_behind (s : Scan) (target : Target) (append : Bool) (c : Char) :
    (s.behind before).inBefore target append c = (s.inBefore target append c).behind before := by
  simp only [inBefore]
  split
  · rfl
  · split
    · exact inGap_behind s c
    · rfl

/-- What is read next does not depend on the commands that are complete. -/
theorem step_behind (s : Scan) (c : Char) :
    (s.behind before).step c = (s.step c).behind before := by
  have hsame : (s.behind before).place = s.place := rfl
  simp only [step, hsame]
  cases s.place with
  | gap => exact inGap_behind s c
  | digit d =>
      by_cases hgreater : c = '>'
      · simp only [hgreater, if_true]
        rfl
      · simp only [if_neg hgreater]
        exact inWord_behind ..
  | arrow target =>
      by_cases hgreater : c = '>'
      · simp only [hgreater, if_true]
        rfl
      · simp only [if_neg hgreater]
        exact inBefore_behind ..
  | before target append => exact inBefore_behind ..
  | word purpose quoting text => exact inWord_behind ..

theorem read_behind (s : Scan) (text : List Char) :
    (s.behind before).read text = (s.read text).behind before := by
  induction text generalizing s with
  | nil => rfl
  | cons c rest ih => rw [read_cons, step_behind, ih, read_cons]

theorem finish_behind (s : Scan) : (s.behind before).finish = before ++ s.finish := by
  have hsame : (s.behind before).place = s.place := rfl
  simp only [finish, hsame]
  cases s.place with
  | gap | arrow target | before target append =>
      simp only [finishStage_behind]
      rfl
  | digit d =>
      simp only [finishWord_behind, finishStage_behind]
      rfl
  | word purpose quoting text =>
      simp only [finishWord_behind, finishStage_behind]
      rfl

end Scan

/-- A line that is cut at a pipe outside quotes is read as its two parts are, one after the
other. -/
theorem parseLine_append_pipe {a b : String} (h : EndsPlain a.toList) :
    parseLine (a ++ "|" ++ b) = parseLine a ++ parseLine b := by
  have hplain : (Scan.start.read a.toList).place.quoting = .plain := by
    rw [Scan.quoting_read]
    exact h
  have hcut : (Scan.start.read a.toList).step '|' = Scan.start.behind (parseLine a) := by
    rw [Scan.step_pipe hplain]
    simp [Scan.behind, Scan.start, parseLine]
  have hline : (a ++ "|" ++ b).toList = a.toList ++ '|' :: b.toList := by simp
  calc parseLine (a ++ "|" ++ b)
      = (((Scan.start.read a.toList).step '|').read b.toList).finish := by
        rw [parseLine, hline, Scan.read_append, Scan.read_cons]
    _ = ((Scan.start.read b.toList).behind (parseLine a)).finish := by
        rw [hcut, Scan.read_behind]
    _ = parseLine a ++ parseLine b := Scan.finish_behind _

/-- A quoted pipe, a redirect without a path and a digit stand before the pipe, an open quote
behind it. -/
theorem parseLine_append_pipe_of_open_redirect :
    EndsPlain "a '|' 2>> | 3".toList ∧
      parseLine ("a '|' 2>> | 3" ++ "|" ++ " > f b 'c|") =
        [⟨"a", ["|"], []⟩, ⟨"3", [], []⟩, ⟨"b", ["c|"], [⟨.output, "f", false⟩]⟩] := by
  refine ⟨by decide, ?_⟩
  rw [parseLine_append_pipe (by decide)]
  decide

end LineShell
