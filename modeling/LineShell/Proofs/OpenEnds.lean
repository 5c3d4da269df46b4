import LineShell.Proofs.CutLines

/-!
# What is open at the end of a line

A line may end within quotes, or with a backslash that waits for a character. Nothing is missing
then: the line is read as if the quotes were closed, and as if the backslash were not there.

## Implementation notes

All of this is one fact. A quote that opens or closes adds nothing to the word that it stands in,
and neither does a backslash before the character behind it has come. What adds nothing to a word
can be left out at the end of a line (`Scan.finish_step`), whether the word is under way, begins
with it, or waits behind a digit or an arrow.
-/

namespace LineShell

namespace Scan

variable {s : Scan} {c : Char}

/-- Outside quotes only quotes and backslashes add nothing. -/
theorem eq_of_adds_plain (h : Quoting.adds .plain c = []) : c = '\'' ∨ c = '"' ∨ c = '\\' := by
  rw [Quoting.adds] at h
  split at h
  case isTrue hquotes => exact hquotes
  case isFalse => exact absurd h (List.cons_ne_nil c [])

/-- They neither end a word nor name a descriptor. -/
theorem not_ends_of_adds_plain (h : Quoting.adds .plain c = []) :
    ¬Ends c ∧ c.isDigit = false := by
  rcases eq_of_adds_plain h with rfl | rfl | rfl <;> decide

theorem ne_greater_of_adds_plain (h : Quoting.adds .plain c = []) : c ≠ '>' := by
  rcases eq_of_adds_plain h with rfl | rfl | rfl <;> decide

/-- A character that adds nothing leaves the text of its word as it is. -/
theorem intoWord_of_adds_nil {quoting : Quoting} (h : quoting.adds c = []) (purpose : Purpose)
    (text : String) :
    s.intoWord purpose quoting text c =
      { s with place := .word purpose (quoting.next c) text } := by
  rw [intoWord, h, List.foldl_nil]

theorem inWord_of_adds_nil {quoting : Quoting} (h : quoting.adds c = []) (purpose : Purpose)
    (text : String) :
    s.inWord purpose quoting text c = { s with place := .word purpose (quoting.next c) text } := by
  have hgo : ¬(quoting = .plain ∧ (isSeparator c = true ∨ c = '|' ∨ c = '>')) := by
    rintro ⟨rfl, hend⟩
    exact (not_ends_of_adds_plain h).1 hend
  rw [inWord, if_neg hgo, intoWord_of_adds_nil h]

theorem inGap_of_adds_nil (h : Quoting.adds .plain c = []) :
    s.inGap c = { s with place := .word .argument (Quoting.next .plain c) "" } := by
  obtain ⟨hends, hdigit⟩ := not_ends_of_adds_plain h
  simp only [Ends, not_or] at hends
  rw [inGap, if_neg hends.1, if_neg hends.2.1, if_neg hends.2.2, if_neg (by simp [hdigit]),
    intoWord_of_adds_nil h]

theorem inBefore_of_adds_nil (h : Quoting.adds .plain c = []) (target : Target) (append : Bool) :
    s.inBefore target append c =
      { s with place := .word (.destination target append) (Quoting.next .plain c) "" } := by
  obtain ⟨hends, -⟩ := not_ends_of_adds_plain h
  simp only [Ends, not_or] at hends
  rw [inBefore, if_neg hends.1, if_neg (by simp [hends.2]), intoWord_of_adds_nil h]

/-- A word without characters vanishes at the end of the line. -/
theorem finish_empty_word (purpose : Purpose) (quoting : Quoting) :
    ({ s with place := .word purpose quoting "" } : Scan).finish = s.finishStage.commands := rfl

/-- A character that adds nothing can be left out at the end of the line. -/
theorem finish_step (h : s.place.quoting.adds c = []) : (s.step c).finish = s.finish := by
  cases hplace : s.place with
  | gap =>
      have hadds : Quoting.adds .plain c = [] := by rwa [hplace] at h
      simp only [step, hplace, inGap_of_adds_nil hadds, finish_empty_word]
      simp only [finish, hplace]
  | digit d =>
      have hadds : Quoting.adds .plain c = [] := by rwa [hplace] at h
      simp only [step, hplace, if_neg (ne_greater_of_adds_plain hadds), inWord_of_adds_nil hadds]
      simp only [finish, hplace]
      rfl
  | arrow target =>
      have hadds : Quoting.adds .plain c = [] := by rwa [hplace] at h
      simp only [step, hplace, if_neg (ne_greater_of_adds_plain hadds), inBefore_of_adds_nil hadds,
        finish_empty_word]
      simp only [finish, hplace]
  | before target append =>
      have hadds : Quoting.adds .plain c = [] := by rwa [hplace] at h
      simp only [step, hplace, inBefore_of_adds_nil hadds, finish_empty_word]
      simp only [finish, hplace]
  | word purpose quoting text =>
      have hadds : quoting.adds c = [] := by rwa [hplace] at h
      simp only [step, hplace, inWord_of_adds_nil hadds]
      simp only [finish, hplace]
      rfl

end Scan

/-- How the next character of a line would be taken. -/
def endQuoting (line : String) : Quoting := Quoting.plain.after line.toList

theorem endQuoting_append (line : String) {mark : String} {c : Char} (hmark : mark.toList = [c]) :
    endQuoting (line ++ mark) = (endQuoting line).next c := by
  simp [endQuoting, Quoting.after_append, hmark]

/-- A character that adds nothing to its word can be left out at the end of a line. -/
theorem parseLine_append_of_adds_nil {line mark : String} {c : Char} (hmark : mark.toList = [c])
    (h : (endQuoting line).adds c = []) : parseLine (line ++ mark) = parseLine line := by
  have hquoting : (Scan.start.read line.toList).place.quoting = endQuoting line :=
    Scan.quoting_read .start line.toList
  rw [← hquoting] at h
  calc parseLine (line ++ mark)
      = ((Scan.start.read line.toList).step c).finish := by
        simp [parseLine, Scan.read_append, hmark]
    _ = (Scan.start.read line.toList).finish := Scan.finish_step h
    _ = parseLine line := rfl

/-- A backslash that waits for a character stands outside quotes or between double quotes. -/
theorem adds_backslash_of_escapes {begun mark : String} (hmark : mark.toList = ['\\'])
    (h : endQuoting (begun ++ mark) = .escaped ∨ endQuoting (begun ++ mark) = .doubleEscaped) :
    (endQuoting begun).adds '\\' = [] := by
  rw [endQuoting_append begun hmark] at h
  cases hquoting : endQuoting begun with
  | plain | double => rfl
  | escaped | single | doubleEscaped =>
      rw [hquoting] at h
      exact absurd h (by decide)

/-- The end of a line closes whatever is open: a line that ends within quotes is read as if they
were closed, and a backslash that waits for a character is left out. -/
theorem parseLine_of_open (line : String) :
    (endQuoting line = .single → parseLine line = parseLine (line ++ "'")) ∧
    (endQuoting line = .double → parseLine line = parseLine (line ++ "\"")) ∧
    ∀ begun, line = begun ++ "\\" →
      endQuoting line = .escaped ∨ endQuoting line = .doubleEscaped →
      parseLine line = parseLine begun := by
  refine ⟨?_, ?_, ?_⟩
  · intro hsingle
    apply Eq.symm
    apply parseLine_append_of_adds_nil (c := '\'') rfl
    rw [hsingle]
    rfl
  · intro hdouble
    apply Eq.symm
    apply parseLine_append_of_adds_nil (c := '"') rfl
    rw [hdouble]
    rfl
  · rintro begun rfl hescapes
    exact parseLine_append_of_adds_nil rfl (adds_backslash_of_escapes rfl hescapes)

/-- Open quotes in an argument and in a path, and a backslash behind a digit. -/
theorem parseLine_of_open_quotes :
    (endQuoting "a 'b |" = .single ∧ parseLine "a 'b |" = [⟨"a", ["b |"], []⟩]) ∧
    (endQuoting "a 2>>\"\\\"" = .double ∧
      parseLine "a 2>>\"\\\"" = [⟨"a", [], [⟨.error, "\"", true⟩]⟩]) ∧
    endQuoting "a 2\\" = .escaped ∧ parseLine "a 2\\" = parseLine "a 2" := by
  have hsingle : endQuoting "a 'b |" = .single := by decide
  have hdouble : endQuoting "a 2>>\"\\\"" = .double := by decide
  have hescaped : endQuoting "a 2\\" = .escaped := by decide
  refine ⟨⟨hsingle, ?_⟩, ⟨hdouble, ?_⟩, hescaped, ?_⟩
  · rw [(parseLine_of_open "a 'b |").1 hsingle]
    decide
  · rw [(parseLine_of_open "a 2>>\"\\\"").2.1 hdouble]
    decide
  · exact (parseLine_of_open "a 2\\").2.2 "a 2" (by decide) (.inl hescaped)

end LineShell
