import LineShell.CommandLine.Spelling

/-!
# Reading a word

A word may be written with any mixture of quotes and escapes. Within a word the text grows by what
each piece stands for, until a character comes at which the word ends.

## Implementation notes

A word that ends with the line is filed away by `Scan.finish` only, and a first digit waits in a
place of its own. The statements about whole words therefore compare what two scans come to at the
end of the line, `(s.read rest).finish`, and not the scans themselves.
-/

namespace LineShell

namespace Scan

variable {s : Scan} {purpose : Purpose}

/-- The scan within a word of which some text has been read. -/
def within (s : Scan) (purpose : Purpose) (quoting : Quoting) (text : List Char) : Scan :=
  { s with place := .word purpose quoting (String.ofList text) }

theorem foldl_push (text more : List Char) :
    more.foldl String.push (String.ofList text) = String.ofList (text ++ more) := by
  induction more generalizing text with
  | nil => simp
  | cons c rest ih =>
      have hpush : (String.ofList text).push c = String.ofList (text ++ [c]) := by
        apply String.toList_inj.mp
        simp
      rw [List.foldl_cons, hpush, ih, List.append_assoc, List.singleton_append]

/-- Inside quotes, and behind a backslash, every character belongs to the word. -/
theorem step_within_quoted {quoting : Quoting} (h : quoting ≠ .plain) (text : List Char)
    (c : Char) :
    (s.within purpose quoting text).step c =
      s.within purpose (quoting.next c) (text ++ quoting.adds c) := by
  simp [within, step, inWord, intoWord, h, foldl_push]

/-- Characters with which a word cannot begin, and at which a word ends outside quotes. -/
def Ends (c : Char) : Prop := isSeparator c = true ∨ c = '|' ∨ c = '>'

instance (c : Char) : Decidable (Ends c) :=
  inferInstanceAs (Decidable (isSeparator c = true ∨ c = '|' ∨ c = '>'))

theorem step_within_plain (text : List Char) {c : Char} (h : ¬Ends c) :
    (s.within purpose .plain text).step c =
      s.within purpose (Quoting.next .plain c) (text ++ Quoting.adds .plain c) := by
  have hgo : ¬(isSeparator c = true ∨ c = '|' ∨ c = '>') := h
  simp [within, step, inWord, intoWord, hgo, foldl_push]

theorem intoWord_start (purpose : Purpose) {c : Char} (h : ¬Ends c) :
    s.intoWord purpose .plain "" c = (s.within purpose .plain []).step c := by
  have hpush := foldl_push [] (Quoting.adds .plain c)
  rw [String.ofList_nil] at hpush
  rw [step_within_plain _ h, intoWord, hpush]
  rfl

theorem step_within_ends (text : List Char) {c : Char} (h : Ends c) :
    (s.within purpose .plain text).step c =
      (s.finishWord purpose (String.ofList text)).inGap c := by
  have hend : isSeparator c = true ∨ c = '|' ∨ c = '>' := h
  simp only [within, step, inWord, hend, and_self, if_true]
  rfl

/-- The body of a double-quoted piece adds the text that it stands for. -/
theorem read_doubleQuoted {body text : List Char} (h : DoubleQuoted body text)
    (word : List Char) :
    (s.within purpose .double word).read body = s.within purpose .double (word ++ text) := by
  induction h generalizing word with
  | nil => simp
  | plain h rest ih =>
      rw [read_cons, step_within_quoted (by simp), Quoting.next, Quoting.adds, if_neg h.1,
        if_neg h.2, if_neg (by simp [h]), ih, List.append_assoc, List.singleton_append]
  | escaped h rest ih =>
      rw [read_cons, step_within_quoted (by simp), read_cons,
        show Quoting.next .double '\\' = .doubleEscaped from rfl, step_within_quoted (by simp),
        Quoting.next, ih]
      simp [Quoting.adds, h]
  | kept h rest ih =>
      rw [read_cons, step_within_quoted (by simp), read_cons,
        show Quoting.next .double '\\' = .doubleEscaped from rfl, step_within_quoted (by simp),
        Quoting.next, ih]
      simp [Quoting.adds, h]

theorem read_singleQuoted {text : List Char} (h : '\'' ∉ text) (word : List Char) :
    (s.within purpose .single word).read text = s.within purpose .single (word ++ text) := by
  induction text generalizing word with
  | nil => simp
  | cons c rest ih =>
      obtain ⟨hc, hrest⟩ : c ≠ '\'' ∧ '\'' ∉ rest := by
        simpa [eq_comm] using h
      rw [read_cons, step_within_quoted (by simp), Quoting.next, Quoting.adds, if_neg hc,
        if_neg hc, ih hrest, List.append_assoc, List.singleton_append]

theorem not_ends_of_isBare {c : Char} (h : isBare c = true) : ¬Ends c := by
  simp only [isBare, Bool.and_eq_true, Bool.not_eq_true', bne_iff_ne, ne_eq] at h
  simp [Ends, h]

/-- A piece adds the text that it stands for, whatever was read of the word before. -/
theorem read_piece {piece text : List Char} (h : SpellsPiece piece text) (word : List Char) :
    (s.within purpose .plain word).read piece = s.within purpose .plain (word ++ text) := by
  cases h with
  | bare h =>
      rw [read_cons, step_within_plain _ (not_ends_of_isBare h)]
      simp only [isBare, Bool.and_eq_true, bne_iff_ne, ne_eq] at h
      simp [Quoting.next, Quoting.adds, h]
  | escaped c =>
      rw [read_cons, step_within_plain _ (by decide), read_cons,
        show Quoting.next .plain '\\' = .escaped from rfl, step_within_quoted (by simp)]
      simp [Quoting.next, Quoting.adds]
  | single h =>
      rw [List.cons_append, read_cons, step_within_plain _ (by decide),
        show Quoting.next .plain '\'' = .single from rfl, read_append, read_singleQuoted h,
        read_cons, step_within_quoted (by simp)]
      simp [Quoting.next, Quoting.adds]
  | double h =>
      rw [List.cons_append, read_cons, step_within_plain _ (by decide),
        show Quoting.next .plain '"' = .double from rfl, read_append, read_doubleQuoted h,
        read_cons, step_within_quoted (by simp)]
      simp [Quoting.next, Quoting.adds]

theorem read_spells {word text : List Char} (h : Spells word text) (before : List Char) :
    (s.within purpose .plain before).read word = s.within purpose .plain (before ++ text) := by
  induction h generalizing before with
  | one h => exact read_piece h before
  | more h rest ih => rw [read_append, read_piece h, ih, List.append_assoc]

/-- A word begins with a character that can begin one; behind a first digit the word is over or
goes on with such a character again. -/
theorem exists_first_of_spells {word text : List Char} (h : Spells word text) :
    ∃ c tail, word = c :: tail ∧ ¬Ends c ∧ (c.isDigit = true → ∀ d ∈ tail.head?, ¬Ends d) := by
  have first : ∀ {piece text : List Char}, SpellsPiece piece text →
      ∃ c tail, piece = c :: tail ∧ ¬Ends c ∧ (c.isDigit = true → tail = []) := by
    intro piece text h
    cases h with
    | bare h => exact ⟨_, [], rfl, not_ends_of_isBare h, fun _ => rfl⟩
    | escaped c => exact ⟨_, _, rfl, by decide, by simp⟩
    | single h => exact ⟨_, _, rfl, by decide, by simp⟩
    | double h => exact ⟨_, _, rfl, by decide, by simp⟩
  induction h with
  | one h =>
      obtain ⟨c, tail, rfl, hc, htail⟩ := first h
      exact ⟨c, tail, rfl, hc, fun hd => by simp [htail hd]⟩
  | more h rest ih =>
      obtain ⟨c, tail, rfl, hc, htail⟩ := first h
      obtain ⟨next, pieces, rfl, hnext, _⟩ := ih
      exact ⟨c, tail ++ next :: pieces, rfl, hc, fun hd => by simpa [htail hd] using hnext⟩

/-- Before any other character than `>`, a waiting digit is the beginning of a word. -/
theorem step_digit {c d : Char} (hs : s.place = .digit d) (hc : c ≠ '>') :
    s.step c = (s.within .argument .plain [d]).step c := by
  simp only [step, hs, within, if_neg hc, inWord, finishWord, intoWord]
  rfl

theorem finish_read_digit (d : Char) {rest : List Char} (h : ∀ c ∈ rest.head?, c ≠ '>') :
    (({ s with place := .digit d } : Scan).read rest).finish =
      ((s.within .argument .plain [d]).read rest).finish := by
  cases rest with
  | nil => rfl
  | cons c rest =>
      have hstep : ({ s with place := .digit d } : Scan).step c =
          (s.within .argument .plain [d]).step c := step_digit rfl (h c rfl)
      rw [read_cons, read_cons, hstep]

/-- A word between tokens is read as the text of an argument. A word that is one digit must not
have a `>` behind it. -/
theorem finish_read_token (hs : s.place = .gap) {word text rest : List Char}
    (h : Spells word text)
    (hrest : ∀ c ∈ rest.head?, c = '>' → ∀ d, word = [d] → d.isDigit = false) :
    (s.read (word ++ rest)).finish = ((s.within .argument .plain text).read rest).finish := by
  obtain ⟨c, tail, rfl, hc, htail⟩ := exists_first_of_spells h
  have hword : (s.within .argument .plain []).read (c :: tail) = s.within .argument .plain text :=
    read_spells h []
  rw [← hword, ← read_append, List.cons_append, read_cons, read_cons]
  have hgap : isSeparator c = false ∧ c ≠ '|' ∧ c ≠ '>' := by
    simpa [Ends] using hc
  by_cases hd : c.isDigit = true
  · have hstep : s.step c = { s with place := .digit c } := by
      simp [step, hs, inGap, hgap, hd]
    have hbegin : (s.within .argument .plain []).step c = s.within .argument .plain [c] := by
      rw [step_within_plain _ hc]
      have hplain : c ≠ '\'' ∧ c ≠ '"' ∧ c ≠ '\\' := by
        refine ⟨?_, ?_, ?_⟩ <;> rintro rfl <;> exact absurd hd (by decide)
      simp [Quoting.next, Quoting.adds, hplain]
    rw [hstep, hbegin]
    apply finish_read_digit
    intro next hnext heq
    cases tail with
    | nil =>
        have := hrest next hnext heq c rfl
        simp [this] at hd
    | cons e tail =>
        have hend := htail hd e rfl
        simp only [List.cons_append, List.head?_cons, Option.mem_def, Option.some.injEq] at hnext
        subst hnext
        exact hend (by simp [Ends, heq])
  · have hstep : s.step c = (s.within .argument .plain []).step c := by
      rw [← intoWord_start _ hc]
      simp [step, hs, inGap, hgap, hd]
    rw [hstep]

/-- Behind a complete word the scan stands between tokens. -/
theorem place_finishWord (s : Scan) (purpose : Purpose) (text : String) :
    (s.finishWord purpose text).place = .gap := by
  unfold finishWord
  split
  · rfl
  · cases purpose <;> rfl

/-- At a character that ends it, and at the end of the line, a word is filed away. -/
theorem finish_read_within {text rest : List Char} (h : ∀ c ∈ rest.head?, Ends c) :
    ((s.within purpose .plain text).read rest).finish =
      ((s.finishWord purpose (String.ofList text)).read rest).finish := by
  have hplace : (s.finishWord purpose (String.ofList text)).place = .gap := place_finishWord ..
  cases rest with
  | nil =>
      simp only [read_nil, finish, hplace]
      rfl
  | cons c rest =>
      rw [read_cons, read_cons, step_within_ends _ (h c rfl)]
      simp only [step, hplace]

end Scan

end LineShell
