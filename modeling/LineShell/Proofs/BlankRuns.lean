import LineShell.Proofs.CutLines

/-!
# Blanks between the parts of a line

Outside quotes only the first blank of a run has an effect: it ends the word, the descriptor or the
arrow before it. The others find nothing to end. So the number of blanks does not matter, and at the
beginning of a line, at its end and next to a pipe they might as well be left out.

## Implementation notes

`Scan.afterBlank` is what is left of a scan behind a blank, and `Place.Rests` says that another one
has nothing to end. That a blank and the end of the line end the same things is
`Scan.finish_afterBlank`; it is what makes blanks before a pipe idle, since a pipe completes the
commands as the end of the line does.
-/

namespace LineShell

/-- Runs of at least one separator. -/
structure IsBlankRun (run : List Char) : Prop where
  ne_nil : run ≠ []
  isGap : IsGap run

namespace Place

/-- There is nothing here that a blank could end. -/
def Rests : Place → Prop
  | .gap | .before _ _ => True
  | .digit _ | .arrow _ | .word _ _ _ => False

theorem quoting_of_rests {place : Place} (h : place.Rests) : place.quoting = .plain := by
  cases place with
  | gap | before target append => rfl
  | digit d | arrow target | word purpose quoting text => exact h.elim

end Place

namespace Scan

variable {s : Scan} {c : Char}

/-- What is left of a scan behind a blank. -/
def afterBlank (s : Scan) : Scan :=
  match s.place with
  | .gap | .before _ _ => s
  | .digit d => s.finishWord .argument (String.singleton d)
  | .arrow target => { s with place := .before target false }
  | .word purpose _ text => s.finishWord purpose text

theorem afterBlank_of_rests (h : s.place.Rests) : s.afterBlank = s := by
  cases hplace : s.place with
  | gap | before target append => simp only [afterBlank, hplace]
  | digit d | arrow target | word purpose quoting text =>
      rw [hplace] at h
      exact h.elim

/-- A blank has ended what there was to end. -/
theorem rests_afterBlank (s : Scan) : s.afterBlank.place.Rests := by
  unfold afterBlank
  cases hplace : s.place with
  | gap | before target append =>
      dsimp only
      rw [hplace]
      trivial
  | arrow target => trivial
  | digit d | word purpose quoting text =>
      dsimp only
      rw [place_finishWord]
      trivial

/-- A separator between tokens leaves the scan as it is. -/
theorem inGap_separator (h : s.place = .gap) (hc : isSeparator c = true) : s.inGap c = s := by
  rw [inGap, if_pos hc, ← h]

theorem inBefore_separator (target : Target) (append : Bool) (hc : isSeparator c = true) :
    s.inBefore target append c = { s with place := .before target append } := by
  rw [inBefore, if_pos hc]

/-- A separator outside quotes ends the word. -/
theorem inWord_separator (purpose : Purpose) (text : String) (hc : isSeparator c = true) :
    s.inWord purpose .plain text c = s.finishWord purpose text := by
  rw [inWord, if_pos ⟨rfl, .inl hc⟩, inGap_separator (place_finishWord ..) hc]

theorem step_separator (hplain : s.place.quoting = .plain) (hc : isSeparator c = true) :
    s.step c = s.afterBlank := by
  have hgreater : c ≠ '>' := by
    rintro rfl
    exact absurd hc (by decide)
  unfold step afterBlank
  cases hplace : s.place with
  | gap => exact inGap_separator hplace hc
  | digit d =>
      dsimp only
      rw [if_neg hgreater]
      exact inWord_separator _ _ hc
  | arrow target =>
      dsimp only
      rw [if_neg hgreater]
      exact inBefore_separator _ _ hc
  | before target append =>
      dsimp only
      rw [inBefore_separator _ _ hc, ← hplace]
  | word purpose quoting text =>
      obtain rfl : quoting = .plain := by
        rw [hplace] at hplain
        exact hplain
      exact inWord_separator _ _ hc

/-- A blank leaves the scan outside quotes. -/
theorem quoting_afterBlank (s : Scan) : s.afterBlank.place.quoting = .plain :=
  Place.quoting_of_rests (rests_afterBlank s)

/-- What a blank ends, the end of the line ends too. -/
theorem finish_afterBlank (s : Scan) : s.afterBlank.finish = s.finish := by
  unfold afterBlank
  cases hplace : s.place with
  | gap | before target append => rfl
  | arrow target =>
      unfold finish
      rw [hplace]
      rfl
  | digit d | word purpose quoting text =>
      unfold finish
      dsimp only
      rw [place_finishWord, hplace]

/-- More blanks have no effect. -/
theorem read_afterBlank {gap : List Char} (h : IsGap gap) :
    s.afterBlank.read gap = s.afterBlank := by
  induction gap with
  | nil => rfl
  | cons c rest ih =>
      obtain ⟨hc, hrest⟩ : isSeparator c = true ∧ IsGap rest := by
        simpa [IsGap] using h
      calc s.afterBlank.read (c :: rest)
          = (s.afterBlank.step c).read rest := read_cons ..
        _ = s.afterBlank.read rest := by
            rw [step_separator (quoting_afterBlank s) hc, afterBlank_of_rests (rests_afterBlank s)]
        _ = s.afterBlank := ih hrest

/-- Outside quotes a run of blanks is read as one of them. -/
theorem read_blankRun (hplain : s.place.quoting = .plain) {run : List Char}
    (h : IsBlankRun run) : s.read run = s.afterBlank := by
  cases run with
  | nil => exact absurd rfl h.ne_nil
  | cons c rest =>
      obtain ⟨hc, hrest⟩ : isSeparator c = true ∧ IsGap rest := by
        simpa [IsGap] using h.isGap
      rw [read_cons, step_separator hplain hc, read_afterBlank hrest]

/-- A pipe behind a blank does what it does without the blank. -/
theorem step_pipe_afterBlank (hplain : s.place.quoting = .plain) :
    s.afterBlank.step '|' = s.step '|' := by
  rw [step_pipe (quoting_afterBlank s), step_pipe hplain, finish_afterBlank]

/-- Behind a pipe a blank has no effect. -/
theorem afterBlank_step_pipe (hplain : s.place.quoting = .plain) :
    (s.step '|').afterBlank = s.step '|' := by
  apply afterBlank_of_rests
  rw [step_pipe hplain]
  trivial

end Scan

/-- Outside quotes the number of blanks does not matter, and none are needed at either end of the
line or next to a pipe. -/
theorem parseLine_blankRun {before run other behind : String} (hplain : EndsPlain before.toList)
    (hrun : IsBlankRun run.toList) (hother : IsBlankRun other.toList) :
    parseLine (before ++ run ++ behind) = parseLine (before ++ other ++ behind) ∧
    parseLine (run ++ behind) = parseLine behind ∧
    parseLine (before ++ run) = parseLine before ∧
    parseLine (before ++ run ++ "|" ++ behind) = parseLine (before ++ "|" ++ behind) ∧
    parseLine (before ++ "|" ++ run ++ behind) = parseLine (before ++ "|" ++ behind) := by
  have hread : (Scan.start.read before.toList).place.quoting = .plain := by
    rw [Scan.quoting_read]
    exact hplain
  have hpipe : ((Scan.start.read before.toList).step '|').place.quoting = .plain := by
    rw [Scan.step_pipe hread]
    rfl
  refine ⟨?_, ?_, ?_, ?_, ?_⟩
  · simp only [parseLine, String.toList_append, Scan.read_append, Scan.read_blankRun hread hrun,
      Scan.read_blankRun hread hother]
  · simp only [parseLine, String.toList_append, Scan.read_append,
      Scan.read_blankRun (s := .start) rfl hrun, Scan.afterBlank_of_rests (s := .start) trivial]
  · simp only [parseLine, String.toList_append, Scan.read_append, Scan.read_blankRun hread hrun,
      Scan.finish_afterBlank]
  · have hcut : "|".toList = ['|'] := rfl
    simp only [parseLine, String.toList_append, Scan.read_append, Scan.read_blankRun hread hrun,
      hcut, Scan.read_cons, Scan.read_nil, Scan.step_pipe_afterBlank hread]
  · have hcut : "|".toList = ['|'] := rfl
    simp only [parseLine, String.toList_append, Scan.read_append, hcut, Scan.read_cons,
      Scan.read_nil, Scan.read_blankRun hpipe hrun, Scan.afterBlank_step_pipe hread]

/-- A digit is no descriptor if any blanks stand between it and the `>`. -/
theorem parseLine_blankRun_of_digit :
    EndsPlain "a '\t' 2".toList ∧ IsBlankRun " ".toList ∧ IsBlankRun "\t  ".toList ∧
      parseLine ("a '\t' 2" ++ "\t  " ++ "> f") =
        [⟨"a", ["\t", "2"], [⟨.output, "f", false⟩]⟩] := by
  have hplain : EndsPlain "a '\t' 2".toList := by decide
  have hblank : IsBlankRun " ".toList := ⟨by simp, by simp [IsGap, isSeparator]⟩
  have hother : IsBlankRun "\t  ".toList := ⟨by simp, by simp [IsGap, isSeparator]⟩
  refine ⟨hplain, hblank, hother, ?_⟩
  have hsame := (@parseLine_blankRun _ _ _ "> f" hplain hblank hother).1
  rw [← hsame]
  decide

end LineShell
