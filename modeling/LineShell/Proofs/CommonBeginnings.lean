import LineShell.Proofs.LastLine
import LineShell.Proofs.AlikeRuns

/-!
# Inputs with a common beginning

What is read in a line does not depend on the keys behind it, so two sessions whose inputs begin
with the same keys take the same turns until these are used up. Nor does it depend on where the line
before has left the cursor of the history, since every line starts with nothing recalled.
-/

namespace LineShell

namespace Editor

variable {editor : Editor} {s : LineState} {first left more : List Read} {shown : String}

/-- A line that leaves something of the input behind is closed before that. -/
theorem openEnd?_of_rest (hmore : more ≠ [])
    (hrest : (editor.edit s shown (first ++ more)).rest = left ++ more) :
    editor.openEnd? s first = none := by
  cases hopen : editor.openEnd? s first with
  | none => rfl
  | some state =>
      obtain ⟨typed, hedit⟩ := edit_append_of_open hopen shown
      have hless := editor.length_rest_edit_lt more hmore state (shown ++ typed)
      rw [← hedit more, hrest, List.length_append] at hless
      omega

end Editor

namespace Session

variable {settings : Settings} {host : Host} {s t next last : Session} {ending : SessionEnd}
  {lines : List String}

/-! ## Starting afresh -/

/-- A session in which nothing is recalled. -/
def fresh (s : Session) : Session :=
  { s with shell := { s.shell with history := s.shell.history.resetCursor } }

theorem turn_fresh (settings : Settings) (host : Host) (s : Session) :
    s.fresh.turn settings host = s.turn settings host := rfl

/-- What was recalled before the first line makes no difference to a run. -/
theorem runs_of_fresh (h : Runs settings host s.fresh lines last ending) :
    Runs settings host s lines last ending := by
  cases h with
  | ends turn_eq =>
      rw [turn_fresh] at turn_eq
      exact .ends turn_eq
  | goesOn turn_eq rest =>
      rw [turn_fresh] at turn_eq
      exact .goesOn turn_eq rest

/-! ## Sessions that are reached -/

theorem Reaches.trans {middle : Session} (h : Reaches settings host s middle)
    (hmore : Reaches settings host middle t) : Reaches settings host s t := by
  induction h with
  | refl s => exact hmore
  | turn turn_eq rest ih => exact .turn turn_eq (ih hmore)

/-- What a turn leaves of the input is the end of what its line leaves. -/
theorem input_turn_suffix (settings : Settings) (host : Host) (s : Session) :
    (s.turn settings host).1.input <:+ (s.reading settings).rest := by
  rw [turn_eq]
  cases (s.reading settings).outcome with
  | line line =>
      dsimp only
      rw [runLine_eq_settle, input_settle]
      exact reclaim_suffix ..
  | interrupted | endOfInput | failed => exact List.suffix_rfl

theorem Reaches.input_suffix (h : Reaches settings host s t) : t.input <:+ s.input := by
  induction h with
  | refl s => exact List.suffix_rfl
  | @turn s next t turn_eq rest ih =>
      have hturn := input_turn_suffix settings host s
      rw [turn_eq] at hturn
      exact ih.trans (hturn.trans (rest_reading_suffix ..))

/-- A run goes on from every session that is reached before it. -/
theorem Reaches.exists_runs (h : Reaches settings host s t)
    (hruns : Runs settings host t lines last ending) :
    ∃ lines, Runs settings host s lines last ending := by
  induction h with
  | refl s => exact ⟨lines, hruns⟩
  | turn turn_eq rest ih =>
      obtain ⟨lines, hruns⟩ := ih hruns
      exact ⟨_, .goesOn turn_eq hruns⟩

/-- A session has one run. -/
theorem runs_unique {others : List String} {other : Session} {otherEnding : SessionEnd}
    (h : Runs settings host s lines last ending)
    (hother : Runs settings host s others other otherEnding) :
    other = last ∧ otherEnding = ending := by
  have hturns := turns_eq_of_runs h (Nat.lt_succ_self _)
  rw [turns_eq_of_runs hother (Nat.lt_succ_self _)] at hturns
  exact Prod.mk.inj hturns

theorem OnLines.of_reaches {P : Session → String → Prop} (h : OnLines settings host P s)
    (hreaches : Reaches settings host s t) : OnLines settings host P t :=
  fun other ready line hmore hread => h other ready line (hreaches.trans hmore) hread

theorem OnLines.fresh {P : Session → String → Prop} (h : OnLines settings host P s) :
    OnLines settings host P s.fresh := by
  intro t ready line hreaches hread
  cases hreaches with
  | refl => exact h s ready line (.refl s) hread
  | turn turn_eq rest => exact h t ready line (.turn turn_eq rest) hread

/-! ## The same keys first -/

/-- What is read next does not depend on what is left of the input behind it. -/
theorem InStep.reading_of_rest (h : InStep settings host s t) {first left more rest : List Read}
    (hinput : s.input = first ++ more) (hother : t.input = first ++ rest) (hmore : more ≠ [])
    (hrest : (s.reading settings).rest = left ++ more) :
    t.reading settings = { s.reading settings with rest := left ++ rest } := by
  have hedit : s.reading settings = (s.editor settings).edit (.start s.shell.history)
      (s.editor settings).prompt (first ++ more) := by
    rw [reading, hinput]
    rfl
  rw [hedit] at hrest ⊢
  have hclosed := Editor.openEnd?_of_rest hmore hrest
  rw [Editor.edit_append_of_closed hclosed] at hrest ⊢
  rw [List.append_cancel_right hrest, reading, h.editor_eq, h.shell, hother]
  have hshorter := Editor.edit_append_of_closed hclosed (s.editor settings).prompt rest
  rw [List.append_cancel_right hrest] at hshorter
  exact hshorter

/-- Where a session comes to before some keys, one with other keys in their place comes to, too. -/
theorem InStep.exists_reaches {first rest : List Read} (h : InStep settings host s t)
    (hleaves : LeavesInput settings host s) (hreaches : Reaches settings host s last)
    (hinput : s.input = first ++ last.input) (hother : t.input = first ++ rest)
    (hmore : last.input ≠ []) :
    ∃ other, Reaches settings host t other ∧ InStep settings host last other ∧
      other.input = rest := by
  induction hreaches generalizing t first with
  | refl s =>
      have hfirst : first = [] := by simpa using hinput
      rw [hfirst] at hother
      exact ⟨t, .refl t, h, hother⟩
  | @turn s next last turn_eq tail ih =>
      obtain ⟨left, hleft⟩ : last.input <:+ (s.reading settings).rest := by
        have hturn := input_turn_suffix settings host s
        rw [turn_eq] at hturn
        exact tail.input_suffix.trans hturn
      have hreading := h.reading_of_rest hinput hother hmore hleft.symm
      obtain ⟨hending, hnext, hfirst, hsecond⟩ := h.turn hleaves hreading
      rw [turn_eq] at hending hnext hfirst
      obtain ⟨other, hreaches, hlast⟩ := ih hnext (hleaves.turn turn_eq)
        (hfirst.trans hleft.symm) hsecond hmore
      exact ⟨other, .turn (Prod.ext rfl hending) hreaches, hlast⟩

end Session

end LineShell
