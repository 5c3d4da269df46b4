import LineShell.Proofs.ExactCompletion

/-!
# Completion settles at once

A text that several candidates begin with and have nothing more in common is ambiguous: the bell
rings for it, and once it has rung they are listed. What completion puts in for several candidates
makes the text ambiguous, and the candidates stay the same.
-/

namespace LineShell

namespace Completer

variable {completer : Completer} {volume : Volume} {cwd : WorkingDirectory} {bellRang : Bool}
  {typed text name : String}

/-- There are several candidates for a text, and all that they have in common has been typed. -/
def IsAmbiguous (completer : Completer) (volume : Volume) (cwd : WorkingDirectory)
    (typed : String) : Prop :=
  HasSeveral (completer.IsCandidate volume cwd typed) ∧
    ∀ shared : String,
      (∀ name, completer.IsCandidate volume cwd typed name → shared.toList <+: name.toList) →
      shared.toList.length ≤ typed.toList.length

theorem IsAmbiguous.isGreatestStart (h : completer.IsAmbiguous volume cwd typed) :
    IsGreatestStart (completer.IsCandidate volume cwd typed) typed := by
  obtain ⟨⟨first, _, _, hfirst, _⟩, hall⟩ := h
  refine ⟨fun name hname => hname.1, ?_⟩
  intro other hother
  exact List.prefix_of_prefix_length_le (hother first hfirst) hfirst.1 (hall other hother)

theorem isAmbiguous_of_isGreatestStart {shared : String}
    (hseveral : HasSeveral (completer.IsCandidate volume cwd typed))
    (hgreatest : IsGreatestStart (completer.IsCandidate volume cwd typed) shared)
    (hlonger : shared.toList.length ≤ typed.toList.length) :
    completer.IsAmbiguous volume cwd typed := by
  refine ⟨hseveral, ?_⟩
  intro other hother
  exact Nat.le_trans (hgreatest.greatest other hother).length_le hlonger

/-- The bell rings for an ambiguous text that is new. -/
theorem complete_of_isAmbiguous (h : completer.IsAmbiguous volume cwd typed) :
    completer.complete volume cwd typed false = .bell :=
  complete_eq_iff.mpr (.bell h.1 h.isGreatestStart (Nat.le_refl _) rfl)

/-- The candidates for an ambiguous text are listed when the bell has rung. -/
theorem complete_again_of_isAmbiguous (h : completer.IsAmbiguous volume cwd typed) :
    completer.complete volume cwd typed true =
      .listing (completer.candidates volume cwd typed) :=
  complete_eq_iff.mpr (.listing h.1 h.isGreatestStart (Nat.le_refl _) rfl
    (completer.pairwise_candidates volume cwd typed) fun _ => mem_candidates)

/-- Candidates are listed for an ambiguous text only, and only when the bell has rung. -/
theorem exists_listing_iff :
    (∃ names, completer.complete volume cwd typed bellRang = .listing names) ↔
      completer.IsAmbiguous volume cwd typed ∧ bellRang = true := by
  constructor
  · rintro ⟨names, hlisting⟩
    cases complete_eq_iff.mp hlisting with
    | listing hseveral hgreatest hlonger hrang =>
        exact ⟨isAmbiguous_of_isGreatestStart hseveral hgreatest hlonger, hrang⟩
  · rintro ⟨hambiguous, rfl⟩
    exact ⟨_, complete_again_of_isAmbiguous hambiguous⟩

/-- What is put in does not depend on the bell. -/
theorem complete_insert_of_insert {other : Bool}
    (hinsert : completer.complete volume cwd typed bellRang = .insert text) :
    completer.complete volume cwd typed other = .insert text := by
  rw [complete_eq_iff] at hinsert ⊢
  cases hinsert with
  | only honly hcompleted => exact .only honly hcompleted
  | further hseveral hgreatest hlonger hcompleted =>
      exact .further hseveral hgreatest hlonger hcompleted

/-- What is put in for several candidates is the rest of what they have in common. -/
theorem exists_shared_of_insert
    (hseveral : HasSeveral (completer.IsCandidate volume cwd typed))
    (hinsert : completer.complete volume cwd typed bellRang = .insert text) :
    IsGreatestStart (completer.IsCandidate volume cwd typed) (typed ++ text) ∧
      typed.toList.length < (typed ++ text).toList.length := by
  cases complete_eq_iff.mp hinsert with
  | only honly =>
      obtain ⟨first, second, hne, hfirst, hsecond⟩ := hseveral
      exact absurd (((honly first).mp hfirst).trans ((honly second).mp hsecond).symm) hne
  | further _ hgreatest hlonger hcompleted =>
      rw [hcompleted]
      exact ⟨hgreatest, hlonger⟩

/-- A longer text with which all candidates begin has the same candidates. -/
theorem isCandidate_append_iff
    (hgreatest : IsGreatestStart (completer.IsCandidate volume cwd typed) (typed ++ text)) :
    completer.IsCandidate volume cwd (typed ++ text) name ↔
      completer.IsCandidate volume cwd typed name := by
  constructor
  · rintro ⟨hstart, hoffered⟩
    rw [String.toList_append] at hstart
    exact ⟨(List.prefix_append _ _).trans hstart, hoffered⟩
  · intro hname
    exact ⟨hgreatest.starts name hname, hname.2⟩

/-- What is put in for several candidates is some text, behind which the candidates are the same and
nothing more is put in: the bell rings, and when it has rung they are listed in order. -/
theorem complete_append_insert {first second : String} (hne : first ≠ second)
    (hfirst : completer.IsCandidate volume cwd typed first)
    (hsecond : completer.IsCandidate volume cwd typed second)
    (hinsert : completer.complete volume cwd typed bellRang = .insert text) :
    text ≠ "" ∧
    (∀ name, completer.IsCandidate volume cwd (typed ++ text) name ↔
      completer.IsCandidate volume cwd typed name) ∧
    completer.complete volume cwd (typed ++ text) false = .bell ∧
    ∃ names, completer.complete volume cwd (typed ++ text) true = .listing names ∧
      names.Pairwise (· < ·) ∧
      ∀ name, name ∈ names ↔ completer.IsCandidate volume cwd typed name := by
  obtain ⟨hgreatest, hlonger⟩ :=
    exists_shared_of_insert ⟨first, second, hne, hfirst, hsecond⟩ hinsert
  have hsame : ∀ name, completer.IsCandidate volume cwd (typed ++ text) name ↔
      completer.IsCandidate volume cwd typed name := fun name => isCandidate_append_iff hgreatest
  have hambiguous : completer.IsAmbiguous volume cwd (typed ++ text) := by
    refine ⟨⟨first, second, hne, (hsame first).mpr hfirst, (hsame second).mpr hsecond⟩, ?_⟩
    intro shared hshared
    exact (hgreatest.greatest shared fun name hname =>
      hshared name ((hsame name).mpr hname)).length_le
  refine ⟨?_, hsame, complete_of_isAmbiguous hambiguous, _,
    complete_again_of_isAmbiguous hambiguous, completer.pairwise_candidates volume cwd _, ?_⟩
  · rintro rfl
    simp at hlonger
  · intro name
    rw [← hsame]
    exact mem_candidates

/-- The text that is put in may make the text one of the candidates. -/
theorem complete_append_insert_of_beginning :
    Completer.complete ⟨["né", "nérée"], none⟩ .empty .root "n" false = .insert "é" ∧
    Completer.complete ⟨["né", "nérée"], none⟩ .empty .root ("n" ++ "é") false = .bell := by
  have hfirst : Completer.IsCandidate ⟨["né", "nérée"], none⟩ .empty .root "n" "né" :=
    ⟨by decide, .inl (by decide)⟩
  have hsecond : Completer.IsCandidate ⟨["né", "nérée"], none⟩ .empty .root "n" "nérée" :=
    ⟨by decide, .inl (by decide)⟩
  have hinsert : Completer.complete ⟨["né", "nérée"], none⟩ .empty .root "n" false =
      .insert "é" := by
    decide
  obtain ⟨-, -, hbell, -⟩ := complete_append_insert (by decide) hfirst hsecond hinsert
  exact ⟨hinsert, hbell⟩

end Completer

end LineShell
