import LineShell.Proofs.Candidates
import Mathlib.Data.List.Sort

/-!
# The answer of completion

What completion answers depends on the set of candidates alone: the bell if there is none, the rest
of the name and a space if there is one, and otherwise as much as all of them have in common. When
this is no more than what was typed, the bell rings, and they are listed in order if it has rung
before.

## Implementation notes

`Completes` says which answer is right, without a word on how candidates are listed or compared. The
text in common is the greatest one of which every candidate is a continuation.
-/

namespace LineShell

open scoped List

/-! ## What names have in common -/

theorem isPrefix_agreement_iff {text a b : List Char} :
    text <+: agreement a b ↔ text <+: a ∧ text <+: b := by
  induction a generalizing text b with
  | nil => simp +contextual [agreement]
  | cons c rest ih =>
      cases b with
      | nil => simp +contextual [agreement]
      | cons d others =>
          cases text with
          | nil => simp
          | cons e more =>
              simp only [agreement]
              split
              · rename_i hsame
                subst hsame
                simp only [List.cons_prefix_cons, ih]
                exact ⟨fun h => ⟨⟨h.1, h.2.1⟩, h.1, h.2.2⟩, fun h => ⟨h.1.1, h.1.2, h.2.2⟩⟩
              · rename_i hdiffer
                simp only [List.prefix_nil, reduceCtorEq, List.cons_prefix_cons, false_iff]
                rintro ⟨⟨rfl, -⟩, rfl, -⟩
                exact hdiffer rfl

theorem isPrefix_foldl_agreement_iff {text shared : List Char} {names : List String} :
    text <+: names.foldl (fun shared other => agreement shared other.toList) shared ↔
      text <+: shared ∧ ∀ name ∈ names, text <+: name.toList := by
  induction names generalizing shared with
  | nil => simp
  | cons name rest ih =>
      rw [List.foldl_cons, ih, isPrefix_agreement_iff, List.forall_mem_cons, and_assoc]

/-- All names begin with a text exactly if what they share does. -/
theorem isPrefix_sharedStart_iff {text : List Char} {names : List String} (hne : names ≠ []) :
    text <+: (sharedStart names).toList ↔ ∀ name ∈ names, text <+: name.toList := by
  cases names with
  | nil => exact absurd rfl hne
  | cons name rest =>
      rw [sharedStart, String.toList_ofList, isPrefix_foldl_agreement_iff, List.forall_mem_cons]

/-- A text with which all of some names begin, and every other such text is a beginning of it. -/
structure IsGreatestStart (isName : String → Prop) (text : String) : Prop where
  starts : ∀ name, isName name → text.toList <+: name.toList
  greatest : ∀ other : String, (∀ name, isName name → other.toList <+: name.toList) →
    other.toList <+: text.toList

variable {isName : String → Prop} {names : List String} {typed text name : String}

theorem IsGreatestStart.unique {other : String} (h : IsGreatestStart isName text)
    (hother : IsGreatestStart isName other) : text = other := by
  have hle := hother.greatest text h.starts
  have hge := h.greatest other hother.starts
  exact String.toList_inj.mp (hle.eq_of_length (Nat.le_antisymm hle.length_le hge.length_le))

theorem isGreatestStart_sharedStart (hne : names ≠ [])
    (hnames : ∀ name, name ∈ names ↔ isName name) :
    IsGreatestStart isName (sharedStart names) := by
  constructor
  · intro name hname
    exact (isPrefix_sharedStart_iff hne).mp List.prefix_rfl name ((hnames name).mpr hname)
  · intro other hother
    exact (isPrefix_sharedStart_iff hne).mpr fun name hname => hother name ((hnames name).mp hname)

/-! ## Names in order -/

theorem pairwise_insertName (h : names.Pairwise (· < ·)) :
    (insertName name names).Pairwise (· < ·) := by
  induction names with
  | nil => simp [insertName]
  | cons head rest ih =>
      obtain ⟨hhead, hrest⟩ := List.pairwise_cons.mp h
      simp only [insertName]
      split
      · rename_i hless
        refine List.pairwise_cons.mpr ⟨?_, h⟩
        intro other hother
        rcases List.mem_cons.mp hother with rfl | hmem
        · exact hless
        · exact String.lt_trans hless (hhead other hmem)
      · split
        · rename_i hgreater
          refine List.pairwise_cons.mpr ⟨?_, ih hrest⟩
          intro other hother
          rcases mem_insertName.mp hother with rfl | hmem
          · exact hgreater
          · exact hhead other hmem
        · exact h

theorem pairwise_sortedNames (names : List String) : (sortedNames names).Pairwise (· < ·) := by
  induction names with
  | nil => exact .nil
  | cons name rest ih => exact pairwise_insertName ih

/-! ## The right answer -/

/-- There are two different names. -/
def HasSeveral (isName : String → Prop) : Prop :=
  ∃ first second, first ≠ second ∧ isName first ∧ isName second

/-- Which answer is right for a text when these are the candidates. -/
inductive Completes (isName : String → Prop) (typed : String) (bellRang : Bool) :
    Completion → Prop
  | nothing (none : ∀ name, ¬isName name) : Completes isName typed bellRang .bell
  | only {name text : String} (only : ∀ other, isName other ↔ other = name)
      (completed : typed ++ text = name ++ " ") : Completes isName typed bellRang (.insert text)
  | further {shared text : String} (several : HasSeveral isName)
      (greatest : IsGreatestStart isName shared)
      (longer : typed.toList.length < shared.toList.length) (completed : typed ++ text = shared) :
      Completes isName typed bellRang (.insert text)
  | listing {shared : String} {names : List String} (several : HasSeveral isName)
      (greatest : IsGreatestStart isName shared)
      (noLonger : shared.toList.length ≤ typed.toList.length) (rang : bellRang = true)
      (sorted : names.Pairwise (· < ·)) (exact : ∀ name, name ∈ names ↔ isName name) :
      Completes isName typed bellRang (.listing names)
  | bell {shared : String} (several : HasSeveral isName)
      (greatest : IsGreatestStart isName shared)
      (noLonger : shared.toList.length ≤ typed.toList.length) (silent : bellRang = false) :
      Completes isName typed bellRang .bell

theorem exists_cons_cons_of_several (hnames : ∀ name, name ∈ names ↔ isName name)
    (hseveral : HasSeveral isName) : ∃ first second rest, names = first :: second :: rest := by
  obtain ⟨first, second, hne, hfirst, hsecond⟩ := hseveral
  have hfirst := (hnames first).mpr hfirst
  have hsecond := (hnames second).mpr hsecond
  match names with
  | [] => simp at hfirst
  | [name] =>
      rw [List.mem_singleton] at hfirst hsecond
      exact absurd (hfirst.trans hsecond.symm) hne
  | first :: second :: rest => exact ⟨first, second, rest, rfl⟩

section Among

variable {bellRang : Bool} {answer : Completion} (hsorted : names.Pairwise (· < ·))
  (hnames : ∀ name, name ∈ names ↔ isName name)
  (htyped : ∀ name, isName name → typed.toList <+: name.toList)
include hsorted hnames htyped

/-- The answer among some candidates is right. -/
theorem completes_completeAmong :
    Completes isName typed bellRang (completeAmong names typed bellRang) := by
  match hlist : names with
  | [] => exact .nothing fun name hname => by simpa using (hnames name).mpr hname
  | [name] =>
      have honly : ∀ other, isName other ↔ other = name := fun other => by
        rw [← hnames, List.mem_singleton]
      refine .only honly ?_
      rw [← String.append_assoc, append_remainder (htyped name ((honly name).mpr rfl))]
  | first :: second :: rest =>
      have hne : first ≠ second := by
        rintro rfl
        exact String.lt_irrefl first ((List.pairwise_cons.mp hsorted).1 first List.mem_cons_self)
      have hseveral : HasSeveral isName :=
        ⟨first, second, hne, (hnames first).mp (by simp), (hnames second).mp (by simp)⟩
      have hgreatest := isGreatestStart_sharedStart (List.cons_ne_nil _ _) hnames
      simp only [completeAmong]
      split
      · rename_i hlonger
        refine .further hseveral hgreatest hlonger (append_remainder ?_)
        exact hgreatest.greatest typed htyped
      · rename_i hlonger
        split
        · rename_i hrang
          exact .listing hseveral hgreatest (Nat.le_of_not_lt hlonger) hrang hsorted hnames
        · rename_i hrang
          exact .bell hseveral hgreatest (Nat.le_of_not_lt hlonger) (Bool.eq_false_iff.mpr hrang)

/-- There is no other right answer. -/
theorem completeAmong_eq_of_completes (h : Completes isName typed bellRang answer) :
    completeAmong names typed bellRang = answer := by
  have hshared {shared : String} (hseveral : HasSeveral isName)
      (hgreatest : IsGreatestStart isName shared) :
      sharedStart names = shared ∧ ∃ first second rest, names = first :: second :: rest := by
    have hcons := exists_cons_cons_of_several hnames hseveral
    obtain ⟨first, second, rest, rfl⟩ := hcons
    exact ⟨(isGreatestStart_sharedStart (List.cons_ne_nil _ _) hnames).unique hgreatest,
      first, second, rest, rfl⟩
  cases h with
  | nothing hnone =>
      have hempty : names = [] := List.eq_nil_iff_forall_not_mem.mpr fun name hname =>
        hnone name ((hnames name).mp hname)
      rw [hempty]
      rfl
  | @only name text honly hcompleted =>
      have hsingle : names = [name] :=
        hsorted.eq_of_mem_iff (List.pairwise_singleton _ name) fun other => by
          rw [hnames, honly, List.mem_singleton]
      have hstart := htyped name ((honly name).mpr rfl)
      rw [hsingle]
      simp only [completeAmong, Completion.insert.injEq]
      apply (String.append_right_inj typed).mp
      rw [← String.append_assoc, append_remainder hstart, hcompleted]
  | @further shared text hseveral hgreatest hlonger hcompleted =>
      obtain ⟨hsame, first, second, rest, rfl⟩ := hshared hseveral hgreatest
      simp only [completeAmong, hsame, hlonger, if_true, Completion.insert.injEq]
      apply (String.append_right_inj typed).mp
      rw [append_remainder (hgreatest.greatest typed htyped), hcompleted]
  | @listing shared listed hseveral hgreatest hlonger hrang hlisted hexact =>
      have hlist : names = listed := hsorted.eq_of_mem_iff hlisted fun name => by
        rw [hnames, hexact]
      obtain ⟨hsame, first, second, rest, hcons⟩ := hshared hseveral hgreatest
      subst hlist
      subst hcons
      simp only [completeAmong, hsame, Nat.not_lt.mpr hlonger, hrang, if_false, if_true]
  | @bell shared hseveral hgreatest hlonger hsilent =>
      obtain ⟨hsame, first, second, rest, rfl⟩ := hshared hseveral hgreatest
      simp [completeAmong, hsame, Nat.not_lt.mpr hlonger, hsilent]

end Among

namespace Completer

variable {completer : Completer} {volume : Volume} {cwd : WorkingDirectory} {bellRang : Bool}
  {answer : Completion}

/-- The candidates for a text: the names that begin with it and are built in, or those of a program
that some directory of the search path lists. -/
def IsCandidate (completer : Completer) (volume : Volume) (cwd : WorkingDirectory)
    (typed name : String) : Prop :=
  typed.toList <+: name.toList ∧
    (name ∈ completer.builtins ∨
      ∃ directory ∈ entries completer.searchPath, Offers volume cwd directory name)

theorem pairwise_candidates (completer : Completer) (volume : Volume) (cwd : WorkingDirectory)
    (typed : String) : (completer.candidates volume cwd typed).Pairwise (· < ·) :=
  pairwise_sortedNames _

/-- Completion gives the right answer and no other. -/
theorem complete_eq_iff :
    completer.complete volume cwd typed bellRang = answer ↔
      Completes (completer.IsCandidate volume cwd typed) typed bellRang answer := by
  have hsorted := completer.pairwise_candidates volume cwd typed
  have hnames : ∀ name, name ∈ completer.candidates volume cwd typed ↔
      completer.IsCandidate volume cwd typed name := fun _ => mem_candidates
  have htyped : ∀ name, completer.IsCandidate volume cwd typed name →
      typed.toList <+: name.toList := fun _ hname => hname.1
  constructor
  · rintro rfl
    exact completes_completeAmong hsorted hnames htyped
  · exact completeAmong_eq_of_completes hsorted hnames htyped

/-- Completion is exact: the answer is the one that is right for the set of candidates, and so it is
the same for every list of builtins, search path and volume with the same candidates. -/
theorem complete_exactly (completer : Completer) (volume : Volume) (cwd : WorkingDirectory)
    (typed : String) (bellRang : Bool) :
    (∀ answer, completer.complete volume cwd typed bellRang = answer ↔
      Completes (completer.IsCandidate volume cwd typed) typed bellRang answer) ∧
    ∀ (other : Completer) (place : Volume) (directory : WorkingDirectory),
      (∀ name, other.IsCandidate place directory typed name ↔
        completer.IsCandidate volume cwd typed name) →
      other.complete place directory typed bellRang =
        completer.complete volume cwd typed bellRang := by
  refine ⟨fun answer => complete_eq_iff, ?_⟩
  intro other place directory hsame
  have hcandidates : other.IsCandidate place directory typed =
      completer.IsCandidate volume cwd typed := funext fun name => propext (hsame name)
  rw [complete_eq_iff, hcandidates]
  exact complete_eq_iff.mp rfl

/-- Two names that are built in have the same two letters more in common as one that is built in and
one that the search path offers between empty entries. -/
theorem complete_exactly_of_greet :
    (∀ name, Completer.IsCandidate ⟨["grep", "nap"], some ":/bin"⟩ (.offering "greet") .root "g"
        name ↔
      Completer.IsCandidate ⟨["greet", "grep", "greet"], none⟩ .empty .root "g" name) ∧
    Completer.complete ⟨["grep", "nap"], some ":/bin"⟩ (.offering "greet") .root "g" false =
      .insert "re" := by
  have hcandidates :
      Completer.candidates ⟨["grep", "nap"], some ":/bin"⟩ (.offering "greet") .root "g" =
        Completer.candidates ⟨["greet", "grep", "greet"], none⟩ .empty .root "g" := by
    decide +kernel
  have hsame : ∀ name,
      Completer.IsCandidate ⟨["grep", "nap"], some ":/bin"⟩ (.offering "greet") .root "g" name ↔
        Completer.IsCandidate ⟨["greet", "grep", "greet"], none⟩ .empty .root "g" name := by
    intro name
    have hmem := @mem_candidates ⟨["grep", "nap"], some ":/bin"⟩ (.offering "greet") .root "g" name
    rw [hcandidates, mem_candidates] at hmem
    exact hmem.symm
  obtain ⟨-, hcongr⟩ :=
    complete_exactly ⟨["greet", "grep", "greet"], none⟩ .empty .root "g" false
  refine ⟨hsame, ?_⟩
  rw [hcongr _ _ _ hsame]
  decide

end Completer

end LineShell
