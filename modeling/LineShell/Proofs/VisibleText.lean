import LineShell.Editor

/-!
# Text that a terminal shows as it is

Some characters move the cursor of a terminal or begin a control sequence; all others are put into a
cell. An editor whose prompt and candidates have none of the former shows none of them of its own
accord.
-/

namespace LineShell

/-- Characters that a terminal puts into a cell. -/
def takesCell (c : Char) : Bool := decide (c ∉ ['\n', '\r', '\x08', '\x07', '\x1b'])

/-- Texts that a terminal shows as they are. -/
def IsVisible (text : List Char) : Prop := ∀ c ∈ text, takesCell c = true

instance (text : List Char) : Decidable (IsVisible text) :=
  List.decidableBAll (fun c => takesCell c = true) text

theorem isVisible_append {a b : List Char} :
    IsVisible (a ++ b) ↔ IsVisible a ∧ IsVisible b := by
  simp only [IsVisible, List.mem_append, or_imp, forall_and]

theorem isVisible_joined {separator : String} {names : List String}
    (hseparator : IsVisible separator.toList) (h : ∀ name ∈ names, IsVisible name.toList) :
    IsVisible (joined separator names).toList := by
  induction names with
  | nil => simp [joined, IsVisible]
  | cons name rest ih =>
      have hname := h name List.mem_cons_self
      have hrest := ih fun other hother => h other (List.mem_cons_of_mem _ hother)
      cases rest with
      | nil => exact hname
      | cons next rest =>
          simp only [joined, String.toList_append, isVisible_append]
          exact ⟨⟨hname, hseparator⟩, hrest⟩

/-- What an editor shows of its own accord is visible. -/
structure Editor.IsVisible (editor : Editor) : Prop where
  prompt : LineShell.IsVisible editor.prompt.toList
  insert : ∀ typed bellRang text, editor.complete typed bellRang = .insert text →
    LineShell.IsVisible text.toList
  listing : ∀ typed bellRang names, editor.complete typed bellRang = .listing names →
    ∀ name ∈ names, LineShell.IsVisible name.toList

theorem isVisible_remainder {typed name : String} (h : IsVisible name.toList) :
    IsVisible (remainder typed name).toList := by
  intro c hc
  rw [remainder, String.toList_ofList] at hc
  exact h c (List.mem_of_mem_drop hc)

theorem mem_of_mem_agreement {c : Char} {a b : List Char} (h : c ∈ agreement a b) : c ∈ a := by
  induction a generalizing b with
  | nil => simp [agreement] at h
  | cons d rest ih =>
      cases b with
      | nil => simp [agreement] at h
      | cons e others =>
          simp only [agreement] at h
          split at h
          · rcases List.mem_cons.mp h with rfl | hrest
            · exact List.mem_cons_self
            · exact List.mem_cons_of_mem _ (ih hrest)
          · simp at h

/-- Names agree on nothing that the first of them does not have. -/
theorem isVisible_sharedStart {names : List String}
    (h : ∀ name ∈ names, IsVisible name.toList) : IsVisible (sharedStart names).toList := by
  cases names with
  | nil => simp [sharedStart, IsVisible]
  | cons name names =>
      have hfold : ∀ shared, IsVisible shared →
          IsVisible (names.foldl (fun shared other => agreement shared other.toList) shared) := by
        clear h
        induction names with
        | nil => exact fun _ h => h
        | cons other rest ih =>
            intro shared hshared
            exact ih _ fun c hc => hshared c (mem_of_mem_agreement hc)
      rw [sharedStart, String.toList_ofList]
      exact hfold _ (h name List.mem_cons_self)

/-- Completion among visible names puts in visible text only. -/
theorem isVisible_of_completeAmong_insert {names : List String} {typed text : String}
    {bellRang : Bool} (h : ∀ name ∈ names, IsVisible name.toList)
    (hcomplete : completeAmong names typed bellRang = .insert text) : IsVisible text.toList := by
  match names with
  | [] => simp [completeAmong] at hcomplete
  | [name] =>
      simp only [completeAmong, Completion.insert.injEq] at hcomplete
      subst hcomplete
      rw [String.toList_append, isVisible_append]
      exact ⟨isVisible_remainder (h name List.mem_cons_self), by decide⟩
  | name :: next :: rest =>
      simp only [completeAmong] at hcomplete
      split at hcomplete
      · simp only [Completion.insert.injEq] at hcomplete
        subst hcomplete
        exact isVisible_remainder (isVisible_sharedStart h)
      · split at hcomplete <;> simp at hcomplete

theorem eq_of_completeAmong_listing {names listed : List String} {typed : String}
    {bellRang : Bool} (h : completeAmong names typed bellRang = .listing listed) :
    listed = names := by
  match names with
  | [] => simp [completeAmong] at h
  | [name] => simp [completeAmong] at h
  | name :: next :: rest =>
      simp only [completeAmong] at h
      split at h
      · simp at h
      · split at h
        · exact (Completion.listing.inj h).symm
        · simp at h

/-- An editor with a visible prompt that completes visible names shows nothing else. -/
theorem Editor.isVisible_of_candidates {completer : Completer} {volume : Volume}
    {cwd : WorkingDirectory} {prompt : String} (hprompt : LineShell.IsVisible prompt.toList)
    (hnames : ∀ typed, ∀ name ∈ completer.candidates volume cwd typed,
      LineShell.IsVisible name.toList) :
    Editor.IsVisible ⟨prompt, completer.complete volume cwd⟩ := by
  refine ⟨hprompt, ?_, ?_⟩
  · intro typed bellRang text h
    exact isVisible_of_completeAmong_insert (hnames typed) h
  · intro typed bellRang names h
    rw [eq_of_completeAmong_listing h]
    exact hnames typed

end LineShell
