import LineShell.Proofs.ReadingWords

/-!
# Reading undoes writing

A command may be written with its arguments and redirects in any interleaving. Reading follows the
way in which the line is written: behind a word or a path the scan stands between tokens again, with
one more argument or redirect.

## Implementation notes

What a command is written as may end with the line or at a `|`, so `Scan.finish_read_writes` leaves
open what is behind it. That every pipeline can be written shows that the relation is not empty.
-/

namespace LineShell

namespace Scan

variable {s : Scan}

theorem read_gap (hs : s.place = .gap) {gap : List Char} (h : IsGap gap) : s.read gap = s := by
  induction gap with
  | nil => rfl
  | cons c rest ih =>
      obtain ⟨hc, hrest⟩ : isSeparator c = true ∧ IsGap rest := by
        simpa [IsGap] using h
      have hstep : s.step c = s := by
        simp only [step, hs, inGap, hc, if_true]
        rw [← hs]
      rw [read_cons, hstep, ih hrest]

/-- Behind the beginning of a redirect the scan waits for a path, or still for a second `>`. -/
theorem read_arrow (hs : s.place = .gap) {arrow : List Char} {target : Target} {append : Bool}
    (h : Arrow arrow target append) :
    s.read arrow =
      { s with place := if append then .before target true else .arrow target } := by
  have hoperator : ∀ {s : Scan} {target : Target},
      ({ s with place := .arrow target } : Scan).step '>' =
        { s with place := .before target true } := by
    intro s target
    rfl
  cases h with
  | output append =>
      have hfirst : s.step '>' = { s with place := .arrow .output } := by
        simp [step, hs, inGap, isSeparator]
      cases append with
      | false => simpa using hfirst
      | true => simp [hfirst, hoperator]
  | digit d append =>
      have hdigit : ∀ d : Fin 10, isSeparator (Char.ofNat ('0'.toNat + d)) = false ∧
          Char.ofNat ('0'.toNat + d) ≠ '|' ∧ Char.ofNat ('0'.toNat + d) ≠ '>' ∧
          (Char.ofNat ('0'.toNat + d)).isDigit = true ∧
          (Char.ofNat ('0'.toNat + d)).toNat - '0'.toNat = d := by decide
      obtain ⟨hseparator, hpipe, hgreater, hisDigit, hvalue⟩ := hdigit d
      have hfirst : (s.step (Char.ofNat ('0'.toNat + d))).step '>' =
          { s with place := .arrow (Target.ofDescriptor d) } := by
        simp only [step, hs, inGap, hseparator, hpipe, hgreater, hisDigit, if_true, if_false,
          hvalue, Bool.false_eq_true]
      cases append with
      | false => exact hfirst
      | true =>
          change ((s.step _).step '>').step '>' = _
          rw [hfirst, hoperator]
          rfl

/-- The path of a redirect is read as a word, behind any separators. -/
theorem read_path {target : Target} {append : Bool} {space word text : List Char}
    (hs : s.place = .arrow target ∧ append = false ∨ s.place = .before target append)
    (hspace : IsGap space) (h : Spells word text) :
    s.read (space ++ word) = s.within (.destination target append) .plain text := by
  induction space generalizing s with
  | nil =>
      obtain ⟨c, tail, rfl, hc, -⟩ := exists_first_of_spells h
      have hgo : isSeparator c = false ∧ c ≠ '|' ∧ c ≠ '>' := by
        simpa [Ends] using hc
      have hstep : s.step c = (s.within (.destination target append) .plain []).step c := by
        rw [← intoWord_start _ hc]
        rcases hs with ⟨hs, rfl⟩ | hs <;> simp [step, hs, inBefore, hgo]
      rw [List.nil_append, read_cons, hstep, ← read_cons, read_spells h, List.nil_append]
  | cons c rest ih =>
      obtain ⟨hc, hrest⟩ : isSeparator c = true ∧ IsGap rest := by
        simpa [IsGap] using hspace
      have hgreater : c ≠ '>' := by
        rintro rfl
        exact absurd hc (by decide)
      have hstep : s.step c = { s with place := .before target append } := by
        rcases hs with ⟨hs, rfl⟩ | hs <;> simp [step, hs, inBefore, hc, hgreater]
      rw [List.cons_append, read_cons, hstep, ih (.inr rfl) hrest]
      rfl

theorem mem_head?_append {a b : List Char} {c : Char} (h : c ∈ (a ++ b).head?) :
    c ∈ a.head? ∨ c ∈ b.head? := by
  cases a with
  | nil => exact .inr h
  | cons d a => exact .inl h

/-- What one command is written as adds its arguments and redirects to the command under way. -/
theorem finish_read_writes {line rest : List Char} {arguments : List String}
    {redirects : List Redirect} (h : Writes line arguments redirects)
    (hrest : ∀ c ∈ rest.head?, c = '|') (hs : s.place = .gap) :
    (s.read (line ++ rest)).finish =
      (({ s with arguments := s.arguments ++ arguments
                 redirects := s.redirects ++ redirects } : Scan).read rest).finish := by
  induction h generalizing s with
  | nil hgap => rw [read_append, read_gap hs hgap, List.append_nil, List.append_nil]
  | @argument gap word tail argument arguments redirects hgap hword hne _ hends ih =>
      have hnext : ∀ c ∈ (tail ++ rest).head?,
          Ends c ∧ (c = '>' → ∀ d, word = [d] → d.isDigit = false) := by
        intro c hc
        rcases mem_head?_append hc with htail | htail
        · rcases hends c htail with hc | ⟨rfl, hdigit⟩
          · exact ⟨.inl hc, by rintro rfl; exact absurd hc (by decide)⟩
          · exact ⟨.inr (.inr rfl), fun _ => hdigit⟩
        · obtain rfl := hrest c htail
          exact ⟨by decide, by simp⟩
      have hfiled : s.finishWord .argument argument =
          { s with arguments := s.arguments ++ [argument], place := .gap } := by
        rw [finishWord, if_neg hne]
      rw [List.append_assoc, List.append_assoc, read_append, read_gap hs hgap,
        finish_read_token hs hword fun c hc => (hnext c hc).2,
        finish_read_within fun c hc => (hnext c hc).1, String.ofList_toList, hfiled, ih rfl]
      simp [hs]
  | @redirect gap arrow space word tail target append path arguments redirects hgap harrow hspace
      hword hne _ hends ih =>
      have hnext : ∀ c ∈ (tail ++ rest).head?, Ends c := by
        intro c hc
        rcases mem_head?_append hc with htail | htail
        · rcases hends c htail with hc | rfl
          · exact .inl hc
          · decide
        · obtain rfl := hrest c htail
          decide
      have hfiled : s.finishWord (.destination target append) path =
          { s with redirects := s.redirects ++ [⟨target, path, append⟩], place := .gap } := by
        rw [finishWord, if_neg hne]
      have hpath : (s.read arrow).read (space ++ word) =
          s.within (.destination target append) .plain path.toList := by
        rw [read_arrow hs harrow, read_path _ hspace hword]
        · rfl
        · cases append with
          | false => exact .inl ⟨rfl, rfl⟩
          | true => exact .inr rfl
      have hassoc : gap ++ arrow ++ space ++ word ++ tail ++ rest =
          gap ++ (arrow ++ ((space ++ word) ++ (tail ++ rest))) := by
        simp only [List.append_assoc]
      rw [hassoc, read_append, read_gap hs hgap, read_append, read_append _ (space ++ word), hpath,
        finish_read_within hnext, String.ofList_toList, hfiled, ih rfl]
      simp [hs]

/-- What a pipeline is written as adds its commands to those that are complete. -/
theorem finish_read_writesLine {line : List Char} {commands : List Command}
    (h : WritesLine line commands) (before : List Command) :
    ((⟨before, [], [], .gap⟩ : Scan).read line).finish = before ++ commands := by
  induction h generalizing before with
  | @one line command h =>
      have hread : ((⟨before, [], [], .gap⟩ : Scan).read (line ++ [])).finish = _ :=
        finish_read_writes h (by simp) rfl
      rw [List.append_nil] at hread
      rw [hread]
      rfl
  | @more line rest command commands h _ ih =>
      rw [finish_read_writes h (by simp) rfl, read_cons]
      change ((⟨before ++ [command], [], [], .gap⟩ : Scan).read rest).finish = _
      rw [ih, List.append_assoc, List.singleton_append]

end Scan

/-- Commands that can be written: no argument and no path is empty, and the stream of every redirect
is that of a digit. -/
def Command.IsWritable (c : Command) : Prop :=
  (∀ argument ∈ c.arguments, argument ≠ "") ∧
    ∀ r ∈ c.redirects, r.path ≠ "" ∧ ∃ d : Fin 10, r.target = Target.ofDescriptor d

theorem exists_spells {text : List Char} (h : text ≠ []) : ∃ word, Spells word text := by
  induction text with
  | nil => exact absurd rfl h
  | cons c rest ih =>
      by_cases hrest : rest = []
      · subst hrest
        exact ⟨_, .one (.escaped c)⟩
      · obtain ⟨word, hword⟩ := ih hrest
        exact ⟨_, .more (.escaped c) hword⟩

theorem exists_writes {arguments : List String} {redirects : List Redirect}
    (harguments : ∀ argument ∈ arguments, argument ≠ "")
    (hredirects : ∀ r ∈ redirects, r.path ≠ "" ∧ ∃ d : Fin 10, r.target = Target.ofDescriptor d) :
    ∃ line, Writes (' ' :: line) arguments redirects := by
  have hspells : ∀ text : String, text ≠ "" → ∃ word, Spells word text.toList := by
    intro text htext
    exact exists_spells fun hnil => htext (String.toList_eq_nil_iff.mp hnil)
  have hblank : IsGap [' '] := by simp [IsGap, isSeparator]
  induction arguments with
  | nil =>
      induction redirects with
      | nil => exact ⟨[], .nil hblank⟩
      | cons r rest ih =>
          obtain ⟨hpath, d, hd⟩ := hredirects r List.mem_cons_self
          obtain ⟨word, hword⟩ := hspells r.path hpath
          obtain ⟨line, hline⟩ := ih fun r hr => hredirects r (List.mem_cons_of_mem _ hr)
          obtain ⟨target, path, append⟩ := r
          obtain rfl : target = Target.ofDescriptor d := hd
          exact ⟨_, .redirect hblank (.digit d append) hblank hword hpath hline
            (by simp [MayEndPath, isSeparator])⟩
  | cons argument rest ih =>
      have hne := harguments argument List.mem_cons_self
      obtain ⟨word, hword⟩ := hspells argument hne
      obtain ⟨line, hline⟩ := ih fun a ha => harguments a (List.mem_cons_of_mem _ ha)
      exact ⟨_, .argument hblank hword hne hline (by simp [MayEndArgument, isSeparator])⟩

/-- Every pipeline of such commands can be written. -/
theorem exists_writesLine {commands : List Command} (hne : commands ≠ [])
    (h : ∀ c ∈ commands, c.IsWritable) : ∃ line, WritesLine line commands := by
  induction commands with
  | nil => exact absurd rfl hne
  | cons command rest ih =>
      obtain ⟨harguments, hredirects⟩ := h command List.mem_cons_self
      obtain ⟨line, hline⟩ := exists_writes harguments hredirects
      by_cases hrest : rest = []
      · subst hrest
        exact ⟨_, .one hline⟩
      · obtain ⟨more, hmore⟩ := ih hrest fun c hc => h c (List.mem_cons_of_mem _ hc)
        exact ⟨_, .more hline hmore⟩

/-- Reading a line that writes a pipeline gives that pipeline back. -/
theorem parseLine_of_writesLine {line : String} {commands : List Command}
    (h : WritesLine line.toList commands) : parseLine line = commands :=
  Scan.finish_read_writesLine h []

/-- Pieces of every kind, a quoted digit before a redirect, and a descriptor. -/
theorem parseLine_of_mixed_pieces :
    WritesLine "'2'>\"a\\\"\\b\" \\|''c 7>>e|wc".toList
        [⟨"2", ["|c"], [⟨.output, "a\"\\b", false⟩, ⟨.unknown 7, "e", true⟩]⟩, ⟨"wc", [], []⟩] ∧
      parseLine "'2'>\"a\\\"\\b\" \\|''c 7>>e|wc" =
        [⟨"2", ["|c"], [⟨.output, "a\"\\b", false⟩, ⟨.unknown 7, "e", true⟩]⟩, ⟨"wc", [], []⟩] := by
  have hgap : IsGap [] := by simp [IsGap]
  have hblank : IsGap [' '] := by simp [IsGap, isSeparator]
  have hbare : ∀ c, isBare c = true → Spells [c] [c] := fun c h => .one (.bare h)
  have hdigit : Writes ([' '] ++ ['7', '>', '>'] ++ [] ++ ['e'] ++ []) []
      [⟨.unknown 7, "e", true⟩] :=
    .redirect hblank (.digit 7 true) hgap (hbare 'e' (by decide)) (by decide) (.nil hgap)
      (by simp [MayEndPath])
  have hescaped : Spells (['\\', '|'] ++ (['\'', '\''] ++ ['c'])) "|c".toList :=
    .more (.escaped '|') (.more (@SpellsPiece.single [] (by simp)) (hbare 'c' (by decide)))
  have hquoted : Spells ('"' :: ['a', '\\', '"', '\\', 'b'] ++ ['"']) "a\"\\b".toList :=
    .one (.double (.plain (by decide) (.escaped (by decide) (.kept (by decide) .nil))))
  have hfirst : Spells ('\'' :: ['2'] ++ ['\'']) "2".toList := .one (.single (by simp))
  have hstage := Writes.argument hgap hfirst (by decide)
    (.redirect hgap (.output false) hgap hquoted (by decide)
      (.argument hblank hescaped (by decide) hdigit (by simp [MayEndArgument, isSeparator]))
      (by simp [MayEndPath, isSeparator]))
    (by simp [MayEndArgument])
  have hname : Spells (['w'] ++ ['c']) "wc".toList :=
    .more (.bare (by decide)) (hbare 'c' (by decide))
  have hlast : Writes ([] ++ (['w'] ++ ['c']) ++ []) ["wc"] [] :=
    .argument hgap hname (by decide) (.nil hgap) (by simp [MayEndArgument])
  have hline : WritesLine "'2'>\"a\\\"\\b\" \\|''c 7>>e|wc".toList
      [⟨"2", ["|c"], [⟨.output, "a\"\\b", false⟩, ⟨.unknown 7, "e", true⟩]⟩, ⟨"wc", [], []⟩] :=
    @WritesLine.more _ _ ⟨"2", ["|c"], _⟩ _ hstage (@WritesLine.one _ ⟨"wc", [], []⟩ hlast)
  exact ⟨hline, parseLine_of_writesLine hline⟩

end LineShell
