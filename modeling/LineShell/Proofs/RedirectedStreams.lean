import LineShell.Proofs.KeptRows

/-!
# Where redirected streams lead to

When all redirects of a command are open, each of its streams leads to the file of the last redirect
for it, or to where it led before. Every channel that was there before is as it was, also when a
redirect could not be opened.

## Implementation notes

`Redirection.LeadsTo` is about redirects that are opened after others, since it is proved from the
last redirect to the first one. A channel is closed only when its stream is redirected once more,
so a row is safe as long as no redirect to come is for a stream that leads to it.
-/

namespace LineShell

/-- Whether a target is a stream that a command has. -/
def Target.isStream : Target → Bool
  | .unknown _ => false
  | _ => true

namespace Redirection

/-- The row that replaces a stream. -/
def row? (r : Redirection) : Target → Option Nat
  | .output => r.output
  | .error => r.error
  | .unknown _ => .none

/-- Every row that replaces a stream is one of the first rows. -/
def IsBelow (r : Redirection) (bound : Nat) : Prop :=
  ∀ target row, r.row? target = some row → row < bound

/-- Where a stream leads to when redirects have been opened after those in force. -/
inductive LeadsTo (r : Redirection) (m : Machine) (cwd : WorkingDirectory)
    (redirects : List Redirect) (target : Target) (opened : Machine) : Option Nat → Prop
  /-- No redirect is for the stream. -/
  | before (others : ∀ redirect ∈ redirects, redirect.target ≠ target) :
      LeadsTo r m cwd redirects target opened (r.row? target)
  /-- The last redirect for the stream opened a file, which is still open. -/
  | file {earlier later : List Redirect} {redirect : Redirect} {between : Redirection}
      {reached after : Machine} {row : Nat}
      (split : redirects = earlier ++ redirect :: later)
      (same : redirect.target = target)
      (others : ∀ redirect ∈ later, redirect.target ≠ target)
      (openedEarlier : r.openFrom m cwd earlier = (reached, .ok between))
      (openedHere : reached.openFile cwd redirect.path redirect.append = .ok (after, row))
      (kept : opened.channel? row = after.channel? row) :
      LeadsTo r m cwd redirects target opened (some row)

variable {r final : Redirection} {m opened : Machine} {cwd : WorkingDirectory}
  {redirects : List Redirect} {target other : Target} {row new : Nat}

theorem row?_none (target : Target) : none.row? target = .none := by
  cases target <;> rfl

theorem row?_send_self (hstream : target.isStream = true) :
    (r.send target row).row? target = some row := by
  cases target with
  | output => rfl
  | error => rfl
  | unknown descriptor => simp [Target.isStream] at hstream

theorem row?_send_of_ne (hne : target ≠ other) :
    (r.send target row).row? other = r.row? other := by
  cases target with
  | output => cases other <;> simp_all [send, row?]
  | error => cases other <;> simp_all [send, row?]
  | unknown descriptor => rfl

/-- What replaces a stream afterwards is the new row, or replaced it before. -/
theorem row?_send_cases (h : (r.send target new).row? other = some row) :
    row = new ∧ target = other ∨ r.row? other = some row ∧ target ≠ other := by
  by_cases hsame : target = other
  · subst hsame
    cases target with
    | output => exact .inl ⟨(Option.some.inj h).symm, rfl⟩
    | error => exact .inl ⟨(Option.some.inj h).symm, rfl⟩
    | unknown descriptor => simp [row?] at h
  · rw [row?_send_of_ne hsame] at h
    exact .inr ⟨h, hsame⟩

/-- A channel that is closed belonged to the same stream, or is the new one. -/
theorem superseded_cases (h : r.superseded target new = some row) :
    r.row? target = some row ∨ row = new ∧ target.isStream = false := by
  cases target with
  | output => exact .inl h
  | error => exact .inl h
  | unknown descriptor => exact .inr ⟨(Option.some.inj h).symm, rfl⟩

theorem length_closeSuperseded (r : Redirection) (m : Machine) (target : Target) (new : Nat) :
    (r.closeSuperseded m target new).channels.length = m.channels.length := by
  simp only [closeSuperseded]
  split
  · simp [Machine.close, Machine.setChannel]
  · rfl

theorem isBelow_none (bound : Nat) : none.IsBelow bound := by
  intro target row h
  simp [row?_none] at h

/-- One more redirect is opened in a new row. -/
theorem IsBelow.send (hbelow : r.IsBelow m.channels.length) {path : String} {append : Bool}
    (hopen : m.openFile cwd path append = .ok (opened, new)) (target : Target) :
    (r.send target new).IsBelow (r.closeSuperseded opened target new).channels.length := by
  obtain ⟨rfl, channel, hchannels⟩ := Machine.openFile_eq hopen
  intro other row hrow
  rw [length_closeSuperseded, hchannels, List.length_append]
  rcases row?_send_cases hrow with ⟨rfl, -⟩ | ⟨hold, -⟩
  · exact Nat.lt_add_of_pos_right Nat.zero_lt_one
  · exact Nat.lt_add_right _ (hbelow other row hold)

/-- Opening redirects loses no row. -/
theorem length_openFrom (r : Redirection) (m : Machine) (cwd : WorkingDirectory)
    (redirects : List Redirect) :
    m.channels.length ≤ (r.openFrom m cwd redirects).1.channels.length := by
  induction redirects generalizing r m with
  | nil => exact Nat.le_refl _
  | cons redirect rest ih =>
      simp only [openFrom]
      split
      · exact Nat.le_refl _
      · rename_i opened new hopen
        calc
          m.channels.length ≤ opened.channels.length :=
            (Machine.keepsRow_openFile 0 hopen).length_le
          _ = (r.closeSuperseded opened redirect.target new).channels.length :=
            (length_closeSuperseded ..).symm
          _ ≤ _ := ih _ _

/-- A row is kept when no redirect is for a stream that leads to it. -/
theorem keepsRow_openFrom (hlt : row < m.channels.length)
    (hsafe : ∀ target, r.row? target = some row → ∀ redirect ∈ redirects,
      redirect.target ≠ target) :
    Machine.KeepsRow row m (r.openFrom m cwd redirects).1 := by
  induction redirects generalizing r m with
  | nil => exact .refl row m
  | cons redirect rest ih =>
      simp only [openFrom]
      split
      · exact .refl row m
      · rename_i opened new hopen
        have hopened := Machine.keepsRow_openFile row hopen
        obtain ⟨rfl, -⟩ := Machine.openFile_eq hopen
        have hclosed : Machine.KeepsRow row opened
            (r.closeSuperseded opened redirect.target m.channels.length) := by
          apply Machine.keepsRow_closeSuperseded
          intro hsuperseded
          rcases superseded_cases hsuperseded with hold | ⟨rfl, -⟩
          · exact hsafe _ hold redirect List.mem_cons_self rfl
          · exact Nat.lt_irrefl _ hlt
        have hfirst := hopened.trans hclosed
        have hsafeAfter : ∀ target, (r.send redirect.target m.channels.length).row? target =
            some row → ∀ later ∈ rest, later.target ≠ target := by
          intro target hrow later hlater
          rcases row?_send_cases hrow with ⟨rfl, -⟩ | ⟨hold, -⟩
          · exact absurd hlt (Nat.lt_irrefl _)
          · exact hsafe target hold later (List.mem_cons_of_mem _ hlater)
        exact hfirst.trans (ih (Nat.lt_of_lt_of_le hlt hfirst.length_le) hsafeAfter)

/-- What was opened for a stream stays open when no later redirect is for the stream. -/
theorem channel?_openFrom_new (hbelow : r.IsBelow m.channels.length)
    (hstream : target.isStream = true) {path : String} {append : Bool} {after : Machine}
    (hfile : m.openFile cwd path append = .ok (after, new))
    (hothers : ∀ redirect ∈ redirects, redirect.target ≠ target) :
    ((r.send target new).openFrom (r.closeSuperseded after target new) cwd
      redirects).1.channel? new = after.channel? new := by
  obtain ⟨rfl, channel, hchannels⟩ := Machine.openFile_eq hfile
  have hlt : m.channels.length < after.channels.length := by
    simp [hchannels]
  have hclosed : Machine.KeepsRow m.channels.length after
      (r.closeSuperseded after target m.channels.length) := by
    apply Machine.keepsRow_closeSuperseded
    intro hsuperseded
    rcases superseded_cases hsuperseded with hold | ⟨-, hnone⟩
    · exact Nat.lt_irrefl _ (hbelow _ _ hold)
    · simp [hstream] at hnone
  have hlater : Machine.KeepsRow m.channels.length
      (r.closeSuperseded after target m.channels.length)
      ((r.send target m.channels.length).openFrom
        (r.closeSuperseded after target m.channels.length) cwd redirects).1 := by
    apply keepsRow_openFrom (Nat.lt_of_lt_of_le hlt hclosed.length_le)
    intro other hrow
    rcases row?_send_cases hrow with ⟨-, rfl⟩ | ⟨hold, -⟩
    · exact hothers
    · exact absurd (hbelow _ _ hold) (Nat.lt_irrefl _)
  exact (hclosed.trans hlater).channel?_eq hlt

/-- With all redirects open, a stream leads where the last redirect for it says. -/
theorem leadsTo_openFrom (hbelow : r.IsBelow m.channels.length) (hstream : target.isStream = true)
    (hopen : r.openFrom m cwd redirects = (opened, .ok final)) :
    r.LeadsTo m cwd redirects target opened (final.row? target) := by
  induction redirects generalizing r m with
  | nil =>
      obtain ⟨rfl, hfinal⟩ := Prod.mk.inj hopen
      obtain rfl := Except.ok.inj hfinal
      exact .before (by simp)
  | cons redirect rest ih =>
      simp only [openFrom] at hopen
      split at hopen
      · simp at hopen
      · rename_i after new hfile
        have htail := ih (hbelow.send hfile redirect.target) hopen
        generalize final.row? target = last at htail ⊢
        cases htail with
        | before hothers =>
            by_cases hsame : redirect.target = target
            · subst hsame
              rw [row?_send_self hstream]
              have hkept := channel?_openFrom_new hbelow hstream hfile hothers
              rw [hopen] at hkept
              exact .file (List.nil_append _).symm rfl hothers rfl hfile hkept
            · rw [row?_send_of_ne hsame]
              refine .before ?_
              intro each heach
              rcases List.mem_cons.mp heach with rfl | hrest
              · exact hsame
              · exact hothers each hrest
        | @file earlier later each between reached _ row split same others openedEarlier openedHere
            kept =>
            subst split
            have hreached : r.openFrom m cwd (redirect :: earlier) = (reached, .ok between) := by
              simp only [openFrom, hfile]
              exact openedEarlier
            exact .file (List.cons_append ..).symm same others hreached openedHere kept

theorem leadsTo_openAll (hstream : target.isStream = true)
    (hopen : openAll m cwd redirects = (opened, .ok final)) :
    none.LeadsTo m cwd redirects target opened (final.row? target) :=
  leadsTo_openFrom (isBelow_none _) hstream hopen

/-- Opening the redirects of a command keeps every row there is. -/
theorem keepsRow_openAll (hlt : row < m.channels.length) (cwd : WorkingDirectory)
    (redirects : List Redirect) :
    Machine.KeepsRow row m (openAll m cwd redirects).1 := by
  apply keepsRow_openFrom hlt
  intro target hrow
  simp [row?_none] at hrow

/-- A stream that redirects are for leads to a new row. -/
theorem LeadsTo.none_or_new {replaced : Option Nat}
    (h : none.LeadsTo m cwd redirects target opened replaced) :
    (replaced = .none ∧ ∀ redirect ∈ redirects, redirect.target ≠ target) ∨
      ∃ row, replaced = some row ∧ m.channels.length ≤ row ∧
        ∃ redirect ∈ redirects, redirect.target = target := by
  cases h with
  | before others => exact .inl ⟨row?_none target, others⟩
  | @file earlier later redirect _ reached _ row split same _ openedEarlier openedHere _ =>
      have hlength := length_openFrom none m cwd earlier
      rw [openedEarlier] at hlength
      have hrow : m.channels.length ≤ row := by
        rwa [(Machine.openFile_eq openedHere).1]
      refine .inr ⟨row, rfl, hrow, redirect, ?_, same⟩
      simp [split]

end Redirection

end LineShell
