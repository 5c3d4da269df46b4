import LineShell.Proofs.SettledCompletion
import LineShell.Proofs.WholeKeys

/-!
# When candidates are listed

A key that completes lists the candidates when the bell has rung for the text as it is and nothing
was edited since. The editor remembers this in a flag. Text that is put in by completion leaves the
flag alone, and yet never makes it wrong: nothing is put in for a text for which the bell has rung.

## Implementation notes

`Effect` tells what an octet did to a line, and `Editor.trace` the effects of a run of octets, each
with the text before it. The flag is the one thing that these do not mention.
-/

namespace LineShell

/-- What an octet did to a line. -/
inductive Effect where
  | inserted (c : Char)
  /-- The key that erases; there may have been no character to erase. -/
  | erased
  | recalled (line : String)
  /-- Completion put in some text. -/
  | completed (text : String)
  | rang
  | listed (names : List String)
  | nothing
  deriving DecidableEq, Repr

namespace Effect

/-- A character was inserted, one was erased, or a line was recalled. -/
def edits : Effect → Bool
  | .inserted _ | .erased | .recalled _ => true
  | .completed _ | .rang | .listed _ | .nothing => false

/-- The bell rang; it does so, too, when candidates are listed. -/
def rings : Effect → Bool
  | .rang | .listed _ => true
  | .inserted _ | .erased | .recalled _ | .completed _ | .nothing => false

/-- The text of the line afterwards. -/
def after (buffer : String) : Effect → String
  | .inserted c => buffer.push c
  | .erased => dropLastChar buffer
  | .recalled line => line
  | .completed text => buffer ++ text
  | .rang | .listed _ | .nothing => buffer

/-- What is shown of it. -/
def shown (prompt buffer : String) : Effect → String
  | .inserted c => String.singleton c
  | .erased => if buffer = "" then "" else eraseChar
  | .recalled line => eraseLine ++ prompt ++ line
  | .completed text => text
  | .rang => bell
  | .listed names => "\n" ++ joined "  " names ++ "\n" ++ prompt ++ buffer ++ bell
  | .nothing => ""

end Effect

/-- A line was recalled, if there was one to recall. -/
def Effect.ofRecalled : Option (String × History) → Effect
  | none => .nothing
  | some (line, _) => .recalled line

/-- What an answer of completion does to a line. -/
def Effect.ofCompletion : Completion → Effect
  | .insert text => .completed text
  | .bell => .rang
  | .listing names => .listed names

/-- A character was inserted, when all its octets had arrived. -/
def Effect.ofReading : Utf8.Reading → Effect
  | .character c => .inserted c
  | _ => .nothing

/-- The effect of one octet. -/
def Editor.effect (editor : Editor) (s : LineState) (octet : UInt8) : Effect :=
  match s.escape with
  | .begun => .nothing
  | .second second =>
    if second = 0x5B ∧ octet = 0x41 then .ofRecalled s.history.previous?
    else if second = 0x5B ∧ octet = 0x42 then .ofRecalled s.history.next?
    else .nothing
  | .none =>
    if octet = 0x09 then .ofCompletion (editor.complete s.buffer s.bellRang)
    else if octet = 0x7F ∨ octet = 0x08 then .erased
    else if octet ∈ keyOctets then .nothing
    else .ofReading (Utf8.read (s.pending ++ [octet]))

/-- The effects of octets as long as the line goes on, each with the text before it. -/
def Editor.trace (editor : Editor) (s : LineState) : Bytes → List (String × Effect)
  | [] => []
  | octet :: rest =>
    (s.buffer, editor.effect s octet) ::
      match editor.press s octet with
      | .goOn next _ => trace editor next rest
      | .done _ _ => []

/-- An effect tells what becomes of the text and the flag, and what is shown. -/
structure Effect.Explains (effect : Effect) (editor : Editor) (s next : LineState)
    (shown : String) : Prop where
  buffer : next.buffer = effect.after s.buffer
  bellRang : next.bellRang = (effect.rings || s.bellRang && !effect.edits)
  shown : shown = effect.shown editor.prompt s.buffer

namespace Editor

variable {editor : Editor} {s next last : LineState} {octet : UInt8} {octets : Bytes}
  {shown : String}

theorem explains_recallLine {recalled : Option (String × History)}
    (h : editor.recallLine s recalled = .goOn next shown) :
    (Effect.ofRecalled recalled).Explains editor s next shown := by
  cases recalled with
  | none =>
      obtain ⟨rfl, rfl⟩ := Press.goOn.inj h
      exact ⟨rfl, by simp [Effect.ofRecalled, Effect.rings, Effect.edits], rfl⟩
  | some found =>
      obtain ⟨rfl, rfl⟩ := Press.goOn.inj h
      exact ⟨rfl, by simp [Effect.ofRecalled, Effect.rings, Effect.edits], rfl⟩

theorem explains_completeText (h : editor.completeText s = .goOn next shown) :
    (Effect.ofCompletion (editor.complete s.buffer s.bellRang)).Explains editor s next shown := by
  simp only [completeText] at h
  cases hcomplete : editor.complete s.buffer s.bellRang <;>
    (rw [hcomplete] at h; obtain ⟨rfl, rfl⟩ := Press.goOn.inj h)
  · exact ⟨rfl, by simp [Effect.ofCompletion, Effect.rings, Effect.edits], rfl⟩
  · exact ⟨rfl, by simp [Effect.ofCompletion, Effect.rings], rfl⟩
  · exact ⟨rfl, by simp [Effect.ofCompletion, Effect.rings], rfl⟩

theorem explains_insert (h : insert s octet = .goOn next shown) :
    (Effect.ofReading (Utf8.read (s.pending ++ [octet]))).Explains editor s next shown := by
  simp only [insert] at h
  cases hread : Utf8.read (s.pending ++ [octet]) <;>
    (rw [hread] at h; obtain ⟨rfl, rfl⟩ := Press.goOn.inj h)
  · exact ⟨rfl, by simp [Effect.ofReading, Effect.rings, Effect.edits], rfl⟩
  · exact ⟨rfl, by simp [Effect.ofReading, Effect.rings, Effect.edits], rfl⟩
  · exact ⟨rfl, by simp [Effect.ofReading, Effect.rings, Effect.edits], rfl⟩

/-- An octet that leaves text and flag alone. -/
theorem explains_nothing (hbuffer : next.buffer = s.buffer) (hflag : next.bellRang = s.bellRang) :
    Effect.nothing.Explains editor s next "" :=
  ⟨hbuffer, by simp [hflag, Effect.rings, Effect.edits], rfl⟩

/-- The other keys either end the line or leave its text and its flag alone. -/
theorem explains_of_mem_keyOctets (hkey : octet ∈ keyOctets) (htab : octet ≠ 0x09)
    (herase : ¬(octet = 0x7F ∨ octet = 0x08)) (h : editor.pressKey s octet = .goOn next shown) :
    Effect.nothing.Explains editor s next shown := by
  rw [not_or] at herase
  simp only [keyOctets, List.mem_cons, List.not_mem_nil, or_false, htab, herase, false_or] at hkey
  rcases hkey with rfl | rfl | rfl | rfl | rfl
  · simp [pressKey] at h
  · simp only [pressKey, if_true] at h
    split at h
    · simp at h
    · obtain ⟨rfl, rfl⟩ := Press.goOn.inj h
      exact explains_nothing rfl rfl
  · simp [pressKey] at h
  · simp [pressKey] at h
  · obtain ⟨rfl, rfl⟩ := Press.goOn.inj h
    exact explains_nothing rfl rfl

theorem explains_pressKey (hidle : s.escape = .none)
    (h : editor.pressKey s octet = .goOn next shown) :
    (editor.effect s octet).Explains editor s next shown := by
  simp only [effect, hidle]
  by_cases htab : octet = 0x09
  · subst htab
    exact explains_completeText h
  · by_cases herase : octet = 0x7F ∨ octet = 0x08
    · have hpressed : editor.pressKey s octet = erase s := by
        rcases herase with rfl | rfl <;> rfl
      rw [hpressed] at h
      obtain ⟨rfl, rfl⟩ := Press.goOn.inj h
      simp only [htab, herase, if_true, if_false]
      exact ⟨rfl, by simp [Effect.rings, Effect.edits], rfl⟩
    · by_cases hkey : octet ∈ keyOctets
      · simp only [htab, herase, hkey, if_true, if_false]
        exact explains_of_mem_keyOctets hkey htab herase h
      · have hpress : editor.press s octet = editor.pressKey s octet := by
          simp only [press, hidle]
        rw [← hpress, press_of_not_mem hidle hkey] at h
        simp only [htab, herase, hkey, if_false]
        exact explains_insert h

theorem explains_finishEscape {second third : UInt8} (hescape : s.escape = .second second)
    (h : editor.finishEscape s second third = .goOn next shown) :
    (editor.effect s third).Explains editor s next shown := by
  simp only [effect, hescape]
  simp only [finishEscape] at h
  by_cases hsecond : second = 0x5B
  · simp only [hsecond, true_and, if_true] at h ⊢
    split at h
    · rename_i hprevious
      rw [if_pos hprevious]
      have hrecalled := explains_recallLine h
      exact ⟨hrecalled.buffer, hrecalled.bellRang, hrecalled.shown⟩
    · rename_i hprevious
      rw [if_neg hprevious]
      split at h
      · rename_i hnext
        rw [if_pos hnext]
        have hrecalled := explains_recallLine h
        exact ⟨hrecalled.buffer, hrecalled.bellRang, hrecalled.shown⟩
      · rename_i hnext
        obtain ⟨rfl, rfl⟩ := Press.goOn.inj h
        rw [if_neg hnext]
        exact explains_nothing rfl rfl
  · simp only [hsecond, false_and, if_false] at h ⊢
    obtain ⟨rfl, rfl⟩ := Press.goOn.inj h
    exact explains_nothing rfl rfl

/-- The effect of an octet explains what becomes of the line. -/
theorem explains_press (h : editor.press s octet = .goOn next shown) :
    (editor.effect s octet).Explains editor s next shown := by
  simp only [press] at h
  split at h
  case h_1 hidle => exact explains_pressKey hidle h
  case h_2 hbegun =>
    obtain ⟨rfl, rfl⟩ := Press.goOn.inj h
    simp only [effect, hbegun]
    exact explains_nothing rfl rfl
  case h_3 second hsecond => exact explains_finishEscape hsecond h

/-! ## A run of octets -/

theorem trace_cons (h : editor.press s octet = .goOn next shown) (rest : Bytes) :
    editor.trace s (octet :: rest) =
      (s.buffer, editor.effect s octet) :: editor.trace next rest := by
  simp only [trace, h]

/-- What is shown of a run is what is shown of its effects. -/
theorem shown_of_pressAll (h : editor.pressAll s octets = .goOn last shown) :
    shown = String.join
      ((editor.trace s octets).map fun entry => entry.2.shown editor.prompt entry.1) := by
  induction octets generalizing s shown with
  | nil =>
      obtain ⟨-, rfl⟩ := Press.goOn.inj h
      rfl
  | cons octet rest ih =>
      obtain ⟨next, first, more, hpress, hrest, rfl⟩ := pressAll_cons_goOn h
      rw [trace_cons hpress, List.map_cons, String.join_cons, ← ih hrest,
        (explains_press hpress).shown]

/-- The answer of a completion is the one that its effect tells. -/
theorem complete_of_effect (answer : Completion)
    (h : editor.effect s octet = .ofCompletion answer) :
    editor.complete s.buffer s.bellRang = answer := by
  have hcompletion : ∀ answer, Effect.ofCompletion answer ≠ .nothing := by
    intro answer
    cases answer <;> simp [Effect.ofCompletion]
  have hrecalled : ∀ recalled answer, Effect.ofRecalled recalled ≠ .ofCompletion answer := by
    intro recalled answer
    cases recalled <;> cases answer <;> simp [Effect.ofRecalled, Effect.ofCompletion]
  have hreading : ∀ reading answer, Effect.ofReading reading ≠ .ofCompletion answer := by
    intro reading answer
    cases reading <;> cases answer <;> simp [Effect.ofReading, Effect.ofCompletion]
  simp only [effect] at h
  split at h
  · exact absurd h.symm (hcompletion answer)
  · split at h
    · exact absurd h (hrecalled _ answer)
    · split at h
      · exact absurd h (hrecalled _ answer)
      · exact absurd h.symm (hcompletion answer)
  · split at h
    · cases hfound : editor.complete s.buffer s.bellRang <;> cases answer <;>
        simp_all [Effect.ofCompletion]
    · split at h
      · cases answer <;> simp [Effect.ofCompletion] at h
      · split at h
        · exact absurd h.symm (hcompletion answer)
        · exact absurd h (hreading _ answer)

/-- An editor that puts in the same text whether the bell has rung or not, and lists nothing before
it has. -/
structure RingsFirst (editor : Editor) : Prop where
  insert : ∀ typed text bellRang other, editor.complete typed bellRang = .insert text →
    editor.complete typed other = .insert text
  listing : ∀ typed names, editor.complete typed false ≠ .listing names

/-- Nothing is put in for the text of a line for which the bell has rung. -/
def Settled (editor : Editor) (s : LineState) : Prop :=
  s.bellRang = true → ∀ bellRang text, editor.complete s.buffer bellRang ≠ .insert text

/-- When the flag is set after an octet, the text is as before, and either the bell rang or the flag
was set and nothing was done. -/
theorem rang_cases (hsettled : editor.Settled s) (hpress : editor.press s octet = .goOn next shown)
    (hrang : next.bellRang = true) :
    next.buffer = s.buffer ∧ ((editor.effect s octet).rings = true ∨
      s.bellRang = true ∧ editor.effect s octet = .nothing) := by
  have hexplains := explains_press hpress
  have hbuffer := hexplains.buffer
  have hflag := hexplains.bellRang
  rw [hrang] at hflag
  cases heffect : editor.effect s octet with
  | inserted | erased | recalled => simp [heffect, Effect.rings, Effect.edits] at hflag
  | completed text =>
      have hbefore : s.bellRang = true := by
        simpa [heffect, Effect.rings, Effect.edits] using hflag.symm
      exact absurd (complete_of_effect (.insert text) heffect)
        (hsettled hbefore _ text)
  | rang | listed =>
      rw [heffect] at hbuffer
      exact ⟨hbuffer, .inl rfl⟩
  | nothing =>
      have hbefore : s.bellRang = true := by
        simpa [heffect, Effect.rings, Effect.edits] using hflag.symm
      rw [heffect] at hbuffer
      exact ⟨hbuffer, .inr ⟨hbefore, rfl⟩⟩

theorem bellRang_of_listed (hfirst : editor.RingsFirst) {names : List String}
    (heffect : editor.effect s octet = .listed names) : s.bellRang = true := by
  have hlisting := complete_of_effect (.listing names) heffect
  cases hrang : s.bellRang with
  | true => rfl
  | false =>
      rw [hrang] at hlisting
      exact absurd hlisting (hfirst.listing _ names)

/-- Where the bell rings, nothing is put in. -/
theorem complete_ne_insert_of_rings (hfirst : editor.RingsFirst)
    (hrings : (editor.effect s octet).rings = true) (bellRang : Bool) (text : String) :
    editor.complete s.buffer bellRang ≠ .insert text := by
  intro hinsert
  have hsame := hfirst.insert _ _ _ s.bellRang hinsert
  cases heffect : editor.effect s octet with
  | rang =>
      rw [complete_of_effect .bell heffect] at hsame
      simp at hsame
  | listed names =>
      rw [complete_of_effect (.listing names) heffect] at hsame
      simp at hsame
  | inserted | erased | recalled | completed | nothing => simp [heffect, Effect.rings] at hrings

theorem Settled.press (hfirst : editor.RingsFirst) (h : editor.Settled s)
    (hpress : editor.press s octet = .goOn next shown) : editor.Settled next := by
  intro hrang
  obtain ⟨hbuffer, hrings | ⟨hbefore, -⟩⟩ := rang_cases h hpress hrang
  · rw [hbuffer]
    exact complete_ne_insert_of_rings hfirst hrings
  · rw [hbuffer]
    exact h hbefore

/-- When the flag is set, the bell has rung for this text and nothing was edited since, during the
run or before it. -/
theorem exists_rang_of_pressAll (hfirst : editor.RingsFirst) (hsettled : editor.Settled s)
    (h : editor.pressAll s octets = .goOn last shown) (hrang : last.bellRang = true) :
    (s.bellRang = true ∧ last.buffer = s.buffer ∧
      ∀ entry ∈ editor.trace s octets, entry.2.edits = false) ∨
    ∃ before later, editor.trace s octets = before ++ (last.buffer, .rang) :: later ∧
      ∀ entry ∈ later, entry.2.edits = false := by
  induction octets generalizing s shown with
  | nil =>
      obtain ⟨rfl, -⟩ := Press.goOn.inj h
      exact .inl ⟨hrang, rfl, by simp [trace]⟩
  | cons octet rest ih =>
      obtain ⟨next, first, more, hpress, hrest, -⟩ := pressAll_cons_goOn h
      rw [trace_cons hpress]
      rcases ih (hsettled.press hfirst hpress) hrest with ⟨hnext, hlast, hquiet⟩ |
        ⟨before, later, htrace, hquiet⟩
      · obtain ⟨hbuffer, hcause⟩ := rang_cases hsettled hpress hnext
        rw [hlast, hbuffer]
        -- A listing is no news: the flag was set before.
        cases heffect : editor.effect s octet with
        | rang => exact .inr ⟨[], editor.trace next rest, rfl, hquiet⟩
        | listed names =>
            refine .inl ⟨bellRang_of_listed hfirst heffect, rfl, ?_⟩
            exact List.forall_mem_cons.mpr ⟨rfl, hquiet⟩
        | nothing =>
            refine .inl ⟨?_, rfl, List.forall_mem_cons.mpr ⟨rfl, hquiet⟩⟩
            simpa [heffect, Effect.rings] using hcause
        | inserted | erased | recalled | completed =>
            simp [heffect, Effect.rings] at hcause
      · exact .inr ⟨(s.buffer, editor.effect s octet) :: before, later, by rw [htrace]; rfl, hquiet⟩

/-- The first entry of a trace is that of the first octet. -/
theorem exists_press_of_trace_cons (h : editor.pressAll s octets = .goOn last shown)
    {entry : String × Effect} {after : List (String × Effect)}
    (htrace : editor.trace s octets = entry :: after) :
    ∃ octet rest next first more, octets = octet :: rest ∧
      editor.press s octet = .goOn next first ∧ editor.pressAll next rest = .goOn last more ∧
      entry = (s.buffer, editor.effect s octet) ∧ editor.trace next rest = after := by
  cases octets with
  | nil => simp [trace] at htrace
  | cons octet rest =>
      obtain ⟨next, first, more, hpress, hrest, -⟩ := pressAll_cons_goOn h
      rw [trace_cons hpress] at htrace
      obtain ⟨hentry, hafter⟩ := List.cons.inj htrace
      exact ⟨octet, rest, next, first, more, rfl, hpress, hrest, hentry.symm, hafter⟩

/-- After a completion that has put in some text, the bell has rung anew when the flag is set. -/
theorem exists_rang_of_completed (hfirst : editor.RingsFirst) (hsettled : editor.Settled s)
    (h : editor.pressAll s octets = .goOn last shown) (hrang : last.bellRang = true)
    {before after : List (String × Effect)} {buffer text : String}
    (htrace : editor.trace s octets = before ++ (buffer, .completed text) :: after) :
    ∃ between later, after = between ++ (last.buffer, .rang) :: later ∧
      ∀ entry ∈ later, entry.2.edits = false := by
  induction before generalizing s octets shown with
  | nil =>
      obtain ⟨octet, rest, next, first, more, rfl, hpress, hrest, hentry, rfl⟩ :=
        exists_press_of_trace_cons h htrace
      have heffect : editor.effect s octet = .completed text := congrArg Prod.snd hentry.symm
      rcases exists_rang_of_pressAll hfirst (hsettled.press hfirst hpress) hrest hrang with
        ⟨hflag, -, -⟩ | hfound
      · obtain ⟨-, hcause⟩ := rang_cases hsettled hpress hflag
        simp [heffect, Effect.rings] at hcause
      · exact hfound
  | cons head before ih =>
      obtain ⟨octet, rest, next, first, more, rfl, hpress, hrest, -, hafter⟩ :=
        exists_press_of_trace_cons h htrace
      exact ih (hsettled.press hfirst hpress) hrest hafter

/-- The flag stays set as long as nothing is edited. -/
theorem bellRang_of_quiet (h : editor.pressAll s octets = .goOn last shown)
    (hrang : s.bellRang = true) (hquiet : ∀ entry ∈ editor.trace s octets, entry.2.edits = false) :
    last.bellRang = true := by
  induction octets generalizing s shown with
  | nil =>
      obtain ⟨rfl, -⟩ := Press.goOn.inj h
      exact hrang
  | cons octet rest ih =>
      obtain ⟨next, first, more, hpress, hrest, -⟩ := pressAll_cons_goOn h
      rw [trace_cons hpress, List.forall_mem_cons] at hquiet
      apply ih hrest _ hquiet.2
      rw [(explains_press hpress).bellRang, hrang, hquiet.1]
      simp

/-- The flag is set when the bell has rung and nothing was edited since. -/
theorem bellRang_of_trace (h : editor.pressAll s octets = .goOn last shown)
    {before later : List (String × Effect)} {buffer : String} {answer : Effect}
    (htrace : editor.trace s octets = before ++ (buffer, answer) :: later)
    (hrings : answer.rings = true) (hquiet : ∀ entry ∈ later, entry.2.edits = false) :
    last.bellRang = true := by
  induction before generalizing s octets shown with
  | nil =>
      obtain ⟨octet, rest, next, first, more, rfl, hpress, hrest, hentry, rfl⟩ :=
        exists_press_of_trace_cons h htrace
      have heffect : editor.effect s octet = answer := congrArg Prod.snd hentry.symm
      apply bellRang_of_quiet hrest _ hquiet
      rw [(explains_press hpress).bellRang, heffect, hrings]
      rfl
  | cons head before ih =>
      obtain ⟨octet, rest, next, first, more, rfl, hpress, hrest, -, hafter⟩ :=
        exists_press_of_trace_cons h htrace
      exact ih hrest hafter

/-! ## Listings -/

/-- The key that completes shows some names below the line, and the line again. -/
def Lists (editor : Editor) (s : LineState) (names : List String) : Prop :=
  editor.press s 0x09 = .goOn { s with bellRang := true }
    ("\n" ++ joined "  " names ++ "\n" ++ editor.prompt ++ s.buffer ++ bell)

theorem press_tab (hidle : s.escape = .none) : editor.press s 0x09 = editor.completeText s := by
  simp only [press, hidle]
  rfl

theorem lists_of_complete (hidle : s.escape = .none) {names : List String}
    (h : editor.complete s.buffer s.bellRang = .listing names) : editor.Lists s names := by
  rw [Lists, press_tab hidle, completeText, h]

/-- What is shown is a listing only if completion lists. -/
theorem exists_listing_of_lists (hidle : s.escape = .none) {names : List String}
    (h : editor.Lists s names) :
    ∃ listed, editor.complete s.buffer s.bellRang = .listing listed := by
  have hfirst : ∀ more : String, ("\n" ++ more).toList.head? = some '\n' := by
    intro more
    rw [String.toList_append]
    rfl
  have hhead : ∀ text : String,
      text = "\n" ++ joined "  " names ++ "\n" ++ editor.prompt ++ s.buffer ++ bell →
      text.toList.head? = some '\n' := by
    rintro _ rfl
    simp only [String.append_assoc]
    exact hfirst _
  rw [Lists, press_tab hidle, completeText] at h
  cases hcomplete : editor.complete s.buffer s.bellRang with
  | insert text =>
      rw [hcomplete] at h
      obtain ⟨hstate, htext⟩ := Press.goOn.inj h
      have hbuffer : s.buffer ++ text = s.buffer ++ "" := by
        simpa using congrArg LineState.buffer hstate
      have hempty := (String.append_right_inj s.buffer).mp hbuffer
      have hline := hhead text htext
      rw [hempty] at hline
      simp at hline
  | bell =>
      rw [hcomplete] at h
      obtain ⟨-, htext⟩ := Press.goOn.inj h
      have hline := hhead bell htext
      exact absurd hline (by decide)
  | listing listed => exact ⟨listed, rfl⟩

end Editor

namespace Completer

variable {completer : Completer} {volume : Volume} {cwd : WorkingDirectory} {prompt : String}
  {history : History} {octets : Bytes} {s : LineState} {shown : String}

/-- An editor that completes command names. -/
def editor (completer : Completer) (volume : Volume) (cwd : WorkingDirectory) (prompt : String) :
    Editor :=
  ⟨prompt, completer.complete volume cwd⟩

theorem ringsFirst_editor : (completer.editor volume cwd prompt).RingsFirst where
  insert _ _ _ _ := complete_insert_of_insert
  listing typed names hlisting := by
    have hrang := (exists_listing_iff.mp ⟨names, hlisting⟩).2
    simp at hrang

theorem exists_lists_iff (hidle : s.escape = .none) :
    (∃ names, (completer.editor volume cwd prompt).Lists s names) ↔
      completer.IsAmbiguous volume cwd s.buffer ∧ s.bellRang = true := by
  rw [← exists_listing_iff]
  constructor
  · rintro ⟨names, hlists⟩
    exact Editor.exists_listing_of_lists hidle hlists
  · rintro ⟨names, hlisting⟩
    exact ⟨names, Editor.lists_of_complete hidle hlisting⟩

/-- A key that completes lists the candidates if and only if the text is ambiguous and the bell has
rung for it in the same line, by itself or with a listing, with no character inserted, no key that
erases and no line recalled since. If text was put in by completion, the bell has rung by itself
after that. What has been shown so far is what the effects of the octets tell. -/
theorem lists_iff_rang_before
    (hopen : (completer.editor volume cwd prompt).pressAll (.start history) octets =
      .goOn s shown) (hidle : s.escape = .none) :
    ((∃ names, (completer.editor volume cwd prompt).Lists s names) ↔
      completer.IsAmbiguous volume cwd s.buffer ∧
        ∃ before answer later,
          (completer.editor volume cwd prompt).trace (.start history) octets =
            before ++ (s.buffer, answer) :: later ∧
          answer.rings = true ∧ ∀ entry ∈ later, entry.2.edits = false) ∧
    ((∃ names, (completer.editor volume cwd prompt).Lists s names) →
      (completer.editor volume cwd prompt).Lists s (completer.candidates volume cwd s.buffer) ∧
      ∀ before buffer text after,
        (completer.editor volume cwd prompt).trace (.start history) octets =
          before ++ (buffer, .completed text) :: after →
        ∃ between later, after = between ++ (s.buffer, .rang) :: later ∧
          ∀ entry ∈ later, entry.2.edits = false) ∧
    shown = String.join (((completer.editor volume cwd prompt).trace (.start history) octets).map
      fun entry => entry.2.shown prompt entry.1) := by
  have hfirst : (completer.editor volume cwd prompt).RingsFirst := ringsFirst_editor
  have hstart : (completer.editor volume cwd prompt).Settled (.start history) := by
    intro hrang
    simp [LineState.start] at hrang
  refine ⟨?_, ?_, Editor.shown_of_pressAll hopen⟩
  · rw [exists_lists_iff hidle, and_congr_right_iff]
    intro _
    constructor
    · intro hrang
      rcases Editor.exists_rang_of_pressAll hfirst hstart hopen hrang with
        ⟨hbefore, -, -⟩ | ⟨before, later, htrace, hquiet⟩
      · simp [LineState.start] at hbefore
      · exact ⟨before, .rang, later, htrace, rfl, hquiet⟩
    · rintro ⟨before, answer, later, htrace, hrings, hquiet⟩
      exact Editor.bellRang_of_trace hopen htrace hrings hquiet
  · intro hlists
    obtain ⟨hambiguous, hrang⟩ := (exists_lists_iff hidle).mp hlists
    constructor
    · apply Editor.lists_of_complete hidle
      rw [hrang]
      exact complete_again_of_isAmbiguous hambiguous
    · intro before buffer text after htrace
      exact Editor.exists_rang_of_completed hfirst hstart hopen hrang htrace

/-- The first key that completes puts in `é`, the second one rings, and an ignored key and half a
character later the third one lists. -/
theorem lists_iff_rang_before_of_accents :
    ∃ s shown,
      Editor.pressAll (editor ⟨["né", "nérée"], none⟩ .empty .root "$ ") (.start .empty)
        [0x6E, 0x09, 0x09, 0x04, 0xC3] = .goOn s shown ∧
      shown = "né\x07" ∧
      (editor ⟨["né", "nérée"], none⟩ .empty .root "$ ").Lists s ["né", "nérée"] := by
  have hopen : Editor.pressAll (editor ⟨["né", "nérée"], none⟩ .empty .root "$ ") (.start .empty)
      [0x6E, 0x09, 0x09, 0x04, 0xC3] = .goOn ⟨"né", [0xC3], true, .none, .empty⟩ "né\x07" := by
    decide +kernel
  obtain ⟨hiff, hlists, -⟩ := lists_iff_rang_before hopen rfl
  have hlisting : complete ⟨["né", "nérée"], none⟩ .empty .root "né" true =
      .listing ["né", "nérée"] := by decide +kernel
  have hambiguous := (exists_listing_iff.mp ⟨_, hlisting⟩).1
  have hshown : ∃ names, (editor ⟨["né", "nérée"], none⟩ .empty .root "$ ").Lists
      ⟨"né", [0xC3], true, .none, .empty⟩ names := by
    refine hiff.mpr ⟨hambiguous, [("", .inserted 'n'), ("n", .completed "é")], .rang,
      [("né", .nothing), ("né", .nothing)], ?_, rfl, by decide⟩
    decide +kernel
  exact ⟨_, _, hopen, rfl, (hlists hshown).1⟩

end Completer

end LineShell
