import LineShell.Editor.Keys
import LineShell.Proofs.KeyRuns
import LineShell.Proofs.ReadingCharacters

/-!
# Editing by octets and editing by keys

The editor takes octets and remembers how far an escape or a character has come. Whoever types only
whole keys may think of an editor that takes keys: on the octets of any keys both read the same
line, show the same text, leave the cursor of the history at the same line and leave the same keys
unread.

## Implementation notes

`Draft.state` is the state of the line that a draft stands for, with no octet waiting.
`Editor.pressAll_octets` is the step: the octets of a key lead from the state of a draft to the
state of the draft after the key. It needs the cursor of the history to be within the lines, which
every key preserves.
-/

namespace LineShell

/-- Octets that are keys of the editor rather than parts of a character. -/
def keyOctets : List UInt8 := [0x03, 0x04, 0x08, 0x09, 0x0A, 0x0D, 0x1B, 0x7F]

/-- What arrives when keys are pressed. -/
def Key.reads (keys : List Key) : List Read := (keys.flatMap Key.octets).map .octet

/-- The line that a draft stands for, between two keys. -/
def Draft.state (d : Draft) : LineState :=
  ⟨String.ofList d.buffer, [], d.bellRang, .none, d.history⟩

/-- What the octets of a key do when the key does this to the draft. -/
def Stroke.press : Stroke → Press
  | .goOn draft shown => .goOn draft.state shown
  | .done outcome shown => .done outcome shown

/-- A line read by octets; what is left are the octets of the keys that are left. -/
def DraftRead.byOctets (r : DraftRead) : LineRead :=
  ⟨r.outcome, r.shown, r.history, Key.reads r.rest⟩

/-- No octet of a character that is text is a key. -/
theorem not_mem_keyOctets {c : Char} {octet : UInt8} (hc : Key.isControl c = false)
    (h : octet ∈ String.utf8EncodeChar c) : octet ∉ keyOctets := by
  intro hkey
  have hlow : ∀ key ∈ keyOctets, key.toNat < 0x80 := by decide +kernel
  have hvalue : c = Char.ofNat octet.toNat := by
    rw [← Utf8.toNat_of_mem_encodeChar h (hlow octet hkey), Char.ofNat_toNat]
  have hcontrol : ∀ key ∈ keyOctets, Key.isControl (Char.ofNat key.toNat) = true := by
    decide +kernel
  rw [hvalue, hcontrol octet hkey] at hc
  contradiction

namespace Draft

variable {editor : Editor} {d next : Draft} {key : Key} {shown : String}

/-- The cursor of the history stays within its lines. -/
theorem cursor_le_press (hcursor : d.history.cursor ≤ d.history.lines.length)
    (hpress : d.press editor key = .goOn next shown) :
    next.history.cursor ≤ next.history.lines.length := by
  cases key with
  | character c | backspace delete =>
      obtain ⟨rfl, -⟩ := Stroke.goOn.inj hpress
      exact hcursor
  | enter carriageReturn | interrupt => simp [press] at hpress
  | endOfInput =>
      simp only [press] at hpress
      split at hpress
      · simp at hpress
      · obtain ⟨rfl, -⟩ := Stroke.goOn.inj hpress
        exact hcursor
  | tab =>
      simp only [press] at hpress
      split at hpress <;> (obtain ⟨rfl, -⟩ := Stroke.goOn.inj hpress; exact hcursor)
  | up =>
      simp only [press] at hpress
      split at hpress
      · obtain ⟨rfl, -⟩ := Stroke.goOn.inj hpress
        exact Nat.le_trans (Nat.sub_le _ 1) hcursor
      · obtain ⟨rfl, -⟩ := Stroke.goOn.inj hpress
        exact hcursor
  | down =>
      simp only [press] at hpress
      split at hpress
      case isTrue hless =>
        obtain ⟨rfl, -⟩ := Stroke.goOn.inj hpress
        exact hless
      case isFalse =>
        obtain ⟨rfl, -⟩ := Stroke.goOn.inj hpress
        exact hcursor
  | ignored second third =>
      obtain ⟨rfl, -⟩ := Stroke.goOn.inj hpress
      exact hcursor

/-- Only keys of one octet end the reading of a line. -/
theorem octets_of_press_done {outcome : ReadOutcome}
    (hpress : d.press editor key = .done outcome shown) : ∃ octet, key.octets = [octet] := by
  cases key with
  | enter carriageReturn | interrupt | endOfInput => exact ⟨_, rfl⟩
  | character c | backspace delete | ignored second third => simp [press] at hpress
  | tab =>
      simp only [press] at hpress
      split at hpress <;> simp at hpress
  | up | down =>
      simp only [press] at hpress
      split at hpress <;> simp [recallAt] at hpress

end Draft

namespace Editor

variable {editor : Editor} {d : Draft} {s : LineState}

theorem pressAll_singleton (s : LineState) (octet : UInt8) :
    editor.pressAll s [octet] = editor.press s octet := by
  simp only [pressAll]
  cases editor.press s octet with
  | goOn next shown => simp
  | done outcome shown => rfl

/-- Where no escape has begun, none can be left. -/
theorem leaveEscape_of_idle (hidle : s.escape = .none) :
    ({ s with escape := .none } : LineState) = s := by
  rw [← hidle]

/-- An escape acts with its third octet. -/
theorem pressAll_escape (hidle : s.escape = .none) (second third : UInt8) :
    editor.pressAll s [0x1B, second, third] = editor.finishEscape s second third := by
  have hfinish : editor.finishEscape { s with escape := .second second } second third =
      editor.finishEscape s second third := by
    simp only [finishEscape, leaveEscape_of_idle hidle]
  simp only [pressAll, press, hidle, pressKey]
  cases hlast : editor.finishEscape s second third <;> simp [hfinish, hlast]

theorem pressAll_ignored (hidle : s.escape = .none) {second third : UInt8}
    (hproper : (Key.ignored second third).IsProper) :
    editor.pressAll s (Key.ignored second third).octets = .goOn s "" := by
  have hignored : ¬(second = 0x5B ∧ (third = 0x41 ∨ third = 0x42)) := hproper
  rw [Key.octets, pressAll_escape hidle, finishEscape, leaveEscape_of_idle hidle]
  split
  case isTrue hsecond =>
    rw [if_neg fun hthird => hignored ⟨hsecond, .inl hthird⟩,
      if_neg fun hthird => hignored ⟨hsecond, .inr hthird⟩]
  case isFalse => rfl

/-- An octet that is no key is taken as part of a character. -/
theorem press_of_not_mem (hidle : s.escape = .none) {octet : UInt8} (h : octet ∉ keyOctets) :
    editor.press s octet = insert s octet := by
  simp only [keyOctets, List.mem_cons, List.not_mem_nil, or_false, not_or] at h
  simp [press, hidle, pressKey, h]

/-- The octets of a character that are still to come complete it. -/
theorem pressAll_character {c : Char} (hidle : s.escape = .none) {more : Bytes} (hmore : more ≠ [])
    (hcharacter : s.pending ++ more = String.utf8EncodeChar c)
    (hkeys : ∀ octet ∈ more, octet ∉ keyOctets) :
    editor.pressAll s more =
      .goOn { s with buffer := s.buffer.push c, pending := [], bellRang := false }
        (String.singleton c) := by
  -- The pending octets grow by one with every octet but the last.
  induction more generalizing s with
  | nil => exact absurd rfl hmore
  | cons octet rest ih =>
      have hinsert : editor.press s octet = insert s octet :=
        press_of_not_mem hidle (hkeys octet List.mem_cons_self)
      by_cases hrest : rest = []
      · subst hrest
        have hread : Utf8.read (s.pending ++ [octet]) = .character c := by
          rw [hcharacter, Utf8.read_encodeChar]
        rw [pressAll_singleton, hinsert]
        simp only [insert, hread]
      · have hwhole : (s.pending ++ [octet]) ++ rest = String.utf8EncodeChar c := by
          rw [List.append_assoc, List.singleton_append, hcharacter]
        have hread : Utf8.read (s.pending ++ [octet]) = .unfinished :=
          Utf8.read_of_append_eq_encodeChar hwhole hrest
        have hpress : editor.press s octet =
            .goOn { s with pending := s.pending ++ [octet] } "" := by
          rw [hinsert]
          simp only [insert, hread]
        have hlater := @ih { s with pending := s.pending ++ [octet] } hidle hrest hwhole
          fun other hother => hkeys other (List.mem_cons_of_mem _ hother)
        simp only [pressAll, hpress, hlater, String.empty_append]

theorem recallLine_previous (hcursor : d.history.cursor ≤ d.history.lines.length) :
    editor.recallLine d.state d.history.previous? = (d.press editor .up).press := by
  simp only [Draft.press, History.previous?]
  cases hplace : d.history.cursor with
  | zero => rfl
  | succ n =>
      have hline : n < d.history.lines.length := by omega
      simp [recallLine, Draft.recallAt, Stroke.press, Draft.state, List.getElem?_eq_getElem hline]

theorem recallLine_next :
    editor.recallLine d.state d.history.next? = (d.press editor .down).press := by
  simp only [Draft.press, History.next?]
  split
  · simp [recallLine, Draft.recallAt, Stroke.press, Draft.state]
  · rfl

/-- The octets of a key do to the line what the key does to the draft. -/
theorem pressAll_octets {key : Key} (hcursor : d.history.cursor ≤ d.history.lines.length)
    (hproper : key.IsProper) :
    editor.pressAll d.state key.octets = (d.press editor key).press := by
  have hempty : String.ofList d.buffer = "" ↔ d.buffer = [] := by simp
  cases key with
  | character c =>
      have hwhole : d.state.pending ++ String.utf8EncodeChar c = String.utf8EncodeChar c := rfl
      have hoctets : String.utf8EncodeChar c ≠ [] := by
        obtain ⟨first, rest, hencode, -⟩ := Utf8.exists_isWhole c
        simp [hencode]
      have hbuffer : (String.ofList d.buffer).push c = String.ofList (d.buffer ++ [c]) := by
        apply String.toList_inj.mp
        simp
      simp only [Key.octets]
      rw [pressAll_character rfl hoctets hwhole fun octet => not_mem_keyOctets hproper]
      simp only [Draft.press, Stroke.press, Draft.state, hbuffer]
  | enter carriageReturn =>
      rw [Key.octets, pressAll_singleton]
      cases carriageReturn <;> rfl
  | interrupt => rfl
  | endOfInput =>
      rw [Key.octets, pressAll_singleton]
      by_cases hbuffer : d.buffer = []
      · simp [press, pressKey, Draft.press, Draft.state, Stroke.press, hbuffer]
      · simp [press, pressKey, Draft.press, Draft.state, Stroke.press, hbuffer]
  | tab =>
      rw [Key.octets, pressAll_singleton]
      change editor.completeText d.state = _
      simp only [completeText, Draft.press, Draft.state]
      cases editor.complete (String.ofList d.buffer) d.bellRang with
      | insert more => simp [Stroke.press, Draft.state]
      | bell => rfl
      | listing names => rfl
  | backspace delete =>
      have hpress : editor.press d.state (if delete then 0x7F else 0x08) = erase d.state := by
        cases delete <;> rfl
      rw [Key.octets, pressAll_singleton, hpress]
      by_cases hbuffer : d.buffer = [] <;>
        simp [erase, dropLastChar, Draft.press, Draft.state, Stroke.press, hbuffer]
  | up =>
      rw [Key.octets, pressAll_escape rfl, ← recallLine_previous hcursor]
      rfl
  | down =>
      rw [Key.octets, pressAll_escape rfl, ← recallLine_next]
      rfl
  | ignored second third => exact pressAll_ignored rfl hproper

/-- From the state of a draft the octets of keys are edited as the keys are. -/
theorem edit_reads {keys : List Key} (hcursor : d.history.cursor ≤ d.history.lines.length)
    (hproper : ∀ key ∈ keys, key.IsProper) (shown : String) :
    editor.edit d.state shown (Key.reads keys) = (d.edit editor shown keys).byOctets := by
  induction keys generalizing d shown with
  | nil => simp [Key.reads, edit, Draft.edit, DraftRead.byOctets, Draft.state]
  | cons key rest ih =>
      have hreads : Key.reads (key :: rest) = key.octets.map .octet ++ Key.reads rest := by
        simp [Key.reads]
      have hkey := @pressAll_octets editor d key hcursor (hproper key List.mem_cons_self)
      cases hstroke : d.press editor key with
      | goOn next more =>
          rw [hstroke] at hkey
          rw [hreads, edit_of_pressAll hkey, ih (Draft.cursor_le_press hcursor hstroke)
            fun other hother => hproper other (List.mem_cons_of_mem _ hother)]
          simp only [Draft.edit, hstroke]
      | done outcome more =>
          obtain ⟨octet, hoctet⟩ := Draft.octets_of_press_done hstroke
          rw [hstroke, hoctet, pressAll_singleton] at hkey
          have hpress : editor.press d.state octet = .done outcome more := hkey
          rw [hreads, hoctet]
          simp only [List.map_cons, List.map_nil, List.singleton_append, edit, hpress, Draft.edit,
            hstroke]
          rfl

/-- Reading a line from the octets of keys gives what reading it from the keys gives: the same
outcome, the same text shown, the same history with its cursor, and the same keys left. -/
theorem readLine_reads {keys : List Key} (hproper : ∀ key ∈ keys, key.IsProper)
    (editor : Editor) (history : History) :
    editor.readLine history (Key.reads keys) = (Draft.readLine editor history keys).byOctets :=
  @edit_reads editor (.start history) keys (Nat.le_refl _) hproper editor.prompt

/-- A recalled line is shortened and goes on with a character of two octets. An escape without a
meaning, an end of input on a line with text and a completion without candidates come in between. -/
theorem readLine_reads_of_recalled_line :
    (∀ key ∈ [Key.character 'l', .up, .backspace true, .character 'é', .ignored 0x5B 0x43,
      .endOfInput, .tab, .enter false, .character 'x'], key.IsProper) ∧
    readLine ⟨"$ ", Completer.complete ⟨["echo", "exit"], none⟩ .empty ⟨[]⟩⟩ ⟨["pwd"], 0, 1⟩
      (Key.reads [.character 'l', .up, .backspace true, .character 'é', .ignored 0x5B 0x43,
        .endOfInput, .tab, .enter false, .character 'x']) =
      ⟨.line "pwé", "$ l\r\x1b[2K$ pwd\x08 \x08é\x07\n", ⟨["pwd"], 0, 1⟩,
        [.octet 0x78]⟩ := by
  have hproper : ∀ key ∈ [Key.character 'l', .up, .backspace true, .character 'é',
      .ignored 0x5B 0x43, .endOfInput, .tab, .enter false, .character 'x'], key.IsProper := by
    simp [Key.IsProper, Key.isControl]
  refine ⟨hproper, ?_⟩
  rw [readLine_reads hproper]
  decide +kernel

end Editor

end LineShell
