import LineShell.Editor.Keys
import LineShell.Proofs.ScreenFidelity

/-!
# The screen shows the line that is edited

Whoever types sends characters, the keys of the editor, and perhaps octets that are no character.
However these follow one another, the line of the terminal shows the prompt and the text of the line
after each of them.

## Implementation notes

Octets that ring the bell or begin a control sequence never become text, since the editor takes a
low octet as a character only by itself. That is why `IsPlain` is all that is asked of the octets of
a key that is no escape.
-/

namespace LineShell

/-- What arrives while a line is typed: a key, or an octet that is no character on its own. -/
inductive Typed where
  | key (key : Key)
  | stray (octet : UInt8)
  deriving DecidableEq, Repr

namespace Typed

/-- The octets that arrive. -/
def octets : Typed → Bytes
  | .key pressed => pressed.octets
  | .stray octet => [octet]

/-- Characters that are typed are visible, and strays come from the upper half of the octets. -/
def IsVisible : Typed → Prop
  | .key (.character c) => takesCell c = true
  | .key _ => True
  | .stray octet => 0x80 ≤ octet.toNat

instance : (typed : Typed) → Decidable typed.IsVisible
  | .key (.character c) => inferInstanceAs (Decidable (takesCell c = true))
  | .key (.enter _) | .key .interrupt | .key .endOfInput | .key .tab | .key (.backspace _)
  | .key .up | .key .down | .key (.ignored _ _) => inferInstanceAs (Decidable True)
  | .stray octet => inferInstanceAs (Decidable (0x80 ≤ octet.toNat))

end Typed

/-- Octets that the editor takes one by one when no escape has begun, and that ring no bell. -/
def IsPlain (octets : Bytes) : Prop := ∀ octet ∈ octets, octet ≠ 0x07 ∧ octet ≠ 0x1B

theorem isPlain_encodeChar {c : Char} (h : takesCell c = true) :
    IsPlain (String.utf8EncodeChar c) := by
  intro octet hoctet
  have hvalue (hlow : octet.toNat < 0x80) : c = Char.ofNat octet.toNat := by
    rw [← Utf8.toNat_of_mem_encodeChar hoctet hlow, Char.ofNat_toNat]
  constructor
  · rintro rfl
    rw [hvalue (by decide)] at h
    exact absurd h (by decide)
  · rintro rfl
    rw [hvalue (by decide)] at h
    exact absurd h (by decide)

/-- What is typed is an escape of three octets, or there is no escape among its octets. -/
theorem Typed.escape_or_isPlain {typed : Typed} (h : typed.IsVisible) :
    (∃ second third, typed.octets = [0x1B, second, third]) ∨ IsPlain typed.octets := by
  match typed with
  | .stray octet =>
      right
      intro other hother
      obtain rfl := List.mem_singleton.mp hother
      constructor
      · rintro rfl
        exact absurd h (by decide)
      · rintro rfl
        exact absurd h (by decide)
  | .key (.character c) => exact .inr (isPlain_encodeChar h)
  | .key (.enter carriageReturn) =>
      right
      cases carriageReturn <;> simp [IsPlain, Typed.octets, Key.octets]
  | .key .interrupt =>
      right
      simp [IsPlain, Typed.octets, Key.octets]
  | .key .endOfInput =>
      right
      simp [IsPlain, Typed.octets, Key.octets]
  | .key .tab =>
      right
      simp [IsPlain, Typed.octets, Key.octets]
  | .key (.backspace delete) =>
      right
      cases delete <;> simp [IsPlain, Typed.octets, Key.octets]
  | .key .up => exact .inl ⟨0x5B, 0x41, rfl⟩
  | .key .down => exact .inl ⟨0x5B, 0x42, rfl⟩
  | .key (.ignored second third) => exact .inl ⟨second, third, rfl⟩

namespace Screen.Faithful

variable {editor : Editor} {screen : Screen} {s next : LineState} {shown : String}

theorem pressPlain {octets : Bytes} (heditor : editor.IsVisible) (hplain : IsPlain octets)
    (h : Faithful editor screen s) (hidle : s.escape = .none)
    (hpress : editor.pressAll s octets = .goOn next shown) :
    Faithful editor (screen.showAll shown.toList) next ∧ next.escape = .none := by
  induction octets generalizing s screen shown with
  | nil =>
      simp only [Editor.pressAll, Press.goOn.injEq] at hpress
      obtain ⟨rfl, rfl⟩ := hpress
      exact ⟨h, hidle⟩
  | cons octet rest ih =>
      obtain ⟨mid, first, more, hfirst, hrest, rfl⟩ := Editor.pressAll_cons_goOn hpress
      simp only [Editor.press, hidle] at hfirst
      obtain ⟨hbell, hescape⟩ := hplain octet List.mem_cons_self
      obtain ⟨hmid, hstill⟩ := h.pressKey heditor hbell hescape hfirst
      rw [String.toList_append, showAll_append]
      exact ih (fun other hother => hplain other (List.mem_cons_of_mem _ hother)) hmid
        (hstill.trans hidle) hrest

theorem pressEscape {second third : UInt8} (heditor : editor.IsVisible)
    (h : Faithful editor screen s) (hidle : s.escape = .none)
    (hpress : editor.pressAll s [0x1B, second, third] = .goOn next shown) :
    Faithful editor (screen.showAll shown.toList) next ∧ next.escape = .none := by
  obtain ⟨begun, first, afterFirst, hfirst, hrest, rfl⟩ := Editor.pressAll_cons_goOn hpress
  obtain ⟨half, between, afterSecond, hsecond, hlast, rfl⟩ := Editor.pressAll_cons_goOn hrest
  obtain ⟨last, final, afterThird, hthird, hnone, rfl⟩ := Editor.pressAll_cons_goOn hlast
  simp only [Editor.pressAll, Press.goOn.injEq] at hnone
  obtain ⟨rfl, rfl⟩ := hnone
  have hbegun : { s with escape := .begun } = begun ∧ "" = first := by
    simpa [Editor.press, hidle, Editor.pressKey] using hfirst
  obtain ⟨rfl, rfl⟩ := hbegun
  have hhalf : { s with escape := .second second } = half ∧ "" = between := by
    simpa [Editor.press] using hsecond
  obtain ⟨rfl, rfl⟩ := hhalf
  have hready : Faithful editor screen { s with escape := .second second } := h.congr rfl rfl
  simpa using hready.finishEscape heditor hthird

/-- Everything that is typed between two escapes keeps the screen faithful. -/
theorem pressTyped {typed : Typed} (heditor : editor.IsVisible) (htyped : typed.IsVisible)
    (h : Faithful editor screen s) (hidle : s.escape = .none)
    (hpress : editor.pressAll s typed.octets = .goOn next shown) :
    Faithful editor (screen.showAll shown.toList) next ∧ next.escape = .none := by
  rcases typed.escape_or_isPlain htyped with ⟨second, third, hescape⟩ | hplain
  · rw [hescape] at hpress
    exact h.pressEscape heditor hidle hpress
  · exact h.pressPlain heditor hplain hidle hpress

theorem pressAllTyped {typed : List Typed} (heditor : editor.IsVisible)
    (htyped : ∀ t ∈ typed, t.IsVisible) (h : Faithful editor screen s) (hidle : s.escape = .none)
    (hpress : editor.pressAll s (typed.flatMap Typed.octets) = .goOn next shown) :
    Faithful editor (screen.showAll shown.toList) next ∧ next.escape = .none := by
  induction typed generalizing s screen shown with
  | nil =>
      simp only [List.flatMap_nil, Editor.pressAll, Press.goOn.injEq] at hpress
      obtain ⟨rfl, rfl⟩ := hpress
      exact ⟨h, hidle⟩
  | cons t rest ih =>
      rw [List.flatMap_cons] at hpress
      obtain ⟨mid, first, more, hfirst, hrest, rfl⟩ := Editor.pressAll_append_goOn hpress
      obtain ⟨hmid, hstill⟩ := h.pressTyped heditor (htyped t List.mem_cons_self) hidle hfirst
      rw [String.toList_append, showAll_append]
      exact ih (fun other hother => htyped other (List.mem_cons_of_mem _ hother)) hmid hstill hrest

/-- Showing the prompt on a blank line begins a faithful screen. -/
theorem start {history : History} (heditor : editor.IsVisible)
    (hhistory : ∀ line ∈ history.lines, IsVisible line.toList) (hblank : screen.Shows []) :
    Faithful editor (screen.showAll editor.prompt.toList) (.start history) := by
  refine ⟨?_, by simp [LineState.start, IsVisible], hhistory⟩
  simpa [LineState.start] using shows_showAll hblank heditor.prompt

end Screen.Faithful

/-- As long as a line is edited, the line of the terminal shows the prompt and the text up to the
cursor and nothing behind it, whatever has been typed; and the reading of the line goes on from
there. -/
theorem Screen.shows_prompt_and_buffer {completer : Completer} {volume : Volume}
    {cwd : WorkingDirectory} {prompt : String} {history : History} {typed : List Typed}
    {screen : Screen} {state : LineState} {shown : String}
    (hprompt : IsVisible prompt.toList)
    (hnames : ∀ text, ∀ name ∈ completer.candidates volume cwd text, IsVisible name.toList)
    (hhistory : ∀ line ∈ history.lines, IsVisible line.toList)
    (htyped : ∀ t ∈ typed, t.IsVisible) (hblank : screen.Shows [])
    (hopen : Editor.pressAll ⟨prompt, completer.complete volume cwd⟩ (.start history)
      (typed.flatMap Typed.octets) = .goOn state shown) :
    (screen.showAll (prompt ++ shown).toList).Shows (prompt ++ state.buffer).toList ∧
      ∀ rest, Editor.readLine ⟨prompt, completer.complete volume cwd⟩ history
          ((typed.flatMap Typed.octets).map .octet ++ rest) =
        Editor.edit ⟨prompt, completer.complete volume cwd⟩ state (prompt ++ shown) rest := by
  have heditor := Editor.isVisible_of_candidates hprompt hnames
  have hstart := Faithful.start heditor hhistory hblank
  obtain ⟨hfaithful, -⟩ := hstart.pressAllTyped heditor htyped rfl hopen
  constructor
  · rw [String.toList_append, showAll_append]
    exact hfaithful.shows
  · intro rest
    exact Editor.edit_of_pressAll hopen prompt rest

theorem Screen.shows_prompt_and_buffer_after_recall :
    (Screen.blank.showAll
        ("$ " ++ "l\x07\r\x1b[2K$ echo long\r\x1b[2K$ pwd\x08 \x08é").toList).Shows
      ("$ " ++ "pwé").toList := by
  have hopen : Editor.pressAll ⟨"$ ", Completer.complete ⟨["echo", "exit"], none⟩ .empty ⟨[]⟩⟩
      (.start ⟨["pwd", "echo long"], 2, 0⟩)
      ([.key (.character 'l'), .key .tab, .stray 0xC3, .key .up, .key .up, .key (.backspace true),
        .key (.character 'é')].flatMap Typed.octets) =
      .goOn ⟨"pwé", [], false, .none, ⟨["pwd", "echo long"], 0, 0⟩⟩
        "l\x07\r\x1b[2K$ echo long\r\x1b[2K$ pwd\x08 \x08é" := by
    decide +kernel
  have hnames : ∀ text, ∀ name ∈
      Completer.candidates ⟨["echo", "exit"], none⟩ .empty ⟨[]⟩ text, IsVisible name.toList := by
    intro text name hname
    simp only [Completer.candidates, Option.map_none, Option.getD_none, List.flatMap_nil,
      List.append_nil, mem_sortedNames, startingWith, List.mem_filter, List.mem_cons,
      List.not_mem_nil, or_false] at hname
    rcases hname.1 with rfl | rfl <;> decide
  exact (Screen.shows_prompt_and_buffer (by decide) hnames (by decide) (by decide)
    ⟨rfl, rfl, by simp [Screen.blank], rfl⟩ hopen).1

end LineShell
