import LineShell.Proofs.WholeKeys

/-!
# Octets that make no character

Octets that do not belong together are forgotten, and those that may still become a character wait
for the rest of it. So whatever has come in, what waits is nothing or the beginning of a character.
The next character is lost if it comes behind such a beginning, and from then on every character is
taken again.

## Implementation notes

An unfinished reading is completed by the least octet that may follow the first one and by
continuation octets. `LineState.typed` is the line that octets lead to: they add text at its end and
leave octets waiting, and the bell is forgotten when text comes in.
-/

namespace LineShell

namespace Utf8

variable {first octet : UInt8} {rest pending : Bytes}

/-- Some octets, but not all, of a character. -/
structure IsBeginning (pending : Bytes) : Prop where
  nonempty : pending ≠ []
  length_le : pending.length ≤ 3
  goesOn : ∃ c more, more ≠ [] ∧ pending ++ more = String.utf8EncodeChar c

/-- The least octet that may follow a first one. -/
def leastAfter (first : UInt8) : UInt8 :=
  if first = 0xE0 then 0xA0 else if first = 0xF0 then 0x90 else 0x80

theorem mayFollow_leastAfter (first : UInt8) : mayFollow first (leastAfter first) = true := by
  by_cases hthree : first = 0xE0
  · simp [mayFollow, leastAfter, hthree]
  · by_cases hfour : first = 0xF0
    · simp [mayFollow, leastAfter, hfour]
    · simp [mayFollow, leastAfter, hthree, hfour, isContinuation]

/-- A beginning that may be continued can be continued to a character. -/
theorem exists_isWhole_append (hfits : rest.length + 1 < width first)
    (hcontinues : continues first rest = true) :
    ∃ more, more ≠ [] ∧ IsWhole first (rest ++ more) := by
  cases rest with
  | nil =>
      refine
        ⟨leastAfter first :: List.replicate (width first - 2) 0x80, List.cons_ne_nil _ _, ?_, ?_⟩
      · simp only [List.length_nil] at hfits
        simp only [List.nil_append, List.length_cons, List.length_replicate]
        omega
      · simp [continues, mayFollow_leastAfter, isContinuation]
  | cons second rest =>
      refine ⟨List.replicate (width first - 2 - rest.length) 0x80, ?_, ?_, ?_⟩
      · simp only [List.length_cons] at hfits
        rw [ne_eq, List.replicate_eq_nil_iff]
        omega
      · simp only [List.length_cons] at hfits
        simp only [List.cons_append, List.length_cons, List.length_append, List.length_replicate]
        omega
      · simp only [continues, Bool.and_eq_true] at hcontinues
        simp [continues, hcontinues, isContinuation]

/-- What is read as unfinished is the beginning of a character. -/
theorem isBeginning_of_read (hread : read pending = .unfinished) (hne : pending ≠ []) :
    IsBeginning pending := by
  obtain ⟨first, rest, rfl⟩ := List.exists_cons_of_ne_nil hne
  simp only [read] at hread
  split at hread
  case isFalse => simp at hread
  case isTrue hgo =>
    split at hread
    case isTrue => simp at hread
    case isFalse hshort =>
      simp only [Bool.and_eq_true, decide_eq_true_eq] at hgo
      obtain ⟨hfits, hcontinues⟩ := hgo
      have hmost := width_le first
      have hmissing : rest.length + 1 < width first := by omega
      obtain ⟨more, hmore, hwhole⟩ := exists_isWhole_append hmissing hcontinues
      refine ⟨hne, ?_, _, more, hmore, eq_encodeChar_of_read hwhole.read⟩
      rw [List.length_cons]
      omega

/-- Behind a first octet there are continuation octets only. -/
theorem isContinuation_of_continues (h : continues first rest = true) (hmem : octet ∈ rest) :
    isContinuation octet = true := by
  cases rest with
  | nil => simp at hmem
  | cons second rest =>
      simp only [continues, Bool.and_eq_true, List.all_eq_true] at h
      rcases List.mem_cons.mp hmem with rfl | hlater
      · obtain ⟨hlow, hhigh, -⟩ := (mayFollow_iff first octet).mp h.1
        exact (isContinuation_iff octet).mpr ⟨hlow, hhigh⟩
      · exact h.2 octet hlater

/-- No character begins with a continuation octet. -/
theorem width_of_isContinuation (h : isContinuation octet = true) : width octet = 0 := by
  obtain ⟨hlow, hhigh⟩ := (isContinuation_iff octet).mp h
  rw [width_eq, if_neg (by omega), if_pos (by omega)]

/-- A continuation octet alone is no part of a character. -/
theorem read_singleton (h : isContinuation octet = true) : read [octet] = .malformed := by
  simp [read, width_of_isContinuation h]

/-- Where a character should go on, the first octet of another one breaks it off. -/
theorem read_append_first (hne : pending ≠ []) (h : isContinuation octet = false) :
    read (pending ++ [octet]) = .malformed := by
  obtain ⟨first, rest, rfl⟩ := List.exists_cons_of_ne_nil hne
  have hbroken : continues first (rest ++ [octet]) = false := by
    rw [Bool.eq_false_iff]
    intro hcontinues
    have hlast := isContinuation_of_continues hcontinues (List.mem_concat_self ..)
    simp [h] at hlast
  simp [read, hbroken]

end Utf8

/-- A line to which some text was added, and where some octets wait. -/
def LineState.typed (s : LineState) (text : String) (pending : Bytes) : LineState :=
  { s with buffer := s.buffer ++ text, pending := pending, bellRang := s.bellRang && text = "" }

namespace LineState

variable {s : LineState} {pending : Bytes}

theorem typed_typed (s : LineState) (a b : String) (before pending : Bytes) :
    (s.typed a before).typed b pending = s.typed (a ++ b) pending := by
  by_cases ha : a = ""
  · simp [typed, ha]
  · simp [typed, ha, String.append_assoc]

theorem typed_nothing (s : LineState) (pending : Bytes) :
    s.typed "" pending = { s with pending := pending } := by
  simp [typed]

theorem typed_character (s : LineState) (c : Char) (pending : Bytes) :
    s.typed (String.singleton c) pending =
      { s with buffer := s.buffer.push c, pending := pending, bellRang := false } := by
  simp [typed]

end LineState

namespace Editor

variable {editor : Editor} {s next last : LineState} {a b typed pending : Bytes}
  {first more text : String}

/-- Octets add a text to a line and show it, and leave some octets waiting. The editor goes on from
there. -/
structure Types (editor : Editor) (s : LineState) (typed : Bytes) (text : String)
    (pending : Bytes) : Prop where
  pressAll_eq : editor.pressAll s typed = .goOn (s.typed text pending) text
  edit_eq : ∀ shown rest, editor.edit s shown (typed.map .octet ++ rest) =
    editor.edit (s.typed text pending) (shown ++ text) rest

theorem types_iff :
    editor.Types s typed text pending ↔
      editor.pressAll s typed = .goOn (s.typed text pending) text :=
  ⟨Types.pressAll_eq, fun h => ⟨h, fun shown rest => edit_of_pressAll h shown rest⟩⟩

theorem pressAll_append (hfirst : editor.pressAll s a = .goOn next first)
    (hmore : editor.pressAll next b = .goOn last more) :
    editor.pressAll s (a ++ b) = .goOn last (first ++ more) := by
  induction a generalizing s first with
  | nil =>
      obtain ⟨rfl, rfl⟩ := Press.goOn.inj hfirst
      simpa using hmore
  | cons octet rest ih =>
      obtain ⟨mid, shown, later, hpress, hrest, rfl⟩ := pressAll_cons_goOn hfirst
      simp only [List.cons_append, pressAll, hpress, ih hrest, String.append_assoc]

theorem types_nil (editor : Editor) (s : LineState) : editor.Types s [] "" s.pending := by
  rw [types_iff, LineState.typed_nothing]
  rfl

/-- Octets behind others add their text behind that of the others. -/
theorem Types.append {before : Bytes} (hfirst : editor.Types s a first before)
    (hmore : editor.Types (s.typed first before) b more pending) :
    editor.Types s (a ++ b) (first ++ more) pending := by
  rw [types_iff, pressAll_append hfirst.pressAll_eq hmore.pressAll_eq, LineState.typed_typed]

theorem types_singleton {octet : UInt8} (hidle : s.escape = .none) (hoctet : octet ∉ keyOctets)
    (hinsert : insert s octet = .goOn (s.typed text pending) text) :
    editor.Types s [octet] text pending := by
  rw [types_iff, pressAll_singleton, press_of_not_mem hidle hoctet, hinsert]

/-- An octet that is no key makes a character, waits, or is forgotten with all that waits. -/
theorem exists_types_octet {octet : UInt8} (hidle : s.escape = .none)
    (hoctet : octet ∉ keyOctets) :
    ∃ text pending, editor.Types s [octet] text pending ∧
      (pending = [] ∨ Utf8.IsBeginning pending) := by
  cases hread : Utf8.read (s.pending ++ [octet]) with
  | character c =>
      refine ⟨String.singleton c, [], types_singleton hidle hoctet ?_, .inl rfl⟩
      simp only [insert, hread, LineState.typed_character]
  | unfinished =>
      refine ⟨"", s.pending ++ [octet], types_singleton hidle hoctet ?_,
        .inr (Utf8.isBeginning_of_read hread (by simp))⟩
      simp only [insert, hread, LineState.typed_nothing]
  | malformed =>
      refine ⟨"", [], types_singleton hidle hoctet ?_, .inl rfl⟩
      simp only [insert, hread, LineState.typed_nothing]

/-- Whatever octets come in that are no keys, the beginning of a character waits or nothing. -/
theorem exists_types (hidle : s.escape = .none)
    (hpending : s.pending = [] ∨ Utf8.IsBeginning s.pending)
    (htyped : ∀ octet ∈ typed, octet ∉ keyOctets) :
    ∃ text pending, editor.Types s typed text pending ∧
      (pending = [] ∨ Utf8.IsBeginning pending) := by
  induction typed generalizing s with
  | nil => exact ⟨"", s.pending, types_nil editor s, hpending⟩
  | cons octet rest ih =>
      obtain ⟨hoctet, hrest⟩ := List.forall_mem_cons.mp htyped
      obtain ⟨first, before, hfirst, hbefore⟩ := exists_types_octet hidle hoctet
      obtain ⟨more, pending, hmore, hwaits⟩ :=
        @ih (s.typed first before) hidle hbefore hrest
      exact ⟨first ++ more, pending, hfirst.append hmore, hwaits⟩

/-- A character is taken when nothing waits. -/
theorem types_character {c : Char} (hidle : s.escape = .none) (hpending : s.pending = [])
    (hc : Key.isControl c = false) :
    editor.Types s (String.utf8EncodeChar c) (String.singleton c) [] := by
  have hoctets : String.utf8EncodeChar c ≠ [] := by
    obtain ⟨first, rest, hencode, -⟩ := Utf8.exists_isWhole c
    simp [hencode]
  rw [types_iff, LineState.typed_character]
  exact pressAll_character hidle hoctets (by rw [hpending, List.nil_append])
    fun octet => not_mem_keyOctets hc

/-- Octets are forgotten that only continue a character. -/
theorem types_continuations (hidle : s.escape = .none) (hpending : s.pending = [])
    (htyped : ∀ octet ∈ typed, octet ∉ keyOctets ∧ Utf8.isContinuation octet = true) :
    editor.Types s typed "" [] := by
  induction typed generalizing s with
  | nil => exact hpending ▸ types_nil editor s
  | cons octet rest ih =>
      obtain ⟨⟨hoctet, hcontinuation⟩, hrest⟩ := List.forall_mem_cons.mp htyped
      have hfirst : editor.Types s [octet] "" [] := by
        refine types_singleton hidle hoctet ?_
        simp only [insert, hpending, List.nil_append, Utf8.read_singleton hcontinuation,
          LineState.typed_nothing]
      exact hfirst.append (@ih (s.typed "" []) hidle rfl hrest)

/-- A character is lost when the beginning of another one waits: its first octet ends the waiting,
and no other octet of it begins a character. -/
theorem types_lost_character {c : Char} (hidle : s.escape = .none) (hpending : s.pending ≠ [])
    (hc : Key.isControl c = false) : editor.Types s (String.utf8EncodeChar c) "" [] := by
  obtain ⟨first, rest, hencode, hwhole⟩ := Utf8.exists_isWhole c
  have hkeys : ∀ octet ∈ first :: rest, octet ∉ keyOctets := by
    rw [← hencode]
    exact fun octet => not_mem_keyOctets hc
  obtain ⟨hfirst, hrest⟩ := List.forall_mem_cons.mp hkeys
  have hbegins : Utf8.isContinuation first = false := by
    rw [Bool.eq_false_iff]
    intro hcontinuation
    have hwidth := hwhole.width
    rw [Utf8.width_of_isContinuation hcontinuation] at hwidth
    omega
  have hbroken : editor.Types s [first] "" [] := by
    refine types_singleton hidle hfirst ?_
    simp only [insert, Utf8.read_append_first hpending hbegins, LineState.typed_nothing]
  have hlater : editor.Types (s.typed "" []) rest "" [] :=
    types_continuations hidle rfl fun octet hoctet =>
      ⟨hrest octet hoctet, Utf8.isContinuation_of_continues hwhole.continues hoctet⟩
  rw [hencode]
  exact hbroken.append hlater

/-- Text is taken as it is when nothing waits. -/
theorem types_text {characters : List Char} (hidle : s.escape = .none) (hpending : s.pending = [])
    (hcharacters : ∀ c ∈ characters, Key.isControl c = false) :
    editor.Types s (Utf8.encode characters) (String.ofList characters) [] := by
  induction characters generalizing s with
  | nil => exact hpending ▸ types_nil editor s
  | cons c rest ih =>
      obtain ⟨hc, hrest⟩ := List.forall_mem_cons.mp hcharacters
      have hlater := @ih (s.typed (String.singleton c) []) hidle rfl hrest
      have hwhole : String.ofList (c :: rest) = String.singleton c ++ String.ofList rest := by
        apply String.toList_inj.mp
        simp
      rw [hwhole]
      exact (types_character hidle hpending hc).append hlater

/-- Octets that are no keys are typed where nothing waits, whether they make characters or not. Then
nothing waits or the beginning of a character. A character that is typed next is lost if something
waits, and taken if nothing does; all text that is typed behind it is taken, and nothing waits then.
What is shown is what is taken. -/
theorem exists_types_before_text (editor : Editor) (hidle : s.escape = .none)
    (hpending : s.pending = []) (htyped : ∀ octet ∈ typed, octet ∉ keyOctets) :
    ∃ text pending, editor.Types s typed text pending ∧
      (pending = [] ∨ Utf8.IsBeginning pending) ∧
      ∀ (c : Char) (later : String), Key.isControl c = false →
        (∀ d ∈ later.toList, Key.isControl d = false) →
        editor.Types s (typed ++ String.utf8EncodeChar c ++ octets later)
          (text ++ (if pending = [] then String.singleton c else "") ++ later) [] := by
  obtain ⟨text, pending, htypes, hwaits⟩ :=
    @exists_types editor s typed hidle (.inl hpending) htyped
  refine ⟨text, pending, htypes, hwaits, ?_⟩
  intro c later hc hlater
  have hnext : editor.Types (s.typed text pending) (String.utf8EncodeChar c)
      (if pending = [] then String.singleton c else "") [] := by
    split
    case isTrue hnothing => exact types_character hidle hnothing hc
    case isFalse hsomething => exact types_lost_character hidle hsomething hc
  have hboth := htypes.append hnext
  have hend := hboth.append (@types_text editor (s.typed _ []) _ hidle rfl hlater)
  rwa [String.ofList_toList] at hend

/-- An octet that begins no character is forgotten, and two octets of a character of three are left
waiting. The next character is lost, and the text behind it is taken. -/
theorem exists_types_before_text_of_octets :
    (∀ octet ∈ [0xFF, 0x61, 0xE2, 0x82], octet ∉ keyOctets) ∧
      Types ⟨"$ ", fun _ _ => .bell⟩ (.start .empty) [0xFF, 0x61, 0xE2, 0x82] "a" [0xE2, 0x82] ∧
      Utf8.IsBeginning [0xE2, 0x82] ∧
      Types ⟨"$ ", fun _ _ => .bell⟩ (.start .empty)
        ([0xFF, 0x61, 0xE2, 0x82] ++ String.utf8EncodeChar 'é' ++ octets "où") "aoù" [] := by
  have hkeys : ∀ octet ∈ [0xFF, 0x61, 0xE2, 0x82], octet ∉ keyOctets := by decide +kernel
  obtain ⟨text, pending, htypes, hwaits, hafter⟩ :=
    @exists_types_before_text (.start .empty) _ ⟨"$ ", fun _ _ => .bell⟩ rfl rfl hkeys
  have hpress : pressAll ⟨"$ ", fun _ _ => .bell⟩ (.start .empty) [0xFF, 0x61, 0xE2, 0x82] =
      .goOn ⟨"a", [0xE2, 0x82], false, .none, .empty⟩ "a" := by
    decide +kernel
  obtain ⟨hstate, rfl⟩ := Press.goOn.inj (htypes.pressAll_eq.symm.trans hpress)
  obtain rfl : pending = [0xE2, 0x82] := congrArg LineState.pending hstate
  exact ⟨hkeys, htypes, hwaits.resolve_left (by simp), hafter 'é' "où" (by decide)
    (by simp [Key.isControl])⟩

end Editor

end LineShell
