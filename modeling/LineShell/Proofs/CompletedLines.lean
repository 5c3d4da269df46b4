import LineShell.Proofs.Candidates
import LineShell.Proofs.CutLines
import LineShell.Proofs.SpellingRoundTrip
import Mathlib.Tactic.ByContra

/-!
# Reading a completed line

When a single name is left, completion makes the line out to be that name with a space behind it.
The name is inserted as the file system has it, so the line stands for the name only if none of its
characters means something to the reader.

## Implementation notes

That other names are misread rests on what a line can lose. The arguments of a line, one after the
other, are its characters in order with some left out (`Scan.kept_read`), and the first character
that is not bare is among those left out (`Scan.kept_read_of_not_bare`). A name with the space
behind it has one character more than the name, so nothing else can be missing, and the character
that is missing has to be the space.
-/

namespace LineShell

open scoped List

/-- The backslash that waits between double quotes for the character that decides about it. -/
def Quoting.held : Quoting → List Char
  | .doubleEscaped => ['\\']
  | .plain | .escaped | .single | .double => []

/-- What a character can add to the arguments: nothing, outside quotes, unless it is bare. -/
def Quoting.lets (quoting : Quoting) (c : Char) : List Char :=
  if quoting = .plain then [c].filter isBare else [c]

theorem Quoting.lets_sublist (quoting : Quoting) (c : Char) : quoting.lets c <+ [c] := by
  unfold Quoting.lets
  split
  · exact List.filter_sublist
  · exact List.Sublist.refl _

theorem Quoting.adds_sublist_of_ne {quoting : Quoting} (h : quoting ≠ .plain) (c : Char) :
    quoting.adds c ++ (quoting.next c).held <+ quoting.held ++ [c] := by
  cases quoting with
  | plain => exact absurd rfl h
  | escaped | single | double | doubleEscaped =>
      simp only [Quoting.adds, Quoting.next]
      grind [Quoting.held]

/-- A character that does not end its word adds at most what the quoting lets it add. -/
theorem Quoting.adds_sublist (quoting : Quoting) {c : Char}
    (h : quoting = .plain → ¬Scan.Ends c) :
    quoting.adds c ++ (quoting.next c).held <+ quoting.held ++ quoting.lets c := by
  by_cases hplain : quoting = .plain
  · subst hplain
    have hgo : isSeparator c = false ∧ c ≠ '|' ∧ c ≠ '>' := by
      simpa [Scan.Ends] using h rfl
    simp only [Quoting.lets, Quoting.adds, Quoting.next]
    grind [Quoting.held, isBare]
  · rw [Quoting.lets, if_neg hplain]
    exact adds_sublist_of_ne hplain c

theorem Quoting.after_of_bare {text : List Char} (h : ∀ c ∈ text, isBare c = true) :
    Quoting.plain.after text = .plain := by
  induction text with
  | nil => rfl
  | cons c rest ih =>
      have hc := h c List.mem_cons_self
      simp only [isBare, Bool.and_eq_true, bne_iff_ne, ne_eq] at hc
      have hnext : Quoting.next .plain c = .plain := by
        simp [Quoting.next, hc]
      rw [Quoting.after_cons, hnext]
      exact ih fun d hd => h d (List.mem_cons_of_mem _ hd)

/-- The characters that have been read of an argument under way. -/
def Place.pending : Place → List Char
  | .gap | .arrow _ | .before _ _ => []
  | .digit d => [d]
  | .word .argument quoting text => text.toList ++ quoting.held
  | .word (.destination _ _) _ _ => []

namespace Scan

variable {s : Scan}

/-- The characters of the arguments that are complete. -/
def settled (s : Scan) : List Char :=
  (s.commands.flatMap Command.arguments ++ s.arguments).flatMap String.toList

/-- The characters of all arguments, with those of the argument under way. -/
def kept (s : Scan) : List Char := s.settled ++ s.place.pending

theorem kept_finishStage (s : Scan) : s.finishStage.kept = s.settled := by
  unfold finishStage
  cases harguments : s.arguments with
  | nil => simp [Command.ofArguments?, kept, settled, Place.pending, harguments]
  | cons program operands =>
      simp [Command.ofArguments?, kept, settled, Place.pending, harguments, Command.arguments]

theorem settled_finishWord (s : Scan) (purpose : Purpose) (text : String) :
    (s.finishWord purpose text).settled <+
      s.settled ++ (Place.word purpose .plain text).pending := by
  unfold finishWord
  split
  · exact List.sublist_append_left _ _
  · cases purpose with
    | argument => simp [settled, Place.pending, Quoting.held]
    | destination target append => simp [settled, Place.pending]

theorem kept_intoWord (s : Scan) (purpose : Purpose) (quoting : Quoting) (text : String) {c : Char}
    (h : quoting = .plain → ¬Ends c) :
    (s.intoWord purpose quoting text c).kept <+
      s.settled ++ (Place.word purpose quoting text).pending ++ quoting.lets c := by
  cases purpose with
  | argument =>
      have hpush := foldl_push text.toList (quoting.adds c)
      rw [String.ofList_toList] at hpush
      have hadds := (Quoting.adds_sublist quoting h).append_left (s.settled ++ text.toList)
      simpa [intoWord, kept, settled, Place.pending, hpush] using hadds
  | destination target append =>
      simp [intoWord, kept, settled, Place.pending]

theorem isBare_of_isDigit {c : Char} (h : c.isDigit = true) : isBare c = true := by
  have hne : ∀ d : Char, d.isDigit = false → c ≠ d := by
    rintro d hd rfl
    simp [hd] at h
  simp [isBare, isSeparator, hne ' ' (by decide), hne '\t' (by decide), hne '|' (by decide),
    hne '>' (by decide), hne '\'' (by decide), hne '"' (by decide), hne '\\' (by decide)]

theorem kept_inGap (s : Scan) (c : Char) :
    (s.inGap c).kept <+ s.settled ++ Quoting.plain.lets c := by
  unfold inGap
  split
  case isTrue => simp [kept, settled, Place.pending]
  case isFalse hseparator =>
    split
    case isTrue =>
      rw [kept_finishStage]
      exact List.sublist_append_left _ _
    case isFalse hpipe =>
      split
      case isTrue => simp [kept, settled, Place.pending]
      case isFalse hgreater =>
        split
        case isTrue hdigit =>
          have hlets : Quoting.plain.lets c = [c] := by
            simp [Quoting.lets, isBare_of_isDigit hdigit]
          rw [hlets]
          exact List.Sublist.refl _
        case isFalse =>
          have hword := kept_intoWord s .argument .plain "" fun _ =>
            show ¬Ends c by simp [Ends, hseparator, hpipe, hgreater]
          simpa [Place.pending, Quoting.held] using hword

theorem kept_inWord (s : Scan) (purpose : Purpose) (quoting : Quoting) (text : String) (c : Char) :
    (s.inWord purpose quoting text c).kept <+
      s.settled ++ (Place.word purpose quoting text).pending ++ quoting.lets c := by
  unfold inWord
  split
  case isTrue h =>
    obtain ⟨rfl, _⟩ := h
    have hgap := kept_inGap (s.finishWord purpose text) c
    exact hgap.trans ((settled_finishWord s purpose text).append_right _)
  case isFalse h => exact kept_intoWord s purpose quoting text fun hplain hend => h ⟨hplain, hend⟩

theorem kept_inBefore (s : Scan) (target : Target) (append : Bool) (c : Char) :
    (s.inBefore target append c).kept <+ s.settled ++ Quoting.plain.lets c := by
  unfold inBefore
  split
  case isTrue => simp [kept, settled, Place.pending]
  case isFalse =>
    split
    case isTrue => exact kept_inGap s c
    case isFalse => simp [intoWord, kept, settled, Place.pending]

/-- A character adds at most itself to the arguments, and only if the quoting lets it. -/
theorem kept_step (s : Scan) (c : Char) :
    (s.step c).kept <+ s.kept ++ s.place.quoting.lets c := by
  have hkept : s.kept = s.settled ++ s.place.pending := rfl
  unfold step
  rw [hkept]
  cases hplace : s.place with
  | gap => simpa [Place.pending, Place.quoting] using kept_inGap s c
  | digit d =>
      have hword := kept_inWord s .argument .plain (String.singleton d) c
      dsimp only
      split
      case isTrue =>
        have harrow : ({ s with place := .arrow (Target.ofDescriptor (d.toNat - '0'.toNat)) } :
            Scan).kept = s.settled := by
          simp [kept, settled, Place.pending]
        rw [harrow, List.append_assoc]
        exact List.sublist_append_left _ _
      case isFalse => simpa [Place.pending, Place.quoting, Quoting.held] using hword
  | arrow target =>
      dsimp only
      split
      case isTrue => simp [kept, settled, Place.pending]
      case isFalse =>
        simpa [Place.pending, Place.quoting] using kept_inBefore s target false c
  | before target append =>
      simpa [Place.pending, Place.quoting] using kept_inBefore s target append c
  | word purpose quoting text => exact kept_inWord s purpose quoting text c

/-- The arguments of what is read are its characters in order, with some left out. -/
theorem kept_read (s : Scan) (text : List Char) : (s.read text).kept <+ s.kept ++ text := by
  induction text generalizing s with
  | nil => simp
  | cons c rest ih =>
      have hstep := (kept_step s c).trans
        ((Quoting.lets_sublist s.place.quoting c).append_left s.kept)
      have hrest := (ih (s.step c)).trans (hstep.append_right rest)
      simpa using hrest

/-- Outside quotes a character that is not bare is left out. -/
theorem kept_read_of_not_bare (h : s.place.quoting = .plain) {a b : List Char} {c : Char}
    (ha : ∀ d ∈ a, isBare d = true) (hc : isBare c = false) :
    (s.read (a ++ c :: b)).kept <+ s.kept ++ (a ++ b) := by
  have hplain : (s.read a).place.quoting = .plain := by
    rw [quoting_read, h, Quoting.after_of_bare ha]
  have hstep : ((s.read a).step c).kept <+ s.kept ++ a := by
    have hlets : Quoting.plain.lets c = [] := by
      simp [Quoting.lets, hc]
    have hkept := kept_step (s.read a) c
    rw [hplain, hlets, List.append_nil] at hkept
    exact hkept.trans (kept_read s a)
  calc (s.read (a ++ c :: b)).kept
      = (((s.read a).step c).read b).kept := by rw [read_append, read_cons]
    _ <+ ((s.read a).step c).kept ++ b := kept_read _ b
    _ <+ s.kept ++ a ++ b := hstep.append_right b
    _ = s.kept ++ (a ++ b) := List.append_assoc ..

/-- The end of the line adds nothing. -/
theorem arguments_finish (s : Scan) :
    (s.finish.flatMap Command.arguments).flatMap String.toList <+ s.kept := by
  have hstage : ∀ s : Scan,
      (s.finishStage.commands.flatMap Command.arguments).flatMap String.toList = s.settled := by
    intro s
    rw [← kept_finishStage, finishStage_eq]
    simp [kept, settled, Place.pending]
  unfold finish kept
  cases hplace : s.place with
  | gap | arrow target | before target append =>
      rw [hstage]
      exact List.sublist_append_left _ _
  | digit d =>
      rw [hstage]
      simpa [Place.pending, Quoting.held] using
        settled_finishWord s .argument (String.singleton d)
  | word purpose quoting text =>
      rw [hstage]
      have hword := settled_finishWord s purpose text
      refine hword.trans (List.Sublist.append_left ?_ _)
      cases purpose <;> simp [Place.pending, Quoting.held]

end Scan

/-- Bare characters in a row spell themselves. -/
theorem spells_of_bare {text : List Char} (hne : text ≠ []) (h : ∀ c ∈ text, isBare c = true) :
    Spells text text := by
  induction text with
  | nil => exact absurd rfl hne
  | cons c rest ih =>
      have hc : SpellsPiece [c] [c] := .bare (h c List.mem_cons_self)
      by_cases hrest : rest = []
      · subst hrest
        exact .one hc
      · exact .more hc (ih hrest fun d hd => h d (List.mem_cons_of_mem _ hd))

theorem parseLine_of_bare {name : String} (hne : name ≠ "")
    (h : ∀ c ∈ name.toList, isBare c = true) : parseLine (name ++ " ") = [⟨name, [], []⟩] := by
  have hspells : Spells name.toList name.toList :=
    spells_of_bare (fun hnil => hne (String.toList_eq_nil_iff.mp hnil)) h
  have hblank : Writes [' '] [] [] := .nil (by simp [IsGap, isSeparator])
  have hwrites : Writes ([] ++ name.toList ++ [' ']) [name] [] :=
    .argument (by simp [IsGap]) hspells hne hblank (by simp [MayEndArgument, isSeparator])
  have hread := Scan.finish_read_writesLine (@WritesLine.one _ ⟨name, [], []⟩ hwrites) []
  rw [parseLine, String.toList_append]
  exact hread

theorem exists_first_not_bare {text : List Char} (h : ¬∀ c ∈ text, isBare c = true) :
    ∃ a c b, text = a ++ c :: b ∧ (∀ d ∈ a, isBare d = true) ∧ isBare c = false := by
  cases hfind : text.find? (fun c => !isBare c) with
  | none =>
      rw [List.find?_eq_none] at hfind
      exact absurd (fun c hc => by simpa using hfind c hc) h
  | some c =>
      obtain ⟨hc, a, b, rfl, ha⟩ := List.find?_eq_some_iff_append.mp hfind
      exact ⟨a, c, b, rfl, fun d hd => by simpa using ha d hd, by simpa using hc⟩

/-- Only a space can be missing from a line that ends in a space and still be there. -/
theorem eq_of_cons_eq_append_singleton {c d : Char} {text : List Char}
    (h : c :: text = text ++ [d]) : c = d := by
  have hcount : (c :: text).count d = (text ++ [d]).count d := by rw [h]
  by_contra hne
  simp [hne] at hcount

theorem sublist_kept_of_parseLine {line name : String} (h : parseLine line = [⟨name, [], []⟩]) :
    name.toList <+ (Scan.start.read line.toList).kept := by
  have hfinish := Scan.arguments_finish (Scan.start.read line.toList)
  have hline : (Scan.start.read line.toList).finish = [⟨name, [], []⟩] := h
  rw [hline] at hfinish
  simpa [Command.arguments] using hfinish

/-- A name is not read back if one of its characters is not bare. -/
theorem bare_of_parseLine {name : String} (h : parseLine (name ++ " ") = [⟨name, [], []⟩]) :
    ∀ c ∈ name.toList, isBare c = true := by
  by_contra hall
  have hkept := sublist_kept_of_parseLine h
  obtain ⟨a, c, b, hname, ha, hc⟩ := exists_first_not_bare hall
  have hstart : Scan.start.kept = [] := rfl
  have hline : (name ++ " ").toList = a ++ c :: (b ++ [' ']) := by
    simp [hname]
  -- Without its first character that is not bare the line is as long as the name.
  have hspace : c = ' ' := by
    have hread := Scan.kept_read_of_not_bare (s := .start) rfl (b := b ++ [' ']) ha hc
    rw [hline, hname] at hkept
    rw [hstart, List.nil_append] at hread
    have hsame := (hkept.trans hread).eq_of_length (by simp)
    exact eq_of_cons_eq_append_singleton (List.append_cancel_left hsame)
  subst hspace
  -- Behind a space the scan is outside quotes again, so the last space is missing, too, or
  -- something before it.
  have hlast : ¬∀ d ∈ b ++ [' '], isBare d = true := by
    intro hbare
    exact absurd (hbare ' ' (by simp)) (by decide)
  obtain ⟨a', c', b', hrest, ha', hc'⟩ := exists_first_not_bare hlast
  have hquoting : (Scan.start.read (a ++ [' '])).place.quoting = .plain := by
    rw [Scan.quoting_read, Quoting.after_append]
    exact congrArg (Quoting.next · ' ') (Quoting.after_of_bare ha)
  have hfirst : (Scan.start.read (a ++ [' '])).kept <+ a := by
    simpa [hstart] using Scan.kept_read_of_not_bare (s := .start) rfl (b := []) ha hc
  have hread := Scan.kept_read_of_not_bare hquoting (b := b') ha' hc'
  have hsplit : (name ++ " ").toList = (a ++ [' ']) ++ (a' ++ c' :: b') := by
    rw [hline, hrest, List.append_assoc, List.singleton_append]
  rw [hsplit, Scan.read_append] at hkept
  have hlength := (hkept.trans (hread.trans (hfirst.append_right _))).length_le
  have hrestLength := congrArg List.length hrest
  simp only [hname, List.length_append, List.length_cons, List.length_nil] at hlength hrestLength
  omega

/-- A line that was completed to a single name runs this name exactly if each of its characters
stands for itself. -/
theorem parseLine_completed_iff {completer : Completer} {volume : Volume} {cwd : WorkingDirectory}
    {typed name : String} (h : completer.candidates volume cwd typed = [name]) (bellRang : Bool) :
    ∃ text, completer.complete volume cwd typed bellRang = .insert text ∧
      typed ++ text = name ++ " " ∧
      (parseLine (typed ++ text) = [⟨name, [], []⟩] ↔
        name ≠ "" ∧ ∀ c ∈ name.toList, isBare c = true) := by
  obtain ⟨text, hinsert, hline⟩ := Completer.exists_insert_of_candidates_eq_singleton h bellRang
  refine ⟨text, hinsert, hline, ?_⟩
  rw [hline]
  constructor
  · intro hparse
    constructor
    · rintro rfl
      exact absurd hparse (by decide)
    · exact bare_of_parseLine hparse
  · rintro ⟨hne, hbare⟩
    exact parseLine_of_bare hne hbare

/-- A name without blanks and quotes. -/
theorem parseLine_completed_iff_of_greet :
    (⟨[], some "/bin"⟩ : Completer).candidates (.offering "greet") .root "gr" = ["greet"] ∧
      ∃ text, (⟨[], some "/bin"⟩ : Completer).complete (.offering "greet") .root "gr" false =
          .insert text ∧
        parseLine ("gr" ++ text) = [⟨"greet", [], []⟩] := by
  have hsingle : (⟨[], some "/bin"⟩ : Completer).candidates (.offering "greet") .root "gr" =
      ["greet"] := by
    decide +kernel
  obtain ⟨text, hinsert, -, hparse⟩ := parseLine_completed_iff hsingle false
  have hbare : ∀ c ∈ "greet".toList, isBare c = true := List.all_eq_true.mp (by decide +kernel)
  exact ⟨hsingle, text, hinsert, hparse.mpr ⟨by decide, hbare⟩⟩

/-- A name with a space in it is completed to a line that runs another command. -/
theorem not_forall_parseLine_completed :
    ¬ ∀ (completer : Completer) (volume : Volume) (cwd : WorkingDirectory) (typed name : String)
      (bellRang : Bool),
      completer.candidates volume cwd typed = [name] →
      ∃ text, completer.complete volume cwd typed bellRang = .insert text ∧
        ∃ command, parseLine (typed ++ text) = [command] ∧ command.arguments = [name] ∧
          command.redirects = [] := by
  intro h
  have hsingle : (⟨[], some "/bin"⟩ : Completer).candidates (.offering "my tool") .root "my" =
      ["my tool"] := by
    decide +kernel
  obtain ⟨text, hinsert, command, hparse, harguments, -⟩ := h _ _ _ _ _ false hsingle
  have hcomplete : (⟨[], some "/bin"⟩ : Completer).complete (.offering "my tool") .root "my"
      false = .insert " tool " := by
    decide +kernel
  obtain rfl : " tool " = text := Completion.insert.inj (hcomplete.symm.trans hinsert)
  have hline : parseLine ("my" ++ " tool ") = [⟨"my", ["tool"], []⟩] := by
    decide
  obtain rfl := (List.cons.inj (hline.symm.trans hparse)).1
  exact absurd harguments (by decide)

end LineShell
