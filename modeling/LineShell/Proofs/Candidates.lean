import LineShell.Completion

/-!
# What is completed

A name is a candidate when it begins with what was typed and is either built in or a program that
some directory of the search path lists. A single candidate is completed, with a space behind it.
-/

namespace LineShell

open scoped List

theorem mem_startingWith {typed name : String} {names : List String} :
    name ∈ startingWith typed names ↔ name ∈ names ∧ typed.toList <+: name.toList := by
  simp [startingWith]

/-- What remains of a name stands behind what was typed. -/
theorem append_remainder {typed name : String} (h : typed.toList <+: name.toList) :
    typed ++ remainder typed name = name := by
  obtain ⟨rest, hrest⟩ := h
  apply String.toList_inj.mp
  rw [String.toList_append, remainder, ← hrest, List.drop_left, String.toList_ofList]

namespace Completer

variable {completer : Completer} {volume : Volume} {cwd : WorkingDirectory}
  {typed directory name : String}

/-- A directory offers a program if it lists its name and somebody may run the file there. -/
def Offers (volume : Volume) (cwd : WorkingDirectory) (directory name : String) : Prop :=
  (∃ names, volume.listDirectory cwd directory = .ok names ∧ .text name ∈ names) ∧
    volume.isProgram cwd (Path.join directory name) = true

/-- The entries of the search path, also those that are empty. -/
def entries (searchPath : Option String) : List String :=
  (searchPath.map (piecesOf ':')).getD []

theorem mem_programsIn :
    name ∈ programsIn volume cwd typed directory ↔
      typed.toList <+: name.toList ∧ Offers volume cwd directory name := by
  unfold programsIn Offers
  cases hlist : volume.listDirectory cwd directory with
  | error fault => simp
  | ok names =>
      rw [List.mem_filter, mem_startingWith]
      constructor
      · rintro ⟨⟨hmem, hstart⟩, hprogram⟩
        obtain ⟨other, hother, heq⟩ := List.mem_filterMap.mp hmem
        cases other with
        | text text =>
            obtain rfl := Option.some.inj heq
            exact ⟨hstart, ⟨names, rfl, hother⟩, hprogram⟩
        | octets octets => simp at heq
      · rintro ⟨hstart, ⟨_, hnames, hmem⟩, hprogram⟩
        obtain rfl := Except.ok.inj hnames
        exact ⟨⟨List.mem_filterMap.mpr ⟨.text name, hmem, rfl⟩, hstart⟩, hprogram⟩

theorem mem_candidates :
    name ∈ completer.candidates volume cwd typed ↔
      typed.toList <+: name.toList ∧
        (name ∈ completer.builtins ∨
          ∃ directory ∈ entries completer.searchPath, Offers volume cwd directory name) := by
  have hentries : (completer.searchPath.map (piecesOf ':')).getD [] =
      entries completer.searchPath := rfl
  simp only [candidates, hentries, mem_sortedNames, List.mem_append, mem_startingWith,
    List.mem_flatMap, mem_programsIn]
  constructor
  · rintro (⟨hmem, hstart⟩ | ⟨directory, hdirectory, hstart, hoffers⟩)
    · exact ⟨hstart, .inl hmem⟩
    · exact ⟨hstart, .inr ⟨directory, hdirectory, hoffers⟩⟩
  · rintro ⟨hstart, hmem | ⟨directory, hdirectory, hoffers⟩⟩
    · exact .inl ⟨hmem, hstart⟩
    · exact .inr ⟨directory, hdirectory, hstart, hoffers⟩

/-- With a single candidate the line becomes its name with a space behind it. -/
theorem exists_insert_of_candidates_eq_singleton
    (h : completer.candidates volume cwd typed = [name]) (bellRang : Bool) :
    ∃ text, completer.complete volume cwd typed bellRang = .insert text ∧
      typed ++ text = name ++ " " := by
  have hmem : name ∈ completer.candidates volume cwd typed := by
    simp [h]
  obtain ⟨hstart, -⟩ := mem_candidates.mp hmem
  refine ⟨remainder typed name ++ " ", ?_, ?_⟩
  · rw [complete, h]
    rfl
  · rw [← String.append_assoc, append_remainder hstart]

end Completer

/-- A volume with a single program, which stands in `/bin`. -/
def Volume.offering (name : String) : Volume :=
  (Volume.empty.create [.text "bin"] .newDirectory).create [.text "bin", .text name]
    (.file [] ⟨true, true, true, true⟩)

end LineShell
