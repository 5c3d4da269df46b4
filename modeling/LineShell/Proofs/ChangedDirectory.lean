import LineShell.Builtin.Run
import LineShell.Proofs.FollowedPaths

/-!
# Where `cd` goes

An operand of `cd` stands for a path, and `cd` enters the collapsed one. Up to the end of that path
nothing is looked at, so the collapsed path has to lead where the path leads; it does if there are
no links and every beginning of the path leads to a directory. An absolute operand stands for
itself wherever the shell is. But `cd` asks for the current directory before it looks at its
operand, and there is no way for it out of a directory that has been removed.
-/

namespace LineShell

namespace RawPath

variable {base path : RawPath}

/-- A path that is joined to an absolute one is absolute. -/
theorem isAbsolute_join (hbase : isAbsolute base = true) : isAbsolute (join base path) = true := by
  have hne : base ≠ [] := by
    rintro rfl
    cases hbase
  unfold join
  split
  case isTrue hpath => exact hpath
  case isFalse =>
    split
    case isTrue => rwa [isAbsolute_append hne]
    case isFalse => rwa [isAbsolute_append hne]

theorem isAbsolute_normalise (h : isAbsolute path = true) :
    isAbsolute (normalise path) = true := by
  rw [normalise_eq h]
  exact isAbsolute_ofNames _

end RawPath

namespace Volume

variable {v : Volume} {cwd : WorkingDirectory} {path : RawPath}

/-- An absolute path is entered alike from everywhere. -/
theorem enter_congr (habsolute : RawPath.isAbsolute path = true) (cwd other : WorkingDirectory) :
    v.enter cwd path = v.enter other path := by
  have hwalk : v.walk cwd path .follow = v.walk other path .follow := by
    simp only [walk, origin, habsolute, if_true]
  simp only [enter, hwalk]

theorem place_directoryAt (v : Volume) (place : Location) :
    (v.directoryAt place).place = place := by
  apply List.ext_getElem?
  intro i
  simp [directoryAt, WorkingDirectory.place, Function.comp_def]

/-- The directory at a location stands there as long as the location is one of a directory. -/
theorem isAttached_directoryAt {place : Location} (h : v.isDirectory place = true) :
    v.isAttached (v.directoryAt place) = true := by
  obtain ⟨entry, hfind, hnode⟩ := isDirectory_iff.mp h
  rcases List.eq_nil_or_concat place with rfl | ⟨front, last, rfl⟩
  · rfl
  · rw [List.concat_eq_append] at hfind ⊢
    have hlast : (v.directoryAt (front ++ [last])).steps.getLast? = some (last, entry.serial) := by
      simp [directoryAt, List.mapIdx_concat, List.take_of_length_le, hfind]
    simp [isAttached, hlast, place_directoryAt, hfind, hnode]

end Volume

namespace Builtin

variable {target : String} {current full : RawPath} {home : Option String} {shell : Shell}
  {m : Machine}

/-- The path that an operand of `cd` stands for, before anything in it is collapsed. -/
inductive StandsFor (current : RawPath) (home : Option String) : String → RawPath → Prop where
  | absolute {target : String} (h : Path.isAbsolute target = true) :
      StandsFor current home target (octets target)
  | dotted {target : String} {rest : List Char} (h : target.toList = '.' :: rest) :
      StandsFor current home target (RawPath.join current (octets target))
  | fromHome {target base : String} {rest : List Char} (h : target.toList = '~' :: rest)
      (hhome : home = some base) (habsolute : Path.isAbsolute base = true) :
      StandsFor current home target (RawPath.join (octets base) (octets (dropSlashes rest)))

theorem StandsFor.isAbsolute (h : StandsFor current home target full)
    (hcurrent : RawPath.isAbsolute current = true) : RawPath.isAbsolute full = true := by
  cases h with
  | absolute habsolute => exact habsolute
  | dotted => exact RawPath.isAbsolute_join hcurrent
  | fromHome _ _ habsolute => exact RawPath.isAbsolute_join habsolute

theorem StandsFor.cdTarget_eq (h : StandsFor current home target full) :
    cdTarget target current home = .directory (RawPath.normalise full) := by
  cases h with
  | absolute habsolute =>
      rw [Path.isAbsolute_iff_head?, List.head?_eq_some_iff] at habsolute
      obtain ⟨rest, hrest⟩ := habsolute
      simp [cdTarget, hrest]
  | dotted hdot => simp [cdTarget, hdot]
  | fromHome htilde hhome => simp [cdTarget, htilde, hhome]

/-- A word that begins neither like an option nor like the word that asks for help is an operand. -/
theorem read_cdGrammar_of_head {c : Char} {rest : List Char} (hchars : target.toList = c :: rest)
    (hdash : c ≠ '-') (hh : c ≠ 'h') : cdGrammar.read [target] = .given ⟨[], [], [target]⟩ := by
  have hne (word : String) (hword : word.toList.head? ≠ some c) : target ≠ word := by
    rintro rfl
    exact hword (by rw [hchars, List.head?_cons])
  have hhelp : target ≠ "help" := hne "help" (by simp [Ne.symm hh])
  have hdoubleHelp : target ≠ "--help" := hne "--help" (by simp [Ne.symm hdash])
  have hends : target ≠ "--" := hne "--" (by simp [Ne.symm hdash])
  have hoption : target.toList.head? ≠ some '-' := by simp [hchars, hdash]
  rw [Options.Grammar.read, Options.Grammar.readFrom]
  simp only [hhelp, hdoubleHelp, hends, hoption, decide_false, Bool.and_false,
    Bool.false_eq_true, if_false]
  rfl

/-- What stands for a path is neither an option nor a word that asks for help. -/
theorem StandsFor.read_eq (h : StandsFor current home target full) :
    cdGrammar.read [target] = .given ⟨[], [], [target]⟩ := by
  cases h with
  | absolute habsolute =>
      rw [Path.isAbsolute_iff_head?, List.head?_eq_some_iff] at habsolute
      obtain ⟨rest, hrest⟩ := habsolute
      exact read_cdGrammar_of_head hrest (by decide) (by decide)
  | dotted hdot => exact read_cdGrammar_of_head hdot (by decide) (by decide)
  | fromHome htilde => exact read_cdGrammar_of_head htilde (by decide) (by decide)

theorem StandsFor.execute_eq (h : StandsFor current home target full) (streams : Streams) :
    execute .cd [target] streams shell m = changeDirectory target streams shell m := by
  rw [execute, withOptions, h.read_eq]
  rfl

/-- A builtin that ends with a report and status one leaves the shell as it is, whether the report
can be written or not, and it leaves the same machine behind for every shell. -/
theorem exists_run_of_report (m : Machine) (streams : Streams) (row : Nat) (text : String) :
    ∃ after, ∀ (b : Builtin) (operands : List String) (shell : Shell),
      b.execute operands streams shell m = answer m row text shell 1 →
      run b operands streams shell m = (after, shell, .proceed 1) := by
  cases hprint : m.print row text with
  | ok after =>
      refine ⟨after, ?_⟩
      intro b operands shell hexecute
      rw [run, hexecute, answer, hprint]
  | error fault =>
      refine ⟨m.printOrSkip streams.error (fault.message ++ "\n"), ?_⟩
      intro b operands shell hexecute
      rw [run, hexecute, answer, hprint]
      rfl

/-- Where `cd` is told to go to a path that can be entered, it goes there. -/
theorem run_cd_of_target_ok {operands : List String} {streams : Streams} {path : RawPath}
    {there : WorkingDirectory}
    (hexecute : execute .cd operands streams shell m = changeDirectory target streams shell m)
    (hcurrent : m.volume.pathOfDirectory shell.directory = .ok current)
    (htarget : cdTarget target current shell.environment.home = .directory path)
    (henter : m.volume.enter shell.directory path = .ok there) :
    run .cd operands streams shell m = (m, { shell with directory := there }, .proceed 0) := by
  simp only [run, hexecute, changeDirectory, hcurrent, htarget, henter]

/-- For one target and one reason, what `cd` leaves behind is the same for every shell. -/
theorem exists_run_cd_of_target_error (m : Machine) (streams : Streams) (target : String)
    (fault : FileFault) :
    ∃ after, ∀ (operands : List String) (shell : Shell) (current path : RawPath),
      execute .cd operands streams shell m = changeDirectory target streams shell m →
      m.volume.pathOfDirectory shell.directory = .ok current →
      cdTarget target current shell.environment.home = .directory path →
      m.volume.enter shell.directory path = .error fault →
      run .cd operands streams shell m = (after, shell, .proceed 1) := by
  obtain ⟨after, hafter⟩ := exists_run_of_report m streams streams.error
    ("cd: " ++ target ++ ": " ++ cdReason fault ++ "\n")
  refine ⟨after, fun operands shell current path hexecute hcurrent htarget henter =>
    hafter .cd operands shell ?_⟩
  simp only [hexecute, changeDirectory, hcurrent, htarget, henter]

theorem run_cd_of_enter_ok {streams : Streams} {there : WorkingDirectory}
    (hcurrent : m.volume.pathOfDirectory shell.directory = .ok current)
    (hfull : StandsFor current shell.environment.home target full)
    (henter : m.volume.enter shell.directory (RawPath.normalise full) = .ok there) :
    run .cd [target] streams shell m = (m, { shell with directory := there }, .proceed 0) :=
  run_cd_of_target_ok (hfull.execute_eq streams) hcurrent hfull.cdTarget_eq henter

theorem exists_run_cd_of_enter_error (m : Machine) (streams : Streams) (target : String)
    (fault : FileFault) :
    ∃ after, ∀ (shell : Shell) (current full : RawPath),
      m.volume.pathOfDirectory shell.directory = .ok current →
      StandsFor current shell.environment.home target full →
      m.volume.enter shell.directory (RawPath.normalise full) = .error fault →
      run .cd [target] streams shell m = (after, shell, .proceed 1) := by
  obtain ⟨after, hafter⟩ := exists_run_cd_of_target_error m streams target fault
  exact ⟨after, fun shell current full hcurrent hfull henter =>
    hafter _ _ _ _ (hfull.execute_eq streams) hcurrent hfull.cdTarget_eq henter⟩

/-- A machine with the directories `/a` and `/b`, and the standard streams. -/
def twoDirectories : Machine :=
  ⟨(Volume.empty.create [.text "a"] .newDirectory).create [.text "b"] .newDirectory,
    [.tape [] 0, .stream .empty, .stream .empty], none, [], 1⟩

/-- A shell without variables. -/
def shellAt (directory : WorkingDirectory) : Shell := ⟨.empty, .empty, directory, .empty⟩

/-- From every directory that still exists, `cd` does the same with an absolute operand: it goes to
one directory, or it stays and reports one thing. From a directory that has been removed it goes
nowhere, even if the operand leads to a directory, and reports that there is no current one. -/
theorem run_cd_of_isAbsolute (habsolute : Path.isAbsolute target = true) (streams : Streams)
    (shell : Shell) (m : Machine) :
    (∀ there, m.volume.enter .root (RawPath.normalise (octets target)) = .ok there →
      ∀ directory, m.volume.isAttached directory = true →
        run .cd [target] streams { shell with directory := directory } m =
          (m, { shell with directory := there }, .proceed 0)) ∧
    (∀ fault, m.volume.enter .root (RawPath.normalise (octets target)) = .error fault →
      ∃ after, ∀ directory, m.volume.isAttached directory = true →
        run .cd [target] streams { shell with directory := directory } m =
          (after, { shell with directory := directory }, .proceed 1)) ∧
    ∀ directory, m.volume.isAttached directory = false →
      run .cd [target] streams { shell with directory := directory } m =
        (m.printOrSkip streams.error "cd: No such file or directory (os error 2)\n",
          { shell with directory := directory }, .proceed 1) := by
  have hcurrent (directory : WorkingDirectory) (hattached : m.volume.isAttached directory = true) :
      m.volume.pathOfDirectory directory = .ok (Volume.pathOf directory.place) :=
    if_pos hattached
  have hfull (current : RawPath) :
      StandsFor current shell.environment.home target (octets target) :=
    .absolute habsolute
  have hroot (directory : WorkingDirectory) :=
    m.volume.enter_congr (RawPath.isAbsolute_normalise habsolute) directory .root
  refine ⟨?_, ?_, ?_⟩
  · intro there henter directory hattached
    exact run_cd_of_enter_ok (hcurrent directory hattached) (hfull _)
      ((hroot directory).trans henter)
  · intro fault henter
    obtain ⟨after, hafter⟩ := exists_run_cd_of_enter_error m streams target fault
    refine ⟨after, fun directory hattached => ?_⟩
    exact hafter _ _ (octets target) (hcurrent directory hattached) (hfull _)
      ((hroot directory).trans henter)
  · intro directory hremoved
    have hnowhere : m.volume.pathOfDirectory directory = .error (.refused .noEntry) :=
      if_neg (by simp [hremoved])
    simp only [run, (hfull []).execute_eq, changeDirectory, hnowhere]
    rfl

/-- From `/a` one goes to `/b`, but not from a directory that has been removed. -/
theorem run_cd_of_isAbsolute_of_removed :
    Path.isAbsolute "/b" = true ∧
      run .cd ["/b"] ⟨0, 1, 2⟩ (shellAt ⟨[(.text "a", 1)]⟩) twoDirectories =
        (twoDirectories, shellAt ⟨[(.text "b", 2)]⟩, .proceed 0) ∧
      run .cd ["/b"] ⟨0, 1, 2⟩ (shellAt ⟨[(.text "gone", 7)]⟩) twoDirectories =
        (twoDirectories.printOrSkip 2 "cd: No such file or directory (os error 2)\n",
          shellAt ⟨[(.text "gone", 7)]⟩, .proceed 1) := by
  have habsolute : Path.isAbsolute "/b" = true := by decide
  obtain ⟨hgoes, -, hremoved⟩ :=
    run_cd_of_isAbsolute habsolute ⟨0, 1, 2⟩ (shellAt .root) twoDirectories
  exact ⟨habsolute, hgoes ⟨[(.text "b", 2)]⟩ rfl ⟨[(.text "a", 1)]⟩ (by decide),
    hremoved ⟨[(.text "gone", 7)]⟩ (by decide)⟩

/-- Where the shell is makes a difference to an absolute operand. -/
theorem not_forall_run_cd_of_isAbsolute :
    ¬ ∀ (target : String) (streams : Streams) (shell : Shell) (m : Machine)
      (directory other : WorkingDirectory), Path.isAbsolute target = true →
      (run .cd [target] streams { shell with directory := directory } m).2.2 =
        (run .cd [target] streams { shell with directory := other } m).2.2 := by
  intro h
  have hsame := h "/b" ⟨0, 1, 2⟩ (shellAt .root) twoDirectories ⟨[(.text "gone", 7)]⟩ .root
    (by decide)
  revert hsame
  decide +kernel

end Builtin

end LineShell
