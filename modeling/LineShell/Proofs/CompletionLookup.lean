import LineShell.Execution
import LineShell.Proofs.Candidates
import LineShell.Proofs.ReachesAfterOpening

/-!
# Completion and dispatch agree

Completion lists the directories of the search path, and dispatch tries the paths that its entries
and the name make up. What completion offers is found, and a program that is found is offered.

## Implementation notes

A command is dispatched when its redirects are open, and these may have created files. That takes
nothing out of reach, though another file than before may then be found first. Listing a directory
can only fail if it does not exist: the volume has no permission that forbids it.
-/

namespace LineShell

open scoped List

namespace Lookup

variable {volume : Volume} {cwd : WorkingDirectory} {env : Environment} {name path : String}

/-- The directories in which a shell with these variables looks for programs. -/
def searched (env : Environment) : List String := (env.searchPath.map directories).getD []

/-- Names that can stand in a directory are looked for in the directories of the search path. -/
theorem find?_of_isName (h : Path.IsName name) :
    find? volume cwd env name =
      ((searched env).map fun directory => Path.join directory name).find?
        (volume.reaches cwd) := by
  have hparts : Path.components name = [.name (.text name)] := by
    unfold Path.components
    rw [h.not_isAbsolute, h.parts]
    rfl
  have hstands : standsForItself name = false := by
    simp [standsForItself, h.not_isAbsolute, hparts]
  unfold find? searched
  rw [if_neg h.1, hstands]
  cases env.searchPath <;> rfl

/-- What is looked up depends on the directories of the search path only. -/
theorem find?_congr {other : Environment} (h : searched other = searched env) :
    find? volume cwd other name = find? volume cwd env name := by
  have hbind (env : Environment) :
      (env.searchPath.bind fun searchPath =>
        ((directories searchPath).map fun directory => Path.join directory name).find?
          (volume.reaches cwd)) =
      ((searched env).map fun directory => Path.join directory name).find?
        (volume.reaches cwd) := by
    unfold searched
    cases env.searchPath <;> rfl
  unfold find?
  rw [hbind other, hbind env, h]

end Lookup

namespace Completer

variable {volume : Volume} {cwd : WorkingDirectory} {env : Environment}
  {directory name typed : String}

/-- The completer of a shell. -/
def ofEnvironment (env : Environment) : Completer := ⟨Builtin.names, env.searchPath⟩

theorem mem_searched :
    directory ∈ Lookup.searched env ↔
      directory ∈ entries (ofEnvironment env).searchPath ∧ directory ≠ "" := by
  unfold Lookup.searched entries ofEnvironment
  cases env.searchPath with
  | none => simp
  | some searchPath => simp [Lookup.directories]

theorem listDirectory_empty (volume : Volume) (cwd : WorkingDirectory) :
    volume.listDirectory cwd "" = .error (.refused .noEntry) := rfl

theorem ne_empty_of_offers (h : Offers volume cwd directory name) : directory ≠ "" := by
  rintro rfl
  obtain ⟨⟨names, hlist, -⟩, -⟩ := h
  simp [listDirectory_empty] at hlist

/-- An empty entry of the search path offers nothing. -/
theorem programsIn_empty (volume : Volume) (cwd : WorkingDirectory) (typed : String) :
    programsIn volume cwd typed "" = [] := rfl

/-- Which names are candidates depends on the directories of the search path only. -/
theorem candidates_congr {other : Environment}
    (h : Lookup.searched other = Lookup.searched env) :
    (ofEnvironment other).candidates volume cwd typed =
      (ofEnvironment env).candidates volume cwd typed := by
  have hskip (directories : List String) :
      directories.flatMap (programsIn volume cwd typed) =
        (directories.filter (· != "")).flatMap (programsIn volume cwd typed) := by
    induction directories with
    | nil => rfl
    | cons directory rest ih =>
        by_cases hempty : directory = ""
        · subst hempty
          simp [programsIn_empty, ih]
        · simp [hempty, ih]
  have hsearched (env : Environment) :
      (entries env.searchPath).filter (· != "") = Lookup.searched env := by
    unfold entries Lookup.searched
    cases env.searchPath <;> rfl
  have hcandidates (env : Environment) :
      (ofEnvironment env).candidates volume cwd typed =
        sortedNames (startingWith typed Builtin.names ++
          (Lookup.searched env).flatMap (programsIn volume cwd typed)) := by
    rw [← hsearched, ← hskip]
    rfl
  rw [hcandidates, hcandidates, h]

/-- What is listed is the directory to which the path leads. -/
theorem exists_lookUp_of_listDirectory {names : List Name}
    (hlist : volume.listDirectory cwd directory = .ok names) :
    ∃ place entry, volume.lookUp cwd directory .follow = .ok (place, entry) ∧
      names = (place.map fun spot => (volume.children spot).map (·.1)).getD [] := by
  unfold Volume.listDirectory at hlist
  split at hlist
  case h_1 => simp at hlist
  case h_2 place entry hlook =>
    split at hlist
    case isTrue => simp at hlist
    case isFalse =>
      split at hlist
      case isTrue => exact ⟨place, entry, hlook, (Except.ok.inj hlist).symm⟩
      case isFalse => simp at hlist

theorem isName_of_offers (hnames : volume.WellNamed) (h : Offers volume cwd directory name) :
    Path.IsName name := by
  obtain ⟨⟨names, hlist, hmem⟩, -⟩ := h
  obtain ⟨place, entry, -, rfl⟩ := exists_lookUp_of_listDirectory hlist
  cases place with
  | none => simp at hmem
  | some place =>
      obtain ⟨⟨listed, found⟩, hchild, rfl⟩ := List.mem_map.mp hmem
      have hrow := Volume.mem_children_iff.mp hchild
      have hproper : (Name.text name).IsProper := hnames _ hrow _ (by simp)
      exact hproper

theorem reaches_of_isProgram {path : String} (h : volume.isProgram cwd path = true) :
    volume.reaches cwd path = true := by
  unfold Volume.isProgram at h
  unfold Volume.reaches
  cases hlook : volume.lookUp cwd path .follow with
  | error fault => simp [hlook] at h
  | ok result => rfl

/-- A program is offered by the directory through which its path leads, if this can be listed. -/
theorem offers_of_isProgram (hname : Path.IsName name) {names : List Name}
    (hlist : volume.listDirectory cwd directory = .ok names)
    (h : volume.isProgram cwd (Path.join directory name) = true) :
    Offers volume cwd directory name := by
  have hdirectory : directory ≠ "" := by
    rintro rfl
    simp [listDirectory_empty] at hlist
  refine ⟨⟨names, hlist, ?_⟩, h⟩
  obtain ⟨place, entry, hlisted, rfl⟩ := exists_lookUp_of_listDirectory hlist
  unfold Volume.isProgram at h
  cases hlook : volume.lookUp cwd (Path.join directory name) .follow with
  | error fault => simp [hlook] at h
  | ok result =>
      obtain ⟨_, program⟩ := result
      obtain ⟨spot, parent, found, hparent, -, hfound⟩ :=
        Volume.exists_directory_of_lookUp hname hdirectory hlook
      obtain ⟨rfl, -⟩ := Prod.mk.inj (Except.ok.inj (hlisted.symm.trans hparent))
      have hchild : (.text name, found) ∈ volume.children spot :=
        Volume.mem_children_iff.mpr (Volume.mem_of_lookup hfound)
      exact List.mem_map.mpr ⟨_, hchild, rfl⟩

/-- A program that is found by its name is a candidate if its directory can be listed. -/
theorem mem_candidates_of_mem_searched {names : List Name} (hname : Path.IsName name)
    (hdirectory : directory ∈ Lookup.searched env)
    (hlist : volume.listDirectory cwd directory = .ok names)
    (hprogram : volume.isProgram cwd (Path.join directory name) = true)
    (htyped : typed.toList <+: name.toList) :
    name ∈ (ofEnvironment env).candidates volume cwd typed := by
  obtain ⟨hentry, -⟩ := mem_searched.mp hdirectory
  exact mem_candidates.mpr
    ⟨htyped, .inr ⟨directory, hentry, offers_of_isProgram hname hlist hprogram⟩⟩

/-- A candidate is built in, or a path to it is tried that leads to something. -/
theorem exists_path_of_mem_candidates (hnames : volume.WellNamed)
    (h : name ∈ (ofEnvironment env).candidates volume cwd typed) :
    name ∈ Builtin.names ∨ Path.IsName name ∧ ∃ directory ∈ Lookup.searched env,
      volume.reaches cwd (Path.join directory name) = true := by
  obtain ⟨-, hbuiltin | ⟨directory, hentry, hoffers⟩⟩ := mem_candidates.mp h
  · exact .inl hbuiltin
  · have hdirectory := ne_empty_of_offers hoffers
    exact .inr ⟨isName_of_offers hnames hoffers, directory, mem_searched.mpr ⟨hentry, hdirectory⟩,
      reaches_of_isProgram hoffers.2⟩

end Completer

namespace Execution

/-- What takes up a command: a builtin, or the file at a path. -/
inductive Handler where
  | builtin (b : Builtin)
  | program (path : String)
  deriving DecidableEq, Repr

namespace Handler

/-- Whether it is the handler of a name. A builtin hides every program of its name. -/
def Answers (volume : Volume) (cwd : WorkingDirectory) (env : Environment) (name : String) :
    Handler → Prop
  | .builtin b => Builtin.ofName? name = some b
  | .program path =>
    Builtin.ofName? name = none ∧ Lookup.find? volume cwd env name = some path

/-- Has a command on its own taken up, once its redirects are open. -/
def single (host : Host) (shell : Shell) (command : Command) (streams : Streams) (m : Machine) :
    Handler → Machine × Shell × Except ShellError Flow
  | .builtin b =>
    let (m, shell, flow) := b.run command.operands streams shell m
    (m, shell, .ok flow)
  | .program path =>
    if (path :: command.arguments).any hasNul then (m, shell, .error (.nulByte command.program))
    else
      let (m, ending) := runProgram host shell command path streams (host.process + 1) m
      (m, shell, (waitFor ending).map .proceed)

/-- Has a stage of a pipeline taken up, once its redirects are open. -/
def stage (host : Host) (shell : Shell) (command : Command) (streams : Streams) (process : Nat)
    (m : Machine) : Handler → Machine × Ending
  | .builtin b => runBuiltin b shell command.operands streams m
  | .program path =>
    if (path :: command.arguments).any hasNul then
      m.endWith streams.error (errorLine (.nulByte command.program)) (.exited notFound)
    else runProgram host shell command path streams process m

end Handler

variable {host : Host} {shell : Shell} {m opened : Machine} {command : Command} {streams : Streams}
  {process : Nat} {redirection : Redirection} {handler : Handler}

theorem single_eq_handler
    (hopen : Redirection.openAll m shell.directory command.redirects = (opened, .ok redirection))
    (h : handler.Answers opened.volume shell.directory shell.environment command.program) :
    single host shell m command =
      handler.single host shell command (redirection.apply host.streams) opened := by
  unfold single
  cases handler with
  | builtin b =>
      have hbuiltin : Builtin.ofName? command.program = some b := h
      simp only [hopen, hbuiltin]
      rfl
  | program path =>
      obtain ⟨hbuiltin, hfind⟩ := h
      simp only [hopen, hbuiltin, hfind]
      rfl

theorem stage_eq_handler
    (hopen : Redirection.openAll m shell.directory command.redirects = (opened, .ok redirection))
    (h : handler.Answers opened.volume shell.directory shell.environment command.program) :
    stage host shell command streams process m =
      handler.stage host shell command (redirection.apply streams) process opened := by
  unfold stage
  cases handler with
  | builtin b =>
      have hbuiltin : Builtin.ofName? command.program = some b := h
      simp only [hopen, hbuiltin]
      rfl
  | program path =>
      obtain ⟨hbuiltin, hfind⟩ := h
      simp only [hopen, hbuiltin, hfind]
      rfl

/-- A candidate has a handler, also when redirects were opened in between. -/
theorem exists_handler_of_mem_candidates (hnames : m.volume.WellNamed) {name typed : String}
    (hmem : name ∈ (Completer.ofEnvironment shell.environment).candidates m.volume shell.directory
      typed) {redirects : List Redirect} {result : Except ShellError Redirection}
    (hopen : Redirection.openAll m shell.directory redirects = (opened, result)) :
    ∃ handler : Handler,
      handler.Answers opened.volume shell.directory shell.environment name := by
  cases hbuiltin : Builtin.ofName? name with
  | some b => exact ⟨.builtin b, hbuiltin⟩
  | none =>
      rcases Completer.exists_path_of_mem_candidates hnames hmem with hname | ⟨hname, hpath⟩
      · obtain ⟨b, -, rfl⟩ := List.mem_map.mp hname
        simp at hbuiltin
      · obtain ⟨directory, hdirectory, hreaches⟩ := hpath
        have hstill := Redirection.reaches_of_openAll hopen hreaches
        have hfound : (Lookup.find? opened.volume shell.directory shell.environment name).isSome =
            true := by
          rw [Lookup.find?_of_isName hname, List.find?_isSome]
          exact ⟨_, List.mem_map.mpr ⟨directory, hdirectory, rfl⟩, hstill⟩
        obtain ⟨path, hfind⟩ := Option.isSome_iff_exists.mp hfound
        exact ⟨.program path, hbuiltin, hfind⟩

/-- Completion and dispatch agree. Once its redirects are open, a command with the name of a
candidate is taken up, on its own and as a stage, by the builtin of this name or by the file that is
found under it. A name for which a program is found in a directory that can be listed is a candidate
for each of its beginnings. An entry of the search path that is empty changes neither what is
offered nor what is found. -/
theorem completion_agrees_with_dispatch (hnames : m.volume.WellNamed) :
    (∀ (typed name : String),
      name ∈ (Completer.ofEnvironment shell.environment).candidates m.volume shell.directory
        typed →
      ∀ (host : Host) (command : Command) (streams : Streams) (process : Nat) (opened : Machine)
        (redirection : Redirection),
        command.program = name →
        Redirection.openAll m shell.directory command.redirects = (opened, .ok redirection) →
        ∃ handler : Handler,
          handler.Answers opened.volume shell.directory shell.environment name ∧
          single host shell m command =
            handler.single host shell command (redirection.apply host.streams) opened ∧
          stage host shell command streams process m =
            handler.stage host shell command (redirection.apply streams) process opened) ∧
    (∀ (typed name path : String), Path.IsName name →
      Lookup.find? m.volume shell.directory shell.environment name = some path →
      m.volume.isProgram shell.directory path = true →
      (∃ directory ∈ Lookup.searched shell.environment, path = Path.join directory name ∧
        ∃ names, m.volume.listDirectory shell.directory directory = .ok names) →
      typed.toList <+: name.toList →
      name ∈ (Completer.ofEnvironment shell.environment).candidates m.volume shell.directory
        typed) ∧
    ∀ env : Environment, Lookup.searched env = Lookup.searched shell.environment →
      (∀ typed, (Completer.ofEnvironment env).candidates m.volume shell.directory typed =
        (Completer.ofEnvironment shell.environment).candidates m.volume shell.directory typed) ∧
      ∀ name, Lookup.find? m.volume shell.directory env name =
        Lookup.find? m.volume shell.directory shell.environment name := by
  refine ⟨?_, ?_, ?_⟩
  · intro typed name hmem host command streams process opened redirection hprogram hopen
    obtain ⟨handler, hanswers⟩ := exists_handler_of_mem_candidates hnames hmem hopen
    have hcommand := hanswers
    rw [← hprogram] at hcommand
    exact ⟨handler, hanswers, single_eq_handler hopen hcommand, stage_eq_handler hopen hcommand⟩
  · rintro typed name path hname - hprogram ⟨directory, hdirectory, rfl, names, hlist⟩ htyped
    exact Completer.mem_candidates_of_mem_searched hname hdirectory hlist hprogram htyped
  · intro env hsearched
    exact ⟨fun typed => Completer.candidates_congr hsearched,
      fun name => Lookup.find?_congr hsearched⟩

/-- A shell that looks for programs in `/bin`, between empty entries of its search path. -/
def searchingBin : Shell := ⟨.ofList [("PATH", ":/bin::/none")], .empty, .root, .empty⟩

/-- A machine with a program in `/bin` and the standard streams. -/
def offeringGreet : Machine :=
  ⟨.offering "greet", [.tape [] 0, .stream .empty, .stream .empty], none, [], 1⟩

/-- The program is offered for its first letters, and a command of its name runs it. -/
theorem completion_agrees_with_dispatch_of_greet :
    offeringGreet.volume.WellNamed ∧
      "greet" ∈ (Completer.ofEnvironment searchingBin.environment).candidates
        offeringGreet.volume .root "gr" ∧
      single Session.bareHost searchingBin offeringGreet ⟨"greet", [], []⟩ =
        (Handler.program "/bin/greet").single Session.bareHost searchingBin ⟨"greet", [], []⟩
          ⟨0, 1, 2⟩ offeringGreet := by
  have hnames : offeringGreet.volume.WellNamed := by decide +kernel
  have hagree := @completion_agrees_with_dispatch searchingBin offeringGreet hnames
  have hpath : Lookup.find? offeringGreet.volume .root searchingBin.environment "greet" =
      some "/bin/greet" := by
    decide +kernel
  have hmem : "greet" ∈ (Completer.ofEnvironment searchingBin.environment).candidates
      offeringGreet.volume .root "gr" :=
    hagree.2.1 "gr" "greet" "/bin/greet" (by decide) hpath (by decide +kernel)
      ⟨"/bin", by decide, by decide, [.text "greet"], rfl⟩ (by decide)
  refine ⟨hnames, hmem, ?_⟩
  obtain ⟨handler, hanswers, hsingle, -⟩ := hagree.1 "gr" "greet" hmem Session.bareHost
    ⟨"greet", [], []⟩ ⟨0, 1, 2⟩ 2 offeringGreet .none rfl rfl
  have hbuiltin : Builtin.ofName? "greet" = none := by decide
  cases handler with
  | builtin b => exact absurd (hbuiltin.symm.trans hanswers) (by simp)
  | program path =>
      obtain rfl := Option.some.inj (hpath.symm.trans hanswers.2)
      exact hsingle

end Execution

end LineShell
