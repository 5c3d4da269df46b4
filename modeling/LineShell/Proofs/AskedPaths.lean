import LineShell.Proofs.CompletionLookup
import LineShell.Proofs.PassedPlaces
import LineShell.Proofs.StageCourses

/-!
# What the stages of a pipeline look for

A shell looks for the names that it is to run, or to tell about, along its search path, and a script
is run by the interpreter that it names. `Command.asked` lists the paths that a command asks for on
this way. As long as no such path leads past a place, a file in this place is not seen: every name
leads to what it led to before, and every program can be started as before.

## Implementation notes

A name is looked for up to the first directory where it is found, and what the directories behind
it hold does not matter.
-/

namespace LineShell

namespace Lookup

variable {volume other : Volume} {cwd : WorkingDirectory} {env : Environment} {name path : String}

/-- The paths that a name may stand for, in the order in which they are tried. -/
def paths (env : Environment) (name : String) : List String :=
  if name = "" then []
  else if standsForItself name then [name]
  else (searched env).map fun directory => Path.join directory name

/-- The paths that are tried for a name: those that lead to nothing, and then one that does. -/
def tried (volume : Volume) (cwd : WorkingDirectory) (env : Environment) (name : String) :
    List String :=
  (paths env name).takeWhile (fun path => !volume.reaches cwd path) ++
    ((paths env name).find? (volume.reaches cwd)).toList

theorem find?_eq_paths (volume : Volume) (cwd : WorkingDirectory) (env : Environment)
    (name : String) :
    find? volume cwd env name = (paths env name).find? (volume.reaches cwd) := by
  unfold find? paths searched
  split
  · rfl
  · split
    · cases hreaches : volume.reaches cwd name <;> simp [hreaches]
    · cases env.searchPath <;> rfl

/-- What is found first is the same for two tests that agree as far as the first one goes. -/
theorem find?_congr_of_tried {α : Type} {p q : α → Bool} {tried : List α}
    (h : ∀ a ∈ tried.takeWhile (fun a => !p a) ++ (tried.find? p).toList, q a = p a) :
    tried.find? q = tried.find? p := by
  induction tried with
  | nil => rfl
  | cons a rest ih =>
      cases hp : p a with
      | true =>
          have hq : q a = true := by
            rw [← hp]
            exact h a (by simp [hp])
          simp [hp, hq]
      | false =>
          have hq : q a = false := by
            rw [← hp]
            exact h a (by simp [hp])
          simp only [List.find?_cons, hp, hq]
          apply ih
          intro b hb
          apply h
          simpa [hp] using .inr (by simpa using hb)

/-- A name leads to the same path if the paths that are tried for it lead to something as before. -/
theorem find?_congr_of_reaches
    (h : ∀ path ∈ tried volume cwd env name, other.reaches cwd path = volume.reaches cwd path) :
    find? other cwd env name = find? volume cwd env name := by
  rw [find?_eq_paths, find?_eq_paths]
  exact find?_congr_of_tried h

theorem mem_tried_of_find? (h : find? volume cwd env name = some path) :
    path ∈ tried volume cwd env name := by
  rw [find?_eq_paths] at h
  simp [tried, h]

end Lookup

/-- The paths of the interpreters that are opened one after the other to run what was opened. -/
def Startable.interpreters (m : Machine) (cwd : WorkingDirectory) : Nat → Startable → List String
  | _, .program _ => []
  | depth, .script contents =>
    match ScriptHeader.ofContents? contents with
    | none => []
    | some header =>
      let interpreter := Utf8.lossy header.interpreter
      interpreter ::
        match m.openInterpreter cwd interpreter with
        | .error _ => []
        | .ok startable =>
          match depth with
          | 0 => []
          | depth + 1 => interpreters m cwd depth startable

/-- The paths that a command asks for as a stage of a pipeline. -/
def Command.asked (command : Command) (shell : Shell) (m : Machine) : List String :=
  match Builtin.ofName? command.program with
  | some .type =>
    match Builtin.typeGrammar.read command.operands with
    | .given given =>
      (given.operands.filter fun name => (Builtin.ofName? name).isNone).flatMap
        (Lookup.tried m.volume shell.directory shell.environment)
    | _ => []
  | some _ => []
  | none =>
    Lookup.tried m.volume shell.directory shell.environment command.program ++
      match Lookup.find? m.volume shell.directory shell.environment command.program with
      | none => []
      | some path =>
        match m.openToRun shell.directory path with
        | .error _ => []
        | .ok startable =>
          startable.interpreters m shell.directory Programs.deepestInterpreter

/-- A machine that looks like another one to who starts programs, but for a file at one place. -/
structure Machine.LooksLike (m : Machine) (place : Location) (x : Machine) : Prop where
  volume : m.volume.Resembles m.isBeingChanged place x.volume
  busy : ∀ spot entry, m.volume.find? spot = some entry →
    x.isBeingChanged entry.serial = m.isBeingChanged entry.serial

section LooksLike

variable {m x : Machine} {place : Location} {cwd : WorkingDirectory} {env : Environment}
  {path file name : String} {programs : Programs}

theorem Machine.LooksLike.openToRun (h : m.LooksLike place x)
    (hpassed : place ∉ m.volume.passed cwd path .follow) :
    x.openToRun cwd path = m.openToRun cwd path :=
  openToRun_congr h.volume h.busy hpassed

theorem Machine.LooksLike.openInterpreter (h : m.LooksLike place x)
    (hpassed : place ∉ m.volume.passed cwd path .follow) :
    x.openInterpreter cwd path = m.openInterpreter cwd path := by
  simp only [Machine.openInterpreter, h.openToRun hpassed]

theorem Machine.LooksLike.find? (h : m.LooksLike place x)
    (hpassed : ∀ path ∈ Lookup.tried m.volume cwd env name,
      place ∉ m.volume.passed cwd path .follow) :
    Lookup.find? x.volume cwd env name = Lookup.find? m.volume cwd env name :=
  Lookup.find?_congr_of_reaches fun path hpath => h.volume.reaches (hpassed path hpath)

/-- Programs that end by themselves. -/
def Programs.Exit (programs : Programs) : Prop :=
  ∀ name program, programs name = some program →
    ∀ call m, ∃ code, (program call m).2 = .exited code

/-- Programs that are filters, except that they may do anything when they are called with some
arguments. Every one of them ends by itself. -/
structure Programs.AreFilters (programs : Programs) (but : List String) : Prop where
  filters : ∀ name program, programs name = some program →
    ∃ filter : List String → Filter, ∀ call m, call.arguments ≠ but →
      program call m = Program.ofFunction filter call m
  exits : programs.Exit

/-- What can be opened to be run leads to something. -/
theorem Machine.reaches_of_openToRun {startable : Startable}
    (h : m.openToRun cwd path = .ok startable) : m.volume.reaches cwd path = true := by
  cases hlook : m.volume.lookUp cwd path .follow with
  | error fault => cases fault <;> simp [Machine.openToRun, hlook] at h
  | ok found => simp [Volume.reaches, hlook, Except.isOk, Except.toBool]

theorem Machine.reaches_of_openInterpreter {startable : Startable}
    (h : m.openInterpreter cwd path = .ok startable) : m.volume.reaches cwd path = true := by
  simp only [openInterpreter] at h
  split at h
  · simp at h
  · exact reaches_of_openToRun h

/-- Whether what was opened can be run, and as which filter, is the same on every machine that looks
the same. -/
theorem Programs.exists_outcome (hprograms : programs.AreFilters ["cat", file])
    (hfile : m.volume.reaches cwd file = false) {depth : Nat} {startable : Startable}
    {arguments : List String} (hpath : path ≠ file) (harguments : arguments ≠ ["cat", file])
    (hunseen : ∀ path ∈ startable.interpreters m cwd depth,
      place ∉ m.volume.passed cwd path .follow) :
    ∃ outcome : Except Errno Filter, ∀ x, m.LooksLike place x → ∀ call : Call,
      call.arguments = arguments → call.directory = cwd →
      programs.startWithin depth startable path call x =
        outcome.map fun filter => Program.ofFunction (fun _ => filter) call x := by
  -- Only an interpreter that is opened takes one level.
  induction depth using Nat.strongRecOn generalizing startable path arguments with
  | ind depth ih =>
      cases startable with
      | program name =>
          cases hname : programs name with
          | none =>
              refine ⟨.error .badFormat, ?_⟩
              intro x _ call _ _
              simp only [startWithin, hname, Except.map]
          | some program =>
              obtain ⟨filter, hfilter⟩ := hprograms.filters name program hname
              refine ⟨.ok (filter arguments), ?_⟩
              rintro x _ call rfl _
              simp only [startWithin, hname, hfilter call x harguments, Except.map]
              rfl
      | script contents =>
          cases hheader : ScriptHeader.ofContents? contents with
          | none =>
              refine ⟨.error .badFormat, ?_⟩
              intro x _ call _ _
              simp only [startWithin, hheader, Except.map]
          | some header =>
              simp only [Startable.interpreters, hheader, List.forall_mem_cons] at hunseen
              have hopens {x : Machine} (hx : m.LooksLike place x) :=
                hx.openInterpreter hunseen.1
              cases hinterpreter : m.openInterpreter cwd (Utf8.lossy header.interpreter) with
              | error e =>
                  refine ⟨.error e, ?_⟩
                  rintro x hx call _ rfl
                  simp only [startWithin, hheader, hopens hx, hinterpreter, Except.map]
              | ok next =>
                  cases depth with
                  | zero =>
                      refine ⟨.error .linkLoop, ?_⟩
                      rintro x hx call _ rfl
                      simp only [startWithin, hheader, hopens hx, hinterpreter, Except.map]
                  | succ depth =>
                      have hother : Utf8.lossy header.interpreter ≠ file := by
                        rintro rfl
                        have hreaches := Machine.reaches_of_openInterpreter hinterpreter
                        simp [hfile] at hreaches
                      have hlong : Utf8.lossy header.interpreter ::
                          (header.argument.map Utf8.lossy).toList ++ path :: arguments.tail ≠
                            ["cat", file] := by
                        intro hsame
                        have htail := (List.cons.inj hsame).2
                        cases hargument : header.argument with
                        | none =>
                            rw [hargument] at htail
                            exact hpath (List.cons.inj htail).1
                        | some argument => simp [hargument] at htail
                      simp only [hinterpreter] at hunseen
                      obtain ⟨outcome, houtcome⟩ :=
                        ih depth (Nat.lt_succ_self depth) hother hlong hunseen.2
                      refine ⟨outcome, ?_⟩
                      rintro x hx call rfl rfl
                      simp only [startWithin, hheader, hopens hx, hinterpreter]
                      exact houtcome x hx { call with arguments := _ } rfl rfl

end LooksLike

end LineShell
