import LineShell.Environment
import LineShell.Volume.Files

/-!
# Finding the file behind a name

A name of more than one component, or an absolute one, stands for itself. Any other name is joined
to the directories of the search path in turn, and the first path that leads to something is the
answer. Whether the file can be run shows only when it is started.
-/

namespace LineShell.Lookup

/-- Names that stand for themselves. -/
def standsForItself (name : String) : Bool :=
  Path.isAbsolute name || 1 < (Path.components name).length

/-- Directories of a search path; an empty entry names none. -/
def directories (searchPath : String) : List String :=
  (piecesOf ':' searchPath).filter (· != "")

/-- The path of the file that a name stands for. -/
def find? (volume : Volume) (cwd : WorkingDirectory) (env : Environment) (name : String) :
    Option String :=
  if name = "" then none
  else if standsForItself name then
    if volume.reaches cwd name then some name else none
  else
    env.searchPath.bind fun searchPath =>
      ((directories searchPath).map fun directory => Path.join directory name).find?
        (volume.reaches cwd)

/-- What is found leads to something. -/
theorem reaches_of_find? {volume : Volume} {cwd : WorkingDirectory} {env : Environment}
    {name path : String} (h : find? volume cwd env name = some path) :
    volume.reaches cwd path = true := by
  unfold find? at h
  split at h
  · simp at h
  · split at h
    · split at h
      · simp_all
      · simp at h
    · obtain ⟨searchPath, _, hp⟩ := Option.bind_eq_some_iff.1 h
      exact List.find?_some hp

end LineShell.Lookup
