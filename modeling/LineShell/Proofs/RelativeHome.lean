import LineShell.Proofs.ChangedDirectory

/-!
# Going home by a relative path

A home directory may be a relative path, which leads on from the current directory. `cd` collapses
the path before it enters it, and at the start of a relative path `..` has no name to take away. So
a `..` that leads above the current directory gets lost, and `cd` may end in another directory than
the path leads to. If no name is left at all, as in `.`, the collapsed path is empty and leads
nowhere.
-/

namespace LineShell

namespace RawPath

variable {path : RawPath} {names : List Name}

theorem normalise_of_relative (h : isAbsolute path = false) :
    normalise path = joinedNames (collapse [] (parts path)) := by
  rw [normalise, h]
  rfl

theorem joinedNames_eq_nil_iff (h : ∀ name ∈ names, name.IsPart) :
    joinedNames names = [] ↔ names = [] := by
  constructor
  · intro hempty
    have hparts := parts_joinedNames h
    rw [hempty] at hparts
    exact List.map_eq_nil_iff.mp hparts.symm
  · rintro rfl
    rfl

theorem isAbsolute_joinedNames (h : ∀ name ∈ names, name.IsPart) :
    isAbsolute (joinedNames names) = false := by
  match names with
  | [] => rfl
  | [name] => exact (h name List.mem_cons_self).not_isAbsolute
  | name :: next :: rest =>
    have hname := h name List.mem_cons_self
    rw [joinedNames, isAbsolute_append hname.spelling_ne_nil]
    exact hname.not_isAbsolute

end RawPath

namespace Volume

variable {v : Volume} {cwd there : WorkingDirectory} {path : RawPath} {names : List Name}

/-- A relative path starts from the current directory as long as this stands somewhere. -/
theorem origin_of_isAttached (hattached : v.isAttached cwd = true)
    (hrelative : RawPath.isAbsolute path = false) :
    v.origin cwd path = .ok (.attached cwd.place (RawPath.parts path)) := by
  rw [origin, hrelative]
  cases RawPath.parts path with
  | nil => simp [climb, hattached]
  | cons part rest => simp [climb, hattached]

/-- Names in a row lead on from the current directory, but no names lead nowhere. -/
theorem enter_joinedNames_iff (hlinks : v.Unlinked) (hattached : v.isAttached cwd = true)
    (hnames : ∀ name ∈ names, name.IsPart) :
    v.enter cwd (RawPath.joinedNames names) = .ok there ↔
      names ≠ [] ∧ Takes (RawPath.joinedNames names) ∧
        ∃ place, v.Follows cwd.place (names.map .name) place ∧ v.Admits cwd.place place ∧
          there = v.directoryAt place := by
  rw [enter_eq_ok_iff hlinks (RawPath.parts_joinedNames hnames)
      (origin_of_isAttached hattached (RawPath.isAbsolute_joinedNames hnames)),
    Ne, RawPath.joinedNames_eq_nil_iff hnames]

end Volume

namespace Environment

theorem home_ne_empty {env : Environment} {home : String} (h : env.home = some home) :
    home ≠ "" := by
  obtain ⟨-, hne⟩ := Option.filter_eq_some_iff.mp h
  simpa using hne

end Environment

namespace Builtin

variable {operands : List String} {home rest : String} {shell : Shell} {m : Machine}
  {place : Location}

theorem isAbsolute_dropSlashes (text : List Char) :
    Path.isAbsolute (dropSlashes text) = false := by
  rw [← Bool.not_eq_true, Path.isAbsolute_iff_head?]
  induction text with
  | nil => simp [dropSlashes]
  | cons c rest ih =>
      by_cases hslash : c = '/'
      · simpa [dropSlashes, hslash] using ih
      · simp [dropSlashes, hslash]

theorem parts_dropSlashes (text : List Char) :
    Path.parts (dropSlashes text) = Path.parts (String.ofList text) := by
  induction text with
  | nil => rfl
  | cons c rest ih =>
      by_cases hslash : c = '/'
      · have hfront : octets (String.ofList (c :: rest)) =
            RawPath.slash :: octets (String.ofList rest) := by
          simp [octets, hslash, Utf8.isOctet_slash.encode]
        have hparts : Path.parts (String.ofList (c :: rest)) = Path.parts (String.ofList rest) := by
          rw [Path.parts, hfront, RawPath.parts_slash_cons, Path.parts]
        rw [hparts]
        simpa [dropSlashes, hslash] using ih
      · simp [dropSlashes, hslash]

/-- The operands by which `cd` goes home, and on from there: none, or `~` with the rest of a path. A
slash at the front of the rest is no part of it. -/
inductive LeadsHome : List String → String → Prop where
  | nothing : LeadsHome [] ""
  | tilde (rest : String) : LeadsHome ["~" ++ rest] rest

/-- The names that are left of the way home and on from there. -/
def namesHome (home rest : String) : List Name :=
  RawPath.collapse [] (Path.parts home ++ Path.parts rest)

theorem LeadsHome.execute_eq (h : LeadsHome operands rest) (streams : Streams) (shell : Shell)
    (m : Machine) :
    execute .cd operands streams shell m =
      changeDirectory ("~" ++ rest) streams shell m := by
  cases h with
  | nothing => rfl
  | tilde =>
      have hchars : ("~" ++ rest).toList = '~' :: rest.toList := by simp
      rw [execute, withOptions, read_cdGrammar_of_head hchars (by decide) (by decide)]
      rfl

theorem cdTarget_tilde (current : RawPath) (rest : String) (hhome : home ≠ "")
    (hrelative : Path.isAbsolute home = false) :
    cdTarget ("~" ++ rest) current (some home) =
      .directory (RawPath.joinedNames (namesHome home rest)) := by
  have hchars : ("~" ++ rest).toList = '~' :: rest.toList := by simp
  have hbase : octets home ≠ [] := mt octets_eq_nil_iff.mp hhome
  have hdropped : RawPath.isAbsolute (octets (dropSlashes rest.toList)) = false :=
    isAbsolute_dropSlashes rest.toList
  have hjoin : RawPath.isAbsolute
      (RawPath.join (octets home) (octets (dropSlashes rest.toList))) = false :=
    (RawPath.isAbsolute_join_of_relative hbase hdropped).trans hrelative
  have hbehind : RawPath.parts (octets (dropSlashes rest.toList)) = Path.parts rest := by
    have hparts := parts_dropSlashes rest.toList
    rwa [String.ofList_toList] at hparts
  obtain ⟨-, -, hparts⟩ := RawPath.exists_join_eq hbase hdropped
  rw [hbehind] at hparts
  simp only [cdTarget, hchars, RawPath.normalise_of_relative hjoin, hparts, namesHome, Path.parts]

theorem isPart_of_mem_namesHome (name : Name) (h : name ∈ namesHome home rest) : name.IsPart := by
  rcases List.mem_append.mp (RawPath.mem_of_mem_collapse h) with hhome | hrest
  · exact RawPath.isPart_of_mem_parts hhome
  · exact RawPath.isPart_of_mem_parts hrest

section

variable (hattached : m.volume.isAttached shell.directory = true)
  (hhome : shell.environment.home = some home) (hrelative : Path.isAbsolute home = false)
  (hoperands : LeadsHome operands rest) (streams : Streams)

include hattached hhome hrelative hoperands

/-- `cd` enters what the names that are left of the way home lead to, or it stays. -/
theorem run_cd_home_cases :
    (∃ there,
      m.volume.enter shell.directory (RawPath.joinedNames (namesHome home rest)) = .ok there ∧
      run .cd operands streams shell m = (m, { shell with directory := there }, .proceed 0)) ∨
    ∃ fault after,
      m.volume.enter shell.directory (RawPath.joinedNames (namesHome home rest)) = .error fault ∧
      run .cd operands streams shell m = (after, shell, .proceed 1) := by
  have hcurrent : m.volume.pathOfDirectory shell.directory =
      .ok (Volume.pathOf shell.directory.place) := if_pos hattached
  have hexecute := hoperands.execute_eq streams shell m
  have htarget : cdTarget ("~" ++ rest) (Volume.pathOf shell.directory.place)
      shell.environment.home = .directory (RawPath.joinedNames (namesHome home rest)) := by
    rw [hhome]
    exact cdTarget_tilde _ rest (Environment.home_ne_empty hhome) hrelative
  cases henter : m.volume.enter shell.directory (RawPath.joinedNames (namesHome home rest)) with
  | ok there => exact .inl ⟨there, rfl, run_cd_of_target_ok hexecute hcurrent htarget henter⟩
  | error fault =>
      obtain ⟨after, hafter⟩ := exists_run_cd_of_target_error m streams ("~" ++ rest) fault
      exact .inr ⟨fault, after, rfl, hafter _ _ _ _ hexecute hcurrent htarget henter⟩

/-- Without links `cd` goes where the names lead that are left of the way home. -/
theorem run_cd_home_eq_iff (hlinks : m.volume.Unlinked) (there : WorkingDirectory) :
    run .cd operands streams shell m = (m, { shell with directory := there }, .proceed 0) ↔
      namesHome home rest ≠ [] ∧ Volume.Takes (RawPath.joinedNames (namesHome home rest)) ∧
        ∃ spot, m.volume.Follows shell.directory.place ((namesHome home rest).map .name) spot ∧
          m.volume.Admits shell.directory.place spot ∧ there = m.volume.directoryAt spot := by
  rw [← Volume.enter_joinedNames_iff hlinks hattached isPart_of_mem_namesHome]
  rcases run_cd_home_cases hattached hhome hrelative hoperands streams with
    ⟨entered, henter, hrun⟩ | ⟨fault, after, henter, hrun⟩
  · rw [hrun, henter]
    simp
  · rw [hrun, henter]
    simp

end

/-- The way home by a relative path leads to an existing directory, followed from the current one.
`cd` goes to this directory exactly if some names are left when the path is collapsed, the machine
takes the path of these names, all directories from the current one to the other may be entered, and
no `..` leads above the current directory, unless this is the root. Otherwise it goes to where the
names lead from the current directory, which is another place, or the shell stays as it is, with
status one. -/
theorem run_cd_of_relative_home (hattached : m.volume.isAttached shell.directory = true)
    (hlinks : m.volume.Unlinked) (hhome : shell.environment.home = some home)
    (hrelative : Path.isAbsolute home = false) (hoperands : LeadsHome operands rest)
    (hfollows : m.volume.Follows shell.directory.place (Path.parts home ++ Path.parts rest) place)
    (hdirectory : m.volume.isDirectory place = true) (streams : Streams) :
    ((∃ there,
        run .cd operands streams shell m = (m, { shell with directory := there }, .proceed 0) ∧
          there.place = place ∧ m.volume.isAttached there = true) ↔
      namesHome home rest ≠ [] ∧ Volume.Takes (RawPath.joinedNames (namesHome home rest)) ∧
        m.volume.Admits shell.directory.place place ∧
          (shell.directory.place = [] ∨
            Path.staysWithin 0 (Path.parts home ++ Path.parts rest) = true)) ∧
    ((∃ there,
        run .cd operands streams shell m = (m, { shell with directory := there }, .proceed 0) ∧
          there.place = shell.directory.place ++ namesHome home rest ∧
          m.volume.isAttached there = true) ∨
      ∃ after, run .cd operands streams shell m = (after, shell, .proceed 1)) := by
  have hgoes (there : WorkingDirectory) :=
    run_cd_home_eq_iff hattached hhome hrelative hoperands streams hlinks there
  have hfrom : m.volume.Follows (shell.directory.place ++ []) (Path.parts home ++ Path.parts rest)
      place := by
    rwa [List.append_nil]
  obtain ⟨kept, -, hplace, hkept⟩ := hfrom.exists_kept
  refine ⟨⟨?_, ?_⟩, ?_⟩
  · rintro ⟨there, hrun, hthere, -⟩
    obtain ⟨hne, htakes, spot, hspot, hadmits, rfl⟩ := (hgoes there).mp hrun
    rw [Volume.place_directoryAt] at hthere
    -- The names that are left stand behind all of the current directory, so none of it is lost.
    have hbelow := hspot.place_of_names
    rw [hthere] at hadmits
    rw [hthere, hplace] at hbelow
    exact ⟨hne, htakes, hadmits, hkept.mp (List.append_cancel_right hbelow)⟩
  · rintro ⟨hne, htakes, hadmits, hstays⟩
    have hstart : m.volume.Follows shell.directory.place [] (shell.directory.place ++ []) := by
      rw [List.append_nil]
      exact .done _
    have hcollapsed := hfrom.collapse hstart hstays
    have hrun := (hgoes (m.volume.directoryAt place)).mpr
      ⟨hne, htakes, place, hcollapsed, hadmits, rfl⟩
    exact ⟨_, hrun, Volume.place_directoryAt .., Volume.isAttached_directoryAt hdirectory⟩
  · rcases run_cd_home_cases hattached hhome hrelative hoperands streams with
      ⟨there, -, hrun⟩ | ⟨fault, after, -, hrun⟩
    · obtain ⟨-, -, spot, hspot, hadmits, rfl⟩ := (hgoes there).mp hrun
      have hbelow := hspot.place_of_names
      refine .inl ⟨_, hrun, ?_, Volume.isAttached_directoryAt (hadmits.isDirectory ?_)⟩
      · rw [Volume.place_directoryAt, hbelow]
      · exact ⟨_, hbelow.symm⟩
    · exact .inr ⟨after, hrun⟩

/-- A machine with the directories `/a`, `/b` and `/a/b`. -/
def nestedDirectories : Machine :=
  { twoDirectories with
    volume := twoDirectories.volume.create [.text "a", .text "b"] .newDirectory }

/-- A shell in `/a`, with a home directory. -/
def homedShell (home : String) : Shell :=
  ⟨.ofList [("HOME", home)], .empty, ⟨[(.text "a", 1)]⟩, .empty⟩

/-- The way home leaves `/a/b` and comes back to it, but it does not leave `/a`. -/
theorem run_cd_of_relative_home_within :
    nestedDirectories.volume.Follows [.text "a"] (Path.parts "b/.././b" ++ Path.parts "/.")
        [.text "a", .text "b"] ∧
      ∃ there, run .cd ["~/."] ⟨0, 1, 2⟩ (homedShell "b/.././b") nestedDirectories =
          (nestedDirectories, { homedShell "b/.././b" with directory := there }, .proceed 0) ∧
        there.place = [.text "a", .text "b"] ∧
        nestedDirectories.volume.isAttached there = true := by
  have hparts : Path.parts "b/.././b" ++ Path.parts "/." =
      [.name (.text "b"), .above, .here, .name (.text "b"), .here] := by
    decide +kernel
  have hfollows : nestedDirectories.volume.Follows [.text "a"]
      (Path.parts "b/.././b" ++ Path.parts "/.") [.text "a", .text "b"] := by
    rw [hparts]
    exact .name rfl rfl (.above rfl (.here rfl (.name rfl rfl (.here rfl (.done _)))))
  have hnames : namesHome "b/.././b" "/." = [.text "b"] := by
    rw [namesHome, hparts]
    rfl
  have htakes : Volume.Takes (RawPath.joinedNames [.text "b"]) := by
    have hleft : RawPath.parts (RawPath.joinedNames [.text "b"]) = [.name (.text "b")] := by
      decide +kernel
    refine ⟨by decide, by decide, fun name hname => ?_⟩
    obtain rfl : name = .text "b" := by simpa [hleft] using hname
    decide
  have hstays : Path.staysWithin 0 (Path.parts "b/.././b" ++ Path.parts "/.") = true := by
    rw [hparts]
    rfl
  obtain ⟨hgoes, -⟩ := @run_cd_of_relative_home ["~/."] "b/.././b" "/." (homedShell "b/.././b")
    nestedDirectories _ rfl (by decide) rfl (by decide) (.tilde "/.") hfollows rfl ⟨0, 1, 2⟩
  have hadmits : nestedDirectories.volume.Admits [.text "a"] [.text "a", .text "b"] :=
    (Volume.admits_iff_of_begins List.prefix_rfl).mpr ⟨rfl, Volume.admits_self_iff.mpr rfl⟩
  exact ⟨hfollows, hgoes.mpr ⟨by simp [hnames], hnames ▸ htakes, hadmits, .inr hstays⟩⟩

/-- From `/a` the way home leads to `/b`, but `cd` ends in `/a/b`. -/
theorem not_forall_run_cd_of_relative_home :
    ¬ ∀ (operands : List String) (home rest : String) (streams : Streams) (shell : Shell)
      (m : Machine) (place : Location), m.volume.isAttached shell.directory = true →
      m.volume.Unlinked → shell.environment.home = some home → Path.isAbsolute home = false →
      LeadsHome operands rest →
      m.volume.Follows shell.directory.place (Path.parts home ++ Path.parts rest) place →
      m.volume.isDirectory place = true →
      (run .cd operands streams shell m).2.1.directory.place = place := by
  intro h
  have hparts : Path.parts "../b" ++ Path.parts "" = [.above, .name (.text "b")] := by
    decide +kernel
  have hfollows : nestedDirectories.volume.Follows [.text "a"]
      (Path.parts "../b" ++ Path.parts "") [.text "b"] := by
    rw [hparts]
    exact .above rfl (.name rfl rfl (.done _))
  have hsame := h [] "../b" "" ⟨0, 1, 2⟩ (homedShell "../b") nestedDirectories [.text "b"]
    rfl (by decide) rfl (by decide) .nothing hfollows rfl
  revert hsame
  decide +kernel

end Builtin

end LineShell
