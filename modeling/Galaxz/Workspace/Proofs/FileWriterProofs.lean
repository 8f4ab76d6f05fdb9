import Galaxz.Workspace.FileWriters

/-!
# When the writers stay below their root

The writer of the services writes wherever a filename leads; the other one only at the root or below it.
-/

namespace Galaxz

variable {sys : DiskSystem} {d : Disk}

/-- A loop that starts without a record of what was opened. -/
theorem contained_iff {α β : Type} {body : α → Disk → Except PyError β × Disk} {root : DiskPath}
    {place : α → DiskPath} {Writes : α → Disk → Prop} {Reported : β → Prop}
    (hquiet : ∀ a d, ¬ Writes a d →
      (body a d).2.opened = d.opened ∧ ∀ b, (body a d).1 = .ok b → Reported b)
    (hwrites : ∀ a d, Writes a d →
      (body a d).2.opened = d.opened ++ [place a] ∧ ∃ b, (body a d).1 = .ok b)
    (artifacts : List α) (node : DiskPath → Option DiskNode) :
    Contained root place Reported artifacts (forEach body artifacts { node }) ↔
      Reached body (fun a d => Writes a d → Below root (place a)) artifacts { node } := by
  have hinside := @forEach_inside_iff α β Disk DiskPath body place Writes (Below root) Disk.opened Reported
    hquiet hwrites artifacts { node }
  rw [← hinside]
  constructor
  · exact fun h => ⟨⟨_, (List.nil_append _).symm, h.inside⟩, h.reported⟩
  · rintro ⟨⟨new, hnew, hbelow⟩, hreported⟩
    refine ⟨fun p hp => hbelow p ?_, hreported⟩
    rw [hnew] at hp
    exact hp

namespace ServicesFileWriter

/-! ## `services/file_writer.py` -/

theorem tryWrite_quiet {fullPath : DiskPath} {artifact : PyDict}
    (h : ∀ content, artifact.lookup "content" = some (.str content) → ¬ sys.Writable d fullPath) :
    ∃ e d', tryWrite sys fullPath artifact d = (.error e, d') ∧ d'.opened = d.opened := by
  have hopened := @DiskSystem.mkdir_opened sys fullPath.dropLast d
  unfold tryWrite
  cases hcontent : artifact.lookup "content" with
  | none =>
    cases hmkdir : sys.mkdir fullPath.dropLast d with
    | mk r d₁ =>
      rw [hmkdir] at hopened
      cases r with
      | error e => exact ⟨e, d₁, rfl, hopened⟩
      | ok _ => exact ⟨_, d₁, rfl, hopened⟩
  | some v =>
    cases v with
    | str content =>
      rcases DiskSystem.not_writable (h content hcontent) content with
        ⟨e, d₁, hmkdir, hlog⟩ | ⟨d₁, e, hmkdir, hwrite, hlog⟩
      · rw [hmkdir]
        exact ⟨e, d₁, rfl, hlog⟩
      · rw [hmkdir]
        exact ⟨e, d₁, hwrite, hlog⟩
    | _ =>
      cases hmkdir : sys.mkdir fullPath.dropLast d with
      | mk r d₁ =>
        rw [hmkdir] at hopened
        cases r with
        | error e => exact ⟨e, d₁, rfl, hopened⟩
        | ok _ => exact ⟨_, d₁, rfl, hopened⟩

theorem tryWrite_writes {fullPath : DiskPath} {artifact : PyDict} {content : String}
    (hcontent : artifact.lookup "content" = some (.str content)) (h : sys.Writable d fullPath) :
    ∃ d', tryWrite sys fullPath artifact d = (.ok (), d') ∧
      d'.opened = d.opened ++ [sys.locate fullPath []] := by
  obtain ⟨d₁, d₂, hmkdir, hwrite, hlog⟩ := h.write content
  refine ⟨d₂, ?_, hlog⟩
  unfold tryWrite
  rw [hmkdir, hcontent]
  exact hwrite

theorem writeArtifact_quiet {base : DiskPath} {artifact : PyDict} (h : ¬ Writes sys base artifact d) :
    (writeArtifact sys base artifact d).2.opened = d.opened ∧
      ∀ result, (writeArtifact sys base artifact d).1 = .ok result → result.error ≠ none := by
  unfold writeArtifact
  cases hname : artifact.lookup "filename" with
  | none => exact ⟨rfl, fun result hresult => by cases hresult⟩
  | some v =>
    cases v with
    | str filename =>
      have hquiet : ∀ content, artifact.lookup "content" = some (.str content) →
          ¬ sys.Writable d (joinPath base filename) :=
        fun content hcontent hwritable => h ⟨filename, content, hname, hcontent, hwritable⟩
      obtain ⟨e, d', htry, hlog⟩ := tryWrite_quiet hquiet
      dsimp only
      rw [htry]
      refine ⟨hlog, fun result hresult => ?_⟩
      rw [← Except.ok.inj hresult]
      exact Option.some_ne_none e
    | _ => exact ⟨rfl, fun result hresult => by cases hresult⟩

theorem writeArtifact_writes {base : DiskPath} {artifact : PyDict} (h : Writes sys base artifact d) :
    (writeArtifact sys base artifact d).2.opened = d.opened ++ [place sys base artifact] ∧
      ∃ result, (writeArtifact sys base artifact d).1 = .ok result := by
  obtain ⟨filename, content, hname, hcontent, hwritable⟩ := h
  obtain ⟨d', htry, hlog⟩ := tryWrite_writes hcontent hwritable
  unfold writeArtifact place
  rw [hname]
  dsimp only
  rw [htry]
  exact ⟨hlog, _, rfl⟩

/-- The list is contained exactly when every artifact that can be written leads below the root. -/
theorem write_contained_iff (root : DiskPath) (artifacts : List PyDict) (subdir : Option String)
    (node : DiskPath → Option DiskNode) :
    Contained root (place sys (base root subdir)) (fun result : FileResult => result.error ≠ none) artifacts
        (write sys root artifacts subdir { node }) ↔
      Reached (writeArtifact sys (base root subdir)) (fun artifact d => Writes sys (base root subdir) artifact d →
        Below root (place sys (base root subdir) artifact)) artifacts { node } :=
  @contained_iff PyDict FileResult (writeArtifact sys (base root subdir)) root
    (place sys (base root subdir)) (Writes sys (base root subdir)) (fun result => result.error ≠ none)
    (fun _ _ h => writeArtifact_quiet h) (fun _ _ h => writeArtifact_writes h) artifacts node

end ServicesFileWriter

namespace WorkspaceFileWriter

/-! ## `workspace/file_writer.py` -/

/-- The filename is not refused, and its file can be written. -/
def Writes (sys : DiskSystem) (root : DiskPath) (artifact : String × String) (d : Disk) : Prop :=
  sys.unresolvable (joinPath root artifact.1) = false ∧ sys.unresolvable root = false ∧
  sys.locate root [] <+: fullPath sys root artifact.1 ∧ sys.Writable d (fullPath sys root artifact.1)

/-- A resolved path is where it leads. -/
theorem locate_fullPath (root : DiskPath) (filename : String) :
    sys.locate (fullPath sys root filename) [] = fullPath sys root filename :=
  @DiskSystem.locate_real sys [] _ (DiskSystem.real_root.locate _)

theorem write_quiet {root : DiskPath} {artifact : String × String} (h : ¬ Writes sys root artifact d) :
    ∃ e, (write sys root artifact.1 artifact.2 d).1 = .error e ∧
      (write sys root artifact.1 artifact.2 d).2.opened = d.opened := by
  unfold write
  split_ifs with hloop hstart
  · exact ⟨_, rfl, rfl⟩
  · rw [Bool.or_eq_true, not_or, Bool.not_eq_true, Bool.not_eq_true] at hloop
    have hnot : ¬ sys.Writable d (fullPath sys root artifact.1) :=
      fun hwritable => h ⟨hloop.1, hloop.2, List.isPrefixOf_iff_prefix.mp hstart, hwritable⟩
    rcases DiskSystem.not_writable hnot artifact.2 with
      ⟨e, d₁, hmkdir, hlog⟩ | ⟨d₁, e, hmkdir, hwrite, hlog⟩
    · rw [hmkdir]
      exact ⟨e, rfl, hlog⟩
    · rw [hmkdir]
      dsimp only
      rw [hwrite]
      exact ⟨e, rfl, hlog⟩
  · exact ⟨_, rfl, rfl⟩

theorem write_writes {root : DiskPath} {artifact : String × String} (h : Writes sys root artifact d) :
    (write sys root artifact.1 artifact.2 d).2.opened = d.opened ++ [fullPath sys root artifact.1] ∧
      ∃ written, (write sys root artifact.1 artifact.2 d).1 = .ok written := by
  obtain ⟨hname, hroot, hstart, hwritable⟩ := h
  obtain ⟨d₁, d₂, hmkdir, hwrite, hlog⟩ := hwritable.write artifact.2
  rw [locate_fullPath] at hlog
  unfold write
  rw [hname, hroot, if_neg (by simp), if_pos (List.isPrefixOf_iff_prefix.mpr hstart), hmkdir]
  dsimp only
  rw [hwrite]
  exact ⟨hlog, _, rfl⟩

/-- A filename that is not refused leads below the root, or to the root. -/
theorem writes_below_iff {root : DiskPath} {artifact : String × String} :
    (Writes sys root artifact d → Below (sys.locate root []) (fullPath sys root artifact.1)) ↔
      ¬ OverwritesRoot sys root artifact d := by
  constructor
  · rintro h ⟨hname, hroot, hsame, hwritable⟩
    rw [hsame] at h
    refine (h ⟨hname, hroot, ?_, ?_⟩).2 rfl
    · exact ⟨[], by rw [List.append_nil, hsame]⟩
    · rw [hsame]
      exact hwritable
  · rintro h ⟨hname, hroot, hstart, hwritable⟩
    refine ⟨hstart, fun hsame => h ⟨hname, hroot, hsame, ?_⟩⟩
    rw [← hsame]
    exact hwritable

/-- The list is contained exactly when no artifact of it is written to the root itself. -/
theorem writeAll_contained_iff (root : DiskPath) (artifacts : List (String × String))
    (node : DiskPath → Option DiskNode) :
    Contained (sys.locate root []) (fun a : String × String => fullPath sys root a.1)
        (fun _ : WrittenArtifact => False) artifacts (writeAll sys root artifacts { node }) ↔
      Reached (fun a d => write sys root a.1 a.2 d) (fun a d => ¬ OverwritesRoot sys root a d) artifacts
        { node } := by
  simp only [← writes_below_iff]
  have hquiet : ∀ (a : String × String) (d : Disk), ¬ Writes sys root a d →
      (write sys root a.1 a.2 d).2.opened = d.opened ∧
        ∀ written, (write sys root a.1 a.2 d).1 = .ok written → False := by
    intro a d h
    obtain ⟨e, herror, hlog⟩ := write_quiet h
    refine ⟨hlog, fun written hwritten => ?_⟩
    rw [herror] at hwritten
    cases hwritten
  exact @contained_iff (String × String) WrittenArtifact (fun a d => write sys root a.1 a.2 d)
    (sys.locate root []) (fun a => fullPath sys root a.1) (Writes sys root) (fun _ => False)
    hquiet (fun _ _ h => write_writes h) artifacts node

end WorkspaceFileWriter

/-! ## Both writers -/

/-- A filename with a name in it, relative and without `..`, leads below a root that no link is below. -/
theorem below_of_plain {root : DiskPath} (hlinks : ∀ p, root <+: p → sys.link p = none)
    (hroot : sys.Real root) {filename : String} (hrelative : filename.toList.head? ≠ some '/')
    (hparent : parentName ∉ pathNames filename) (hname : pathNames filename ≠ []) :
    Below root (sys.locate (joinPath root filename) []) := by
  have hjoin : joinPath root filename = root ++ pathNames filename := if_neg hrelative
  have hreal : sys.Real (root ++ pathNames filename) := by
    refine ⟨fun hmem => ?_, fun q hq => ?_⟩
    · rcases List.mem_append.mp hmem with hmem | hmem
      · exact hroot.1 hmem
      · exact hparent hmem
    · rcases List.prefix_or_prefix_of_prefix hq (List.prefix_append root (pathNames filename)) with h | h
      · exact hroot.2 q h
      · exact hlinks q h
  have hplace : sys.locate (root ++ pathNames filename) [] = root ++ pathNames filename :=
    @DiskSystem.locate_real sys [] _ hreal
  rw [hjoin, hplace]
  exact ⟨List.prefix_append _ _, fun hsame => hname (List.append_right_eq_self.mp hsame)⟩

/-- The writer of the services is contained exactly when every artifact that it gets to and can write leads
below the root, and the other one exactly when no artifact that it gets to is written to the root. -/
theorem writers_contained_iff (sys : DiskSystem) (workspaceRoot : DiskPath)
    (node : DiskPath → Option DiskNode) :
    (∀ root, ServicesFileWriter.init sys workspaceRoot { node } = .ok root → ∀ artifacts subdir,
      (Contained root (ServicesFileWriter.place sys (ServicesFileWriter.base root subdir))
          (fun result : FileResult => result.error ≠ none) artifacts
          (ServicesFileWriter.write sys root artifacts subdir { node }) ↔
        Reached (ServicesFileWriter.writeArtifact sys (ServicesFileWriter.base root subdir))
          (fun artifact d =>
            ServicesFileWriter.Writes sys (ServicesFileWriter.base root subdir) artifact d →
            Below root (ServicesFileWriter.place sys (ServicesFileWriter.base root subdir) artifact))
          artifacts { node })) ∧
    ∀ artifacts, (Contained (sys.locate workspaceRoot [])
        (fun a : String × String => WorkspaceFileWriter.fullPath sys workspaceRoot a.1)
        (fun _ : WrittenArtifact => False) artifacts
        (WorkspaceFileWriter.writeAll sys workspaceRoot artifacts { node }) ↔
      Reached (fun a d => WorkspaceFileWriter.write sys workspaceRoot a.1 a.2 d)
        (fun a d => ¬ WorkspaceFileWriter.OverwritesRoot sys workspaceRoot a d) artifacts { node }) :=
  ⟨fun root _ artifacts subdir => ServicesFileWriter.write_contained_iff root artifacts subdir node,
    fun artifacts => WorkspaceFileWriter.writeAll_contained_iff workspaceRoot artifacts node⟩

/-- A disk without links that refuses nothing. -/
def plainSystem : DiskSystem where
  link := fun _ => none
  refuses := fun _ => false
  unresolvable := fun _ => false
  allows := fun _ => true
  link_root := rfl
  link_real := fun p q h => by cases h

/-- There is a workspace, and nothing else. -/
def onlyWorkspace (p : DiskPath) : Option DiskNode := if p = [['w', 's']] then some .dir else none

def artifactNamed (filename : String) : PyDict := [("filename", .str filename), ("content", .str "x")]

theorem plainArtifact_contained :
    Contained [['w', 's']] (ServicesFileWriter.place plainSystem [['w', 's']])
      (fun result : FileResult => result.error ≠ none) [artifactNamed "a/b.txt"]
      (ServicesFileWriter.write plainSystem [['w', 's']] [artifactNamed "a/b.txt"] none
        { node := onlyWorkspace }) := by
  have hiff := (writers_contained_iff plainSystem [['w', 's']] onlyWorkspace).1 [['w', 's']] (by rfl)
    [artifactNamed "a/b.txt"] none
  refine hiff.mpr ⟨fun _ => ?_, fun _ => trivial⟩
  exact ⟨by decide +kernel, by decide +kernel⟩

/-- A file is written beside the workspace, without an error; and where there is no workspace yet, a file is
written in its place. -/
theorem escapingArtifact_written :
    (ServicesFileWriter.write plainSystem [['w', 's']] [artifactNamed "../x"] none
      { node := onlyWorkspace }).2.opened = [[['x']]] ∧
    ¬ Contained [['w', 's']] (ServicesFileWriter.place plainSystem [['w', 's']])
      (fun result : FileResult => result.error ≠ none) [artifactNamed "../x"]
      (ServicesFileWriter.write plainSystem [['w', 's']] [artifactNamed "../x"] none
        { node := onlyWorkspace }) ∧
    (WorkspaceFileWriter.writeAll plainSystem [['w', 's']] [("", "x")] { node := fun _ => none }).2.opened =
      [[['w', 's']]] := by
  have hopened : (ServicesFileWriter.write plainSystem [['w', 's']] [artifactNamed "../x"] none
      { node := onlyWorkspace }).2.opened = [[['x']]] := by decide +kernel
  refine ⟨hopened, fun h => ?_, by decide +kernel⟩
  have hbelow := h.inside [['x']] (by rw [hopened]; exact List.mem_cons_self)
  exact absurd hbelow.1 (by decide)

end Galaxz
