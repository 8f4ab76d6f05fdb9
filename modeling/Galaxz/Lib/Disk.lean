import Galaxz.Lib.PyError

/-!
# Files and directories

A disk as a program sees it that makes directories and writes files by their paths. What does not change
meanwhile is the `DiskSystem`: where the symbolic links lead, and what the operating system refuses.
-/

namespace Galaxz

/-- The names of a path, from `/` on. -/
abbrev DiskPath := List (List Char)

/-- `..` -/
def parentName : List Char := ['.', '.']

inductive DiskNode where
  | dir
  | file (content : String)
deriving DecidableEq

structure DiskSystem where
  /-- Where the symbolic link at a path leads, through all further links. -/
  link : DiskPath → Option DiskPath
  /-- A path that no call takes as it is written: for a NUL, its length, a loop of links, or a directory
  that may not be searched. -/
  refuses : DiskPath → Bool
  /-- `resolve()` raises: for a NUL or a loop of links. -/
  unresolvable : DiskPath → Bool
  /-- An entry may be made at a path, and the file there may be opened for writing. -/
  allows : DiskPath → Bool
  link_root : link [] = none
  link_real : ∀ p q, link p = some q → parentName ∉ q ∧ ∀ r, r <+: q → link r = none

/-- What is at the paths that are no links, and the paths that were opened for writing, which no code
reads. -/
structure Disk where
  node : DiskPath → Option DiskNode
  opened : List DiskPath := []

namespace Disk

/-- `/` is a directory. -/
def isDir (d : Disk) (p : DiskPath) : Bool := p.isEmpty || d.node p = some .dir

def set (d : Disk) (p : DiskPath) (n : DiskNode) : Disk :=
  { d with node := fun q => if q = p then some n else d.node q }

end Disk

namespace DiskSystem

variable (sys : DiskSystem)

/-- The place that a name leads to. -/
def next (p : DiskPath) (name : List Char) : DiskPath :=
  if name = parentName then p.dropLast else (sys.link (p ++ [name])).getD (p ++ [name])

/-- `resolve()`: the place that a path leads to, whether it exists or not. -/
def locate (names : DiskPath) (p : DiskPath) : DiskPath := names.foldl sys.next p

/-- The calls of `os.mkdir` that make the missing directories of a path, from a directory on. -/
def makeDirs : DiskPath → DiskPath → Disk → Except PyError Unit × Disk
  | [], _, d => (.ok (), d)
  | name :: names, p, d =>
    if name = parentName then makeDirs names p.dropLast d
    else match sys.link (p ++ [name]) with
      | some q => if d.isDir q then makeDirs names q d else (.error (.osError "File exists"), d)
      | none =>
        if d.isDir (p ++ [name]) then makeDirs names (p ++ [name]) d
        else if (d.node (p ++ [name])).isSome then (.error (.osError "File exists"), d)
        else if sys.allows (p ++ [name]) then makeDirs names (p ++ [name]) (d.set (p ++ [name]) .dir)
        else (.error (.osError "Permission denied"), d)

/-- `path.mkdir(parents=True, exist_ok=True)`. -/
def mkdir (names : DiskPath) (d : Disk) : Except PyError Unit × Disk :=
  if sys.refuses names then (.error (.osError "refused"), d) else sys.makeDirs names [] d

/-- Every place on the way to the last name of a path is a directory. -/
def searchable (d : Disk) : DiskPath → DiskPath → Bool
  | [], _ => true
  | [_], _ => true
  | name :: names, p => (name = parentName || d.isDir (sys.next p name)) && searchable d names (sys.next p name)

/-- `path.write_text(content)`. -/
def writeText (names : DiskPath) (content : String) (d : Disk) : Except PyError Unit × Disk :=
  let p := sys.locate names []
  if sys.refuses names then (.error (.osError "refused"), d)
  else if !sys.searchable d names [] || !d.isDir p.dropLast then
    (.error (.osError "No such file or directory"), d)
  else if d.isDir p then (.error (.osError "Is a directory"), d)
  else if sys.allows p then (.ok (), { d.set p (.file content) with opened := d.opened ++ [p] })
  else (.error (.osError "Permission denied"), d)

/-! ## When a file can be written -/

/-- The directories that are still to be made for a path, after those in `made`; `none` if something is in
their way. -/
def missingDirs (d : Disk) (made : List DiskPath) : DiskPath → DiskPath → Option (List DiskPath)
  | [], _ => some made
  | name :: names, p =>
    if name = parentName then missingDirs d made names p.dropLast
    else match sys.link (p ++ [name]) with
      | some q => if d.isDir q || made.contains q then missingDirs d made names q else none
      | none =>
        if d.isDir (p ++ [name]) || made.contains (p ++ [name]) then missingDirs d made names (p ++ [name])
        else if (d.node (p ++ [name])).isSome then none
        else if sys.allows (p ++ [name]) then missingDirs d ((p ++ [name]) :: made) names (p ++ [name])
        else none

/-- The file of a path can be written once the directories of the path are made: none of them is in the
way, and the path does not lead to a directory. -/
def Writable (d : Disk) (names : DiskPath) : Prop :=
  sys.refuses names.dropLast = false ∧ sys.refuses names = false ∧
  ∃ made, sys.missingDirs d [] names.dropLast [] = some made ∧
    (d.isDir (sys.locate names []).dropLast || made.contains (sys.locate names []).dropLast) = true ∧
    (d.isDir (sys.locate names []) || made.contains (sys.locate names [])) = false ∧
    sys.allows (sys.locate names []) = true

end DiskSystem

namespace Disk

/-- The disk with more directories. -/
def withDirs (d : Disk) (made : List DiskPath) : Disk :=
  { d with node := fun q => if q ∈ made then some .dir else d.node q }

@[simp] theorem withDirs_opened (d : Disk) (made : List DiskPath) : (d.withDirs made).opened = d.opened := rfl

theorem withDirs_nil (d : Disk) : d.withDirs [] = d := by
  simp [withDirs]

theorem isDir_withDirs (d : Disk) (made : List DiskPath) (p : DiskPath) :
    (d.withDirs made).isDir p = (d.isDir p || made.contains p) := by
  unfold isDir withDirs
  by_cases hp : p ∈ made
  · simp [hp]
  · simp [hp]

theorem node_withDirs {d : Disk} {made : List DiskPath} {p : DiskPath} (h : p ∉ made) :
    (d.withDirs made).node p = d.node p := if_neg h

theorem set_dir (d : Disk) (made : List DiskPath) (p : DiskPath) :
    (d.withDirs made).set p .dir = d.withDirs (p :: made) := by
  unfold set withDirs
  congr 1
  funext q
  by_cases hq : q = p
  · simp [hq]
  · simp [hq]

end Disk

namespace DiskSystem

variable {sys : DiskSystem} {d : Disk}

/-- `makeDirs` makes the missing directories, or stops at what is in the way. -/
theorem makeDirs_cases (names : DiskPath) : ∀ (p : DiskPath) (made : List DiskPath),
    (∃ made', sys.missingDirs d made names p = some made' ∧
      sys.makeDirs names p (d.withDirs made) = (.ok (), d.withDirs made')) ∨
    (sys.missingDirs d made names p = none ∧
      ∃ e made', sys.makeDirs names p (d.withDirs made) = (.error e, d.withDirs made')) := by
  induction names with
  | nil => exact fun p made => Or.inl ⟨made, rfl, rfl⟩
  | cons name names ih =>
    intro p made
    unfold missingDirs makeDirs
    by_cases hparent : name = parentName
    · rw [if_pos hparent, if_pos hparent]
      exact ih _ made
    · rw [if_neg hparent, if_neg hparent]
      cases hlink : sys.link (p ++ [name]) with
      | some q =>
        simp only [Disk.isDir_withDirs]
        by_cases hdir : (d.isDir q || made.contains q) = true
        · rw [if_pos hdir, if_pos hdir]
          exact ih q made
        · rw [if_neg hdir, if_neg hdir]
          exact Or.inr ⟨rfl, _, made, rfl⟩
      | none =>
        simp only [Disk.isDir_withDirs]
        by_cases hdir : (d.isDir (p ++ [name]) || made.contains (p ++ [name])) = true
        · rw [if_pos hdir, if_pos hdir]
          exact ih _ made
        · rw [if_neg hdir, if_neg hdir]
          have hnew : p ++ [name] ∉ made := by
            intro hmem
            exact hdir (by simp [hmem])
          rw [Disk.node_withDirs hnew]
          by_cases hfile : (d.node (p ++ [name])).isSome = true
          · rw [if_pos hfile, if_pos hfile]
            exact Or.inr ⟨rfl, _, made, rfl⟩
          · rw [if_neg hfile, if_neg hfile, Disk.set_dir]
            by_cases hallowed : sys.allows (p ++ [name]) = true
            · rw [if_pos hallowed, if_pos hallowed]
              exact ih _ _
            · rw [if_neg hallowed, if_neg hallowed]
              exact Or.inr ⟨rfl, _, made, rfl⟩

/-- Directories that are made stay made. -/
theorem subset_missingDirs (names : DiskPath) : ∀ (p : DiskPath) (made made' : List DiskPath),
    sys.missingDirs d made names p = some made' → made ⊆ made' := by
  induction names with
  | nil =>
    intro p made made' h
    cases h
    exact List.Subset.refl _
  | cons name names ih =>
    intro p made made' h
    unfold missingDirs at h
    by_cases hparent : name = parentName
    · rw [if_pos hparent] at h
      exact ih _ made made' h
    · rw [if_neg hparent] at h
      cases hlink : sys.link (p ++ [name]) with
      | some q =>
        simp only [hlink] at h
        split_ifs at h
        exact ih _ made made' h
      | none =>
        simp only [hlink] at h
        split_ifs at h
        · exact ih _ made made' h
        · exact fun q hq => ih _ _ made' h (List.mem_cons_of_mem _ hq)

/-- With the missing directories the path can be searched. -/
theorem searchable_missingDirs (last : List Char) (names : DiskPath) :
    ∀ (p : DiskPath) (made made' : List DiskPath), sys.missingDirs d made names p = some made' →
      sys.searchable (d.withDirs made') (names ++ [last]) p = true := by
  induction names with
  | nil => exact fun p made made' _ => rfl
  | cons name names ih =>
    intro p made made' h
    have hcons : ∀ rest : DiskPath, sys.searchable (d.withDirs made') (name :: (rest ++ [last])) p =
        ((name = parentName || (d.withDirs made').isDir (sys.next p name)) &&
          sys.searchable (d.withDirs made') (rest ++ [last]) (sys.next p name)) := by
      intro rest
      cases rest with
      | nil => rfl
      | cons _ _ => rfl
    rw [List.cons_append, hcons, Disk.isDir_withDirs]
    unfold missingDirs at h
    by_cases hparent : name = parentName
    · rw [if_pos hparent] at h
      have hnext : sys.next p name = p.dropLast := if_pos hparent
      rw [hnext, ih _ made made' h]
      simp [hparent]
    · rw [if_neg hparent] at h
      have hnext : sys.next p name = (sys.link (p ++ [name])).getD (p ++ [name]) := if_neg hparent
      rw [hnext]
      cases hlink : sys.link (p ++ [name]) with
      | some q =>
        simp only [hlink] at h
        split_ifs at h with hdir
        have hsub := subset_missingDirs names _ made made' h
        rw [Option.getD_some, ih _ made made' h]
        rcases Bool.or_eq_true_iff.mp hdir with hdir | hdir
        · simp [hdir]
        · simp [hsub (List.contains_iff_mem.mp hdir)]
      | none =>
        simp only [hlink] at h
        split_ifs at h with hdir
        · have hsub := subset_missingDirs names _ made made' h
          rw [Option.getD_none, ih _ made made' h]
          rcases Bool.or_eq_true_iff.mp hdir with hdir | hdir
          · simp [hdir]
          · simp [hsub (List.contains_iff_mem.mp hdir)]
        · have hsub := subset_missingDirs names _ _ made' h
          rw [Option.getD_none, ih _ _ made' h]
          simp [hsub List.mem_cons_self]

/-- `mkdir` opens no file. -/
theorem mkdir_opened (names : DiskPath) (d : Disk) : (sys.mkdir names d).2.opened = d.opened := by
  unfold mkdir
  split_ifs
  · rfl
  · have hcases := @makeDirs_cases sys d names [] []
    rw [Disk.withDirs_nil] at hcases
    rcases hcases with ⟨made, -, h⟩ | ⟨-, e, made, h⟩
    · rw [h]
      rfl
    · rw [h]
      rfl

/-- `write_text` opens the file that the path leads to, or no file. -/
theorem writeText_cases (names : DiskPath) (content : String) (d : Disk) :
    (∃ e, sys.writeText names content d = (.error e, d)) ∨
    ∃ d', sys.writeText names content d = (.ok (), d') ∧ d'.opened = d.opened ++ [sys.locate names []] := by
  unfold writeText
  dsimp only
  split_ifs
  · exact Or.inl ⟨_, rfl⟩
  · exact Or.inl ⟨_, rfl⟩
  · exact Or.inl ⟨_, rfl⟩
  · exact Or.inr ⟨_, rfl, rfl⟩
  · exact Or.inl ⟨_, rfl⟩

/-- The directories of a path are made and the file is written exactly when the path is writable. -/
theorem mkdir_writeText_iff (names : DiskPath) (content : String) (d : Disk) :
    (∃ d', sys.mkdir names.dropLast d = (.ok (), d') ∧ (sys.writeText names content d').1 = .ok ()) ↔
      sys.Writable d names := by
  have hcases := @makeDirs_cases sys d names.dropLast [] []
  rw [Disk.withDirs_nil] at hcases
  unfold mkdir Writable
  by_cases hrefuses : sys.refuses names.dropLast = true
  · simp [hrefuses]
  · rw [if_neg hrefuses]
    rcases hcases with ⟨made, hmade, hmake⟩ | ⟨hnone, e, made, hmake⟩
    · have hsearch : sys.searchable (d.withDirs made) names [] = true := by
        by_cases hempty : names = []
        · rw [hempty]
          rfl
        · rw [← List.dropLast_append_getLast hempty]
          exact searchable_missingDirs _ _ _ _ _ hmade
      simp only [hmake, hmade, Prod.mk.injEq, true_and, exists_eq_left', Option.some.injEq]
      unfold writeText
      simp only [hsearch, Disk.isDir_withDirs, Bool.not_true, Bool.false_or]
      generalize (d.isDir (sys.locate names []).dropLast ||
        made.contains (sys.locate names []).dropLast) = hasParent
      generalize (d.isDir (sys.locate names []) || made.contains (sys.locate names [])) = isDirectory
      split_ifs with hr hparent hdir hallowed
      · simp [hr]
      · simp only [Bool.not_eq_true'] at hparent
        simp [hparent]
      · simp [hdir]
      · simp only [Bool.not_eq_true', Bool.not_eq_false] at hparent
        simp [hrefuses, hr, hparent, hdir, hallowed]
      · simp [hallowed]
    · simp [hmake, hnone]

/-- A writable file is opened once its directories are made. -/
theorem Writable.write {names : DiskPath} (h : sys.Writable d names) (content : String) :
    ∃ d₁ d₂, sys.mkdir names.dropLast d = (.ok (), d₁) ∧ sys.writeText names content d₁ = (.ok (), d₂) ∧
      d₂.opened = d.opened ++ [sys.locate names []] := by
  obtain ⟨d₁, hmkdir, hok⟩ := (mkdir_writeText_iff names content d).mpr h
  have hopened := @mkdir_opened sys names.dropLast d
  rw [hmkdir] at hopened
  rcases @writeText_cases sys names content d₁ with ⟨e, hwrite⟩ | ⟨d₂, hwrite, hlog⟩
  · rw [hwrite] at hok
    cases hok
  · exact ⟨d₁, d₂, hmkdir, hwrite, by rw [hlog, hopened]⟩

/-- Otherwise its directories are not made, or it is not opened. -/
theorem not_writable {names : DiskPath} (h : ¬ sys.Writable d names) (content : String) :
    (∃ e d₁, sys.mkdir names.dropLast d = (.error e, d₁) ∧ d₁.opened = d.opened) ∨
    ∃ d₁ e, sys.mkdir names.dropLast d = (.ok (), d₁) ∧ sys.writeText names content d₁ = (.error e, d₁) ∧
      d₁.opened = d.opened := by
  have hopened := @mkdir_opened sys names.dropLast d
  cases hmkdir : sys.mkdir names.dropLast d with
  | mk r d₁ =>
    rw [hmkdir] at hopened
    cases r with
    | error e => exact Or.inl ⟨e, d₁, rfl, hopened⟩
    | ok _ =>
      rcases @writeText_cases sys names content d₁ with ⟨e, hwrite⟩ | ⟨d₂, hwrite, -⟩
      · exact Or.inr ⟨d₁, e, rfl, hwrite, hopened⟩
      · exact absurd ((mkdir_writeText_iff names content d).mp ⟨d₁, hmkdir, by rw [hwrite]⟩) h

/-! ## Places that no link leads away from -/

/-- A path without links and without `..`. -/
def Real (sys : DiskSystem) (p : DiskPath) : Prop := parentName ∉ p ∧ ∀ q, q <+: p → sys.link q = none

theorem real_root : sys.Real [] :=
  ⟨List.not_mem_nil, fun q hq => by rw [List.prefix_nil.mp hq]; exact sys.link_root⟩

theorem Real.next {p : DiskPath} (h : sys.Real p) (name : List Char) : sys.Real (sys.next p name) := by
  unfold DiskSystem.next
  by_cases hparent : name = parentName
  · rw [if_pos hparent]
    have hbelow : p.dropLast <+: p := List.dropLast_prefix p
    exact ⟨fun hmem => h.1 (hbelow.subset hmem), fun q hq => h.2 q (hq.trans hbelow)⟩
  · rw [if_neg hparent]
    cases hlink : sys.link (p ++ [name]) with
    | some q => exact sys.link_real _ q hlink
    | none =>
      refine ⟨fun hmem => ?_, fun q hq => ?_⟩
      · rcases List.mem_append.mp hmem with hmem | hmem
        · exact h.1 hmem
        · exact hparent (List.mem_singleton.mp hmem).symm
      · rcases List.prefix_concat_iff.mp hq with rfl | hq
        · exact hlink
        · exact h.2 q hq

/-- `resolve()` returns a real place. -/
theorem Real.locate {p : DiskPath} (h : sys.Real p) (names : DiskPath) : sys.Real (sys.locate names p) := by
  unfold DiskSystem.locate
  induction names generalizing p with
  | nil => exact h
  | cons name names ih => exact ih (h.next name)

/-- A real place is where its own path leads. -/
theorem locate_real {p q : DiskPath} (h : sys.Real (p ++ q)) : sys.locate q p = p ++ q := by
  unfold DiskSystem.locate
  induction q generalizing p with
  | nil => exact (List.append_nil p).symm
  | cons name q ih =>
    have hsplit : p ++ name :: q = p ++ [name] ++ q := by simp
    rw [hsplit] at h ⊢
    have hname : name ≠ parentName := by
      rintro rfl
      exact h.1 (by simp)
    have hlink : sys.link (p ++ [name]) = none := h.2 _ (List.prefix_append _ _)
    have hnext : sys.next p name = p ++ [name] := by
      unfold DiskSystem.next
      rw [if_neg hname, hlink]
      rfl
    rw [List.foldl_cons, hnext]
    exact ih h

end DiskSystem

/-! ## Loops that write files -/

section Loop

variable {α β σ P : Type} {body : α → σ → Except PyError β × σ}

/-- A loop that collects what its body returns; an exception ends it. -/
def forEach (body : α → σ → Except PyError β × σ) : List α → σ → Except PyError (List β) × σ
  | [], s => (.ok [], s)
  | a :: as, s =>
    match body a s with
    | (.error e, s) => (.error e, s)
    | (.ok b, s) =>
      match forEach body as s with
      | (.error e, s) => (.error e, s)
      | (.ok bs, s) => (.ok (b :: bs), s)

/-- Every element that the loop gets to meets the condition. -/
def Reached (body : α → σ → Except PyError β × σ) (C : α → σ → Prop) : List α → σ → Prop
  | [], _ => True
  | a :: as, s => C a s ∧ (raised (body a s).1 = false → Reached body C as (body a s).2)

theorem forEach_cons_error {a : α} {s s' : σ} {e : PyError} (h : body a s = (.error e, s')) (as : List α) :
    forEach body (a :: as) s = (.error e, s') := by
  rw [forEach, h]

theorem forEach_cons_ok {a : α} {s s' : σ} {b : β} (h : body a s = (.ok b, s')) (as : List α) :
    forEach body (a :: as) s = ((forEach body as s').1.map (b :: ·), (forEach body as s').2) := by
  rw [forEach, h]
  cases hrest : forEach body as s' with
  | mk r s'' => cases r <;> simp [hrest, Except.map]

variable {place : α → P} {Writes : α → σ → Prop} {Inside : P → Prop} {log : σ → List P} {Reported : β → Prop}

/-- Nothing is taken from the record of what was written. -/
theorem forEach_log (hquiet : ∀ a s, ¬ Writes a s → log (body a s).2 = log s)
    (hwrites : ∀ a s, Writes a s → log (body a s).2 = log s ++ [place a]) (as : List α) :
    ∀ s : σ, ∃ new, log (forEach body as s).2 = log s ++ new := by
  induction as with
  | nil => exact fun s => ⟨[], (List.append_nil _).symm⟩
  | cons a as ih =>
    intro s
    have hbody : ∃ first, log (body a s).2 = log s ++ first := by
      by_cases hw : Writes a s
      · exact ⟨[place a], hwrites a s hw⟩
      · exact ⟨[], by rw [hquiet a s hw, List.append_nil]⟩
    obtain ⟨first, hfirst⟩ := hbody
    cases hrun : body a s with
    | mk r s' =>
      rw [hrun] at hfirst
      cases r with
      | error e =>
        rw [forEach_cons_error hrun]
        exact ⟨first, hfirst⟩
      | ok b =>
        obtain ⟨new, hnew⟩ := ih s'
        rw [forEach_cons_ok hrun]
        exact ⟨first ++ new, by rw [hnew, hfirst, List.append_assoc]⟩

/-- A loop whose body writes one place or none stays inside, and reports what does not lead there, exactly
when no element that it gets to writes outside. -/
theorem forEach_inside_iff
    (hquiet : ∀ a s, ¬ Writes a s → log (body a s).2 = log s ∧ ∀ b, (body a s).1 = .ok b → Reported b)
    (hwrites : ∀ a s, Writes a s → log (body a s).2 = log s ++ [place a] ∧ ∃ b, (body a s).1 = .ok b)
    (as : List α) : ∀ s : σ,
    ((∃ new, log (forEach body as s).2 = log s ++ new ∧ ∀ p ∈ new, Inside p) ∧
        ∀ bs, (forEach body as s).1 = .ok bs →
          List.Forall₂ (fun a b => ¬ Inside (place a) → Reported b) as bs) ↔
      Reached body (fun a s => Writes a s → Inside (place a)) as s := by
  induction as with
  | nil =>
    intro s
    refine ⟨fun _ => trivial, fun _ => ⟨⟨[], (List.append_nil _).symm, fun p hp => by cases hp⟩, ?_⟩⟩
    intro bs hbs
    cases hbs
    exact List.Forall₂.nil
  | cons a as ih =>
    intro s
    have hlog := forEach_log (fun a s hw => (hquiet a s hw).1) (fun a s hw => (hwrites a s hw).1) as
    unfold Reached
    cases hrun : body a s with
    | mk r s' =>
      cases r with
      | error e =>
        have hnot : ¬ Writes a s := by
          intro hw
          obtain ⟨-, b, hb⟩ := hwrites a s hw
          rw [hrun] at hb
          cases hb
        have hsame := (hquiet a s hnot).1
        rw [hrun] at hsame
        rw [forEach_cons_error hrun]
        refine ⟨fun _ => ⟨fun hw => absurd hw hnot, fun hraised => by cases hraised⟩, fun _ => ⟨?_, ?_⟩⟩
        · exact ⟨[], by rw [hsame, List.append_nil], fun p hp => by cases hp⟩
        · intro bs hbs
          cases hbs
      | ok b =>
        obtain ⟨rest, hrest⟩ := hlog s'
        rw [forEach_cons_ok hrun]
        simp only [raised_ok, true_implies, ← ih s']
        -- the results of the whole loop are those of the rest after the first
        have hresults : ∀ Q : List β → Prop, (∀ bs, (forEach body as s').1.map (b :: ·) = .ok bs → Q bs) ↔
            ∀ bs, (forEach body as s').1 = .ok bs → Q (b :: bs) := by
          intro Q
          cases (forEach body as s').1 with
          | error e => simp [Except.map]
          | ok bs => simp [Except.map]
        rw [hresults]
        simp only [List.forall₂_cons]
        by_cases hw : Writes a s
        · have hfirst := (hwrites a s hw).1
          rw [hrun] at hfirst
          constructor
          · rintro ⟨⟨new, hnew, hinside⟩, hall⟩
            rw [hfirst, List.append_assoc] at hrest
            have hsplit : new = place a :: rest := List.append_cancel_left (hnew.symm.trans hrest)
            refine ⟨fun _ => hinside _ (hsplit ▸ List.mem_cons_self), ⟨rest, ?_, fun p hp => ?_⟩, ?_⟩
            · rw [hrest, hfirst, List.append_assoc]
            · exact hinside p (hsplit ▸ List.mem_cons_of_mem _ hp)
            · exact fun bs hbs => (hall bs hbs).2
          · rintro ⟨hplace, ⟨new, hnew, hinside⟩, hall⟩
            refine ⟨⟨place a :: new, ?_, ?_⟩, fun bs hbs => ⟨fun hout => absurd (hplace hw) hout, hall bs hbs⟩⟩
            · rw [hnew, hfirst, List.append_assoc]
              rfl
            · intro p hp
              rcases List.mem_cons.mp hp with rfl | hp
              · exact hplace hw
              · exact hinside p hp
        · obtain ⟨hsame, hreported⟩ := hquiet a s hw
          rw [hrun] at hsame hreported
          rw [hsame]
          constructor
          · rintro ⟨hnew, hall⟩
            exact ⟨fun h => absurd h hw, hnew, fun bs hbs => (hall bs hbs).2⟩
          · rintro ⟨-, hnew, hall⟩
            exact ⟨hnew, fun bs hbs => ⟨fun _ => hreported b rfl, hall bs hbs⟩⟩

end Loop

end Galaxz
