import DocModel.Proofs.Chain
import DocModel.Proofs.Origins

/-!
# Modules that are there

The module of a file is made once. From then on the tree remembers the directory of the file, or the
file is in no directory that a tree remembers, and asking for the module again makes nothing. It is
the same module every time: there is only one at the names that lead to the file.

## Main definitions

* `ModuleTree.Reached`, `FileReached`: The directory of a file has been resolved.

## Theorems

* `Trees.handle_unique`: A module is known by its names.
* `Changes.fileReached`: A directory that has been resolved stays resolved.
* `fileReached_of_resolveModule?`: A file whose module was asked for is reached.
* `resolveModule?_again`: Asking for the module once more gives it, and makes nothing.
-/

namespace DocModel

/-- A module is known by its names. -/
theorem Trees.handle_unique {projects : List Project} (ht : Trees projects)
    {handle handle' : ModuleHandle} {m m' : Module} (hm : moduleIn projects handle = some m)
    (hm' : moduleIn projects handle' = some m') (hpath : m'.childrenPath = m.childrenPath) :
    handle' = handle := by
  rcases Option.bind_eq_some_iff.1 hm with ⟨project, hp, hget⟩
  rcases Option.bind_eq_some_iff.1 hm' with ⟨project', hp', hget'⟩
  rcases ht.finds _ project hp _ m hget with ⟨hname, hfind⟩
  rcases ht.finds _ project' hp' _ m' hget' with ⟨hname', hfind'⟩
  rw [hpath] at hname' hfind'
  -- The first name is that of the project, and no two projects have the same name.
  have hnames : (projects.map (·.name))[handle'.project]? =
      (projects.map (·.name))[handle.project]? := by
    rw [List.getElem?_map, List.getElem?_map, hp, hp', Option.map_some, Option.map_some]
    exact hname'.symm.trans hname
  have hlt : handle'.project < (projects.map (·.name)).length := by
    rw [List.length_map]
    exact (List.getElem?_eq_some_iff.1 hp').1
  have hproject := (List.getElem?_inj hlt ht.names).1 hnames
  rw [hproject, hp, Option.some.injEq] at hp'
  rw [← hp', hfind, Option.some.injEq] at hfind'
  cases handle
  cases handle'
  rw [ModuleHandle.mk.injEq]
  exact ⟨hproject, hfind'.symm⟩

namespace ModuleTree

variable {t t' : ModuleTree} {file : Path} {id : ModuleId}

/-- The directory of a file is remembered, or is not below the root. -/
def Reached (t : ModuleTree) (file : Path) : Prop :=
  ∀ dir, file.parent? = some dir → t.directories.contains dir = true ∨
    ∀ root, t.root? = some root → dir.relativeTo? root.baseDir = none

/-- The module of such a file is found, and the tree stays as it is. -/
theorem Reached.resolveModule (h : t.Reached file) (hs : t.Sound) :
    ∃ id, t.resolveModule file = some (id, t) := by
  unfold ModuleTree.resolveModule
  cases hdir : file.parent? with
  | none => exact ⟨rootId, rfl⟩
  | some dir =>
      dsimp only
      cases hfound : t.directories.find? dir with
      | some id => exact ⟨id, rfl⟩
      | none =>
          -- It is not remembered, so it is outside, and the root is given.
          rcases h dir hdir with hc | hout
          · rcases (Table.contains_iff _ _).1 hc with ⟨id, hid⟩
            rw [hfound] at hid
            cases hid
          · rcases hs.root with ⟨root, hroot, _⟩
            simp only [hroot, Option.bind_eq_bind, Option.bind_some, moduleNames?,
              hout root hroot, Option.map_none]
            exact ⟨rootId, rfl⟩

theorem Reached.grow (h : t.Reached file) (hs : t.Sound) (hg : t.Grows t')
    (hd : ∀ dir, t.directories.contains dir = true → t'.directories.contains dir = true) :
    t'.Reached file := by
  intro dir hdir
  rcases h dir hdir with hc | hout
  · exact Or.inl (hd dir hc)
  · rcases hs.root with ⟨root, hroot, _⟩
    rcases hg.modules rootId root hroot with ⟨root', hroot', hrg⟩
    refine Or.inr fun r hr => ?_
    rw [root?, hroot', Option.some.injEq] at hr
    rw [← hr, hrg.baseDir]
    exact hout root hroot

/-- A file whose module was asked for is reached. -/
theorem Sound.reached_of_resolveModule (hs : t.Sound)
    (h : t.resolveModule file = some (id, t')) : t'.Reached file := by
  intro dir hdir
  unfold ModuleTree.resolveModule at h
  simp only [hdir] at h
  -- The directory is remembered, or it is outside, or it is remembered from now on.
  cases hfound : t.directories.find? dir with
  | some id' =>
      simp only [hfound] at h
      rw [← (Prod.mk.inj (Option.some.inj h)).2]
      exact Or.inl ((Table.contains_iff _ _).2 ⟨id', hfound⟩)
  | none =>
      rcases hs.root with ⟨root, hroot, _⟩
      simp only [hfound, hroot, Option.bind_eq_bind, Option.bind_some] at h
      cases hnames : t.moduleNames? root.baseDir dir with
      | none =>
          simp only [hnames] at h
          rw [← (Prod.mk.inj (Option.some.inj h)).2]
          refine Or.inr fun r hr => ?_
          rw [hroot, Option.some.injEq] at hr
          rw [← hr]
          exact Option.map_eq_none_iff.1 hnames
      | some names =>
          simp only [hnames] at h
          rcases Option.bind_eq_some_iff.1 h with ⟨⟨id', t₁⟩, _, h⟩
          rw [← (Prod.mk.inj (Option.some.inj h)).2]
          exact Or.inl ((Table.contains_iff _ _).2 ⟨id', Table.find?_insert_self _ _ _⟩)

end ModuleTree

/-- The directory of a file has been resolved in its project. -/
def FileReached (projects : List Project) (file : Path) : Prop :=
  ∀ i project, ({ projects } : State).projectFor? file = some i → projects[i]? = some project →
    project.modules.Reached file

/-- It stays so when one tree grows. -/
theorem FileReached.withTree {projects : List Project} {file : Path} (h : FileReached projects file)
    (ht : Trees projects) {i : Nat} {project : Project} {tree : ModuleTree}
    (hp : projects[i]? = some project) (hg : project.modules.Grows tree)
    (hd : ∀ dir, project.modules.directories.contains dir = true →
      tree.directories.contains dir = true) : FileReached (withTree projects i tree) file := by
  intro j project' hj hp'
  have hgrow := grow_withTree projects i tree project hp hg
  rw [projectFor?_congr { projects } _ hgrow.baseDirs] at hj
  rw [getElem?_withTree projects i j tree project hp] at hp'
  -- The tree that has grown, or another.
  by_cases hji : j = i
  · rw [if_pos hji, Option.some.injEq] at hp'
    rw [hji] at hj
    rw [← hp']
    exact (h i project hj hp).grow (ht.sound project (List.mem_of_getElem? hp)) hg hd
  · rw [if_neg hji] at hp'
    exact h j project' hj hp'

section

variable {p : Program} {passthrough : List String} {fits : Ty → Prop} {s s' : State} {file : Path}

/-- No change forgets a directory. -/
theorem Change.fileReached (hc : Change p passthrough fits s s') (hs : Grounded passthrough s)
    (h : FileReached s.projects file) : FileReached s'.projects file := by
  cases hc with
  | enlarge i project tree hp he => exact h.withTree hs.trees hp he.grows he.remembers
  | attach handle project m d notices hp =>
      exact h.withTree hs.trees hp
        (ModuleTree.grows_update _ _ _ (ModuleTree.keepsPlace_addDeclaration d)) fun _ hd => hd
  | exports handle project m name exports hp =>
      exact h.withTree hs.trees hp
        (ModuleTree.grows_update _ _ _ (ModuleTree.keepsPlace_exports name exports)) fun _ hd => hd
  | _ => exact h

/-- A directory that has been resolved stays resolved. -/
theorem Changes.fileReached (hc : Changes p passthrough fits s s') (hs : Grounded passthrough s)
    (h : FileReached s.projects file) : FileReached s'.projects file :=
  (hc.induct (fun t => Grounded passthrough t ∧ FileReached t.projects file)
    (fun _ _ hc hi => ⟨hc.grounded hi.1, hc.fileReached hi.1 hi.2⟩) ⟨hs, h⟩).2

end

section

variable {ctx : Context} {s s' v : State} {t t' : Trail} {file : Path} {o : Option ModuleHandle}

/-- The module of a file is one of the project that the file belongs to. -/
theorem project_of_resolveModule?
    (hrun : Action.resolveModule? file s t = .ok ((o, s'), t')) :
    o.map ModuleHandle.project = s.projectFor? file := by
  unfold Action.resolveModule? at hrun
  rw [Action.get_bind] at hrun
  cases hi : s.projectFor? file with
  | none =>
      simp only [hi] at hrun
      rw [← (Action.pure_eq_ok hrun).1]
      rfl
  | some i =>
      simp only [hi] at hrun
      rcases Action.bind_eq_ok hrun with ⟨project, _, _, _, hrun⟩
      rcases Action.bind_eq_ok hrun with ⟨⟨id, tree⟩, _, _, _, hrun⟩
      rw [Action.setTree_bind] at hrun
      rw [← (Action.pure_eq_ok hrun).1]
      rfl

/-- A file whose module was asked for is reached. -/
theorem fileReached_of_resolveModule? (hs : ctx.Grounded s)
    (hrun : Action.resolveModule? file s t = .ok ((o, s'), t')) :
    FileReached s'.projects file := by
  have hgrow := (Context.From.resolveModule? (fun _ _ => True) hs hrun).1.changes.projects
  intro i project' hi hp'
  rw [projectFor?_congr s { projects := s'.projects } hgrow.baseDirs] at hi
  unfold Action.resolveModule? at hrun
  simp only [Action.get_bind, hi] at hrun
  rcases Action.bind_eq_ok hrun with ⟨project, _, _, hlift, hrun⟩
  rcases Action.require_eq_ok hlift with ⟨hp, rfl, rfl⟩
  -- The tree of the project is the one in which the file was resolved.
  rcases Action.bind_eq_ok hrun with ⟨⟨id, tree⟩, _, _, hlift, hrun⟩
  rcases Action.require_eq_ok hlift with ⟨hres, rfl, rfl⟩
  simp only [Action.setTree_bind, updateTree_eq s i project hp] at hrun
  rcases Action.pure_eq_ok hrun with ⟨_, rfl⟩
  rw [getElem?_withTree s.projects i i tree project hp, if_pos rfl, Option.some.injEq] at hp'
  rw [← hp']
  exact (hs.trees.sound project (List.mem_of_getElem? hp)).reached_of_resolveModule hres

/-- The module of a file that is reached is found, and nothing is made. -/
theorem FileReached.resolveModule? (h : FileReached s.projects file) (hs : ctx.Grounded s)
    (t : Trail) : ∃ o, Action.resolveModule? file s t = .ok ((o, s), t) := by
  unfold Action.resolveModule?
  rw [Action.get_bind]
  cases hi : s.projectFor? file with
  | none => exact ⟨none, rfl⟩
  | some i =>
      have hlt := projectFor?_lt s file i hi
      cases hp : s.projects[i]? with
      | none => exact absurd hlt (Nat.not_lt.2 (List.getElem?_eq_none_iff.1 hp))
      | some project =>
          have hsound := hs.trees.sound project (List.mem_of_getElem? hp)
          rcases (h i project hi hp).resolveModule hsound with ⟨id, hid⟩
          -- The tree that is put back is the one that was there.
          have hsame : s.updateTree i (fun _ => project.modules) = s := by
            rw [updateTree_eq s i project hp, withTree_self hp]
          refine ⟨some ⟨i, id⟩, ?_⟩
          dsimp only
          rw [Action.require_bind hp, Action.require_bind hid, Action.setTree_bind, hsame]
          rfl

/-- Asking for the module once more gives the same module, and makes nothing. -/
theorem resolveModule?_again (hs : ctx.Grounded s)
    (hrun : Action.resolveModule? file s t = .ok ((o, s'), t'))
    (hc : Changes ctx.program ctx.settings.passthroughModules (fun _ => True) s' v) (u : Trail) :
    Action.resolveModule? file v u = .ok ((o, v), u) := by
  rcases Context.From.resolveModule? (fun _ _ => True) hs hrun with
    ⟨hfrom, _, _, _, hplace⟩
  have hs' := hfrom.grounded hs
  have hv := hc.grounded hs'
  have hgrow := hfrom.changes.projects.trans hc.projects
  rcases (hc.fileReached hs' (fileReached_of_resolveModule? hs hrun)).resolveModule? hv u with
    ⟨o', hagain⟩
  suffices hsame : o' = o by rw [hagain, hsame]
  -- The file belongs to the same project.
  have hproject : o'.map ModuleHandle.project = o.map ModuleHandle.project := by
    rw [project_of_resolveModule? hagain, project_of_resolveModule? hrun,
      projectFor?_congr s v hgrow.baseDirs]
  cases o with
  | none => exact Option.map_eq_none_iff.1 hproject
  | some handle =>
      rcases Option.map_eq_some_iff.1 hproject with ⟨handle', rfl, _⟩
      -- Both modules stand at the names of the file.
      rcases hplace handle rfl with ⟨m, hm, hat⟩
      rcases hc.projects.moduleIn handle m hm with ⟨m₁, hm₁, hg⟩
      rcases (Context.From.resolveModule? (fun _ _ => True) hv hagain).2.2.2.2 handle'
        rfl with ⟨m', hm', hat'⟩
      rw [placeIn_of_grow _ hc.projects, hat, Option.some.injEq] at hat'
      rw [hv.trees.handle_unique hm₁ hm' (hat'.symm.trans hg.childrenPath.symm)]

end

end DocModel
