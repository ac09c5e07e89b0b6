import DocModel.Proofs.Tree
import DocModel.Session.State

/-!
# Growth of projects

While an extraction runs, its projects stay what they are and their module trees grow. So which
project a file belongs to does not change, a handle that leads to a module leads to it for ever, and
names that lead to a module keep doing so.

Everything here is about the list of projects alone. A state holds more, but whatever else changes
in it has no bearing on modules.

## Main definitions

* `moduleIn`, `contentIn`: A module of a list of projects, and what is in it.
* `ProjectsGrow`: A later form of a list of projects.
* `Trees`: Projects with sound trees and names of their own.
* `Program.isOutside`: Whether a file is outside the analysed sources.
* `ProjectsExtend`: A list of projects that has what another has.

## Theorems

* `isOutside_of_grow`: Growth changes nothing about where files belong.
* `Trees.withTree`: A project may have its tree replaced by a later form of it.
* `Trees.finds`: The names of a module lead to it, from the project that the first of them names.
* `extend_append`, `contentIn_append`: Adding a project takes nothing away and puts nothing in.
* `contentIn_update`: Changing what is in a module changes no other.
-/

namespace DocModel

/-- A module of one of the projects. -/
def moduleIn (projects : List Project) (h : ModuleHandle) : Option Module :=
  projects[h.project]?.bind fun project => project.modules.get? h.module

/-- What is in a module of one of the projects; nothing, if there is no such module. -/
def contentIn (projects : List Project) (h : ModuleHandle) : Module :=
  ((moduleIn projects h).map Module.content).getD Module.blank

theorem module?_eq (s : State) (h : ModuleHandle) : s.module? h = moduleIn s.projects h := rfl

/-- A later form of a project. -/
structure Project.Grows (project project' : Project) : Prop where
  name : project'.name = project.name
  baseDir : project'.baseDir = project.baseDir
  modules : project.modules.Grows project'.modules

theorem Project.Grows.refl (project : Project) : project.Grows project :=
  ⟨rfl, rfl, ModuleTree.Grows.refl _⟩

/-- A later form of a list of projects: the same projects, each in a later form. -/
structure ProjectsGrow (projects projects' : List Project) : Prop where
  length : projects'.length = projects.length
  project : ∀ (i : Nat) (project : Project), projects[i]? = some project →
    ∃ project' : Project, projects'[i]? = some project' ∧ project.Grows project'

theorem ProjectsGrow.refl (projects : List Project) : ProjectsGrow projects projects :=
  ⟨rfl, fun _ project h => ⟨project, h, Project.Grows.refl project⟩⟩

theorem ProjectsGrow.trans {ps ps' ps'' : List Project} (h : ProjectsGrow ps ps')
    (h' : ProjectsGrow ps' ps'') : ProjectsGrow ps ps'' := by
  refine ⟨h'.length.trans h.length, fun i project hp => ?_⟩
  rcases h.project i project hp with ⟨project', hp', hg⟩
  rcases h'.project i project' hp' with ⟨project'', hp'', hg'⟩
  exact ⟨project'', hp'', hg'.name.trans hg.name, hg'.baseDir.trans hg.baseDir,
    hg.modules.trans hg'.modules⟩

/-- A handle that leads to a module leads to a later form of it. -/
theorem ProjectsGrow.moduleIn {ps ps' : List Project} (h : ProjectsGrow ps ps')
    (handle : ModuleHandle) (m : Module) (hm : moduleIn ps handle = some m) :
    ∃ m', DocModel.moduleIn ps' handle = some m' ∧ m.Grows m' := by
  unfold DocModel.moduleIn at hm ⊢
  rw [Option.bind_eq_some_iff] at hm
  rcases hm with ⟨project, hp, hm⟩
  rcases h.project handle.project project hp with ⟨project', hp', hg⟩
  rcases hg.modules.modules handle.module m hm with ⟨m', hm', hmg⟩
  exact ⟨m', by rw [hp', Option.bind_some, hm'], hmg⟩

/-- What stays the same of each project stays the same of all. -/
theorem ProjectsGrow.map_eq {α : Type} {ps ps' : List Project} (h : ProjectsGrow ps ps')
    {f : Project → α} (hf : ∀ q q' : Project, q.Grows q' → f q' = f q) : ps'.map f = ps.map f := by
  refine List.ext_getElem? (fun i => ?_)
  rw [List.getElem?_map, List.getElem?_map]
  cases hp : ps[i]? with
  | none =>
      have hp' : ps'[i]? = none := by
        rw [List.getElem?_eq_none_iff] at hp ⊢
        rw [h.length]
        exact hp
      rw [hp']
  | some project =>
      rcases h.project i project hp with ⟨project', hp', hg⟩
      rw [hp', Option.map_some, Option.map_some, hf project project' hg]

/-- Projects keep their roots. -/
theorem ProjectsGrow.baseDirs {ps ps' : List Project} (h : ProjectsGrow ps ps') :
    ps'.map (·.baseDir) = ps.map (·.baseDir) := h.map_eq fun _ _ hg => hg.baseDir

theorem ProjectsGrow.names {ps ps' : List Project} (h : ProjectsGrow ps ps') :
    ps'.map (·.name) = ps.map (·.name) := h.map_eq fun _ _ hg => hg.name

/-- Only the roots of projects decide which of them a file belongs to. -/
theorem projectFor?_congr (s s' : State)
    (h : s'.projects.map (·.baseDir) = s.projects.map (·.baseDir)) (file : Path) :
    s'.projectFor? file = s.projectFor? file := by
  -- The search looks at the roots and at nothing else of the projects.
  have hroots : ∀ ps : List Project, ∀ init : Option (Nat × Nat),
      ps.zipIdx.foldl (fun (best : Option (Nat × Nat)) (entry : Project × Nat) =>
        if file.startsWith entry.1.baseDir && best.all (·.1 ≤ entry.1.baseDir.components.length)
        then some (entry.1.baseDir.components.length, entry.2) else best) init =
      (ps.map (·.baseDir)).zipIdx.foldl (fun (best : Option (Nat × Nat)) (entry : Path × Nat) =>
        if file.startsWith entry.1 && best.all (·.1 ≤ entry.1.components.length)
        then some (entry.1.components.length, entry.2) else best) init := by
    intro ps init
    rw [List.zipIdx_map, List.foldl_map]
    rfl
  unfold State.projectFor?
  simp only [hroots, h]

/-- Whether a file is outside the analysed sources. -/
def Program.isOutside (p : Program) (projects : List Project) (file : Path) : Bool :=
  p.isDefaultLibrary file || file.hasName Origin.packageDirectory ||
    (({ projects } : State).projectFor? file).isNone

theorem isExternalFile_eq (ctx : Context) (s : State) (file : Path) :
    ctx.isExternalFile s file = ctx.program.isOutside s.projects file := rfl

/-- Where files belong depends on the roots of projects alone. -/
theorem isOutside_congr (p : Program) {ps ps' : List Project}
    (h : ps'.map (·.baseDir) = ps.map (·.baseDir)) (file : Path) :
    p.isOutside ps' file = p.isOutside ps file := by
  unfold Program.isOutside
  rw [projectFor?_congr { projects := ps } { projects := ps' } h]

/-- Growth changes nothing about where files belong. -/
theorem isOutside_of_grow (p : Program) {ps ps' : List Project} (h : ProjectsGrow ps ps')
    (file : Path) : p.isOutside ps' file = p.isOutside ps file := isOutside_congr p h.baseDirs file

/-- A file belongs to a project whose root it is below. -/
theorem exists_of_projectFor? {s : State} {file : Path} {i : Nat}
    (h : s.projectFor? file = some i) :
    ∃ q, s.projects[i]? = some q ∧ file.startsWith q.baseDir = true := by
  -- Whatever is best so far is a place of the list, and the file is below the root there.
  have hbest : ∀ (es : List (Project × Nat)) (best : Option (Nat × Nat)),
      (∀ e ∈ es, s.projects[e.2]? = some e.1) →
      (∀ b, best = some b → ∃ q, s.projects[b.2]? = some q ∧ file.startsWith q.baseDir = true) →
      ∀ b, es.foldl (fun (best : Option (Nat × Nat)) (entry : Project × Nat) =>
        if file.startsWith entry.1.baseDir && best.all (·.1 ≤ entry.1.baseDir.components.length)
        then some (entry.1.baseDir.components.length, entry.2) else best) best = some b →
        ∃ q, s.projects[b.2]? = some q ∧ file.startsWith q.baseDir = true := by
    intro es
    induction es with
    | nil => exact fun best _ hb b h => hb b h
    | cons e es ih =>
        intro best he hb
        refine ih _ (fun e' he' => he e' (List.mem_cons_of_mem _ he')) (fun b hb' => ?_)
        simp only [] at hb'
        split at hb'
        · rename_i hlonger
          rw [← Option.some.inj hb']
          exact ⟨e.1, he e List.mem_cons_self, (Bool.and_eq_true_iff.1 hlonger).1⟩
        · exact hb b hb'
  unfold State.projectFor? at h
  simp only [Option.map_eq_some_iff] at h
  rcases h with ⟨b, hb, rfl⟩
  exact hbest _ none (fun e he => List.mem_zipIdx_iff_getElem?.1 he) (fun b hb => by cases hb) b hb

theorem projectFor?_lt (s : State) (file : Path) (i : Nat) (h : s.projectFor? file = some i) :
    i < s.projects.length := by
  rcases exists_of_projectFor? h with ⟨q, hq, _⟩
  exact (List.getElem?_eq_some_iff.1 hq).1

/-- Projects with sound trees, whose roots and themselves have names of their own. -/
structure Trees (projects : List Project) : Prop where
  names : (projects.map (·.name)).Nodup
  sound : ∀ project ∈ projects, project.modules.Sound
  root : ∀ project ∈ projects, ∀ m, project.modules.root? = some m → m.name = project.name

/-- The projects with another tree for one of them. -/
def withTree (projects : List Project) (i : Nat) (tree : ModuleTree) : List Project :=
  projects.modify i fun project => { project with modules := tree }

/-- One project has another tree, and the others are as they were. -/
theorem getElem?_withTree (projects : List Project) (i j : Nat) (tree : ModuleTree)
    (project : Project) (hp : projects[i]? = some project) :
    (withTree projects i tree)[j]? =
      if j = i then some { project with modules := tree } else projects[j]? := by
  unfold withTree
  rw [List.getElem?_modify]
  by_cases h : j = i
  · rw [if_pos h, h, hp]
    simp only [if_true, Option.map_eq_map, Option.map_some]
  · rw [if_neg h]
    simp only [if_neg (fun h' : i = j => h h'.symm), Option.map_eq_map, Option.map_id']

/-- A project is the one with the other tree, or is one of the others as it was. -/
theorem mem_withTree_cases {projects : List Project} {i : Nat} {tree : ModuleTree}
    {project project' : Project} (hp : projects[i]? = some project)
    (hp' : project' ∈ withTree projects i tree) :
    project' = { project with modules := tree } ∨ project' ∈ projects := by
  rcases List.mem_iff_getElem?.1 hp' with ⟨j, hj⟩
  rw [getElem?_withTree projects i j tree project hp] at hj
  by_cases hji : j = i
  · rw [if_pos hji, Option.some.injEq] at hj
    exact Or.inl hj.symm
  · rw [if_neg hji] at hj
    exact Or.inr (List.mem_of_getElem? hj)

/-- A later form of one tree makes a later form of the projects. -/
theorem grow_withTree (projects : List Project) (i : Nat) (tree : ModuleTree) (project : Project)
    (hp : projects[i]? = some project) (hg : project.modules.Grows tree) :
    ProjectsGrow projects (withTree projects i tree) := by
  refine ⟨List.length_modify _ _ _, fun j project' hp' => ?_⟩
  rw [getElem?_withTree projects i j tree project hp]
  by_cases h : j = i
  · rw [if_pos h]
    rw [h, hp, Option.some.injEq] at hp'
    subst hp'
    exact ⟨_, rfl, rfl, rfl, hg⟩
  · rw [if_neg h]
    exact ⟨project', hp', Project.Grows.refl project'⟩

/-- Modules of other projects are found as before. -/
theorem moduleIn_withTree (projects : List Project) (i : Nat) (tree : ModuleTree)
    (project : Project) (hp : projects[i]? = some project) (h : ModuleHandle) :
    moduleIn (withTree projects i tree) h =
      if h.project = i then tree.get? h.module else moduleIn projects h := by
  unfold moduleIn
  rw [getElem?_withTree projects i _ tree project hp]
  by_cases hi : h.project = i
  · rw [if_pos hi, if_pos hi]
    rfl
  · rw [if_neg hi, if_neg hi]

/-- A tree with the same content changes nothing about what is in modules. -/
theorem contentIn_withTree (projects : List Project) (i : Nat) (tree : ModuleTree)
    (project : Project) (hp : projects[i]? = some project)
    (hc : ∀ id, tree.contentAt id = project.modules.contentAt id) (h : ModuleHandle) :
    contentIn (withTree projects i tree) h = contentIn projects h := by
  unfold contentIn
  rw [moduleIn_withTree projects i tree project hp]
  by_cases hi : h.project = i
  · rw [if_pos hi]
    have hm : moduleIn projects h = project.modules.get? h.module := by
      unfold moduleIn
      rw [hi, hp]
      rfl
    rw [hm]
    exact hc h.module
  · rw [if_neg hi]

/-- A project may have its tree replaced by a later form of it. -/
theorem Trees.withTree {projects : List Project} (h : Trees projects) (i : Nat) (tree : ModuleTree)
    (project : Project) (hp : projects[i]? = some project) (hg : project.modules.Grows tree)
    (hs : tree.Sound) : Trees (withTree projects i tree) := by
  have hmem : project ∈ projects := List.mem_of_getElem? hp
  refine ⟨?_, fun project' hp' => ?_, fun project' hp' m hm => ?_⟩
  · rw [(grow_withTree projects i tree project hp hg).names]
    exact h.names
  · rcases mem_withTree_cases hp hp' with rfl | hp'
    · exact hs
    · exact h.sound project' hp'
  · rcases mem_withTree_cases hp hp' with rfl | hp'
    · -- The root of the new tree is the old root, under the same name.
      rcases (h.sound project hmem).root with ⟨r, hr, _⟩
      rcases hg.modules _ r hr with ⟨r', hr', hrg⟩
      rw [ModuleTree.root?, hr', Option.some.injEq] at hm
      rw [← hm, hrg.name]
      exact h.root project hmem r hr
    · exact h.root project' hp' m hm

/-- Some names lead to a module of the project that the first of them names. -/
def FindsModule (projects : List Project) (path : List String) : Prop :=
  ∃ project ∈ projects, path.head? = some project.name ∧ ∃ id, project.modules.find? path = some id

/-- Names that lead to a module go on doing so. -/
theorem FindsModule.grow {ps ps' : List Project} {path : List String} (h : FindsModule ps path)
    (hg : ProjectsGrow ps ps') : FindsModule ps' path := by
  rcases h with ⟨project, hp, hhead, id, hf⟩
  rcases List.mem_iff_getElem?.1 hp with ⟨i, hi⟩
  rcases hg.project i project hi with ⟨project', hp', hpg⟩
  exact ⟨project', List.mem_of_getElem? hp', by rw [hpg.name, hhead], id,
    hpg.modules.find? path id hf⟩

/-- The names of a module lead to it, from the project that the first of them names. -/
theorem Trees.finds {projects : List Project} (h : Trees projects) (i : Nat) (project : Project)
    (hp : projects[i]? = some project) (id : ModuleId) (m : Module)
    (hm : project.modules.get? id = some m) :
    m.childrenPath.head? = some project.name ∧ project.modules.find? m.childrenPath = some id := by
  have hmem : project ∈ projects := List.mem_of_getElem? hp
  have hf := (h.sound project hmem).found id m hm
  refine ⟨?_, hf⟩
  cases hc : m.childrenPath with
  | nil => exact absurd hc ((h.sound project hmem).childrenPath_ne_nil id m hm)
  | cons name names =>
      rw [hc] at hf
      simp only [ModuleTree.find?, Option.bind_eq_bind, Option.bind_eq_some_iff] at hf
      rcases hf with ⟨root, hroot, hf⟩
      -- The first name is that of the root, which is that of the project.
      by_cases hn : name = root.name
      · rw [List.head?_cons, hn, h.root project hmem root hroot]
      · rw [if_neg hn] at hf
        cases hf

theorem Trees.childrenPath {projects : List Project} (h : Trees projects) (handle : ModuleHandle)
    (m : Module) (hm : moduleIn projects handle = some m) :
    m.childrenPath = m.path ++ [m.name] := by
  unfold moduleIn at hm
  rw [Option.bind_eq_some_iff] at hm
  rcases hm with ⟨project, hp, hm⟩
  exact (h.sound project (List.mem_of_getElem? hp)).childrenPath handle.module m hm

/-- The names of a module lead to it. -/
theorem Trees.findsModule {projects : List Project} (h : Trees projects) (handle : ModuleHandle)
    (m : Module) (hm : moduleIn projects handle = some m) :
    FindsModule projects m.childrenPath := by
  unfold moduleIn at hm
  rw [Option.bind_eq_some_iff] at hm
  rcases hm with ⟨project, hp, hm⟩
  rcases h.finds handle.project project hp handle.module m hm with ⟨hhead, hf⟩
  exact ⟨project, List.mem_of_getElem? hp, hhead, handle.module, hf⟩

/-- A list of projects that has what another has: the modules, the names that lead to them and the
    files. Growth is one way to get there, adding a project is the other. -/
structure ProjectsExtend (p : Program) (projects projects' : List Project) : Prop where
  module : ∀ (h : ModuleHandle) (m : Module), moduleIn projects h = some m →
    ∃ m' : Module, moduleIn projects' h = some m' ∧ m.Grows m'
  finds : ∀ (path : List String), FindsModule projects path → FindsModule projects' path
  inside : ∀ (file : Path), p.isOutside projects file = false → p.isOutside projects' file = false

theorem ProjectsGrow.extend {ps ps' : List Project} (h : ProjectsGrow ps ps') (p : Program) :
    ProjectsExtend p ps ps' :=
  ⟨h.moduleIn, fun _ hf => hf.grow h, fun file hf => by rw [isOutside_of_grow p h, hf]⟩

/-- A file that belongs to a project belongs to one when another is added. -/
theorem projectFor?_append (s : State) (project : Project) (file : Path)
    (h : (s.projectFor? file).isSome = true) :
    (({ s with projects := s.projects ++ [project] } : State).projectFor? file).isSome = true := by
  unfold State.projectFor? at h ⊢
  simp only [List.zipIdx_append, List.foldl_append, Option.isSome_map] at h ⊢
  simp only [List.zipIdx_cons, List.zipIdx_nil, List.foldl_cons, List.foldl_nil]
  -- The new project is the better one, or the best so far stays.
  split
  · rfl
  · exact h

theorem getElem?_append_of_some (projects : List Project) (added project : Project) (i : Nat)
    (h : projects[i]? = some project) : (projects ++ [added])[i]? = some project := by
  rw [List.getElem?_append_left (List.getElem?_eq_some_iff.1 h).1, h]

/-- Adding a project takes nothing away. -/
theorem extend_append (p : Program) (projects : List Project) (project : Project) :
    ProjectsExtend p projects (projects ++ [project]) := by
  refine ⟨fun h m hm => ⟨m, ?_, Module.Grows.refl m⟩, fun path hf => ?_, fun file hf => ?_⟩
  · unfold moduleIn at hm ⊢
    rw [Option.bind_eq_some_iff] at hm ⊢
    rcases hm with ⟨project', hp, hm⟩
    exact ⟨project', getElem?_append_of_some projects project project' _ hp, hm⟩
  · rcases hf with ⟨project', hp, hf⟩
    exact ⟨project', List.mem_append_left _ hp, hf⟩
  · unfold Program.isOutside at hf ⊢
    rw [Bool.or_eq_false_iff, Option.isNone_eq_false_iff] at hf ⊢
    exact ⟨hf.1, projectFor?_append { projects } project file hf.2⟩

/-- Adding a project without content puts nothing into any module. -/
theorem contentIn_append (projects : List Project) (project : Project)
    (hblank : ∀ id, project.modules.contentAt id = Module.blank) (h : ModuleHandle) :
    contentIn (projects ++ [project]) h = contentIn projects h := by
  unfold contentIn moduleIn
  -- A handle leads to an old project, to the new one, or to none.
  rcases Nat.lt_trichotomy h.project projects.length with hlt | heq | hgt
  · rw [List.getElem?_append_left hlt]
  · rw [heq, List.getElem?_concat_length, List.getElem?_eq_none (Nat.le_refl _), Option.bind_some]
    exact hblank h.module
  · rw [List.getElem?_eq_none (Nat.le_of_lt hgt), List.getElem?_eq_none (by
      rw [List.length_append, List.length_singleton]
      exact hgt)]

/-- A project may be added under a name of its own. -/
theorem Trees.append {projects : List Project} (h : Trees projects) (project : Project)
    (hname : project.name ∉ projects.map (·.name)) (hsound : project.modules.Sound)
    (hroot : ∀ m, project.modules.root? = some m → m.name = project.name) :
    Trees (projects ++ [project]) := by
  refine ⟨?_, fun project' hp => ?_, fun project' hp => ?_⟩
  · rw [List.map_append, List.map_cons, List.map_nil]
    exact (List.perm_append_singleton _ _).nodup_iff.2 (List.nodup_cons.2 ⟨hname, h.names⟩)
  · rcases List.mem_append.1 hp with hp | hp
    · exact h.sound project' hp
    · rw [List.mem_singleton.1 hp]
      exact hsound
  · rcases List.mem_append.1 hp with hp | hp
    · exact h.root project' hp
    · rw [List.mem_singleton.1 hp]
      exact hroot

/-- A project may be given the tree that it has. -/
theorem withTree_self {projects : List Project} {i : Nat} {project : Project}
    (hp : projects[i]? = some project) : withTree projects i project.modules = projects := by
  refine List.ext_getElem? fun j => ?_
  rw [getElem?_withTree projects i j _ project hp]
  split
  · rename_i hj
    rw [hj, hp]
  · rfl

/-- Changing a tree is replacing it. -/
theorem updateTree_eq (s : State) (i : Nat) (project : Project)
    (hp : s.projects[i]? = some project) (change : ModuleTree → ModuleTree) :
    s.updateTree i change =
      { s with projects := withTree s.projects i (change project.modules) } := by
  have hmodify : (s.projects.modify i fun q => { q with modules := change q.modules }) =
      withTree s.projects i (change project.modules) := by
    refine List.ext_getElem? (fun j => ?_)
    rw [getElem?_withTree s.projects i j _ project hp, List.getElem?_modify]
    by_cases h : j = i
    · rw [if_pos h, h, hp]
      simp only [if_true, Option.map_eq_map, Option.map_some]
    · rw [if_neg h]
      simp only [if_neg (fun h' : i = j => h h'.symm), Option.map_eq_map, Option.map_id']
  rw [State.updateTree, hmodify]

/-- Changing what is in a module changes no other. -/
theorem contentIn_update (projects : List Project) (h h' : ModuleHandle) (project : Project)
    (hp : projects[h.project]? = some project) (m : Module)
    (hm : project.modules.get? h.module = some m) (change : Module → Module) :
    contentIn (withTree projects h.project (project.modules.update h.module change)) h' =
      if h' = h then (change m).content else contentIn projects h' := by
  unfold contentIn
  rw [moduleIn_withTree projects _ _ project hp, ModuleTree.get?_update]
  by_cases hh : h' = h
  · rw [if_pos hh, if_pos (by rw [hh]), if_pos (by rw [hh]), hm]
    rfl
  · rw [if_neg hh]
    -- Another module of the same tree, or one of another.
    by_cases hi : h'.project = h.project
    · have hid : h'.module ≠ h.module := by
        intro hid
        cases h
        cases h'
        exact hh (by rw [ModuleHandle.mk.injEq]; exact ⟨hi, hid⟩)
      rw [if_pos hi, if_neg hid]
      unfold moduleIn
      rw [hi, hp, Option.bind_some]
    · rw [if_neg hi]

end DocModel
