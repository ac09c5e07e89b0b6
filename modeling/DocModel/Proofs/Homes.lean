import DocModel.Proofs.Directories
import DocModel.Proofs.Entries

/-!
# Where declarations stand

A declaration stands in the module of the namespace around it, if the namespace has one, and in the
module of its file otherwise. Which it is turns out when the declaration is opened, and it is so for
good. The module of a namespace stays, so one half of that is easy. For the other half it has to be
known that a namespace without a module never gets one afterwards. The namespace was asked for
before, so by then it has its reference, or it can have none; and a module is made for a namespace
only together with its reference.

Projects may be added in between, and a file may then belong to another project than before. What is
said here of a file is about the project that its declarations went to, which does not change.

The place that a declaration gives of itself does not depend on where it stands. It leaves the file
out if what is around the declaration is a namespace, whether that has a module or not.

## Main definitions

* `ServesFile`: A module is the one that the directories of a file lead to.
* `Home`: The module that a declaration stands in, and why.
* `Attachment.AtHome`, `Attachment.IsHome`: A declaration stands in its module, and says of its file
  what it should.
* `Abides`: What was settled about places in one state is so in a later one.
* `Rooted`: Trees agree with the roots of their projects.

## Theorems

* `Home.mono`, `Attachment.IsHome.mono`: What a declaration stands in, it stands in later.
* `Rooted.resolveModule`: The module that is found or made for a file serves it.
* `Rooted.relativeFile?`: The path of a file below the root of its project.
-/

namespace DocModel

/-- The module is the one that the directories of the file lead to, from the root of a project that
    the file is below. -/
def ServesFile (projects : List Project) (file : Path) (h : ModuleHandle) : Prop :=
  ∃ project m, projects[h.project]? = some project ∧ project.modules.get? h.module = some m ∧
    file.startsWith project.baseDir = true ∧
    m.childrenPath = project.name :: moduleNames project.modules.passthrough project.baseDir file

/-- The module that a declaration stands in: that of the namespace around it, or that of its file if
    the namespace has none and gets none. -/
inductive Home (p : Program) (s : State) (info : SymbolInfo) (node : NodeInfo)
    (h : ModuleHandle) : Prop
  | space (parent : SymbolId) (hparent : info.parent = some parent)
      (hspace : p.isNamespace parent = true) (hfind : s.namespaces.find? parent = some h)
  | file (hnone : ∀ parent, info.parent = some parent → p.isNamespace parent = true →
        s.namespaces.find? parent = none ∧
          (p.HasReference s.projects parent → s.registry.contains parent = true))
      (hserves : ServesFile s.projects node.file h)

/-- A declaration stands in its module. Inside a namespace it says nothing of its file, and
    elsewhere it gives the path below the root of the project that it went to. -/
structure Attachment.AtHome (p : Program) (s : State) (a : Attachment) (info : SymbolInfo)
    (node : NodeInfo) : Prop where
  symbol : p.symbol? a.symbol = some info
  declaration : p.declarationOf? info = some node
  home : Home p s info node a.handle
  inside : p.isInNamespace info = true → a.declaration.loc.file = none
  outside : p.isInNamespace info = false → ∃ project below,
    s.projects[a.handle.project]? = some project ∧
    node.file.relativeTo? project.baseDir = some below ∧
    a.declaration.loc.file = some (Text.joinWith "/" below.names)

/-- A declaration stands in its module, and says of its file what it should. -/
def Attachment.IsHome (p : Program) (s : State) (a : Attachment) : Prop :=
  ∃ info node, a.AtHome p s info node

/-- What was settled about places in one state is so in a later one. -/
structure Abides (p : Program) (s s' : State) : Prop where
  contains : ∀ x, s.registry.contains x = true → s'.registry.contains x = true
  namespaces : ∀ x h, s.namespaces.find? x = some h → s'.namespaces.find? x = some h
  /-- What has its reference, or can have none, gets no module any more. -/
  unspaced : ∀ x, (p.HasReference s.projects x → s.registry.contains x = true) →
    s.namespaces.find? x = none → s'.namespaces.find? x = none
  references : ∀ x, p.HasReference s'.projects x → p.HasReference s.projects x
  projects : ∀ (i : Nat) project, s.projects[i]? = some project →
    ∃ project', s'.projects[i]? = some project' ∧ project.Grows project'

namespace Abides

variable {p : Program} {s s' s'' : State}

theorem refl (p : Program) (s : State) : Abides p s s :=
  ⟨fun _ h => h, fun _ _ h => h, fun _ _ h => h, fun _ h => h,
    fun _ project h => ⟨project, h, Project.Grows.refl project⟩⟩

theorem trans (h : Abides p s s') (h' : Abides p s' s'') : Abides p s s'' := by
  refine ⟨fun x hx => h'.contains x (h.contains x hx),
    fun x handle hx => h'.namespaces x handle (h.namespaces x handle hx), fun x hx hnone => ?_,
    fun x hx => h.references x (h'.references x hx), fun i project hi => ?_⟩
  · -- What could have a reference later could have one before, so it was entered by then.
    exact h'.unspaced x (fun hhas => h.contains x (hx (h.references x hhas)))
      (h.unspaced x hx hnone)
  · rcases h.projects i project hi with ⟨project', hi', hg⟩
    rcases h'.projects i project' hi' with ⟨project'', hi'', hg'⟩
    exact ⟨project'', hi'', hg'.name.trans hg.name, hg'.baseDir.trans hg.baseDir,
      hg.modules.trans hg'.modules⟩

/-- A change to the projects alone. -/
theorem of_projects (hr : s'.registry = s.registry) (hn : s'.namespaces = s.namespaces)
    (href : ∀ x, p.HasReference s'.projects x → p.HasReference s.projects x)
    (hp : ∀ (i : Nat) project, s.projects[i]? = some project →
      ∃ project', s'.projects[i]? = some project' ∧ project.Grows project') : Abides p s s' := by
  refine ⟨?_, ?_, ?_, href, hp⟩
  · rw [hr]
    exact fun _ h => h
  · rw [hn]
    exact fun _ _ h => h
  · rw [hn]
    exact fun _ _ h => h

theorem of_grow (hr : s'.registry = s.registry) (hn : s'.namespaces = s.namespaces)
    (hp : ProjectsGrow s.projects s'.projects) : Abides p s s' :=
  of_projects hr hn (fun x hx => (Program.HasReference.grow hp x).1 hx) hp.project

theorem of_append {project : Project} (hr : s'.registry = s.registry)
    (hn : s'.namespaces = s.namespaces) (hp : s'.projects = s.projects ++ [project]) :
    Abides p s s' := by
  refine of_projects hr hn (fun x hx => ?_) fun i q hq => ⟨q, ?_, Project.Grows.refl q⟩
  · rw [hp] at hx
    exact hx.of_append
  · rw [hp]
    exact getElem?_append_of_some s.projects project q i hq

end Abides

variable {p : Program} {s s' : State}

/-- A module that serves a file goes on doing so. -/
theorem ServesFile.mono {file : Path} {h : ModuleHandle} (hs : ServesFile s.projects file h)
    (ha : Abides p s s') : ServesFile s'.projects file h := by
  rcases hs with ⟨project, m, hp, hm, hbelow, hpath⟩
  rcases ha.projects h.project project hp with ⟨project', hp', hg⟩
  rcases hg.modules.modules h.module m hm with ⟨m', hm', hmg⟩
  refine ⟨project', m', hp', hm', by rw [hg.baseDir, hbelow], ?_⟩
  rw [hmg.childrenPath, hpath, hg.name, hg.modules.passthrough, hg.baseDir]

/-- What a declaration stands in, it stands in later. -/
theorem Home.mono {info : SymbolInfo} {node : NodeInfo} {h : ModuleHandle}
    (hh : Home p s info node h) (ha : Abides p s s') : Home p s' info node h := by
  cases hh with
  | space parent hparent hspace hfind =>
      exact .space parent hparent hspace (ha.namespaces parent h hfind)
  | file hnone hserves =>
      refine .file (fun parent hparent hspace => ?_) (hserves.mono ha)
      -- The namespace is settled, so it gets no module any more.
      rcases hnone parent hparent hspace with ⟨hfind, hknown⟩
      exact ⟨ha.unspaced parent hknown hfind,
        fun hhas => ha.contains parent (hknown (ha.references parent hhas))⟩

/-- A declaration that stands in its module does so later. -/
theorem Attachment.IsHome.mono {a : Attachment} (h : a.IsHome p s) (ha : Abides p s s') :
    a.IsHome p s' := by
  rcases h with ⟨info, node, h⟩
  refine ⟨info, node, h.symbol, h.declaration, h.home.mono ha, h.inside, fun hout => ?_⟩
  rcases h.outside hout with ⟨project, below, hp, hbelow, hfile⟩
  rcases ha.projects _ project hp with ⟨project', hp', hg⟩
  exact ⟨project', below, hp', by rw [hg.baseDir, hbelow], hfile⟩

/-- Trees agree with the names of directories, from the roots of their projects on. -/
def Rooted (projects : List Project) : Prop :=
  ∀ project ∈ projects, project.modules.Located project.modules.passthrough project.baseDir

namespace Rooted

/-- A later form of a tree. -/
theorem withTree {projects : List Project} (h : Rooted projects) {i : Nat} {project : Project}
    {tree : ModuleTree} (hp : projects[i]? = some project)
    (ht : tree.Located project.modules.passthrough project.baseDir) :
    Rooted (withTree projects i tree) := by
  intro project' hp'
  rcases mem_withTree_cases hp hp' with rfl | hp'
  · -- The same directories are passed through.
    change tree.Located tree.passthrough project.baseDir
    rw [ht.passed]
    exact ht
  · exact h project' hp'

/-- Something is put into a module. -/
theorem update {projects : List Project} (h : Rooted projects) (ht : Trees projects) {i : Nat}
    {project : Project} (hp : projects[i]? = some project) (id : ModuleId)
    {change : Module → Module} (hk : ModuleTree.KeepsPlace change) :
    Rooted (DocModel.withTree projects i (project.modules.update id change)) :=
  h.withTree hp ((h project (List.mem_of_getElem? hp)).grow
    (ht.sound project (List.mem_of_getElem? hp)) (ModuleTree.grows_update _ id change hk) rfl)

/-- A new project whose tree agrees with its directories. -/
theorem append {projects : List Project} (h : Rooted projects) {project : Project}
    (hp : project.modules.Located project.modules.passthrough project.baseDir) :
    Rooted (projects ++ [project]) := by
  intro project' hp'
  rcases List.mem_append.1 hp' with hp' | hp'
  · exact h project' hp'
  · rw [List.mem_singleton.1 hp']
    exact hp

/-- The module that is found or made for a file serves it, and the tree stays right. -/
theorem resolveModule (h : Rooted s.projects) (ht : Trees s.projects) {file : Path} {i : Nat}
    (hi : s.projectFor? file = some i) {project : Project} (hp : s.projects[i]? = some project)
    {id : ModuleId} {tree : ModuleTree} {m : Module}
    (hres : project.modules.resolveModule file = some (id, tree))
    (he : project.modules.Enlarges tree) (hm : tree.get? id = some m) :
    tree.Located project.modules.passthrough project.baseDir ∧
      ServesFile (DocModel.withTree s.projects i tree) file ⟨i, id⟩ := by
  have hmem := List.mem_of_getElem? hp
  have hsound := ht.sound project hmem
  have hbelow := startsWith_of_projectFor? hi hp
  rcases hsound.root with ⟨root, hroot, hpath⟩
  rcases (h project hmem).resolveModule hsound hbelow hres hroot hm with ⟨hl, hplace⟩
  refine ⟨hl, { project with modules := tree }, m, ?_, hm, hbelow, ?_⟩
  · rw [getElem?_withTree s.projects i i tree project hp, if_pos rfl]
  · -- The path of names starts with the name of the project, which the root has.
    rw [hplace, hsound.childrenPath _ root hroot, hpath, ht.root project hmem root hroot]
    change _ = project.name :: moduleNames tree.passthrough project.baseDir file
    rw [he.grows.passthrough]
    rfl

/-- The path of a file below the root of its project. -/
theorem relativeFile? (h : Rooted s.projects) (ht : Trees s.projects) {file : Path} {i : Nat}
    (hi : s.projectFor? file = some i) : ∃ project below, s.projects[i]? = some project ∧
      file.relativeTo? project.baseDir = some below ∧
      s.relativeFile? file = some (Text.joinWith "/" below.names) := by
  have hp := List.getElem?_eq_getElem (projectFor?_lt s file i hi)
  have hmem := List.mem_of_getElem? hp
  rcases (ht.sound _ hmem).root with ⟨root, hroot, _⟩
  have hbase := (h _ hmem).root root hroot
  -- The file is below the root, so there is a rest.
  have hrest : (file.relativeTo? root.baseDir).isSome = true := by
    rw [Path.isSome_relativeTo?, hbase]
    exact startsWith_of_projectFor? hi hp
  rcases Option.isSome_iff_exists.1 hrest with ⟨below, hbelow⟩
  refine ⟨_, below, hp, by rw [← hbase, hbelow], ?_⟩
  simp only [State.relativeFile?, hi, hp, ModuleTree.relativePath?, hroot, hbelow,
    Option.bind_eq_bind, Option.bind_some, Option.pure_def]

end Rooted

end DocModel
