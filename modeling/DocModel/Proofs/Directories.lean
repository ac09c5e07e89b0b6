import DocModel.Proofs.Paths
import DocModel.Proofs.Projects

/-!
# The module of a file

Which module a file belongs to is known beforehand. Its names are the name of the project and the
names of the directories between the root of the project and the file, without those that are passed
through. What a tree remembers of directories does not change that: an entry is made from the names
of a directory, any spelling of the directory has the same names, and the module of the entry stays
where it is.

## Main definitions

* `moduleNames`: The names of the modules that lead to a file below a root.
* `ModuleTree.Located`: What a tree remembers of directories agrees with their names.
* `placeIn`: The names of the module of a file.
* `Located`: All trees agree with the names of directories.

## Theorems

* `ModuleTree.Located.resolveModule`: The module of a file stands at its names.
* `placeIn_of_grow`: Growth changes nothing about where files belong.
-/

namespace DocModel

/-- The names of the modules that lead to a file below a root. -/
def moduleNames (passthrough : List String) (root file : Path) : List String :=
  (file.directoriesBelow root).filter (!passthrough.contains ·)

/-- The names of the modules that lead to a directory below a root. -/
def directoryNames (passthrough : List String) (root dir : Path) : List String :=
  (Path.namesIn (dir.components.drop root.components.length)).filter (!passthrough.contains ·)

/-- A file leads where its directory leads. -/
theorem moduleNames_of_parent? (passthrough : List String) (root : Path) {file dir : Path}
    (h : file.parent? = some dir) :
    moduleNames passthrough root file = directoryNames passthrough root dir := by
  rw [moduleNames, directoryNames, Path.directoriesBelow, Path.components_parent? h,
    Path.dropLast_drop]

/-- A file that is in no directory leads to the root. -/
theorem moduleNames_of_parent?_eq_none (passthrough : List String) (root : Path) {file : Path}
    (h : file.parent? = none) : moduleNames passthrough root file = [] := by
  rw [moduleNames, Path.directoriesBelow, Path.dropLast_drop,
    Path.dropLast_components_of_parent? h, List.drop_nil]
  rfl

/-- If a file is below a root and its directory is not, then there is nothing between the two. -/
theorem directoryNames_of_eq_none (passthrough : List String) {base file dir : Path}
    (hfile : file.startsWith base = true) (hdir : file.parent? = some dir)
    (hnone : dir.relativeTo? base = none) : directoryNames passthrough base dir = [] := by
  -- Below the root there would be a relative path.
  have hout : ¬ dir.startsWith base = true := by
    intro hstarts
    rw [Path.relativeTo?, if_pos hstarts] at hnone
    split at hnone
    split at hnone <;> cases hnone
  rcases List.isPrefixOf_iff_prefix.1 hfile with ⟨rest, hrest⟩
  rw [directoryNames, Path.components_parent? hdir, ← hrest]
  cases rest with
  | nil =>
      rw [List.append_nil, List.drop_eq_nil_of_le (by rw [List.length_dropLast]; omega)]
      rfl
  | cons c rest =>
      -- A part between the two would put the directory below the root.
      refine absurd (List.isPrefixOf_iff_prefix.2 ?_) hout
      rw [Path.components_parent? hdir, ← hrest,
        List.dropLast_append_of_ne_nil (List.cons_ne_nil c rest)]
      exact List.prefix_append _ _

namespace ModuleTree

/-- The names that a tree reads off a directory below its root. -/
theorem moduleNames?_eq (t : ModuleTree) {base dir : Path} {names : List String}
    (h : t.moduleNames? base dir = some names) :
    names = directoryNames t.passthrough base dir := by
  rcases Option.map_eq_some_iff.1 h with ⟨below, hbelow, rfl⟩
  rw [directoryNames, ← Path.components_relativeTo? hbelow]
  rfl

/-- What a tree remembers of directories agrees with their names. -/
structure Located (t : ModuleTree) (passthrough : List String) (base : Path) : Prop where
  passed : t.passthrough = passthrough
  root : ∀ m, t.root? = some m → m.baseDir = base
  directories : ∀ dir id m root, t.directories.find? dir = some id → t.get? id = some m →
    t.root? = some root → m.childrenPath = root.childrenPath ++ directoryNames passthrough base dir

theorem located_make (name : String) (baseDir : Path) (passthrough : List String) :
    (make name baseDir passthrough).Located passthrough baseDir := by
  refine ⟨rfl, fun m hm => ?_, fun dir id m root hd => ?_⟩
  · rw [(eq_root_of_get?_make hm).2]
    rfl
  · exact absurd hd (by simp only [make, Table.find?_empty, reduceCtorEq, not_false_eq_true])

section

variable {t t' : ModuleTree} {passthrough : List String} {base : Path}

/-- Growth moves nothing, so what is remembered stays right. -/
theorem Located.grow (h : t.Located passthrough base) (hs : t.Sound) (hg : t.Grows t')
    (hd : t'.directories = t.directories) : t'.Located passthrough base := by
  rcases hs.root with ⟨root, hroot, _⟩
  rcases hg.modules rootId root hroot with ⟨root', hroot', hrg⟩
  refine ⟨hg.passthrough.trans h.passed, fun m hm => ?_, fun dir id m r hdir hm hr => ?_⟩
  · rw [root?, hroot', Option.some.injEq] at hm
    rw [← hm, hrg.baseDir]
    exact h.root root hroot
  · rw [hd] at hdir
    -- The module was there before, at the same names.
    rcases hs.directories dir id hdir with ⟨m₀, hm₀⟩
    rcases hg.modules id m₀ hm₀ with ⟨m', hm', hmg⟩
    rw [hm', Option.some.injEq] at hm
    rw [root?, hroot', Option.some.injEq] at hr
    rw [← hm, ← hr, hmg.childrenPath, hrg.childrenPath]
    exact h.directories dir id m₀ root hdir hm₀ hroot

/-- Making a child remembers nothing about directories. -/
theorem directories_childOrCreate {parent id : ModuleId} {name : String}
    (h : t.childOrCreate parent name = some (id, t')) : t'.directories = t.directories := by
  rcases Option.bind_eq_some_iff.1 h with ⟨m, _, h⟩
  split at h
  · rw [← (Prod.mk.inj (Option.some.inj h)).2]
  · rw [← (Prod.mk.inj (Option.some.inj h)).2]
    rfl

theorem directories_descendOrCreate {id id' : ModuleId} {names : List String}
    (h : t.descendOrCreate id names = some (id', t')) : t'.directories = t.directories := by
  induction names generalizing t id with
  | nil => rw [← (Prod.mk.inj (Option.some.inj h)).2]
  | cons name names ih =>
      rcases Option.bind_eq_some_iff.1 h with ⟨⟨child, t₁⟩, hchild, h⟩
      rw [ih h, directories_childOrCreate hchild]

theorem directories_namespaceModule {parent id : ModuleId} {name : String} {info : NamespaceInfo}
    (h : t.namespaceModule parent name info = some (id, t')) : t'.directories = t.directories := by
  rcases Option.bind_eq_some_iff.1 h with ⟨m, _, h⟩
  rcases Option.bind_eq_some_iff.1 h with ⟨⟨child, t₁⟩, hchild, h⟩
  have hdirs := directories_childOrCreate hchild
  simp only [Option.pure_def] at h
  split at h
  · rw [← (Prod.mk.inj (Option.some.inj h)).2, hdirs]
  · rw [← (Prod.mk.inj (Option.some.inj h)).2, ← hdirs]
    rfl

/-- A module that is made has nothing in it. -/
theorem contentAt_childOrCreate {parent id : ModuleId} {name : String}
    (h : t.childOrCreate parent name = some (id, t')) (i : ModuleId) :
    t'.contentAt i = t.contentAt i := by
  rcases Option.bind_eq_some_iff.1 h with ⟨m, hm, h⟩
  split at h
  · rw [← (Prod.mk.inj (Option.some.inj h)).2]
  · rw [← (Prod.mk.inj (Option.some.inj h)).2]
    exact contentAt_addChild _ hm i

theorem contentAt_descendOrCreate {id id' : ModuleId} {names : List String}
    (h : t.descendOrCreate id names = some (id', t')) (i : ModuleId) :
    t'.contentAt i = t.contentAt i := by
  induction names generalizing t id with
  | nil => rw [← (Prod.mk.inj (Option.some.inj h)).2]
  | cons name names ih =>
      rcases Option.bind_eq_some_iff.1 h with ⟨⟨child, t₁⟩, hchild, h⟩
      rw [ih h, contentAt_childOrCreate hchild]

/-- Finding the module of a file leaves what is in modules as it was. -/
theorem contentAt_resolveModule {file : Path} {id : ModuleId}
    (h : t.resolveModule file = some (id, t')) (i : ModuleId) : t'.contentAt i = t.contentAt i := by
  unfold resolveModule at h
  split at h
  · rw [← (Prod.mk.inj (Option.some.inj h)).2]
  · split at h
    · rw [← (Prod.mk.inj (Option.some.inj h)).2]
    · rcases Option.bind_eq_some_iff.1 h with ⟨root, _, h⟩
      split at h
      · rw [← (Prod.mk.inj (Option.some.inj h)).2]
      · rcases Option.bind_eq_some_iff.1 h with ⟨⟨id', t₁⟩, hmade, h⟩
        rw [← (Prod.mk.inj (Option.some.inj h)).2]
        exact contentAt_descendOrCreate hmade i

theorem contentAt_namespaceModule {parent id : ModuleId} {name : String} {info : NamespaceInfo}
    (h : t.namespaceModule parent name info = some (id, t')) (i : ModuleId) :
    t'.contentAt i = t.contentAt i := by
  rcases Option.bind_eq_some_iff.1 h with ⟨m, _, h⟩
  rcases Option.bind_eq_some_iff.1 h with ⟨⟨child, t₁⟩, hchild, h⟩
  have hcontent := contentAt_childOrCreate hchild i
  simp only [Option.pure_def] at h
  split at h
  · rw [← (Prod.mk.inj (Option.some.inj h)).2, hcontent]
  · rw [← (Prod.mk.inj (Option.some.inj h)).2, ← hcontent]
    -- Only what the namespace is called is set.
    unfold contentAt
    rw [get?_update]
    by_cases hi : i = child
    · rw [if_pos hi, hi, Option.map_map]
      rfl
    · rw [if_neg hi]

/-- A directory may be remembered with a module that stands at its names. -/
theorem Located.remember (h : t.Located passthrough base) {dir : Path} {id : ModuleId}
    {m root : Module} (hm : t.get? id = some m) (hroot : t.root? = some root)
    (hplace : m.childrenPath = root.childrenPath ++ directoryNames passthrough base dir) :
    ({ t with directories := t.directories.insert dir id } : ModuleTree).Located passthrough
      base := by
  refine ⟨h.passed, h.root, fun dir' id' m' root' hdir hm' hroot' => ?_⟩
  have hr : root = root' := Option.some.inj (hroot.symm.trans hroot')
  by_cases hc : compare dir' dir = .eq
  · -- Another spelling of the directory, with the same names.
    have hself := Table.find?_insert_self t.directories dir id
    unfold Table.find? at hdir hself
    rw [Table.findIn?_congr hc, hself, Option.some.injEq] at hdir
    have hm : m = m' := Option.some.inj (hm.symm.trans (by rw [hdir]; exact hm'))
    rw [← hm, ← hr, hplace, directoryNames, directoryNames, Path.components_eq_of_compare hc]
  · rw [Table.find?_insert_of_ne t.directories id hc] at hdir
    exact h.directories dir' id' m' root' hdir hm' hroot'

/-- The module of a file below the root stands at its names, and what is remembered stays right. -/
theorem Located.resolveModule (h : t.Located passthrough base) (hs : t.Sound) {file : Path}
    (hfile : file.startsWith base = true) {id : ModuleId} {root m : Module}
    (hres : t.resolveModule file = some (id, t')) (hroot : t.root? = some root)
    (hm : t'.get? id = some m) :
    t'.Located passthrough base ∧
      m.childrenPath = root.childrenPath ++ moduleNames passthrough base file := by
  -- Where nothing is made, what is left to show is where the module stands.
  have hsame : t' = t → m.childrenPath = root.childrenPath ++ moduleNames passthrough base file →
      t'.Located passthrough base ∧
        m.childrenPath = root.childrenPath ++ moduleNames passthrough base file :=
    fun ht hplace => ⟨by rw [ht]; exact h, hplace⟩
  unfold ModuleTree.resolveModule at hres
  split at hres
  · -- A file without a directory is in the root.
    rename_i hnone
    rcases Prod.mk.inj (Option.some.inj hres) with ⟨rfl, rfl⟩
    refine hsame rfl ?_
    rw [moduleNames_of_parent?_eq_none passthrough base hnone, List.append_nil]
    rw [show m = root from Option.some.inj (hm.symm.trans hroot)]
  · rename_i dir hdir
    rw [moduleNames_of_parent? passthrough base hdir] at hsame ⊢
    split at hres
    · -- The directory is remembered.
      rename_i id' hfound
      rcases Prod.mk.inj (Option.some.inj hres) with ⟨rfl, rfl⟩
      exact hsame rfl (h.directories dir id' m root hfound hm hroot)
    · simp only [hroot, Option.bind_eq_bind, Option.bind_some] at hres
      split at hres
      · -- The directory is that of the root, or above it.
        rename_i hnone
        rcases Prod.mk.inj (Option.some.inj hres) with ⟨rfl, rfl⟩
        refine hsame rfl ?_
        rw [h.root root hroot] at hnone
        rw [directoryNames_of_eq_none passthrough hfile hdir (Option.map_eq_none_iff.1 hnone),
          List.append_nil, show m = root from Option.some.inj (hm.symm.trans hroot)]
      · -- A path of modules is made, and the directory is remembered with its last.
        rename_i names hnames
        rcases Option.bind_eq_some_iff.1 hres with ⟨⟨id', t₁⟩, hdesc, hres⟩
        rcases Prod.mk.inj (Option.some.inj hres) with ⟨rfl, rfl⟩
        rcases hs.descendOrCreate rootId root hroot names with
          ⟨id₂, t₂, m₂, hdesc₂, he, hm₂, hplace⟩
        rcases Prod.mk.inj (Option.some.inj (hdesc.symm.trans hdesc₂)) with ⟨rfl, rfl⟩
        have hmm : m = m₂ := Option.some.inj (hm.symm.trans hm₂)
        have hl := h.grow hs he.grows (directories_descendOrCreate hdesc)
        rcases he.grows.modules rootId root hroot with ⟨root', hroot', hrg⟩
        have hat : m.childrenPath = root.childrenPath ++ directoryNames passthrough base dir := by
          rw [hmm, hplace, t.moduleNames?_eq hnames, h.passed, h.root root hroot]
        refine ⟨hl.remember hm₂ hroot' ?_, hat⟩
        rw [← hmm, hat, hrg.childrenPath]

end

end ModuleTree

/-- The names of the module of a file: the name of its project, and the names of the directories
    below the root that are not passed through. -/
def placeIn (passthrough : List String) (projects : List Project) (file : Path) :
    Option (List String) := do
  let i ← ({ projects } : State).projectFor? file
  let project ← projects[i]?
  return project.name :: moduleNames passthrough project.baseDir file

/-- Growth changes nothing about where files belong. -/
theorem placeIn_of_grow (passthrough : List String) {ps ps' : List Project}
    (h : ProjectsGrow ps ps') (file : Path) :
    placeIn passthrough ps' file = placeIn passthrough ps file := by
  unfold placeIn
  rw [projectFor?_congr { projects := ps } { projects := ps' } h.baseDirs]
  cases hi : ({ projects := ps } : State).projectFor? file with
  | none => rfl
  | some i =>
      have hlt := projectFor?_lt { projects := ps } file i hi
      rcases h.project i _ (List.getElem?_eq_getElem hlt) with ⟨project', hp', hg⟩
      simp only [Option.bind_eq_bind, Option.bind_some, hp', List.getElem?_eq_getElem hlt, hg.name,
        hg.baseDir]

/-- What the trees of projects remember of directories agrees with their names. -/
def Located (passthrough : List String) (projects : List Project) : Prop :=
  ∀ project ∈ projects, project.modules.Located passthrough project.baseDir

/-- A tree may be replaced by one that agrees with the names just as well. -/
theorem Located.withTree {passthrough : List String} {projects : List Project}
    (h : Located passthrough projects) {i : Nat} {tree : ModuleTree} {project : Project}
    (hp : projects[i]? = some project) (ht : tree.Located passthrough project.baseDir) :
    Located passthrough (withTree projects i tree) := by
  intro project' hp'
  rcases mem_withTree_cases hp hp' with rfl | hp'
  · exact ht
  · exact h project' hp'

/-- A file of a project is below its root. -/
theorem startsWith_of_projectFor? {s : State} {file : Path} {i : Nat} {project : Project}
    (h : s.projectFor? file = some i) (hp : s.projects[i]? = some project) :
    file.startsWith project.baseDir = true := by
  rcases exists_of_projectFor? h with ⟨q, hq, hstarts⟩
  rw [hp, Option.some.injEq] at hq
  rw [hq]
  exact hstarts

end DocModel
