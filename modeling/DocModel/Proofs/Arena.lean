import DocModel.Proofs.Tree

/-!
# Numbers and paths of modules

The modules of a tree stand in one list, in the order they were made, and each holds a table from
names to the numbers of its children. That this list is a tree is not in its type: a table could
name the root, or two tables the same module. It is a tree because a module is entered in exactly
one table, when it is appended, and so under a number greater than that of its parent.

`Sound` gives the rest. A child stands under its own name below its parent, so the path of a module
names its parent, and the path of that one names the module above it: the names of a module are all
that is needed to find it, and no other module has them.

## Main definitions

* `ModuleTree.Request`, `ModuleTree.perform`, `ModuleTree.performAll`: What makes modules, and runs
  of it.
* `ModuleTree.HasChild`: A module lists another under a name.
* `ModuleTree.Ordered`: Children come after their parents.

## Theorems

* `ModuleTree.Sound.exists_perform_iff`: A request succeeds exactly if the module it is made of is
  there.
* `ModuleTree.Sound.hasChild_iff`: A module below the root is listed once, by the module that its
  path names.
* `ModuleTree.paths_identify_modules`: After any requests, paths and numbers of modules agree.
-/

namespace DocModel

namespace ModuleTree

/-- Something that makes modules where they are missing. -/
inductive Request where
  | resolve (file : Path)
  | child (parent : ModuleId) (name : String)
  | space (parent : ModuleId) (name : String) (info : NamespaceInfo)
deriving DecidableEq

/-- The module that a request is made of. -/
def Request.parent? : Request → Option ModuleId
  | resolve _ => none
  | child parent _ => some parent
  | space parent _ _ => some parent

/-- The tree after a request. Fails if the module that it is made of is not there. -/
def perform (t : ModuleTree) : Request → Option ModuleTree
  | .resolve file => (t.resolveModule file).map (·.2)
  | .child parent name => (t.childOrCreate parent name).map (·.2)
  | .space parent name info => (t.namespaceModule parent name info).map (·.2)

/-- The tree after requests, one after the other. -/
def performAll (t : ModuleTree) (requests : List Request) : Option ModuleTree :=
  requests.foldlM perform t

/-- The module `parent` lists the module `id` under a name. -/
def HasChild (t : ModuleTree) (parent : ModuleId) (name : String) (id : ModuleId) : Prop :=
  ∃ m, t.get? parent = some m ∧ m.modules.find? name = some id

/-- Children come after their parents. -/
def Ordered (t : ModuleTree) : Prop :=
  ∀ parent name id, t.HasChild parent name id → parent.index < id.index

section

variable {t t' : ModuleTree} {parent id : ModuleId} {name : String}

/-- A module that is there has a number below the size of the tree. -/
theorem index_lt_size {m : Module} (h : t.get? id = some m) : id.index < t.modules.size := by
  rw [get?, Array.getElem?_eq_some_iff] at h
  exact h.1

theorem ordered_make (name : String) (baseDir : Path) (passthrough : List String) :
    (make name baseDir passthrough).Ordered := by
  rintro parent n id ⟨m, hm, hid⟩
  rw [(eq_root_of_get?_make hm).2] at hid
  exact absurd hid (by simp only [Module.make, Table.find?_empty, reduceCtorEq, not_false_eq_true])

/-- A new child takes the next number, which is greater than any in use. -/
theorem Ordered.addChild (h : t.Ordered) {m : Module} (hp : t.get? parent = some m)
    (hn : m.modules.find? name = none) (baseDir : Path) :
    (t.addChild parent (Module.make name m.childrenPath baseDir)).Ordered := by
  rintro p n id ⟨m', hm', hid⟩
  -- A child of the new tree was one before, or it is the new one, or it would be a child of the new
  -- one, which has none.
  rcases get?_addChild_cases baseDir hp hn p m' hm' with ⟨m₀, hm₀, _, hch⟩ | ⟨_, rfl⟩
  · rcases hch n id hid with hid | ⟨_, _, rfl⟩
    · exact h p n id ⟨m₀, hm₀, hid⟩
    · exact index_lt_size hm₀
  · exact absurd hid (by simp only [Module.make, Table.find?_empty, reduceCtorEq,
      not_false_eq_true])

/-- A change inside a module leaves children behind their parents. -/
theorem Ordered.update (h : t.Ordered) (id : ModuleId) {change : Module → Module}
    (hk : KeepsPlace change) : (t.update id change).Ordered := by
  rintro p n c ⟨m', hm', hc⟩
  rcases get?_update_cases t id change hk p m' hm' with ⟨m, hm, _, hmods⟩
  exact h p n c ⟨m, hm, hmods ▸ hc⟩

/-- So does asking for a child, whether it is there or not. -/
theorem Ordered.childOrCreate (h : t.Ordered)
    (hrun : t.childOrCreate parent name = some (id, t')) : t'.Ordered := by
  rcases Option.bind_eq_some_iff.1 hrun with ⟨m, hm, hrun⟩
  split at hrun
  · rw [← (Prod.mk.inj (Option.some.inj hrun)).2]
    exact h
  · rename_i hnone
    rw [← (Prod.mk.inj (Option.some.inj hrun)).2]
    exact h.addChild hm hnone _

theorem Ordered.descendOrCreate (h : t.Ordered) {names : List String} {target : ModuleId}
    (hrun : t.descendOrCreate id names = some (target, t')) : t'.Ordered := by
  induction names generalizing t id with
  | nil =>
      rw [← (Prod.mk.inj (Option.some.inj hrun)).2]
      exact h
  | cons name names ih =>
      rcases Option.bind_eq_some_iff.1 hrun with ⟨⟨child, t₁⟩, hchild, hrun⟩
      exact ih (h.childOrCreate hchild) hrun

/-- A module for a namespace is a child that is marked afterwards. -/
theorem Ordered.namespaceModule (h : t.Ordered) {info : NamespaceInfo}
    (hrun : t.namespaceModule parent name info = some (id, t')) : t'.Ordered := by
  rcases Option.bind_eq_some_iff.1 hrun with ⟨m, _, hrun⟩
  rcases Option.bind_eq_some_iff.1 hrun with ⟨⟨child, t₁⟩, hchild, hrun⟩
  have h₁ := h.childOrCreate hchild
  simp only [Option.pure_def] at hrun
  split at hrun
  · rw [← (Prod.mk.inj (Option.some.inj hrun)).2]
    exact h₁
  · rw [← (Prod.mk.inj (Option.some.inj hrun)).2]
    exact h₁.update _ ⟨fun _ => rfl, fun _ => rfl, fun _ => rfl, fun _ => rfl, fun _ => rfl⟩

theorem Ordered.resolveModule (h : t.Ordered) {file : Path}
    (hrun : t.resolveModule file = some (id, t')) : t'.Ordered := by
  -- A file outside of the root or of a directory that is remembered makes no module.
  unfold ModuleTree.resolveModule at hrun
  split at hrun
  · rw [← (Prod.mk.inj (Option.some.inj hrun)).2]
    exact h
  · split at hrun
    · rw [← (Prod.mk.inj (Option.some.inj hrun)).2]
      exact h
    · rcases Option.bind_eq_some_iff.1 hrun with ⟨root, _, hrun⟩
      split at hrun
      · rw [← (Prod.mk.inj (Option.some.inj hrun)).2]
        exact h
      · rcases Option.bind_eq_some_iff.1 hrun with ⟨⟨child, t₁⟩, hchild, hrun⟩
        rw [← (Prod.mk.inj (Option.some.inj hrun)).2]
        -- The directories that are remembered list no module.
        exact fun p n c hc => h.descendOrCreate hchild p n c hc

/-- No request makes a child before its parent. -/
theorem Ordered.perform (h : t.Ordered) {request : Request}
    (hrun : t.perform request = some t') : t'.Ordered := by
  cases request with
  | resolve file =>
      rcases Option.map_eq_some_iff.1 hrun with ⟨⟨id, t₁⟩, hmade, rfl⟩
      exact h.resolveModule hmade
  | child parent name =>
      rcases Option.map_eq_some_iff.1 hrun with ⟨⟨id, t₁⟩, hmade, rfl⟩
      exact h.childOrCreate hmade
  | space parent name info =>
      rcases Option.map_eq_some_iff.1 hrun with ⟨⟨id, t₁⟩, hmade, rfl⟩
      exact h.namespaceModule hmade

/-- A request of a module that is there succeeds. -/
theorem Sound.perform (h : t.Sound) {request : Request}
    (hp : ∀ parent ∈ request.parent?, ∃ m, t.get? parent = some m) :
    ∃ t', t.perform request = some t' ∧ t.Enlarges t' := by
  cases request with
  | resolve file =>
      rcases h.resolveModule file with ⟨id, t', _, hrun, he, _⟩
      exact ⟨t', by rw [ModuleTree.perform, hrun]; rfl, he⟩
  | child parent name =>
      rcases hp parent rfl with ⟨m, hm⟩
      rcases h.childOrCreate parent m hm name with ⟨id, t', _, hrun, he, _⟩
      exact ⟨t', by rw [ModuleTree.perform, hrun]; rfl, he⟩
  | space parent name info =>
      rcases hp parent rfl with ⟨m, hm⟩
      rcases h.namespaceModule parent m hm name info with ⟨id, t', _, hrun, he, _⟩
      exact ⟨t', by rw [ModuleTree.perform, hrun]; rfl, he⟩

/-- A request that succeeds is made of a module that is there. -/
theorem exists_of_perform {request : Request} (hrun : t.perform request = some t')
    (hp : request.parent? = some parent) : ∃ m, t.get? parent = some m := by
  cases request with
  | resolve file => cases hp
  | child p name =>
      cases hp
      rcases Option.map_eq_some_iff.1 hrun with ⟨_, hrun, _⟩
      rcases Option.bind_eq_some_iff.1 hrun with ⟨m, hm, _⟩
      exact ⟨m, hm⟩
  | space p name info =>
      cases hp
      rcases Option.map_eq_some_iff.1 hrun with ⟨_, hrun, _⟩
      rcases Option.bind_eq_some_iff.1 hrun with ⟨m, hm, _⟩
      exact ⟨m, hm⟩

theorem Sound.exists_perform_iff (h : t.Sound) (request : Request) :
    (∃ t', t.perform request = some t') ↔
      ∀ parent ∈ request.parent?, ∃ m, t.get? parent = some m := by
  constructor
  · rintro ⟨t', hrun⟩ parent hp
    exact exists_of_perform hrun hp
  · intro hp
    rcases h.perform hp with ⟨t', hrun, _⟩
    exact ⟨t', hrun⟩

/-- What a request leaves is a later form of the tree. -/
theorem Sound.enlarges_of_perform (h : t.Sound) {request : Request}
    (hrun : t.perform request = some t') : t.Enlarges t' := by
  rcases h.perform fun parent hp => exists_of_perform hrun hp with ⟨t₁, hrun₁, he⟩
  rw [hrun, Option.some.injEq] at hrun₁
  exact hrun₁ ▸ he

/-- After any requests the tree is sound, and children come after their parents. -/
theorem sound_ordered_performAll (h : t.Sound) (ho : t.Ordered) (requests : List Request)
    (hrun : t.performAll requests = some t') : t'.Sound ∧ t'.Ordered := by
  induction requests generalizing t with
  | nil =>
      rw [← Option.some.inj hrun]
      exact ⟨h, ho⟩
  | cons request requests ih =>
      -- One request keeps both, and the requests behind it start from there.
      rw [performAll, List.foldlM_cons] at hrun
      rcases Option.bind_eq_some_iff.1 hrun with ⟨t₁, hstep, hrun⟩
      exact ih (h.enlarges_of_perform hstep).sound (ho.perform hstep) hrun

/-- Two modules with the same names are one. -/
theorem Sound.id_eq_of_childrenPath (h : t.Sound) {id' : ModuleId} {m m' : Module}
    (hm : t.get? id = some m) (hm' : t.get? id' = some m')
    (hpath : m.childrenPath = m'.childrenPath) : id = id' := by
  have hfound := h.found id m hm
  rw [hpath, h.found id' m' hm', Option.some.injEq] at hfound
  exact hfound.symm

/-- Below the root, the path of a module names the module that lists it. -/
theorem Sound.exists_parent (h : t.Sound) {m : Module} (hm : t.get? id = some m)
    (hroot : id ≠ rootId) :
    ∃ parent, t.find? m.path = some parent ∧ t.HasChild parent m.name id := by
  have hfound := h.found id m hm
  rw [h.childrenPath id m hm] at hfound
  by_cases hp : m.path = []
  · -- With nothing above it, the module would be found at the root.
    refine absurd ?_ hroot
    rw [hp, List.nil_append] at hfound
    rcases Option.bind_eq_some_iff.1 hfound with ⟨r, _, hfound⟩
    split at hfound
    · exact (Option.some.inj hfound).symm
    · cases hfound
  · rw [find?_append t m.path m.name hp] at hfound
    rcases Option.bind_eq_some_iff.1 hfound with ⟨parent, hparent, hfound⟩
    rcases Option.bind_eq_some_iff.1 hfound with ⟨mp, hmp, hchild⟩
    exact ⟨parent, hparent, mp, hmp, hchild⟩

/-- A module below the root is listed once: by the module that its path names, under its own
    name. -/
theorem Sound.hasChild_iff (h : t.Sound) {m : Module} (hm : t.get? id = some m)
    (hroot : id ≠ rootId) :
    ∃ parent, t.find? m.path = some parent ∧
      ∀ p n, t.HasChild p n id ↔ p = parent ∧ n = m.name := by
  rcases h.exists_parent hm hroot with ⟨parent, hparent, hchild⟩
  refine ⟨parent, hparent, fun p n => ⟨?_, ?_⟩⟩
  · rintro ⟨mp, hmp, hc⟩
    -- Whoever lists the module has the names that its path has, and names lead to one module.
    rcases h.child p mp n id hmp hc with ⟨m', hm', hname, hpath⟩
    rw [hm, Option.some.injEq] at hm'
    subst hm'
    have hfound := h.found p mp hmp
    rw [← hpath, hparent, Option.some.injEq] at hfound
    exact ⟨hfound.symm, hname.symm⟩
  · rintro ⟨rfl, rfl⟩
    exact hchild

end

/-- After any requests to a new tree, names and numbers lead to the same modules, no two modules
    have the same names, and every module but the root is listed once: by one module that was made
    before it, under its own name. A request fails only for a module that is not there, and no
    request moves or renames a module. -/
theorem paths_identify_modules (name : String) (baseDir : Path) (passthrough : List String)
    (requests : List Request) (t : ModuleTree)
    (hrun : (make name baseDir passthrough).performAll requests = some t) :
    (∀ id m, t.get? id = some m →
      m.childrenPath = m.path ++ [m.name] ∧ t.find? m.childrenPath = some id) ∧
    (∀ path id, t.find? path = some id → ∃ m, t.get? id = some m ∧ m.childrenPath = path) ∧
    (∀ id id' m m', t.get? id = some m → t.get? id' = some m' →
      m.childrenPath = m'.childrenPath → id = id') ∧
    (∀ id m, t.get? id = some m → id ≠ rootId →
      ∃ parent, ∀ p n, t.HasChild p n id ↔ p = parent ∧ n = m.name) ∧
    (∀ parent n id, t.HasChild parent n id →
      parent.index < id.index ∧ ∃ m, t.get? id = some m) ∧
    ∀ request, ((∃ t', t.perform request = some t') ↔
        ∀ parent ∈ request.parent?, ∃ m, t.get? parent = some m) ∧
      ∀ t', t.perform request = some t' → ∀ id m, t.get? id = some m →
        ∃ m', t'.get? id = some m' ∧ m'.name = m.name ∧ m'.path = m.path ∧
          m'.childrenPath = m.childrenPath ∧ m'.baseDir = m.baseDir := by
  -- All of it follows from soundness, except that parents come first.
  rcases sound_ordered_performAll (sound_make name baseDir passthrough)
    (ordered_make name baseDir passthrough) requests hrun with ⟨hs, ho⟩
  refine ⟨fun id m hm => ⟨hs.childrenPath id m hm, hs.found id m hm⟩, hs.get?_of_find?,
    fun id id' m m' => hs.id_eq_of_childrenPath, fun id m hm hroot => ?_,
    fun parent n id hc => ⟨ho parent n id hc, ?_⟩,
    fun request => ⟨hs.exists_perform_iff request, fun t' hstep id m hm => ?_⟩⟩
  · rcases hs.hasChild_iff hm hroot with ⟨parent, _, hiff⟩
    exact ⟨parent, hiff⟩
  · rcases hc with ⟨m, hm, hid⟩
    rcases hs.child parent m n id hm hid with ⟨m', hm', _, _⟩
    exact ⟨m', hm'⟩
  · rcases (hs.enlarges_of_perform hstep).grows.modules id m hm with ⟨m', hm', hg⟩
    exact ⟨m', hm', hg.name, hg.path, hg.childrenPath, hg.baseDir⟩

/-- A directory and a namespace of the same name share a module, and a namespace in it makes another
    below it. -/
theorem paths_identify_modules_shared :
    ∃ t m, (make "p" ⟨"/p"⟩ ["src"]).performAll
        [.resolve ⟨"/p/src/a/x.ts"⟩, .space rootId "a" default, .space ⟨1⟩ "b" default,
          .child ⟨2⟩ "a"] = some t ∧
      t.get? ⟨2⟩ = some m ∧ t.find? ["p", "a", "b"] = some ⟨2⟩ ∧
      ∃ parent, ∀ p n, t.HasChild p n ⟨2⟩ ↔ p = parent ∧ n = m.name := by
  have hrun : ((make "p" ⟨"/p"⟩ ["src"]).performAll
      [.resolve ⟨"/p/src/a/x.ts"⟩, .space rootId "a" default, .space ⟨1⟩ "b" default,
        .child ⟨2⟩ "a"]).any
      (fun t => (t.get? ⟨2⟩).any fun m => m.childrenPath == ["p", "a", "b"]) = true := by
    decide +kernel
  rcases (Option.any_eq_true _ _).1 hrun with ⟨t, ht, hrun⟩
  rcases (Option.any_eq_true _ _).1 hrun with ⟨m, hm, hpath⟩
  rcases paths_identify_modules "p" ⟨"/p"⟩ ["src"] _ t ht with ⟨hfound, _, _, hlisted, _⟩
  rw [beq_iff_eq] at hpath
  exact ⟨t, m, ht, hm, hpath ▸ (hfound ⟨2⟩ m hm).2, hlisted ⟨2⟩ m hm (by decide)⟩

end ModuleTree

end DocModel
