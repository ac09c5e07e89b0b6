import DocModel.Module.Tree
import DocModel.Proofs.Table

/-!
# Growth of module trees

A module tree only ever grows. A module that is there keeps its number, its name and its place, and
keeps the children it has; what changes is that children are added, and that declarations and
exports are put into modules. Whatever names lead to a module today lead to it for ever.

The other half is that the tree can be walked at all. A module is found by its names from the root,
through the tables of children on the way, while it is addressed by a number in a list; `Sound` says
that the two agree. Every operation keeps it, because a new module is appended to the list and
entered in the table of its parent at the same time.

Where modules are and what they contain are kept apart. `contentAt` forgets the place of a module,
and takes a module that is not there for an empty one, so that making a module changes no content
at all.

## Main definitions

* `Module.content`, `ModuleTree.contentAt`: A module without its place.
* `Module.Grows`, `ModuleTree.Grows`: A later form of a module and of a tree.
* `ModuleTree.Sound`: Numbers and names lead to the same modules.
* `ModuleTree.Enlarges`: A grown sound tree with the same content.

## Theorems

* `ModuleTree.Grows.find?`: Names that lead to a module lead to it in every later tree.
* `ModuleTree.Sound.childOrCreate`, `ModuleTree.Sound.namespaceModule`,
  `ModuleTree.Sound.resolveModule`: The operations that make modules succeed, and leave a grown
  sound tree with the same content.
* `ModuleTree.Sound.update`: Changing what is in a module keeps a tree sound.
-/

namespace DocModel

namespace Module

/-- A module with nothing in it and no place. -/
def blank : Module := make "" [] ⟨""⟩

/-- What is in a module, without the place of the module. -/
def content (m : Module) : Module :=
  { blank with
    classes := m.classes, interfaces := m.interfaces, enums := m.enums, types := m.types
    functions := m.functions, constants := m.constants, exports := m.exports }

/-- A later form of a module: it stands where it stood, and has the children it had. -/
structure Grows (m m' : Module) : Prop where
  name : m'.name = m.name
  path : m'.path = m.path
  childrenPath : m'.childrenPath = m.childrenPath
  baseDir : m'.baseDir = m.baseDir
  modules : ∀ name child, m.modules.find? name = some child → m'.modules.find? name = some child

theorem Grows.refl (m : Module) : m.Grows m := ⟨rfl, rfl, rfl, rfl, fun _ _ h => h⟩

theorem Grows.trans {m m' m'' : Module} (h : m.Grows m') (h' : m'.Grows m'') : m.Grows m'' :=
  ⟨h'.name.trans h.name, h'.path.trans h.path, h'.childrenPath.trans h.childrenPath,
    h'.baseDir.trans h.baseDir, fun n c hc => h'.modules n c (h.modules n c hc)⟩

end Module

namespace ModuleTree

/-- What is in the module of a number; nothing, if there is no such module. -/
def contentAt (t : ModuleTree) (id : ModuleId) : Module :=
  ((t.get? id).map Module.content).getD Module.blank

/-- A later form of a tree: every module is still there, in a later form. -/
structure Grows (t t' : ModuleTree) : Prop where
  passthrough : t'.passthrough = t.passthrough
  modules : ∀ id m, t.get? id = some m → ∃ m', t'.get? id = some m' ∧ m.Grows m'

theorem Grows.refl (t : ModuleTree) : t.Grows t := ⟨rfl, fun _ m h => ⟨m, h, Module.Grows.refl m⟩⟩

theorem Grows.trans {t t' t'' : ModuleTree} (h : t.Grows t') (h' : t'.Grows t'') : t.Grows t'' := by
  refine ⟨h'.passthrough.trans h.passthrough, fun id m hm => ?_⟩
  rcases h.modules id m hm with ⟨m', hm', hg⟩
  rcases h'.modules id m' hm' with ⟨m'', hm'', hg'⟩
  exact ⟨m'', hm'', hg.trans hg'⟩

/-- Names that lead on from a module lead on to the same one later. -/
theorem Grows.descend? {t t' : ModuleTree} (h : t.Grows t') (names : List String)
    (id target : ModuleId) (hd : t.descend? id names = some target) :
    t'.descend? id names = some target := by
  induction names generalizing id with
  | nil => exact hd
  | cons name names ih =>
      simp only [ModuleTree.descend?, Option.bind_eq_bind, Option.bind_eq_some_iff] at hd ⊢
      rcases hd with ⟨m, hm, child, hc, hd⟩
      -- The module on the way has the child that it had.
      rcases h.modules id m hm with ⟨m', hm', hg⟩
      exact ⟨m', hm', child, hg.modules name child hc, ih child hd⟩

/-- Names that lead to a module lead to it in every later tree. -/
theorem Grows.find? {t t' : ModuleTree} (h : t.Grows t') (path : List String) (target : ModuleId)
    (hf : t.find? path = some target) : t'.find? path = some target := by
  cases path with
  | nil => exact hf
  | cons name names =>
      simp only [ModuleTree.find?, root?, Option.bind_eq_bind, Option.bind_eq_some_iff] at hf ⊢
      rcases hf with ⟨root, hroot, hf⟩
      rcases h.modules rootId root hroot with ⟨root', hroot', hg⟩
      refine ⟨root', hroot', ?_⟩
      rw [hg.name]
      -- The first name is that of the root, which has not changed.
      by_cases hn : name = root.name
      · rw [if_pos hn] at hf ⊢
        exact h.descend? names rootId target hf
      · rw [if_neg hn] at hf
        cases hf

/-- One name more leads to a child of where the names before it lead. -/
theorem descend?_append (t : ModuleTree) (names : List String) (name : String) (id : ModuleId) :
    t.descend? id (names ++ [name]) =
      (t.descend? id names).bind fun c => (t.get? c).bind (·.modules.find? name) := by
  induction names generalizing id with
  | nil =>
      simp only [List.nil_append, descend?, Option.bind_eq_bind, Option.bind_some]
      cases t.get? id with
      | none => rfl
      | some m =>
          simp only [Option.bind_some]
          cases m.modules.find? name <;> rfl
  | cons first names ih =>
      simp only [List.cons_append, descend?, Option.bind_eq_bind, ih, Option.bind_assoc]

/-- The last name of a path is looked up in the module that the names before it lead to. -/
theorem find?_append (t : ModuleTree) (path : List String) (name : String) (hp : path ≠ []) :
    t.find? (path ++ [name]) =
      (t.find? path).bind fun c => (t.get? c).bind (·.modules.find? name) := by
  cases path with
  | nil => exact absurd rfl hp
  | cons first names =>
      simp only [List.cons_append, find?, Option.bind_eq_bind]
      cases t.root? with
      | none => rfl
      | some root =>
          simp only [Option.bind_some]
          by_cases hn : first = root.name
          · rw [if_pos hn, if_pos hn, descend?_append]
          · rw [if_neg hn, if_neg hn]
            rfl

/-- One module is changed, and the others are as they were. -/
theorem get?_update (t : ModuleTree) (id id' : ModuleId) (change : Module → Module) :
    (t.update id change).get? id' = if id' = id then (t.get? id).map change else t.get? id' := by
  unfold update get?
  simp only [Array.getElem?_modify]
  by_cases h : id' = id
  · rw [if_pos h, if_pos (by rw [h]), h]
  · rw [if_neg h, if_neg]
    intro hi
    exact h (by cases id; cases id'; exact congrArg ModuleId.mk hi.symm)

/-- A change that leaves the module what it is leaves the tree what it is. -/
theorem update_eq_self {t : ModuleTree} {id : ModuleId} {change : Module → Module}
    (h : ∀ m, t.get? id = some m → change m = m) : t.update id change = t := by
  have hmodify : t.modules.modify id.index change = t.modules := by
    refine Array.ext_getElem? fun i => ?_
    rw [Array.getElem?_modify]
    split
    · rename_i hi
      rw [← hi]
      cases hm : t.modules[id.index]? with
      | none => rfl
      | some m => rw [Option.map_some, h m hm]
    · rfl
  rw [update, hmodify]

theorem update_of_get?_eq_none {t : ModuleTree} {id : ModuleId} {change : Module → Module}
    (h : t.get? id = none) : t.update id change = t := by
  refine update_eq_self fun m hm => ?_
  rw [h] at hm
  cases hm

/-- The next number is not in use. -/
theorem get?_size (t : ModuleTree) : t.get? ⟨t.modules.size⟩ = none := by
  simp only [get?, Array.getElem?_eq_none_iff, Nat.le_refl]

/-- The child has the next number, and the parent knows it by its name. -/
theorem get?_addChild (t : ModuleTree) (parent id : ModuleId) (m child : Module)
    (hp : t.get? parent = some m) :
    (t.addChild parent child).get? id =
      if id = parent then some { m with modules := m.modules.insert child.name ⟨t.modules.size⟩ }
      else if id = ⟨t.modules.size⟩ then some child else t.get? id := by
  rcases id with ⟨i⟩
  rcases parent with ⟨j⟩
  -- The parent is there, so its number is not the next one.
  have hlt : j < t.modules.size := by
    rw [get?, Array.getElem?_eq_some_iff] at hp
    exact hp.1
  simp only [get?] at hp
  simp only [addChild, get?, Array.getElem?_modify, Array.getElem?_push, ModuleId.mk.injEq]
  -- The parent, and any other number.
  by_cases hij : i = j
  · subst hij
    rw [if_pos rfl, if_pos rfl, if_neg (by omega), hp]
    rfl
  · rw [if_neg (fun h => hij h.symm), if_neg hij]

/-- Numbers and names lead to the same modules. -/
structure Sound (t : ModuleTree) : Prop where
  /-- There is a root, and nothing is above it. -/
  root : ∃ m, t.root? = some m ∧ m.path = []
  /-- The children path of a module is its path and its name. -/
  childrenPath : ∀ id m, t.get? id = some m → m.childrenPath = m.path ++ [m.name]
  /-- The names of a module lead to it. -/
  found : ∀ id m, t.get? id = some m → t.find? m.childrenPath = some id
  /-- A child is there under its name, below its parent. -/
  child : ∀ id m name c, t.get? id = some m → m.modules.find? name = some c →
    ∃ m', t.get? c = some m' ∧ m'.name = name ∧ m'.path = m.childrenPath
  /-- The modules of directories are there. -/
  directories : ∀ dir id, t.directories.find? dir = some id → ∃ m, t.get? id = some m

theorem Sound.childrenPath_ne_nil {t : ModuleTree} (h : t.Sound) (id : ModuleId) (m : Module)
    (hm : t.get? id = some m) : m.childrenPath ≠ [] := by
  rw [h.childrenPath id m hm]
  simp only [ne_eq, List.append_eq_nil_iff, List.cons_ne_self, and_false, not_false_eq_true]

/-- Names that lead somewhere lead to a module that stands there. -/
theorem Sound.get?_of_descend? {t : ModuleTree} (h : t.Sound) (names : List String)
    (id target : ModuleId) (m : Module) (hm : t.get? id = some m)
    (hd : t.descend? id names = some target) :
    ∃ m', t.get? target = some m' ∧ m'.childrenPath = m.childrenPath ++ names := by
  induction names generalizing id m with
  | nil =>
      rw [← Option.some.inj hd]
      exact ⟨m, hm, (List.append_nil _).symm⟩
  | cons name names ih =>
      rw [descend?, hm, Option.bind_eq_bind, Option.bind_some] at hd
      rcases Option.bind_eq_some_iff.1 hd with ⟨child, hc, hd⟩
      -- The child stands below, and the rest of the names lead on from it.
      rcases h.child id m name child hm hc with ⟨m', hm', hname, hpath⟩
      rcases ih child m' hm' hd with ⟨m'', hm'', hplace⟩
      refine ⟨m'', hm'', ?_⟩
      rw [hplace, h.childrenPath child m' hm', hname, hpath, List.append_assoc,
        List.singleton_append]

/-- A module that is found by its names stands there. -/
theorem Sound.get?_of_find? {t : ModuleTree} (h : t.Sound) (path : List String) (target : ModuleId)
    (hf : t.find? path = some target) : ∃ m, t.get? target = some m ∧ m.childrenPath = path := by
  cases path with
  | nil => exact absurd hf (by simp only [find?, reduceCtorEq, not_false_eq_true])
  | cons name names =>
      rcases Option.bind_eq_some_iff.1 hf with ⟨root, hroot, hf⟩
      split at hf
      · rename_i hname
        rcases h.get?_of_descend? names rootId target root hroot hf with ⟨m, hm, hplace⟩
        -- Nothing is above the root.
        rcases h.root with ⟨root', hroot', hpath⟩
        rw [hroot, Option.some.injEq] at hroot'
        refine ⟨m, hm, ?_⟩
        rw [hplace, h.childrenPath rootId root hroot, hroot', hpath, hname, hroot',
          List.nil_append, List.singleton_append]
      · cases hf

/-- The tree of a new project has its root and nothing else. -/
theorem eq_root_of_get?_make {name : String} {baseDir : Path} {passthrough : List String}
    {id : ModuleId} {m : Module} (hm : (make name baseDir passthrough).get? id = some m) :
    id = rootId ∧ m = Module.make name [] baseDir := by
  rcases id with ⟨i⟩
  simp only [make, get?, List.getElem?_toArray] at hm
  cases i with
  | zero =>
      simp only [List.getElem?_cons_zero, Option.some.injEq] at hm
      exact ⟨rfl, hm.symm⟩
  | succ i => exact absurd hm (by simp only [List.getElem?_cons_succ, List.getElem?_nil,
      reduceCtorEq, not_false_eq_true])

theorem contentAt_make (name : String) (baseDir : Path) (passthrough : List String)
    (id : ModuleId) : (make name baseDir passthrough).contentAt id = Module.blank := by
  unfold contentAt
  cases hm : (make name baseDir passthrough).get? id with
  | none => rfl
  | some m =>
      rw [(eq_root_of_get?_make hm).2]
      rfl

theorem sound_make (name : String) (baseDir : Path) (passthrough : List String) :
    (make name baseDir passthrough).Sound := by
  refine ⟨⟨_, rfl, rfl⟩, fun id m hm => ?_, fun id m hm => ?_, fun id m n c hm hc => ?_,
    fun dir id hd => ?_⟩
  · rw [(eq_root_of_get?_make hm).2]
    rfl
  · rw [(eq_root_of_get?_make hm).1, (eq_root_of_get?_make hm).2]
    simp only [Module.make, List.nil_append, find?, root?, get?, make, rootId,
      List.getElem?_toArray, List.getElem?_cons_zero, Option.bind_eq_bind, Option.bind_some,
      if_true, descend?]
  · rw [(eq_root_of_get?_make hm).2] at hc
    exact absurd hc (by simp only [Module.make, Table.find?_empty, reduceCtorEq,
      not_false_eq_true])
  · exact absurd hd (by simp only [make, Table.find?_empty, reduceCtorEq, not_false_eq_true])

section AddChild

variable {t : ModuleTree} {parent : ModuleId} {m : Module} {name : String} (baseDir : Path)

/-- A tree with a new child is a later form of the tree. -/
theorem grows_addChild (hp : t.get? parent = some m) (hn : m.modules.find? name = none) :
    t.Grows (t.addChild parent (Module.make name m.childrenPath baseDir)) := by
  refine ⟨rfl, fun id m' hm' => ?_⟩
  rw [get?_addChild t parent id m _ hp]
  by_cases hid : id = parent
  · rw [if_pos hid]
    rw [hid, hp, Option.some.injEq] at hm'
    subst hm'
    exact ⟨_, rfl, rfl, rfl, rfl, rfl, fun n c hc => Table.find?_insert_of_find? _ _ _ _ _ hn hc⟩
  · rw [if_neg hid, if_neg, hm']
    · exact ⟨m', rfl, Module.Grows.refl m'⟩
    · -- The number of the new module was not in use.
      rintro rfl
      rw [get?_size] at hm'
      cases hm'

/-- A new child changes no content, as there is nothing in it. -/
theorem contentAt_addChild (hp : t.get? parent = some m) (id : ModuleId) :
    (t.addChild parent (Module.make name m.childrenPath baseDir)).contentAt id =
      t.contentAt id := by
  unfold contentAt
  rw [get?_addChild t parent id m _ hp]
  by_cases hid : id = parent
  · rw [if_pos hid, hid, hp]
    rfl
  · rw [if_neg hid]
    -- The new module is empty, as a missing one is.
    by_cases hs : id = ⟨t.modules.size⟩
    · rw [if_pos hs, hs, get?_size]
      rfl
    · rw [if_neg hs]

/-- A module of a tree with a new child is a later form of an old one, with no child but those it
    had and the new one, or it is the new child. -/
theorem get?_addChild_cases (hp : t.get? parent = some m) (hn : m.modules.find? name = none)
    (id : ModuleId) (m' : Module)
    (hm' : (t.addChild parent (Module.make name m.childrenPath baseDir)).get? id = some m') :
    (∃ m₀, t.get? id = some m₀ ∧ m₀.Grows m' ∧ ∀ n c, m'.modules.find? n = some c →
      m₀.modules.find? n = some c ∨ m₀ = m ∧ n = name ∧ c = ⟨t.modules.size⟩) ∨
    id = ⟨t.modules.size⟩ ∧ m' = Module.make name m.childrenPath baseDir := by
  rw [get?_addChild t parent id m _ hp] at hm'
  -- The parent is a later form with the child in it.
  by_cases hid : id = parent
  · rw [if_pos hid, Option.some.injEq] at hm'
    subst hm'
    refine Or.inl ⟨m, by rw [hid, hp], ?_, fun n c hc => ?_⟩
    · exact ⟨rfl, rfl, rfl, rfl, fun n c hc => Table.find?_insert_of_find? _ _ _ _ _ hn hc⟩
    · simp only [Table.find?_insert, Module.make] at hc
      by_cases hnn : n = name
      · rw [if_pos hnn, Option.some.injEq] at hc
        exact Or.inr ⟨rfl, hnn, hc.symm⟩
      · rw [if_neg hnn] at hc
        exact Or.inl hc
  · rw [if_neg hid] at hm'
    by_cases hs : id = ⟨t.modules.size⟩
    · rw [if_pos hs, Option.some.injEq] at hm'
      exact Or.inr ⟨hs, hm'.symm⟩
    · rw [if_neg hs] at hm'
      exact Or.inl ⟨m', hm', Module.Grows.refl m', fun n c hc => Or.inl hc⟩

theorem get?_addChild_size (hp : t.get? parent = some m) (child : Module) :
    (t.addChild parent child).get? ⟨t.modules.size⟩ = some child := by
  rw [get?_addChild t parent _ m _ hp, if_neg, if_pos rfl]
  rintro rfl
  rw [get?_size] at hp
  cases hp

/-- A new child keeps a tree sound. The names of the modules that are there lead where they led,
    since the tree grows; the names of the child lead to its parent first, and on to it from there.
-/
theorem Sound.addChild (h : t.Sound) (hp : t.get? parent = some m)
    (hn : m.modules.find? name = none) :
    (t.addChild parent (Module.make name m.childrenPath baseDir)).Sound := by
  have hg := grows_addChild baseDir hp hn
  have hcases := get?_addChild_cases baseDir hp hn
  refine ⟨?_, fun id m' hm' => ?_, fun id m' hm' => ?_, fun id m' n c hm' hc => ?_,
    fun dir id hd => ?_⟩
  · rcases h.root with ⟨r, hr, hrp⟩
    rcases hg.modules rootId r hr with ⟨r', hr', hrg⟩
    exact ⟨r', hr', hrg.path.trans hrp⟩
  · rcases hcases id m' hm' with ⟨m₀, hm₀, hmg, _⟩ | ⟨_, rfl⟩
    · rw [hmg.childrenPath, hmg.path, hmg.name]
      exact h.childrenPath id m₀ hm₀
    · rfl
  · -- Old names lead where they led. The new ones lead to the parent first.
    rcases hcases id m' hm' with ⟨m₀, hm₀, hmg, _⟩ | ⟨rfl, rfl⟩
    · rw [hmg.childrenPath]
      exact hg.find? _ _ (h.found id m₀ hm₀)
    · change (t.addChild parent (Module.make name m.childrenPath baseDir)).find?
        (m.childrenPath ++ [name]) = _
      rw [find?_append _ _ _ (h.childrenPath_ne_nil parent m hp),
        hg.find? _ _ (h.found parent m hp), Option.bind_some, get?_addChild t parent parent m _ hp,
        if_pos rfl, Option.bind_some]
      exact Table.find?_insert_self _ _ _
  · -- A module has the children it had, and the parent has the new one besides.
    rcases hcases id m' hm' with ⟨m₀, hm₀, hmg, hch⟩ | ⟨_, rfl⟩
    · rw [hmg.childrenPath]
      rcases hch n c hc with hc | ⟨rfl, rfl, rfl⟩
      · rcases h.child id m₀ n c hm₀ hc with ⟨mc, hmc, hname, hpath⟩
        rcases hg.modules c mc hmc with ⟨mc', hmc', hcg⟩
        exact ⟨mc', hmc', hcg.name.trans hname, hcg.path.trans hpath⟩
      · exact ⟨_, get?_addChild_size hp _, rfl, rfl⟩
    · exact absurd hc (by simp only [Module.make, Table.find?_empty, reduceCtorEq,
        not_false_eq_true])
  · rcases h.directories dir id hd with ⟨md, hmd⟩
    rcases hg.modules id md hmd with ⟨md', hmd', _⟩
    exact ⟨md', hmd'⟩

end AddChild

/-- A sound later form of a tree, in which modules may have been made but nothing was put into any,
    and no directory was forgotten. -/
structure Enlarges (t t' : ModuleTree) : Prop where
  sound : t'.Sound
  grows : t.Grows t'
  content : ∀ id, t'.contentAt id = t.contentAt id
  remembers : ∀ dir, t.directories.contains dir = true → t'.directories.contains dir = true

theorem Sound.enlarges {t : ModuleTree} (h : t.Sound) : t.Enlarges t :=
  ⟨h, Grows.refl t, fun _ => rfl, fun _ hd => hd⟩

theorem Enlarges.trans {t t' t'' : ModuleTree} (h : t.Enlarges t') (h' : t'.Enlarges t'') :
    t.Enlarges t'' :=
  ⟨h'.sound, h.grows.trans h'.grows, fun id => (h'.content id).trans (h.content id),
    fun dir hd => h'.remembers dir (h.remembers dir hd)⟩

/-- A child can always be had, and its names are those of its parent with its own behind them. -/
theorem Sound.childOrCreate {t : ModuleTree} (h : t.Sound) (parent : ModuleId) (m : Module)
    (hp : t.get? parent = some m) (name : String) :
    ∃ id t' m', t.childOrCreate parent name = some (id, t') ∧ t.Enlarges t' ∧
      t'.get? id = some m' ∧ m'.childrenPath = m.childrenPath ++ [name] := by
  -- There is such a child, or one is made.
  cases hn : m.modules.find? name with
  | some id =>
      rcases h.child parent m name id hp hn with ⟨m', hm', hname, hpath⟩
      refine ⟨id, t, m', ?_, h.enlarges, hm', ?_⟩
      · simp only [ModuleTree.childOrCreate, hp, hn, Option.bind_eq_bind, Option.bind_some,
          Option.pure_def]
      · rw [h.childrenPath id m' hm', hname, hpath]
  | none =>
      refine ⟨⟨t.modules.size⟩, t.addChild parent (Module.make name m.childrenPath
        (m.baseDir.join ⟨name⟩)), Module.make name m.childrenPath (m.baseDir.join ⟨name⟩), ?_,
        ⟨h.addChild _ hp hn, grows_addChild _ hp hn, contentAt_addChild _ hp, fun _ hd => hd⟩,
        get?_addChild_size hp _, rfl⟩
      simp only [ModuleTree.childOrCreate, hp, hn, Option.bind_eq_bind, Option.bind_some,
        Option.pure_def]

/-- A module can be had below another under any names. -/
theorem Sound.descendOrCreate {t : ModuleTree} (h : t.Sound) (id : ModuleId) (m : Module)
    (hm : t.get? id = some m) (names : List String) :
    ∃ id' t' m', t.descendOrCreate id names = some (id', t') ∧ t.Enlarges t' ∧
      t'.get? id' = some m' ∧ m'.childrenPath = m.childrenPath ++ names := by
  induction names generalizing t id m with
  | nil => exact ⟨id, t, m, rfl, h.enlarges, hm, by rw [List.append_nil]⟩
  | cons name names ih =>
      rcases h.childOrCreate id m hm name with ⟨child, t₁, m₁, hc, he₁, hm₁, hpath₁⟩
      rcases ih he₁.sound child m₁ hm₁ with ⟨id', t', m', hd, he, hm', hpath⟩
      refine ⟨id', t', m', ?_, he₁.trans he, hm', ?_⟩
      · simp only [ModuleTree.descendOrCreate, hc, Option.bind_eq_bind, Option.bind_some, hd]
      · rw [hpath, hpath₁, List.append_assoc, List.singleton_append]

/-- What is remembered of directories is no part of the tree. -/
theorem Sound.remember {t : ModuleTree} (h : t.Sound) (dir : Path) (id : ModuleId) (m : Module)
    (hm : t.get? id = some m) :
    t.Enlarges { t with directories := t.directories.insert dir id } := by
  have hg : t.Grows { t with directories := t.directories.insert dir id } :=
    ⟨rfl, fun _ m' hm' => ⟨m', hm', Module.Grows.refl m'⟩⟩
  refine ⟨⟨h.root, h.childrenPath, fun id' m' hm' => hg.find? _ _ (h.found id' m' hm'), h.child,
    fun dir' id' hd => ?_⟩, hg, fun _ => rfl,
    fun _ hd => Table.contains_insert_of_contains _ _ _ hd⟩
  rcases Table.find?_insert_cases _ _ _ _ _ hd with rfl | hd
  · exact ⟨m, hm⟩
  · exact h.directories dir' id' hd

/-- Every file has a module. -/
theorem Sound.resolveModule {t : ModuleTree} (h : t.Sound) (file : Path) :
    ∃ id t' m', t.resolveModule file = some (id, t') ∧ t.Enlarges t' ∧ t'.get? id = some m' := by
  rcases h.root with ⟨root, hroot, _⟩
  unfold ModuleTree.resolveModule
  cases file.parent? with
  | none => exact ⟨rootId, t, root, rfl, h.enlarges, hroot⟩
  | some dir =>
      simp only []
      -- The directory has been asked for before, or it has not.
      cases hd : t.directories.find? dir with
      | some id =>
          rcases h.directories dir id hd with ⟨m, hm⟩
          exact ⟨id, t, m, rfl, h.enlarges, hm⟩
      | none =>
          simp only [hroot, Option.bind_eq_bind, Option.bind_some]
          -- A directory outside of the root counts as the root.
          cases t.moduleNames? root.baseDir dir with
          | none => exact ⟨rootId, t, root, rfl, h.enlarges, hroot⟩
          | some names =>
              rcases h.descendOrCreate rootId root hroot names with ⟨id, t', m', hn, he, hm', _⟩
              refine ⟨id, { t' with directories := t'.directories.insert dir id }, m', ?_,
                he.trans (he.sound.remember dir id m' hm'), hm'⟩
              simp only [hn, Option.bind_some, Option.pure_def]

/-- A change that leaves a module at its place, with its children. -/
structure KeepsPlace (change : Module → Module) : Prop where
  name : ∀ m, (change m).name = m.name
  path : ∀ m, (change m).path = m.path
  childrenPath : ∀ m, (change m).childrenPath = m.childrenPath
  baseDir : ∀ m, (change m).baseDir = m.baseDir
  modules : ∀ m, (change m).modules = m.modules

/-- A declaration does not move a module. -/
theorem keepsPlace_addDeclaration (d : Declaration) : KeepsPlace (·.addDeclaration d) := by
  refine ⟨fun m => ?_, fun m => ?_, fun m => ?_, fun m => ?_, fun m => ?_⟩ <;> cases d <;> rfl

theorem keepsPlace_exports (file : String) (exports : FileExports) :
    KeepsPlace fun m => { m with exports := m.exports.insert file exports } :=
  ⟨fun _ => rfl, fun _ => rfl, fun _ => rfl, fun _ => rfl, fun _ => rfl⟩

/-- A changed tree is a later form of the tree, if the change keeps places. -/
theorem grows_update (t : ModuleTree) (id : ModuleId) (change : Module → Module)
    (hk : KeepsPlace change) : t.Grows (t.update id change) := by
  refine ⟨rfl, fun id' m hm => ?_⟩
  rw [get?_update]
  by_cases hid : id' = id
  · rw [if_pos hid, ← hid, hm]
    exact ⟨change m, rfl, hk.name m, hk.path m, hk.childrenPath m, hk.baseDir m,
      fun n c hc => by rw [hk.modules, hc]⟩
  · rw [if_neg hid]
    exact ⟨m, hm, Module.Grows.refl m⟩

/-- A module of the changed tree is a later form of an old one. -/
theorem get?_update_cases (t : ModuleTree) (id : ModuleId) (change : Module → Module)
    (hk : KeepsPlace change) (id' : ModuleId) (m' : Module)
    (hm' : (t.update id change).get? id' = some m') :
    ∃ m, t.get? id' = some m ∧ m.Grows m' ∧ m'.modules = m.modules := by
  rw [get?_update] at hm'
  by_cases hid : id' = id
  · rw [if_pos hid, ← hid, Option.map_eq_some_iff] at hm'
    rcases hm' with ⟨m, hm, rfl⟩
    exact ⟨m, hm, ⟨hk.name m, hk.path m, hk.childrenPath m, hk.baseDir m,
      fun n c hc => by rw [hk.modules, hc]⟩, hk.modules m⟩
  · rw [if_neg hid] at hm'
    exact ⟨m', hm', Module.Grows.refl m', rfl⟩

/-- Changing what is in a module keeps a tree sound. -/
theorem Sound.update {t : ModuleTree} (h : t.Sound) (id : ModuleId) (change : Module → Module)
    (hk : KeepsPlace change) : (t.update id change).Sound := by
  have hg := grows_update t id change hk
  have hcases := get?_update_cases t id change hk
  refine ⟨?_, fun i m' hm' => ?_, fun i m' hm' => ?_, fun i m' n c hm' hc => ?_, fun dir i hd => ?_⟩
  · rcases h.root with ⟨r, hr, hrp⟩
    rcases hg.modules rootId r hr with ⟨r', hr', hrg⟩
    exact ⟨r', hr', hrg.path.trans hrp⟩
  · rcases hcases i m' hm' with ⟨m, hm, hmg, _⟩
    rw [hmg.childrenPath, hmg.path, hmg.name]
    exact h.childrenPath i m hm
  · rcases hcases i m' hm' with ⟨m, hm, hmg, _⟩
    rw [hmg.childrenPath]
    exact hg.find? _ _ (h.found i m hm)
  · rcases hcases i m' hm' with ⟨m, hm, hmg, hmods⟩
    rw [hmods] at hc
    rcases h.child i m n c hm hc with ⟨mc, hmc, hname, hpath⟩
    rcases hg.modules c mc hmc with ⟨mc', hmc', hcg⟩
    exact ⟨mc', hmc', hcg.name.trans hname, by rw [hcg.path, hpath, hmg.childrenPath]⟩
  · -- The modules of directories are there, in a later form.
    rcases h.directories dir i hd with ⟨md, hmd⟩
    rcases hg.modules i md hmd with ⟨md', hmd', _⟩
    exact ⟨md', hmd'⟩

/-- The module of a namespace can always be had, and its names are those of the module around it
    with its own behind them. -/
theorem Sound.namespaceModule {t : ModuleTree} (h : t.Sound) (parent : ModuleId) (m : Module)
    (hp : t.get? parent = some m) (name : String) (info : NamespaceInfo) :
    ∃ id t' m', t.namespaceModule parent name info = some (id, t') ∧ t.Enlarges t' ∧
      t'.get? id = some m' ∧ m'.childrenPath = m.childrenPath ++ [name] := by
  rcases h.childOrCreate parent m hp name with ⟨id, t₁, m₁, hc, he, hm₁, hpath⟩
  -- A module that was there keeps what it stood for.
  by_cases hn : m.modules.contains name
  · refine ⟨id, t₁, m₁, ?_, he, hm₁, hpath⟩
    simp only [ModuleTree.namespaceModule, hp, hc, hn, Option.bind_eq_bind, Option.bind_some,
      if_true, Option.pure_def]
  · have hk : KeepsPlace fun m => { m with namespaceInfo := some info } :=
      ⟨fun _ => rfl, fun _ => rfl, fun _ => rfl, fun _ => rfl, fun _ => rfl⟩
    refine ⟨id, t₁.update id fun m => { m with namespaceInfo := some info },
      { m₁ with namespaceInfo := some info }, ?_, ?_, ?_, hpath⟩
    · simp only [ModuleTree.namespaceModule, hp, hc, hn, Option.bind_eq_bind, Option.bind_some,
        if_false, Option.pure_def, Bool.false_eq_true]
    · refine he.trans
        ⟨he.sound.update id _ hk, grows_update t₁ id _ hk, fun i => ?_, fun _ hd => hd⟩
      -- What a module stands for is no part of its content.
      unfold contentAt
      rw [get?_update]
      by_cases hi : i = id
      · rw [if_pos hi, hi, Option.map_map]
        rfl
      · rw [if_neg hi]
    · rw [get?_update, if_pos rfl, hm₁]
      rfl

end ModuleTree

end DocModel
