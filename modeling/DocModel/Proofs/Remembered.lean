import DocModel.Proofs.Arena
import DocModel.Proofs.Directories

/-!
# Remembered directories

A tree remembers the module of a directory so that it need not walk to it again. Nobody can tell:
the module of a file is the one that the walk would end at, whether or not its directory was
resolved before, in this spelling or another, and whatever was made since.

Two things could go wrong. What is remembered could be the wrong module; that it is not is
`ModuleTree.Located`. Or a directory could be remembered for which there is no walk, one that is not
below the root and whose files belong to the root module; `ModuleTree.RemembersBelow` says that
there is none. Both hold of a new tree, and every request keeps them.

## Main definitions

* `ownerNames`: The names of the modules that lead to the directory of a file.
* `ModuleTree.forget`: A tree that remembers no directory.
* `ModuleTree.RemembersBelow`: Only directories below the root are remembered.
* `ModuleTree.Indexed`: All that is asked of what a tree remembers.

## Theorems

* `ModuleTree.Indexed.resolveModule_cases`: The three ways in which a file gets its module.
* `ModuleTree.Indexed.forget_resolveModule`: A tree that remembers nothing gives the same modules.
* `ModuleTree.Indexed.resolveModule_again`: What was resolved once is found from then on.
* `ModuleTree.directories_transparent`: The module of a file is determined by names alone.
-/

namespace DocModel

/-- The names of the modules that lead to the directory of a file. There are none if the file is in
    no directory, or in one that is not below the root. -/
def ownerNames (passthrough : List String) (base file : Path) : List String :=
  match file.parent? with
  | none => []
  | some dir => if dir.startsWith base then directoryNames passthrough base dir else []

theorem ownerNames_of_below (passthrough : List String) {base file dir : Path}
    (hdir : file.parent? = some dir) (hbelow : dir.startsWith base = true) :
    ownerNames passthrough base file = directoryNames passthrough base dir := by
  simp only [ownerNames, hdir, if_pos hbelow]

theorem ownerNames_of_outside (passthrough : List String) {base file : Path}
    (hout : ∀ dir, file.parent? = some dir → ¬ dir.startsWith base = true) :
    ownerNames passthrough base file = [] := by
  unfold ownerNames
  split
  · rfl
  · rename_i dir hdir
    rw [if_neg (hout dir hdir)]

namespace ModuleTree

/-- A tree that remembers no directory. -/
def forget (t : ModuleTree) : ModuleTree := { t with directories := ∅ }

/-- Only directories below the root are remembered. -/
def RemembersBelow (t : ModuleTree) (base : Path) : Prop :=
  ∀ dir id, t.directories.find? dir = some id → dir.startsWith base = true

/-- All that is asked of what a tree remembers: it is a tree, under the root of the project, and a
    directory that is remembered is below that root and leads to its module. -/
structure Indexed (t : ModuleTree) (name : String) (passthrough : List String) (base : Path) :
    Prop where
  sound : t.Sound
  located : t.Located passthrough base
  below : t.RemembersBelow base
  rootPath : ∀ m, t.root? = some m → m.childrenPath = [name]

section

variable {t t' : ModuleTree} {name : String} {passthrough : List String} {base : Path}

/-- Names that lead to a module are walked without making anything. -/
theorem descendOrCreate_of_descend? {id target : ModuleId} {names : List String}
    (h : t.descend? id names = some target) : t.descendOrCreate id names = some (target, t) := by
  induction names generalizing id with
  | nil => rw [descendOrCreate, ← Option.some.inj h]
  | cons first names ih =>
      rw [descend?, Option.bind_eq_bind] at h
      rcases Option.bind_eq_some_iff.1 h with ⟨m, hm, h⟩
      rcases Option.bind_eq_some_iff.1 h with ⟨child, hchild, h⟩
      -- There is such a child, so none is made.
      have hstep : t.childOrCreate id first = some (child, t) := by
        simp only [childOrCreate, hm, hchild, Option.bind_eq_bind, Option.bind_some,
          Option.pure_def]
      rw [descendOrCreate, hstep]
      exact ih h

/-- Making a child does not look at what is remembered. -/
theorem childOrCreate_forget (t : ModuleTree) (parent : ModuleId) (first : String) :
    t.forget.childOrCreate parent first =
      (t.childOrCreate parent first).map fun r => (r.1, r.2.forget) := by
  have hget : t.forget.get? parent = t.get? parent := rfl
  unfold childOrCreate
  rw [hget]
  cases t.get? parent with
  | none => rfl
  | some m =>
      simp only [Option.bind_eq_bind, Option.bind_some]
      cases m.modules.find? first <;> rfl

/-- Neither does a walk. -/
theorem descendOrCreate_forget (t : ModuleTree) (id : ModuleId) (names : List String) :
    t.forget.descendOrCreate id names =
      (t.descendOrCreate id names).map fun r => (r.1, r.2.forget) := by
  induction names generalizing t id with
  | nil => rfl
  | cons first names ih =>
      rw [descendOrCreate, descendOrCreate, childOrCreate_forget]
      cases t.childOrCreate id first with
      | none => rfl
      | some r =>
          simp only [Option.map_some, Option.bind_eq_bind, Option.bind_some]
          exact ih r.2 r.1

theorem indexed_make (name : String) (base : Path) (passthrough : List String) :
    (make name base passthrough).Indexed name passthrough base := by
  refine ⟨sound_make name base passthrough, located_make name base passthrough, ?_, ?_⟩
  · intro dir id hdir
    exact absurd hdir (by simp only [make, Table.find?_empty, reduceCtorEq, not_false_eq_true])
  · intro m hm
    rw [(eq_root_of_get?_make hm).2]
    rfl

namespace Indexed

/-- Growth that leaves alone what is remembered. -/
theorem grow (h : t.Indexed name passthrough base) (he : t.Enlarges t')
    (hd : t'.directories = t.directories) : t'.Indexed name passthrough base := by
  refine ⟨he.sound, h.located.grow h.sound he.grows hd, ?_, ?_⟩
  · intro dir id hdir
    rw [hd] at hdir
    exact h.below dir id hdir
  · intro m hm
    rcases h.sound.root with ⟨root, hroot, _⟩
    rcases he.grows.modules rootId root hroot with ⟨root', hroot', hg⟩
    have hmm : root' = m := Option.some.inj (hroot'.symm.trans hm)
    rw [← hmm, hg.childrenPath]
    exact h.rootPath root hroot

/-- The root stands where the project does, under its name. -/
theorem exists_root (h : t.Indexed name passthrough base) :
    ∃ root, t.root? = some root ∧ root.baseDir = base ∧ root.childrenPath = [name] := by
  rcases h.sound.root with ⟨root, hroot, _⟩
  exact ⟨root, hroot, h.located.root root hroot, h.rootPath root hroot⟩

/-- A file gets its module in one of three ways: it belongs to the root, or its directory is
    remembered, or the names of its directory are walked and the directory is remembered. -/
theorem resolveModule_cases (h : t.Indexed name passthrough base) (file : Path) :
    ((∀ dir, file.parent? = some dir → ¬ dir.startsWith base = true) ∧
      t.resolveModule file = some (rootId, t)) ∨
    ∃ dir, file.parent? = some dir ∧ dir.startsWith base = true ∧
      ((∃ id, t.directories.find? dir = some id ∧ t.resolveModule file = some (id, t)) ∨
        t.directories.find? dir = none ∧ ∃ id t₁,
          t.descendOrCreate rootId (directoryNames passthrough base dir) = some (id, t₁) ∧
          t.resolveModule file =
            some (id, { t₁ with directories := t₁.directories.insert dir id })) := by
  rcases h.exists_root with ⟨root, hroot, hbase, _⟩
  unfold ModuleTree.resolveModule
  cases hparent : file.parent? with
  | none =>
      refine Or.inl ⟨fun dir hdir => ?_, rfl⟩
      cases hdir
  | some dir =>
      simp only [hroot, hbase, Option.bind_eq_bind, Option.bind_some]
      have hsome := Path.isSome_relativeTo? dir base
      cases hfound : t.directories.find? dir with
      | some id =>
          exact Or.inr ⟨dir, rfl, h.below dir id hfound, Or.inl ⟨id, hfound, rfl⟩⟩
      | none =>
          cases hnames : t.moduleNames? base dir with
          | none =>
              -- No directory outside the root is remembered, so the answer is the root module.
              rw [Option.map_eq_none_iff.1 hnames] at hsome
              refine Or.inl ⟨fun dir' hdir' => ?_, rfl⟩
              rw [← Option.some.inj hdir', ← hsome]
              exact Bool.false_ne_true
          | some names =>
              rcases Option.map_eq_some_iff.1 hnames with ⟨rest, hrest, _⟩
              rw [hrest] at hsome
              have heq : names = directoryNames passthrough base dir := by
                rw [t.moduleNames?_eq hnames, h.located.passed]
              -- The walk comes to an end, and the directory is remembered with where it ends.
              rcases h.sound.descendOrCreate rootId root hroot names with ⟨id, t₁, _, hwalk, _⟩
              rw [heq] at hwalk
              refine Or.inr ⟨dir, rfl, hsome.symm, Or.inr ⟨hfound, id, t₁, hwalk, ?_⟩⟩
              simp only [heq, hwalk, Option.bind_some, Option.pure_def]

/-- Resolving a file keeps all that is asked. -/
theorem resolveModule (h : t.Indexed name passthrough base) {file : Path} {id : ModuleId}
    (hrun : t.resolveModule file = some (id, t')) : t'.Indexed name passthrough base := by
  rcases h.resolveModule_cases file with ⟨_, hcase⟩ | ⟨dir, hdir, hbelow, hcase⟩
  · rw [hcase] at hrun
    rw [← (Prod.mk.inj (Option.some.inj hrun)).2]
    exact h
  · rcases hcase with ⟨id', _, hcase⟩ | ⟨_, id', t₁, hwalk, hcase⟩
    · rw [hcase] at hrun
      rw [← (Prod.mk.inj (Option.some.inj hrun)).2]
      exact h
    · -- The directory that is remembered now is below the root, in every spelling.
      rcases h.exists_root with ⟨root, hroot, _, hpath⟩
      rcases h.sound.resolveModule file with ⟨id₂, t₂, m, hrun₂, he, hm⟩
      rcases Prod.mk.inj (Option.some.inj (hrun.symm.trans hrun₂)) with ⟨rfl, rfl⟩
      have hfile := Path.startsWith_of_parent? hdir hbelow
      refine ⟨he.sound, (h.located.resolveModule h.sound hfile hrun hroot hm).1, ?_, ?_⟩
      · rw [hcase] at hrun
        rw [← (Prod.mk.inj (Option.some.inj hrun)).2]
        intro dir' id'' hdir'
        -- It is the directory, in this spelling or another, or it was remembered before.
        by_cases hc : compare dir' dir = .eq
        · rw [Path.startsWith, Path.components_eq_of_compare hc]
          exact hbelow
        · simp only [Table.find?_insert_of_ne _ _ hc, directories_descendOrCreate hwalk] at hdir'
          exact h.below dir' id'' hdir'
      · intro m' hm'
        rcases he.grows.modules rootId root hroot with ⟨root', hroot', hg⟩
        have hmm : root' = m' := Option.some.inj (hroot'.symm.trans hm')
        rw [← hmm, hg.childrenPath]
        exact hpath

/-- A request keeps all that is asked. -/
theorem perform (h : t.Indexed name passthrough base) {request : Request}
    (hrun : t.perform request = some t') : t'.Indexed name passthrough base := by
  have he := h.sound.enlarges_of_perform hrun
  cases request with
  | resolve file =>
      rcases Option.map_eq_some_iff.1 hrun with ⟨⟨id, t₁⟩, hmade, rfl⟩
      exact h.resolveModule hmade
  | child parent first =>
      rcases Option.map_eq_some_iff.1 hrun with ⟨⟨id, t₁⟩, hmade, rfl⟩
      exact h.grow he (directories_childOrCreate hmade)
  | space parent first info =>
      rcases Option.map_eq_some_iff.1 hrun with ⟨⟨id, t₁⟩, hmade, rfl⟩
      exact h.grow he (directories_namespaceModule hmade)

/-- A run of requests keeps all that is asked, and grows the tree. -/
theorem performAll (h : t.Indexed name passthrough base) {requests : List Request}
    (hrun : t.performAll requests = some t') :
    t'.Indexed name passthrough base ∧ t.Grows t' := by
  induction requests generalizing t with
  | nil =>
      rw [← Option.some.inj hrun]
      exact ⟨h, Grows.refl t⟩
  | cons request requests ih =>
      rw [ModuleTree.performAll, List.foldlM_cons] at hrun
      rcases Option.bind_eq_some_iff.1 hrun with ⟨t₁, hstep, hrun⟩
      rcases ih (h.perform hstep) hrun with ⟨hlast, hgrows⟩
      exact ⟨hlast, (h.sound.enlarges_of_perform hstep).grows.trans hgrows⟩

/-- The module of a file stands at the names of its directory, and these names lead to it. -/
theorem exists_owner (h : t.Indexed name passthrough base) (file : Path) :
    ∃ id t' m, t.resolveModule file = some (id, t') ∧ t.Grows t' ∧
      t'.get? id = some m ∧ m.childrenPath = name :: ownerNames passthrough base file := by
  rcases h.exists_root with ⟨root, hroot, _, hpath⟩
  rcases h.sound.resolveModule file with ⟨id, t', m, hrun, he, hm⟩
  refine ⟨id, t', m, hrun, he.grows, hm, ?_⟩
  -- A file outside belongs to the root.
  rcases h.resolveModule_cases file with ⟨hout, hcase⟩ | ⟨dir, hdir, hbelow, _⟩
  · rw [hcase] at hrun
    rcases Prod.mk.inj (Option.some.inj hrun) with ⟨rfl, rfl⟩
    have hmm : root = m := Option.some.inj (hroot.symm.trans hm)
    rw [ownerNames_of_outside passthrough hout, ← hmm, hpath]
  · have hfile := Path.startsWith_of_parent? hdir hbelow
    rw [(h.located.resolveModule h.sound hfile hrun hroot hm).2, hpath,
      moduleNames_of_parent? passthrough base hdir, ownerNames_of_below passthrough hdir hbelow,
      List.singleton_append]

/-- A directory that is remembered is remembered with the module that a walk would end at. -/
theorem descend?_of_find? (h : t.Indexed name passthrough base) {dir : Path} {id : ModuleId}
    (hfound : t.directories.find? dir = some id) :
    t.descend? rootId (directoryNames passthrough base dir) = some id := by
  rcases h.exists_root with ⟨root, hroot, _, hpath⟩
  rcases h.sound.directories dir id hfound with ⟨m, hm⟩
  have hplace := h.located.directories dir id m root hfound hm hroot
  have hwalk := h.sound.found id m hm
  rw [hplace, hpath, List.singleton_append, find?, hroot, Option.bind_eq_bind,
    Option.bind_some] at hwalk
  split at hwalk
  · exact hwalk
  · cases hwalk

/-- A tree may forget all that it remembers. -/
theorem forget (h : t.Indexed name passthrough base) : t.forget.Indexed name passthrough base := by
  have hg : t.Grows t.forget := ⟨rfl, fun _ m hm => ⟨m, hm, Module.Grows.refl m⟩⟩
  have hnone : ∀ dir id, ¬ t.forget.directories.find? dir = some id := by
    intro dir id hdir
    exact absurd hdir (by simp only [ModuleTree.forget, Table.find?_empty, reduceCtorEq,
      not_false_eq_true])
  refine ⟨⟨h.sound.root, h.sound.childrenPath, ?_, h.sound.child, ?_⟩,
    ⟨h.located.passed, h.located.root, ?_⟩, ?_, h.rootPath⟩
  · intro id m hm
    exact hg.find? _ _ (h.sound.found id m hm)
  · intro dir id hdir
    exact absurd hdir (hnone dir id)
  · intro dir id m root hdir
    exact absurd hdir (hnone dir id)
  · intro dir id hdir
    exact absurd hdir (hnone dir id)

/-- A tree that remembers nothing gives the same module, and makes the same modules on the way. -/
theorem forget_resolveModule (h : t.Indexed name passthrough base) (file : Path) :
    (t.forget.resolveModule file).map (fun r => (r.1, r.2.forget)) =
      (t.resolveModule file).map fun r => (r.1, r.2.forget) := by
  rcases h.resolveModule_cases file with ⟨hout, hcase⟩ | ⟨dir, hdir, hbelow, hcase⟩
  · -- Both trees give the root module, and leave the tree as it is.
    rcases h.forget.resolveModule_cases file with ⟨_, hcase'⟩ | ⟨dir, hdir, hbelow, _⟩
    · rw [hcase, hcase']
      rfl
    · exact absurd hbelow (hout dir hdir)
  · rcases h.forget.resolveModule_cases file with ⟨hout, _⟩ | ⟨dir', hdir', _, hcase'⟩
    · exact absurd hbelow (hout dir hdir)
    · have hdd : dir' = dir := Option.some.inj (hdir'.symm.trans hdir)
      rw [hdd] at hcase'
      rcases hcase' with ⟨id', hfound', _⟩ | ⟨_, id', t₁', hwalk', hcase'⟩
      · exact absurd hfound' (by simp only [ModuleTree.forget, Table.find?_empty, reduceCtorEq,
          not_false_eq_true])
      · rw [descendOrCreate_forget] at hwalk'
        rw [hcase']
        rcases hcase with ⟨id, hfound, hcase⟩ | ⟨_, id, t₁, hwalk, hcase⟩
        · -- The walk ends where the tree remembers, and makes nothing.
          have hwalk := descendOrCreate_of_descend? (h.descend?_of_find? hfound)
          -- Both walk, and make the same modules.
          rw [hwalk] at hwalk'
          rcases Prod.mk.inj (Option.some.inj hwalk') with ⟨rfl, rfl⟩
          rw [hcase]
          rfl
        · rw [hwalk] at hwalk'
          rcases Prod.mk.inj (Option.some.inj hwalk') with ⟨rfl, rfl⟩
          rw [hcase]
          rfl

/-- What a tree remembers, it remembers with the same module after any request. -/
theorem find?_perform (h : t.Indexed name passthrough base) {request : Request}
    (hrun : t.perform request = some t') {dir : Path} {id : ModuleId}
    (hfound : t.directories.find? dir = some id) : t'.directories.find? dir = some id := by
  cases request with
  | resolve file =>
      rcases Option.map_eq_some_iff.1 hrun with ⟨⟨id', t₁⟩, hmade, rfl⟩
      rcases h.resolveModule_cases file with ⟨_, hcase⟩ | ⟨dir', _, _, hcase⟩
      · rw [hcase] at hmade
        rw [← (Prod.mk.inj (Option.some.inj hmade)).2]
        exact hfound
      · rcases hcase with ⟨_, _, hcase⟩ | ⟨hnew, id'', t₂, hwalk, hcase⟩
        · rw [hcase] at hmade
          rw [← (Prod.mk.inj (Option.some.inj hmade)).2]
          exact hfound
        · rw [hcase] at hmade
          rw [← (Prod.mk.inj (Option.some.inj hmade)).2]
          -- A directory is remembered anew only if it was not, in any spelling.
          have hne : compare dir dir' ≠ .eq := by
            intro hc
            unfold Table.find? at hfound hnew
            rw [Table.findIn?_congr hc, hnew] at hfound
            cases hfound
          simp only [Table.find?_insert_of_ne _ _ hne, directories_descendOrCreate hwalk]
          exact hfound
  | child parent first =>
      rcases Option.map_eq_some_iff.1 hrun with ⟨⟨id', t₁⟩, hmade, rfl⟩
      rw [directories_childOrCreate hmade]
      exact hfound
  | space parent first info =>
      rcases Option.map_eq_some_iff.1 hrun with ⟨⟨id', t₁⟩, hmade, rfl⟩
      rw [directories_namespaceModule hmade]
      exact hfound

/-- Nor does a run of requests make it forget. -/
theorem find?_performAll (h : t.Indexed name passthrough base) {requests : List Request}
    (hrun : t.performAll requests = some t') {dir : Path} {id : ModuleId}
    (hfound : t.directories.find? dir = some id) : t'.directories.find? dir = some id := by
  induction requests generalizing t with
  | nil =>
      rw [← Option.some.inj hrun]
      exact hfound
  | cons request requests ih =>
      rw [ModuleTree.performAll, List.foldlM_cons] at hrun
      rcases Option.bind_eq_some_iff.1 hrun with ⟨t₁, hstep, hrun⟩
      exact ih (h.perform hstep) hrun (h.find?_perform hstep hfound)

/-- What was resolved once is found from then on: any file of the same directory gets the same
    module, at any later time, and nothing is made for it. -/
theorem resolveModule_again (h : t.Indexed name passthrough base) {file file' : Path}
    {id : ModuleId} {t₁ t₂ : ModuleTree} {more : List Request}
    (hrun : t.resolveModule file = some (id, t₁)) (hmore : t₁.performAll more = some t₂)
    (hsame : file'.parent?.map Path.components = file.parent?.map Path.components) :
    t₂.resolveModule file' = some (id, t₂) := by
  have h₁ := h.resolveModule hrun
  have h₂ := (h₁.performAll hmore).1
  rcases h.resolveModule_cases file with ⟨hout, hcase⟩ | ⟨dir, hdir, hbelow, hcase⟩
  · -- The directory of the other file is not below the root either.
    rw [hcase] at hrun
    rcases Prod.mk.inj (Option.some.inj hrun) with ⟨rfl, rfl⟩
    rcases h₂.resolveModule_cases file' with ⟨_, hcase'⟩ | ⟨dir', hdir', hbelow', _⟩
    · exact hcase'
    · rw [hdir', Option.map_some] at hsame
      rcases Option.map_eq_some_iff.1 hsame.symm with ⟨dir, hdir, hcomponents⟩
      refine absurd ?_ (hout dir hdir)
      rw [Path.startsWith, hcomponents]
      exact hbelow'
  · -- The directory is remembered by now.
    have hfound : t₁.directories.find? dir = some id := by
      rcases hcase with ⟨id', hfound, hcase⟩ | ⟨_, id', t', _, hcase⟩
      · rw [hcase] at hrun
        rcases Prod.mk.inj (Option.some.inj hrun) with ⟨rfl, rfl⟩
        exact hfound
      · rw [hcase] at hrun
        rcases Prod.mk.inj (Option.some.inj hrun) with ⟨rfl, rfl⟩
        exact Table.find?_insert_self _ _ _
    rw [hdir, Option.map_some] at hsame
    rcases Option.map_eq_some_iff.1 hsame with ⟨dir', hdir', hcomponents⟩
    -- It is remembered later too, in every spelling.
    have hfound' : t₂.directories.find? dir' = some id := by
      have hlater := h₁.find?_performAll hmore hfound
      unfold Table.find? at hlater ⊢
      rw [Table.findIn?_congr (Path.compare_of_components_eq hcomponents), hlater]
    simp only [ModuleTree.resolveModule, hdir', hfound']

end Indexed

end

/-- After any requests to a new tree, every file has a module: the one whose names are the name of
    the project and the names of the directories between the root and the file that are not passed
    through, or the root if the file is in no directory below the root. A tree that remembers no
    directory gives the same module and makes the same modules. Once a file was resolved, every file
    of the same directory, in any spelling, gets the same module from then on, and two files get the
    same module at any two times exactly if they have the same names. -/
theorem directories_transparent (name : String) (baseDir : Path) (passthrough : List String)
    (requests : List Request) (t : ModuleTree)
    (hrun : (make name baseDir passthrough).performAll requests = some t) (file : Path) :
    (∃ id t' m, t.resolveModule file = some (id, t') ∧ t'.get? id = some m ∧
      m.childrenPath = name :: ownerNames passthrough baseDir file ∧
      t'.find? (name :: ownerNames passthrough baseDir file) = some id ∧
      ((∀ dir, file.parent? = some dir → ¬ dir.startsWith baseDir = true) → id = rootId)) ∧
    (t.forget.resolveModule file).map (fun r => (r.1, r.2.modules)) =
      (t.resolveModule file).map (fun r => (r.1, r.2.modules)) ∧
    ∀ id t₁ more t₂ file', t.resolveModule file = some (id, t₁) → t₁.performAll more = some t₂ →
      (file'.parent?.map Path.components = file.parent?.map Path.components →
        t₂.resolveModule file' = some (id, t₂)) ∧
      ∃ id' t₃, t₂.resolveModule file' = some (id', t₃) ∧
        (id' = id ↔
          ownerNames passthrough baseDir file' = ownerNames passthrough baseDir file) := by
  have h := ((indexed_make name baseDir passthrough).performAll hrun).1
  rcases h.exists_owner file with ⟨id, t', m, hres, _, hm, hpath⟩
  have h' := h.resolveModule hres
  refine ⟨⟨id, t', m, hres, hm, hpath, hpath ▸ h'.sound.found id m hm, ?_⟩, ?_, ?_⟩
  · intro hout
    rcases h.resolveModule_cases file with ⟨_, hcase⟩ | ⟨dir, hdir, hbelow, _⟩
    · rw [hcase] at hres
      exact (Prod.mk.inj (Option.some.inj hres)).1.symm
    · exact absurd hbelow (hout dir hdir)
  · have hforget := congrArg (Option.map fun r : ModuleId × ModuleTree => (r.1, r.2.modules))
      (h.forget_resolveModule file)
    rw [Option.map_map, Option.map_map] at hforget
    exact hforget
  · intro id₁ t₁ more t₂ file' hres₁ hmore
    rcases Prod.mk.inj (Option.some.inj (hres.symm.trans hres₁)) with ⟨rfl, rfl⟩
    refine ⟨h.resolveModule_again hres hmore, ?_⟩
    rcases h'.performAll hmore with ⟨h₂, hgrows⟩
    rcases h₂.exists_owner file' with ⟨id', t₃, m', hres', hgrows', hm', hpath'⟩
    -- The module of the first file is still there when the second is resolved.
    rcases (hgrows.trans hgrows').modules id m hm with ⟨m₃, hm₃, hg⟩
    refine ⟨id', t₃, hres', ?_, ?_⟩
    · -- One module has one list of names.
      rintro rfl
      have hmm : m₃ = m' := Option.some.inj (hm₃.symm.trans hm')
      have hchildren := hg.childrenPath
      rw [hmm, hpath, hpath'] at hchildren
      exact (List.cons.inj hchildren).2
    · intro hnames
      refine (h₂.resolveModule hres').sound.id_eq_of_childrenPath hm' hm₃ ?_
      rw [hg.childrenPath, hpath, hpath', hnames]

/-- A namespace is made in the module of a directory, and then another spelling of the directory is
    resolved. -/
theorem directories_transparent_respelled :
    ∃ t, (make "p" ⟨"/p"⟩ ["src"]).performAll
        [.resolve ⟨"/p/src/a/x.ts"⟩, .space ⟨1⟩ "b" default] = some t ∧
      ∃ id t' m, t.resolveModule ⟨"/p//src/./a/y.ts"⟩ = some (id, t') ∧ t'.get? id = some m ∧
        m.childrenPath = ["p", "a"] := by
  have hrun : ((make "p" ⟨"/p"⟩ ["src"]).performAll
      [.resolve ⟨"/p/src/a/x.ts"⟩, .space ⟨1⟩ "b" default]).isSome = true := by
    decide +kernel
  rcases Option.isSome_iff_exists.1 hrun with ⟨t, ht⟩
  rcases (directories_transparent "p" ⟨"/p"⟩ ["src"] _ t ht ⟨"/p//src/./a/y.ts"⟩).1 with
    ⟨id, t', m, hres, hm, hpath, _⟩
  have hnames : ownerNames ["src"] ⟨"/p"⟩ ⟨"/p//src/./a/y.ts"⟩ = ["a"] := by decide +kernel
  exact ⟨t, ht, id, t', m, hres, hm, hnames ▸ hpath⟩

end ModuleTree

end DocModel
