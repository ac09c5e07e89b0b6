import DocModel.Proofs.Lasting
import DocModel.Proofs.Replay

/-!
# Files that have been extracted

Once a file has been extracted, its module is there, everything that it exports has been asked for,
and its exports are in the module, under the path of the file. All of this stays. Finding the
exports again makes nothing new, and putting them into the module again changes nothing, if they are
what they were and nobody has put something else there.

The path of a file is made of the plain names below the root of its project, so that two files may
have the same path. Then one of them overwrites what the other has put into the module. This is
ruled out where files are told apart by their projects and paths.

## Main definitions

* `State.record`, `Recorded`: Exports are put into a module, and are in it.
* `Program.FilesApart`: Files are told apart by their projects and paths.
* `Context.Extracted`: What is known of a file that has been extracted.
* `Project.withoutExports`: A project, but for what its modules export.
* `Program.Calm`: Nothing was made, and modules at most export something else.

## Theorems

* `Context.extractFile_ends`: What comes of extracting a file.
* `Context.AtRest.extracted`: A file is extracted.
* `Context.keeps_extracted`: It stays extracted, whatever other files are.
* `Context.Extracted.again`: Extracting it once more changes at most what modules export.
-/

namespace DocModel

/-- The exports of a file are put into a module. -/
def State.record (s : State) (owner : ModuleHandle) (path : String) (exports : FileExports) :
    State :=
  s.updateTree owner.project (·.update owner.module fun m =>
    { m with exports := m.exports.insert path exports })

/-- A module has the given exports under a path. -/
def Recorded (owner : ModuleHandle) (path : String) (exports : FileExports) (s : State) : Prop :=
  (contentIn s.projects owner).exports.find? path = some exports

section Record

variable {s : State} {owner owner' : ModuleHandle} {path path' : String}
  {exports exports' : FileExports}

/-- Where there is no module, nothing is put. -/
theorem State.record_cases (s : State) (owner : ModuleHandle) (path : String)
    (exports : FileExports) : s.record owner path exports = s ∨
      ∃ project m, s.projects[owner.project]? = some project ∧
        project.modules.get? owner.module = some m ∧
        s.record owner path exports =
          { s with projects := withTree s.projects owner.project (project.modules.update
              owner.module fun m => { m with exports := m.exports.insert path exports }) } := by
  unfold State.record
  cases hp : s.projects[owner.project]? with
  | none =>
      rw [State.updateTree, List.modify_eq_self (List.getElem?_eq_none_iff.1 hp)]
      exact Or.inl rfl
  | some project =>
      rw [updateTree_eq s owner.project project hp]
      cases hm : project.modules.get? owner.module with
      | none =>
          rw [ModuleTree.update_of_get?_eq_none hm, withTree_self hp]
          exact Or.inl rfl
      | some m => exact Or.inr ⟨project, m, rfl, hm, rfl⟩

/-- What is put elsewhere leaves what is there. -/
theorem Recorded.record (h : Recorded owner path exports s)
    (hsame : owner' = owner → path' = path → exports' = exports) :
    Recorded owner path exports (s.record owner' path' exports') := by
  rcases s.record_cases owner' path' exports' with heq | ⟨project, m, hp, hm, heq⟩
  · rw [heq]
    exact h
  · rw [heq]
    unfold Recorded at h ⊢
    rw [contentIn_update s.projects owner' owner project hp m hm]
    -- Only the same path of the same module could be overwritten.
    by_cases hown : owner = owner'
    · rw [if_pos hown]
      have hcontent : contentIn s.projects owner = m.content := by
        rw [contentIn, moduleIn, hown, hp, Option.bind_some, hm]
        rfl
      rw [hcontent] at h
      change (m.exports.insert path' exports').find? path = some exports
      rw [Table.find?_insert]
      by_cases hpath : path = path'
      · rw [if_pos hpath, hsame hown.symm hpath.symm]
      · rw [if_neg hpath]
        exact h
    · rw [if_neg hown]
      exact h

/-- What is put into a module is there. -/
theorem recorded_record {m : Module} (hm : moduleIn s.projects owner = some m) (path : String)
    (exports : FileExports) : Recorded owner path exports (s.record owner path exports) := by
  rcases Option.bind_eq_some_iff.1 hm with ⟨project, hp, hget⟩
  unfold Recorded State.record
  rw [updateTree_eq s owner.project project hp]
  change (contentIn (withTree s.projects owner.project _) owner).exports.find? path = some exports
  rw [contentIn_update s.projects owner owner project hp m hget, if_pos rfl]
  exact Table.find?_insert_self _ _ _

/-- Putting something where it is changes nothing. -/
theorem Recorded.record_eq (h : Recorded owner path exports s) :
    s.record owner path exports = s := by
  rcases s.record_cases owner path exports with heq | ⟨project, m, hp, hm, heq⟩
  · exact heq
  · rw [heq]
    have hfind : m.exports.find? path = some exports := by
      unfold Recorded at h
      rw [contentIn, moduleIn, hp, Option.bind_some, hm] at h
      exact h
    -- The table has the entry already.
    have hupdate : (project.modules.update owner.module fun m =>
        { m with exports := m.exports.insert path exports }) = project.modules := by
      refine ModuleTree.update_eq_self fun m' hm' => ?_
      rw [hm, Option.some.injEq] at hm'
      rw [← hm', Table.insert_of_find? hfind]
    rw [hupdate, withTree_self hp]

/-- Whatever else is done, exports stay where they are. -/
theorem endures_recorded (p : Program) (owner : ModuleHandle) (path : String)
    (exports : FileExports) :
    Guard.Endures { holds := fun s _ => Recorded owner path exports s } p fun _ => False where
  note := fun _ _ h => h
  aside := fun s s' _ h ha => by
    change (contentIn s'.projects owner).exports.find? path = some exports
    rw [ha.exports owner]
    exact h
  mint := fun _ _ _ _ h => h
  own := fun _ _ _ _ h _ _ _ => h
  outer := fun _ _ _ _ h _ _ _ => h
  member := fun _ _ _ _ _ h _ _ _ _ => h
  link := fun _ _ _ _ h _ _ _ => h

end Record

/-- Only the components of a path matter when a file is looked up. -/
theorem Program.fileSymbol?_of_same (p : Program) {file other : Path}
    (h : other.same file = true) : p.fileSymbol? other = p.fileSymbol? file := by
  have hcomponents : other.components = file.components := beq_iff_eq.1 h
  have hcompare : compare other file = .eq := by
    change compare other.components file.components = .eq
    rw [hcomponents]
    exact Std.ReflCmp.compare_self
  exact Table.findIn?_congr hcompare p.files.entries

/-- Files of a program are told apart by their projects and their paths in them. -/
def Program.FilesApart (p : Program) (s : State) : Prop :=
  ∀ file other path, (p.fileSymbol? file).isSome = true → (p.fileSymbol? other).isSome = true →
    s.projectFor? other = s.projectFor? file → s.relativeFile? file = some path →
    s.relativeFile? other = some path → other.same file = true

/-- A project, but for what its modules export. -/
def Project.withoutExports (project : Project) : Project :=
  { project with modules := { project.modules with
      modules := project.modules.modules.map fun m => { m with exports := ∅ } } }

/-- Nothing was made: no declaration was attached or told of, there are the same modules, no number
    was given out, and what was entered is entered. At most modules export something else, and not
    even that if enumerations list members that are declared and stand for themselves, and if files
    are told apart. -/
structure Program.Calm (p : Program) (s s' : State) : Prop where
  notices : s'.notices = s.notices
  modules : s'.projects.map (·.withoutExports) = s.projects.map (·.withoutExports)
  nextId : s'.registry.nextId = s.registry.nextId
  entries : ∀ x ref, s.registry.find? x = some ref → s'.registry.find? x = some ref
  still : p.MembersFirm → p.FilesApart s → s' = { s with depth := s'.depth }

namespace Program.Calm

variable {p : Program} {s s' s'' : State}

theorem refl (p : Program) (s : State) : p.Calm s s :=
  ⟨rfl, rfl, rfl, fun _ _ h => h, fun _ _ => rfl⟩

theorem trans (h : p.Calm s s') (h' : p.Calm s' s'') : p.Calm s s'' := by
  refine ⟨h'.notices.trans h.notices, h'.modules.trans h.modules, h'.nextId.trans h.nextId,
    fun x ref hx => h'.entries x ref (h.entries x ref hx), fun hfirm hapart => ?_⟩
  have heq := h.still hfirm hapart
  -- Files are told apart by the projects, which are the same.
  have hapart' : p.FilesApart s' := by
    rw [heq]
    exact hapart
  rw [h'.still hfirm hapart', heq]

end Program.Calm

/-- Quiet is calm, and leaves the exports of modules as they are. -/
theorem Program.Quiet.calm {p : Program} {s s' : State} (h : p.Quiet s s') : p.Calm s s' := by
  refine ⟨h.notices, by rw [h.projects], h.nextId, h.entries, fun hfirm _ => ?_⟩
  -- All fields but the depth are the same.
  rcases s with ⟨projects, registry, namespaces, stringUtilities, depth, notices⟩
  rcases s' with ⟨projects', registry', namespaces', stringUtilities', depth', notices'⟩
  rcases h with ⟨rfl, rfl, rfl, rfl, _, _, _, hstill⟩
  rw [show registry' = registry from hstill hfirm.firm]

/-- Exports are all that changes where exports are put into a module. -/
theorem State.withoutExports_record (s : State) (owner : ModuleHandle) (path : String)
    (exports : FileExports) : (s.record owner path exports).projects.map (·.withoutExports) =
      s.projects.map (·.withoutExports) := by
  unfold State.record State.updateTree
  refine List.ext_getElem? fun i => ?_
  rw [List.getElem?_map, List.getElem?_map, List.getElem?_modify]
  cases s.projects[i]? with
  | none => rfl
  | some project =>
      simp only [Option.map_eq_map, Option.map_some]
      split
      · -- In the project of the file, one module gets exports, which are left out here.
        have hmodules : ∀ tree : ModuleTree, (tree.update owner.module fun m =>
            { m with exports := m.exports.insert path exports }).modules.map
              (fun m => { m with exports := ∅ }) =
            tree.modules.map fun m => { m with exports := ∅ } := by
          intro tree
          refine Array.ext_getElem? fun j => ?_
          rw [ModuleTree.update, Array.getElem?_map, Array.getElem?_map, Array.getElem?_modify]
          split
          · rw [Option.map_map]
            rfl
          · rfl
        rw [Option.some.injEq, Project.withoutExports, hmodules]
        rfl
      · rfl

namespace Context

variable {ctx : Context} {s s' u v : State} {t t' : Trail} {file : Path}

/-- Resolvers and listeners have no say in which states are later ones. -/
theorem onward_among {resolvers : List Resolver} {listeners : List String} :
    (ctx.among resolvers listeners).Onward s s' ↔ ctx.Onward s s' :=
  ⟨fun h => ⟨h.changes, h.lasts⟩, fun h => ⟨h.changes, h.lasts⟩⟩

/-- Putting exports into a module leads to a later state. -/
theorem Onward.record (s : State) (owner : ModuleHandle) (path : String) (exports : FileExports) :
    ctx.Onward s (s.record owner path exports) := by
  rcases s.record_cases owner path exports with heq | ⟨project, m, hp, hm, heq⟩
  · rw [heq]
    exact .refl s
  · rw [heq]
    exact .of_registry (Changes.one (.exports owner project m path exports hp hm)) rfl

/-- Extracting files leads to later states of the same extraction. -/
theorem explores_onward (hu : ctx.Grounded u) : ctx.Explores (ctx.Onward u) where
  referenceOf := fun _ => .of_state fun _ _ _ _ _ h hrun =>
    ⟨h.trans (reference_onward (h.changes.grounded hu) hrun), trivial⟩
  resolveModule? := fun _ => .of_state fun _ _ _ _ _ h hrun => by
    rcases From.resolveModule? (fun _ _ => True) (h.changes.grounded hu) hrun with ⟨hfrom, hr, _⟩
    exact ⟨h.trans (.of_registry hfrom.changes hr), trivial⟩
  exports := fun s _ owner relative exports h => Onward.trans h (.record s owner relative exports)

/-- So does building types. -/
theorem keeps_onward_typeOf (hu : ctx.Grounded u) (ty : TypeId) (node : Option NodeId) :
    Keeps (ctx.Onward u) (ctx.typeOf ty node) fun _ => True := by
  refine .of_state fun s t a s' t' h hrun => ⟨h.trans ?_, trivial⟩
  have horderly := ctx.orderly (Ty.law_true ctx.settings.maxTypeDepth) ctx.steps
  have hfrom := (horderly.normalize ty node none s t a s' t' (h.changes.grounded hu) hrun).1
  have hkeep := (ctx.keep_lasts s ctx.steps).normalize ty node none
  exact ⟨hfrom.changes, (hkeep.holds s t a s' t' (.refl _ s) hrun).1⟩

/-- Exports stay while others are tracked. -/
theorem tracks_recorded (ctx : Context) (owner : ModuleHandle) (path : String)
    (exports : FileExports) : ctx.Tracks (Recorded owner path exports) :=
  (endures_recorded ctx.program owner path exports).tracks
    ((endures_recorded ctx.program owner path exports).keep (fun _ _ h => h.elim) ctx.steps)

theorem keeps_recorded_typeOf (ctx : Context) (owner : ModuleHandle) (path : String)
    (exports : FileExports) (ty : TypeId) (node : Option NodeId) :
    Keeps (Recorded owner path exports) (ctx.typeOf ty node) fun _ => True :=
  ((endures_recorded ctx.program owner path exports).keep (fun _ _ h => h.elim)
    ctx.steps).normalize ty node none

/-- Which files are told apart is known once and for all. -/
theorem Onward.filesApart (h : ctx.Onward s v) (hs : ctx.Grounded s) :
    ctx.program.FilesApart v ↔ ctx.program.FilesApart s := by
  unfold Program.FilesApart
  simp only [projectFor?_congr s v h.lasts.baseDirs,
    relativeFile?_of_grow hs.trees h.changes.projects]

/-- Another spelling of a file has the same exports. -/
theorem trackExports_of_same (ctx : Context) (owner : ModuleHandle) {file other : Path}
    (h : other.same file = true) : ctx.trackExports owner other = ctx.trackExports owner file := by
  have hcomponents : other.components = file.components := beq_iff_eq.1 h
  have hadd : ctx.addExport owner other = ctx.addExport owner file := by
    funext exports x
    unfold addExport addAlias Path.same
    rw [hcomponents]
  unfold trackExports
  rw [ctx.program.fileSymbol?_of_same h, hadd]

theorem trackExports_eq_pure (ctx : Context) (owner : ModuleHandle)
    (h : ctx.program.fileSymbol? file = none) : ctx.trackExports owner file = pure {} := by
  unfold trackExports
  rw [h]

/-- What comes of extracting a file: its module is asked for, then its exports, and these are put
    into the module if there are any. -/
theorem extractFile_ends {a : Unit} (hs : ctx.Grounded s)
    (hrun : ctx.extractFile file s t = .ok ((a, s'), t')) :
    ∃ o s₁ t₁, Action.resolveModule? file s t = .ok ((o, s₁), t₁) ∧ ctx.Onward s s₁ ∧
      (o = none ∧ s' = s₁ ∨
        ∃ owner exports s₂ t₂, o = some owner ∧
          ctx.trackExports owner file s₁ t₁ = .ok ((exports, s₂), t₂) ∧ ctx.Onward s₁ s₂ ∧
          s.projectFor? file = some owner.project ∧
          ((exports.isEmpty = true ∨ s.relativeFile? file = none) ∧ s' = s₂ ∨
            ∃ path, exports.isEmpty = false ∧ s.relativeFile? file = some path ∧
              s' = s₂.record owner path exports)) := by
  unfold extractFile at hrun
  rcases Action.bind_eq_ok hrun with ⟨o, s₁, t₁, hmodule, hrun⟩
  have h₁ := ((explores_onward hs).resolveModule? file).state (.refl s) hmodule
  have hs₁ := h₁.changes.grounded hs
  refine ⟨o, s₁, t₁, hmodule, h₁, ?_⟩
  cases o with
  | none =>
      rcases Action.pure_eq_ok hrun with ⟨_, rfl⟩
      exact Or.inl ⟨rfl, rfl⟩
  | some owner =>
      rcases Action.bind_eq_ok hrun with ⟨exports, s₂, t₂, htrack, hrun⟩
      have h₂ := ((explores_onward hs₁).trackExports owner file).state (.refl s₁) htrack
      have hproject : s.projectFor? file = some owner.project :=
        (project_of_resolveModule? hmodule).symm
      -- The path is looked up at the end, but trees keep their roots.
      have hrelative : (s₂.projects[owner.project]?).bind (·.modules.relativePath? file) =
          s.relativeFile? file := by
        rw [← relativeFile?_of_grow hs.trees (h₁.trans h₂).changes.projects, State.relativeFile?,
          projectFor?_congr s s₂ (h₁.trans h₂).lasts.baseDirs, hproject]
        rfl
      refine Or.inr ⟨owner, exports, s₂, t₂, rfl, htrack, h₂, hproject, ?_⟩
      cases hempty : exports.isEmpty with
      | true =>
          simp only [hempty, if_true] at hrun
          rcases Action.pure_eq_ok hrun with ⟨_, rfl⟩
          exact Or.inl ⟨Or.inl rfl, rfl⟩
      | false =>
          simp only [hempty, Bool.false_eq_true, if_false, Action.get_bind, hrelative] at hrun
          cases hpath : s.relativeFile? file with
          | none =>
              simp only [hpath] at hrun
              rcases Action.pure_eq_ok hrun with ⟨_, rfl⟩
              exact Or.inl ⟨Or.inr rfl, rfl⟩
          | some path =>
              simp only [hpath] at hrun
              rcases Prod.mk.inj (Except.ok.inj hrun) with ⟨hpair, _⟩
              exact Or.inr ⟨path, rfl, rfl, (Prod.mk.inj hpair).2.symm⟩

/-- What is known of a file that has been extracted: its module and its exports are found again
    without making anything. The exports are what they were, and are in the module, if enumerations
    list members that are declared and stand for themselves, and if files are told apart. -/
inductive Extracted (ctx : Context) (file : Path) (s : State) : Prop
  | outside (hmodule : ∀ v t, ctx.Onward s v →
        Action.resolveModule? file v t = .ok ((none, v), t))
  | inside (owner : ModuleHandle) (exports : FileExports)
      (hmodule : ∀ v t, ctx.Onward s v →
        Action.resolveModule? file v t = .ok ((some owner, v), t))
      (hexports : ∀ resolvers listeners, ctx.Repeats s
        ((ctx.among resolvers listeners).trackExports owner file)
        fun e => ctx.program.MembersFirm → e = exports)
      (hrecorded : ctx.program.MembersFirm → ctx.program.FilesApart s →
        exports.isEmpty = false → ∀ path, s.relativeFile? file = some path →
        Recorded owner path exports s)

/-- A file that is extracted at rest is known from then on. -/
theorem AtRest.extracted {a : Unit} (h : ctx.AtRest s t) (hhome : ctx.program.MembersAtHome)
    (hrun : ctx.extractFile file s t = .ok ((a, s'), t')) : ctx.Extracted file s' := by
  rcases extractFile_ends h.grounded hrun with ⟨o, s₁, t₁, hmodule, h₁, hcase⟩
  have hrest := h.resolveModule? hmodule
  rcases hcase with ⟨rfl, rfl⟩ | ⟨owner, exports, s₂, t₂, rfl, htrack, h₂, hproject, hcase⟩
  · exact .outside fun v t hv => resolveModule?_again h.grounded hmodule hv.changes t
  · -- Each of the three things that are asked for has the same answer from now on.
    have hagain : ∀ resolvers listeners, ctx.Repeats s₂
        ((ctx.among resolvers listeners).trackExports owner file)
        fun e => ctx.program.MembersFirm → e = exports :=
      fun _ _ => (Replays.trackExports hhome hrest owner file exports s₂ t₂ htrack).2.2
    have hmodule₂ : ∀ v t, ctx.Onward s₂ v →
        Action.resolveModule? file v t = .ok ((some owner, v), t) :=
      fun v t hv => resolveModule?_again h.grounded hmodule (h₂.trans hv).changes t
    have hrelative : ∀ v, ctx.Onward s₂ v → v.relativeFile? file = s.relativeFile? file :=
      fun v hv => relativeFile?_of_grow h.grounded.trees
        ((h₁.trans h₂).trans hv).changes.projects file
    rcases hcase with ⟨hnone, rfl⟩ | ⟨path, _, hpath, rfl⟩
    · refine .inside owner exports hmodule₂ hagain fun _ _ hsome path hpath => ?_
      rw [hrelative s' (.refl s')] at hpath
      -- Nothing was recorded: there were no exports, or there was no path for them.
      rcases hnone with hempty | hnone
      · rw [hempty] at hsome
        cases hsome
      · rw [hnone] at hpath
        cases hpath
    · have h₃ : ctx.Onward s₂ (s₂.record owner path exports) := .record s₂ owner path exports
      refine .inside owner exports (fun v t hv => hmodule₂ v t (h₃.trans hv))
        (fun resolvers listeners => (hagain resolvers listeners).onward h₃)
        fun _ _ _ path' hpath' => ?_
      rw [hrelative _ h₃, hpath, Option.some.injEq] at hpath'
      rw [← hpath']
      -- The module that was found is still there.
      rcases From.resolveModule? (fun _ _ => True) h.grounded hmodule with ⟨_, _, _, _, hplace⟩
      rcases hplace owner rfl with ⟨m, hm, _⟩
      rcases h₂.changes.projects.moduleIn owner m hm with ⟨m₂, hm₂, _⟩
      exact recorded_record hm₂ path exports

/-- What is known of a file stays known where exports stay in their modules. -/
theorem Extracted.onward (h : ctx.Extracted file s) (hs : ctx.Grounded s) (ho : ctx.Onward s v)
    (hkept : ∀ owner path exports, Recorded owner path exports s →
      Recorded owner path exports v) : ctx.Extracted file v := by
  -- Whatever holds in all later states holds in those later still.
  cases h with
  | outside hmodule => exact .outside fun w t hw => hmodule w t (ho.trans hw)
  | inside owner exports hmodule hexports hrecorded =>
      refine .inside owner exports (fun w t hw => hmodule w t (ho.trans hw))
        (fun resolvers listeners => (hexports resolvers listeners).onward ho)
        fun hfirm hapart hsome path hpath => ?_
      rw [ho.filesApart hs] at hapart
      rw [relativeFile?_of_grow hs.trees ho.changes.projects] at hpath
      exact hkept owner path exports (hrecorded hfirm hapart hsome path hpath)

/-- A file that exports something is a file of the program. -/
theorem isSome_fileSymbol? {owner : ModuleHandle} {exports : FileExports} {s' : State}
    (hrun : ctx.trackExports owner file s t = .ok ((exports, s'), t'))
    (hsome : exports.isEmpty = false) : (ctx.program.fileSymbol? file).isSome = true := by
  cases hsymbol : ctx.program.fileSymbol? file with
  | some _ => rfl
  | none =>
      rw [ctx.trackExports_eq_pure owner hsymbol] at hrun
      rw [← (Action.pure_eq_ok hrun).1] at hsome
      cases hsome

section

variable {resolvers : List Resolver} {listeners : List String}

/-- Where another file is extracted, its exports do not replace those of this one: they have another
    place, unless it is the same file, and then they are the same. -/
theorem Extracted.record {owner : ModuleHandle} {path : String} {exports : FileExports}
    {other : Path} {s₁ : State} {t₁ : Trail} (h : ctx.Extracted file s) (hs : ctx.Grounded s)
    (hproject : s.projectFor? other = some owner.project)
    (hpath : s.relativeFile? other = some path) (hsome : exports.isEmpty = false)
    (htrack : (ctx.among resolvers listeners).trackExports owner other s t =
      .ok ((exports, s₁), t₁)) (h₁ : ctx.Onward s s₁) :
    ctx.Extracted file (s₁.record owner path exports) := by
  have ho : ctx.Onward s (s₁.record owner path exports) :=
    h₁.trans (.record s₁ owner path exports)
  cases h with
  | outside hmodule => exact .outside fun w t hw => hmodule w t (ho.trans hw)
  | inside owner' exports' hmodule hexports hrecorded =>
      refine .inside owner' exports' (fun w t hw => hmodule w t (ho.trans hw))
        (fun resolvers listeners => (hexports resolvers listeners).onward ho)
        fun hfirm hapart hsome' path' hpath' => ?_
      rw [ho.filesApart hs] at hapart
      rw [relativeFile?_of_grow hs.trees ho.changes.projects] at hpath'
      have htracks := (ctx.among resolvers listeners).tracks_recorded owner' path' exports'
      have hkept := (htracks.trackExports owner other).state
        (hrecorded hfirm hapart hsome' path' hpath') htrack
      refine hkept.record fun howner hsame => ?_
      -- Both files have the same path in the same project, so they are the same file.
      have hproject' : s.projectFor? file = some owner'.project :=
        (project_of_resolveModule? (hmodule s t (.refl s))).symm
      rcases hexports resolvers listeners s t (.refl s) with ⟨e, s₂, t₂, hrun, _, _, he⟩
      have hfile := isSome_fileSymbol? hrun (by rw [he hfirm]; exact hsome')
      have hother := isSome_fileSymbol? htrack hsome
      have hfiles := hapart file other path' hfile hother (by rw [hproject, hproject', howner])
        hpath' (by rw [hpath, hsame])
      rw [trackExports_of_same _ owner hfiles, howner, hrun] at htrack
      rw [← (Prod.mk.inj (Prod.mk.inj (Except.ok.inj htrack)).1).1, he hfirm]

/-- A file that has been extracted stays extracted, whatever other file is. -/
theorem keeps_extracted (file other : Path) :
    Keeps (fun s => ctx.Grounded s ∧ ctx.Extracted file s)
      ((ctx.among resolvers listeners).extractFile other) fun _ => True := by
  refine .of_state fun s t a s' t' h hrun => ⟨?_, trivial⟩
  rcases h with ⟨hs, h⟩
  have hamong : (ctx.among resolvers listeners).Grounded s := hs
  -- The other file has its module found, its exports tracked, and perhaps put into the module.
  rcases extractFile_ends hamong hrun with ⟨o, s₁, t₁, hmodule, h₁, hcase⟩
  have h₁ := onward_among.1 h₁
  have hs₁ := h₁.changes.grounded hs
  have hextracted : ctx.Extracted file s₁ := h.onward hs h₁ fun owner path exports hrec =>
    ((ctx.tracks_recorded owner path exports).resolveModule? other).state hrec hmodule
  rcases hcase with ⟨_, rfl⟩ | ⟨owner, exports, s₂, t₂, _, htrack, h₂, hproject, hcase⟩
  · exact ⟨hs₁, hextracted⟩
  · have h₂ := onward_among.1 h₂
    rcases hcase with ⟨_, rfl⟩ | ⟨path, hsome, hpath, rfl⟩
    · refine ⟨h₂.changes.grounded hs₁, hextracted.onward hs₁ h₂ fun owner' path exports hrec => ?_⟩
      have htracks := (ctx.among resolvers listeners).tracks_recorded owner' path exports
      exact (htracks.trackExports owner other).state hrec htrack
    · have h₃ := h₂.trans (.record s₂ owner path exports)
      refine ⟨h₃.changes.grounded hs₁, hextracted.record hs₁ ?_ ?_ hsome htrack h₂⟩
      · rw [projectFor?_congr s s₁ h₁.lasts.baseDirs, hproject]
      · rw [relativeFile?_of_grow hs.trees h₁.changes.projects, hpath]

/-- So it does when symbols are asked for and modules are made. -/
theorem tracks_extracted (file : Path) :
    (ctx.among resolvers listeners).Tracks fun s => ctx.Grounded s ∧ ctx.Extracted file s where
  referenceOf := fun x => .of_state fun s t o s' t' h hrun => by
    have hamong : (ctx.among resolvers listeners).Grounded s := h.1
    have ho := onward_among.1 (reference_onward hamong hrun)
    refine ⟨⟨ho.changes.grounded h.1, h.2.onward h.1 ho fun owner path exports hrec => ?_⟩, trivial⟩
    exact (((ctx.among resolvers listeners).tracks_recorded owner path exports).referenceOf x).state
      hrec hrun
  resolveModule? := fun other => .of_state fun s t o s' t' h hrun => by
    have ho := ((explores_onward h.1).resolveModule? other).state (.refl s) hrun
    refine ⟨⟨ho.changes.grounded h.1, h.2.onward h.1 ho fun owner path exports hrec => ?_⟩, trivial⟩
    exact ((ctx.tracks_recorded owner path exports).resolveModule? other).state hrec hrun

theorem keeps_extracted_typeOf (file : Path) (ty : TypeId) (node : Option NodeId) :
    Keeps (fun s => ctx.Grounded s ∧ ctx.Extracted file s)
      ((ctx.among resolvers listeners).typeOf ty node) fun _ => True := by
  refine .of_state fun s t a s' t' h hrun => ?_
  have hamong : (ctx.among resolvers listeners).Grounded s := h.1
  have ho := onward_among.1 ((keeps_onward_typeOf hamong ty node).state (.refl s) hrun)
  refine ⟨⟨ho.changes.grounded h.1, h.2.onward h.1 ho fun owner path exports hrec => ?_⟩, trivial⟩
  exact ((ctx.among resolvers listeners).keeps_recorded_typeOf owner path exports ty node).state
    hrec hrun

/-- A file that has been extracted is extracted once more, and nothing is made. -/
theorem Extracted.again (h : ctx.Extracted file s) (hs : ctx.Grounded s) (t : Trail) :
    Action.Returns s t ((ctx.among resolvers listeners).extractFile file) fun _ s' =>
      ctx.program.Calm s s' := by
  unfold Context.extractFile
  cases h with
  | outside hmodule =>
      refine ⟨(), s, t, ?_, .refl _ s⟩
      rw [Action.bind_apply, hmodule s t (.refl s)]
      rfl
  | inside owner exports hmodule hexports hrecorded =>
      have hproject : s.projectFor? file = some owner.project :=
        (project_of_resolveModule? (hmodule s t (.refl s))).symm
      have hfound : Action.Returns s t (Action.resolveModule? file) fun o s' =>
          o = some owner ∧ s' = s := ⟨some owner, s, t, hmodule s t (.refl s), rfl, rfl⟩
      refine hfound.bind fun o s' t' hsame => ?_
      rcases hsame with ⟨rfl, rfl⟩
      refine (hexports resolvers listeners s' t' (.refl s')).bind fun e s₁ t₁ hfind => ?_
      rcases hfind with ⟨ho, hquiet, he⟩
      split
      · exact .pure hquiet.calm
      · rename_i hsome
        refine .get ?_
        split
        · exact .pure hquiet.calm
        · rename_i path hpath
          refine ⟨⟨⟩, s₁.record owner path e, t₁, rfl, ?_⟩
          have hrecord : ctx.program.Calm s₁ (s₁.record owner path e) := by
            refine ⟨rfl, s₁.withoutExports_record owner path e, rfl, fun _ _ hx => hx,
              fun hfirm hapart => ?_⟩
            -- The same exports are there already.
            rw [ho.filesApart hs] at hapart
            rw [he hfirm] at hsome ⊢
            have hrelative : s'.relativeFile? file = some path := by
              rw [State.relativeFile?, hproject, ← hpath, hquiet.projects]
              rfl
            have hthere := hrecorded hfirm hapart (Bool.eq_false_iff.2 hsome) path hrelative
            have hthere₁ : Recorded owner path exports s₁ := by
              unfold Recorded
              rw [hquiet.projects]
              exact hthere
            rw [hthere₁.record_eq]
          exact hquiet.calm.trans hrecord

end

end Context

end DocModel
