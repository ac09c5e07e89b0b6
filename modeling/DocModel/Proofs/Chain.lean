import DocModel.Proofs.Change
import DocModel.Proofs.Sorts

/-!
# Registration is a chain of changes

Looking up a reference and building a type lead from a state to another by changes of the sorts that
there are, and by nothing else. Calls of which this is known are orderly. Here it is shown of all
that registers a declaration, with calls that are orderly.

Besides, the nesting depth afterwards is what it was before, or zero. A member of an enumeration is
looked up with the depth set to zero, and if what is around it has no reference, the depth stays
zero. The way out of a type does not start from zero, so of a type that is done it is known that the
depth was not lost in it. It has the form that the depth leaves it: `Ty.Law` is any condition on
types that may depend on the depth at which a type stands, as long as it is met by texts at every
depth, and by what has a layer around types one level further in.

A symbol that can have a reference gets it, and a symbol that gets a reference has it entered. So a
namespace that was asked for has a reference from then on, or never.

## Main definitions

* `Ty.Law`: A condition on types that depends on the depth.
* `Context.From`: A state that changes have led to, with the depth that is expected, or zero.
* `Context.chained`: Such states, as something to be kept.
* `Context.Replies`: What is known after a symbol was looked up.
* `Calls.Orderly`: The two calls lead from state to state by changes.

## Theorems

* `Calls.Orderly.keep`: What is built with orderly calls.
* `Calls.Orderly.owningModule?`: The module of a declaration.
* `Calls.Orderly.register`, `Calls.Orderly.registerNamespace`: Registering a declaration.
* `Calls.Orderly.registerDeclaration`: Registering whatever can be registered.
-/

namespace DocModel

/-- A condition on types that depends on the depth at which they stand, up to a limit. -/
structure Ty.Law (limit : Nat) (law : Nat → Ty → Prop) : Prop where
  admits : ∀ d, Ty.Admits (law d)
  layers : ∀ d, d < limit → Ty.Layers (law (d + 1)) (law d)

/-- Every type will do. -/
theorem Ty.law_true (limit : Nat) : Ty.Law limit fun _ _ => True :=
  ⟨fun _ => ⟨fun _ => trivial, fun _ _ => trivial⟩, fun _ _ =>
    { verbatim := fun _ => trivial, primitive := fun _ _ => trivial
      layer := fun _ _ _ => trivial, union := fun _ _ => trivial }⟩

namespace Context

variable (ctx : Context) (law : Nat → Ty → Prop)

/-- A state in order, for the settings of an extraction. -/
abbrev Grounded (s : State) : Prop := DocModel.Grounded ctx.settings.passthroughModules s

/-- A state that changes have led to, with the depth that is expected. The depth may be lost, which
    leaves it at zero, but not if members of enumerations are enclosed. Those that got a reference
    on the way are housed. -/
structure From (s : State) (d : Nat) (s' : State) : Prop where
  changes : Changes ctx.program ctx.settings.passthroughModules (law 0) s s'
  depth : s'.depth = d ∨ s'.depth = 0
  kept : ctx.program.MembersEnclosed s → s'.depth = d
  housed : ∀ x, ctx.program.resolveAlias x = x → ctx.program.isEnumMember x = true →
    s'.registry.contains x = true → s.registry.contains x = true ∨ ctx.program.Housed s' x

/-- States that changes have led to. Results can be relied on as long as the depth is not lost. -/
def chained (s : State) (d : Nat) : Guard where
  holds := fun s' _ => ctx.From law s d s'
  whole := fun depth => depth = d

/-- What is known after a symbol was looked up. -/
structure Replies (x : SymbolId) (s : State) (o : Option Reference) (s' : State) : Prop
    extends ctx.From law s s.depth s' where
  refused : o = none → ¬ ctx.program.Referable s x
  entered : ∀ ref, o = some ref → s'.registry.contains x = true

/-- A symbol that gets no reference cannot have one. -/
theorem Replies.not_hasReference {ctx : Context} {law : Nat → Ty → Prop} {x : SymbolId}
    {s s' : State} {o : Option Reference} (h : ctx.Replies law x s o s') (ho : o = none) :
    ¬ ctx.program.HasReference s.projects x := fun hhas => h.refused ho (Or.inl hhas)

namespace From

variable {ctx law} {s s' s'' : State} {d d' : Nat}

theorem refl (s : State) : ctx.From law s s.depth s :=
  ⟨Changes.refl s, Or.inl rfl, fun _ => rfl, fun _ _ _ hx => Or.inl hx⟩

/-- From depth zero there is none to lose. -/
theorem depth_zero (h : ctx.From law s 0 s') : s'.depth = 0 := h.depth.elim id id

/-- Members that were enclosed still are. -/
theorem enclosed (h : ctx.From law s d s') (he : ctx.program.MembersEnclosed s) :
    ctx.program.MembersEnclosed s' :=
  he.mono h.changes.projects fun _ => h.changes.contains

/-- Changes lead on from where others have led. -/
theorem trans (h : ctx.From law s d s') (h' : ctx.From law s' d' s'') :
    ctx.From law s d' s'' := by
  refine ⟨h.changes.trans h'.changes, h'.depth, fun he => h'.kept (h.enclosed he), ?_⟩
  intro x hself hmember hx
  rcases h'.housed x hself hmember hx with hx' | hhoused
  · exact (h.housed x hself hmember hx').imp_right h'.changes.housed
  · exact Or.inr hhoused

/-- What leads on from depth zero has lost any other, unless members are not enclosed. -/
theorem lost (h : ctx.From law s 0 s') (hd : ¬ ctx.program.MembersEnclosed s) :
    ctx.From law s d s' :=
  ⟨h.changes, Or.inr h.depth_zero, fun he => absurd he hd, h.housed⟩

/-- Work that keeps the depth keeps the depth that is expected. -/
theorem after (h : ctx.From law s d s') (h' : ctx.From law s' s'.depth s'') :
    ctx.From law s d s'' := by
  refine { h.trans h' with depth := ?_, kept := fun he => ?_ }
  · rcases h'.depth with heq | hzero
    · rw [heq]
      exact h.depth
    · exact Or.inr hzero
  · rw [h'.kept (h.enclosed he), h.kept he]

/-- One change more, in which nothing is entered. -/
theorem step (h : ctx.From law s d s')
    (hc : Change ctx.program ctx.settings.passthroughModules (law 0) s' s'')
    (hd : s''.depth = s'.depth)
    (hr : ∀ x, s''.registry.contains x = true → s'.registry.contains x = true :=
      by exact fun _ hx => hx) : ctx.From law s d s'' :=
  h.after ⟨Changes.one hc, Or.inl hd, fun _ => hd, fun x _ _ hx => Or.inl (hr x hx)⟩

/-- One change more, in which a reference is entered. -/
theorem enter (h : ctx.From law s d s')
    (hc : Change ctx.program ctx.settings.passthroughModules (law 0) s' s'')
    (hd : s''.depth = s'.depth) {x : SymbolId} {ref : Reference}
    (hr : s''.registry = s'.registry.insert x ref)
    (hx : ctx.program.resolveAlias x = x → ctx.program.isEnumMember x = true →
      ctx.program.Housed s'' x) : ctx.From law s d s'' := by
  refine h.after ⟨Changes.one hc, Or.inl hd, fun _ => hd, fun y hself hmember hy => ?_⟩
  rw [hr] at hy
  rcases (Registry.contains_insert _ _ _ _).1 hy with rfl | hy
  · exact Or.inr (hx hself hmember)
  · exact Or.inl hy

/-- What is entered for a symbol that is no member of an enumeration houses nothing. -/
theorem enterOther (h : ctx.From law s d s')
    (hc : Change ctx.program ctx.settings.passthroughModules (law 0) s' s'')
    (hd : s''.depth = s'.depth) {x : SymbolId} {ref : Reference} {info : SymbolInfo}
    (hr : s''.registry = s'.registry.insert x ref) (hinfo : ctx.program.symbol? x = some info)
    (hkind : info.kind ≠ .enumMember) : ctx.From law s d s'' := by
  refine h.enter hc hd hr fun _ hmember => ?_
  rw [Program.isEnumMember_of_symbol? hinfo, beq_iff_eq] at hmember
  exact absurd hmember hkind

/-- The depth may be set to another. -/
theorem withDepth (h : ctx.From law s d s') (d' : Nat) :
    ctx.From law s d' { s' with depth := d' } :=
  ⟨h.changes.trans (Changes.one (.depth d')), Or.inl rfl, fun _ => rfl, h.housed⟩

theorem grounded (h : ctx.From law s d s') (hs : ctx.Grounded s) : ctx.Grounded s' :=
  h.changes.grounded hs

theorem bears (s : State) (d : Nat) {members : List SymbolId}
    (hmembers : ∀ x ∈ members, ∃ owner, ctx.program.Lists owner x ∧
      s.registry.contains owner = true) :
    Bears ctx.program members (ctx.chained law s d) where
  mint := fun _ _ name kind h => From.step h (.mint name kind) rfl
  utility := fun _ _ name ref h => From.step h (.utility name ref) rfl
  member := fun s' _ x info ref hmem hx hk h => by
    rcases hmembers x hmem with ⟨owner, hlists, howner⟩
    have howner' : s'.registry.contains owner = true := (From.changes h).contains howner
    refine From.enter h (.enter x info ref hx (Or.inr (Or.inl hk))
      (Or.inr ⟨hk, owner, hlists, howner'⟩)) rfl rfl fun _ _ => Or.inl ⟨owner, hlists, ?_⟩
    exact (Registry.contains_insert _ _ _ _).2 (Or.inr howner')

/-- Where no members are entered, anything can be built. -/
theorem bears_nil (s : State) (d : Nat) : Bears ctx.program [] (ctx.chained law s d) :=
  bears s d (List.forall_mem_nil _)

end From

end Context

/-- The two calls lead from state to state by changes. Building a type loses no depth. -/
structure Calls.Orderly (calls : Calls) (ctx : Context) (law : Nat → Ty → Prop) : Prop where
  reference : ∀ x s t o s' t', ctx.Grounded s → calls.reference x s t = .ok ((o, s'), t') →
    ctx.Replies law x s o s'
  normalize : ∀ ty node expanding s t a s' t', ctx.Grounded s →
    calls.normalize ty node expanding s t = .ok ((a, s'), t') →
    ctx.From law s s.depth s' ∧ s'.depth = s.depth ∧ law s.depth a

/-- An action that leads from state to state by changes keeps that changes have led there. Where it
    has not lost the depth, the depth was there before. -/
theorem Context.keeps_chained {ctx : Context} {law : Nat → Ty → Prop} {s : State} {α : Type}
    {act : Action α} {ok : α → Prop} (hs : ctx.Grounded s) (d : Nat)
    (h : ∀ s₁ t a s₂ t', ctx.Grounded s₁ → act s₁ t = .ok ((a, s₂), t') →
      ctx.From law s₁ s₁.depth s₂ ∧ (s₁.depth = d → s₂.depth = d → ok a)) :
    Keeps (ctx.chained law s d) act ok := by
  refine ⟨fun s₁ t a s₂ t' h₁ hrun => ?_, False.elim⟩
  have h₁ : ctx.From law s d s₁ := h₁
  rcases h s₁ t a s₂ t' (h₁.grounded hs) hrun with ⟨h₂, ha⟩
  refine ⟨h₁.after h₂, fun hwhole => ?_⟩
  have hwhole : s₂.depth = d := hwhole
  -- A depth that is not lost at the end was not lost before.
  have hd : s₁.depth = d := by
    have hbefore := h₁.depth
    have hafter := h₂.depth
    omega
  exact ⟨hd, ha hd hwhole⟩

/-- What changes lead to is kept by itself, where nothing is said of results. -/
theorem Context.From.keeps {ctx : Context} {law : Nat → Ty → Prop} {s : State} {d : Nat} {α : Type}
    {act : Action α} {ok : α → Prop} (h : Keeps (ctx.chained law s d) act ok) :
    Keeps (ctx.From law s d) act fun _ => True :=
  .of_state fun s₁ t a s₂ t' h₁ hrun => ⟨(h.holds s₁ t a s₂ t' h₁ hrun).1, trivial⟩

/-- What is built with such calls is built from types that obey the law at the depth in hand. -/
theorem Calls.Orderly.keep {calls : Calls} {ctx : Context} {law : Nat → Ty → Prop}
    (h : calls.Orderly ctx law) {s : State} (hs : ctx.Grounded s) (d : Nat) :
    calls.Keep (ctx.chained law s d) (law d) := by
  refine ⟨fun x => Context.keeps_chained hs d fun s₁ t o s₂ t' hs₁ hrun => ?_,
    fun ty node expanding => Context.keeps_chained hs d fun s₁ t a s₂ t' hs₁ hrun => ?_⟩
  · exact ⟨(h.reference x s₁ t o s₂ t' hs₁ hrun).toFrom, fun _ _ => trivial⟩
  · rcases h.normalize ty node expanding s₁ t a s₂ t' hs₁ hrun with ⟨h₂, _, ha⟩
    exact ⟨h₂, fun hd _ => hd ▸ ha⟩

/-- A module that stands below another is a child of it. -/
theorem ModuleTree.Sound.find?_of_childrenPath {tree : ModuleTree} (h : tree.Sound)
    {parent id : ModuleId} {m m' : Module} {name : String} (hm : tree.get? parent = some m)
    (hm' : tree.get? id = some m') (hpath : m'.childrenPath = m.childrenPath ++ [name]) :
    m.modules.find? name = some id := by
  have hfound := h.found id m' hm'
  rw [hpath, ModuleTree.find?_append tree _ _ (h.childrenPath_ne_nil parent m hm),
    h.found parent m hm, Option.bind_some, hm, Option.bind_some] at hfound
  exact hfound

/-- The module of a file is there or is made, and stands at the names of the file. -/
theorem Context.From.resolveModule? {ctx : Context} (law : Nat → Ty → Prop) {s s' : State}
    {t t' : Trail} {file : Path} {o : Option ModuleHandle} (hs : ctx.Grounded s)
    (hrun : Action.resolveModule? file s t = .ok ((o, s'), t')) :
    ctx.From law s s.depth s' ∧ s'.registry = s.registry ∧ s'.namespaces = s.namespaces ∧
      (o = none → ctx.program.isOutside s.projects file = true) ∧
      ∀ h, o = some h → ∃ m, moduleIn s'.projects h = some m ∧
        placeIn ctx.settings.passthroughModules s'.projects file = some m.childrenPath := by
  unfold Action.resolveModule? at hrun
  rw [Action.get_bind] at hrun
  cases hi : s.projectFor? file with
  | none =>
      simp only [hi] at hrun
      rcases Action.pure_eq_ok hrun with ⟨rfl, rfl⟩
      refine ⟨.refl s, rfl, rfl, fun _ => ?_, fun _ hh => absurd hh.symm (Option.some_ne_none _)⟩
      rw [Program.isOutside, show ({ projects := s.projects } : State).projectFor? file = none
        from hi, Option.isNone_none, Bool.or_true]
  | some i =>
      simp only [hi] at hrun
      rcases Action.bind_eq_ok hrun with ⟨project, _, _, hlift, hrun⟩
      rcases Action.require_eq_ok hlift with ⟨hp, rfl, rfl⟩
      rcases Action.bind_eq_ok hrun with ⟨⟨id, tree⟩, _, _, hlift, hrun⟩
      rcases Action.require_eq_ok hlift with ⟨hres, rfl, rfl⟩
      simp only [Action.setTree_bind, updateTree_eq s i project hp] at hrun
      rcases Action.pure_eq_ok hrun with ⟨rfl, rfl⟩
      -- A sound tree finds the module or makes it, and the module stands at the names of the file.
      have hmem := List.mem_of_getElem? hp
      have hsound := hs.trees.sound project hmem
      rcases hsound.resolveModule file with ⟨id', tree', m, hres', he, hm⟩
      rcases Prod.mk.inj (Option.some.inj (hres.symm.trans hres')) with ⟨rfl, rfl⟩
      rcases hsound.root with ⟨root, hroot, hpath⟩
      rcases (hs.located project hmem).resolveModule hsound (startsWith_of_projectFor? hi hp) hres
        hroot hm with ⟨hl, hplace⟩
      have hgrow := grow_withTree s.projects i tree project hp he.grows
      refine ⟨(From.refl s).step (.enlarge i project tree hp he hl) rfl, rfl, rfl,
        fun hh => absurd hh (Option.some_ne_none _), ?_⟩
      intro h hh
      refine ⟨m, ?_, ?_⟩
      · rw [← Option.some.inj hh, moduleIn_withTree _ i tree project hp, if_pos rfl, hm]
      · rw [placeIn_of_grow _ hgrow, placeIn, show ({ projects := s.projects } : State).projectFor?
          file = some i from hi, Option.bind_eq_bind, Option.bind_some, hp, hplace,
          hsound.childrenPath _ root hroot, hpath, hs.trees.root project hmem root hroot]
        rfl

section

variable {calls : Calls} {ctx : Context} {law : Nat → Ty → Prop} {s s' : State} {t t' : Trail}
  {info : SymbolInfo} {node : NodeInfo}

/-- The module of a file owns a declaration in it, if no namespace around it does. -/
theorem Owner.of_resolveModule? {o : Option ModuleHandle} (hs : ctx.Grounded s)
    (hin : ctx.program.isOutside s.projects node.file = false)
    (hnone : ∀ parent, info.parent = some parent → ctx.program.isNamespace parent = true →
      s.namespaces.find? parent = none ∧
        (ctx.program.HasReference s.projects parent → s.registry.contains parent = true))
    (hrun : Action.resolveModule? node.file s t = .ok ((o, s'), t')) :
    ctx.From law s s.depth s' ∧ ∃ handle, o = some handle ∧
      Owner ctx.program ctx.settings.passthroughModules s' info node handle := by
  rcases Context.From.resolveModule? law hs hrun with ⟨hfrom, hreg, hns, hout, hplace⟩
  refine ⟨hfrom, ?_⟩
  cases o with
  | none =>
      have hout := hout rfl
      rw [hin] at hout
      exact absurd hout Bool.false_ne_true
  | some handle =>
      refine ⟨handle, rfl, .file (fun parent hparent hspace => ?_) (hplace handle rfl)⟩
      rw [hreg, hns, Program.HasReference.grow hfrom.changes.projects]
      exact hnone parent hparent hspace

/-- The module of the namespace around a declaration owns it, or else that of its file. -/
theorem Owner.of_moduleWithin? {o : Option ModuleHandle} {parent : SymbolId}
    (hs : ctx.Grounded s) (hin : ctx.program.isOutside s.projects node.file = false)
    (hparent : info.parent = some parent) (hspace : ctx.program.isNamespace parent = true)
    (hasked : s.namespaces.find? parent = none →
      ctx.program.HasReference s.projects parent → s.registry.contains parent = true)
    (hrun : Calls.moduleWithin? parent node.file s t = .ok ((o, s'), t')) :
    ctx.From law s s.depth s' ∧ ∃ handle, o = some handle ∧
      Owner ctx.program ctx.settings.passthroughModules s' info node handle := by
  unfold Calls.moduleWithin? at hrun
  rw [Action.get_bind] at hrun
  cases hfind : s.namespaces.find? parent with
  | some handle =>
      simp only [hfind] at hrun
      rcases Action.pure_eq_ok hrun with ⟨rfl, rfl⟩
      exact ⟨.refl s, handle, rfl, .space parent hparent hspace hfind⟩
  | none =>
      simp only [hfind] at hrun
      refine Owner.of_resolveModule? hs hin (fun parent' hparent' _ => ?_) hrun
      have heq : parent = parent' := Option.some.inj (hparent.symm.trans hparent')
      rw [← heq]
      exact ⟨hfind, hasked hfind⟩

/-- The module that owns a declaration is there. -/
theorem Owner.exists_module {p : Program} {passthrough : List String} {handle : ModuleHandle}
    (h : Owner p passthrough s info node handle) (hs : Grounded passthrough s) :
    ∃ m, moduleIn s.projects handle = some m := by
  cases h with
  | space parent _ _ hfind => exact hs.spaces parent handle hfind
  | file _ hplace =>
      rcases hplace with ⟨m, hm, _⟩
      exact ⟨m, hm⟩

/-- Who owns what does not change while modules are made and references are entered. -/
theorem Owner.of_grow {p : Program} {passthrough : List String} {handle : ModuleHandle}
    (h : Owner p passthrough s info node handle) (hgrow : ProjectsGrow s.projects s'.projects)
    (hspaces : s'.namespaces = s.namespaces)
    (hregistry : ∀ x, s.registry.contains x = true → s'.registry.contains x = true) :
    Owner p passthrough s' info node handle := by
  cases h with
  | space parent hparent hspace hfind =>
      exact .space parent hparent hspace (by rw [hspaces, hfind])
  | file hnone hplace =>
      rcases hplace with ⟨m, hm, hplace⟩
      rcases hgrow.moduleIn handle m hm with ⟨m', hm', hg⟩
      refine .file (fun parent hparent hspace => ?_) ⟨m', hm', ?_⟩
      · rcases hnone parent hparent hspace with ⟨hfind, hasked⟩
        rw [hspaces, Program.HasReference.grow hgrow]
        exact ⟨hfind, fun hhas => hregistry parent (hasked hhas)⟩
      · rw [placeIn_of_grow passthrough hgrow, hplace, hg.childrenPath]

/-- A declaration that is built is put into its module. -/
theorem Context.From.finishDeclaration {s₀ : State} {d : Nat} {handle : ModuleHandle} {m : Module}
    {ref : Reference} {declaration : Declaration} {a : Unit} (h : ctx.From law s₀ d s)
    (hm : moduleIn s.projects handle = some m)
    (htypes : ∀ ty ∈ declaration.types, law 0 ty)
    (hrun : finishDeclaration ctx handle ref declaration s t = .ok ((a, s'), t')) :
    ctx.From law s₀ d s' ∧ s'.registry = s.registry := by
  rcases Option.bind_eq_some_iff.1 hm with ⟨project, hp, hget⟩
  unfold DocModel.finishDeclaration at hrun
  simp only [Action.get_bind, module?_eq, hm, updateTree_eq s handle.project project hp] at hrun
  rcases Prod.mk.inj (Except.ok.inj hrun) with ⟨hpair, _⟩
  rcases Prod.mk.inj hpair with ⟨_, rfl⟩
  exact ⟨h.step (.attach handle project m declaration _ hp hget htypes) rfl, rfl⟩

/-- A source file has the reference of the module that owns it. -/
theorem Context.From.fileReference {x : SymbolId} {o : Option Reference} (hs : ctx.Grounded s)
    (hx : Declared ctx.program s.projects x info node) (hkind : info.kind = .sourceFile)
    (hrun : Calls.fileReference x node s t = .ok ((o, s'), t')) :
    ctx.From law s s.depth s' ∧ s'.registry.contains x = true ∧ ∃ ref, o = some ref := by
  unfold Calls.fileReference at hrun
  rcases Action.bind_eq_ok hrun with ⟨o₁, s₁, t₁, hresolve, hrun⟩
  rcases Context.From.resolveModule? law hs hresolve with ⟨h₁, _, _, hout, hplace⟩
  cases o₁ with
  | none =>
      -- A file of the analysed sources has a module.
      have hout := hout rfl
      rw [hx.inside] at hout
      exact absurd hout Bool.false_ne_true
  | some handle =>
      rcases hplace handle rfl with ⟨m, hm, _⟩
      simp only [Action.get_bind, module?_eq, hm, Action.mint_bind, Action.enter_bind] at hrun
      rcases Action.pure_eq_ok hrun with ⟨rfl, rfl⟩
      have h₂ := h₁.step (.mint m.name .module) rfl
      refine ⟨h₂.enterOther (.enter x info _ hx.symbol (Or.inr (Or.inr (Or.inl hkind)))
        (Or.inl hx.resolved)) rfl rfl hx.symbol (by rw [hkind]; exact nofun),
        (Registry.contains_insert _ _ _ _).2 (Or.inl rfl), _, rfl⟩

/-- A namespace gets a module below the one that owns it. -/
theorem Context.From.enterSpace {s₀ : State} {d : Nat} {x : SymbolId} {outer : ModuleHandle}
    {project : Project} {m : Module} {id : ModuleId} {tree : ModuleTree} {details : NamespaceInfo}
    (h : ctx.From law s₀ d s) (hs : ctx.Grounded s)
    (hx : Declared ctx.program s.projects x info node) (hkind : info.kind = .namespaceScope)
    (howner : Owner ctx.program ctx.settings.passthroughModules s info node outer)
    (hp : s.projects[outer.project]? = some project)
    (hm : project.modules.get? outer.module = some m)
    (hmade : project.modules.namespaceModule outer.module info.name details = some (id, tree)) :
    ctx.From law s₀ d
      { s with
        projects := withTree s.projects outer.project tree
        registry := (s.registry.mint info.name .module).2.insert x
          { (s.registry.mint info.name .module).1 with path := some m.childrenPath }
        namespaces := s.namespaces.insert x ⟨outer.project, id⟩ } := by
  have hmem := List.mem_of_getElem? hp
  have hsound := hs.trees.sound project hmem
  -- A sound tree finds the module of the namespace or makes it.
  rcases hsound.namespaceModule outer.module m hm info.name details with
    ⟨id', tree', inner, hmade', he, hinner, hplace⟩
  rcases Prod.mk.inj (Option.some.inj (hmade.symm.trans hmade')) with ⟨rfl, rfl⟩
  have hlocated := (hs.located project hmem).grow hsound he.grows
    (ModuleTree.directories_namespaceModule hmade)
  have hgrow := grow_withTree s.projects outer.project tree project hp he.grows
  have h₁ := h.step (.enlarge outer.project project tree hp he hlocated) rfl
  have h₂ := h₁.step (.mint info.name .module) rfl
  -- The outer module has the new one among its children now.
  rcases he.grows.modules outer.module m hm with ⟨m', hm', hg⟩
  have hchild : m'.modules.find? info.name = some id :=
    he.sound.find?_of_childrenPath hm' hinner (by rw [hplace, hg.childrenPath])
  have houter : moduleIn (withTree s.projects outer.project tree) outer = some m' := by
    rw [moduleIn_withTree s.projects outer.project tree project hp, if_pos rfl, hm']
  have hx' : Declared ctx.program (withTree s.projects outer.project tree) x info node :=
    { hx with inside := by rw [isOutside_of_grow ctx.program hgrow, hx.inside] }
  refine h₂.enterOther (.space x info node outer m' id _ hx' hkind ?_ houter hchild ?_) rfl rfl
    hx.symbol (by rw [hkind]; exact nofun)
  · exact howner.of_grow hgrow rfl fun _ hc => hc
  · rw [hg.childrenPath]

namespace Calls.Orderly

variable (h : calls.Orderly ctx law)

include h

/-- A declaration of the analysed sources has a module that owns it. -/
theorem owningModule? {o : Option ModuleHandle} (hs : ctx.Grounded s)
    (hin : ctx.program.isOutside s.projects node.file = false)
    (hrun : calls.owningModule? ctx info node s t = .ok ((o, s'), t')) :
    ctx.From law s s.depth s' ∧ ∃ handle, o = some handle ∧
      Owner ctx.program ctx.settings.passthroughModules s' info node handle := by
  unfold Calls.owningModule? at hrun
  cases hparent : info.parent with
  | none =>
      simp only [hparent] at hrun
      refine Owner.of_resolveModule? hs hin (fun parent hparent' _ => ?_) hrun
      rw [hparent] at hparent'
      exact nomatch hparent'
  | some parent =>
      simp only [hparent] at hrun
      -- The namespace around it is asked for only if it has no module yet.
      by_cases hspace : ctx.program.isNamespace parent = true
      · rw [if_pos hspace, Action.get_bind] at hrun
        cases hc : s.namespaces.contains parent with
        | true =>
            rw [hc] at hrun
            refine Owner.of_moduleWithin? hs hin hparent hspace (fun hnone => ?_) hrun
            rw [Table.contains, hnone] at hc
            exact absurd hc (by decide)
        | false =>
            rw [hc] at hrun
            have hrun : (calls.reference parent >>= fun _ => moduleWithin? parent node.file) s t =
              .ok ((o, s'), t') := hrun
            rcases Action.bind_eq_ok hrun with ⟨o₁, s₁, t₁, hask, hrun⟩
            have hreply := h.reference parent s t o₁ s₁ t₁ hs hask
            have hgrow := hreply.changes.projects
            have hin₁ : ctx.program.isOutside s₁.projects node.file = false := by
              rw [isOutside_of_grow ctx.program hgrow, hin]
            -- The namespace was asked for just now, so it has a reference if it can have one.
            have hasked : ctx.program.HasReference s₁.projects parent →
                s₁.registry.contains parent = true := by
              intro hhas
              rw [Program.HasReference.grow hgrow] at hhas
              cases o₁ with
              | none => exact absurd hhas (hreply.not_hasReference rfl)
              | some ref => exact hreply.entered ref rfl
            rcases Owner.of_moduleWithin? (hreply.grounded hs) hin₁ hparent hspace
              (fun _ => hasked) hrun with ⟨hfrom, howner⟩
            exact ⟨hreply.toFrom.after hfrom, howner⟩
      · rw [if_neg hspace] at hrun
        refine Owner.of_resolveModule? hs hin (fun parent' hparent' hspace' => ?_) hrun
        have heq : parent = parent' := Option.some.inj (hparent.symm.trans hparent')
        rw [← heq] at hspace'
        exact absurd hspace' hspace

/-- The reference of a declaration is entered with the path of the module that owns it. -/
theorem beginDeclaration? {x : SymbolId} {kind : ReferenceKind}
    {o : Option (Reference × ModuleHandle)} (hs : ctx.Grounded s)
    (hx : Declared ctx.program s.projects x info node) (hspace : info.kind ≠ .namespaceScope)
    (hmember : info.kind ≠ .enumMember) (hkind : kind.isDeclaration = true)
    (hrun : calls.beginDeclaration? ctx x info node kind s t = .ok ((o, s'), t')) :
    ctx.From law s s.depth s' ∧ s'.registry.contains x = true ∧
      ∃ ref handle m, o = some (ref, handle) ∧ moduleIn s'.projects handle = some m := by
  unfold Calls.beginDeclaration? at hrun
  rcases Action.bind_eq_ok hrun with ⟨o₁, s₁, t₁, howning, hrun⟩
  rcases h.owningModule? hs hx.inside howning with ⟨hfrom, handle, rfl, howner⟩
  have hx₁ : Declared ctx.program s₁.projects x info node :=
    { hx with inside := by rw [isOutside_of_grow ctx.program hfrom.changes.projects, hx.inside] }
  rcases howner.exists_module (hfrom.grounded hs) with ⟨m, hm⟩
  simp only [Action.get_bind, module?_eq, hm, Action.mint_bind, Action.enter_bind] at hrun
  rcases Action.pure_eq_ok hrun with ⟨rfl, rfl⟩
  let ref : Reference := { (s₁.registry.mint info.name kind).1 with path := some m.childrenPath }
  -- First a number is given out, then the reference is entered with the path.
  have hminted := hfrom.step (.mint info.name kind) rfl
  refine ⟨hminted.enterOther (.declare x info node handle m ref hx₁ hspace ?_ hm rfl hkind) rfl rfl
      hx.symbol hmember,
    (Registry.contains_insert _ _ _ _).2 (Or.inl rfl), ref, handle, m, rfl, hm⟩
  exact howner.of_grow (ProjectsGrow.refl _) rfl fun _ hc => hc

/-- A declaration that is registered has a reference, and is built from types at depth zero. -/
theorem register {x : SymbolId} {kind : ReferenceKind} {build : Reference → Action Declaration}
    {o : Option Reference} (hs : ctx.Grounded s) (hzero : s.depth = 0)
    (hx : Declared ctx.program s.projects x info node) (hspace : info.kind ≠ .namespaceScope)
    (hmember : info.kind ≠ .enumMember) (hkind : kind.isDeclaration = true)
    {members : List SymbolId} (hbuild : calls.Builds ctx members build)
    (hmembers : ∀ y ∈ members, ctx.program.Lists x y) (hlaw : Ty.Admits (law 0))
    (hrun : calls.register ctx x info node kind build s t = .ok ((o, s'), t')) :
    ctx.From law s 0 s' ∧ s'.registry.contains x = true ∧ ∃ ref, o = some ref := by
  unfold Calls.register at hrun
  rcases Action.bind_eq_ok hrun with ⟨o₁, s₁, t₁, hbegin, hrun⟩
  rcases h.beginDeclaration? hs hx hspace hmember hkind hbegin with
    ⟨h₁, hx₁, ref, handle, m, rfl, hm⟩
  rw [hzero] at h₁
  rcases Action.bind_eq_ok hrun with ⟨declaration, s₂, t₂, hbuilt, hrun⟩
  -- The types of the declaration are those that the calls give at depth zero.
  have hstart : ctx.From law s₁ s₁.depth s₁ := .refl s₁
  rw [h₁.depth_zero] at hstart
  have hbears : Bears ctx.program members (ctx.chained law s₁ 0) :=
    Context.From.bears s₁ 0 fun y hy => ⟨x, hmembers y hy, hx₁⟩
  rcases (hbuild _ _ (h.keep (h₁.grounded hs) 0) hlaw hbears ref).holds s₁ t₁ declaration
    s₂ t₂ hstart hbuilt with ⟨h₂, htypes⟩
  have h₂ : ctx.From law s₁ 0 s₂ := h₂
  rcases h₂.changes.projects.moduleIn handle m hm with ⟨m₂, hm₂, _⟩
  rcases Action.bind_eq_ok hrun with ⟨_, s₃, t₃, hfinish, hrun⟩
  -- The module may have changed while the declaration was built, but it is still there.
  rcases (h₁.trans h₂).finishDeclaration hm₂ (htypes h₂.depth_zero).2 hfinish with ⟨h₃, hregistry⟩
  rcases Action.pure_eq_ok hrun with ⟨rfl, rfl⟩
  refine ⟨h₃, ?_, ref, rfl⟩
  rw [hregistry]
  exact h₂.changes.contains hx₁

/-- Looking up symbols one after the other is a chain of changes. -/
theorem lookUpAll (hs : ctx.Grounded s) (xs : List SymbolId) {a : Unit}
    (hrun : (xs.forM fun x => do let _ ← calls.reference x) s t = .ok ((a, s'), t')) :
    ctx.From law s s.depth s' := by
  have hall : Keeps (ctx.chained law s s.depth) (xs.forM fun x => do let _ ← calls.reference x)
      fun _ => True :=
    Keeps.forM xs fun x _ => ((h.keep hs s.depth).reference x).andThen fun _ => Keeps.pure trivial
  exact (hall.holds s t a s' t' (Context.From.refl s) hrun).1

/-- What a namespace exports is looked up once it has its module. -/
theorem registerNamespace {x : SymbolId} {o : Option Reference} (hs : ctx.Grounded s)
    (hx : Declared ctx.program s.projects x info node) (hkind : info.kind = .namespaceScope)
    (hrun : calls.registerNamespace ctx x info node s t = .ok ((o, s'), t')) :
    ctx.From law s s.depth s' ∧ s'.registry.contains x = true ∧ ∃ ref, o = some ref := by
  unfold Calls.registerNamespace at hrun
  rcases Action.bind_eq_ok hrun with ⟨o₁, s₁, t₁, howning, hrun⟩
  rcases h.owningModule? hs hx.inside howning with ⟨h₁, outer, rfl, howner⟩
  rcases howner.exists_module (h₁.grounded hs) with ⟨m, hm⟩
  rcases Option.bind_eq_some_iff.1 hm with ⟨project, hp, hget⟩
  simp only [Action.get_bind, module?_eq, hm, hp] at hrun
  rcases Action.bind_eq_ok hrun with ⟨⟨id, tree⟩, _, _, hlift, hrun⟩
  rcases Action.require_eq_ok hlift with ⟨hmade, rfl, rfl⟩
  simp only [Action.setTree_bind, updateTree_eq s₁ outer.project project hp, Action.mint_bind,
    Action.enter_bind, Action.modify_bind] at hrun
  have hx₁ : Declared ctx.program s₁.projects x info node :=
    { hx with inside := by rw [isOutside_of_grow ctx.program h₁.changes.projects, hx.inside] }
  have h₂ := h₁.enterSpace (h₁.grounded hs) hx₁ hkind howner hp hget hmade
  rcases Action.bind_eq_ok hrun with ⟨_, s₃, t₃, hexports, hrun⟩
  rcases Action.pure_eq_ok hrun with ⟨rfl, rfl⟩
  -- The exports come last, so that they find the module of the namespace.
  have h₃ := h.lookUpAll (h₂.grounded hs) (ctx.program.exportsOf x) hexports
  refine ⟨h₂.after h₃, h₃.changes.contains ?_, _, rfl⟩
  exact (Registry.contains_insert _ _ _ _).2 (Or.inl rfl)

variable (hlaw : Ty.Admits (law 0))

include hlaw

/-- What can be registered gets a reference, and nothing is done about the rest. -/
theorem registerDeclaration {x : SymbolId} {o : Option Reference} (hs : ctx.Grounded s)
    (hzero : s.depth = 0) (hx : Declared ctx.program s.projects x info node)
    (hrun : calls.registerDeclaration ctx x info node s t = .ok ((o, s'), t')) :
    ctx.From law s 0 s' ∧ (o = none → ctx.program.isRegistrable x info node = false) ∧
      ∀ ref, o = some ref → s'.registry.contains x = true := by
  cases hreg : ctx.program.isRegistrable x info node with
  | false =>
      rw [registerDeclaration_eq_none calls ctx x info node hreg] at hrun
      rcases Action.pure_eq_ok hrun with ⟨rfl, rfl⟩
      exact ⟨hzero ▸ Context.From.refl s, fun _ => rfl, nofun⟩
  | true =>
      have hdone : ctx.From law s 0 s' ∧ s'.registry.contains x = true ∧ ∃ ref, o = some ref := by
        -- A namespace, a source file, or something that is built.
        rcases calls.registerDeclaration_cases ctx hreg with ⟨hkind, heq⟩ | ⟨hkind, heq⟩ |
          ⟨hkind, kind, build, members, hdecl, hlisted, hbuild, heq⟩
        · rw [heq] at hrun
          rw [← hzero]
          exact h.registerNamespace hs hx hkind hrun
        · rw [heq] at hrun
          rw [← hzero]
          exact Context.From.fileReference hs hx hkind hrun
        · rw [heq] at hrun
          refine h.register hs hzero hx hkind (Program.isRegistrable_ne_enumMember hreg) hdecl
            hbuild (fun y hy => ⟨hx.resolved, ?_, ?_⟩) hlaw hrun
          · exact ⟨info, hx.symbol, (hlisted y hy).1⟩
          · exact (hlisted y hy).2
      rcases hdone with ⟨hfrom, hcontains, ref, rfl⟩
      exact ⟨hfrom, nofun, fun _ _ => hcontains⟩

end Calls.Orderly

end

end DocModel
