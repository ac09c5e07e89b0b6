import DocModel.Proofs.Builds
import DocModel.Proofs.Orderly
import DocModel.Proofs.Sorts

/-!
# What an extraction keeps

Whatever an extraction does, it does to the registry, to the trees of the projects and to what it
counts and tells. A guard that looks at the registry and at the roots of the projects alone can only
be broken where a reference is entered, and there are few occasions for that: a symbol that stands
for itself is looked up for the first time; a member comes up in its enumeration, or is given its
enumeration as a parent from outside; a symbol that stands for another takes over its reference.

So for every such guard it is enough to look at these occasions. That the symbol had no reference
when it was looked up is known of an earlier state, in which the guard was met, not of the state in
which the reference is entered: work done in between may have come across the same symbol.

Some declarations may be set apart. For them nothing is said here of how they are registered, and it
has to be shown by other means that their registration keeps the guard.

## Main definitions

* `Guard.Seen`, `Guard.Ready`: The guard was met when a symbol had a reference, and when it could
  get one and had none.
* `Guard.Endures`: A guard that no occasion breaks.
* `Calls.Declares`: A declaration is registered in keeping with a guard.

## Theorems

* `Guard.Endures.registerDeclaration`: Registering what is not set apart.
* `Guard.Endures.resolveSymbol`, `Guard.Endures.referenceStep`: Looking up a symbol.
* `Guard.Endures.keep`: Any number of steps.
* `Guard.Endures.explores`: Extracting files.
* `Session.performAll_keep`: A run of a session that adds no projects.
-/

namespace DocModel

/-- The guard was met at some time when the symbol had a reference. -/
def Guard.Seen (K : Guard) (x : SymbolId) : Prop :=
  ∃ s t, K.holds s t ∧ s.registry.contains x = true

/-- The guard was met at some time when the symbol had no reference. -/
def Guard.Unseen (K : Guard) (x : SymbolId) : Prop :=
  ∃ s t, K.holds s t ∧ s.registry.find? x = none

/-- The symbol stands for itself, and the guard was met at some time when it had no reference, and
    when it could have one. -/
structure Guard.Ready (K : Guard) (p : Program) (x : SymbolId) : Prop where
  self : p.resolveAlias x = x
  unseen : K.Unseen x
  hasReference : ∃ s t, K.holds s t ∧ p.HasReference s.projects x

/-- Work on the side: nothing was entered in the registry, no project was added, and modules export
    what they exported. -/
structure State.Aside (s s' : State) : Prop where
  registry : s'.registry = s.registry
  baseDirs : s'.projects.map (·.baseDir) = s.projects.map (·.baseDir)
  exports : ∀ h, (contentIn s'.projects h).exports = (contentIn s.projects h).exports

/-- A guard that is not broken where a reference is entered, and has to do with nothing else but the
    roots of the projects and the exports of modules. Some symbols are set apart: they are not
    registered as declarations. -/
structure Guard.Endures (K : Guard) (p : Program) (apart : SymbolId → Prop) : Prop where
  whole : ∀ d, K.whole d := by exact fun _ => trivial
  note : ∀ s t, K.holds s t → K.holds s (s :: t)
  aside : ∀ s s' t, K.holds s t → s.Aside s' → K.holds s' t
  mint : ∀ s t name kind, K.holds s t →
    K.holds { s with registry := (s.registry.mint name kind).2 } t
  /-- A symbol that stands for itself takes a new number. -/
  own : ∀ s t x (ref : Reference), K.holds s t → K.Ready p x →
    ref.id = ⟨s.registry.nextId⟩ → (apart x → ref.path = none) →
    K.holds { s with registry := (s.registry.mint ref.name ref.kind).2.insert x ref } t
  /-- A member from outside is given a parent. -/
  outer : ∀ s t x (ref : Reference), K.holds s t → K.Ready p x →
    p.isEnumMember x = true → ref.path = none →
    K.holds { s with registry := s.registry.insert x ref } t
  /-- A member comes up in its enumeration. -/
  member : ∀ s t x owner (ref : Reference), K.holds s t → K.Ready p owner →
    ¬ apart owner → p.Lists owner x → p.isEnumMember x = true →
    K.holds { s with registry := s.registry.insert x ref } t
  /-- A symbol takes over the reference of what it stands for. -/
  link : ∀ s t x (ref : Reference), K.holds s t → p.resolveAlias x ≠ x → K.Unseen x →
    K.Seen (p.resolveAlias x) →
    K.holds { s with registry := s.registry.insert x ref } t

/-- The declaration of a symbol of the analysed sources is registered in keeping with a guard. -/
def Calls.Declares (calls : Calls) (ctx : Context) (K : Guard) (x : SymbolId) : Prop :=
  ∀ info node, ctx.program.symbol? x = some info → ctx.program.declarationOf? info = some node →
    (∃ s t, K.holds s t ∧ ctx.program.isOutside s.projects node.file = false) →
    Keeps K (calls.registerDeclaration ctx x info node) fun o => ∀ ref, o = some ref → K.Seen x

/-- A tree that is replaced has no bearing on the roots of the projects. -/
theorem State.baseDirs_updateTree (s : State) (i : Nat) (change : ModuleTree → ModuleTree) :
    (s.updateTree i change).projects.map (·.baseDir) = s.projects.map (·.baseDir) := by
  rw [State.updateTree]
  refine List.ext_getElem? fun j => ?_
  rw [List.getElem?_map, List.getElem?_map, List.getElem?_modify]
  cases s.projects[j]? with
  | none => rfl
  | some project => simp only [Option.map_eq_map, Option.map_some]; split <;> rfl

/-- A guard that exports have no bearing on. -/
def Guard.ExportFree (K : Guard) : Prop :=
  ∀ s s' t, K.holds s t → s'.registry = s.registry →
    s'.projects.map (·.baseDir) = s.projects.map (·.baseDir) → K.holds s' t

theorem Guard.ExportFree.aside {K : Guard} (h : K.ExportFree) (s s' : State) (t : Trail)
    (hs : K.holds s t) (ha : s.Aside s') : K.holds s' t := h s s' t hs ha.registry ha.baseDirs

namespace State.Aside

variable {s s' : State}

/-- Everything but the registry and the projects may change. -/
theorem of_same (hr : s'.registry = s.registry) (hp : s'.projects = s.projects) : s.Aside s' :=
  ⟨hr, by rw [hp], fun _ => by rw [hp]⟩

/-- A tree may be put in place of another with the same content. -/
theorem updateTree {i : Nat} {project : Project} {tree : ModuleTree}
    (hp : s.projects[i]? = some project)
    (hcontent : ∀ id, tree.contentAt id = project.modules.contentAt id) :
    s.Aside (s.updateTree i fun _ => tree) := by
  refine ⟨rfl, s.baseDirs_updateTree i _, fun h => ?_⟩
  rw [updateTree_eq s i project hp]
  exact congrArg Module.exports (contentIn_withTree s.projects i tree project hp hcontent h)

/-- A declaration may be attached to a module, and listeners told. -/
theorem attach {h : ModuleHandle} {m : Module} (hm : s.module? h = some m) (d : Declaration)
    (notices : List Notice) :
    s.Aside { s.updateTree h.project (·.update h.module (·.addDeclaration d)) with notices } := by
  refine ⟨rfl, s.baseDirs_updateTree h.project (·.update h.module (·.addDeclaration d)),
    fun h' => ?_⟩
  rcases Option.bind_eq_some_iff.1 hm with ⟨project, hp, hget⟩
  rw [updateTree_eq s h.project project hp]
  change (contentIn (withTree s.projects h.project _) h').exports = _
  rw [contentIn_update s.projects h h' project hp m hget]
  split
  · rename_i heq
    rw [heq, contentIn, moduleIn, hp, Option.bind_some, hget]
    cases d <;> rfl
  · rfl

end State.Aside

namespace Guard.Endures

variable {ctx : Context} {K : Guard} {apart : SymbolId → Prop} (hK : K.Endures ctx.program apart)

include hK

/-- Anything but the registry and the projects may change. -/
theorem update {g : State → State} (hr : ∀ s, (g s).registry = s.registry)
    (hp : ∀ s, (g s).projects = s.projects) :
    Keeps K (modify g : Action PUnit) fun _ => True :=
  Keeps.update (fun s t hs => hK.aside s (g s) t hs (.of_same (hr s) (hp s)))
    fun s _ => hK.whole s.depth

theorem takeDepth : Keeps K Action.takeDepth fun _ => True := by
  refine ⟨fun s t a s' t' hs hrun => ?_, fun _ _ _ _ _ => rfl⟩
  rcases Prod.mk.inj (Except.ok.inj hrun) with ⟨hpair, rfl⟩
  rw [← (Prod.mk.inj hpair).2]
  exact ⟨hK.aside s _ t hs (.of_same rfl rfl), fun _ => ⟨hK.whole s.depth, trivial⟩⟩

theorem setDepth (d : Nat) : Keeps K (Action.setDepth d) fun _ => True :=
  hK.update (fun _ => rfl) fun _ => rfl

omit hK in
/-- What is looked at is looked at while the guard is met. -/
theorem entered? (x : SymbolId) : Keeps K (Action.entered? x)
    fun o => (∀ ref, o = some ref → K.Seen x) ∧ (o = none → K.Unseen x) := by
  refine Keeps.get fun s hs => Keeps.pure ⟨fun ref href => ?_, fun hnone => ?_⟩
  · rcases hs with ⟨t, hs⟩
    exact ⟨s, t, hs, Registry.contains_of_find? href⟩
  · rcases hs with ⟨t, hs⟩
    exact ⟨s, t, hs, hnone⟩

/-- A new number is given out and entered at once. -/
theorem mintEnter {x : SymbolId} {name : String} {kind : ReferenceKind}
    {g : Reference → Reference} (hx : K.Ready ctx.program x)
    (hid : ∀ ref, (g ref).id = ref.id) (hname : ∀ ref, (g ref).name = ref.name)
    (hkind : ∀ ref, (g ref).kind = ref.kind)
    (hpath : apart x → ∀ ref, ref.path = none → (g ref).path = none) {β : Type}
    {f : Reference → Action β} {ok : β → Prop}
    (hf : ∀ ref, ref.path = none → K.Seen x → Keeps K (f ref) ok) :
    Keeps K (Action.mint name kind >>= fun ref => Action.enter x (g ref) >>= fun _ => f ref)
      ok := by
  let next := fun (r : Registry) => (r.mint name kind).2.insert x (g (r.mint name kind).1)
  -- Nothing happens between the two, so they are one step.
  have hstep : ∀ s t, K.holds s t → K.holds { s with registry := next s.registry } t := by
    intro s t hs
    have hown := hK.own s t x (g (s.registry.mint name kind).1) hs hx (hid _)
      fun ha => hpath ha _ rfl
    rw [hname, hkind] at hown
    exact hown
  have hrest : ∀ s t, K.holds s t → Keeps K (f (s.registry.mint name kind).1) ok := by
    intro s t hs
    refine hf _ rfl ⟨_, t, hstep s t hs, ?_⟩
    exact (Registry.contains_insert _ _ _ _).2 (Or.inl rfl)
  refine ⟨fun s t b s' t' hs hrun => ?_, fun hblind s t u hs => ?_⟩
  · exact (hrest s t hs).holds { s with registry := next s.registry } t b s' t' (hstep s t hs) hrun
  · exact (hrest s t hs).blind hblind _ t u (hstep s t hs)

/-- Modules that are made on the way have nothing in them. -/
theorem resolveModule? (file : Path) : Keeps K (Action.resolveModule? file) fun _ => True := by
  unfold Action.resolveModule?
  refine Keeps.getAt fun s => ?_
  split
  · exact (Keeps.pure trivial).keepsAt s
  · refine KeepsAt.require fun project hp => KeepsAt.require fun made hmade => ?_
    refine KeepsAt.update (fun t hs => hK.aside s _ t hs ?_) (Keeps.pure trivial)
    exact .updateTree hp (ModuleTree.contentAt_resolveModule hmade)

theorem moduleWithin? (space : SymbolId) (file : Path) :
    Keeps K (Calls.moduleWithin? space file) fun _ => True := by
  refine Keeps.get fun s _ => ?_
  split
  · exact Keeps.pure trivial
  · exact hK.resolveModule? file

/-- What is built for a symbol that is not set apart. -/
theorem bears {x : SymbolId} (hx : K.Ready ctx.program x) (hin : ¬ apart x)
    {members : List SymbolId} (hmembers : ∀ y ∈ members, ctx.program.Lists x y) :
    Bears ctx.program members K where
  mint := hK.mint
  utility := fun s t _ _ hs => hK.aside s _ t hs (.of_same rfl rfl)
  member := fun s t y info ref hy hinfo hkind hs => by
    refine hK.member s t y x ref hs hx hin (hmembers y hy) ?_
    rw [Program.isEnumMember_of_symbol? hinfo, hkind]
    rfl

theorem finishDeclaration (handle : ModuleHandle) (ref : Reference) (declaration : Declaration) :
    Keeps K (DocModel.finishDeclaration ctx handle ref declaration) fun _ => True := by
  unfold DocModel.finishDeclaration
  refine ⟨fun s t a s' t' hs hrun => ⟨?_, fun _ => ⟨hK.whole s.depth, trivial⟩⟩,
    fun _ s t u _ => ?_⟩
  · rw [Action.get_bind] at hrun
    cases hm : s.module? handle with
    | none =>
        simp only [hm] at hrun
        rcases Prod.mk.inj (Except.ok.inj hrun) with ⟨hpair, rfl⟩
        rw [← (Prod.mk.inj hpair).2]
        exact hs
    | some module =>
        simp only [hm] at hrun
        rcases Prod.mk.inj (Except.ok.inj hrun) with ⟨hpair, rfl⟩
        rw [← (Prod.mk.inj hpair).2]
        exact hK.aside s _ t hs (.attach hm declaration _)
  · rw [Action.get_bind, Action.get_bind]
    cases s.module? handle <;> rfl

section

variable {calls : Calls} (h : calls.Keep K fun _ => True)

include h

theorem owningModule? (info : SymbolInfo) (node : NodeInfo) :
    Keeps K (calls.owningModule? ctx info node) fun _ => True := by
  unfold Calls.owningModule?
  split
  · exact hK.resolveModule? node.file
  · split
    · refine Keeps.get fun s _ => ?_
      split
      · exact (h.reference _).andThen fun _ => hK.moduleWithin? _ node.file
      · exact hK.moduleWithin? _ node.file
    · exact hK.resolveModule? node.file

variable {x : SymbolId} {info : SymbolInfo} {node : NodeInfo}

/-- The reference of a declaration is entered before the declaration is built. -/
theorem beginDeclaration? (kind : ReferenceKind) (hx : K.Ready ctx.program x) (hin : ¬ apart x) :
    Keeps K (calls.beginDeclaration? ctx x info node kind)
      fun o => ∀ pair, o = some pair → K.Seen x := by
  refine (hK.owningModule? h info node).andThen fun o => ?_
  cases o with
  | none => exact Keeps.pure_none
  | some handle =>
      refine Keeps.get fun s _ => ?_
      split
      · exact Keeps.pure_none
      · rename_i module _
        exact hK.mintEnter (g := fun ref => { ref with path := some module.childrenPath }) hx
          (fun _ => rfl) (fun _ => rfl) (fun _ => rfl) (fun ha => absurd ha hin)
          fun ref _ hseen => Keeps.pure fun _ _ => hseen

theorem register {kind : ReferenceKind} {build : Reference → Action Declaration}
    {members : List SymbolId} (hbuild : calls.Builds ctx members build)
    (hx : K.Ready ctx.program x) (hin : ¬ apart x)
    (hmembers : ∀ y ∈ members, ctx.program.Lists x y) :
    Keeps K (calls.register ctx x info node kind build)
      fun o => ∀ ref, o = some ref → K.Seen x := by
  refine (hK.beginDeclaration? h kind hx hin).bindWhole hK.whole fun o hseen => ?_
  cases o with
  | none => exact Keeps.pure_none
  | some pair =>
      -- Members come up while the declaration is built.
      refine (hbuild K _ h Ty.admits_true (hK.bears hx hin hmembers) pair.1).bindWhole hK.whole
        fun declaration _ => ?_
      refine (hK.finishDeclaration pair.2 pair.1 declaration).andThen fun _ => ?_
      exact Keeps.pure fun _ _ => hseen pair rfl

omit h in
theorem fileReference (hx : K.Ready ctx.program x) (hin : ¬ apart x) :
    Keeps K (Calls.fileReference x node) fun o => ∀ ref, o = some ref → K.Seen x := by
  refine (hK.resolveModule? node.file).andThen fun o => ?_
  cases o with
  | none => exact Keeps.pure_none
  | some handle =>
      refine Keeps.get fun s _ => ?_
      split
      · exact Keeps.pure_none
      · rename_i module _
        exact hK.mintEnter (g := fun ref => { ref with path := some module.path }) hx
          (fun _ => rfl) (fun _ => rfl) (fun _ => rfl) (fun ha => absurd ha hin)
          fun ref _ hseen => Keeps.pure fun _ _ => hseen

theorem registerNamespace (hx : K.Ready ctx.program x) (hin : ¬ apart x) :
    Keeps K (calls.registerNamespace ctx x info node)
      fun o => ∀ ref, o = some ref → K.Seen x := by
  refine (hK.owningModule? h info node).andThen fun o => ?_
  cases o with
  | none => exact Keeps.pure_none
  | some outer =>
      refine Keeps.getAt fun s => ?_
      split
      · rename_i project module hp _
        refine KeepsAt.require fun made hmade =>
          KeepsAt.update (fun t hs => hK.aside s _ t hs ?_) ?_
        · exact .updateTree hp (ModuleTree.contentAt_namespaceModule hmade)
        refine hK.mintEnter (g := fun ref => { ref with path := some module.childrenPath }) hx
          (fun _ => rfl) (fun _ => rfl) (fun _ => rfl) (fun ha => absurd ha hin)
          fun ref _ hseen => ?_
        -- The namespace is entered before what it exports is asked for.
        refine Keeps.andThen (hK.update (fun _ => rfl) fun _ => rfl) fun _ => ?_
        refine Keeps.andThen (Keeps.forM _ fun y _ => ?_) fun _ => Keeps.pure fun _ _ => hseen
        exact (h.reference y).andThen fun _ => Keeps.pure trivial
      · exact Keeps.pure_none.keepsAt s

/-- What can be registered is registered in keeping with the guard, unless it is set apart. -/
theorem registerDeclaration (hself : ctx.program.resolveAlias x = x) (hin : ¬ apart x)
    (hnone : K.Unseen x) (hinfo : ctx.program.symbol? x = some info)
    (hnode : ctx.program.declarationOf? info = some node) :
    Keeps K (calls.registerDeclaration ctx x info node)
      fun o => ∀ ref, o = some ref → K.Seen x := by
  cases hreg : ctx.program.isRegistrable x info node with
  | false =>
      rw [Calls.registerDeclaration_eq_none calls ctx x info node hreg]
      exact Keeps.pure_none
  | true =>
      -- What can be registered can have a reference.
      have hx : K.Ready ctx.program x := by
        rcases hnone with ⟨s, t, hs, hfind⟩
        refine ⟨hself, ⟨s, t, hs, hfind⟩, s, t, hs, ?_⟩
        rw [Program.hasReference_of_self hself hinfo]
        exact Or.inr ⟨node, hnode, Or.inr hreg⟩
      rcases calls.registerDeclaration_cases ctx hreg with ⟨_, heq⟩ | ⟨_, heq⟩ |
        ⟨_, kind, build, members, _, hmembers, hbuild, heq⟩
      · rw [heq]
        exact hK.registerNamespace h hx hin
      · rw [heq]
        exact hK.fileReference hx hin
      · rw [heq]
        exact hK.register h hbuild hx hin fun y hy =>
          ⟨hself, ⟨info, hinfo, (hmembers y hy).1⟩, (hmembers y hy).2⟩

/-- A member is entered when its parent is looked up, or not at all. -/
theorem enumMemberReference? :
    Keeps K (calls.enumMemberReference? x info) fun o => ∀ ref, o = some ref → K.Seen x := by
  refine hK.takeDepth.andThen fun depth => ?_
  split
  · exact Keeps.pure_none
  · -- The member itself is looked for after that.
    refine (h.reference _).andThen fun o => ?_
    cases o with
    | none => exact Keeps.pure_none
    | some _ => exact (hK.setDepth depth).andThen fun _ => (entered? x).mono fun _ ho => ho.1

theorem registerSymbol (hx : ctx.program.symbol? x = some info)
    (hnode : ctx.program.declarationOf? info = some node)
    (hinside : ∃ s t, K.holds s t ∧ ctx.program.isOutside s.projects node.file = false)
    (hdeclares : calls.Declares ctx K x) :
    Keeps K (calls.registerSymbol ctx x info node) fun o => ∀ ref, o = some ref → K.Seen x := by
  unfold Calls.registerSymbol
  split
  · exact hK.enumMemberReference? h
  · refine hK.takeDepth.andThen fun depth => ?_
    refine (hdeclares info node hx hnode hinside).bindWhole hK.whole fun o hseen => ?_
    exact (hK.setDepth depth).andThen fun _ => Keeps.pure hseen

omit hK in
theorem registerEnclosing? :
    Keeps K (calls.registerEnclosing? ctx x info) fun o => ∀ ref, o = some ref → K.Seen x := by
  unfold Calls.registerEnclosing?
  split
  · exact Keeps.pure_none
  · refine Keeps.get fun s _ => ?_
    split
    · exact (h.reference _).andThen fun _ => (entered? x).mono fun _ ho => ho.1
    · exact Keeps.pure_none

/-- A reference from outside leads nowhere, and only that of a member is entered once more. -/
theorem externalReference (hx : K.Ready ctx.program x) (hinfo : ctx.program.symbol? x = some info) :
    Keeps K (calls.externalReference ctx x info node) fun _ => K.Seen x := by
  unfold Calls.externalReference
  refine hK.mintEnter (g := fun ref => { ref with link := _ }) hx (fun _ => rfl) (fun _ => rfl)
    (fun _ => rfl) (fun _ _ hpath => hpath) fun ref hpath hseen => ?_
  split
  · rename_i parent hkind _
    refine (h.reference parent).andThen fun o => ?_
    cases o with
    | none => exact Keeps.pure hseen
    | some outer =>
        refine (Keeps.update fun s t hs => hK.outer s t x _ hs hx ?_ ?_).andThen fun _ =>
          Keeps.pure hseen
        · rw [Program.isEnumMember_of_symbol? hinfo, hkind]
          rfl
        · exact hpath
  · exact Keeps.pure hseen

/-- A symbol that stands for itself is looked up for the first time. -/
theorem resolveSymbol (hself : ctx.program.resolveAlias x = x)
    (hinfo : ctx.program.symbol? x = some info)
    (hnone : K.Unseen x) (hdeclares : calls.Declares ctx K x) :
    Keeps K (calls.resolveSymbol ctx x info) fun o => ∀ ref, o = some ref → K.Seen x := by
  unfold Calls.resolveSymbol
  split
  · rename_i hkind
    -- A type parameter always has a reference, so it may be entered.
    have hx : K.Ready ctx.program x := by
      rcases hnone with ⟨s, t, hs, hfind⟩
      refine ⟨hself, ⟨s, t, hs, hfind⟩, s, t, hs, ?_⟩
      rw [Program.hasReference_of_self hself hinfo]
      exact Or.inl hkind
    exact hK.mintEnter (g := fun ref => ref) hx (fun _ => rfl) (fun _ => rfl) (fun _ => rfl)
      (fun _ _ hpath => hpath) fun ref _ hseen => Keeps.pure fun _ _ => hseen
  · split
    · exact Keeps.pure_none
    · rename_i node hnode
      refine Keeps.get fun s hs => ?_
      split
      · rename_i hout
        rcases hs with ⟨t, hs⟩
        -- So has what is declared outside.
        have hx : K.Ready ctx.program x := by
          refine ⟨hself, hnone, s, t, hs, ?_⟩
          rw [Program.hasReference_of_self hself hinfo]
          exact Or.inr ⟨node, hnode, Or.inl hout⟩
        exact (hK.externalReference h hx hinfo).bind fun ref => Keeps.pure fun hseen _ _ => hseen
      · rename_i hin
        rcases hs with ⟨t, hs⟩
        -- The namespace around it goes first, and may have entered the symbol.
        refine (registerEnclosing? h).bindWhole hK.whole fun o hseen => ?_
        cases o with
        | some ref => exact Keeps.pure fun _ _ => hseen ref rfl
        | none =>
            exact hK.registerSymbol h hinfo hnode ⟨s, t, hs, Bool.eq_false_iff.2 hin⟩ hdeclares

variable (hapart : ∀ x, apart x → ctx.program.resolveAlias x = x →
  K.Unseen x → calls.Declares ctx K x)

include hapart

theorem referenceStep (x : SymbolId) : Keeps K (calls.referenceStep ctx x) fun _ => True := by
  -- Symbols set apart are registered as assumed, all others as the guard allows.
  have hdeclares : ∀ x, ctx.program.resolveAlias x = x → K.Unseen x → calls.Declares ctx K x := by
    intro x hself hnone
    by_cases ha : apart x
    · exact hapart x ha hself hnone
    · exact fun _ _ hinfo hnode _ => hK.registerDeclaration h hself ha hnone hinfo hnode
  refine (entered? x).bindWhole hK.whole fun o ho => ?_
  cases o with
  | some ref => exact Keeps.pure trivial
  | none =>
      dsimp only
      split
      · rename_i hself
        split
        · exact Keeps.pure trivial
        · rename_i info hinfo
          have hnone := ho.2 rfl
          exact (hK.resolveSymbol h hself hinfo hnone (hdeclares x hself hnone)).mono
            fun _ _ => trivial
      · -- The symbol stands for another, which is looked up first.
        rename_i hne
        have hx := ho.2 rfl
        refine (entered? (ctx.program.resolveAlias x)).bindWhole hK.whole fun o ho => ?_
        cases o with
        | some ref =>
            exact (Keeps.update fun s t hs => hK.link s t x ref hs hne hx (ho.1 ref rfl)).andThen
              fun _ => Keeps.pure trivial
        | none =>
            dsimp only
            split
            · exact Keeps.pure trivial
            · rename_i info hinfo
              have hself := ctx.program.resolveAlias_resolveAlias x
              have hnone := ho.2 rfl
              refine (hK.resolveSymbol h hself hinfo hnone (hdeclares _ hself hnone)).bindWhole
                hK.whole fun o hseen => ?_
              cases o with
              | none => exact Keeps.pure trivial
              | some ref =>
                  have hseen := hseen ref rfl
                  exact (Keeps.update fun s t hs => hK.link s t x ref hs hne hx hseen).andThen
                    fun _ => Keeps.pure trivial

omit hapart in
theorem normalizeStep (ty : TypeId) (node : Option NodeId) (expanding : Option SymbolId) :
    Keeps K (calls.normalizeStep ctx ty node expanding) fun _ => True := by
  have hlayers : Ty.Layers (fun _ => True) fun _ => True :=
    { verbatim := fun _ => trivial, primitive := fun _ _ => trivial
      layer := fun _ _ _ => trivial, union := fun _ _ => trivial }
  have hbears : Bears ctx.program [] K :=
    { mint := hK.mint
      utility := fun s t _ _ hs => hK.aside s _ t hs (.of_same rfl rfl)
      member := fun _ _ _ _ _ hmem => absurd hmem List.not_mem_nil }
  refine Keeps.get fun s _ => ?_
  split
  · exact Keeps.pure trivial
  · refine Keeps.andThen (hK.update (fun _ => rfl) fun _ => rfl) fun _ => ?_
    refine (h.normalizeType hlayers hbears ctx.program ty node expanding).andThen fun a => ?_
    have hback : Keeps K Action.ascend fun _ => True :=
      .ascend (fun s t _ hs => hK.aside s _ t hs (.of_same rfl rfl)) hK.whole
    exact hback.andThen fun _ => Keeps.pure trivial

end

/-- The two calls keep the guard in any number of steps, if the declarations that are set apart are
    registered in keeping with it. -/
theorem keep (hapart : ∀ n x, apart x → ctx.program.resolveAlias x = x → K.Unseen x →
      Calls.Keep ⟨ctx.reference n, ctx.normalize n⟩ K (fun _ => True) →
      Calls.Declares ⟨ctx.reference n, ctx.normalize n⟩ ctx K x) (n : Nat) :
    Calls.Keep ⟨ctx.reference n, ctx.normalize n⟩ K fun _ => True := by
  have hnote : Keeps K Action.note fun _ => True := by
    refine ⟨fun s t a s' t' hs hrun => ?_, fun _ _ _ _ _ => rfl⟩
    rcases Prod.mk.inj (Except.ok.inj hrun) with ⟨hpair, rfl⟩
    rw [← (Prod.mk.inj hpair).2]
    exact ⟨hK.note s t hs, fun hw => ⟨hw, trivial⟩⟩
  induction n with
  | zero => exact ⟨fun _ => Keeps.fail .endless, fun _ _ _ => Keeps.fail .endless⟩
  | succ n ih =>
      refine ⟨fun x => ?_, fun ty node expanding => ?_⟩
      · exact hnote.andThen fun _ =>
          hK.referenceStep ih (fun x ha hself hnone => hapart n x ha hself hnone ih) x
      · exact hnote.andThen fun _ => hK.normalizeStep ih ty node expanding

/-- What asking keeps is kept while exports are tracked. -/
theorem tracks (h : Calls.Keep ⟨ctx.reference ctx.steps, ctx.normalize ctx.steps⟩ K
    fun _ => True) : ctx.Tracks K where
  referenceOf := h.reference
  resolveModule? := hK.resolveModule?

/-- If exports have no bearing on the guard either, it is kept while files are extracted. -/
theorem explores (h : Calls.Keep ⟨ctx.reference ctx.steps, ctx.normalize ctx.steps⟩ K
    fun _ => True) (hexports : K.ExportFree) : ctx.Explores K where
  toTracks := hK.tracks h
  exports := fun s t _ _ _ hs => hexports s _ t hs rfl (s.baseDirs_updateTree _ _)

end Guard.Endures

namespace Session

variable {p : Program} {K : Guard} {apart : SymbolId → Prop} {s s' : Session}

/-- An operation that adds no project keeps a guard that asking keeps. -/
theorem perform_endures (hK : K.Endures s.context.program apart) (hexports : K.ExportFree)
    (hkeep : Calls.Keep ⟨s.context.reference s.context.steps,
      s.context.normalize s.context.steps⟩ K fun _ => True) {op : Operation}
    (hop : op.addsProject = false) (hs : K.holds s.state s.trail) (hrun : s.perform op = .ok s') :
    s'.context.program = s.context.program ∧ K.holds s'.state s'.trail := by
  have hexplores := hK.explores hkeep hexports
  have hkept := perform_keep hexplores.toTracks hexplores.extractFile
    (fun ty node => hkeep.normalize ty node none) hop hs (hK.note _ _ hs) hrun
  exact ⟨hkept.1, hkept.2.2⟩

/-- So does a run. What is added to the context on the way has no bearing on it. -/
theorem performAll_keep (hK : K.Endures p apart) (hexports : K.ExportFree)
    (hkeep : ∀ ctx : Context, ctx.program = p →
      Calls.Keep ⟨ctx.reference ctx.steps, ctx.normalize ctx.steps⟩ K fun _ => True)
    (hp : s.context.program = p) (ops : List Operation) (hops : ∀ op ∈ ops, op.addsProject = false)
    (hs : K.holds s.state s.trail) (hrun : s.performAll ops = .ok s') :
    K.holds s'.state s'.trail := by
  induction ops generalizing s with
  | nil =>
      rw [← Except.ok.inj hrun]
      exact hs
  | cons op ops ih =>
      rw [performAll, List.foldlM_cons] at hrun
      rcases Outcome.bind_eq_ok.1 hrun with ⟨s₁, hop, hrun⟩
      -- The program stays, so the rest of the run starts as this one did.
      rcases perform_endures (hp ▸ hK) hexports (hkeep s.context hp)
        (hops op List.mem_cons_self) hs hop with ⟨hp₁, hs₁⟩
      exact ih (hp₁.trans hp) (fun op' h' => hops op' (List.mem_cons_of_mem _ h')) hs₁ hrun

end Session

end DocModel
