import DocModel.Proofs.Keeps
import DocModel.Proofs.Place

/-!
# Registration of declarations

A symbol of the analysed sources that has no reference is registered: its reference is entered, its
declaration is opened, built and attached. Whatever is registered on the way, afterwards the symbol
has the reference that was entered for it, and the same declarations are open as before.

## Main definitions

* `Fresh`: A symbol that stands for itself and is looked up for the first time.
* `Due`: One of the analysed sources, which is about to get a reference of its own.
* `Registered`: What is known after a symbol was registered.

## Theorems

* `Opened.isHome`: What was opened stands where it belongs, and says of its file what it should.
* `Calls.Sound.meets_beginDeclaration?`, `meets_finishDeclaration`: Opening and attaching.
* `Calls.Sound.meets_register`: Registering a declaration.
-/

namespace DocModel

/-- A symbol that stands for itself and is looked up for the first time. -/
structure Fresh (ctx : Context) (m : Moment ctx.program) (x : SymbolId) (info : SymbolInfo) :
    Prop where
  resolved : ctx.program.resolveAlias x = x
  symbol : ctx.program.symbol? x = some info
  unentered : m.state.registry.find? x = none

namespace Fresh

variable {ctx : Context} {m : Moment ctx.program} {x : SymbolId} {info : SymbolInfo}

theorem symbol?_resolveAlias (h : Fresh ctx m x info) :
    ctx.program.symbol? (ctx.program.resolveAlias x) = some info := by
  rw [h.resolved, h.symbol]

theorem isOwn (h : Fresh ctx m x info) (hk : info.kind ≠ .enumMember) : ctx.program.IsOwn x := by
  refine ⟨h.resolved, ?_⟩
  rw [Program.isEnumMember_of_symbol? h.symbol]
  exact beq_false_of_ne hk

theorem isEnumMember (h : Fresh ctx m x info) (hk : info.kind = .enumMember) :
    ctx.program.isEnumMember x = true := by
  rw [Program.isEnumMember_of_symbol? h.symbol, hk]
  rfl

/-- It has no reference if none is to come. -/
theorem not_referable (h : Fresh ctx m x info)
    (hn : ¬ ctx.program.HasReference m.state.projects x) : ¬ ctx.program.Referable m.state x :=
  Program.not_referable_of_self h.resolved h.unentered hn

theorem mem_numbered (h : Fresh ctx m x info) : x ∈ ctx.program.numbered :=
  ctx.program.mem_numbered_of_symbol? h.symbol

/-- Whether there is a reference to come. -/
theorem hasReference_iff (h : Fresh ctx m x info) {node : NodeInfo}
    (hnode : ctx.program.declarationOf? info = some node) (projects : List Project) :
    ctx.program.HasReference projects x ↔ info.kind = .typeParameter ∨
      ctx.program.isOutside projects node.file = true ∨
      ctx.program.isRegistrable x info node = true := by
  rw [Program.hasReference_of_self h.resolved h.symbol, hnode]
  simp only [Option.some.injEq, exists_eq_left']

/-- What is asked for on the way is what is around the symbol. -/
theorem parent_of_asks (h : Fresh ctx m x info) {s : State} {parent : SymbolId}
    (ha : ctx.program.Asks s x parent) : info.parent = some parent ∧
      (ctx.program.isNamespace parent = true ∧ s.namespaces.contains parent = false ∨
        info.kind = .enumMember) := by
  rcases ha with ⟨info', node, hinfo, _, hparent, hasked⟩
  rw [h.symbol?_resolveAlias, Option.some.injEq] at hinfo
  subst hinfo
  exact ⟨hparent, hasked⟩

end Fresh

/-- A symbol of the analysed sources that has no reference, and is about to get one of its own. -/
structure Due (ctx : Context) (m : Moment ctx.program) (x : SymbolId) (info : SymbolInfo)
    (node : NodeInfo) : Prop extends Fresh ctx m x info where
  kind : info.kind ≠ .enumMember
  declaration : ctx.program.declarationOf? info = some node
  inside : ctx.program.isOutside m.state.projects node.file = false
  enclosed : Enclosed ctx.program m.state info

theorem Due.own {ctx : Context} {m : Moment ctx.program} {x : SymbolId} {info : SymbolInfo}
    {node : NodeInfo} (h : Due ctx m x info node) : ctx.program.IsOwn x := h.isOwn h.kind

/-- What is due for registration has a module, and finding the module enters nothing for it. -/
theorem Due.exists_module {ctx : Context} {x : SymbolId} {info : SymbolInfo} {node : NodeInfo}
    {m m₁ : Moment ctx.program} {o : Option ModuleHandle} (h : Due ctx m x info node)
    (hplaced : Placed ctx node.file m o m₁) : m₁.state.registry.find? x = none ∧
      ∃ handle module, o = some handle ∧ moduleIn m₁.state.projects handle = some module := by
  refine ⟨by rw [hplaced.quiet x h.own, h.unentered], ?_⟩
  cases o with
  | none =>
      -- Only files from outside have no module.
      have hout := hplaced.outside rfl
      rw [h.inside] at hout
      exact absurd hout Bool.false_ne_true
  | some handle =>
      rcases hplaced.found handle rfl with ⟨module, hmodule⟩
      exact ⟨handle, module, rfl, hmodule⟩

/-- What is known after a symbol was registered. -/
structure Registered (ctx : Context) (x : SymbolId) (m : Moment ctx.program) (o : Option Reference)
    (m' : Moment ctx.program) : Prop extends Moment.Before ctx.listeners m m' where
  opened : m'.opened = m.opened
  result : ∃ ref, o = some ref ∧ m'.state.registry.find? x = some ref

/-- What is known after a declaration was opened. -/
structure Opened (ctx : Context) (x : SymbolId) (info : SymbolInfo) (node : NodeInfo)
    (kind : ReferenceKind) (m : Moment ctx.program) (ref : Reference) (handle : ModuleHandle)
    (m' : Moment ctx.program) : Prop extends Moment.Before ctx.listeners m m' where
  opened : m'.opened = ⟨x, ref, handle⟩ :: m.opened
  find? : m'.state.registry.find? x = some ref
  name_eq : ref.name = info.name
  kind_eq : ref.kind = kind
  home : Home ctx.program m'.state info node handle
  project : ctx.program.isInNamespace info = false →
    m'.state.projectFor? node.file = some handle.project

/-- A declaration that was opened is at home when it is built. It opens with the place that it has
    by then, which is the one it had when its module was found. -/
theorem Opened.isHome {ctx : Context} {info : SymbolInfo} {node : NodeInfo} {kind : ReferenceKind}
    {m m₁ m₂ : Moment ctx.program} {a : Attachment}
    (h : Opened ctx a.symbol info node kind m a.reference a.handle m₁)
    (hdue : Due ctx m a.symbol info node) (hl : Leads ctx m₁ m₂)
    (hheading : a.declaration.heading = ctx.heading m₂.state info node) :
    a.IsHome ctx.program m₂.state := by
  have hfile : a.declaration.loc.file = (ctx.declarationLoc m₂.state info node).file := by
    rw [Declaration.loc, hheading, Context.heading]
  refine ⟨info, node, hdue.symbol, hdue.declaration, h.home.mono hl.abides, fun hin => ?_,
    fun hout => ?_⟩
  · rw [hfile, Context.declarationLoc, if_pos hin]
    rfl
  · -- The roots of projects have not moved while it was built.
    have hproject : m₂.state.projectFor? node.file = some a.handle.project := by
      rw [projectFor?_congr _ _ hl.projects.baseDirs, h.project hout]
    rcases m₂.rooted.relativeFile? m₂.trees hproject with ⟨project, below, hp, hbelow, hrelative⟩
    refine ⟨project, below, hp, hbelow, ?_⟩
    rw [hfile, Context.declarationLoc, if_neg (by rw [hout]; exact Bool.false_ne_true), hrelative]

/-- Attaching the innermost open declaration. -/
theorem meets_finishDeclaration {ctx : Context} (m : Moment ctx.program)
    (averted : Failure → Prop) (e : Entry) (rest : List Entry) (hopen : m.opened = e :: rest)
    (d : Declaration)
    (hmentions : ∀ ref ∈ d.mentions, m.made ref) (hfits : d.Fits ctx.program e.symbol e.reference)
    (hhome : ∀ module, Attachment.IsHome ctx.program m.state
      { e with declaration := d, module, listeners := ctx.listeners }) :
    Meets (finishDeclaration ctx e.handle e.reference d) m averted fun _ m' =>
      Moment.Before ctx.listeners m m' ∧ m'.opened = rest ∧
        m'.state.registry = m.state.registry := by
  have hvalid := m.entries.valid e
    (List.mem_append_left _ (by rw [hopen]; exact List.mem_cons_self))
  -- An open declaration has a module.
  rcases hvalid.placed with ⟨module, hmodule, _⟩
  have hm := hmodule
  rw [moduleIn, Option.bind_eq_some_iff] at hm
  rcases hm with ⟨project, hp, hm⟩
  let a : Attachment := { e with declaration := d, module, listeners := ctx.listeners }
  let m' := m.attach a rest project hopen hp hm hmentions hfits
  refine Meets.get ?_
  rw [module?_eq, hmodule]
  dsimp only
  rw [updateTree_eq m.state e.handle.project project hp]
  exact Meets.of_eq m' (a := ()) rfl
    ⟨m.before_attach a rest project hopen hp hm hmentions hfits (hhome module), rfl, rfl⟩

namespace Calls.Sound

variable {calls : Calls} {ctx : Context} {n : Nat}

/-- Opening a declaration: its reference is entered before it is built. -/
theorem meets_beginDeclaration? (h : calls.Sound ctx n) (m : Moment ctx.program) {x : SymbolId}
    {info : SymbolInfo} {node : NodeInfo} (hdue : Due ctx m x info node) {kind : ReferenceKind}
    (hkind : kind.isDeclaration = true) :
    Meets (calls.beginDeclaration? ctx x info node kind) m (Averted ctx (RoomFor ctx (n + 1) x m) m)
      fun o m' => ∃ ref handle, o = some (ref, handle) ∧
        Opened ctx x info node kind m ref handle m' := by
  refine (h.meets_owningModule? m x info node hdue.symbol?_resolveAlias hdue.enclosed).bind ?_
  intro o m₁ hplaced
  rcases hdue.exists_module hplaced.toPlaced with ⟨hnone, handle, module, rfl, hmodule⟩
  -- Finding the module may have registered much, but not this symbol.
  let ref : Reference := { Reference.make ⟨m₁.state.registry.nextId⟩ info.name kind with
    path := some module.childrenPath }
  let entry : Entry := ⟨x, ref, handle⟩
  have hentered := m₁.find?_nextRegistry x ref
  have hvalid : entry.Valid ctx.program m₁.state.projects (m₁.nextRegistry x ref) :=
    { entered := hentered
      own := hdue.own
      kind := hkind
      declared := ⟨info, node, hdue.symbol, rfl, hdue.declaration, by
        rw [isOutside_of_grow ctx.program hplaced.projects, hdue.inside]⟩
      placed := ⟨module, hmodule, rfl⟩ }
  -- Nothing is attached yet. What makes the reference good is that its declaration is open.
  have hdoc : ∀ path, ref.path = some path → IsDocumented ctx.program m₁.state.projects
      ((some entry).toList ++ m₁.opened ++ m₁.attached.map (·.toEntry)) ref path := by
    intro path _
    refine ⟨Or.inl hkind, fun _ => ⟨entry, List.mem_cons_self, rfl⟩, fun hk => ?_, fun hk => ?_⟩
    · -- Members and modules are no declarations of this sort.
      rw [show kind = .enumMember from hk] at hkind
      exact absurd hkind Bool.false_ne_true
    · rw [show kind = .module from hk] at hkind
      exact absurd hkind Bool.false_ne_true
  let m₂ := m₁.entered x ref (some entry) rfl (fun _ ho => absurd ho (by simp only [ref,
    Reference.make, reduceCtorEq, not_false_eq_true])) (Or.inr ⟨hdue.own, hnone⟩)
    (fun hmem => absurd hmem (by rw [hdue.own.2]; exact Bool.false_ne_true)) hdoc
    (fun e he => by rw [← Option.some.inj he]; exact ⟨hnone, hvalid⟩)
  refine Meets.get ?_
  rw [module?_eq, hmodule]
  have hentering : Moment.Before ctx.listeners m₁ m₂ :=
    m₁.before_entered x ref (some entry) _ _ _ _ _ _
  refine Meets.of_eq m₂ (a := some (ref, handle)) rfl ⟨ref, handle, rfl, ?_⟩
  exact
    { hplaced.toBefore.trans hentering with
      opened := by
        rw [← hplaced.opened]
        rfl
      find? := hentered
      name_eq := rfl
      kind_eq := rfl
      home := (hplaced.home handle rfl).mono hentering.abides
      project := hplaced.project handle rfl }

/-- Registering a declaration. -/
theorem meets_register (h : calls.Sound ctx n) (m : Moment ctx.program) {x : SymbolId}
    {info : SymbolInfo} {node : NodeInfo} (hdue : Due ctx m x info node) {kind : ReferenceKind}
    (hkind : kind.isDeclaration = true) {build : Reference → Action Declaration}
    (hheading : ∀ (ref : Reference) (s : State) (t : Trail), Action.Ends s t (build ref)
      fun d s' => d.heading = ctx.heading s' info node)
    (hbuild : ∀ (e : Entry), e.symbol = x → e.reference.name = info.name →
      e.reference.kind = kind → Gives ctx n (e :: m.opened) [] (build e.reference)
        Declaration.mentions (Declaration.Fits ctx.program x e.reference)) :
    Meets (calls.register ctx x info node kind build) m (Averted ctx (RoomFor ctx (n + 1) x m) m)
      (Registered ctx x m) := by
  refine (h.meets_beginDeclaration? m hdue hkind).bind ?_
  rintro _ m₁ ⟨ref, handle, rfl, hopened⟩
  -- The reference is entered by now, which makes room for whatever is built.
  refine ((hbuild ⟨x, ref, handle⟩ rfl hopened.name_eq hopened.kind_eq m₁ hopened.opened
    (List.forall_mem_nil _)).ran.mono
    (Averted.before hopened.toBefore fun hroom => ?_) fun _ _ hp => hp).bind ?_
  · exact hroom.room hopened.toBefore hdue.mem_numbered
      hdue.unentered (Registry.contains_of_find? hopened.find?)
  · -- The declaration is built, and is attached to where it was opened.
    rintro d m₂ ⟨⟨hleads, hmentions, hfits⟩, hrun⟩
    have hhome : ∀ module, Attachment.IsHome ctx.program m₂.state
        ⟨⟨x, ref, handle⟩, d, module, ctx.listeners⟩ :=
      fun _ => hopened.isHome hdue hleads (hheading ref _ _ d _ _ hrun)
    refine (meets_finishDeclaration m₂ _ ⟨x, ref, handle⟩ m.opened
      (hleads.opened.trans hopened.opened) d hmentions hfits hhome).bind ?_
    rintro _ m₃ ⟨hbefore, hrest, hregistry⟩
    -- From the opening on, nothing is entered for the symbol again.
    have hall := (hopened.toBefore.trans hleads.toBefore).trans hbefore
    refine Meets.pure { hall with opened := hrest, result := ⟨ref, rfl, ?_⟩ }
    rw [hregistry]
    exact hleads.keeps x ref hdue.own.isPlain hopened.find?

end Calls.Sound

end DocModel
