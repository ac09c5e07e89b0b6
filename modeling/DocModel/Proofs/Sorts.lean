import DocModel.Proofs.Register

/-!
# The sorts of declarations

Which symbols can be registered is known beforehand: the node that declares the symbol has to be of
the symbol's own sort, and the type that is needed has to be there. Where a symbol cannot be
registered nothing is done, and where it can it is. Each sort is registered in the same way, and
what is built for it fits its reference.

Namespaces and source files are registered as modules, and have no declaration. An enumeration
enters its members while it is open; their references lead to the members that it will have.

## Theorems

* `Calls.registerDeclaration_eq_none`: What cannot be registered.
* `Calls.Sound.gives_enumMember?`: The members of an enumeration.
* `Calls.Sound.meets_registerNamespace`, `Calls.Sound.meets_fileReference`: Registering a module.
* `Calls.Sound.meets_registerDeclaration`: What can be registered.
-/

namespace DocModel

/-- Only an enumeration has members to agree about. -/
theorem Declaration.fits_of_ne_enum {p : Program} {x : SymbolId} {ref : Reference} {d : Declaration}
    (hname : d.name = ref.name) (hkind : d.kind = ref.kind) (hne : ref.kind ≠ .enum) :
    d.Fits p x ref := by
  refine ⟨hname, hkind, fun body hbody => ?_⟩
  rw [hbody] at hkind
  exact absurd hkind.symm hne

/-- The names of what was kept are the names of the members. -/
theorem map_name_filterMap (p : Program) {xs : List SymbolId} {os : List (Option EnumMember)}
    (h : List.Forall₂ (fun x o => o.map (·.name) = p.memberName? x) xs os) :
    (os.filterMap id).map (·.name) = xs.filterMap p.memberName? := by
  induction h with
  | nil => rfl
  | @cons x o xs os hx _ ih =>
      cases o with
      | none =>
          rw [List.filterMap_cons_none (by exact rfl), List.filterMap_cons_none hx.symm, ih]
      | some member =>
          rw [List.filterMap_cons_some (by exact rfl), List.map_cons,
            List.filterMap_cons_some hx.symm, ih]

/-- Where a declaration cannot be registered, nothing is done. -/
theorem Calls.registerDeclaration_eq_none (calls : Calls) (ctx : Context) (x : SymbolId)
    (info : SymbolInfo) (node : NodeInfo)
    (hreg : ctx.program.isRegistrable x info node = false) :
    calls.registerDeclaration ctx x info node = pure none := by
  unfold Program.isRegistrable at hreg
  unfold registerDeclaration
  cases hkind : info.kind with
  | classType | interface | enum | typeAlias =>
      -- The node is of another sort, or the type is not there.
      rw [hkind] at hreg
      simp only [registerClass, registerInterface, registerEnum, registerTypeAlias]
      split
      · rename_i hnode hty
        rw [hnode, hty] at hreg
        exact absurd hreg.symm Bool.false_ne_true
      · rfl
  | function =>
      rw [hkind] at hreg
      simp only [registerFunction]
      split
      · rename_i ty hnode hty
        rw [hnode, hty] at hreg
        simp only [Option.any_some, Bool.not_eq_false'] at hreg
        -- There is nothing to call, so nothing is registered.
        rw [registerCallable, if_pos hreg]
      · rfl
  | binding =>
      rw [hkind] at hreg
      simp only [registerBinding]
      split
      · rename_i hnode hty
        rw [hnode, hty] at hreg
        exact absurd hreg.symm Bool.false_ne_true
      · rfl
  | namespaceScope | sourceFile =>
      rw [hkind] at hreg
      exact absurd hreg.symm Bool.false_ne_true
  | _ => rfl

namespace Calls.Sound

variable {calls : Calls} {ctx : Context} {n : Nat}

/-- What belongs to a class itself is added to what belongs to its instances. -/
theorem gives_addStatics (h : calls.Sound ctx n) {opened : List Entry} {known : List Reference}
    (x : SymbolId) (members : ObjectLiteral Ty)
    (hknown : ∀ r ∈ Ty.mentionsIn members.parts, r ∈ known) :
    Gives ctx n opened known (calls.addStatics ctx x members)
      (fun o => Ty.mentionsIn o.parts) fun _ => True := by
  unfold addStatics
  dsimp only
  split
  · exact Gives.pure hknown trivial
  · refine (h.gives_addMembers ctx.program _ _ _ hknown).bind fun object _ => ?_
    refine (h.gives_signatures ctx.program _).bind fun added _ =>
      Gives.pure (fun r hr => ?_) trivial
    simp only [ObjectLiteral.parts, Ty.mentionsIn_append, List.flatMap_append,
      List.mem_append] at hr ⊢
    tauto

variable {x : SymbolId} {info : SymbolInfo} {node : NodeInfo}

theorem meets_registerClass (h : calls.Sound ctx n) (m : Moment ctx.program)
    (hdue : Due ctx m x info node) {typeParameters bases interfaces : List NodeId} {ty : TypeId}
    (hnode : node.kind = .classNode typeParameters bases interfaces)
    (hty : ctx.program.declaredType? x = some ty) :
    Meets (calls.registerClass ctx x info node) m (Averted ctx (RoomFor ctx (n + 1) x m) m)
      (Registered ctx x m) := by
  simp only [registerClass, hnode, hty]
  -- The declaration opens with the heading that belongs to the state in which it is finished.
  refine h.meets_register m hdue rfl (fun _ _ _ => .bind fun _ _ _ _ => .bind fun _ _ _ _ =>
      .bind fun _ _ _ _ => .bind fun _ _ _ _ => .bind fun _ _ _ _ => .get (.pure rfl))
    fun e _ hname hkind => ?_
  refine (h.gives_typeParameters ctx.program typeParameters).bind fun ts _ => ?_
  refine (Gives.mapM bases fun b _ => h.gives_normalizeNode ctx.program b).bind fun bs _ => ?_
  refine (Gives.mapM interfaces fun b _ => h.gives_normalizeNode ctx.program b).bind fun is _ => ?_
  refine (h.gives_objectLiteral ctx.program ty true).bind fun members _ => ?_
  refine (h.gives_addStatics x members fun r hr => List.mem_append_left _ hr).bind fun all _ =>
    Gives.get fun s => Gives.pure (fun r hr => ?_) ?_
  · simp only [Declaration.mentions, Ty.mentionsIn_append, Ty.mentionsIn_flatMap,
      List.mem_append] at hr
    simp only [List.mem_append]
    -- The parts were given in this order, so the last of them is found first.
    rcases hr with ((hr | hr) | hr) | hr
    · exact Or.inr (Or.inr (Or.inr (Or.inr (Or.inl hr))))
    · exact Or.inr (Or.inr (Or.inr (Or.inl hr)))
    · exact Or.inr (Or.inr (Or.inl hr))
    · exact Or.inl hr
  · exact Declaration.fits_of_ne_enum hname.symm hkind.symm (by rw [hkind]; decide)

theorem meets_registerInterface (h : calls.Sound ctx n) (m : Moment ctx.program)
    (hdue : Due ctx m x info node) {typeParameters bases : List NodeId} {ty : TypeId}
    (hnode : node.kind = .interface typeParameters bases)
    (hty : ctx.program.declaredType? x = some ty) :
    Meets (calls.registerInterface ctx x info node) m (Averted ctx (RoomFor ctx (n + 1) x m) m)
      (Registered ctx x m) := by
  simp only [registerInterface, hnode, hty]
  refine h.meets_register m hdue rfl (fun _ _ _ => .bind fun _ _ _ _ => .bind fun _ _ _ _ =>
      .bind fun _ _ _ _ => .get (.pure rfl))
    fun e _ hname hkind => ?_
  refine (h.gives_typeParameters ctx.program typeParameters).bind fun ts _ => ?_
  refine (Gives.mapM bases fun b _ => h.gives_normalizeNode ctx.program b).bind fun bs _ => ?_
  refine (h.gives_objectLiteral ctx.program ty true).bind fun members _ =>
    Gives.get fun s => Gives.pure (fun r hr => ?_) ?_
  · simp only [Declaration.mentions, Ty.mentionsIn_append, Ty.mentionsIn_flatMap,
      List.mem_append] at hr
    simp only [List.mem_append]
    rcases hr with (hr | hr) | hr
    · exact Or.inr (Or.inr (Or.inl hr))
    · exact Or.inr (Or.inl hr)
    · exact Or.inl hr
  · exact Declaration.fits_of_ne_enum hname.symm hkind.symm (by rw [hkind]; decide)

theorem meets_registerCallable (h : calls.Sound ctx n) (m : Moment ctx.program)
    (hdue : Due ctx m x info node) {ty : TypeId} (isAsync : Bool)
    (hsome : (ctx.program.callSignatures ty).isEmpty = false) :
    Meets (calls.registerCallable ctx x info node ty isAsync) m
      (Averted ctx (RoomFor ctx (n + 1) x m) m) (Registered ctx x m) := by
  simp only [registerCallable, hsome, Bool.false_eq_true, if_false]
  refine h.meets_register m hdue rfl (fun _ _ _ => .bind fun _ _ _ _ => .get (.pure rfl))
    fun e _ hname hkind => ?_
  refine (h.gives_signatures ctx.program _).bind fun signatures _ =>
    Gives.get fun s => Gives.pure (fun r hr => List.mem_append_left _ hr) ?_
  exact Declaration.fits_of_ne_enum hname.symm hkind.symm (by rw [hkind]; decide)

/-- A variable is registered as a function if it can be called, and as a constant otherwise. -/
theorem meets_registerBinding (h : calls.Sound ctx n) (m : Moment ctx.program)
    (hdue : Due ctx m x info node) {initializer written : Option NodeId} {ty : TypeId}
    (hnode : node.kind = .binding initializer written)
    (hty : ctx.program.valueType? x = some ty) :
    Meets (calls.registerBinding ctx x info node) m (Averted ctx (RoomFor ctx (n + 1) x m) m)
      (Registered ctx x m) := by
  simp only [registerBinding, hnode, hty]
  cases hsome : (ctx.program.callSignatures ty).isEmpty with
  | false =>
      rw [if_neg Bool.false_ne_true]
      exact h.meets_registerCallable m hdue _ hsome
  | true =>
      rw [if_pos rfl]
      refine h.meets_register m hdue rfl (fun _ _ _ => .bind fun _ _ _ _ => .get (.pure rfl))
        fun e _ hname hkind => ?_
      refine (h.normalize ty written none _ _).bind fun value _ =>
        Gives.get fun s => Gives.pure (fun r hr => List.mem_append_left _ ?_) ?_
      · simpa only [Declaration.mentions, Option.toList_some, Ty.mentionsIn_cons, Ty.mentionsIn_nil,
          List.append_nil] using hr
      · exact Declaration.fits_of_ne_enum hname.symm hkind.symm (by rw [hkind]; decide)

theorem meets_registerTypeAlias (h : calls.Sound ctx n) (m : Moment ctx.program)
    (hdue : Due ctx m x info node) {typeParameters : List NodeId} {value : Option NodeId}
    {ty : TypeId} (hnode : node.kind = .typeAlias typeParameters value)
    (hty : ctx.program.declaredType? x = some ty) :
    Meets (calls.registerTypeAlias ctx x info node) m (Averted ctx (RoomFor ctx (n + 1) x m) m)
      (Registered ctx x m) := by
  simp only [registerTypeAlias, hnode, hty]
  refine h.meets_register m hdue rfl (fun _ _ _ => .bind fun _ _ _ _ => .bind fun _ _ _ _ =>
      .get (.pure rfl))
    fun e _ hname hkind => ?_
  refine (h.gives_typeParameters ctx.program typeParameters).bind fun ts _ => ?_
  refine (h.normalize ty value (some x) _ _).bind fun t _ =>
    Gives.get fun s => Gives.pure (fun r hr => ?_) ?_
  · simp only [Declaration.mentions, Ty.mentionsIn_append, Ty.mentionsIn_flatMap,
      Ty.mentionsIn_cons, Ty.mentionsIn_nil, List.append_nil, List.mem_append] at hr
    simp only [List.mem_append]
    rcases hr with hr | hr
    · exact Or.inr (Or.inl hr)
    · exact Or.inl hr
  · exact Declaration.fits_of_ne_enum hname.symm hkind.symm (by rw [hkind]; decide)

/-- The value of a member, as it is written or as its type says. -/
theorem gives_memberValue? (h : calls.Sound ctx n) {opened : List Entry} {known : List Reference}
    (member : SymbolId) (memberNode : Option NodeInfo) :
    Gives ctx n opened known (calls.memberValue? ctx member memberNode)
      (·.toList.flatMap Ty.mentions) fun _ => True := by
  unfold memberValue?
  split
  · refine (h.gives_normalizeNode ctx.program _).bind fun t _ =>
      Gives.pure (fun r hr => List.mem_append_left _ ?_) trivial
    rwa [Option.toList_some, List.flatMap_cons, List.flatMap_nil, List.append_nil] at hr
  · refine Gives.pure (fun r hr => ?_) trivial
    rcases List.mem_flatMap.1 hr with ⟨t, ht, hr⟩
    rcases Option.bind_eq_some_iff.1 (Option.mem_toList.1 ht) with ⟨ty, _, hty⟩
    rw [ctx.program.mentions_literalType? ty t hty] at hr
    exact absurd hr List.not_mem_nil

/-- A member is entered while its enumeration is open. Its reference leads to the enumeration, which
    will have a member of that name. -/
theorem gives_enumMember? (h : calls.Sound ctx n) {known : List Reference} (e : Entry)
    (rest : List Entry) (hkind : e.reference.kind = .enum) (member : SymbolId)
    (hlists : ctx.program.Lists e.symbol member) :
    Gives ctx n (e :: rest) known (calls.enumMember? ctx e.reference node member)
      (·.toList.flatMap fun m => m.initializer.toList.flatMap Ty.mentions)
      fun o => o.map (·.name) = ctx.program.memberName? member := by
  unfold enumMember?
  dsimp only
  split
  · -- The listed symbol is not there.
    rename_i hsymbol
    refine Gives.pure (List.forall_mem_nil _) ?_
    rw [Program.memberName?, hsymbol]
    rfl
  · rename_i memberInfo hsymbol
    split
    · rename_i hmem
      intro m ho hm
      have hname : ctx.program.memberName? member = some memberInfo.name := by
        rw [Program.memberName?, hsymbol, Option.bind_some, if_pos hmem]
      have hentry : e ∈ m.opened ++ m.attached.map (·.toEntry) :=
        List.mem_append_left _ (by rw [ho]; exact List.mem_cons_self)
      have hvalid := m.entries.valid e hentry
      -- The enumeration is open, and the reference of the member leads to it. It does not matter
      -- whether the member had a reference before: this one takes its place.
      let ref : Reference := { Reference.make ⟨m.state.registry.nextId⟩ memberInfo.name .enumMember
        with parent := some e.reference, path := e.reference.path }
      have hdoc : ∀ path, ref.path = some path → IsDocumented ctx.program m.state.projects
          (m.opened ++ m.attached.map (·.toEntry)) ref path := by
        intro path hpath
        refine ⟨Or.inr (Or.inl rfl), fun hk => absurd hk Bool.false_ne_true, fun _ => ?_,
          fun hk => absurd hk (by simp only [ref, Reference.make, reduceCtorEq,
            not_false_eq_true])⟩
        exact ⟨e, hentry, rfl, hkind, hpath, List.mem_filterMap.2 ⟨member, hlists.mem, hname⟩⟩
      let m₁ := m.entered member ref none rfl
        (fun outer houter => by
          rw [← Option.some.inj houter]
          exact m.ledger.registry e.symbol e.reference hvalid.entered)
        (Or.inl (by rw [Program.isEnumMember_of_symbol? hsymbol, hmem]; rfl))
        (fun _ _ => ⟨e.symbol, hlists, e.reference, hvalid.entered, rfl, rfl⟩) hdoc
        (fun e' he' => by cases he')
      have hl : Leads ctx m m₁ := (m.before_entered member ref none _ _ _ _ _ _).leads rfl rfl
      refine Meets.mintEnter m₁ rfl rfl ?_
      refine Gives.after ?_ hl ho hm
      refine (h.gives_memberValue? member _).bind fun v _ =>
        Gives.pure (fun r hr => List.mem_append_left _ ?_) hname.symm
      rwa [Option.toList_some, List.flatMap_cons, List.flatMap_nil, List.append_nil] at hr
    · -- What is listed is no member.
      rename_i hmem
      refine Gives.pure (List.forall_mem_nil _) ?_
      rw [Program.memberName?, hsymbol, Option.bind_some, if_neg hmem]
      rfl

/-- Registering an enumeration, with the members it lists. -/
theorem meets_registerEnum (h : calls.Sound ctx n) (m : Moment ctx.program)
    (hdue : Due ctx m x info node) (henum : info.kind = .enum) {isConst : Bool} {ty : TypeId}
    (hnode : node.kind = .enum isConst)
    (hty : ctx.program.declaredType? x = some ty) :
    Meets (calls.registerEnum ctx x info node) m (Averted ctx (RoomFor ctx (n + 1) x m) m)
      (Registered ctx x m) := by
  simp only [registerEnum, hnode, hty]
  refine h.meets_register m hdue rfl (fun _ _ _ => .bind fun _ _ _ _ => .get (.pure rfl))
    fun e hsymbol hname hkind => ?_
  refine (Gives.collect _ fun member hmember =>
    h.gives_enumMember? e m.opened hkind member (by
      rw [hsymbol]
      exact ⟨hdue.own.1, ⟨info, hdue.symbol, henum⟩, hmember⟩)).bind ?_
  -- The members are those of the listed symbols that are members.
  rintro members ⟨os, hos, rfl⟩
  refine Gives.get fun s => Gives.pure (fun r hr => List.mem_append_left _ ?_) ?_
  · simp only [Declaration.mentions, Ty.mentionsIn_flatMap] at hr
    exact hr
  · refine ⟨hname.symm, hkind.symm, fun body hbody => ?_⟩
    rw [← Declaration.enum.inj hbody]
    exact map_name_filterMap ctx.program hos

/-- A source file is registered as the module that owns it. -/
theorem meets_fileReference (m : Moment ctx.program) (hdue : Due ctx m x info node)
    (averted : Failure → Prop) :
    Meets (fileReference x node) m averted (Registered ctx x m) := by
  refine (meets_resolveModule? m node.file averted).bind fun o m₁ hplaced => ?_
  rcases hdue.exists_module hplaced.toPlaced with ⟨hnone, handle, module, rfl, hmodule⟩
  let ref : Reference := { Reference.make ⟨m₁.state.registry.nextId⟩ module.name .module with
    path := some module.path }
  have hdoc : ∀ path, ref.path = some path →
      ref.kind = .module ∧ FindsModule m₁.state.projects (path ++ [ref.name]) := by
    intro path hpath
    -- The path and the name of a module lead to it.
    have hfinds := m₁.trees.findsModule handle module hmodule
    rw [m₁.trees.childrenPath handle module hmodule] at hfinds
    rw [← Option.some.inj hpath]
    exact ⟨rfl, hfinds⟩
  let m₂ := m₁.enteredOwn x ref rfl rfl hdue.own hnone hdoc
  refine Meets.get ?_
  rw [module?_eq, hmodule]
  refine Meets.of_eq m₂ (a := some ref) rfl ?_
  exact
    { hplaced.toBefore.trans (m₁.before_enteredOwn x ref rfl rfl hdue.own hnone hdoc) with
      opened := hplaced.opened
      result := ⟨ref, rfl, m₁.find?_nextRegistry x ref⟩ }

/-- What a namespace exports is asked for, one after the other. -/
theorem gives_exports (h : calls.Sound ctx n) {opened : List Entry} {known : List Reference}
    (xs : List SymbolId) :
    Gives ctx n opened known (xs.forM fun y => do let _ ← calls.reference y) (fun _ => [])
      fun _ => True := by
  refine Gives.forM xs fun y _ known => ?_
  exact (h.gives_reference y opened known).bind fun _ _ =>
    Gives.pure (List.forall_mem_nil _) trivial

/-- A namespace is registered as a module, and then what it exports. -/
theorem meets_registerNamespace (h : calls.Sound ctx n) (m : Moment ctx.program)
    (hdue : Due ctx m x info node) (hreg : ctx.program.isRegistrable x info node = true) :
    Meets (calls.registerNamespace ctx x info node) m (Averted ctx (RoomFor ctx (n + 1) x m) m)
      (Registered ctx x m) := by
  refine (h.meets_owningModule? m x info node hdue.symbol?_resolveAlias hdue.enclosed).bind ?_
  intro o m₁ hplaced
  rcases hdue.exists_module hplaced.toPlaced with ⟨hnone, outer, module, rfl, hmodule⟩
  have hm := hmodule
  rw [moduleIn, Option.bind_eq_some_iff] at hm
  rcases hm with ⟨project, hp, hm⟩
  refine Meets.get ?_
  rw [module?_eq, hmodule, hp]
  dsimp only
  -- The module of the namespace is a child of the one around it.
  have hsound := m₁.trees.sound project (List.mem_of_getElem? hp)
  rcases hsound.namespaceModule outer.module module hm info.name
    { loc := ctx.declarationLoc m₁.state info node, doc := node.doc? } with
    ⟨id, tree, child, heq, he, hchild, hpath⟩
  have hl : tree.Located project.modules.passthrough project.baseDir :=
    (m₁.rooted project (List.mem_of_getElem? hp)).grow hsound he.grows
      (ModuleTree.directories_namespaceModule heq)
  refine Meets.step m₁ (a := (id, tree)) (by rw [heq]; rfl) ?_
  -- The tree gets the module first, so that the reference leads somewhere when it is entered.
  let m₂ := m₁.enlarged outer.project project tree hp he hl
  refine Meets.step m₂ (a := ()) rfl ?_
  have hmodule₂ : moduleIn m₂.state.projects ⟨outer.project, id⟩ = some child := by
    change moduleIn (withTree m₁.state.projects outer.project tree) _ = some child
    rw [moduleIn_withTree _ _ tree project hp, if_pos rfl, hchild]
  let ref : Reference := { Reference.make ⟨m₂.state.registry.nextId⟩ info.name .module with
    path := some module.childrenPath }
  have hdoc : ∀ path, ref.path = some path →
      ref.kind = .module ∧ FindsModule m₂.state.projects (path ++ [ref.name]) := by
    intro path hpath'
    have hfinds := m₂.trees.findsModule _ child hmodule₂
    rw [hpath] at hfinds
    rw [← Option.some.inj hpath']
    exact ⟨rfl, hfinds⟩
  let m₃ := m₂.enteredOwn x ref rfl rfl hdue.own hnone hdoc
  refine Meets.mintEnter m₃ rfl rfl ?_
  have hcontains : m₃.state.registry.contains x = true :=
    Registry.contains_of_find? (m₂.find?_nextRegistry x ref)
  let m₄ := m₃.withSpace x ⟨outer.project, id⟩ hcontains ⟨child, hmodule₂⟩
  refine Meets.step m₄ (a := ()) rfl ?_
  -- A namespace that had no reference had no module, so none is replaced.
  have hbefore : Moment.Before ctx.listeners m m₄ :=
    (hplaced.toBefore.trans (m₁.before_enlarged outer.project project tree hp he hl)).trans
      (m₂.before_space x ref _ rfl rfl hdue.own hnone hdoc hcontains ⟨child, hmodule₂⟩
        ((hdue.hasReference_iff hdue.declaration _).2 (Or.inr (Or.inr hreg))))
  -- What it exports may come back to the namespace. It is entered by now, which makes room.
  refine ((h.gives_exports (ctx.program.exportsOf x) m₄ rfl
    (List.forall_mem_nil _)).mono (Averted.before hbefore fun hroom => ?_)
    fun _ _ hp => hp).bind ?_
  · exact hroom.room hbefore hdue.mem_numbered hdue.unentered hcontains
  · -- Whatever was registered meanwhile, the namespace keeps its reference.
    rintro _ m₅ ⟨hleads, _, _⟩
    refine Meets.pure { hbefore.trans hleads.toBefore with
      opened := hleads.opened.trans hplaced.opened
      result := ⟨ref, rfl, ?_⟩ }
    exact hleads.keeps x ref hdue.own.isPlain (m₂.find?_nextRegistry x ref)

/-- What can be registered is registered. -/
theorem meets_registerDeclaration (h : calls.Sound ctx n) (m : Moment ctx.program)
    (hdue : Due ctx m x info node) (hreg : ctx.program.isRegistrable x info node = true) :
    Meets (calls.registerDeclaration ctx x info node) m (Averted ctx (RoomFor ctx (n + 1) x m) m)
      (Registered ctx x m) := by
  have hregistrable := hreg
  unfold Program.isRegistrable at hreg
  unfold registerDeclaration
  -- There is one case for each sort of symbol with a node of its own sort.
  split at hreg
  · rename_i hkind hnode
    rcases Option.isSome_iff_exists.1 hreg with ⟨ty, hty⟩
    rw [hkind]
    exact h.meets_registerClass m hdue hnode hty
  · rename_i hkind hnode
    rcases Option.isSome_iff_exists.1 hreg with ⟨ty, hty⟩
    rw [hkind]
    exact h.meets_registerInterface m hdue hnode hty
  · rename_i hkind hnode
    rcases Option.isSome_iff_exists.1 hreg with ⟨ty, hty⟩
    rw [hkind]
    exact h.meets_registerEnum m hdue hkind hnode hty
  · rename_i hkind hnode
    rcases Option.isSome_iff_exists.1 hreg with ⟨ty, hty⟩
    rw [hkind]
    exact h.meets_registerTypeAlias m hdue hnode hty
  · rename_i hkind hnode
    rcases (Option.any_eq_true _ _).1 hreg with ⟨ty, hty, hsome⟩
    rw [hkind]
    simp only [registerFunction, hnode, hty]
    exact h.meets_registerCallable m hdue _ (by simpa only [Bool.not_eq_true'] using hsome)
  · rename_i hkind hnode
    rcases Option.isSome_iff_exists.1 hreg with ⟨ty, hty⟩
    rw [hkind]
    exact h.meets_registerBinding m hdue hnode hty
  · rename_i hkind
    rw [hkind]
    exact h.meets_registerNamespace m hdue hregistrable
  · rename_i hkind
    rw [hkind]
    exact meets_fileReference m hdue _
  · exact absurd hreg Bool.false_ne_true

end Calls.Sound

end DocModel
