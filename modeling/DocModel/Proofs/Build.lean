import DocModel.Proofs.Answer
import DocModel.Proofs.Mentions

/-!
# What is built mentions what was made

Types, signatures and members are built from types and references that were asked for. Whatever is
built mentions nothing else. The theorems here say so for each sort of thing, in the order in which
they are put together; each follows from the contracts of its parts.

## Theorems

* `Calls.Sound.gives_signature`, `Calls.Sound.gives_objectLiteral`: Signatures and members.
* `Calls.Sound.gives_normalizeStep`: Types, one step further in.
-/

namespace DocModel

namespace Ty

@[simp]
theorem mentions_verbatim (text : String) : (verbatim text).mentions = [] := by
  simp only [verbatim, mentions_of, Shape.own, Shape.parts, mentionsIn_nil, List.append_nil]

@[simp]
theorem mentions_ofPrimitive (kind : PrimitiveKind) : (ofPrimitive kind).mentions = [] := by
  simp only [ofPrimitive, mentions_of, Shape.own, Shape.parts, mentionsIn_nil, List.append_nil]

@[simp]
theorem mentions_literal (kind : PrimitiveKind) (text : String) :
    (literal kind text).mentions = [] := by
  simp only [literal, mentions_of, Shape.own, Shape.parts, mentionsIn_nil, List.append_nil]

/-- An array mentions what its element mentions. -/
@[simp]
theorem mentions_array (t : Ty) : (array t).mentions = t.mentions := by
  simp only [array, mentions_of, Shape.own, Shape.parts, mentionsIn_cons, mentionsIn_nil,
    List.append_nil, List.nil_append]

/-- A reference with arguments mentions itself and what they mention. -/
@[simp]
theorem mentions_ofReference (ref : Reference) (arguments : List Ty) :
    (ofReference ref arguments).mentions = ref :: mentionsIn arguments := by
  simp only [ofReference, mentions_of, Shape.own, Shape.parts, List.singleton_append]

end Ty

@[simp]
theorem Program.mentions_referenceType (p : Program) (ref : Reference) (arguments : List Ty)
    (x : SymbolId) :
    (p.referenceType ref arguments x).mentions = ref :: Ty.mentionsIn arguments := by
  simp only [referenceType, Ty.mentions_of, Ty.Shape.own, Ty.Shape.parts, List.singleton_append]

/-- An intrinsic type mentions nothing. -/
theorem Intrinsic.mentions_ty (kind : Intrinsic) : kind.ty.mentions = [] := by
  cases kind <;>
    simp only [ty, Ty.mentions_ofPrimitive, Ty.boolTrue, Ty.boolFalse, Ty.mentions_literal]

theorem TypeForm.mentions_literal? (form : TypeForm) (t : Ty) (h : form.literal? = some t) :
    t.mentions = [] := by
  cases form with
  | intrinsic kind =>
      rw [← Option.some.inj h]
      exact kind.mentions_ty
  | stringLiteral | numberLiteral | bigintLiteral =>
      rw [← Option.some.inj h]
      exact Ty.mentions_literal _ _
  | _ => exact absurd h (by simp only [literal?, reduceCtorEq, not_false_eq_true])

theorem Program.mentions_identityPrimitive? (p : Program) (ty : TypeId) (t : Ty)
    (h : p.identityPrimitive? ty = some t) : t.mentions = [] := by
  unfold identityPrimitive? at h
  rw [Option.map_eq_some_iff] at h
  rcases h with ⟨kind, _, rfl⟩
  exact kind.mentions_ty

/-- A primitive type or a literal mentions nothing. -/
theorem Program.mentions_literalType? (p : Program) (ty : TypeId) (t : Ty)
    (h : p.literalType? ty = some t) : t.mentions = [] := by
  unfold literalType? at h
  rcases Option.or_eq_some_iff.1 h with h | ⟨_, h⟩
  · exact p.mentions_identityPrimitive? ty t h
  · rcases Option.bind_eq_some_iff.1 h with ⟨info, _, h⟩
    exact info.form.mentions_literal? t h

/-- A change that leaves open declarations and the nesting depth alone. -/
theorem Moment.Before.leads {ctx : Context} {m m' : Moment ctx.program}
    (h : Moment.Before ctx.listeners m m') (ho : m'.opened = m.opened)
    (hd : m'.state.depth = m.state.depth) : Leads ctx m m' :=
  { h with opened := ho, depth := fun _ => hd }

section

variable {ctx : Context} {n : Nat} {opened : List Entry} {known : List Reference}

/-- A reference that is given out was made. -/
theorem gives_mint (name : String) (kind : ReferenceKind) :
    Gives ctx n opened known (Action.mint name kind) ([·]) fun _ => True := by
  intro m _ _
  -- Giving out a number changes the count, and neither open declarations nor the depth.
  refine Meets.of_eq (m.minted name kind) rfl ⟨?_, fun r hr => ?_, trivial⟩
  · exact (m.before_minted name kind).leads rfl rfl
  · exact Or.inr (List.mem_singleton.1 hr)

theorem gives_unknownReference (p : Program) (ty : TypeId) :
    Gives ctx n opened known (unknownReference p ty) Ty.mentions fun _ => True :=
  (gives_mint _ _).bind fun ref _ => Gives.pure (fun r hr => List.mem_append_left _ (by
    simpa only [Ty.ofReference, Ty.mentions_of, Ty.Shape.own, Ty.Shape.parts, Ty.mentionsIn_nil,
      List.append_nil] using hr)) trivial

/-- All uses of a built-in share one reference, which is made on first use. -/
theorem gives_stringUtility (name : String) :
    Gives ctx n opened known (stringUtility name) ([·]) fun _ => True := by
  intro m _ _
  refine Meets.get ?_
  cases hu : m.state.stringUtilities.find? name with
  | some ref =>
      refine Meets.pure ⟨Leads.refl m, fun r hr => ?_, trivial⟩
      rw [List.mem_singleton.1 hr]
      exact m.ledger.utility name ref hu
  -- It is made now and remembered, so that the next use finds it.
  | none =>
      let m₁ := m.minted name .stringUtility
      let ref := Reference.make ⟨m.state.registry.nextId⟩ name .stringUtility
      refine Meets.step m₁ (a := ref) rfl ?_
      have hm : m₁.made ref := Or.inr rfl
      refine Meets.of_eq (m₁.withUtility name ref hm) (a := ref) rfl ⟨?_, fun r hr => ?_,
        trivial⟩
      · exact ((m.before_minted name .stringUtility).trans
          (m₁.before_withUtility name ref hm)).leads rfl rfl
      · rw [List.mem_singleton.1 hr]
        exact hm

/-- A type that one way of naming it gives, or that is found in another way. -/
theorem gives_orElse {first : Action (Option Ty)} {second : Action Ty}
    (hfirst : Gives ctx n opened known first (·.toList.flatMap Ty.mentions) fun _ => True)
    (hsecond : ∀ known, Gives ctx n opened known second Ty.mentions fun _ => True) :
    Gives ctx n opened known
      (do match ← first with
        | some t => return t
        | none => second) Ty.mentions fun _ => True := by
  refine hfirst.bind fun o _ => ?_
  cases o with
  | none => exact hsecond _
  | some t =>
      refine Gives.pure (fun r hr => List.mem_append_left _ ?_) trivial
      rwa [Option.toList_some, List.flatMap_cons, List.flatMap_nil, List.append_nil]

end

namespace Calls.Sound

variable {calls : Calls} {ctx : Context} {n : Nat} (h : calls.Sound ctx n) {opened : List Entry}
  {known : List Reference} (p : Program)

include h

theorem gives_plain (ty : TypeId) :
    Gives ctx n opened known (calls.plain ty) Ty.mentions fun _ => True :=
  h.normalize ty none none opened known

theorem gives_normalizeNode (node : NodeId) :
    Gives ctx n opened known (calls.normalizeNode p node) Ty.mentions fun _ => True := by
  unfold normalizeNode
  split
  · exact h.normalize _ _ _ opened known
  · exact Gives.pure (fun r hr => absurd hr (by rw [Ty.mentions_verbatim]; exact List.not_mem_nil))
      trivial

/-- A type parameter mentions what its constraint and its default mention. -/
theorem gives_typeParameter? (node : NodeId) :
    Gives ctx n opened known (calls.typeParameter? p node)
      (·.toList.flatMap fun t => Ty.mentionsIn t.parts) fun _ => True := by
  unfold typeParameter?
  split
  · refine (Gives.optionMapM _ fun a _ => h.gives_normalizeNode p a).bind fun constraint _ => ?_
    refine (Gives.optionMapM _ fun a _ => h.gives_normalizeNode p a).bind fun fallback _ => ?_
    refine Gives.pure (fun r hr => ?_) trivial
    simp only [Option.toList_some, List.flatMap_cons, List.flatMap_nil, List.append_nil,
      TypeParameter.parts, Ty.mentionsIn_append, List.mem_append] at hr
    -- The default was asked for last, so it comes first in what is known.
    simp only [List.mem_append]
    rcases hr with hr | hr
    · exact Or.inr (Or.inl hr)
    · exact Or.inl hr
  · exact Gives.pure (List.forall_mem_nil _) trivial

theorem gives_typeParameters (nodes : List NodeId) :
    Gives ctx n opened known (calls.typeParameters p nodes)
      (·.flatMap fun t => Ty.mentionsIn t.parts) fun _ => True :=
  (Gives.collect nodes fun node _ => h.gives_typeParameter? p node).weaken_ok

theorem gives_typeParameterOf? (ty : TypeId) :
    Gives ctx n opened known (calls.typeParameterOf? p ty)
      (·.toList.flatMap fun t => Ty.mentionsIn t.parts) fun _ => True := by
  unfold typeParameterOf?
  split
  · exact Gives.pure (List.forall_mem_nil _) trivial
  · split
    · exact h.gives_typeParameter? p _
    · exact Gives.pure (List.forall_mem_nil _) trivial

theorem gives_parameter? (symbol : SymbolId) :
    Gives ctx n opened known (calls.parameter? p symbol)
      (·.toList.flatMap fun t => Ty.mentionsIn t.parts) fun _ => True := by
  unfold parameter?
  split
  · exact Gives.pure (List.forall_mem_nil _) trivial
  · refine (Gives.optionMapM _ fun ty _ => h.normalize ty _ none _ _).bind fun ty _ => ?_
    refine Gives.pure (fun r hr => List.mem_append_left _ ?_) trivial
    simp only [Option.toList_some, List.flatMap_cons, List.flatMap_nil, List.append_nil,
      Parameter.parts] at hr
    exact hr

/-- A signature mentions what its type parameters, its parameters and its result mention. -/
theorem gives_signature (s : SignatureInfo) :
    Gives ctx n opened known (calls.signature p s) (fun s => Ty.mentionsIn s.parts)
      fun _ => True := by
  unfold signature
  refine (Gives.collect _ fun ty _ => h.gives_typeParameterOf? p ty).bind fun typeParameters _ => ?_
  refine (Gives.collect _ fun x _ => h.gives_parameter? p x).bind fun parameters _ => ?_
  refine (h.gives_plain _).bind fun returnType _ => Gives.pure (fun r hr => ?_) trivial
  simp only [Signature.parts, Ty.mentionsIn_append, Ty.mentionsIn_flatMap, Ty.mentionsIn_cons,
    Ty.mentionsIn_nil, List.append_nil, List.mem_append] at hr
  simp only [List.mem_append]
  -- The three parts are known in the order opposite to that in which they were asked for.
  rcases hr with (hr | hr) | hr
  · exact Or.inr (Or.inr (Or.inl hr))
  · exact Or.inr (Or.inl hr)
  · exact Or.inl hr

theorem gives_signatures (ss : List SignatureInfo) :
    Gives ctx n opened known (calls.signatures p ss)
      (fun ss => Ty.mentionsIn (ss.flatMap (·.parts))) fun _ => True := by
  refine (Gives.mapM ss fun s _ => h.gives_signature p s).mono (fun _ hr => hr)
    (fun ss _ r hr => ?_)
    fun _ _ => trivial
  rw [Ty.mentionsIn_flatMap] at hr
  exact Or.inl hr

theorem gives_method (info : SymbolInfo) (nodes : List NodeInfo) (ty : TypeId)
    (style : MemberStyle) :
    Gives ctx n opened known (calls.method p info nodes ty style)
      (fun m => Ty.mentionsIn m.parts) fun _ => True :=
  (h.gives_signatures p _).bind fun _ _ =>
    Gives.pure (fun _ hr => List.mem_append_left _ hr) trivial

theorem gives_property (info : SymbolInfo) (nodes : List NodeInfo) (ty : TypeId)
    (style : MemberStyle) :
    Gives ctx n opened known (calls.property info nodes ty style)
      (fun m => Ty.mentionsIn m.parts) fun _ => True := by
  refine (h.normalize ty _ none _ _).bind fun value _ =>
    Gives.pure (fun r hr => List.mem_append_left _ ?_) trivial
  simpa only [Property.parts, Option.toList_some, Ty.mentionsIn_cons, Ty.mentionsIn_nil,
    List.append_nil] using hr

/-- With a member more, members mention what they did and what the new one mentions. -/
theorem gives_addMember (style : MemberStyle) (object : ObjectLiteral Ty) (symbol : SymbolId)
    (hknown : ∀ r ∈ Ty.mentionsIn object.parts, r ∈ known) :
    Gives ctx n opened known (calls.addMember p style object symbol)
      (fun o => Ty.mentionsIn o.parts) fun _ => True := by
  -- What is added comes last among its like; all else was there before.
  unfold addMember
  split
  · dsimp only
    split
    · refine (h.gives_signatures p _).bind fun added _ => Gives.pure (fun r hr => ?_) trivial
      have hold := hknown r
      simp only [ObjectLiteral.parts, Ty.mentionsIn_append, List.flatMap_append,
        List.mem_append] at hr hold ⊢
      tauto
    · split
      · refine (h.gives_method p _ _ _ _).bind fun added _ => Gives.pure (fun r hr => ?_) trivial
        have hold := hknown r
        simp only [ObjectLiteral.parts, Ty.mentionsIn_append, List.flatMap_append,
          List.flatMap_cons, List.flatMap_nil, List.append_nil, List.mem_append] at hr hold ⊢
        tauto
      · refine (h.gives_property _ _ _ _).bind fun added _ => Gives.pure (fun r hr => ?_) trivial
        have hold := hknown r
        simp only [ObjectLiteral.parts, Ty.mentionsIn_append, List.flatMap_append,
          List.flatMap_cons, List.flatMap_nil, List.append_nil, List.mem_append] at hr hold ⊢
        tauto
  · exact Gives.pure hknown trivial

theorem gives_addMembers (style : MemberStyle) (object : ObjectLiteral Ty)
    (symbols : List SymbolId) (hknown : ∀ r ∈ Ty.mentionsIn object.parts, r ∈ known) :
    Gives ctx n opened known (symbols.foldlM (calls.addMember p style) object)
      (fun o => Ty.mentionsIn o.parts) fun _ => True :=
  Gives.foldlM symbols object hknown fun o symbol _ _ ho => h.gives_addMember p style o symbol ho

theorem gives_indexSignature? (ty : TypeId) (kind : IndexKind) (key : PrimitiveKind) :
    Gives ctx n opened known (calls.indexSignature? p ty kind key)
      (fun o => Ty.mentionsIn (o.toList.flatMap (·.parts))) fun _ => True := by
  unfold indexSignature?
  refine (Gives.optionMapM _ fun ty _ => h.gives_plain ty).bind fun value _ =>
    Gives.pure (fun r hr => List.mem_append_left _ ?_) trivial
  cases value with
  | none => exact hr
  | some value =>
      simpa only [Option.map_some, Option.toList_some, List.flatMap_cons, List.flatMap_nil,
        List.append_nil, IndexSignature.parts, Ty.mentionsIn_cons, Ty.mentionsIn_nil,
        Ty.mentions_ofPrimitive, List.nil_append] using hr

theorem gives_objectLiteral (ty : TypeId) (withFlags : Bool) :
    Gives ctx n opened known (calls.objectLiteral p ty withFlags)
      (fun o => Ty.mentionsIn o.parts) fun _ => True := by
  unfold objectLiteral
  -- Each part is asked for in turn, and what was given before stays known.
  refine (h.gives_addMembers p _ _ _ (List.forall_mem_nil _)).bind fun object _ => ?_
  refine (h.gives_indexSignature? p ty .string .string).bind fun byString _ => ?_
  refine (h.gives_indexSignature? p ty .number .number).bind fun byNumber _ => ?_
  refine (h.gives_signatures p _).bind fun callSignatures _ => ?_
  refine (h.gives_signatures p _).bind fun constructSignatures _ =>
    Gives.pure (fun r hr => ?_) trivial
  simp only [ObjectLiteral.parts, Ty.mentionsIn_append, List.flatMap_append,
    List.mem_append] at hr ⊢
  tauto

/-- A type of members is a signature if it has nothing else. -/
theorem gives_objectType (ty : TypeId) :
    Gives ctx n opened known (calls.objectType p ty) Ty.mentions fun _ => True := by
  have hobject : Gives ctx n opened known
      (do return .of (.object (← calls.objectLiteral p ty false))) Ty.mentions fun _ => True :=
    (h.gives_objectLiteral p ty false).bind fun object _ =>
      Gives.pure (fun r hr => List.mem_append_left _ (by simpa only [Ty.mentions_of, Ty.Shape.own,
        Ty.Shape.parts, List.nil_append] using hr)) trivial
  unfold objectType
  split
  · split
    · exact (h.gives_signature p _).bind fun s _ =>
        Gives.pure (fun r hr => List.mem_append_left _ (by simpa only [Ty.mentions_of, Ty.Shape.own,
          Ty.Shape.parts, List.nil_append] using hr)) trivial
    · exact hobject
  · exact hobject

theorem gives_normalizeAll (tys : List TypeId) :
    Gives ctx n opened known (calls.normalizeAll tys) Ty.mentionsIn fun _ => True :=
  (Gives.mapM tys fun ty _ => h.gives_plain ty).weaken_ok

theorem gives_templateSpans (tys : List TypeId) (texts : List String) :
    Gives ctx n opened known (calls.templateSpans tys texts)
      (fun spans => Ty.mentionsIn (spans.map (·.ty))) fun _ => True := by
  -- The texts run out or not; only the types are mentioned.
  induction tys generalizing texts known with
  | nil => exact Gives.pure (List.forall_mem_nil _) trivial
  | cons ty tys ih =>
      unfold templateSpans
      refine (h.gives_plain ty).bind fun t _ => (ih texts.tail).bind fun spans _ =>
        Gives.pure (fun r hr => ?_) trivial
      simp only [List.map_cons, Ty.mentionsIn_cons, List.mem_append] at hr ⊢
      tauto

theorem gives_tupleElement (member : TupleMember) :
    Gives ctx n opened known (calls.tupleElement member) (fun e => e.ty.mentions) fun _ => True :=
  (h.gives_plain _).bind fun _ _ => Gives.pure (fun _ hr => List.mem_append_left _ hr) trivial

theorem gives_composite (ty : TypeId) (form : TypeForm) :
    Gives ctx n opened known (calls.composite p ty form) Ty.mentions fun _ => True := by
  -- What is put together mentions what its parts mention, and those were given.
  cases form with
  | union members =>
      refine (h.gives_normalizeAll members).bind fun ts _ => Gives.pure (fun r hr => ?_) trivial
      exact List.mem_append_left _ (Ty.mentions_union ts r hr)
  | intersection members =>
      refine (h.gives_normalizeAll members).bind fun ts _ => Gives.pure (fun r hr => ?_) trivial
      simp only [Ty.mentions_of, Ty.Shape.own, Ty.Shape.parts, List.nil_append] at hr
      exact List.mem_append_left _ hr
  | tuple members =>
      refine (Gives.mapM members fun e _ => h.gives_tupleElement e).bind fun es _ =>
        Gives.pure (fun r hr => ?_) trivial
      simp only [Ty.mentions_of, Ty.Shape.own, Ty.Shape.parts, List.nil_append, Ty.mentionsIn,
        List.flatMap_map] at hr
      exact List.mem_append_left _ hr
  | conditional check bound whenTrue whenFalse =>
      refine (h.gives_plain check).bind fun t₁ _ => (h.gives_plain bound).bind fun t₂ _ =>
        (h.gives_plain whenTrue).bind fun t₃ _ => (h.gives_plain whenFalse).bind fun t₄ _ =>
        Gives.pure (fun r hr => ?_) trivial
      simp only [Ty.mentions_of, Ty.Shape.own, Ty.Shape.parts, List.nil_append, Ty.mentionsIn_cons,
        Ty.mentionsIn_nil, List.append_nil, List.mem_append] at hr ⊢
      tauto
  | indexedAccess container index =>
      refine (h.gives_plain container).bind fun t₁ _ => (h.gives_plain index).bind fun t₂ _ =>
        Gives.pure (fun r hr => ?_) trivial
      simp only [Ty.mentions_of, Ty.Shape.own, Ty.Shape.parts, List.nil_append, Ty.mentionsIn_cons,
        Ty.mentionsIn_nil, List.append_nil, List.mem_append] at hr ⊢
      tauto
  | keyOf target =>
      refine (h.gives_plain target).bind fun t _ => Gives.pure (fun r hr => ?_) trivial
      simp only [Ty.mentions_of, Ty.Shape.own, Ty.Shape.parts, List.nil_append, Ty.mentionsIn_cons,
        Ty.mentionsIn_nil, List.append_nil] at hr
      exact List.mem_append_left _ hr
  | operator op target =>
      refine (h.gives_plain target).bind fun t _ => Gives.pure (fun r hr => ?_) trivial
      simp only [Ty.mentions_of, Ty.Shape.own, Ty.Shape.parts, List.nil_append, Ty.mentionsIn_cons,
        Ty.mentionsIn_nil, List.append_nil] at hr
      exact List.mem_append_left _ hr
  | template texts types =>
      refine (h.gives_templateSpans types texts.tail).bind fun spans _ =>
        Gives.pure (fun r hr => ?_) trivial
      simp only [Ty.mentions_of, Ty.Shape.own, Ty.Shape.parts, List.nil_append] at hr
      exact List.mem_append_left _ hr
  | unrecognized =>
      exact Gives.pure
        (fun r hr => absurd hr (by rw [Ty.mentions_verbatim]; exact List.not_mem_nil))
        trivial
  | _ => exact gives_unknownReference p ty

theorem gives_structureOf (ty : TypeId) (form : TypeForm) :
    Gives ctx n opened known
      (match (p.identityPrimitive? ty).or form.literal? with
        | some literal => return literal
        | none => calls.composite p ty form) Ty.mentions fun _ => True := by
  split
  · rename_i literal hl
    -- A type that is recognized by its number is an intrinsic one, and so is none with parts.
    have hnil : literal.mentions = [] := by
      rcases Option.or_eq_some_iff.1 hl with hl | ⟨_, hl⟩
      · exact p.mentions_identityPrimitive? ty literal hl
      · exact form.mentions_literal? literal hl
    exact Gives.pure (fun r hr => absurd hr (by rw [hnil]; exact List.not_mem_nil)) trivial
  · exact h.gives_composite p ty form

theorem gives_normalizeStructure (ty : TypeId) (info : TypeInfo) :
    Gives ctx n opened known (calls.normalizeStructure p ty info) Ty.mentions fun _ => True := by
  unfold normalizeStructure
  split
  · split
    · exact gives_unknownReference p ty
    · refine (h.gives_reference _ _ _).bind fun o _ => ?_
      cases o with
      | none => exact gives_unknownReference p ty
      | some ref =>
          refine Gives.pure (fun r hr => List.mem_append_left _ ?_) trivial
          rwa [Program.mentions_referenceType, Ty.mentionsIn_nil] at hr
  · refine (gives_stringUtility _).bind fun ref _ => (h.gives_plain _).bind fun target _ =>
      Gives.pure (fun r hr => ?_) trivial
    simp only [Ty.mentions_ofReference, Ty.mentionsIn_cons, Ty.mentionsIn_nil, List.append_nil,
      List.mem_cons, List.mem_append, List.not_mem_nil, or_false] at hr ⊢
    tauto
  · refine (Gives.optionMapM _ fun ty _ => h.gives_plain ty).bind fun constraint _ => ?_
    refine (Gives.optionMapM _ fun ty _ => h.gives_plain ty).bind fun value _ => ?_
    refine (Gives.optionMapM _ fun ty _ => h.gives_plain ty).bind fun nameType _ =>
      Gives.pure (fun r hr => ?_) trivial
    simp only [Ty.mentions_of, Ty.Shape.own, Ty.Shape.parts, MappedType.parts, List.nil_append,
      Ty.mentionsIn_append, List.mem_append] at hr
    simp only [List.mem_append]
    -- What was given last comes first in the list of what is known.
    rcases hr with (hr | hr) | hr
    · exact Or.inr (Or.inr (Or.inl hr))
    · exact Or.inr (Or.inl hr)
    · exact Or.inl hr
  · exact h.gives_objectType p ty
  · exact h.gives_structureOf p ty _

/-- A symbol that is asked for, and arguments for what it names. -/
theorem gives_named (x : SymbolId) {arguments : Action (List Ty)} {make : Reference → List Ty → Ty}
    (harguments : ∀ known, Gives ctx n opened known arguments Ty.mentionsIn fun _ => True)
    (hmake : ∀ ref ts, (make ref ts).mentions = ref :: Ty.mentionsIn ts) :
    Gives ctx n opened known
      (do match ← calls.reference x with
        | none => return none
        | some ref => return some (make ref (← arguments)))
      (·.toList.flatMap Ty.mentions) fun _ => True := by
  refine (h.gives_reference x opened known).bind fun o _ => ?_
  -- Without a reference the arguments are not asked for.
  cases o with
  | none => exact Gives.pure (List.forall_mem_nil _) trivial
  | some ref =>
      refine (harguments _).bind fun ts _ => Gives.pure (fun r hr => ?_) trivial
      simp only [Option.toList_some, List.flatMap_cons, List.flatMap_nil, List.append_nil, hmake,
        List.mem_cons, List.mem_append, List.not_mem_nil, or_false] at hr ⊢
      tauto

theorem gives_writtenAlias? (info : TypeInfo) (expanding : Option SymbolId) :
    Gives ctx n opened known (calls.writtenAlias? info expanding)
      (·.toList.flatMap Ty.mentions) fun _ => True := by
  unfold writtenAlias?
  split
  · exact Gives.pure (List.forall_mem_nil _) trivial
  · split
    · exact Gives.pure (List.forall_mem_nil _) trivial
    · exact h.gives_named _ (fun _ => h.gives_normalizeAll _) fun _ _ => Ty.mentions_ofReference _ _

theorem gives_writtenReference? (info : TypeInfo) (node : Option NodeId) :
    Gives ctx n opened known (calls.writtenReference? p info node)
      (·.toList.flatMap Ty.mentions) fun _ => True := by
  unfold writtenReference?
  split
  · exact h.gives_named _
      (fun _ => (Gives.mapM _ fun a _ => h.gives_normalizeNode p a).weaken_ok)
      fun _ _ => p.mentions_referenceType _ _ _
  · exact Gives.pure (List.forall_mem_nil _) trivial

theorem gives_owningReference? (ty : TypeId) (info : TypeInfo) :
    Gives ctx n opened known (calls.owningReference? p ty info)
      (·.toList.flatMap Ty.mentions) fun _ => True := by
  unfold owningReference?
  split
  · exact Gives.pure (List.forall_mem_nil _) trivial
  · split
    · exact h.gives_named _ (fun _ => h.gives_normalizeAll _)
        fun _ _ => p.mentions_referenceType _ _ _
    · exact Gives.pure (List.forall_mem_nil _) trivial

/-- A type, in whichever way it is to be had. -/
theorem gives_normalizeType (ty : TypeId) (node : Option NodeId) (expanding : Option SymbolId) :
    Gives ctx n opened known (calls.normalizeType p ty node expanding) Ty.mentions
      fun _ => True := by
  unfold normalizeType
  split
  · exact gives_unknownReference p ty
  · -- Names come first, and the structure only where there is none.
    refine gives_orElse (h.gives_writtenAlias? _ _) fun _ =>
      gives_orElse (h.gives_writtenReference? p _ _) fun _ => ?_
    split
    · exact (h.gives_plain _).bind fun t _ =>
        Gives.pure (fun r hr => List.mem_append_left _ (by rwa [Ty.mentions_array] at hr)) trivial
    · exact gives_orElse (h.gives_owningReference? p ty _) fun _ =>
        h.gives_normalizeStructure p ty _

/-- A type, one step further in. The nesting depth pays for the step. -/
theorem gives_normalizeStep (ty : TypeId) (node : Option NodeId) (expanding : Option SymbolId) :
    Gives ctx (n + 1) opened known (calls.normalizeStep ctx ty node expanding) Ty.mentions
      fun _ => True := by
  intro m ho hm
  refine Meets.get ?_
  by_cases hlimit : ctx.settings.maxTypeDepth ≤ m.state.depth
  · rw [if_pos hlimit]
    refine Meets.pure ⟨Leads.refl m, fun r hr => ?_, trivial⟩
    rw [Ty.mentions_verbatim] at hr
    exact absurd hr List.not_mem_nil
  · rw [if_neg hlimit]
    let m₁ := m.withDepth (m.state.depth + 1)
    refine Meets.step m₁ (a := ()) rfl ?_
    have hinner := h.gives_normalizeType ctx.program ty node expanding m₁ ho hm
    have hb : Moment.Before ctx.listeners m m₁ := m.before_withDepth _
    refine (hinner.mono (Averted.before hb fun hroom => ⟨hroom.acyclic, hroom.enclosed, ?_⟩)
      fun _ _ hp => hp).bind ?_
    · -- One step is spent, and there is one level less to go.
      have hsteps := hroom.steps
      change ctx.program.vacant m.state.registry * ctx.stride + (ctx.program.symbols.size + 2 +
        (ctx.settings.maxTypeDepth - (m.state.depth + 1))) ≤ n
      omega
    · rintro t m₂ ⟨hl, hr, _⟩
      -- The way out fails where the depth has been lost, which enclosed members do not allow.
      have hdepth : ctx.program.MembersEnclosed m.state → m₂.state.depth = m.state.depth + 1 :=
        fun he => hl.depth (he.mono hb.projects hb.contains)
      cases hout : m₂.state.depth with
      | zero =>
          refine Meets.of_error (e := .depthBelowZero) ?_ fun he => ?_
          · rw [Action.bind_apply, Action.ascend_zero hout]
            rfl
          · rw [hdepth he] at hout
            cases hout
      | succ d =>
          have hback : Moment.Before ctx.listeners m₂ (m₂.withDepth d) := m₂.before_withDepth d
          refine Meets.step (m₂.withDepth d) (a := ()) (Action.ascend_succ hout _)
            (Meets.pure
              ⟨⟨(hb.trans hl.toBefore).trans hback, hl.opened, fun he => ?_⟩, hr, trivial⟩)
          have hsame := hdepth he
          rw [hout] at hsame
          exact Nat.succ.inj hsame

end Calls.Sound

end DocModel
