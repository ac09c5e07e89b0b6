import DocModel.Proofs.Keeps
import DocModel.Proofs.Symbols

/-!
# What declarations are built from

Declarations of all sorts are registered in the same way, and differ in what is built. So what is to
be said of registration can be said once, of any way of building: every declaration that can be
registered is one of a namespace, one of a source file, or one that is registered by building it,
and building keeps whatever the calls keep.

## Main definitions

* `Declaration.types`: The types in a declaration.
* `Calls.Builds`: A way of building that keeps what the calls keep.

## Theorems

* `Calls.registerClass_builds`, `Calls.registerEnum_builds` and the like: What is built for a sort.
* `Calls.registerDeclaration_cases`: What can be registered, and how.
-/

namespace DocModel

/-- The types in a declaration. -/
def Declaration.types : Declaration → List Ty
  | .classType d => d.typeParameters.flatMap (·.parts) ++ d.bases ++ d.interfaces ++ d.members.parts
  | .interface d => d.typeParameters.flatMap (·.parts) ++ d.bases ++ d.members.parts
  | .enum d => d.members.flatMap (·.initializer.toList)
  | .function d => d.signatures.flatMap (·.parts)
  | .constant d => d.ty.toList
  | .typeAlias d => d.typeParameters.flatMap (·.parts) ++ [d.value]

namespace Calls

variable (calls : Calls) (ctx : Context)

/-- A way of building a declaration that keeps what the calls keep, from types of which is known
    what the calls say of them. Members may be entered on the way. -/
def Builds (members : List SymbolId) (build : Reference → Action Declaration) : Prop :=
  ∀ (K : Guard) (ok : Ty → Prop), calls.Keep K ok → Ty.Admits ok → Bears ctx.program members K →
    ∀ ref, Keeps K (build ref) fun d => ∀ t ∈ d.types, ok t

section

variable {calls ctx} {K : Guard} {ok : Ty → Prop} (h : calls.Keep K ok)
  (hok : Ty.Admits ok)

include h hok

/-- Static members are added to those that there are. -/
theorem Keep.addStatics (x : SymbolId) (members : ObjectLiteral Ty) :
    Keeps K (calls.addStatics ctx x members)
      fun o => (∀ t ∈ members.parts, ok t) → ∀ t ∈ o.parts, ok t := by
  unfold Calls.addStatics
  dsimp only
  split
  · exact Keeps.pure id
  · refine (h.addMembers hok ctx.program _ _ _).bind fun o => ?_
    refine (h.signatures hok ctx.program _).bind fun added =>
      Keeps.pure fun hadded ho hmembers t ht => ?_
    -- Signatures for making an instance are put behind those that were there.
    have hold := ho hmembers t
    have hnew := hadded t
    simp only [ObjectLiteral.parts, List.flatMap_append, List.mem_append] at ht hold
    tauto

/-- The value of a member is a type that was built, or a literal. -/
theorem Keep.memberValue? (member : SymbolId) (node : Option NodeInfo) :
    Keeps K (calls.memberValue? ctx member node) fun o => ∀ t ∈ o.toList, ok t := by
  unfold Calls.memberValue?
  dsimp only
  split
  · refine (h.normalizeNode hok ctx.program _).bind fun value => Keeps.pure fun hvalue t ht => ?_
    rw [List.mem_singleton.1 ht]
    exact hvalue
  · refine Keeps.pure fun t ht => ?_
    rw [Option.mem_toList] at ht
    rcases Option.bind_eq_some_iff.1 ht with ⟨ty, _, ht⟩
    exact ctx.program.admits_literalType? hok ty t ht

/-- A member is entered before its value is built. -/
theorem Keep.enumMember? {members : List SymbolId} (hb : Bears ctx.program members K)
    (ref : Reference) (node : NodeInfo) (member : SymbolId) (hmember : member ∈ members) :
    Keeps K (calls.enumMember? ctx ref node member)
      fun o => ∀ m ∈ o.toList, ∀ t ∈ m.initializer.toList, ok t := by
  unfold Calls.enumMember?
  dsimp only
  split
  · exact Keeps.pure (List.forall_mem_nil _)
  · rename_i info hinfo
    split
    · rename_i hkind
      -- Its reference is given out and entered first, so that its value may mention it.
      refine (hb.keeps_mint _ _).andThen fun minted => ?_
      refine (Keeps.update fun s t hs => hb.member s t member info _ hmember hinfo hkind hs).andThen
        fun _ => ?_
      refine (h.memberValue? hok member _).bind fun value => Keeps.pure fun hvalue m hm t ht => ?_
      rw [List.mem_singleton.1 hm] at ht
      exact hvalue t ht
    · exact Keeps.pure (List.forall_mem_nil _)

end

/-- Type parameters, other types and members, which is what most declarations are made of. -/
theorem mem_types_of_parts {ok : Ty → Prop} {ps : List (TypeParameter Ty)} {ts us : List Ty}
    (hps : ∀ b ∈ ps, ∀ t ∈ b.parts, ok t) (hts : ∀ t ∈ ts, ok t) (hus : ∀ t ∈ us, ok t) :
    ∀ t ∈ ps.flatMap (·.parts) ++ ts ++ us, ok t := by
  intro t ht
  rcases List.mem_append.1 ht with ht | ht
  · rcases List.mem_append.1 ht with ht | ht
    · rcases List.mem_flatMap.1 ht with ⟨b, hb, ht⟩
      exact hps b hb t ht
    · exact hts t ht
  · exact hus t ht

section

variable {x : SymbolId} {info : SymbolInfo} {node : NodeInfo}

/-- A class is built from its type parameters, what it extends and implements, and its members. -/
theorem registerClass_builds {ps bases interfaces : List NodeId} {ty : TypeId}
    (hnode : node.kind = .classNode ps bases interfaces)
    (hty : ctx.program.declaredType? x = some ty) :
    ∃ build, calls.Builds ctx [] build ∧
      calls.registerClass ctx x info node = calls.register ctx x info node .classType build := by
  simp only [registerClass, hnode, hty]
  refine ⟨_, fun K ok h hok hb ref => ?_, rfl⟩
  -- What is given for each part is remembered until the declaration is put together.
  refine (h.typeParameters hok ctx.program ps).bind fun ts => ?_
  refine (Keeps.mapM bases fun b _ => h.normalizeNode hok ctx.program b).bind fun bs => ?_
  refine (Keeps.mapM interfaces fun b _ => h.normalizeNode hok ctx.program b).bind fun is => ?_
  refine (h.objectLiteral hok ctx.program ty true).bind fun members => ?_
  refine (h.addStatics hok x members).bind fun all => Keeps.get fun s _ => ?_
  refine Keeps.pure fun hall hmembers his hbs hts t ht => ?_
  rcases List.mem_append.1 ht with ht | ht
  · exact mem_types_of_parts hts hbs his t ht
  · exact hall hmembers t ht

theorem registerInterface_builds {ps bases : List NodeId} {ty : TypeId}
    (hnode : node.kind = .interface ps bases) (hty : ctx.program.declaredType? x = some ty) :
    ∃ build, calls.Builds ctx [] build ∧
      calls.registerInterface ctx x info node =
        calls.register ctx x info node .interface build := by
  simp only [registerInterface, hnode, hty]
  refine ⟨_, fun K ok h hok hb ref => ?_, rfl⟩
  refine (h.typeParameters hok ctx.program ps).bind fun ts => ?_
  refine (Keeps.mapM bases fun b _ => h.normalizeNode hok ctx.program b).bind fun bs => ?_
  refine (h.objectLiteral hok ctx.program ty true).bind fun members => ?_
  exact Keeps.get fun s _ => Keeps.pure fun hmembers hbs hts =>
    mem_types_of_parts hts hbs hmembers

/-- An enumeration is built from its members, which are entered on the way. -/
theorem registerEnum_builds {isConst : Bool} {ty : TypeId} (hnode : node.kind = .enum isConst)
    (hty : ctx.program.declaredType? x = some ty) :
    ∃ build, calls.Builds ctx (ctx.program.exportsOf x) build ∧
      calls.registerEnum ctx x info node = calls.register ctx x info node .enum build := by
  simp only [registerEnum, hnode, hty]
  refine ⟨_, fun K ok h hok hb ref => ?_, rfl⟩
  refine (Keeps.collect _ fun m hm => h.enumMember? hok hb ref node m hm).bind fun ms => ?_
  refine Keeps.get fun s _ => Keeps.pure fun hms t ht => ?_
  rcases List.mem_flatMap.1 ht with ⟨m, hm, ht⟩
  exact hms m hm t ht

theorem registerTypeAlias_builds {ps : List NodeId} {value : Option NodeId} {ty : TypeId}
    (hnode : node.kind = .typeAlias ps value) (hty : ctx.program.declaredType? x = some ty) :
    ∃ build, calls.Builds ctx [] build ∧
      calls.registerTypeAlias ctx x info node =
        calls.register ctx x info node .typeAlias build := by
  simp only [registerTypeAlias, hnode, hty]
  refine ⟨_, fun K ok h hok hb ref => ?_, rfl⟩
  refine (h.typeParameters hok ctx.program ps).bind fun ts => ?_
  refine (h.normalize ty value (some x)).bind fun value => Keeps.get fun s _ => ?_
  refine Keeps.pure fun hvalue hts t ht => ?_
  rcases List.mem_append.1 ht with ht | ht
  · rcases List.mem_flatMap.1 ht with ⟨b, hb, ht⟩
    exact hts b hb t ht
  · rw [List.mem_singleton.1 ht]
    exact hvalue

theorem registerCallable_builds (ty : TypeId) (isAsync : Bool)
    (hsome : (ctx.program.callSignatures ty).isEmpty = false) :
    ∃ build, calls.Builds ctx [] build ∧
      calls.registerCallable ctx x info node ty isAsync =
        calls.register ctx x info node .function build := by
  simp only [registerCallable, hsome, Bool.false_eq_true, if_false]
  refine ⟨_, fun K ok h hok hb ref => ?_, rfl⟩
  exact (h.signatures hok ctx.program _).bind fun ss => Keeps.get fun s _ => Keeps.pure id

/-- A variable is registered as a function if it can be called, and as a constant otherwise. -/
theorem registerBinding_builds {initializer written : Option NodeId} {ty : TypeId}
    (hnode : node.kind = .binding initializer written)
    (hty : ctx.program.valueType? x = some ty) :
    ∃ kind build, kind.isDeclaration = true ∧ calls.Builds ctx [] build ∧
      calls.registerBinding ctx x info node = calls.register ctx x info node kind build := by
  simp only [registerBinding, hnode, hty]
  -- Whether there are signatures decides about the sort.
  cases hsome : (ctx.program.callSignatures ty).isEmpty with
  | true =>
      simp only [if_true]
      refine ⟨.constant, _, rfl, fun K ok h hok hb ref => ?_, rfl⟩
      refine (h.normalize ty written none).bind fun value => Keeps.get fun s _ => ?_
      refine Keeps.pure fun hvalue t ht => ?_
      rw [List.mem_singleton.1 ht]
      exact hvalue
  | false =>
      simp only [Bool.false_eq_true, if_false]
      rcases calls.registerCallable_builds ctx ty _ hsome with ⟨build, hbuild, heq⟩
      exact ⟨.function, build, rfl, hbuild, heq⟩

/-- What can be registered is a namespace, a source file, or something that is built. -/
theorem registerDeclaration_cases (hreg : ctx.program.isRegistrable x info node = true) :
    (info.kind = .namespaceScope ∧
      calls.registerDeclaration ctx x info node = calls.registerNamespace ctx x info node) ∨
    (info.kind = .sourceFile ∧ calls.registerDeclaration ctx x info node = fileReference x node) ∨
    info.kind ≠ .namespaceScope ∧ ∃ kind build members, kind.isDeclaration = true ∧
      (∀ y ∈ members, info.kind = .enum ∧ y ∈ ctx.program.exportsOf x) ∧
      calls.Builds ctx members build ∧
      calls.registerDeclaration ctx x info node = calls.register ctx x info node kind build := by
  have hnone : ∀ {kind : SymbolKind}, ∀ y ∈ ([] : List SymbolId),
      kind = .enum ∧ y ∈ ctx.program.exportsOf x := List.forall_mem_nil _
  unfold Program.isRegistrable at hreg
  unfold registerDeclaration
  -- All sorts but namespaces and files are built. An enumeration alone enters more than itself.
  split at hreg
  · rename_i hkind hnode
    rcases Option.isSome_iff_exists.1 hreg with ⟨ty, hty⟩
    rw [hkind]
    rcases calls.registerClass_builds ctx hnode hty with ⟨build, hbuild, heq⟩
    exact Or.inr (Or.inr ⟨nofun, .classType, build, [], rfl, hnone, hbuild, heq⟩)
  · rename_i hkind hnode
    rcases Option.isSome_iff_exists.1 hreg with ⟨ty, hty⟩
    rw [hkind]
    rcases calls.registerInterface_builds ctx hnode hty with ⟨build, hbuild, heq⟩
    exact Or.inr (Or.inr ⟨nofun, .interface, build, [], rfl, hnone, hbuild, heq⟩)
  · rename_i hkind hnode
    rcases Option.isSome_iff_exists.1 hreg with ⟨ty, hty⟩
    rw [hkind]
    rcases calls.registerEnum_builds ctx hnode hty with ⟨build, hbuild, heq⟩
    exact Or.inr (Or.inr ⟨nofun, .enum, build, _, rfl, fun _ hy => ⟨rfl, hy⟩, hbuild, heq⟩)
  · rename_i hkind hnode
    rcases Option.isSome_iff_exists.1 hreg with ⟨ty, hty⟩
    rw [hkind]
    rcases calls.registerTypeAlias_builds ctx hnode hty with ⟨build, hbuild, heq⟩
    exact Or.inr (Or.inr ⟨nofun, .typeAlias, build, [], rfl, hnone, hbuild, heq⟩)
  · rename_i hkind hnode
    rcases (Option.any_eq_true _ _).1 hreg with ⟨ty, hty, hsome⟩
    rw [Bool.not_eq_true'] at hsome
    simp only [hkind, registerFunction, hnode, hty]
    rcases calls.registerCallable_builds ctx ty node.modifiers.isAsync hsome with
      ⟨build, hbuild, heq⟩
    exact Or.inr (Or.inr ⟨nofun, .function, build, [], rfl, hnone, hbuild, heq⟩)
  · rename_i hkind hnode
    rcases Option.isSome_iff_exists.1 hreg with ⟨ty, hty⟩
    rw [hkind]
    rcases calls.registerBinding_builds ctx hnode hty with ⟨kind, build, hdecl, hbuild, heq⟩
    exact Or.inr (Or.inr ⟨nofun, kind, build, [], hdecl, hnone, hbuild, heq⟩)
  · rename_i hkind
    exact Or.inl ⟨hkind, by rw [hkind]⟩
  · rename_i hkind
    exact Or.inr (Or.inl ⟨hkind, by rw [hkind]⟩)
  · exact absurd hreg Bool.false_ne_true

end

end Calls

end DocModel
