import DocModel.Proofs.Meets
import DocModel.Session.Basic
import Mathlib.Tactic.GCongr

/-!
# More steps change no answer

An action that gives an answer in some number of steps gives the same answer in any greater number.
If it fails because of what it does, it fails in any greater number too, and for the same reason. So
the number of steps is no part of what an extraction does: it only decides whether the extraction
comes to an end, and what it comes to with enough steps is what it comes to.

All that a step does goes through the two operations that come back to themselves. If one pair of
these comes to whatever another comes to, so does everything that is built on them; this is said of
each function once, in a form that `gcongr` can put together. The rest is an induction on the number
of steps.

## Main definitions

* `Action.Below`: One action comes to what another comes to.
* `Calls.Below`: The same for the two operations.
* `Context.step`: One step on top of other operations.
* `Context.withSteps`, `Session.withSteps`: Another number of steps.

## Theorems

* `Calls.below_referenceStep`, `Calls.below_normalizeStep`, `Context.below_step`: What a step gives.
* `Context.below_of_le`: More steps change no answer.
* `Context.below_extract`, `Session.run_withSteps`: Nor what a session gives.
-/

namespace DocModel

variable {α β : Type}

/-- The second action comes to what the first comes to, and may come to something where the first
    has no end. -/
def Action.Below (act act' : Action α) : Prop :=
  ∀ (s : State) (t : Trail), act s t ≠ .error .endless → act' s t = act s t

namespace Action.Below

@[refl]
theorem refl (act : Action α) : act.Below act := fun _ _ _ => rfl

theorem trans {act act' act'' : Action α} (h : act.Below act') (h' : act'.Below act'') :
    act.Below act'' := by
  intro s t hends
  -- The first comes to an end, and so does the second.
  have hsame := h s t hends
  rw [h' s t (hsame ▸ hends), hsame]

@[gcongr]
theorem bind {act act' : Action α} {f f' : α → Action β} (h : act.Below act')
    (hf : ∀ a, (f a).Below (f' a)) : Action.Below (act >>= f) (act' >>= f') := by
  intro s t hends
  rw [Action.bind_apply] at hends
  rw [Action.bind_apply, Action.bind_apply]
  -- If the first action had no end, neither had both.
  have hsame : act' s t = act s t := by
    refine h s t fun hact => hends ?_
    rw [hact]
    rfl
  rw [hsame]
  -- What follows starts from the same state.
  cases hact : act s t with
  | error e => rfl
  | ok r =>
      rw [hact] at hends
      exact hf r.1.1 r.1.2 r.2 hends

theorem ite {c c' : Prop} [Decidable c] [Decidable c'] {act act' other other' : Action α}
    (hc : c ↔ c') (h : act.Below act') (ho : other.Below other') :
    Action.Below (if c then act else other) (if c' then act' else other') := by
  by_cases hcase : c
  · rw [if_pos hcase, if_pos (hc.1 hcase)]
    exact h
  · rw [if_neg hcase, if_neg (fun hcase' => hcase (hc.2 hcase'))]
    exact ho

@[gcongr]
theorem mapM {f f' : α → Action β} (as : List α) (h : ∀ a, (f a).Below (f' a)) :
    Action.Below (as.mapM f) (as.mapM f') := by
  induction as with
  | nil => rfl
  | cons a as ih =>
      rw [List.mapM_cons, List.mapM_cons]
      gcongr
      exact h a

@[gcongr]
theorem optionMapM {f f' : α → Action β} (o : Option α) (h : ∀ a, (f a).Below (f' a)) :
    Action.Below (o.mapM f) (o.mapM f') := by
  cases o with
  | none => rfl
  | some a =>
      change Action.Below (some <$> f a) (some <$> f' a)
      rw [map_eq_pure_bind, map_eq_pure_bind]
      gcongr
      exact h a

@[gcongr]
theorem collect {f f' : α → Action (Option β)} (as : List α) (h : ∀ a, (f a).Below (f' a)) :
    Action.Below (Action.collect f as) (Action.collect f' as) := by
  unfold Action.collect
  gcongr
  exact h _

@[gcongr]
theorem foldlM {f f' : β → α → Action β} (as : List α) (b : β)
    (h : ∀ b a, (f b a).Below (f' b a)) :
    Action.Below (as.foldlM f b) (as.foldlM f' b) := by
  induction as generalizing b with
  | nil => rfl
  | cons a as ih =>
      rw [List.foldlM_cons, List.foldlM_cons]
      exact (h b a).bind fun b' => ih b'

@[gcongr]
theorem forM {f f' : α → Action Unit} (as : List α) (h : ∀ a, (f a).Below (f' a)) :
    Action.Below (as.forM f) (as.forM f') := by
  induction as with
  | nil => rfl
  | cons a as ih => exact (h a).bind fun _ => ih

end Action.Below

/-- The second pair of operations gives what the first gives. -/
structure Calls.Below (calls calls' : Calls) : Prop where
  reference : ∀ (x : SymbolId), (calls.reference x).Below (calls'.reference x)
  normalize : ∀ (ty : TypeId) (node : Option NodeId) (expanding : Option SymbolId),
    (calls.normalize ty node expanding).Below (calls'.normalize ty node expanding)

attribute [gcongr] Calls.Below.reference Calls.Below.normalize

namespace Calls

section Types

variable {calls calls' : Calls} (h : calls.Below calls') (p : Program)

include h

@[gcongr]
theorem below_plain (ty : TypeId) : (calls.plain ty).Below (calls'.plain ty) := by
  unfold plain
  gcongr

@[gcongr]
theorem below_normalizeNode (node : NodeId) :
    (calls.normalizeNode p node).Below (calls'.normalizeNode p node) := by
  unfold normalizeNode
  split
  · gcongr
  · rfl

@[gcongr]
theorem below_typeParameter? (node : NodeId) :
    (calls.typeParameter? p node).Below (calls'.typeParameter? p node) := by
  unfold typeParameter?
  split
  · gcongr
  · rfl

@[gcongr]
theorem below_typeParameters (nodes : List NodeId) :
    (calls.typeParameters p nodes).Below (calls'.typeParameters p nodes) := by
  unfold typeParameters
  gcongr

@[gcongr]
theorem below_typeParameterOf? (ty : TypeId) :
    (calls.typeParameterOf? p ty).Below (calls'.typeParameterOf? p ty) := by
  unfold typeParameterOf?
  split
  · rfl
  · split
    · gcongr
    · rfl

@[gcongr]
theorem below_parameter? (x : SymbolId) :
    (calls.parameter? p x).Below (calls'.parameter? p x) := by
  unfold parameter?
  split
  · rfl
  · dsimp only
    gcongr

@[gcongr]
theorem below_signature (s : SignatureInfo) :
    (calls.signature p s).Below (calls'.signature p s) := by
  unfold signature
  gcongr

@[gcongr]
theorem below_signatures (ss : List SignatureInfo) :
    (calls.signatures p ss).Below (calls'.signatures p ss) := by
  unfold signatures
  gcongr

@[gcongr]
theorem below_method (info : SymbolInfo) (nodes : List NodeInfo) (ty : TypeId)
    (style : MemberStyle) :
    (calls.method p info nodes ty style).Below (calls'.method p info nodes ty style) := by
  unfold method
  dsimp only
  gcongr

@[gcongr]
theorem below_property (info : SymbolInfo) (nodes : List NodeInfo) (ty : TypeId)
    (style : MemberStyle) :
    (calls.property info nodes ty style).Below (calls'.property info nodes ty style) := by
  unfold property
  dsimp only
  gcongr

@[gcongr]
theorem below_addMember (style : MemberStyle) (object : ObjectLiteral Ty) (x : SymbolId) :
    (calls.addMember p style object x).Below (calls'.addMember p style object x) := by
  unfold addMember
  split
  · dsimp only
    -- Constructors, methods and properties.
    split
    · gcongr
    · split
      · gcongr
      · gcongr
  · rfl

@[gcongr]
theorem below_indexSignature? (ty : TypeId) (kind : IndexKind) (key : PrimitiveKind) :
    (calls.indexSignature? p ty kind key).Below (calls'.indexSignature? p ty kind key) := by
  unfold indexSignature?
  gcongr

@[gcongr]
theorem below_objectLiteral (ty : TypeId) (withFlags : Bool) :
    (calls.objectLiteral p ty withFlags).Below (calls'.objectLiteral p ty withFlags) := by
  unfold objectLiteral
  gcongr

@[gcongr]
theorem below_objectType (ty : TypeId) :
    (calls.objectType p ty).Below (calls'.objectType p ty) := by
  unfold objectType
  split
  · split
    · gcongr
    · gcongr
  · gcongr

@[gcongr]
theorem below_normalizeAll (tys : List TypeId) :
    (calls.normalizeAll tys).Below (calls'.normalizeAll tys) := by
  unfold normalizeAll
  gcongr

@[gcongr]
theorem below_tupleElement (m : TupleMember) :
    (calls.tupleElement m).Below (calls'.tupleElement m) := by
  unfold tupleElement
  gcongr

/-- The types in a template, with the texts behind them. -/
@[gcongr]
theorem below_templateSpans (tys : List TypeId) (texts : List String) :
    (calls.templateSpans tys texts).Below (calls'.templateSpans tys texts) := by
  -- The texts run along with the types, so this has to hold for any of them.
  induction tys generalizing texts with
  | nil => rfl
  | cons ty tys ih =>
      unfold templateSpans
      gcongr
      exact ih texts.tail

@[gcongr]
theorem below_composite (ty : TypeId) (form : TypeForm) :
    (calls.composite p ty form).Below (calls'.composite p ty form) := by
  -- The other forms are not put together from types.
  cases form with
  | union | intersection | tuple | conditional | indexedAccess | keyOf | operator | template =>
      dsimp only [composite]
      gcongr
  | _ => rfl

@[gcongr]
theorem below_normalizeStructure (ty : TypeId) (info : TypeInfo) :
    (calls.normalizeStructure p ty info).Below (calls'.normalizeStructure p ty info) := by
  unfold normalizeStructure
  -- Type parameters, string mappings, mapped types, objects, and the rest.
  split
  · split
    · rfl
    · gcongr
  · gcongr
  · gcongr
  · gcongr
  · split
    · rfl
    · gcongr

@[gcongr]
theorem below_writtenAlias? (info : TypeInfo) (expanding : Option SymbolId) :
    (calls.writtenAlias? info expanding).Below (calls'.writtenAlias? info expanding) := by
  unfold writtenAlias?
  split
  · rfl
  · split
    · rfl
    · gcongr with o
      cases o with
      | none => rfl
      | some ref => dsimp only; gcongr

@[gcongr]
theorem below_writtenReference? (info : TypeInfo) (node : Option NodeId) :
    (calls.writtenReference? p info node).Below (calls'.writtenReference? p info node) := by
  unfold writtenReference?
  split
  · gcongr with o
    cases o with
    | none => rfl
    | some ref => dsimp only; gcongr
  · rfl

@[gcongr]
theorem below_owningReference? (ty : TypeId) (info : TypeInfo) :
    (calls.owningReference? p ty info).Below (calls'.owningReference? p ty info) := by
  unfold owningReference?
  split
  · rfl
  · split
    · gcongr with o
      cases o with
      | none => rfl
      | some ref => dsimp only; gcongr
    · rfl

@[gcongr]
theorem below_normalizeType (ty : TypeId) (node : Option NodeId) (expanding : Option SymbolId) :
    (calls.normalizeType p ty node expanding).Below
      (calls'.normalizeType p ty node expanding) := by
  unfold normalizeType
  split
  · rfl
  · rename_i info _
    -- Each attempt is made only where those before it gave nothing.
    gcongr with o
    cases o with
    | some t => rfl
    | none =>
        dsimp only
        gcongr with o
        cases o with
        | some t => rfl
        | none =>
            dsimp only
            split
            · gcongr
            · gcongr with o
              cases o with
              | some t => rfl
              | none => dsimp only; gcongr

/-- What a step gives for a type. -/
theorem below_normalizeStep (ctx : Context) (ty : TypeId) (node : Option NodeId)
    (expanding : Option SymbolId) :
    (calls.normalizeStep ctx ty node expanding).Below
      (calls'.normalizeStep ctx ty node expanding) := by
  unfold normalizeStep
  gcongr with s
  -- At the limit the type is a text and nothing is asked for.
  split
  · rfl
  · gcongr

end Types

section Registration

variable {calls calls' : Calls} (h : calls.Below calls') (ctx : Context) (x : SymbolId)
  (info : SymbolInfo) (node : NodeInfo)

include h

@[gcongr]
theorem below_externalReference :
    (calls.externalReference ctx x info node).Below
      (calls'.externalReference ctx x info node) := by
  unfold externalReference
  dsimp only
  gcongr with minted
  split
  · gcongr
  · rfl

@[gcongr]
theorem below_owningModule? :
    (calls.owningModule? ctx info node).Below (calls'.owningModule? ctx info node) := by
  unfold owningModule?
  split
  · rfl
  · -- Only a namespace that has no module yet is asked for.
    split
    · gcongr with s
      dsimp only
      split
      · gcongr
      · rfl
    · rfl

@[gcongr]
theorem below_beginDeclaration? (kind : ReferenceKind) :
    (calls.beginDeclaration? ctx x info node kind).Below
      (calls'.beginDeclaration? ctx x info node kind) := by
  unfold beginDeclaration?
  gcongr

@[gcongr]
theorem below_register (kind : ReferenceKind) {build build' : Reference → Action Declaration}
    (hbuild : ∀ ref, (build ref).Below (build' ref)) :
    (calls.register ctx x info node kind build).Below
      (calls'.register ctx x info node kind build') := by
  unfold register
  gcongr with o
  cases o with
  | none => rfl
  | some pair =>
      dsimp only
      gcongr
      exact hbuild pair.1

@[gcongr]
theorem below_addStatics (members : ObjectLiteral Ty) :
    (calls.addStatics ctx x members).Below (calls'.addStatics ctx x members) := by
  unfold addStatics
  dsimp only
  split
  · rfl
  · gcongr

@[gcongr]
theorem below_registerClass :
    (calls.registerClass ctx x info node).Below (calls'.registerClass ctx x info node) := by
  unfold registerClass
  dsimp only
  split
  · gcongr
  · rfl

@[gcongr]
theorem below_registerInterface :
    (calls.registerInterface ctx x info node).Below
      (calls'.registerInterface ctx x info node) := by
  unfold registerInterface
  dsimp only
  split
  · gcongr
  · rfl

@[gcongr]
theorem below_memberValue? (member : SymbolId) (node : Option NodeInfo) :
    (calls.memberValue? ctx member node).Below (calls'.memberValue? ctx member node) := by
  unfold memberValue?
  dsimp only
  split
  · gcongr
  · rfl

@[gcongr]
theorem below_enumMember? (reference : Reference) (member : SymbolId) :
    (calls.enumMember? ctx reference node member).Below
      (calls'.enumMember? ctx reference node member) := by
  unfold enumMember?
  dsimp only
  split
  · rfl
  · split
    · gcongr
    · rfl

@[gcongr]
theorem below_registerEnum :
    (calls.registerEnum ctx x info node).Below (calls'.registerEnum ctx x info node) := by
  unfold registerEnum
  dsimp only
  split
  · gcongr
  · rfl

@[gcongr]
theorem below_registerCallable (ty : TypeId) (isAsync : Bool) :
    (calls.registerCallable ctx x info node ty isAsync).Below
      (calls'.registerCallable ctx x info node ty isAsync) := by
  unfold registerCallable
  dsimp only
  split
  · rfl
  · gcongr

@[gcongr]
theorem below_registerFunction :
    (calls.registerFunction ctx x info node).Below (calls'.registerFunction ctx x info node) := by
  unfold registerFunction
  split
  · gcongr
  · rfl

@[gcongr]
theorem below_registerBinding :
    (calls.registerBinding ctx x info node).Below (calls'.registerBinding ctx x info node) := by
  unfold registerBinding
  dsimp only
  split
  · split
    · gcongr
    · gcongr
  · rfl

@[gcongr]
theorem below_registerTypeAlias :
    (calls.registerTypeAlias ctx x info node).Below
      (calls'.registerTypeAlias ctx x info node) := by
  unfold registerTypeAlias
  dsimp only
  split
  · gcongr
  · rfl

@[gcongr]
theorem below_registerNamespace :
    (calls.registerNamespace ctx x info node).Below
      (calls'.registerNamespace ctx x info node) := by
  unfold registerNamespace
  gcongr with o
  -- A namespace without a module around it is left out.
  cases o with
  | none => rfl
  | some outer =>
      dsimp only
      gcongr with s
      split
      · gcongr
      · rfl

/-- Registering a declaration of any kind. -/
@[gcongr]
theorem below_registerDeclaration :
    (calls.registerDeclaration ctx x info node).Below
      (calls'.registerDeclaration ctx x info node) := by
  unfold registerDeclaration
  split
  · gcongr
  · gcongr
  · gcongr
  · gcongr
  · gcongr
  · gcongr
  · gcongr
  · rfl
  · rfl

@[gcongr]
theorem below_enumMemberReference? :
    (calls.enumMemberReference? x info).Below (calls'.enumMemberReference? x info) := by
  unfold enumMemberReference?
  gcongr
  split
  · rfl
  · gcongr

@[gcongr]
theorem below_registerSymbol :
    (calls.registerSymbol ctx x info node).Below (calls'.registerSymbol ctx x info node) := by
  unfold registerSymbol
  split
  · gcongr
  · gcongr

@[gcongr]
theorem below_registerEnclosing? :
    (calls.registerEnclosing? ctx x info).Below (calls'.registerEnclosing? ctx x info) := by
  unfold registerEnclosing?
  split
  · rfl
  · gcongr with s
    split
    · gcongr
    · rfl

@[gcongr]
theorem below_resolveSymbol :
    (calls.resolveSymbol ctx x info).Below (calls'.resolveSymbol ctx x info) := by
  unfold resolveSymbol
  split
  · rfl
  · split
    · rfl
    · gcongr with s
      -- It is external, or registering what is around it may have entered it.
      split
      · gcongr
      · gcongr with o
        cases o with
        | some ref => rfl
        | none => dsimp only; gcongr

/-- What a step gives for a reference. -/
theorem below_referenceStep :
    (calls.referenceStep ctx x).Below (calls'.referenceStep ctx x) := by
  unfold referenceStep
  gcongr with o
  cases o with
  | some ref => rfl
  | none =>
      dsimp only
      -- A symbol that stands for itself is resolved, and an alias takes what its target has.
      split
      · split
        · rfl
        · gcongr
      · gcongr with o
        cases o with
        | some ref => rfl
        | none =>
            dsimp only
            split
            · rfl
            · gcongr

end Registration

end Calls

namespace Context

variable (ctx : Context)

/-- One step on top of other operations. -/
def step (calls : Calls) : Calls where
  reference x := do
    Action.note
    calls.referenceStep ctx x
  normalize ty node expanding := do
    Action.note
    calls.normalizeStep ctx ty node expanding

/-- One step on top of the operations with some number of steps is one step more. -/
theorem step_calls (n : Nat) : ctx.step ⟨ctx.reference n, ctx.normalize n⟩ =
    ⟨ctx.reference (n + 1), ctx.normalize (n + 1)⟩ := by
  rw [step, Calls.mk.injEq]
  exact ⟨funext fun x => (reference.eq_2 ..).symm,
    funext fun ty => funext fun node => funext fun expanding => (normalize.eq_2 ..).symm⟩

/-- What a step gives. -/
theorem below_step {calls calls' : Calls} (h : calls.Below calls') :
    (ctx.step calls).Below (ctx.step calls') :=
  ⟨fun x => (Action.Below.refl _).bind fun _ => Calls.below_referenceStep h ctx x,
    fun ty node expanding => (Action.Below.refl _).bind fun _ =>
      Calls.below_normalizeStep h ctx ty node expanding⟩

/-- Without a step there is no end, so that anything gives as much. -/
theorem below_zero (calls : Calls) : Calls.Below ⟨ctx.reference 0, ctx.normalize 0⟩ calls :=
  ⟨fun _ _ _ hends => absurd rfl hends, fun _ _ _ _ _ hends => absurd rfl hends⟩

theorem below_succ (n : Nat) : Calls.Below ⟨ctx.reference n, ctx.normalize n⟩
    ⟨ctx.reference (n + 1), ctx.normalize (n + 1)⟩ := by
  induction n with
  | zero => exact ctx.below_zero _
  | succ n ih =>
      -- One step on both sides.
      have hnext := ctx.below_step ih
      rw [step_calls, step_calls] at hnext
      exact hnext

/-- More steps change no answer. -/
theorem below_of_le {n k : Nat} (h : n ≤ k) : Calls.Below ⟨ctx.reference n, ctx.normalize n⟩
    ⟨ctx.reference k, ctx.normalize k⟩ := by
  induction k, h using Nat.le_induction with
  | base => exact ⟨fun x => Action.Below.refl _, fun ty node expanding => Action.Below.refl _⟩
  | succ k _ ih =>
      have hnext := ctx.below_succ k
      exact ⟨fun x => (ih.reference x).trans (hnext.reference x), fun ty node expanding =>
        (ih.normalize ty node expanding).trans (hnext.normalize ty node expanding)⟩

/-- The same input with another number of steps. -/
def withSteps (steps : Nat) : Context := { ctx with steps }

/-- A step does not look at how many there are. -/
theorem calls_withSteps (k n : Nat) :
    (ctx.withSteps k).reference n = ctx.reference n ∧
      (ctx.withSteps k).normalize n = ctx.normalize n := by
  induction n with
  | zero => exact ⟨rfl, rfl⟩
  | succ n ih =>
      -- Both sides unfold to a step on top of the same operations.
      refine ⟨funext fun x => ?_, funext fun ty => funext fun node => funext fun expanding => ?_⟩
      · rw [reference, reference, ih.1, ih.2]
        rfl
      · rw [normalize, normalize, ih.1, ih.2]
        rfl

section Same

variable (k : Nat)

@[simp]
theorem program_withSteps : (ctx.withSteps k).program = ctx.program := rfl

@[simp]
theorem symbolFile?_withSteps : (ctx.withSteps k).symbolFile? = ctx.symbolFile? := rfl

@[simp]
theorem addWildcard_withSteps : (ctx.withSteps k).addWildcard = ctx.addWildcard := rfl

end Same

variable {ctx} {k : Nat} (hk : ctx.steps ≤ k)

include hk

theorem below_referenceOf (x : SymbolId) :
    (ctx.referenceOf x).Below ((ctx.withSteps k).referenceOf x) := by
  unfold referenceOf
  rw [(ctx.calls_withSteps k _).1]
  exact (ctx.below_of_le hk).reference x

theorem below_typeOf (ty : TypeId) (node : Option NodeId) :
    (ctx.typeOf ty node).Below ((ctx.withSteps k).typeOf ty node) := by
  unfold typeOf
  rw [(ctx.calls_withSteps k _).2]
  exact (ctx.below_of_le hk).normalize ty node none

theorem below_addDirect (exports : FileExports) (x : SymbolId) (name : String) :
    (ctx.addDirect exports x name).Below ((ctx.withSteps k).addDirect exports x name) :=
  (below_referenceOf hk x).bind fun _ => Action.Below.refl _

theorem below_addPassedOn? (owner : ModuleHandle) (exports : FileExports) (target : SymbolId)
    (targetFile : Path) (name : String) :
    (ctx.addPassedOn? owner exports target targetFile name).Below
      ((ctx.withSteps k).addPassedOn? owner exports target targetFile name) :=
  (below_referenceOf hk target).bind fun _ => Action.Below.refl _

theorem below_addAlias (owner : ModuleHandle) (file : Path) (exports : FileExports) (x : SymbolId)
    (name : String) : (ctx.addAlias owner file exports x name).Below
      ((ctx.withSteps k).addAlias owner file exports x name) := by
  have hdirect := below_addDirect hk exports x name
  unfold addAlias
  simp only [program_withSteps, symbolFile?_withSteps, addWildcard_withSteps]
  split
  · rfl
  · refine (Action.Below.refl _).bind fun s => ?_
    -- An export that cannot be passed on is a direct one.
    refine Action.Below.ite Iff.rfl ?_ hdirect
    refine (below_addPassedOn? hk owner exports _ _ name).bind fun o => ?_
    cases o with
    | some changed => rfl
    | none => exact hdirect
  · exact hdirect

theorem below_addExport (owner : ModuleHandle) (file : Path) (exports : FileExports)
    (x : SymbolId) : (ctx.addExport owner file exports x).Below
      ((ctx.withSteps k).addExport owner file exports x) := by
  unfold addExport
  simp only [program_withSteps]
  split
  · rfl
  · split
    · exact below_addAlias hk owner file exports x _
    · exact below_addDirect hk exports x _

theorem below_trackExports (owner : ModuleHandle) (file : Path) :
    (ctx.trackExports owner file).Below ((ctx.withSteps k).trackExports owner file) := by
  unfold trackExports
  simp only [program_withSteps, symbolFile?_withSteps, addWildcard_withSteps]
  split
  · rfl
  · refine (Action.Below.refl _).bind fun exports => ?_
    exact Action.Below.foldlM _ exports fun exports x => below_addExport hk owner file exports x

theorem below_extractFile (file : Path) :
    (ctx.extractFile file).Below ((ctx.withSteps k).extractFile file) := by
  refine (Action.Below.refl _).bind fun o => ?_
  cases o with
  | none => rfl
  | some owner => exact (below_trackExports hk owner file).bind fun _ => Action.Below.refl _

/-- Extracting all files. -/
theorem below_extract : ctx.extract.Below (ctx.withSteps k).extract := by
  unfold extract
  rw [program_withSteps]
  refine Action.Below.forM _ fun file => (Action.Below.refl _).bind fun s => ?_
  exact Action.Below.ite Iff.rfl (Action.Below.refl _) (below_extractFile hk file)

end Context

namespace Session

/-- The same session with another number of steps. -/
def withSteps (s : Session) (steps : Nat) : Session :=
  { s with context := s.context.withSteps steps }

/-- Where a session comes to an end, it comes to the same with more steps. -/
theorem run_withSteps_eq {s : Session} {act act' : Action α} (k : Nat) (h : act.Below act')
    (hends : s.run act ≠ .error .endless) :
    (s.withSteps k).run act' = (s.run act).map fun r => (r.1, r.2.withSteps k) := by
  have hsame : act' s.state (s.state :: s.trail) = act s.state (s.state :: s.trail) :=
    h _ _ fun hact => hends (Outcome.map_eq_error.2 hact)
  change (act' s.state (s.state :: s.trail)).map _ = _
  rw [hsame, run, Outcome.map_map]
  rfl

/-- What a session gives, it gives with more steps. -/
theorem run_withSteps {s s' : Session} {act act' : Action α} {a : α} (k : Nat)
    (h : act.Below act') (hrun : s.run act = .ok (a, s')) :
    (s.withSteps k).run act' = .ok (a, s'.withSteps k) := by
  rw [run_withSteps_eq k h (by rw [hrun]; exact nofun), hrun]
  rfl

/-- Where a session fails because of what it does, it fails with more steps. -/
theorem run_withSteps_error {s : Session} {act act' : Action α} {e : Failure} (k : Nat)
    (h : act.Below act') (he : e ≠ .endless) (hrun : s.run act = .error e) :
    (s.withSteps k).run act' = .error e := by
  rw [run_withSteps_eq k h (by rw [hrun]; exact fun heq => he (Except.error.inj heq)), hrun]
  rfl

end Session

end DocModel
