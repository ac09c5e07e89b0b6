import DocModel.Ty.Shape

/-!
# Types

A documented type is a layer whose parts are documented types: `Ty` is the least fixed point of
`Ty.Shape`. There is one way to recurse over a type, `Ty.fold`, which replaces the parts of each
layer by results before the layer itself is looked at; everything that is computed from a type is a
fold.

## Main definitions

* `Ty`: A documented type.
* `Ty.fold`: Recursion over a type.
* `Ty.ofReference`, `Ty.ofPrimitive`, `Ty.literal`: Common types.

## Theorems

* `Ty.fold_of`: A fold is the algebra, applied to the layer with its parts folded.
* `Ty.induction`: A property that each layer inherits from its parts holds of every type.
-/

namespace DocModel

/-- A documented type. -/
inductive Ty where
  /-- The type with the given outermost layer. -/
  | of (shape : Ty.Shape Ty)

namespace Ty

/-- The outermost layer of a type. -/
def shape : Ty → Shape Ty
  | of s => s

section Fold

variable {α : Type} (alg : Shape α → α)

mutual

/-- Replaces every layer of a type, from the inside out, by what `alg` makes of it. -/
def fold : Ty → α
  | of s => alg (foldShape s)

/-- A layer with its parts folded. -/
def foldShape : Shape Ty → Shape α
  | .reference target arguments isInfer => .reference target (foldList arguments) isInfer
  | .primitive kind literal => .primitive kind literal
  | .union members => .union (foldList members)
  | .intersection members => .intersection (foldList members)
  | .tuple elements => .tuple (foldElements elements)
  | .array element => .array (fold element)
  | .object body => .object (foldObject body)
  | .function signature => .function (foldSignature signature)
  | .mapped body => .mapped (foldMapped body)
  | .conditional check bound whenTrue whenFalse =>
    .conditional (fold check) (fold bound) (fold whenTrue) (fold whenFalse)
  | .indexAccess container index => .indexAccess (fold container) (fold index)
  | .operator op target => .operator op (fold target)
  | .template head spans => .template head (foldSpans spans)
  | .verbatim text => .verbatim text

/-- Types folded one by one. -/
def foldList : List Ty → List α
  | [] => []
  | t :: ts => fold t :: foldList ts

/-- A type folded where there is one. -/
def foldOption : Option Ty → Option α
  | none => none
  | some t => some (fold t)

/-- Elements of a tuple with their types folded. -/
def foldElements : List (TupleElement Ty) → List (TupleElement α)
  | [] => []
  | ⟨ty, name, optional, spread⟩ :: es => ⟨fold ty, name, optional, spread⟩ :: foldElements es

/-- Holes of a template with their types folded. -/
def foldSpans : List (TemplateSpan Ty) → List (TemplateSpan α)
  | [] => []
  | ⟨ty, text⟩ :: ss => ⟨fold ty, text⟩ :: foldSpans ss

/-- A mapped type with its types folded. -/
def foldMapped : MappedType Ty → MappedType α
  | ⟨parameter, constraint, ty, nameType, readonly, optional⟩ =>
    ⟨parameter, foldOption constraint, foldOption ty, foldOption nameType, readonly, optional⟩

/-- Type parameters with their types folded. -/
def foldTypeParameters : List (TypeParameter Ty) → List (TypeParameter α)
  | [] => []
  | ⟨name, constraint, default⟩ :: ps =>
    ⟨name, foldOption constraint, foldOption default⟩ :: foldTypeParameters ps

/-- Parameters with their types folded. -/
def foldParameters : List (Parameter Ty) → List (Parameter α)
  | [] => []
  | ⟨name, ty, isRest, isOptional, defaultValue⟩ :: ps =>
    ⟨name, foldOption ty, isRest, isOptional, defaultValue⟩ :: foldParameters ps

/-- A signature with its types folded. -/
def foldSignature : Signature Ty → Signature α
  | ⟨typeParameters, parameters, returnType, doc⟩ =>
    ⟨foldTypeParameters typeParameters, foldParameters parameters, fold returnType, doc⟩

/-- Signatures with their types folded. -/
def foldSignatures : List (Signature Ty) → List (Signature α)
  | [] => []
  | s :: ss => foldSignature s :: foldSignatures ss

/-- Properties with their types folded. -/
def foldProperties : List (Property Ty) → List (Property α)
  | [] => []
  | ⟨name, ty, isOptional, isReadonly, accessor, flags, loc, doc⟩ :: ps =>
    ⟨name, foldOption ty, isOptional, isReadonly, accessor, flags, loc, doc⟩ :: foldProperties ps

/-- Methods with their types folded. -/
def foldMethods : List (Method Ty) → List (Method α)
  | [] => []
  | ⟨name, signatures, isOptional, flags, loc, doc⟩ :: ms =>
    ⟨name, foldSignatures signatures, isOptional, flags, loc, doc⟩ :: foldMethods ms

/-- Index signatures with their types folded. -/
def foldIndexes : List (IndexSignature Ty) → List (IndexSignature α)
  | [] => []
  | ⟨key, ty⟩ :: is => ⟨fold key, fold ty⟩ :: foldIndexes is

/-- Members with their types folded. -/
def foldObject : ObjectLiteral Ty → ObjectLiteral α
  | ⟨properties, methods, indexSignatures, callSignatures, constructSignatures⟩ =>
    ⟨foldProperties properties, foldMethods methods, foldIndexes indexSignatures,
      foldSignatures callSignatures, foldSignatures constructSignatures⟩

end

theorem foldList_eq (ts : List Ty) : foldList alg ts = ts.map (fold alg) := by
  induction ts with
  | nil => rfl
  | cons t ts ih => simp [foldList, ih]

theorem foldOption_eq (t : Option Ty) : foldOption alg t = t.map (fold alg) := by
  cases t <;> rfl

theorem foldElements_eq (es : List (TupleElement Ty)) :
    foldElements alg es = es.map (·.map (fold alg)) := by
  induction es with
  | nil => rfl
  | cons e es ih => simp [foldElements, TupleElement.map, ih]

theorem foldSpans_eq (ss : List (TemplateSpan Ty)) :
    foldSpans alg ss = ss.map (·.map (fold alg)) := by
  induction ss with
  | nil => rfl
  | cons s ss ih => simp [foldSpans, TemplateSpan.map, ih]

theorem foldMapped_eq (m : MappedType Ty) : foldMapped alg m = m.map (fold alg) := by
  cases m
  simp [foldMapped, MappedType.map, foldOption_eq]

theorem foldTypeParameters_eq (ps : List (TypeParameter Ty)) :
    foldTypeParameters alg ps = ps.map (·.map (fold alg)) := by
  induction ps with
  | nil => rfl
  | cons p ps ih => simp [foldTypeParameters, TypeParameter.map, foldOption_eq, ih]

theorem foldParameters_eq (ps : List (Parameter Ty)) :
    foldParameters alg ps = ps.map (·.map (fold alg)) := by
  induction ps with
  | nil => rfl
  | cons p ps ih => simp [foldParameters, Parameter.map, foldOption_eq, ih]

theorem foldSignature_eq (s : Signature Ty) : foldSignature alg s = s.map (fold alg) := by
  cases s
  simp [foldSignature, Signature.map, foldTypeParameters_eq, foldParameters_eq]

theorem foldSignatures_eq (ss : List (Signature Ty)) :
    foldSignatures alg ss = ss.map (·.map (fold alg)) := by
  induction ss with
  | nil => rfl
  | cons s ss ih => simp [foldSignatures, foldSignature_eq, ih]

theorem foldProperties_eq (ps : List (Property Ty)) :
    foldProperties alg ps = ps.map (·.map (fold alg)) := by
  induction ps with
  | nil => rfl
  | cons p ps ih => simp [foldProperties, Property.map, foldOption_eq, ih]

theorem foldMethods_eq (ms : List (Method Ty)) :
    foldMethods alg ms = ms.map (·.map (fold alg)) := by
  induction ms with
  | nil => rfl
  | cons m ms ih => simp [foldMethods, Method.map, foldSignatures_eq, ih]

theorem foldIndexes_eq (is : List (IndexSignature Ty)) :
    foldIndexes alg is = is.map (·.map (fold alg)) := by
  induction is with
  | nil => rfl
  | cons i is ih => simp [foldIndexes, IndexSignature.map, ih]

theorem foldObject_eq (o : ObjectLiteral Ty) : foldObject alg o = o.map (fold alg) := by
  cases o
  simp [foldObject, ObjectLiteral.map, foldProperties_eq, foldMethods_eq, foldIndexes_eq,
    foldSignatures_eq]

theorem foldShape_eq (s : Shape Ty) : foldShape alg s = s.map (fold alg) := by
  cases s <;>
    simp [foldShape, Shape.map, foldList_eq, foldElements_eq, foldObject_eq, foldSignature_eq,
      foldMapped_eq, foldSpans_eq]

/-- A fold is the algebra, applied to the outermost layer with its parts folded. -/
@[simp]
theorem fold_of (s : Shape Ty) : fold alg (of s) = alg (s.map (fold alg)) := by
  rw [fold, foldShape_eq]

end Fold

/-- A property that each layer inherits from its parts holds of every type. -/
theorem induction {P : Ty → Prop} (step : ∀ s : Shape Ty, (∀ t ∈ s.parts, P t) → P (of s))
    (t : Ty) : P t := by
  have none : ∀ t ∈ ([] : List Ty), P t := fun _ h => nomatch h
  have one {a : Ty} (ha : P a) : ∀ t ∈ [a], P t := List.forall_mem_singleton.2 ha
  have more {a : Ty} {as : List Ty} (ha : P a) (has : ∀ t ∈ as, P t) : ∀ t ∈ a :: as, P t :=
    List.forall_mem_cons.2 ⟨ha, has⟩
  have both {as bs : List Ty} (ha : ∀ t ∈ as, P t) (hb : ∀ t ∈ bs, P t) : ∀ t ∈ as ++ bs, P t :=
    List.forall_mem_append.2 ⟨ha, hb⟩
  -- Types, layers, and then the lists and records that layers are made of.
  exact @Ty.rec P (fun s => ∀ t ∈ s.parts, P t) (fun ts => ∀ t ∈ ts, P t)
    (fun es => ∀ t ∈ es.map TupleElement.ty, P t) (fun o => ∀ t ∈ o.parts, P t)
    (fun s => ∀ t ∈ s.parts, P t) (fun m => ∀ t ∈ m.parts, P t)
    (fun ss => ∀ t ∈ ss.map TemplateSpan.ty, P t) (fun e => P e.ty)
    (fun ps => ∀ t ∈ ps.flatMap Property.parts, P t)
    (fun ms => ∀ t ∈ ms.flatMap Method.parts, P t)
    (fun is => ∀ t ∈ is.flatMap IndexSignature.parts, P t)
    (fun ss => ∀ t ∈ ss.flatMap Signature.parts, P t)
    (fun ps => ∀ t ∈ ps.flatMap TypeParameter.parts, P t)
    (fun ps => ∀ t ∈ ps.flatMap Parameter.parts, P t)
    (fun o => ∀ t ∈ o.toList, P t) (fun s => P s.ty) (fun p => ∀ t ∈ p.parts, P t)
    (fun m => ∀ t ∈ m.parts, P t) (fun i => ∀ t ∈ i.parts, P t) (fun p => ∀ t ∈ p.parts, P t)
    (fun p => ∀ t ∈ p.parts, P t)
    step
    (fun _ _ _ h => h) (fun _ _ => none) (fun _ h => h) (fun _ h => h) (fun _ h => h)
    (fun _ h => one h) (fun _ h => h) (fun _ h => h) (fun _ h => h)
    (fun _ _ _ _ h₁ h₂ h₃ h₄ => more h₁ (more h₂ (more h₃ (one h₄))))
    (fun _ _ h₁ h₂ => more h₁ (one h₂)) (fun _ _ h => one h) (fun _ _ h => h) (fun _ => none)
    none (fun _ _ h hs => more h hs)
    none (fun _ _ h hs => more h hs)
    (fun _ _ _ _ _ h₁ h₂ h₃ h₄ h₅ => both (both (both (both h₁ h₂) h₃) h₄) h₅)
    (fun _ _ _ _ h₁ h₂ h₃ => both (both h₁ h₂) (one h₃))
    (fun _ _ _ _ _ _ h₁ h₂ h₃ => both (both h₁ h₂) h₃)
    none (fun _ _ h hs => more h hs)
    (fun _ _ _ _ h => h)
    none (fun _ _ h hs => both h hs)
    none (fun _ _ h hs => both h hs)
    none (fun _ _ h hs => both h hs)
    none (fun _ _ h hs => both h hs)
    none (fun _ _ h hs => both h hs)
    none (fun _ _ h hs => both h hs)
    none (fun _ h => one h)
    (fun _ _ h => h)
    (fun _ _ _ _ _ _ _ _ h => h)
    (fun _ _ _ _ _ _ h => h)
    (fun _ _ h₁ h₂ => more h₁ (one h₂))
    (fun _ _ _ h₁ h₂ => both h₁ h₂)
    (fun _ _ _ _ _ h => h)
    t

/-- A reference with type arguments. -/
def ofReference (target : Reference) (arguments : List Ty) : Ty :=
  of (.reference target arguments false)

/-- A primitive type. -/
def ofPrimitive (kind : PrimitiveKind) : Ty := of (.primitive kind none)

/-- A literal of a primitive type. -/
def literal (kind : PrimitiveKind) (text : String) : Ty := of (.primitive kind (some text))

/-- The type of arrays of a type. -/
def array (element : Ty) : Ty := of (.array element)

/-- A text in place of a type. -/
def verbatim (text : String) : Ty := of (.verbatim text)

/-- The name of the form of a type. -/
def kindName (t : Ty) : String := t.shape.kindName

/-- The reference that a type is, if it is one. -/
def asReference? (t : Ty) : Option Reference :=
  match t.shape with
  | .reference target _ _ => some target
  | _ => none

/-- Whether a type is a given primitive and no literal of it. -/
def isPrimitive (t : Ty) (kind : PrimitiveKind) : Bool :=
  match t.shape with
  | .primitive k none => k == kind
  | _ => false

instance : Inhabited Ty := ⟨ofPrimitive .never⟩

end Ty

end DocModel
