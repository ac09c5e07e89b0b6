import DocModel.Ty.Basic

/-!
# Equality of types

Two types are equal when their outermost layers have the same outline and equal parts at the same
places. That comparison is a fold; it decides equality because a layer is determined by its outline
and its parts. The lemmas below say so for each record that layers are made of, in a form that can
be chained: if outlines agree, and the parts agree as the beginning of two longer lists, then the
records are equal and so are the rests of the lists.

## Main definitions

* `Ty.same`: The comparison, as a fold.

## Theorems

* `Ty.Shape.eq_of_outline_of_parts`: Outline and parts determine a layer.
* `Ty.same_iff`: The comparison decides equality.
-/

namespace DocModel

/-- Records of type `φ` are determined by what `outline` and `parts` show of them. -/
def Determined {φ ο τ : Type} (outline : φ → ο) (parts : φ → List τ) : Prop :=
  ∀ (x y : φ) (r r' : List τ), outline x = outline y → parts x ++ r = parts y ++ r' →
    x = y ∧ r = r'

variable {τ : Type}

theorem determined_list {φ ο : Type} {outline : φ → ο} {parts : φ → List τ}
    (h : Determined outline parts) :
    Determined (List.map outline) (List.flatMap parts) := by
  intro xs
  induction xs with
  | nil =>
      intro ys r r' ho hp
      cases ys with
      | nil => exact ⟨rfl, by simpa using hp⟩
      | cons y ys => simp at ho
  | cons x xs ih =>
      intro ys r r' ho hp
      cases ys with
      | nil => simp at ho
      | cons y ys =>
          simp only [List.map_cons, List.cons.injEq] at ho
          simp only [List.flatMap_cons, List.append_assoc] at hp
          rcases h x y _ _ ho.1 hp with ⟨rfl, hrest⟩
          rcases ih ys r r' ho.2 hrest with ⟨rfl, hr⟩
          exact ⟨rfl, hr⟩

theorem determined_option : Determined (Option.map fun _ : τ => ()) Option.toList := by
  intro x y r r' ho hp
  cases x <;> cases y <;> simp_all

theorem determined_element :
    Determined (TupleElement.map fun _ : τ => ()) fun e => [e.ty] := by
  intro x y r r' ho hp
  cases x; cases y
  simp_all [TupleElement.map]

theorem determined_span : Determined (TemplateSpan.map fun _ : τ => ()) fun s => [s.ty] := by
  intro x y r r' ho hp
  cases x; cases y
  simp_all [TemplateSpan.map]

theorem determined_mapped : Determined (MappedType.map fun _ : τ => ()) MappedType.parts := by
  intro x y r r' ho hp
  cases x; cases y
  simp only [MappedType.map, MappedType.mk.injEq] at ho
  simp only [MappedType.parts, List.append_assoc] at hp
  rcases determined_option _ _ _ _ ho.2.1 hp with ⟨rfl, h1⟩
  rcases determined_option _ _ _ _ ho.2.2.1 h1 with ⟨rfl, h2⟩
  rcases determined_option _ _ _ _ ho.2.2.2.1 h2 with ⟨rfl, h3⟩
  simp_all

theorem determined_typeParameter :
    Determined (TypeParameter.map fun _ : τ => ()) TypeParameter.parts := by
  intro x y r r' ho hp
  cases x; cases y
  simp only [TypeParameter.map, TypeParameter.mk.injEq] at ho
  simp only [TypeParameter.parts, List.append_assoc] at hp
  rcases determined_option _ _ _ _ ho.2.1 hp with ⟨rfl, h1⟩
  rcases determined_option _ _ _ _ ho.2.2 h1 with ⟨rfl, h2⟩
  simp_all

theorem determined_parameter : Determined (Parameter.map fun _ : τ => ()) Parameter.parts := by
  intro x y r r' ho hp
  cases x; cases y
  simp only [Parameter.map, Parameter.mk.injEq] at ho
  simp only [Parameter.parts] at hp
  rcases determined_option _ _ _ _ ho.2.1 hp with ⟨rfl, h1⟩
  simp_all

theorem determined_signature : Determined (Signature.map fun _ : τ => ()) Signature.parts := by
  intro x y r r' ho hp
  cases x; cases y
  simp only [Signature.map, Signature.mk.injEq] at ho
  simp only [Signature.parts, List.append_assoc] at hp
  rcases determined_list determined_typeParameter _ _ _ _ ho.1 hp with ⟨rfl, h1⟩
  rcases determined_list determined_parameter _ _ _ _ ho.2.1 h1 with ⟨rfl, h2⟩
  simp_all

theorem determined_property : Determined (Property.map fun _ : τ => ()) Property.parts := by
  intro x y r r' ho hp
  cases x; cases y
  simp only [Property.map, Property.mk.injEq] at ho
  simp only [Property.parts] at hp
  rcases determined_option _ _ _ _ ho.2.1 hp with ⟨rfl, h1⟩
  simp_all

theorem determined_method : Determined (Method.map fun _ : τ => ()) Method.parts := by
  intro x y r r' ho hp
  cases x; cases y
  simp only [Method.map, Method.mk.injEq] at ho
  simp only [Method.parts] at hp
  rcases determined_list determined_signature _ _ _ _ ho.2.1 hp with ⟨rfl, h1⟩
  simp_all

theorem determined_index :
    Determined (IndexSignature.map fun _ : τ => ()) IndexSignature.parts := by
  intro x y r r' ho hp
  cases x; cases y
  simp_all [IndexSignature.map, IndexSignature.parts]

theorem determined_object :
    Determined (ObjectLiteral.map fun _ : τ => ()) ObjectLiteral.parts := by
  intro x y r r' ho hp
  cases x; cases y
  simp only [ObjectLiteral.map, ObjectLiteral.mk.injEq] at ho
  simp only [ObjectLiteral.parts, List.append_assoc] at hp
  rcases determined_list determined_property _ _ _ _ ho.1 hp with ⟨rfl, h1⟩
  rcases determined_list determined_method _ _ _ _ ho.2.1 h1 with ⟨rfl, h2⟩
  rcases determined_list determined_index _ _ _ _ ho.2.2.1 h2 with ⟨rfl, h3⟩
  rcases determined_list determined_signature _ _ _ _ ho.2.2.2.1 h3 with ⟨rfl, h4⟩
  rcases determined_list determined_signature _ _ _ _ ho.2.2.2.2 h4 with ⟨rfl, h5⟩
  exact ⟨rfl, h5⟩

namespace Ty

namespace Shape

theorem eq_of_parts_append {s t : Shape τ} (ho : s.outline = t.outline)
    (hp : s.parts ++ [] = t.parts ++ []) : s = t := by
  cases s <;> cases t <;> simp only [outline, map, reduceCtorEq] at ho
  case reference => simp_all [parts]
  case primitive => simp_all
  case union => simp_all [parts]
  case intersection => simp_all [parts]
  case tuple xs ys =>
    simp only [parts, List.map_eq_flatMap] at hp
    simp only [tuple.injEq] at ho
    rw [(determined_list determined_element xs ys [] [] ho hp).1]
  case array => simp_all [parts]
  case object x y => rw [(determined_object x y [] [] (by simpa using ho) hp).1]
  case function x y => rw [(determined_signature x y [] [] (by simpa using ho) hp).1]
  case mapped x y => rw [(determined_mapped x y [] [] (by simpa using ho) hp).1]
  case conditional => simp_all [parts]
  case indexAccess => simp_all [parts]
  case operator => simp_all [parts]
  case template h xs h' ys =>
    simp only [parts, List.map_eq_flatMap] at hp
    simp only [template.injEq] at ho
    rw [ho.1, (determined_list determined_span xs ys [] [] ho.2 hp).1]
  case verbatim => simp_all

/-- A layer is determined by its outline and its parts. -/
theorem eq_of_outline_of_parts {s t : Shape τ} (ho : s.outline = t.outline)
    (hp : s.parts = t.parts) : s = t :=
  eq_of_parts_append ho (by rw [hp])

/-- Mapping over the parts keeps the outline. -/
@[simp]
theorem outline_map {υ : Type} (f : τ → υ) (s : Shape τ) : (s.map f).outline = s.outline := by
  cases s <;>
    simp [outline, map, TupleElement.map, TemplateSpan.map, MappedType.map, TypeParameter.map,
      Parameter.map, Signature.map, Property.map, Method.map, IndexSignature.map,
      ObjectLiteral.map, Function.comp_def]

/-- The parts of a mapped layer are the mapped parts. -/
@[simp]
theorem parts_map {υ : Type} (f : τ → υ) (s : Shape τ) : (s.map f).parts = s.parts.map f := by
  have opt (o : Option τ) : (o.map f).toList = o.toList.map f := by cases o <;> rfl
  cases s <;>
    simp [parts, map, TupleElement.map, TemplateSpan.map, MappedType.map, TypeParameter.map,
      Parameter.map, Signature.map, Property.map, Method.map, IndexSignature.map,
      ObjectLiteral.map, MappedType.parts, TypeParameter.parts, Parameter.parts, Signature.parts,
      Property.parts, Method.parts, IndexSignature.parts, ObjectLiteral.parts, opt,
      Function.comp_def, List.flatMap_map, List.map_flatMap]

end Shape

/-- Whether tests and types are as many and each test holds of the type at its place. -/
def agree : List (Ty → Bool) → List Ty → Bool
  | [], [] => true
  | f :: fs, t :: ts => f t && agree fs ts
  | _, _ => false

/-- Whether two types are equal. -/
def same : Ty → Ty → Bool :=
  fold fun s t => s.outline == t.shape.outline && agree s.parts t.shape.parts

theorem agree_map_iff {f : Ty → Ty → Bool} {ts us : List Ty}
    (h : ∀ t ∈ ts, ∀ u, f t u = true ↔ t = u) : agree (ts.map f) us = true ↔ ts = us := by
  induction ts generalizing us with
  | nil => cases us <;> simp [agree]
  | cons t ts ih =>
      cases us with
      | nil => simp [agree]
      | cons u us =>
          have ht := h t List.mem_cons_self u
          have hts := @ih us fun x hx => h x (List.mem_cons_of_mem _ hx)
          simp [agree, ht, hts]

/-- Types are compared by the outlines and the parts of their outermost layers. -/
theorem same_of (s t : Shape Ty) :
    same (of s) (of t) = (s.outline == t.outline && agree (s.parts.map same) t.parts) := by
  simp [same, shape]

/-- The comparison decides equality. -/
theorem same_iff (t u : Ty) : same t u = true ↔ t = u := by
  induction t using Ty.induction generalizing u with
  | step s ih =>
      cases u with
      | of s' =>
          rw [same_of, Bool.and_eq_true, beq_iff_eq, agree_map_iff ih]
          constructor
          · rintro ⟨ho, hp⟩
            rw [Shape.eq_of_outline_of_parts ho hp]
          · intro h
            cases h
            exact ⟨rfl, rfl⟩

instance : DecidableEq Ty := fun t u => decidable_of_iff _ (same_iff t u)

end Ty

end DocModel
