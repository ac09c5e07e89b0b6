import DocModel.Ty.Equality

/-!
# Canonical unions

A union is written without nesting and without repetition, and never with both boolean literals: the
two together are the type `boolean`. Members stand in the order of their first occurrence; a
`boolean` that takes the place of the two literals stands where the first of them stood.

## Main definitions

* `Ty.members`: The members of a union, or the type itself.
* `Ty.distinct`: A list without repetitions.
* `Ty.mergeBooleans`: A list without both boolean literals.
* `Ty.union`: The union of a list of types.

## Theorems

* `Ty.mem_distinct`: Leaving out repetitions leaves out no type.
* `Ty.nodup_distinct`: Each type is left once.
-/

namespace DocModel.Ty

/-- The members of a union; of any other type, the type itself. -/
def members (t : Ty) : List Ty :=
  match t.shape with
  | .union ms => ms
  | _ => [t]

/-- Appends a type to a list unless it is there already. -/
def addNew (seen : List Ty) (t : Ty) : List Ty := if t ∈ seen then seen else seen ++ [t]

/-- The types of a list, each once, in the order of their first occurrence. -/
def distinct (ts : List Ty) : List Ty := ts.foldl addNew []

theorem mem_addNew {t u : Ty} {seen : List Ty} : t ∈ addNew seen u ↔ t ∈ seen ∨ t = u := by
  unfold addNew
  split <;> grind

theorem mem_foldl_addNew {t : Ty} (ts seen : List Ty) :
    t ∈ ts.foldl addNew seen ↔ t ∈ seen ∨ t ∈ ts := by
  induction ts generalizing seen with
  | nil => simp
  | cons u us ih => simp [ih, mem_addNew, or_assoc]

@[simp]
theorem mem_distinct {t : Ty} {ts : List Ty} : t ∈ distinct ts ↔ t ∈ ts := by
  simp [distinct, mem_foldl_addNew]

theorem nodup_addNew {seen : List Ty} (t : Ty) (h : seen.Nodup) : (addNew seen t).Nodup := by
  unfold addNew
  split
  · exact h
  · rw [List.nodup_append]
    exact ⟨h, by simp, by grind⟩

theorem nodup_foldl_addNew (ts : List Ty) {seen : List Ty} (h : seen.Nodup) :
    (ts.foldl addNew seen).Nodup := by
  induction ts generalizing seen with
  | nil => exact h
  | cons t ts ih => exact ih (nodup_addNew t h)

theorem nodup_distinct (ts : List Ty) : (distinct ts).Nodup := nodup_foldl_addNew ts List.nodup_nil

/-- The literal `true`. -/
def boolTrue : Ty := literal .boolean "true"

/-- The literal `false`. -/
def boolFalse : Ty := literal .boolean "false"

/-- The type of both boolean literals. -/
def boolean : Ty := ofPrimitive .boolean

/-- The list with a `boolean` in place of the two boolean literals, if it has both. -/
def mergeBooleans (ts : List Ty) : List Ty :=
  match ts.findIdx? (· == boolTrue), ts.findIdx? (· == boolFalse) with
  | some i, some j =>
    let rest := ts.filter fun t => t != boolTrue && t != boolFalse
    if boolean ∈ rest then rest
    else
      let place := min (min i j) rest.length
      rest.take place ++ boolean :: rest.drop place
  | _, _ => ts

/-- The type with the given members: `never` if there are none, and the member if it is the only
    one. -/
def ofMembers : List Ty → Ty
  | [] => ofPrimitive .never
  | [t] => t
  | ts => of (.union ts)

/-- The union of a list of types. -/
def union (ts : List Ty) : Ty := ofMembers (mergeBooleans (distinct (ts.flatMap members)))

end DocModel.Ty
