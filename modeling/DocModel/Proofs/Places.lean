import DocModel.Proofs.Mentions

/-!
# Where references stand in a type

A place in a type says which part to go to, layer by layer. Places are compared like words in a
dictionary: a layer comes before its parts, and what is in an earlier part comes before what is in a
later one. That is the order in which a type is gone through.

`Ty.references` lists references in this order and each as often as it stands somewhere, but not all
of them. It passes over what stands in the constraints and defaults of the type parameters of
signatures, and in the keys of index signatures. So it is the list of all references only if there
is none in such places.

## Main definitions

* `Ty.partAt?`, `Ty.referenceAt?`: The type and the reference at a place.
* `Ty.referencePlaces`: The places of all references.
* `Ty.Shape.marked`: The parts of a layer, marked as shown or passed over.
* `Ty.isShown`: Whether a place is reached without passing over anything.

## Theorems

* `Ty.mem_referencePlaces`, `Ty.pairwise_referencePlaces`: All places, and in their order.
* `Ty.references_eq`: The references at the places that are shown.
* `Ty.references_read_shown`: What `Ty.references` lists, and when it lists everything.
-/

namespace DocModel

variable {τ : Type}

/-- Parts that are all shown, or all passed over. -/
def mark (shown : Bool) (parts : List τ) : List (τ × Bool) := parts.map (·, shown)

/-- Marks take nothing away. -/
@[simp]
theorem map_fst_mark (shown : Bool) (parts : List τ) : (mark shown parts).map (·.1) = parts := by
  induction parts with
  | nil => rfl
  | cons part parts ih => exact congrArg (part :: ·) ih

/-- Either all are shown or none. -/
@[simp]
theorem filter_mark (shown : Bool) (parts : List τ) :
    (mark shown parts).filter (·.2) = if shown then mark shown parts else [] := by
  induction parts with
  | nil => cases shown <;> rfl
  | cons part parts ih =>
      unfold mark at ih ⊢
      cases shown
      · exact ih
      · exact congrArg ((part, true) :: ·) ih

/-- The types of a signature. Those in type parameters are passed over. -/
def Signature.marked (s : Signature τ) : List (τ × Bool) :=
  s.typeParameters.flatMap (mark false ·.parts) ++ s.parameters.flatMap (mark true ·.parts) ++
    [(s.returnType, true)]

/-- The types of an index signature. The key is passed over. -/
def IndexSignature.marked (i : IndexSignature τ) : List (τ × Bool) := [(i.key, false), (i.ty, true)]

/-- The types of the members. -/
def ObjectLiteral.marked (o : ObjectLiteral τ) : List (τ × Bool) :=
  o.properties.flatMap (mark true ·.parts) ++ o.methods.flatMap (·.signatures.flatMap (·.marked)) ++
    o.indexSignatures.flatMap (·.marked) ++ o.callSignatures.flatMap (·.marked) ++
    o.constructSignatures.flatMap (·.marked)

@[simp]
theorem Signature.map_fst_marked (s : Signature τ) : s.marked.map (·.1) = s.parts := by
  simp [marked, parts, List.map_flatMap]

@[simp]
theorem Signature.filter_marked (s : Signature τ) :
    (s.marked.filter (·.2)).map (·.1) = s.viewed := by
  simp [marked, viewed, List.filter_flatMap, List.map_flatMap]

section

variable {υ : Type} (f : τ → υ)

theorem Parameter.parts_map (p : Parameter τ) : (p.map f).parts = p.parts.map f := by
  rcases p with ⟨name, ty, isRest, isOptional, defaultValue⟩
  cases ty <;> rfl

theorem Property.parts_map (p : Property τ) : (p.map f).parts = p.parts.map f := by
  rcases p with ⟨name, ty, isOptional, isReadonly, accessor, flags, loc, doc⟩
  cases ty <;> rfl

/-- What is shown of a signature does not depend on the types. -/
theorem Signature.viewed_map (s : Signature τ) : (s.map f).viewed = s.viewed.map f := by
  simp only [viewed, map, List.flatMap_map, Parameter.parts_map, List.map_append,
    List.map_flatMap, List.map_cons, List.map_nil]

end

namespace Ty

/-- The parts of a layer, each with a mark that says whether it is shown. -/
def Shape.marked : Shape τ → List (τ × Bool)
  | object body => body.marked
  | function signature => signature.marked
  | s => mark true s.parts

/-- The marked parts of a layer are its parts. -/
theorem Shape.map_fst_marked (s : Shape τ) : s.marked.map (·.1) = s.parts := by
  cases s with
  | object body =>
      simp [marked, parts, ObjectLiteral.marked, ObjectLiteral.parts, Method.parts,
        IndexSignature.marked, IndexSignature.parts, List.map_flatMap]
  | function signature => exact signature.map_fst_marked
  | _ => exact map_fst_mark true _

/-- Those that are shown are its view. -/
theorem Shape.filter_marked (s : Shape τ) : (s.marked.filter (·.2)).map (·.1) = s.viewed := by
  cases s with
  | object body =>
      simp [marked, viewed, ObjectLiteral.marked, ObjectLiteral.viewed, IndexSignature.marked,
        List.filter_flatMap, List.map_flatMap, ← List.map_eq_flatMap]
  | function signature => exact signature.filter_marked
  | _ => simp [marked, viewed]

/-- The type at a place inside of a type. The place says which part to go to, layer by layer. -/
def partAt? : Ty → List Nat → Option Ty
  | t, [] => some t
  | t, i :: place => t.shape.parts[i]?.bind fun part => part.partAt? place

/-- The reference that stands at a place. -/
def referenceAt? (t : Ty) (place : List Nat) : Option Reference :=
  (t.partAt? place).bind fun part => part.shape.own.head?

/-- Whether the way to a place leads through parts that are shown. -/
def isShown : Ty → List Nat → Bool
  | _, [] => true
  | t, i :: place => t.shape.marked[i]?.any fun part => part.2 && part.1.isShown place

/-- Places in the parts of a layer, with the number of the part in front. -/
def placesWithin (parts : List (List (List Nat))) : List (List Nat) :=
  (parts.mapIdx fun i places => places.map (i :: ·)).flatten

/-- The places of the references in a type. -/
def referencePlaces : Ty → List (List Nat) :=
  fold fun s => s.own.map (fun _ => []) ++ placesWithin s.parts

/-- A reference stands in a layer, or at a place in one of its parts. -/
theorem referencePlaces_of (s : Shape Ty) : (of s).referencePlaces =
    s.own.map (fun _ => []) ++ placesWithin (s.parts.map referencePlaces) := by
  rw [referencePlaces, fold_of, Shape.parts_map, own_map]

/-- What is shown of a layer does not depend on the parts. -/
theorem Shape.viewed_map {υ : Type} (f : τ → υ) (s : Shape τ) :
    (s.map f).viewed = s.viewed.map f := by
  have hparts := s.parts_map f
  -- Only members and signatures have parts that are passed over.
  cases s with
  | object body =>
      simp only [viewed, map, ObjectLiteral.map, ObjectLiteral.viewed, Method.map,
        IndexSignature.map, List.flatMap_map, List.map_append, List.map_flatMap, List.map_map,
        Property.parts_map, Signature.viewed_map, Function.comp_def]
  | function signature => exact signature.viewed_map f
  | _ => exact hparts

/-- A type lists its own reference, and what its shown parts list. -/
theorem references_of (s : Shape Ty) :
    (of s).references = s.own ++ s.viewed.flatMap references := by
  rw [references, fold_of, Shape.references, own_map, Shape.viewed_map, ← List.flatMap_def]
  rfl

theorem referenceAt?_cons (t : Ty) (i : Nat) (place : List Nat) :
    t.referenceAt? (i :: place) = t.shape.parts[i]?.bind fun part => part.referenceAt? place := by
  rw [referenceAt?, partAt?, Option.bind_assoc]
  rfl

/-- A place in the parts starts with the number of a part. -/
theorem exists_of_mem_placesWithin {parts : List (List (List Nat))} {place : List Nat}
    (h : place ∈ placesWithin parts) :
    ∃ i rest places, place = i :: rest ∧ parts[i]? = some places ∧ rest ∈ places := by
  rcases List.mem_flatten.1 h with ⟨_, hplaces, hplace⟩
  rcases List.mem_mapIdx.1 hplaces with ⟨i, hi, rfl⟩
  rcases List.mem_map.1 hplace with ⟨rest, hrest, rfl⟩
  exact ⟨i, rest, parts[i], rfl, List.getElem?_eq_getElem hi, hrest⟩

theorem cons_mem_placesWithin {parts : List (List (List Nat))} {i : Nat} {rest : List Nat} :
    i :: rest ∈ placesWithin parts ↔ ∃ places, parts[i]? = some places ∧ rest ∈ places := by
  constructor
  · intro h
    rcases exists_of_mem_placesWithin h with ⟨j, rest', places, heq, hplaces, hrest⟩
    rcases List.cons.inj heq with ⟨rfl, rfl⟩
    exact ⟨places, hplaces, hrest⟩
  · rintro ⟨places, hi, hrest⟩
    rcases List.getElem?_eq_some_iff.1 hi with ⟨hlt, rfl⟩
    exact List.mem_flatten.2 ⟨_, List.mem_mapIdx.2 ⟨i, hlt, rfl⟩, List.mem_map_of_mem hrest⟩

/-- Places in the parts are in order if they are in each part. -/
theorem pairwise_placesWithin {parts : List (List (List Nat))}
    (h : ∀ places ∈ parts, places.Pairwise (· < ·)) :
    (placesWithin parts).Pairwise (· < ·) := by
  rw [placesWithin, List.pairwise_flatten]
  constructor
  · intro places hplaces
    rcases List.mem_mapIdx.1 hplaces with ⟨i, hi, rfl⟩
    refine List.Pairwise.map _ (fun p q hpq => ?_) (h _ (List.getElem_mem hi))
    exact List.cons_lt_cons_self.2 hpq
  · -- Places in different parts differ in their first number.
    rw [List.pairwise_iff_getElem]
    intro i j hi hj hij p hp q hq
    rw [List.getElem_mapIdx] at hp hq
    rcases List.mem_map.1 hp with ⟨p, _, rfl⟩
    rcases List.mem_map.1 hq with ⟨q, _, rfl⟩
    exact List.Lex.rel hij

/-- Every place of a reference is listed, and nothing else. -/
theorem mem_referencePlaces (t : Ty) (place : List Nat) :
    place ∈ t.referencePlaces ↔ (t.referenceAt? place).isSome = true := by
  induction t using Ty.induction generalizing place with
  | step s ih =>
      rw [referencePlaces_of, List.mem_append]
      -- The place is the layer itself, or leads into a part.
      cases place with
      | nil =>
          have hparts : [] ∉ placesWithin (s.parts.map referencePlaces) := by
            intro h
            rcases exists_of_mem_placesWithin h with ⟨i, rest, _, heq, _⟩
            cases heq
          rw [or_iff_left hparts]
          cases s <;> simp [Shape.own, referenceAt?, partAt?, shape]
      | cons i rest =>
          have hown : i :: rest ∉ s.own.map fun _ => [] := by simp
          rw [or_iff_right hown, cons_mem_placesWithin, referenceAt?_cons, List.getElem?_map]
          cases hpart : s.parts[i]? with
          | none => simp [shape, hpart]
          | some part =>
              simp [shape, hpart, ih part (List.mem_of_getElem? hpart) rest]

/-- Places are listed in their order. -/
theorem pairwise_referencePlaces (t : Ty) : t.referencePlaces.Pairwise (· < ·) := by
  induction t using Ty.induction with
  | step s ih =>
      rw [referencePlaces_of, List.pairwise_append]
      refine ⟨?_, pairwise_placesWithin fun places hplaces => ?_, fun p hp q hq => ?_⟩
      · cases s <;> simp [Shape.own]
      · rcases List.mem_map.1 hplaces with ⟨part, hpart, rfl⟩
        exact ih part hpart
      · -- The layer comes before all of its parts.
        rcases List.mem_map.1 hp with ⟨_, _, rfl⟩
        rcases exists_of_mem_placesWithin hq with ⟨i, rest, _, rfl, _⟩
        exact List.nil_lt_cons i rest

/-- What stands in a part is shown if the part is shown, and if it is shown there. -/
theorem filterMap_referenceAt?_part {s : Shape Ty} {i : Nat} {part : Ty} {shown : Bool}
    (hi : s.marked[i]? = some (part, shown))
    (hpart : part.references = (part.referencePlaces.filter part.isShown).filterMap
      part.referenceAt?) :
    ((part.referencePlaces.map (i :: ·)).filter (of s).isShown).filterMap (of s).referenceAt? =
      if shown then part.references else [] := by
  have hparts : s.parts[i]? = some part := by
    rw [← s.map_fst_marked, List.getElem?_map, hi]
    rfl
  have hshown : ∀ place, (of s).isShown (i :: place) = (shown && part.isShown place) := by
    intro place
    rw [isShown, shape, hi]
    rfl
  have hreference : ∀ place, (of s).referenceAt? (i :: place) = part.referenceAt? place := by
    intro place
    rw [referenceAt?_cons, shape, hparts]
    rfl
  rw [List.filter_map, List.filterMap_map]
  cases shown with
  | false => simp [Function.comp_def, hshown]
  | true => simp [Function.comp_def, hshown, hreference, hpart]

theorem flatMap_filter_marked (parts : List (Ty × Bool)) :
    ((parts.filter (·.2)).map (·.1)).flatMap references =
      (parts.map fun part => if part.2 then part.1.references else []).flatten := by
  induction parts with
  | nil => rfl
  | cons part parts ih =>
      rcases part with ⟨t, shown⟩
      cases shown with
      | false => simpa using ih
      | true => simpa using ih

/-- The references at the places that are shown are listed, in the order of the places. -/
theorem references_eq (t : Ty) :
    t.references = (t.referencePlaces.filter t.isShown).filterMap t.referenceAt? := by
  induction t using Ty.induction with
  | step s ih =>
      rw [references_of, referencePlaces_of, List.filter_append, List.filterMap_append]
      congr 1
      · cases s <;> rfl
      · rw [placesWithin, List.filter_flatten, List.filterMap_flatten, ← s.filter_marked]
        -- Part by part, what is listed is what the part lists, or nothing.
        have hlist : (((s.parts.map referencePlaces).mapIdx fun i places =>
            places.map (i :: ·)).map (List.filter (of s).isShown)).map
              (List.filterMap (of s).referenceAt?) =
            s.marked.map fun part => if part.2 then part.1.references else [] := by
          refine List.ext_getElem? fun i => ?_
          simp only [List.getElem?_map, List.getElem?_mapIdx, ← s.map_fst_marked]
          cases hi : s.marked[i]? with
          | none => rfl
          | some part =>
              have hmem : part.1 ∈ s.parts := by
                rw [← s.map_fst_marked]
                exact List.mem_map_of_mem (List.mem_of_getElem? hi)
              exact congrArg some (filterMap_referenceAt?_part hi (ih part.1 hmem))
        rw [hlist]
        exact flatMap_filter_marked s.marked

/-- The references of a type are those at the places that are shown, in their order and each as
    often as it stands somewhere. All references are among them exactly if none of them stands at a
    place that is passed over: in a type parameter of a signature, or in the key of an index
    signature. -/
theorem references_read_shown (t : Ty) :
    t.referencePlaces.Pairwise (· < ·) ∧
    (∀ place, place ∈ t.referencePlaces ↔ (t.referenceAt? place).isSome = true) ∧
    t.references = (t.referencePlaces.filter t.isShown).filterMap t.referenceAt? ∧
    (t.references = t.referencePlaces.filterMap t.referenceAt? ↔
      ∀ place, (t.referenceAt? place).isSome = true → t.isShown place = true) := by
  refine ⟨t.pairwise_referencePlaces, t.mem_referencePlaces, t.references_eq, ?_⟩
  -- Something stands at every place that is listed.
  have hlength : ∀ places : List (List Nat), (∀ place ∈ places, place ∈ t.referencePlaces) →
      (places.filterMap t.referenceAt?).length = places.length := by
    intro places hplaces
    rw [List.filterMap_length_eq_length]
    exact fun place hplace => (t.mem_referencePlaces place).1 (hplaces place hplace)
  rw [t.references_eq]
  constructor
  · intro heq place hplace
    -- If nothing is missing, no place has been left out.
    have hcount := congrArg List.length heq
    rw [hlength _ fun _ h => (List.mem_filter.1 h).1, hlength _ fun _ h => h] at hcount
    exact List.length_filter_eq_length_iff.1 hcount place ((t.mem_referencePlaces place).2 hplace)
  · intro hall
    rw [List.filter_eq_self.2 fun place hplace =>
      hall place ((t.mem_referencePlaces place).1 hplace)]

/-- The class `Foo` of the module `p`. -/
def foo : Reference where
  id := ⟨7⟩
  name := "Foo"
  kind := .classType
  path := some ["p"]
  parent := none
  link := none

/-- Functions with a type parameter that is bounded by a class: `<T extends Foo>() => void`. -/
def bounded : Ty :=
  of (.function { typeParameters := [⟨"T", some (ofReference foo []), none⟩], parameters := []
                  returnType := ofPrimitive .void, doc := none })

/-- Objects with keys of a class: `{ [key: Foo]: string }`. -/
def keyed : Ty :=
  of (.object { indexSignatures := [⟨ofReference foo [], ofPrimitive .string⟩] })

/-- A reference that stands only in a bound or in a key is not listed. -/
theorem bound_and_key_unlisted :
    (bounded.referenceAt? [0] = some foo ∧ bounded.references = []) ∧
      keyed.referenceAt? [0] = some foo ∧ keyed.references = [] := by
  decide

end Ty

end DocModel
