import DocModel.Documentation
import DocModel.Ty.References
import DocModel.Ty.Union

/-!
# References that occur in documentation

Every reference that stands anywhere in a type, a declaration, the exports of a file or a whole
documentation. `Ty.references` is no help here: it is what a reader of a type is shown, and leaves
out the type parameters of signatures and the keys of index signatures. Here nothing is left out.

A reference may carry the reference around it, which then occurs as well. `Reference.chain` lists a
reference with all those around it.

## Main definitions

* `Reference.chain`: A reference and the references around it.
* `Ty.mentions`: The references in a type.
* `Declaration.mentions`, `FileExports.mentions`, `Module.mentions`: The references in a
  declaration, in the exports of a file and in a module.
* `Documentation.mentions`: The references in a documentation.

## Theorems

* `Ty.mentions_of`: A type mentions what its layer is and what its parts mention.
* `Ty.mentions_union`: A union mentions nothing that its members do not mention.
-/

namespace DocModel

/-- A reference, the reference around it, and so on outwards. -/
def Reference.chain : Reference → List Reference
  | ⟨id, name, kind, path, none, link⟩ => [⟨id, name, kind, path, none, link⟩]
  | ⟨id, name, kind, path, some parent, link⟩ =>
    ⟨id, name, kind, path, some parent, link⟩ :: parent.chain

theorem Reference.chain_none (r : Reference) (h : r.parent = none) : r.chain = [r] := by
  rcases r with ⟨id, name, kind, path, parent, link⟩
  simp only at h
  subst h
  rw [chain]

theorem Reference.chain_some (r parent : Reference) (h : r.parent = some parent) :
    r.chain = r :: parent.chain := by
  rcases r with ⟨id, name, kind, path, parent', link⟩
  simp only at h
  subst h
  rw [chain]

/-- The chain starts with the reference itself. -/
theorem Reference.mem_chain (r : Reference) : r ∈ r.chain := by
  cases h : r.parent with
  | none =>
      rw [r.chain_none h]
      exact List.mem_singleton_self r
  | some parent =>
      rw [r.chain_some parent h]
      exact List.mem_cons_self

namespace Ty

/-- Every reference in a type. -/
def mentions (t : Ty) : List Reference := t.fold fun s => s.own ++ s.parts.flatten

/-- Every reference in some types. -/
def mentionsIn (ts : List Ty) : List Reference := ts.flatMap mentions

/-- The references of a layer are not parts of it. -/
theorem own_map {τ υ : Type} (f : τ → υ) (s : Shape τ) : (s.map f).own = s.own := by
  cases s <;> rfl

/-- A type mentions what its layer is and what its parts mention. -/
@[simp]
theorem mentions_of (s : Shape Ty) : (of s).mentions = s.own ++ mentionsIn s.parts := by
  rw [mentions, fold_of, own_map, Shape.parts_map, ← List.flatMap_def]
  rfl

@[simp]
theorem mentionsIn_nil : mentionsIn [] = [] := rfl

@[simp]
theorem mentionsIn_cons (t : Ty) (ts : List Ty) :
    mentionsIn (t :: ts) = t.mentions ++ mentionsIn ts := rfl

@[simp]
theorem mentionsIn_append (ts us : List Ty) :
    mentionsIn (ts ++ us) = mentionsIn ts ++ mentionsIn us := List.flatMap_append

theorem mentionsIn_flatMap {α : Type} (f : α → List Ty) (as : List α) :
    mentionsIn (as.flatMap f) = as.flatMap fun a => mentionsIn (f a) := List.flatMap_assoc

/-- What is mentioned in types is mentioned in one of them. -/
theorem mem_mentionsIn {r : Reference} {ts : List Ty} :
    r ∈ mentionsIn ts ↔ ∃ t ∈ ts, r ∈ t.mentions := List.mem_flatMap

/-- What a member mentions, the type mentions. -/
theorem mentions_members (t u : Ty) (hu : u ∈ t.members) (r : Reference) (hr : r ∈ u.mentions) :
    r ∈ t.mentions := by
  rcases t with ⟨s⟩
  -- A union has its members as parts, and any other type is its only member.
  cases s with
  | union ms =>
      rw [mentions_of]
      exact List.mem_append_right _ (mem_mentionsIn.2 ⟨u, hu, hr⟩)
  | _ =>
      rw [show u = _ from List.mem_singleton.1 hu] at hr
      exact hr

theorem mentions_boolean : boolean.mentions = [] := by
  simp only [boolean, ofPrimitive, mentions_of, Shape.own, Shape.parts, mentionsIn_nil,
    List.append_nil]

/-- Merging the boolean literals adds at most their common type. -/
theorem mem_mergeBooleans {t : Ty} {ts : List Ty} (h : t ∈ mergeBooleans ts) :
    t ∈ ts ∨ t = boolean := by
  unfold mergeBooleans at h
  split at h
  · simp only at h
    split at h
    · exact Or.inl (List.mem_filter.1 h).1
    · -- The common type takes the place of the first of the two.
      rcases List.mem_append.1 h with h | h
      · exact Or.inl (List.mem_filter.1 (List.mem_of_mem_take h)).1
      · rcases List.mem_cons.1 h with h | h
        · exact Or.inr h
        · exact Or.inl (List.mem_filter.1 (List.mem_of_mem_drop h)).1
  · exact Or.inl h

/-- A type that is made of members mentions what they mention. -/
theorem mentions_ofMembers (ts : List Ty) (r : Reference) (hr : r ∈ (ofMembers ts).mentions) :
    r ∈ mentionsIn ts := by
  match ts with
  | [] =>
      simp only [ofMembers, ofPrimitive, mentions_of, Shape.own, Shape.parts, mentionsIn_nil,
        List.append_nil] at hr
      exact hr
  | [t] => simpa only [ofMembers, mentionsIn_cons, mentionsIn_nil, List.append_nil] using hr
  | t :: u :: ts => simpa only [ofMembers, mentions_of, Shape.own, Shape.parts,
      List.nil_append] using hr

/-- A union mentions nothing that its members do not mention. -/
theorem mentions_union (ts : List Ty) (r : Reference) (hr : r ∈ (union ts).mentions) :
    r ∈ mentionsIn ts := by
  rcases mem_mentionsIn.1 (mentions_ofMembers _ r hr) with ⟨t, ht, hr⟩
  -- A member of the union is a member of one of the types, or the common type, which mentions
  -- nothing.
  rcases mem_mergeBooleans ht with ht | rfl
  · rcases List.mem_flatMap.1 (mem_distinct.1 ht) with ⟨u, hu, htu⟩
    exact mem_mentionsIn.2 ⟨u, hu, mentions_members u t htu r hr⟩
  · rw [mentions_boolean] at hr
    exact absurd hr List.not_mem_nil

end Ty

/-- Every reference in a declaration. -/
def Declaration.mentions : Declaration → List Reference
  | .classType d => Ty.mentionsIn (d.typeParameters.flatMap (·.parts) ++ d.bases ++ d.interfaces ++
      d.members.parts)
  | .interface d => Ty.mentionsIn (d.typeParameters.flatMap (·.parts) ++ d.bases ++ d.members.parts)
  | .enum d => Ty.mentionsIn (d.members.flatMap (·.initializer.toList))
  | .function d => Ty.mentionsIn (d.signatures.flatMap (·.parts))
  | .constant d => Ty.mentionsIn d.ty.toList
  | .typeAlias d => Ty.mentionsIn (d.typeParameters.flatMap (·.parts) ++ [d.value])

/-- Every reference in the exports of a file. -/
def FileExports.mentions (e : FileExports) : List Reference :=
  e.exports.map (·.reference) ++ e.reexports.flatMap fun g => g.references.map (·.reference)

/-- Every reference in a module: in its declarations and in the exports of its files. -/
def Module.mentions (m : Module) : List Reference :=
  m.declarations.flatMap (·.mentions) ++ m.exports.entries.flatMap (·.2.mentions)

/-- Every reference in a documentation, with the references around each. -/
def Documentation.mentions (d : Documentation) : List Reference :=
  d.projects.flatMap fun p => p.modules.modules.toList.flatMap fun m =>
    m.mentions.flatMap (·.chain)

end DocModel
