import DocModel.Ty.Basic

/-!
# References in types

The references that a type mentions, in the order in which the type is gone through and as often as
they are mentioned. Type parameters of signatures and the keys of index signatures are not looked
into.

## Main definitions

* `Ty.Shape.viewed`: The parts of a layer that are looked into.
* `Ty.references`: The references of a type.
-/

namespace DocModel

variable {τ : Type}

/-- The types of the parameters, then the type of the result. -/
def Signature.viewed (s : Signature τ) : List τ := s.parameters.flatMap (·.parts) ++ [s.returnType]

/-- The types of the members, without type parameters and index keys. -/
def ObjectLiteral.viewed (o : ObjectLiteral τ) : List τ :=
  o.properties.flatMap (·.parts) ++ o.methods.flatMap (·.signatures.flatMap (·.viewed)) ++
    o.indexSignatures.map (·.ty) ++ o.callSignatures.flatMap (·.viewed) ++
    o.constructSignatures.flatMap (·.viewed)

namespace Ty

/-- The parts of a layer that are looked into, in the order of `Ty.Shape.parts`. -/
def Shape.viewed : Shape τ → List τ
  | object body => body.viewed
  | function signature => signature.viewed
  | s => s.parts

/-- The reference that a layer is itself. -/
def Shape.own : Shape τ → List Reference
  | reference target _ _ => [target]
  | _ => []

/-- The references of a layer, given those of its parts. -/
def Shape.references (s : Shape (List Reference)) : List Reference := s.own ++ s.viewed.flatten

/-- The references that a type mentions. -/
def references (t : Ty) : List Reference := t.fold Shape.references

end Ty

end DocModel
