import DocModel.Id

/-!
# References

A reference stands in for a declaration wherever it is used as a type. Within one pass each symbol
has one reference, told from all others by its number. A reference to something declared in the
analysed sources says in which module it lives; one to something declared elsewhere may carry a link
instead.

## Main definitions

* `ReferenceKind`: What a reference points at.
* `Reference`: The handle itself.
* `Reference.text`: Its name, behind the name of the reference that encloses it.
-/

namespace DocModel

/-- What a reference points at. -/
inductive ReferenceKind where
  | classType
  | interface
  | enum
  | enumMember
  | function
  | constant
  | typeAlias
  | typeParameter
  | module
  /-- One of the string types that the language computes itself, such as `Uppercase`. -/
  | stringUtility
  | unknown
deriving DecidableEq, Inhabited

namespace ReferenceKind

/-- Every kind. -/
def all : List ReferenceKind :=
  [classType, interface, enum, enumMember, function, constant, typeAlias, typeParameter, module,
   stringUtility, unknown]

/-- The name of a kind. -/
def text : ReferenceKind → String
  | classType => "class"
  | interface => "interface"
  | enum => "enum"
  | enumMember => "enum-member"
  | function => "function"
  | constant => "constant"
  | typeAlias => "type-alias"
  | typeParameter => "type-parameter"
  | module => "module"
  | stringUtility => "string-utility"
  | unknown => "unknown"

/-- The kind of a name. -/
def ofText? (name : String) : Option ReferenceKind := all.find? (·.text == name)

/-- Whether references of this kind point at a declaration with a record of its own. -/
def isDeclaration : ReferenceKind → Bool
  | classType | interface | enum | function | constant | typeAlias => true
  | _ => false

theorem ofText?_text (k : ReferenceKind) : ofText? k.text = some k := by
  cases k <;> rfl

end ReferenceKind

/-- The handle of one program symbol. -/
structure Reference where
  /-- Its number within the pass. -/
  id : ReferenceId
  /-- The name of the symbol. -/
  name : String
  /-- What it points at. -/
  kind : ReferenceKind
  /-- The children path of the module that owns the declaration. -/
  path : Option (List String)
  /-- The enclosing reference: the enum of an enum member. -/
  parent : Option Reference
  /-- A link to documentation kept elsewhere. -/
  link : Option String
deriving Inhabited

namespace Reference

/-- A reference with a number, a name and a kind and nothing else. -/
def make (id : ReferenceId) (name : String) (kind : ReferenceKind) : Reference :=
  { id, name, kind, path := none, parent := none, link := none }

/-- Decides equality, following the chain of parents. -/
def decEq : (a b : Reference) → Decidable (a = b)
  | ⟨i, n, k, p, none, l⟩, ⟨i', n', k', p', none, l'⟩ =>
    if h : (i, n, k, p, l) = (i', n', k', p', l') then
      isTrue (by simp only [Prod.mk.injEq] at h; simp [h])
    else isFalse (by simpa using h)
  | ⟨i, n, k, p, some a, l⟩, ⟨i', n', k', p', some b, l'⟩ =>
    match decEq a b with
    | isTrue hab =>
      if h : (i, n, k, p, l) = (i', n', k', p', l') then
        isTrue (by simp only [Prod.mk.injEq] at h; simp [h, hab])
      else isFalse (by simpa [hab] using h)
    | isFalse hab => isFalse (by simp [hab])
  | ⟨_, _, _, _, none, _⟩, ⟨_, _, _, _, some _, _⟩ => isFalse (by simp)
  | ⟨_, _, _, _, some _, _⟩, ⟨_, _, _, _, none, _⟩ => isFalse (by simp)

instance : DecidableEq Reference := decEq

/-- A reference with a link leads out of the documentation. -/
def isExternal (r : Reference) : Bool := r.link.isSome

/-- Whether two references stand for the same symbol. -/
def sameSymbol (r s : Reference) : Bool := r.id == s.id

/-- The name, behind the name of the enclosing reference. -/
def text (r : Reference) : String :=
  match r.parent with
  | some p => p.name ++ "." ++ r.name
  | none => r.name

end Reference

end DocModel
