import DocModel.Id
import DocModel.Reference.Basic
import DocModel.Table

/-!
# Registry of symbols

One reference for each symbol that was met. A reference is entered as soon as it is known what it
refers to, before the declaration behind it is built, so that a type that mentions itself finds it.

## Main definitions

* `Registry`: The references of symbols, and the number of references made.
* `Registry.mint`: A reference with a number of its own.
-/

namespace DocModel

/-- The references of symbols. -/
structure Registry where
  references : Table SymbolId Reference := ∅
  /-- The number of the next reference that is made. -/
  nextId : Nat := 0
deriving DecidableEq, Inhabited

namespace Registry

/-- The reference of a symbol. -/
def find? (r : Registry) (s : SymbolId) : Option Reference := r.references.find? s

/-- Whether a symbol has a reference. -/
def contains (r : Registry) (s : SymbolId) : Bool := r.references.contains s

/-- Enters the reference of a symbol. -/
def insert (r : Registry) (s : SymbolId) (reference : Reference) : Registry :=
  { r with references := r.references.insert s reference }

/-- Makes a reference with a number of its own, without entering it. -/
def mint (r : Registry) (name : String) (kind : ReferenceKind) : Reference × Registry :=
  (Reference.make ⟨r.nextId⟩ name kind, { r with nextId := r.nextId + 1 })

/-- How many symbols have a reference. -/
def size (r : Registry) : Nat := r.references.size

/-- Whether no symbol has a reference. -/
def isEmpty (r : Registry) : Bool := r.references.isEmpty

end Registry

end DocModel
