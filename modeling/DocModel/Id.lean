/-!
# Identifiers

Symbols, syntax nodes and types of a program, modules of a tree and references of a pass are known
by numbers. Each sort has a type of its own, so that one is not taken for another. A number may
point nowhere: looking it up then finds nothing.

## Main definitions

* `SymbolId`, `NodeId`, `TypeId`: Handles into the tables of a program.
* `ModuleId`: A module of a module tree.
* `ReferenceId`: A reference of an extraction pass.
-/

namespace DocModel

/-- A symbol of a program. -/
structure SymbolId where
  /-- Its place in the table of symbols. -/
  index : Nat
deriving DecidableEq, Inhabited

/-- A syntax node of a program. -/
structure NodeId where
  /-- Its place in the table of nodes. -/
  index : Nat
deriving DecidableEq, Inhabited

/-- A type of a program. -/
structure TypeId where
  /-- Its place in the table of types. -/
  index : Nat
deriving DecidableEq, Inhabited

/-- A module of a module tree. -/
structure ModuleId where
  /-- Its place in the tree's list of modules. -/
  index : Nat
deriving DecidableEq, Inhabited

/-- A reference of an extraction pass. -/
structure ReferenceId where
  /-- How many references were made before it. -/
  index : Nat
deriving DecidableEq, Inhabited

instance : Ord SymbolId := ⟨compareOn SymbolId.index⟩

instance : Std.TransOrd SymbolId := inferInstanceAs (Std.TransCmp (compareOn SymbolId.index))

instance : Ord NodeId := ⟨compareOn NodeId.index⟩

instance : Std.TransOrd NodeId := inferInstanceAs (Std.TransCmp (compareOn NodeId.index))

end DocModel
