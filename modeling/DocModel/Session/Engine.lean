import DocModel.Session.Register

/-!
# Extraction steps

Looking up a reference may build types, and building a type may look up references. Here the two are
tied together. Each call from one to the other costs a step; a call that has no step left fails.

The number of steps that a call may need is bounded. A reference is entered before its declaration
is built, so that declarations are nested at most as deeply as there are symbols; within one
declaration, types are nested up to the limit of the settings, and namespaces at most as deeply as
there are symbols. No bound is enough for a program whose namespaces contain one another without
end. Nor need one be enough where a member of an enumeration is inside something that has no
reference when it is asked for: the nesting depth is lost then, and types may be nested without end.

## Main definitions

* `Program.enoughSteps`: A number of steps that is enough.
* `Context.reference`, `Context.normalize`: A reference and a type, with a number of steps.
* `Context.referenceOf`, `Context.typeOf`: A reference and a type.
-/

namespace DocModel

/-- A number of nested steps that is enough. -/
def Program.enoughSteps (p : Program) (settings : Settings) : Nat :=
  let symbols := p.symbols.size
  (symbols + 1) * (symbols + settings.maxTypeDepth + 5)

namespace Context

mutual

/-- The reference of a symbol, found in `n` nested steps. -/
def reference (ctx : Context) : Nat → SymbolId → Action (Option Reference)
  | 0, _ => Action.fail .endless
  | n + 1, symbol => do
    Action.note
    Calls.referenceStep ⟨ctx.reference n, ctx.normalize n⟩ ctx symbol

/-- A type in normal form, found in `n` nested steps. -/
def normalize (ctx : Context) : Nat → TypeId → Option NodeId → Option SymbolId → Action Ty
  | 0, _, _, _ => Action.fail .endless
  | n + 1, ty, node, expanding => do
    Action.note
    Calls.normalizeStep ⟨ctx.reference n, ctx.normalize n⟩ ctx ty node expanding

end

/-- The reference of a symbol. -/
def referenceOf (ctx : Context) (symbol : SymbolId) : Action (Option Reference) :=
  ctx.reference ctx.steps symbol

/-- A type in normal form, with the node it was written as. -/
def typeOf (ctx : Context) (ty : TypeId) (node : Option NodeId) : Action Ty :=
  ctx.normalize ctx.steps ty node none

end Context

end DocModel
