import DocModel.Program.Query

/-!
# Symbols that stand for others

An import stands for the symbol that it imports, which may be an import again. Links are followed to
a symbol without one. They may also run in a circle; then the first symbol that is met again is the
answer.

## Main definitions

* `Program.resolveAlias`: The symbol that a symbol stands for in the end.
-/

namespace DocModel.Program

/-- Follows links for at most `n` steps, having `seen` some symbols already. -/
def followLinks (p : Program) : Nat → List SymbolId → SymbolId → SymbolId
  | 0, _, s => s
  | n + 1, seen, s =>
    match p.aliased? s with
    | none => s
    | some next => if s ∈ seen then s else p.followLinks n (s :: seen) next

/-- The symbol that a symbol stands for in the end. Only a symbol of the table has a link, so one
    step more than there are symbols is enough to come to an end or to a symbol seen before. -/
def resolveAlias (p : Program) (s : SymbolId) : SymbolId :=
  p.followLinks (p.symbols.size + 1) [] s

end DocModel.Program
