import DocModel.Proofs.Ledger
import Mathlib.Data.Set.Card
import Mathlib.Logic.Relation

/-!
# What can run out

An extraction comes to an end because two things run out. Symbols without a reference run out, since
a reference is entered before the declaration behind it is built. And on the way to a symbol, what
has to be asked for first runs out: the namespace around a declaration, or the enumeration around a
member, then what is around that, and so on. This second way outwards is the only one on which
nothing is entered, so it has to be assumed that it does not run in circles.

## Main definitions

* `Program.Above`: One symbol has to be asked for before another.
* `Program.Acyclic`: The way outwards does not run in circles.
* `Program.rank`: How many symbols are on the way outwards from a symbol.
* `Program.vacant`: How many symbols have no reference.

## Theorems

* `Program.rank_lt_of_above`: A symbol is further out than those that are asked for after it.
* `Program.vacant_lt_of_contains`: Entering a reference leaves fewer symbols without one.
-/

namespace DocModel.Program

variable (p : Program)

/-- What has to be asked for before a symbol of the analysed sources: what is around it, if that is
    a namespace or the symbol is a member of an enumeration. -/
def Above (x y : SymbolId) : Prop :=
  ∃ info parent, p.symbol? x = some info ∧ info.parent = some parent ∧
    (p.isNamespace parent = true ∨ info.kind = .enumMember) ∧ y = p.resolveAlias parent

/-- The way outwards does not run in circles. -/
def Acyclic : Prop := ∀ (x : SymbolId), ¬ Relation.TransGen p.Above x x

/-- The symbols of a program. -/
def numbered : Set SymbolId := { x | x.index < p.symbols.size }

/-- How many symbols are on the way outwards from a symbol. -/
noncomputable def rank (x : SymbolId) : Nat :=
  { y ∈ p.numbered | Relation.ReflTransGen p.Above (p.resolveAlias x) y }.ncard

/-- How many symbols have no reference. -/
noncomputable def vacant (r : Registry) : Nat := { y ∈ p.numbered | r.contains y = false }.ncard

theorem mem_numbered_of_symbol? {x : SymbolId} {info : SymbolInfo} (h : p.symbol? x = some info) :
    x ∈ p.numbered := by
  unfold symbol? symbolRecord? at h
  rw [Option.map_eq_some_iff] at h
  rcases h with ⟨record, hrecord, _⟩
  exact (Array.getElem?_eq_some_iff.1 hrecord).1

theorem index_injective : Function.Injective SymbolId.index := by
  rintro ⟨i⟩ ⟨j⟩ hij
  exact congrArg SymbolId.mk hij

theorem finite_numbered : p.numbered.Finite :=
  (Set.finite_lt_nat p.symbols.size).preimage index_injective.injOn

/-- Of any sort there are no more symbols than entries. -/
theorem ncard_numbered_le (q : SymbolId → Prop) :
    { y ∈ p.numbered | q y }.ncard ≤ p.symbols.size := by
  have hle : { y ∈ p.numbered | q y }.ncard ≤ (Finset.range p.symbols.size : Set Nat).ncard :=
    Set.ncard_le_ncard_of_injOn SymbolId.index
      (fun y hy => Finset.mem_coe.2 (Finset.mem_range.2 hy.1))
      index_injective.injOn (Finset.finite_toSet _)
  rw [Set.ncard_coe_finset, Finset.card_range] at hle
  exact hle

theorem rank_le (x : SymbolId) : p.rank x ≤ p.symbols.size := p.ncard_numbered_le _

theorem vacant_le (r : Registry) : p.vacant r ≤ p.symbols.size := p.ncard_numbered_le _

variable {p}

/-- A symbol is further out than those that are asked for after it. -/
theorem rank_lt_of_above (h : p.Acyclic) {x parent : SymbolId} {info : SymbolInfo}
    (hinfo : p.symbol? (p.resolveAlias x) = some info) (hparent : info.parent = some parent)
    (hasked : p.isNamespace parent = true ∨ info.kind = .enumMember) :
    p.rank parent < p.rank x := by
  have habove : p.Above (p.resolveAlias x) (p.resolveAlias parent) :=
    ⟨info, parent, hinfo, hparent, hasked, rfl⟩
  refine Set.ncard_lt_ncard ⟨fun y hy => ⟨hy.1, hy.2.head habove⟩, fun hsub => ?_⟩
    (p.finite_numbered.subset (Set.sep_subset _ _))
  -- The symbol itself is on its own way, and not on that of its parent.
  have hself : p.resolveAlias x ∈
      { y ∈ p.numbered | Relation.ReflTransGen p.Above (p.resolveAlias x) y } :=
    ⟨p.mem_numbered_of_symbol? hinfo, .refl⟩
  exact h _ (Relation.TransGen.head' habove (hsub hself).2)

/-- As references are entered, symbols without one become fewer. -/
theorem vacant_subset {r r' : Registry} (h : ∀ x, r.contains x = true → r'.contains x = true) :
    { y ∈ p.numbered | r'.contains y = false } ⊆ { y ∈ p.numbered | r.contains y = false } := by
  intro y hy
  refine ⟨hy.1, ?_⟩
  by_contra hc
  have hy' := h y (by simpa only [Bool.not_eq_false] using hc)
  rw [hy.2] at hy'
  exact absurd hy' Bool.false_ne_true

/-- What has a reference keeps having one, so there are never more symbols without. -/
theorem vacant_le_of_contains {r r' : Registry}
    (h : ∀ x, r.contains x = true → r'.contains x = true) : p.vacant r' ≤ p.vacant r :=
  Set.ncard_le_ncard (vacant_subset h) (p.finite_numbered.subset (Set.sep_subset _ _))

/-- Entering a reference leaves fewer symbols without one. -/
theorem vacant_lt_of_contains {r r' : Registry} {x : SymbolId} (hx : x ∈ p.numbered)
    (hnone : r.contains x = false) (hsome : r'.contains x = true)
    (h : ∀ x, r.contains x = true → r'.contains x = true) : p.vacant r' < p.vacant r := by
  -- The symbol was without a reference, and is not any more.
  refine Set.ncard_lt_ncard ⟨vacant_subset h, fun hsub => ?_⟩
    (p.finite_numbered.subset (Set.sep_subset _ _))
  have hx' := (hsub ⟨hx, hnone⟩ : x ∈ { y ∈ p.numbered | r'.contains y = false }).2
  rw [hsome] at hx'
  exact absurd hx'.symm Bool.false_ne_true

end DocModel.Program
