import DocModel.Proofs.Mentions
import DocModel.Proofs.Symbols

/-!
# Identity of references

Every symbol that stands for itself gets a reference of its own, once. A symbol that stands for
another shares the other's. So the references of two symbols are the same exactly if the symbols
stand for the same.

Members of enumerations are the exception. An enumeration enters its members each time it comes to
them, so the reference of a member may be replaced, and nothing is promised about it. What is
promised about all others is not disturbed by that, because no other symbol shares the reference of
a member.

The references that were made form a ledger. It holds more than the registry does: references that
were replaced, and references to nothing, which are entered nowhere. All of them may stand in
documentation. A number belongs to one entry of the ledger, members again excepted.

## Main definitions

* `Registry.Keeps`: A later registry still has what an earlier one had.
* `Identity`: References are the same exactly if symbols stand for the same.
* `MayEnter`: When a reference may be entered for a symbol.
* `Roll`: Members of enumerations with a path lead to an enumeration that lists them.
* `Ledger`: The references that were made, and where they are entered.

## Theorems

* `MayEnter.keeps`, `MayEnter.identity`: What may be entered disturbs nothing.
* `Identity.id_eq_iff`: Two symbols have the same number exactly if they stand for the same.
* `Ledger.mint`, `Ledger.make`, `Ledger.insert`, `Ledger.insertUtility`: Keeping the ledger.
-/

namespace DocModel

/-- A later registry has, for every plain symbol, the reference that an earlier one had. -/
def Registry.Keeps (p : Program) (r r' : Registry) : Prop :=
  ∀ (x : SymbolId) (ref : Reference), p.IsPlain x → r.find? x = some ref → r'.find? x = some ref

theorem Registry.Keeps.refl (p : Program) (r : Registry) : r.Keeps p r := fun _ _ _ h => h

theorem Registry.Keeps.trans {p : Program} {r r' r'' : Registry} (h : r.Keeps p r')
    (h' : r'.Keeps p r'') : r.Keeps p r'' :=
  fun x ref hx hr => h' x ref hx (h x ref hx hr)

/-- The entry of one symbol is written. -/
theorem Registry.find?_insert (r : Registry) (x y : SymbolId) (ref : Reference) :
    (r.insert x ref).find? y = if y = x then some ref else r.find? y :=
  Table.find?_insert r.references x y ref

theorem Registry.find?_empty (x : SymbolId) : ({} : Registry).find? x = none :=
  Table.find?_empty x

theorem Registry.contains_insert (r : Registry) (x y : SymbolId) (ref : Reference) :
    (r.insert x ref).contains y = true ↔ y = x ∨ r.contains y = true :=
  Table.contains_insert r.references x y ref

theorem Registry.contains_iff (r : Registry) (x : SymbolId) :
    r.contains x = true ↔ ∃ ref, r.find? x = some ref :=
  Table.contains_iff r.references x

theorem Registry.contains_of_find? {r : Registry} {x : SymbolId} {ref : Reference}
    (h : r.find? x = some ref) : r.contains x = true := (r.contains_iff x).2 ⟨ref, h⟩

theorem Registry.not_contains_of_find? {r : Registry} {x : SymbolId} (h : r.find? x = none) :
    ¬ r.contains x = true := by
  rw [Registry.contains_iff]
  rintro ⟨ref, href⟩
  rw [h] at href
  cases href

/-- A symbol without a reference gives none if it cannot have one, unless what it stands for was
    entered. -/
theorem Program.not_referable {p : Program} {s : State} {x : SymbolId}
    (hx : s.registry.find? x = none) (htarget : s.registry.find? (p.resolveAlias x) = none)
    (h : ¬ p.HasReference s.projects x) : ¬ p.Referable s x := by
  rintro (hhas | hentered | hentered)
  · exact h hhas
  · exact Registry.not_contains_of_find? hx hentered
  · exact Registry.not_contains_of_find? htarget hentered

/-- A symbol that stands for itself gives no reference if it can have none. -/
theorem Program.not_referable_of_self {p : Program} {s : State} {x : SymbolId}
    (hself : p.resolveAlias x = x) (hnone : s.registry.find? x = none)
    (h : ¬ p.HasReference s.projects x) : ¬ p.Referable s x :=
  p.not_referable hnone (by rw [hself, hnone]) h

/-- References are the same exactly if symbols stand for the same. -/
structure Identity (p : Program) (r : Registry) : Prop where
  /-- A plain symbol shares the reference of what it stands for. -/
  plain : ∀ (x : SymbolId) (ref : Reference), p.IsPlain x → r.find? x = some ref →
    r.find? (p.resolveAlias x) = some ref
  /-- Symbols that stand for themselves have numbers of their own. -/
  own : ∀ (x y : SymbolId) (ref ref' : Reference), p.IsOwn x → p.IsOwn y →
    r.find? x = some ref → r.find? y = some ref' → ref.id = ref'.id → x = y

/-- Two plain symbols have the same number exactly if they stand for the same. -/
theorem Identity.id_eq_iff {p : Program} {r : Registry} (h : Identity p r) (x y : SymbolId)
    (ref ref' : Reference) (hx : p.IsPlain x) (hy : p.IsPlain y) (hr : r.find? x = some ref)
    (hr' : r.find? y = some ref') : ref.id = ref'.id ↔ p.resolveAlias x = p.resolveAlias y := by
  -- Both are looked at through what they stand for.
  have htx := h.plain x ref hx hr
  have hty := h.plain y ref' hy hr'
  constructor
  · exact h.own _ _ ref ref' hx.own hy.own htx hty
  · intro heq
    rw [heq, hty, Option.some.injEq] at htx
    rw [htx]

/-- When a reference may be entered for a symbol. -/
inductive MayEnter (p : Program) (r : Registry) (x : SymbolId) (ref : Reference) : Prop where
  /-- Nothing is promised about a member of an enumeration. -/
  | member (hx : p.isEnumMember x = true)
  /-- A symbol that stands for itself and has no reference yet takes one with a new number. -/
  | own (hx : p.IsOwn x) (hnone : r.find? x = none)
      (hnew : ∀ (y : SymbolId) (ref' : Reference), p.IsOwn y → r.find? y = some ref' →
        ref'.id ≠ ref.id)
  /-- A symbol that stands for another takes the reference that the other has. -/
  | linked (hx : p.resolveAlias x ≠ x)
      (hsame : p.IsPlain x → r.find? (p.resolveAlias x) = some ref)

namespace MayEnter

variable {p : Program} {r : Registry} {x : SymbolId} {ref : Reference}

/-- An entry that may be made replaces none of a plain symbol. -/
theorem keeps (h : MayEnter p r x ref) (hi : Identity p r) : r.Keeps p (r.insert x ref) := by
  intro y ref' hy hr
  rw [Registry.find?_insert]
  by_cases hyx : y = x
  · rw [if_pos hyx]
    subst hyx
    cases h with
    | member hx => exact absurd hx (by rw [hy.1]; exact Bool.false_ne_true)
    | own hx hnone hnew =>
        rw [hnone] at hr
        cases hr
    | linked hx hsame =>
        -- The symbol has a reference already, which is the other's as well.
        rw [← hsame hy, hi.plain y ref' hy hr]
  · rw [if_neg hyx, hr]

/-- What another plain symbol stands for is not written, if it has a reference. -/
theorem resolveAlias_ne (h : MayEnter p r x ref) (y : SymbolId) (hy : p.IsPlain y)
    (hsome : r.find? (p.resolveAlias y) ≠ none) : p.resolveAlias y ≠ x := by
  intro heq
  cases h with
  | member hx => exact absurd hx (by rw [← heq, hy.2]; exact Bool.false_ne_true)
  | own hx hnone hnew => exact hsome (by rw [heq, hnone])
  | linked hx hsame => exact hx (by rw [← heq, p.resolveAlias_resolveAlias])

/-- A symbol that stands for itself is written with a number that no other has. -/
theorem id_ne (h : MayEnter p r x ref) (hx : p.IsOwn x) (y : SymbolId) (ref' : Reference)
    (hy : p.IsOwn y) (hr : r.find? y = some ref') : ref'.id ≠ ref.id := by
  cases h with
  | member hmem => exact absurd hmem (by rw [hx.2]; exact Bool.false_ne_true)
  | own hx hnone hnew => exact hnew y ref' hy hr
  | linked hne hsame => exact absurd hx.1 hne

/-- References stay the same exactly if symbols stand for the same. -/
theorem identity (h : MayEnter p r x ref) (hi : Identity p r) : Identity p (r.insert x ref) := by
  refine ⟨fun y ref' hy hr => ?_, fun y z ref' ref'' hy hz hr hr' hid => ?_⟩
  · rw [Registry.find?_insert] at hr ⊢
    by_cases hyx : y = x
    · rw [if_pos hyx, Option.some.injEq] at hr
      subst hyx
      subst hr
      -- The symbol that is written stands for itself, or for one that has the reference.
      cases h with
      | member hx => exact absurd hx (by rw [hy.1]; exact Bool.false_ne_true)
      | own hx hnone hnew => rw [if_pos hx.1]
      | linked hx hsame => rw [if_neg hx, hsame hy]
    · rw [if_neg hyx] at hr
      have ht := hi.plain y ref' hy hr
      rw [if_neg (h.resolveAlias_ne y hy (by rw [ht]; exact Option.some_ne_none _)), ht]
  · -- If one of the two is written, its number is new, so the other is written as well.
    rw [Registry.find?_insert] at hr hr'
    by_cases hyx : y = x
    · by_cases hzx : z = x
      · rw [hyx, hzx]
      · rw [if_pos hyx, Option.some.injEq] at hr
        rw [if_neg hzx] at hr'
        exact absurd (by rw [← hid, hr]) (h.id_ne (hyx ▸ hy) z ref'' hz hr')
    · rw [if_neg hyx] at hr
      by_cases hzx : z = x
      · rw [if_pos hzx, Option.some.injEq] at hr'
        exact absurd (by rw [hid, hr']) (h.id_ne (hzx ▸ hz) y ref' hy hr)
      · rw [if_neg hzx] at hr'
        exact hi.own y z ref' ref'' hy hz hr hr' hid

end MayEnter

/-- A reference leads to an enumeration that has the symbol among its exports. -/
def Enlisted (p : Program) (r : Registry) (x : SymbolId) (ref : Reference) : Prop :=
  ∃ owner, p.Lists owner x ∧
    ∃ outer, r.find? owner = some outer ∧ ref.parent = some outer ∧ ref.path = outer.path

/-- Members of enumerations with a path were entered together with an enumeration. -/
def Roll (p : Program) (r : Registry) : Prop :=
  ∀ (x : SymbolId) (ref : Reference), p.resolveAlias x = x → p.isEnumMember x = true →
    r.find? x = some ref → ref.path.isSome = true → Enlisted p r x ref

/-- The enumeration keeps its reference, so the member stays enlisted. -/
theorem Enlisted.keeps {p : Program} {r r' : Registry} {x : SymbolId} {ref : Reference}
    (h : Enlisted p r x ref) (hk : r.Keeps p r') : Enlisted p r' x ref := by
  rcases h with ⟨owner, hlists, outer, houter, hsame⟩
  exact ⟨owner, hlists, outer, hk owner outer hlists.own.isPlain houter, hsame⟩

/-- Entering a reference leaves the roll in order, if it is one of a listed member. -/
theorem Roll.insert {p : Program} {r : Registry} (h : Roll p r) {x : SymbolId} {ref : Reference}
    (hk : r.Keeps p (r.insert x ref))
    (hx : p.resolveAlias x = x → p.isEnumMember x = true → ref.path.isSome = true →
      Enlisted p r x ref) : Roll p (r.insert x ref) := by
  intro y ref' hself hy hr hpath
  rw [Registry.find?_insert] at hr
  -- The entry is that of a listed member, or it was there.
  by_cases hyx : y = x
  · rw [if_pos hyx, Option.some.injEq] at hr
    subst hyx
    subst hr
    exact (hx hself hy hpath).keeps hk
  · rw [if_neg hyx] at hr
    exact (h y ref' hself hy hr hpath).keeps hk

/-- The references that were made, and where they are entered. -/
structure Ledger (r : Registry) (utilities : Table String Reference) (made : Reference → Prop) :
    Prop where
  /-- Numbers are given out in order. -/
  id_lt : ∀ (ref : Reference), made ref → ref.id.index < r.nextId
  /-- A number belongs to one reference, members of enumerations excepted. -/
  eq_of_id_eq : ∀ (ref ref' : Reference), made ref → made ref' → ref.kind ≠ .enumMember →
    ref'.kind ≠ .enumMember → ref.id = ref'.id → ref = ref'
  /-- The reference around a reference was made as well. -/
  parent : ∀ (ref outer : Reference), made ref → ref.parent = some outer → made outer
  registry : ∀ (x : SymbolId) (ref : Reference), r.find? x = some ref → made ref
  utility : ∀ (name : String) (ref : Reference), utilities.find? name = some ref → made ref

namespace Ledger

variable {r : Registry} {utilities : Table String Reference} {made : Reference → Prop}

/-- Every reference around one that was made was made. -/
theorem chain (h : Ledger r utilities made) (ref : Reference) (hm : made ref) :
    ∀ ref' ∈ ref.chain, made ref' := by
  -- From the inside out, one reference after another.
  induction ref using Reference.chain.induct with
  | case1 id name kind path link =>
      intro ref' hr
      rw [Reference.chain_none _ rfl, List.mem_singleton] at hr
      rw [hr]
      exact hm
  | case2 id name kind path outer link ih =>
      intro ref' hr
      rw [Reference.chain_some _ outer rfl] at hr
      rcases List.mem_cons.1 hr with rfl | hr
      · exact hm
      · exact ih (h.parent _ outer hm rfl) ref' hr

/-- The next number is not in use. -/
theorem ne_nextId (h : Ledger r utilities made) (ref : Reference) (hm : made ref) :
    ref.id ≠ ⟨r.nextId⟩ := by
  intro hid
  have hlt := h.id_lt ref hm
  rw [hid] at hlt
  exact absurd hlt (Nat.lt_irrefl _)

/-- Giving out a number. -/
theorem mint (h : Ledger r utilities made) (name : String) (kind : ReferenceKind) :
    Ledger (r.mint name kind).2 utilities made :=
  { h with id_lt := fun ref hm => Nat.lt_succ_of_lt (h.id_lt ref hm) }

/-- Making a reference with a number that no other has, or one of a member. -/
theorem make (h : Ledger r utilities made) (ref : Reference) (hlt : ref.id.index < r.nextId)
    (hnew : ref.kind = .enumMember ∨ ∀ (ref' : Reference), made ref' → ref'.id ≠ ref.id)
    (hparent : ∀ (outer : Reference), ref.parent = some outer → made outer) :
    Ledger r utilities (fun ref' => made ref' ∨ ref' = ref) := by
  refine ⟨?_, ?_, ?_, fun x ref' hr => Or.inl (h.registry x ref' hr),
    fun name ref' hr => Or.inl (h.utility name ref' hr)⟩
  · rintro ref' (hm | rfl)
    · exact h.id_lt ref' hm
    · exact hlt
  · -- One of the two is the new one only if both are: the number is new, unless it is a member's.
    rintro a b (ha | rfl) (hb | rfl) hka hkb hid
    · exact h.eq_of_id_eq a b ha hb hka hkb hid
    · rcases hnew with hk | hnew
      · exact absurd hk hkb
      · exact absurd hid (hnew a ha)
    · rcases hnew with hk | hnew
      · exact absurd hk hka
      · exact absurd hid.symm (hnew b hb)
    · rfl
  · rintro ref' outer (hm | rfl) ho
    · exact Or.inl (h.parent ref' outer hm ho)
    · exact Or.inl (hparent outer ho)

/-- Entering a reference for a symbol. -/
theorem insert (h : Ledger r utilities made) (x : SymbolId) (ref : Reference) (hm : made ref) :
    Ledger (r.insert x ref) utilities made := by
  refine { h with registry := fun y ref' hr => ?_ }
  rw [Registry.find?_insert] at hr
  by_cases hyx : y = x
  · rw [if_pos hyx, Option.some.injEq] at hr
    rw [← hr]
    exact hm
  · rw [if_neg hyx] at hr
    exact h.registry y ref' hr

/-- Entering a reference for a built-in. -/
theorem insertUtility (h : Ledger r utilities made) (name : String) (ref : Reference)
    (hm : made ref) : Ledger r (utilities.insert name ref) made := by
  refine { h with utility := fun name' ref' hr => ?_ }
  rcases Table.find?_insert_cases utilities name name' ref ref' hr with rfl | hr
  · exact hm
  · exact h.utility name' ref' hr

end Ledger

end DocModel
