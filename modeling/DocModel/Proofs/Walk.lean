import DocModel.Proofs.Alias
import Mathlib.Logic.Relation

/-!
# Walks along links

To find what a symbol stands for its links are followed, until there is none or a symbol is met that
was passed before. Nothing is said about the number of steps in that, and `Walk` is this rule: it
holds of two symbols if the walk from the one comes to an end at the other. The number of steps that
are allowed when it is carried out is enough for every walk, so each has its end.

Where the walk ends is the canonical choice. If links lead to a symbol without one, it is that
symbol. If they lead into a circle it is the symbol at which the circle is entered: it lies on the
circle, and what was passed on the way to it does not.

## Main definitions

* `Program.Walk`: The walk along links, for as many steps as it takes.
* `Program.Way`: The symbols that are passed on a way along links.
* `Program.OnCircle`: Links lead from the symbol back to it.

## Theorems

* `Program.walk_followLinks`: The steps that are allowed are enough.
* `Program.Walk.eq`: A walk has one end.
* `Program.Way.closed`: Links do not lead out of a circle.
* `Program.Walk.end_cases`: Where a walk ends, and what it passes before.
* `Program.resolveAlias_ends_walk`: What a symbol stands for is the canonical end of its links.
-/

namespace DocModel.Program

variable (p : Program)

/-- The walk along links from a symbol comes to an end at another, if some symbols were passed
    before. -/
inductive Walk : List SymbolId → SymbolId → SymbolId → Prop where
  | stop {seen : List SymbolId} {s : SymbolId} (h : p.aliased? s = none) : Walk seen s s
  | again {seen : List SymbolId} {s next : SymbolId} (h : p.aliased? s = some next)
      (hs : s ∈ seen) : Walk seen s s
  | go {seen : List SymbolId} {s next t : SymbolId} (h : p.aliased? s = some next) (hs : s ∉ seen)
      (hw : Walk (s :: seen) next t) : Walk seen s t

/-- The symbols that are passed on the way from a symbol to another, which itself is left out. -/
inductive Way : SymbolId → List SymbolId → SymbolId → Prop where
  | here (s : SymbolId) : Way s [] s
  | next {s d t : SymbolId} {ds : List SymbolId} (h : p.aliased? s = some d) (hw : Way d ds t) :
      Way s (s :: ds) t

/-- The symbol has a link to the other. -/
def LinksTo (s t : SymbolId) : Prop := p.aliased? s = some t

/-- Links lead from the symbol back to it. -/
def OnCircle (s : SymbolId) : Prop := Relation.TransGen p.LinksTo s s

variable {p}

/-- A walk with enough steps comes to its end. -/
theorem walk_followLinks (n : Nat) (seen : List SymbolId) (s : SymbolId)
    (hback : p.LinksBack s seen) (hn : seen.Nodup) (hlen : p.symbols.size < n + seen.length) :
    p.Walk seen s (p.followLinks n seen s) := by
  induction n generalizing seen s with
  | zero =>
      -- More symbols with a link were passed than there are.
      have := p.length_le_of_nodup seen hn (p.index_lt_of_linksBack hback)
      omega
  | succ n ih =>
      simp only [followLinks]
      cases hs : p.aliased? s with
      | none => exact .stop hs
      | some next =>
          simp only []
          split
          · rename_i hm
            exact .again hs hm
          · rename_i hm
            refine .go hs hm (ih (s :: seen) next ⟨hs, hback⟩ (List.nodup_cons.2 ⟨hm, hn⟩) ?_)
            rw [List.length_cons]
            omega

/-- A walk has one end. -/
theorem Walk.eq {seen : List SymbolId} {s t t' : SymbolId} (h : p.Walk seen s t)
    (h' : p.Walk seen s t') : t = t' := by
  induction h with
  | stop hs =>
      -- The link and the symbols that were passed decide how a walk goes on.
      cases h' with
      | stop _ => rfl
      | again hs' _ => rfl
      | go hs' _ _ => cases hs.symm.trans hs'
  | again hs hm =>
      cases h' with
      | stop _ => rfl
      | again _ _ => rfl
      | go _ hm' _ => exact absurd hm hm'
  | go hs hm _ ih =>
      cases h' with
      | stop hs' => cases hs'.symm.trans hs
      | again _ hm' => exact absurd hm' hm
      | go hs' _ hw' =>
          rw [hs, Option.some.injEq] at hs'
          subst hs'
          exact ih hw'

theorem Way.snoc {s t e : SymbolId} {ds : List SymbolId} (h : p.Way s ds t)
    (he : p.aliased? t = some e) : p.Way s (ds ++ [t]) e := by
  induction h with
  | here s => exact .next he (.here e)
  | next hs _ ih => exact .next hs (ih he)

/-- A way can be cut at any symbol that is passed. -/
theorem Way.split {s t m : SymbolId} {ds es : List SymbolId} (h : p.Way s (ds ++ m :: es) t) :
    p.Way s ds m ∧ p.Way m (m :: es) t := by
  induction ds generalizing s with
  | nil =>
      cases h with
      | next hs hw => exact ⟨.here m, .next hs hw⟩
  | cons d ds ih =>
      cases h with
      | next hs hw => exact ⟨.next hs (ih hw).1, (ih hw).2⟩

theorem Way.reaches {s t : SymbolId} {ds : List SymbolId} (h : p.Way s ds t) :
    Relation.ReflTransGen p.LinksTo s t := by
  induction h with
  | here s => exact .refl
  | next hs _ ih => exact .head hs ih

/-- Links do not lead out of a circle. -/
theorem Way.closed {t d : SymbolId} {ds : List SymbolId} (h : p.Way t (t :: ds) t)
    (hd : Relation.ReflTransGen p.LinksTo t d) : d ∈ t :: ds := by
  induction hd with
  | refl => exact List.mem_cons_self
  | @tail d e _ he ih =>
      rcases List.append_of_mem ih with ⟨before, after, hsplit⟩
      rw [hsplit] at h
      cases h.split.2 with
      | next hs hw =>
          have hnext : _ = e := Option.some.inj (hs.symm.trans he)
          subst hnext
          -- The next symbol is passed as well, unless the way is at its end.
          cases hw with
          | here => exact List.mem_cons_self
          | next => exact hsplit ▸ List.mem_append_right _ (by simp only [List.mem_cons, true_or,
              or_true])

/-- From a symbol that a circle leads to, links lead back to the circle. -/
theorem OnCircle.reaches_back {d t : SymbolId} (h : p.OnCircle d)
    (ht : Relation.ReflTransGen p.LinksTo d t) : Relation.ReflTransGen p.LinksTo t d := by
  induction ht with
  | refl => exact .refl
  | @tail t e _ he ih =>
      -- From here links lead back, and the first of them is this one.
      have hround : Relation.TransGen p.LinksTo t d := Relation.TransGen.trans_right ih h
      rcases Relation.TransGen.head'_iff.1 hround with ⟨e', he', hback⟩
      rwa [Option.some.inj (he.symm.trans he')]

/-- A walk ends at a symbol without a link, or at the first symbol of a circle. -/
theorem Walk.end_cases {start s t : SymbolId} {seen : List SymbolId} (h : p.Walk seen s t)
    (hway : p.Way start seen.reverse s) (hn : seen.Nodup) :
    ∃ passed, p.Way start passed t ∧
      (p.aliased? t = none ∨ p.OnCircle t ∧ ∀ d ∈ passed, ¬ p.OnCircle d) := by
  induction h with
  | @stop seen s hs => exact ⟨seen.reverse, hway, Or.inl hs⟩
  | @again seen s next hs hm =>
      rcases List.append_of_mem hm with ⟨before, after, rfl⟩
      rw [List.reverse_append, List.reverse_cons, List.append_assoc] at hway
      -- Up to the first visit it is the lead, and from there the circle.
      rcases hway.split with ⟨hlead, hring⟩
      have hcircle : p.OnCircle s := by
        cases hring with
        | next hs hw => exact Relation.TransGen.head' hs hw.reaches
      refine ⟨after.reverse, hlead, Or.inr ⟨hcircle, fun d hd hdc => ?_⟩⟩
      -- A symbol of the lead that lies on a circle is reached again from the end, and is passed
      -- a second time.
      have hd' : Relation.ReflTransGen p.LinksTo d s := by
        rcases List.append_of_mem hd with ⟨ds, es, hsplit⟩
        rw [hsplit] at hlead
        exact hlead.split.2.reaches
      -- The circle is closed, so the symbol is on it.
      have hmem := hring.closed (hdc.reaches_back hd')
      rw [List.nodup_append] at hn
      rcases List.mem_cons.1 hmem with rfl | hmem
      · exact (List.nodup_cons.1 hn.2.1).1 (List.mem_reverse.1 hd)
      · exact hn.2.2 d (List.mem_reverse.1 hmem) d
          (List.mem_cons_of_mem _ (List.mem_reverse.1 hd)) rfl
  | @go seen s next t hs hm _ ih =>
      refine ih ?_ (List.nodup_cons.2 ⟨hm, hn⟩)
      rw [List.reverse_cons]
      exact hway.snoc hs

/-- Following links comes to an end, and what a symbol stands for is that end: a symbol without a
    link, or the first symbol of the circle that the links lead into. It stands for itself. -/
theorem resolveAlias_ends_walk (p : Program) (s : SymbolId) :
    (∀ t, p.Walk [] s t ↔ t = p.resolveAlias s) ∧
    (∃ passed, p.Way s passed (p.resolveAlias s) ∧
      (p.aliased? (p.resolveAlias s) = none ∨
        p.OnCircle (p.resolveAlias s) ∧ ∀ d ∈ passed, ¬ p.OnCircle d)) ∧
    p.resolveAlias (p.resolveAlias s) = p.resolveAlias s := by
  -- One step more than there are symbols is allowed.
  have hwalk : p.Walk [] s (p.resolveAlias s) :=
    walk_followLinks (p.symbols.size + 1) [] s trivial List.nodup_nil (by
      rw [List.length_nil]
      omega)
  refine ⟨fun t => ⟨fun h => h.eq hwalk, ?_⟩, hwalk.end_cases (.here s) List.nodup_nil,
    p.resolveAlias_resolveAlias s⟩
  rintro rfl
  exact hwalk

end DocModel.Program
