import DocModel.Program.Alias
import Mathlib.Data.List.Nodup
import Mathlib.Data.List.Perm.Subperm

/-!
# What a symbol stands for

Following links from a symbol ends at a symbol without a link, or runs into a circle and ends where
the circle is entered. Either way the answer stands for itself: asking again from there gives the
same answer. This is what makes it possible to keep one reference per symbol that something stands
for, and to hand it out under all the names.

The walk keeps the symbols it has passed, latest first, so they are linked backwards. `LinksBack`
is that fact. When the walk meets a symbol again, the part of the list before it is the circle; read
forwards it is a path from the symbol to itself, and walking that path from a fresh start comes to
the same place.

## Main definitions

* `Program.Links`, `Program.LinksBack`: Symbols that are linked in a row, read in either direction.

## Theorems

* `Program.length_le_of_nodup`: There are no more different symbols with a link than there are
  symbols.
* `Program.followLinks_cases`: Where a walk ends.
* `Program.followLinks_of_links`: A walk along a circle.
* `Program.resolveAlias_resolveAlias`: What a symbol stands for stands for itself.
-/

namespace DocModel.Program

variable (p : Program)

/-- A path of links from a symbol over others to a last one. -/
def Links (s : SymbolId) : List SymbolId → SymbolId → Prop
  | [], e => p.aliased? s = some e
  | d :: ds, e => p.aliased? s = some d ∧ Links d ds e

/-- A path of links to a symbol, the last step first. -/
def LinksBack (e : SymbolId) : List SymbolId → Prop
  | [] => True
  | d :: ds => p.aliased? d = some e ∧ LinksBack d ds

/-- A symbol with a link stands in the table. -/
theorem index_lt_of_aliased? (s e : SymbolId) (h : p.aliased? s = some e) :
    s.index < p.symbols.size := by
  unfold aliased? symbolRecord? at h
  rw [Option.bind_eq_some_iff] at h
  rcases h with ⟨r, hr, _⟩
  rw [Array.getElem?_eq_some_iff] at hr
  exact hr.1

/-- There are no more different symbols below the size of the table than the table has. -/
theorem length_le_of_nodup (ss : List SymbolId) (hn : ss.Nodup)
    (h : ∀ s ∈ ss, s.index < p.symbols.size) : ss.length ≤ p.symbols.size := by
  -- Symbols are told apart by their numbers, and the numbers lie in a range.
  have hmap : (ss.map SymbolId.index).Nodup := by
    refine hn.map_on (fun a _ b _ hab => ?_)
    cases a
    cases b
    exact congrArg SymbolId.mk hab
  have hsub : ss.map SymbolId.index ⊆ List.range p.symbols.size := by
    intro i hi
    rcases List.mem_map.1 hi with ⟨s, hs, rfl⟩
    exact List.mem_range.2 (h s hs)
  have hle := (hmap.subperm hsub).length_le
  rwa [List.length_map, List.length_range] at hle

/-- A path of links can be made longer at its end. -/
theorem Links.snoc {s d e : SymbolId} {ds : List SymbolId} (h : p.Links s ds d)
    (he : p.aliased? d = some e) : p.Links s (ds ++ [d]) e := by
  induction ds generalizing s with
  | nil => exact ⟨h, he⟩
  | cons c ds ih => exact ⟨h.1, ih h.2⟩

/-- The symbols before a given one in a backward path are a forward path from it. -/
theorem links_of_linksBack {e s : SymbolId} {before after : List SymbolId}
    (h : p.LinksBack e (before ++ s :: after)) : p.Links s before.reverse e := by
  induction before generalizing e with
  | nil => exact h.1
  | cons d ds ih =>
      rw [List.reverse_cons]
      exact Links.snoc p (ih h.2) h.1

/-- So do all symbols of a backward path. -/
theorem index_lt_of_linksBack {e : SymbolId} {ds : List SymbolId} (h : p.LinksBack e ds) :
    ∀ d ∈ ds, d.index < p.symbols.size := by
  induction ds generalizing e with
  | nil => exact List.forall_mem_nil _
  | cons c ds ih =>
      intro d hd
      rcases List.mem_cons.1 hd with rfl | hd
      · exact p.index_lt_of_aliased? d e h.1
      · exact ih h.2 d hd

/-- A walk with enough steps ends at a symbol without a link, or at one with a path of links back to
    itself over symbols that are all different. -/
theorem followLinks_cases (n : Nat) (seen : List SymbolId) (s : SymbolId)
    (hback : p.LinksBack s seen) (hn : seen.Nodup) (hlen : p.symbols.size < n + seen.length) :
    p.aliased? (p.followLinks n seen s) = none ∨
      ∃ ring, p.Links (p.followLinks n seen s) ring (p.followLinks n seen s) ∧
        (p.followLinks n seen s :: ring).Nodup ∧ ring.length < p.symbols.size := by
  -- The symbols passed so far are a backward path without repetition, and steps and symbols passed
  -- together exceed the table.
  induction n generalizing seen s with
  | zero =>
      -- The walk passed more symbols than there are.
      have := p.length_le_of_nodup seen hn (p.index_lt_of_linksBack hback)
      omega
  | succ n ih =>
      simp only [followLinks]
      cases hs : p.aliased? s with
      | none => exact Or.inl hs
      | some next =>
          simp only []
          by_cases hm : s ∈ seen
          · rw [if_pos hm]
            -- The part of the path since the symbol was first passed is the ring.
            rcases List.append_of_mem hm with ⟨before, after, rfl⟩
            have hring : (before ++ [s]).Nodup :=
              hn.sublist (List.append_sublist_append_left _ |>.2
                (List.singleton_sublist.2 List.mem_cons_self))
            refine Or.inr ⟨before.reverse, p.links_of_linksBack hback, ?_, ?_⟩
            · rw [← List.nodup_reverse] at hring
              simpa only [List.reverse_append, List.reverse_cons, List.reverse_nil, List.nil_append,
                List.singleton_append] using hring
            · have hle := p.length_le_of_nodup (before ++ [s]) hring (fun d hd =>
                p.index_lt_of_linksBack hback d (by
                  rcases List.mem_append.1 hd with hd | hd
                  · exact List.mem_append_left _ hd
                  · rw [List.mem_singleton.1 hd]
                    exact hm))
              rw [List.length_append, List.length_singleton] at hle
              rw [List.length_reverse]
              omega
          · rw [if_neg hm]
            refine ih (s :: seen) next ⟨hs, hback⟩ (List.nodup_cons.2 ⟨hm, hn⟩) ?_
            rw [List.length_cons]
            omega

/-- A walk along a path that leads to a symbol already passed ends at that symbol. -/
theorem followLinks_of_links (n : Nat) (seen : List SymbolId) (d t next : SymbolId)
    (ds : List SymbolId) (hl : p.Links d ds t) (hn : (d :: ds).Nodup)
    (hdis : ∀ c ∈ d :: ds, c ∉ seen) (ht : t ∈ d :: seen) (hnext : p.aliased? t = some next)
    (hlen : ds.length + 2 ≤ n) : p.followLinks n seen d = t := by
  induction ds generalizing n seen d with
  | nil =>
      rcases n with _ | _ | n
      · simp only [List.length_nil] at hlen
        omega
      · simp only [List.length_nil] at hlen
        omega
      · simp only [followLinks, show p.aliased? d = some t from hl, hnext,
          if_neg (hdis d List.mem_cons_self), if_pos ht]
  | cons e ds ih =>
      rw [List.length_cons] at hlen
      rcases n with _ | n
      · omega
      · simp only [followLinks, show p.aliased? d = some e from hl.1,
          if_neg (hdis d List.mem_cons_self)]
        rcases List.nodup_cons.1 hn with ⟨hd, hn'⟩
        -- The next symbol has not been passed either, and one more has been.
        refine ih n (d :: seen) e hl.2 hn' (fun c hc => ?_) (List.mem_cons_of_mem _ ht) (by omega)
        rintro hm
        rcases List.mem_cons.1 hm with rfl | hm
        · exact hd hc
        · exact hdis c (List.mem_cons_of_mem _ hc) hm

/-- What a symbol stands for stands for itself. -/
theorem resolveAlias_resolveAlias (s : SymbolId) :
    p.resolveAlias (p.resolveAlias s) = p.resolveAlias s := by
  have hcases := p.followLinks_cases (p.symbols.size + 1) [] s trivial List.nodup_nil
    (by rw [List.length_nil]; omega)
  change p.aliased? (p.resolveAlias s) = none ∨ ∃ ring, p.Links (p.resolveAlias s) ring
    (p.resolveAlias s) ∧ (p.resolveAlias s :: ring).Nodup ∧ ring.length < p.symbols.size at hcases
  rcases hcases with hnone | ⟨ring, hring, hn, hlen⟩
  · generalize p.resolveAlias s = t at hnone
    simp only [resolveAlias, followLinks, hnone]
  · generalize p.resolveAlias s = t at hring hn
    -- The symbol lies on a ring, so a second walk goes around once and stops where it began.
    have hnext : ∃ next, p.aliased? t = some next := by
      cases ring with
      | nil => exact ⟨t, hring⟩
      | cons d ds => exact ⟨d, hring.1⟩
    rcases hnext with ⟨next, hnext⟩
    exact p.followLinks_of_links _ [] t t next ring hring hn (fun _ _ => List.not_mem_nil)
      List.mem_cons_self hnext (by omega)

end DocModel.Program
