import DocModel.Id
import DocModel.Table

/-!
# Reading tables after writing

What a table holds once a value was written under a key. Most of it is for keys that the order tells
apart exactly when they differ. Paths are not such keys, since two spellings of a path are one key,
but symbols and names are.

## Theorems

* `Table.mem_insert_cases`: Every entry in a table was there or was written.
* `Table.exists_mem_of_find?`, `Table.find?_of_mem`: What is found is what the entries say.
* `Table.find?_insert_cases`: Every value found in a table was there or was written.
* `Table.find?_insert`: The value under a key after a write under a key.
* `Table.find?_insert_of_find?`: A write under a new key leaves what is there.
* `Table.contains_insert`: The keys after a write.
* `Table.insert_of_find?`: Writing what is there changes nothing.
* `Table.ofList_entries`: A table is made from its own entries.
-/

namespace DocModel

instance : Std.LawfulEqOrd SymbolId where
  eq_of_compare {a b} h := by
    have hi : compare a.index b.index = .eq := h
    have he : a.index = b.index := Std.LawfulEqCmp.eq_of_compare hi
    cases a
    cases b
    exact congrArg SymbolId.mk he

namespace Table

variable {κ ν : Type} [Ord κ]

@[simp]
theorem find?_empty (k : κ) : (∅ : Table κ ν).find? k = none := rfl

theorem contains_iff (t : Table κ ν) (k : κ) : t.contains k = true ↔ ∃ v, t.find? k = some v := by
  unfold contains
  exact Option.isSome_iff_exists

/-- What is found is an entry under a spelling of the key. -/
theorem exists_mem_of_find? {t : Table κ ν} {k : κ} {v : ν} (h : t.find? k = some v) :
    ∃ e ∈ t.entries, compare k e.1 = .eq ∧ e.2 = v := by
  rcases t with ⟨es, hsorted⟩
  change findIn? k es = some v at h
  change ∃ e ∈ es, compare k e.1 = .eq ∧ e.2 = v
  -- The order of the entries does not matter here.
  clear hsorted
  induction es with
  | nil => cases h
  | cons e rest ih =>
      rw [findIn?] at h
      split at h
      · rename_i hc
        exact ⟨e, List.mem_cons_self, hc, Option.some.inj h⟩
      · rcases ih h with ⟨e', he', hfound⟩
        exact ⟨e', List.mem_cons_of_mem _ he', hfound⟩

section Laws

variable [Std.TransOrd κ]

theorem mem_insertEntry_cases {k : κ} {v : ν} {es : List (κ × ν)} {e : κ × ν}
    (he : e ∈ insertEntry k v es) : e ∈ es ∨ compare k e.1 = .eq ∧ e.2 = v := by
  induction es with
  | nil =>
      rw [insertEntry, List.mem_singleton] at he
      rw [he]
      exact Or.inr ⟨Std.ReflCmp.compare_self, rfl⟩
  | cons e' rest ih =>
      simp only [insertEntry] at he
      -- The new entry goes in front, takes the place of this one, or goes further back.
      split at he
      · rcases List.mem_cons.1 he with rfl | he
        · exact Or.inr ⟨Std.ReflCmp.compare_self, rfl⟩
        · exact Or.inl he
      · rename_i hc
        rcases List.mem_cons.1 he with rfl | he
        · exact Or.inr ⟨hc, rfl⟩
        · exact Or.inl (List.mem_cons_of_mem _ he)
      · rcases List.mem_cons.1 he with rfl | he
        · exact Or.inl List.mem_cons_self
        · exact (ih he).imp_left (List.mem_cons_of_mem _)

/-- Every entry in a table was there before a write or was written by it. -/
theorem mem_insert_cases {t : Table κ ν} {k : κ} {v : ν} {e : κ × ν}
    (he : e ∈ (t.insert k v).entries) : e ∈ t.entries ∨ compare k e.1 = .eq ∧ e.2 = v :=
  mem_insertEntry_cases he

/-- An entry is found under every spelling of its key. -/
theorem find?_of_mem {t : Table κ ν} {k : κ} {e : κ × ν} (he : e ∈ t.entries)
    (hk : compare k e.1 = .eq) : t.find? k = some e.2 := by
  rcases t with ⟨es, hsorted⟩
  change findIn? k es = some e.2
  induction es with
  | nil => exact absurd he List.not_mem_nil
  | cons e' rest ih =>
      rcases List.pairwise_cons.1 hsorted with ⟨hlt, hrest⟩
      rw [findIn?]
      rcases List.mem_cons.1 he with rfl | he
      · rw [if_pos hk]
      · -- Two entries under spellings of one key would not be in order.
        have hne : compare k e'.1 ≠ .eq := by
          intro hc
          have heq := Std.TransCmp.eq_trans (Std.OrientedCmp.eq_symm hc) hk
          rw [hlt e he] at heq
          exact absurd heq (by decide)
        rw [if_neg hne]
        exact ih hrest he

theorem findIn?_congr {k k' : κ} (hc : compare k' k = .eq) (es : List (κ × ν)) :
    findIn? k' es = findIn? k es := by
  induction es with
  | nil => rfl
  | cons e rest ih =>
      -- The order does not tell the two keys apart at any entry.
      have he : compare k' e.1 = .eq ↔ compare k e.1 = .eq :=
        ⟨fun h => Std.TransCmp.eq_trans (Std.OrientedCmp.eq_symm hc) h,
          fun h => Std.TransCmp.eq_trans hc h⟩
      simp only [findIn?, he, ih]

/-- Every value that is found after a write was found before it or was written by it. -/
theorem find?_insert_cases (t : Table κ ν) (k k' : κ) (v w : ν)
    (h : (t.insert k v).find? k' = some w) : w = v ∨ t.find? k' = some w := by
  by_cases hc : compare k' k = .eq
  · -- The order does not tell the keys apart, so the write is what is found.
    have hself := find?_insert_self t k v
    unfold find? at h hself
    rw [findIn?_congr hc, hself] at h
    exact Or.inl (Option.some.inj h).symm
  · rw [find?_insert_of_ne t v hc] at h
    exact Or.inr h

/-- A write under a key that is not there leaves every value that is there. -/
theorem find?_insert_of_find? (t : Table κ ν) (k k' : κ) (v w : ν) (hk : t.find? k = none)
    (h : t.find? k' = some w) : (t.insert k v).find? k' = some w := by
  rw [find?_insert_of_ne t v, h]
  intro hc
  unfold find? at h hk
  rw [findIn?_congr hc, hk] at h
  cases h

/-- A write takes no key away. -/
theorem contains_insert_of_contains (t : Table κ ν) (k : κ) (v : ν) {k' : κ}
    (h : t.contains k' = true) : (t.insert k v).contains k' = true := by
  by_cases hc : compare k' k = .eq
  · have hself := find?_insert_self t k v
    unfold find? at hself
    rw [contains, find?, findIn?_congr hc, hself]
    rfl
  · rw [contains, find?_insert_of_ne t v hc]
    exact h

omit [Std.TransOrd κ] in
theorem entries_injective {t u : Table κ ν} (h : t.entries = u.entries) : t = u := by
  cases t
  cases u
  cases h
  rfl

omit [Std.TransOrd κ] in
theorem findIn?_eq_none {k : κ} {es : List (κ × ν)} (h : ∀ e ∈ es, compare k e.1 = .lt) :
    findIn? k es = none := by
  induction es with
  | nil => rfl
  | cons e es ih =>
      have hlt := h e List.mem_cons_self
      rw [findIn?, hlt, if_neg (by decide)]
      exact ih fun x hx => h x (List.mem_cons_of_mem _ hx)

theorem insertEntry_of_findIn? {k : κ} {v : ν} {es : List (κ × ν)}
    (hsorted : es.Pairwise fun a b => compare a.1 b.1 = .lt) (h : findIn? k es = some v) :
    insertEntry k v es = es := by
  induction es with
  | nil => cases h
  | cons e rest ih =>
      rcases List.pairwise_cons.1 hsorted with ⟨hlt, hrest⟩
      simp only [findIn?] at h
      simp only [insertEntry]
      -- The key is this one, or it lies above it.
      cases hc : compare k e.1 with
      | eq =>
          rw [if_pos hc] at h
          cases h
          rfl
      | gt =>
          rw [hc, if_neg (by decide)] at h
          simp only [ih hrest h]
      | lt =>
          -- The key would lie below all the others, so it is not among them.
          rw [hc, if_neg (by decide),
            findIn?_eq_none fun x hx => Std.TransCmp.lt_trans hc (hlt x hx)] at h
          cases h

/-- Writing what is there under a key changes nothing. -/
theorem insert_of_find? {t : Table κ ν} {k : κ} {v : ν} (h : t.find? k = some v) :
    t.insert k v = t :=
  entries_injective (insertEntry_of_findIn? t.sorted h)

theorem insertEntry_of_lt {k : κ} (v : ν) {es : List (κ × ν)}
    (h : ∀ e ∈ es, compare e.1 k = .lt) : insertEntry k v es = es ++ [(k, v)] := by
  induction es with
  | nil => rfl
  | cons e rest ih =>
      have hgt : compare k e.1 = .gt := Std.OrientedCmp.gt_of_lt (h e List.mem_cons_self)
      have hrest := ih fun x hx => h x (List.mem_cons_of_mem _ hx)
      simp only [insertEntry, hgt, hrest, List.cons_append]

theorem entries_foldl_insert (es : List (κ × ν)) (t : Table κ ν)
    (h : (t.entries ++ es).Pairwise fun a b => compare a.1 b.1 = .lt) :
    (es.foldl (fun t e => t.insert e.1 e.2) t).entries = t.entries ++ es := by
  induction es generalizing t with
  | nil => simp only [List.foldl_nil, List.append_nil]
  | cons e es ih =>
      -- The next key lies above all that are there, so its entry goes to the end.
      have hlt : ∀ x ∈ t.entries, compare x.1 e.1 = .lt := fun x hx =>
        (List.pairwise_append.1 h).2.2 x hx e List.mem_cons_self
      have hentries : (t.insert e.1 e.2).entries = t.entries ++ [e] := insertEntry_of_lt e.2 hlt
      have happend : t.entries ++ e :: es = (t.insert e.1 e.2).entries ++ es := by
        rw [hentries, List.append_assoc, List.singleton_append]
      rw [List.foldl_cons, happend]
      exact ih _ (happend ▸ h)

/-- A table is made from its own entries. -/
theorem ofList_entries (t : Table κ ν) : ofList t.entries = t :=
  entries_injective (entries_foldl_insert t.entries empty t.sorted)

variable [Std.LawfulEqOrd κ] [DecidableEq κ]

theorem find?_insert (t : Table κ ν) (k k' : κ) (v : ν) :
    (t.insert k v).find? k' = if k' = k then some v else t.find? k' := by
  by_cases h : k' = k
  · rw [if_pos h, h, find?_insert_self]
  · rw [if_neg h]
    exact find?_insert_of_ne t v (fun hc => h (Std.LawfulEqCmp.eq_of_compare hc))

theorem contains_insert (t : Table κ ν) (k k' : κ) (v : ν) :
    (t.insert k v).contains k' = true ↔ k' = k ∨ t.contains k' = true := by
  unfold contains
  rw [find?_insert]
  by_cases h : k' = k
  · simp only [h, if_true, Option.isSome_some, true_or]
  · simp only [h, if_false, false_or]

end Laws

end Table

end DocModel
