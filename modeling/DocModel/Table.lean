/-!
# Ordered tables

A table is a finite map kept as a list of entries in ascending key order. Two keys are the same when
the order says so, which may be coarser than equality: a path written in two ways is one key.
Writing under a key that is present keeps the spelling that came first and replaces the value. The
order is part of the type, so that two tables with the same keys and values are the same table and
a listing needs no sorting.

## Main definitions

* `Table`: Entries in strictly ascending key order.
* `Table.find?`: The value under a key.
* `Table.insert`: Writing a value under a key.
* `Table.ofList`: A table from entries in any order, later entries winning.

## Theorems

* `Table.find?_insert_self`: A written value is found.
* `Table.find?_insert_of_ne`: Other keys are not disturbed.
-/

namespace DocModel

/-- A finite map with its entries in strictly ascending key order. -/
structure Table (κ : Type) [Ord κ] (ν : Type) where
  /-- The entries, smallest key first. -/
  entries : List (κ × ν)
  /-- Each key lies below all the keys after it. -/
  sorted : entries.Pairwise (fun a b => compare a.1 b.1 = .lt) := by exact List.Pairwise.nil

namespace Table

variable {κ ν : Type} [Ord κ]

/-- The table without entries. -/
def empty : Table κ ν := { entries := [] }

instance : EmptyCollection (Table κ ν) := ⟨empty⟩

instance : Inhabited (Table κ ν) := ⟨empty⟩

instance [DecidableEq κ] [DecidableEq ν] : DecidableEq (Table κ ν) := fun a b =>
  match a, b with
  | ⟨xs, _⟩, ⟨ys, _⟩ =>
    if h : xs = ys then isTrue (by subst h; rfl) else isFalse (fun e => h (congrArg entries e))

/-- The number of entries. -/
def size (t : Table κ ν) : Nat := t.entries.length

/-- Whether there is no entry. -/
def isEmpty (t : Table κ ν) : Bool := t.entries.isEmpty

/-- The keys, in ascending order. -/
def keys (t : Table κ ν) : List κ := t.entries.map (·.1)

/-- The first value whose key the order does not tell from `k`. -/
def findIn? (k : κ) : List (κ × ν) → Option ν
  | [] => none
  | (k', v) :: rest => if compare k k' = .eq then some v else findIn? k rest

/-- The value under a key. -/
def find? (t : Table κ ν) (k : κ) : Option ν := findIn? k t.entries

/-- Whether the key has a value. -/
def contains (t : Table κ ν) (k : κ) : Bool := (t.find? k).isSome

/-- Writes a value at its place in an ascending list; a key that is there keeps its spelling. -/
def insertEntry (k : κ) (v : ν) : List (κ × ν) → List (κ × ν)
  | [] => [(k, v)]
  | (k', v') :: rest =>
    match compare k k' with
    | .lt => (k, v) :: (k', v') :: rest
    | .eq => (k', v) :: rest
    | .gt => (k', v') :: insertEntry k v rest

theorem lt_of_mem_insertEntry {b k : κ} {v : ν} {es : List (κ × ν)}
    (hb : ∀ e ∈ es, compare b e.1 = .lt) (hk : compare b k = .lt) :
    ∀ e ∈ insertEntry k v es, compare b e.1 = .lt := by
  induction es with
  | nil => intro e he; simp [insertEntry] at he; simpa [he] using hk
  | cons e' rest ih =>
      intro e he
      have hrest : ∀ x ∈ rest, compare b x.1 = .lt := fun x hx => hb x (List.mem_cons_of_mem _ hx)
      have hhead := hb e' List.mem_cons_self
      simp only [insertEntry] at he
      split at he
      · rcases List.mem_cons.1 he with rfl | he
        · exact hk
        · exact hb e he
      · rcases List.mem_cons.1 he with rfl | he
        · exact hhead
        · exact hrest e he
      · rcases List.mem_cons.1 he with rfl | he
        · exact hhead
        · exact ih hrest e he

section Laws

variable [Std.TransOrd κ]

/-- Writing keeps the keys in ascending order. -/
theorem sorted_insertEntry {k : κ} {v : ν} {es : List (κ × ν)}
    (h : es.Pairwise (fun a b => compare a.1 b.1 = .lt)) :
    (insertEntry k v es).Pairwise (fun a b => compare a.1 b.1 = .lt) := by
  induction es with
  | nil => simp [insertEntry]
  | cons e rest ih =>
      rcases List.pairwise_cons.1 h with ⟨hlt, hrest⟩
      simp only [insertEntry]
      split
      · rename_i hc
        refine List.pairwise_cons.2 ⟨?_, h⟩
        intro x hx
        rcases List.mem_cons.1 hx with rfl | hx
        · exact hc
        · exact Std.TransCmp.lt_trans hc (hlt x hx)
      · exact List.pairwise_cons.2 ⟨hlt, hrest⟩
      · rename_i hc
        refine List.pairwise_cons.2 ⟨?_, ih hrest⟩
        exact lt_of_mem_insertEntry hlt (Std.OrientedCmp.lt_of_gt hc)

/-- Writes a value under a key. A key that is present keeps its spelling. -/
def insert (t : Table κ ν) (k : κ) (v : ν) : Table κ ν :=
  { entries := insertEntry k v t.entries, sorted := sorted_insertEntry t.sorted }

/-- The table of a list of entries, written one after the other. -/
def ofList (es : List (κ × ν)) : Table κ ν :=
  es.foldl (fun t e => t.insert e.1 e.2) empty

theorem findIn?_insertEntry_self (k : κ) (v : ν) (es : List (κ × ν)) :
    findIn? k (insertEntry k v es) = some v := by
  induction es with
  | nil => simp [insertEntry, findIn?]
  | cons e rest ih =>
      simp only [insertEntry]
      split
      · simp [findIn?]
      · rename_i hc; simp [findIn?, hc]
      · rename_i hc; simp [findIn?, hc, ih]

theorem findIn?_insertEntry_of_ne {k k' : κ} (v : ν) (es : List (κ × ν))
    (h : compare k' k ≠ .eq) : findIn? k' (insertEntry k v es) = findIn? k' es := by
  induction es with
  | nil => simp [insertEntry, findIn?, h]
  | cons e rest ih =>
      simp only [insertEntry]
      split
      · simp [findIn?, h]
      · rename_i hc
        have : compare k' e.1 ≠ .eq := by
          intro he
          exact h (Std.TransCmp.eq_trans he (Std.OrientedCmp.eq_symm hc))
        simp [findIn?, this]
      · simp [findIn?, ih]

/-- What was written under a key is found under it. -/
@[simp]
theorem find?_insert_self (t : Table κ ν) (k : κ) (v : ν) : (t.insert k v).find? k = some v :=
  findIn?_insertEntry_self k v t.entries

/-- Writing under one key leaves the others as they were. -/
theorem find?_insert_of_ne (t : Table κ ν) {k k' : κ} (v : ν) (h : compare k' k ≠ .eq) :
    (t.insert k v).find? k' = t.find? k' :=
  findIn?_insertEntry_of_ne v t.entries h

end Laws

end Table

end DocModel
