import DocModel.Json.Fields

/-!
# Reading back what was written

A record is written as fields, one writer behind the other, and read by key. What a reader finds
under a key is what the writers of that key have left there, and the others are not seen. So it is
enough to know each pair of a writer and a reader: a field that is left out where it carries nothing
is read as nothing, and as nothing else.

A reader goes through all fields for each key. The lemmas are made to be used in this way: the
fields of an object are kept as a variable (`read_object`), those under a key are taken out of the
writers (`Fields.under_append` and its companions), and what is left is a single writer, for which
there is a lemma (`Fields.required?_of_under` and those behind it).

Values that hold others are read with a bound on the nesting. `Fields.Holds` says that a value
stands somewhere in some fields, and is nested less deeply than the object they make.

## Main definitions

* `Json.Fields.under`: The fields under a key.
* `Json.Fields.sole`: What there is, if there is at most one field.
* `Json.Fields.Holds`: A value stands in some fields.

## Theorems

* `Json.Fields.required?_eq`, `Json.Fields.optional?_eq`, `Json.Fields.default?_eq`: Reading under a
  key.
* `Json.Fields.optionally_map`, `Json.mapM_map`: Options and lists are read back.
* `Json.Fields.required?_of_under`, `Json.Fields.optional?_of_present` and the like: A field is read
  back from what was written.
* `Json.Fields.Holds.depth_lt`: What stands in the fields of an object is nested less deeply.
-/

namespace DocModel.Json

variable {α β : Type}

namespace Fields

/-- The fields under a key. -/
def under (fs : Fields) (key : String) : Fields := fs.filter (·.1.text == key)

/-- What there is, if there is at most one field. -/
def sole : Fields → Option (Option Json)
  | [] => some none
  | [(_, j)] => some (some j)
  | _ => none

/-- Reads a value that may be missing or null. -/
def optionally (read : Json → Option α) : Option Json → Option (Option α)
  | none => some none
  | some null => some none
  | some j => (read j).map some

@[simp]
theorem under_nil (key : String) : under [] key = [] := rfl

@[simp]
theorem under_append (fs gs : Fields) (key : String) :
    under (fs ++ gs) key = under fs key ++ under gs key :=
  List.filter_append fs gs

@[simp]
theorem under_always (k key : String) (j : Json) :
    under (always k j) key = if k = key then always k j else [] := by
  by_cases h : k = key <;> simp [always, under, h]

@[simp]
theorem under_present (k key : String) (o : Option Json) :
    under (present k o) key = if k = key then present k o else [] := by
  cases o with
  | none => simp [present]
  | some j => exact under_always k key j

@[simp]
theorem under_nonempty (k key : String) (js : List Json) :
    under (nonempty k js) key = if k = key then nonempty k js else [] := by
  cases js with
  | nil => simp [nonempty]
  | cons j js => exact under_always k key _

@[simp]
theorem under_flag (k key : String) (b : Bool) :
    under (flag k b) key = if k = key then flag k b else [] := by
  cases b with
  | false => simp [flag]
  | true => exact under_always k key _

@[simp]
theorem sole_always (k : String) (j : Json) : sole (always k j) = some (some j) := rfl

@[simp]
theorem sole_present (k : String) (o : Option Json) : sole (present k o) = some o := by
  cases o <;> rfl

@[simp]
theorem sole_nonempty (k : String) (js : List Json) :
    sole (nonempty k js) = some (if js = [] then none else some (array js)) := by
  cases js <;> rfl

@[simp]
theorem sole_flag (k : String) (b : Bool) :
    sole (flag k b) = some (if b = true then some (bool true) else none) := by
  cases b <;> rfl

theorem single?_eq (fs : Fields) (key : String) : fs.single? key = sole (under fs key) := rfl

/-- A field that must be there. -/
@[simp]
theorem required?_eq (fs : Fields) (key : String) (read : Json → Option α) :
    fs.required? key read = (sole (under fs key)).join.bind read := by
  rw [required?, single?_eq]
  cases sole (under fs key) with
  | none => rfl
  | some o => cases o <;> rfl

/-- A field that may be missing or null. -/
@[simp]
theorem optional?_eq (fs : Fields) (key : String) (read : Json → Option α) :
    fs.optional? key read = (sole (under fs key)).bind (optionally read) := by
  rw [optional?, single?_eq]
  cases sole (under fs key) with
  | none => rfl
  | some o =>
      cases o with
      | none => rfl
      | some j => cases j <;> rfl

/-- A field that stands for something where it is missing. -/
@[simp]
theorem default?_eq (fs : Fields) (key : String) (fallback : α) (read : Json → Option α) :
    fs.default? key fallback read =
      (sole (under fs key)).bind fun o => o.elim (some fallback) read := by
  rw [default?, single?_eq]
  cases sole (under fs key) with
  | none => rfl
  | some o => cases o <;> rfl

/-- An option is read back, if its value is and is not written as null. -/
@[simp]
theorem optionally_map {read : Json → Option α} {write : α → Json} {o : Option α}
    (hread : ∀ a, o = some a → read (write a) = some a) (hnull : ∀ a, write a ≠ null) :
    optionally read (o.map write) = some o := by
  cases o with
  | none => rfl
  | some a =>
      have ha := hread a rfl
      -- What is written is not null, so it is read as a value.
      have hsome : optionally read (some (write a)) = (read (write a)).map some := by
        cases hw : write a with
        | null => exact absurd hw (hnull a)
        | _ => rfl
      rw [Option.map_some, hsome, ha]
      rfl

end Fields

@[simp]
theorem fields?_object (fs : Fields) : fields? (object fs) = some fs := rfl

@[simp]
theorem text?_string (s : String) : text? (string s) = some s := by
  simp only [text?]

@[simp]
theorem variant?_string (reading : Reading) (s : String) : variant? reading (string s) = some s :=
  rfl

@[simp]
theorem tag?_string (reading : Reading) (names : List String) (s : String) :
    tag? reading names (string s) = some s := rfl

/-- A number of 32 bits is read back. -/
theorem word?_ofNat {n : Nat} (h : n < twoTo 32) : word? (ofNat n) = some n := by
  have hbound : (0 ≤ (n : Int) && (n : Int) < twoTo 32) = true := by
    rw [Bool.and_eq_true, decide_eq_true_eq, decide_eq_true_eq]
    omega
  simp only [ofNat, word?, hbound, if_true, Int.toNat_natCast]

/-- A list is read back, if its items are. -/
@[simp]
theorem mapM_map {read : β → Option α} {write : α → β} {as : List α}
    (h : ∀ a ∈ as, read (write a) = some a) : (as.map write).mapM read = some as := by
  induction as with
  | nil => rfl
  | cons a as ih =>
      have hfirst := h a List.mem_cons_self
      have hrest := ih fun b hb => h b (List.mem_cons_of_mem _ hb)
      simp only [List.map_cons, List.mapM_cons, hfirst, hrest, Option.bind_eq_bind,
        Option.bind_some, Option.pure_def]

@[simp]
theorem listOf?_array {read : Json → Option α} {write : α → Json} {as : List α}
    (h : ∀ a ∈ as, read (write a) = some a) : listOf? read (array (as.map write)) = some as :=
  mapM_map h

/-- A list of texts is read back. -/
@[simp]
theorem listOf?_ofStrings (ss : List String) : listOf? text? (ofStrings ss) = some ss :=
  listOf?_array fun _ _ => rfl

section Readers

variable {fs : Fields} {key : String} {read : Json → Option α} {write : α → Json} {j : Json}

/-- The fields of an object are read, whatever they are. They are kept as a variable, so that
    looking one up does not unfold all of them. -/
theorem read_object {f : Fields → Option α} {gs : Fields} {a : α}
    (h : ∀ fs, fs = gs → f fs = some a) : (fields? (object gs) >>= f) = some a :=
  h gs rfl

/-- A field that is always written is read back, if its value is. -/
theorem Fields.required?_of_under {a : α} (hfs : fs.under key = always key j)
    (hread : read j = some a) : fs.required? key read = some a := by
  rw [required?_eq, hfs, sole_always]
  exact hread

/-- So it is where the field could be missing. -/
theorem Fields.default?_of_under {fallback a : α} (hfs : fs.under key = always key j)
    (hread : read j = some a) : fs.default? key fallback read = some a := by
  rw [default?_eq, hfs, sole_always]
  exact hread

/-- A field that may hold null is read back, if it is always written. -/
theorem Fields.optional?_of_under {o : Option α} (hfs : fs.under key = always key j)
    (hread : optionally read (some j) = some o) : fs.optional? key read = some o := by
  rw [optional?_eq, hfs, sole_always]
  exact hread

/-- A field that is left out where there is nothing is read back, if its value is. -/
theorem Fields.optional?_of_present {o : Option α} (hfs : fs.under key = present key (o.map write))
    (hread : ∀ a, o = some a → read (write a) = some a) (hnull : ∀ a, write a ≠ null) :
    fs.optional? key read = some o := by
  rw [optional?_eq, hfs, sole_present]
  exact optionally_map hread hnull

/-- A text that is left out where there is none is read back. -/
theorem Fields.optional?_of_text {o : Option String}
    (hfs : fs.under key = present key (o.map string)) : fs.optional? key text? = some o :=
  optional?_of_present hfs (fun _ _ => rfl) fun _ => Json.noConfusion

/-- A list that is left out where it is empty is read back, if its items are. -/
theorem Fields.default?_of_nonempty {as : List α} (hfs : fs.under key = nonempty key (as.map write))
    (hread : ∀ a ∈ as, read (write a) = some a) :
    fs.default? key [] (listOf? read) = some as := by
  rw [default?_eq, hfs, sole_nonempty]
  cases as with
  | nil => rfl
  | cons a as => exact listOf?_array hread

/-- A flag that is left out where it is not set is read back. -/
theorem Fields.default?_of_flag {b : Bool} (hfs : fs.under key = flag key b) :
    fs.default? key false bool? = some b := by
  rw [default?_eq, hfs, sole_flag]
  cases b <;> rfl

end Readers

/-- An item is nested no more deeply than the list it is in. -/
theorem depth_le_depthItems {j : Json} {js : List Json} (h : j ∈ js) :
    j.depth ≤ depthItems js := by
  induction js with
  | nil => exact absurd h List.not_mem_nil
  | cons j' js ih =>
      rw [depthItems]
      rcases List.mem_cons.1 h with rfl | h
      · exact Nat.le_max_left _ _
      · exact Nat.le_trans (ih h) (Nat.le_max_right _ _)

/-- So it is with the value of a field. -/
theorem depth_le_depthFields {e : Key × Json} {fs : Fields} (h : e ∈ fs) :
    e.2.depth ≤ depthFields fs := by
  induction fs with
  | nil => exact absurd h List.not_mem_nil
  | cons e' fs ih =>
      rw [depthFields]
      rcases List.mem_cons.1 h with rfl | h
      · exact Nat.le_max_left _ _
      · exact Nat.le_trans (ih h) (Nat.le_max_right _ _)

/-- The items of an array are nested less deeply. -/
theorem depth_lt_array {j : Json} {js : List Json} (h : j ∈ js) : j.depth < (array js).depth := by
  have hle := depth_le_depthItems h
  rw [depth]
  omega

/-- What stands in records that are the items of an array is nested less deeply than the array. -/
theorem depth_lt_records {write : α → Json} {parts : α → List Json} {as : List α}
    (h : ∀ a ∈ as, ∀ j ∈ parts a, j.depth < (write a).depth) {j : Json}
    (hj : j ∈ as.flatMap parts) : j.depth < (array (as.map write)).depth := by
  rcases List.mem_flatMap.1 hj with ⟨a, ha, hja⟩
  exact Nat.lt_trans (h a ha j hja) (depth_lt_array (List.mem_map_of_mem ha))

namespace Fields

/-- A value stands in one of the fields, or could as far as its nesting goes. -/
def Holds (fs : Fields) (j : Json) : Prop := ∃ e ∈ fs, j.depth ≤ e.2.depth

/-- What stands in the fields of an object is nested less deeply. -/
theorem Holds.depth_lt {fs : Fields} {j : Json} (h : fs.Holds j) : j.depth < (object fs).depth := by
  rcases h with ⟨e, he, hle⟩
  have hfields := depth_le_depthFields he
  rw [depth]
  omega

@[simp]
theorem holds_append (fs gs : Fields) (j : Json) :
    Holds (fs ++ gs) j ↔ Holds fs j ∨ Holds gs j := by
  simp only [Holds, List.mem_append, or_and_right, exists_or]

@[simp]
theorem holds_always (k : String) (v j : Json) : Holds (always k v) j ↔ j.depth ≤ v.depth := by
  simp only [Holds, always, List.mem_singleton, exists_eq_left]

/-- An optional field holds its value where there is one. -/
theorem holds_present {k : String} {o : Option Json} {j : Json} (h : o = some j) :
    Holds (present k o) j := by
  rw [h]
  exact (holds_always k j j).2 (Nat.le_refl _)

/-- A list that is written holds what is nested no more deeply than it is. -/
theorem holds_nonempty {k : String} {js : List Json} {j : Json} (hjs : js ≠ [])
    (hj : j.depth ≤ (array js).depth) : Holds (nonempty k js) j := by
  cases js with
  | nil => exact absurd rfl hjs
  | cons j' js => exact (holds_always k _ j).2 hj

/-- What stands in records stands in the field that lists them. -/
theorem holds_records {k : String} {write : α → Json} {parts : α → List Json} {as : List α}
    (h : ∀ a ∈ as, ∀ j ∈ parts a, j.depth < (write a).depth) {j : Json}
    (hj : j ∈ as.flatMap parts) : Holds (nonempty k (as.map write)) j := by
  refine holds_nonempty ?_ (Nat.le_of_lt (depth_lt_records h hj))
  -- The field is left out where there is nothing to list, and then there is nothing in it.
  intro hnil
  rw [List.map_eq_nil_iff] at hnil
  rw [hnil] at hj
  exact absurd hj List.not_mem_nil

end Fields

end DocModel.Json
