import DocModel.Proofs.Unions

/-!
# The union of a list of types

What the union of a list is, said without the way it is computed. The unions in the list are opened
up, one level deep, and the members of the result are the members that are found there: each of them
once, in the order of their first occurrence. If both boolean literals are found, they are left out
and a `boolean` stands for them. A `boolean` that was found itself stays where it is, and otherwise
one is put where the first of the two literals was.

`CanonicalMembers` says this of two lists, and there is at most one list of members for which it
holds: it gives the members as a set, and the place of each. The rest follows from it. A union that
is made of nothing but a union is that union again, and the order of a list only decides about the
order of the members.

## Main definitions

* `Ty.firstPlace`: Where a member of a union comes from.
* `Ty.CanonicalMembers`: The members of the union of a list.

## Theorems

* `Ty.pairwise_distinct`: What is left of a list stands in the order of first occurrences.
* `Ty.mergeBooleans_eq`: Where `boolean` is put.
* `Ty.canonicalMembers_mergeBooleans`: The members are as stated.
* `Ty.CanonicalMembers.eq`: There are no others of which it could be said.
* `Ty.union_singleton_union`, `Ty.perm_members_union`: Unions of unions, and of permuted lists.
* `Ty.union_canonical`: The union of a list of types.
-/

namespace DocModel.Ty

/-- Where a member of the union comes from: its first occurrence, or the first of the two literals
    that it stands for. -/
def firstPlace (found : List Ty) (t : Ty) : Nat :=
  if t = boolean ∧ boolean ∉ found then min (found.idxOf boolTrue) (found.idxOf boolFalse)
  else found.idxOf t

/-- The members of the union of what was found. -/
structure CanonicalMembers (found ms : List Ty) : Prop where
  nodup : ms.Nodup
  booleans : ¬ (boolTrue ∈ ms ∧ boolFalse ∈ ms)
  /-- Without both literals, the members are what was found. -/
  mem : ¬ (boolTrue ∈ found ∧ boolFalse ∈ found) → ∀ t, t ∈ ms ↔ t ∈ found
  /-- With both literals, they are replaced by `boolean`. -/
  mem_merged : boolTrue ∈ found ∧ boolFalse ∈ found →
    ∀ t, t ∈ ms ↔ t = boolean ∨ t ∈ found ∧ t ≠ boolTrue ∧ t ≠ boolFalse
  order : ms.Pairwise fun t u => firstPlace found t < firstPlace found u

variable {t : Ty} {ts us found : List Ty}

/-- What comes last is added if it is new. -/
theorem distinct_append_singleton (ts : List Ty) (t : Ty) :
    distinct (ts ++ [t]) = addNew (distinct ts) t := by
  rw [distinct, List.foldl_append]
  rfl

/-- What is left of a list stands in the order of first occurrences. -/
theorem pairwise_distinct (ts : List Ty) :
    (distinct ts).Pairwise fun t u => ts.idxOf t < ts.idxOf u := by
  -- Whatever comes last is new or changes nothing, and all the other places stay.
  induction ts using List.reverseRecOn with
  | nil => exact List.Pairwise.nil
  | append_singleton ts t ih =>
      have hold : (distinct ts).Pairwise fun u v =>
          (ts ++ [t]).idxOf u < (ts ++ [t]).idxOf v := by
        refine ih.imp_of_mem fun {u v} hu hv huv => ?_
        rw [List.idxOf_append_of_mem (mem_distinct.1 hu),
          List.idxOf_append_of_mem (mem_distinct.1 hv)]
        exact huv
      rw [distinct_append_singleton, addNew]
      split
      · exact hold
      · rename_i hnew
        refine List.pairwise_append.2 ⟨hold, List.pairwise_singleton _ _, fun u hu v hv => ?_⟩
        rw [mem_distinct] at hu hnew
        rw [List.mem_singleton.1 hv, List.idxOf_append_of_mem hu,
          List.idxOf_append_of_notMem hnew]
        exact Nat.lt_add_right _ (List.idxOf_lt_length_of_mem hu)

/-- The type is one of the two boolean literals. -/
def isBoolLiteral (t : Ty) : Bool := t == boolTrue || t == boolFalse

/-- The first occurrence is behind what does not contain it. -/
theorem findIdx?_append_cons {before after : List Ty} (h : t ∉ before) :
    (before ++ t :: after).findIdx? (· == t) = some before.length := by
  rw [List.findIdx?_append, List.findIdx?_eq_none_iff.2 fun u hu => by
    rw [beq_eq_false_iff_ne]
    rintro rfl
    exact h hu]
  simp only [List.findIdx?_cons, beq_self_eq_true, if_true, Option.map_some, Option.none_or,
    Nat.zero_add]

/-- What does not occur up to a place occurs behind it. -/
theorem lt_findIdx?_of_append {before after : List Ty} {u : Ty} {i : Nat} (hu : t ∉ before)
    (hne : t ≠ u) (h : (before ++ u :: after).findIdx? (· == t) = some i) : before.length < i := by
  by_contra hle
  rw [List.findIdx?_eq_some_iff_getElem] at h
  rcases h with ⟨hlen, hi, _⟩
  rw [beq_iff_eq] at hi
  -- At an earlier place it would be in the first part, and at the place itself it would be the
  -- other type.
  rcases Nat.lt_or_eq_of_le (Nat.not_lt.1 hle) with hlt | rfl
  · rw [List.getElem_append_left hlt] at hi
    exact hu (hi ▸ List.getElem_mem hlt)
  · rw [List.getElem_append_right (Nat.le_refl _)] at hi
    simp only [Nat.sub_self, List.getElem_cons_zero] at hi
    exact hne hi.symm

/-- A new `boolean` is put where the first of the two literals was. -/
theorem mergeBooleans_eq (h : boolTrue ∈ ts ∧ boolFalse ∈ ts) (hnew : boolean ∉ ts) :
    ∃ before t after, ts = before ++ t :: after ∧ isBoolLiteral t = true ∧
      (∀ u ∈ before, isBoolLiteral u = false) ∧
      mergeBooleans ts = before ++ boolean :: after.filter (!isBoolLiteral ·) := by
  rcases Option.isSome_iff_exists.1 (findIdx?_literal_isSome.2 h.1) with ⟨i, hi⟩
  rcases Option.isSome_iff_exists.1 (findIdx?_literal_isSome.2 h.2) with ⟨j, hj⟩
  -- The list is cut at the first of the two literals.
  have hsome : (ts.find? isBoolLiteral).isSome = true := by
    rw [List.find?_isSome]
    exact ⟨boolTrue, h.1, rfl⟩
  rcases Option.isSome_iff_exists.1 hsome with ⟨t, ht⟩
  rcases List.find?_eq_some_iff_append.1 ht with ⟨hlit, before, after, rfl, hbefore⟩
  have hno : ∀ u ∈ before, isBoolLiteral u = false := fun u hu => by
    simpa only [Bool.not_eq_true'] using hbefore u hu
  refine ⟨before, t, after, rfl, hlit, hno, ?_⟩
  -- Without the literals, the first part stays whole.
  have hrest : (before ++ t :: after).filter (fun t => t != boolTrue && t != boolFalse) =
      before ++ after.filter (!isBoolLiteral ·) := by
    have hpred : (fun t : Ty => t != boolTrue && t != boolFalse) = (!isBoolLiteral ·) := by
      funext t
      simp only [isBoolLiteral, Bool.not_or, bne]
    rw [hpred, List.filter_append, List.filter_cons_of_neg (by simp only [hlit, Bool.not_true,
      Bool.false_eq_true, not_false_eq_true]), List.filter_eq_self.2 hbefore]
  have htrue : boolTrue ∉ before := fun hm => absurd (hno _ hm) (by decide)
  have hfalse : boolFalse ∉ before := fun hm => absurd (hno _ hm) (by decide)
  -- The first of the two literals is the one that was found, and the other comes later.
  have hplace : min i j = before.length := by
    have hcase : t = boolTrue ∨ t = boolFalse := by
      simpa only [isBoolLiteral, Bool.or_eq_true, beq_iff_eq] using hlit
    rcases hcase with rfl | rfl
    · rw [findIdx?_append_cons htrue, Option.some.injEq] at hi
      have := lt_findIdx?_of_append hfalse (by decide) hj
      omega
    · rw [findIdx?_append_cons hfalse, Option.some.injEq] at hj
      have := lt_findIdx?_of_append htrue (by decide) hi
      omega
  have habsent : boolean ∉ before ++ after.filter (!isBoolLiteral ·) := by
    rw [← hrest]
    exact fun hm => hnew (List.mem_filter.1 hm).1
  simp only [mergeBooleans, hi, hj, hrest, if_neg habsent, hplace]
  rw [Nat.min_eq_left (by rw [List.length_append]; omega), List.take_left, List.drop_left]

/-- A `boolean` that is there already stays where it is, and the literals are left out. -/
theorem mergeBooleans_sublist (h : boolean ∈ ts) : (mergeBooleans ts).Sublist ts := by
  unfold mergeBooleans
  split
  · simp only []
    rw [if_pos (List.mem_filter.2 ⟨h, by decide⟩)]
    exact List.filter_sublist
  · exact List.Sublist.refl ts

/-- What was found itself stays where it is. -/
theorem firstPlace_of_mem (h : t ∈ found) : firstPlace found t = found.idxOf t := by
  rw [firstPlace, if_neg]
  rintro ⟨rfl, hnot⟩
  exact hnot h

/-- A new `boolean` has the place of the literal that comes first. -/
theorem firstPlace_boolean {before after : List Ty} (hnew : boolean ∉ found)
    (hsplit : distinct found = before ++ t :: after) (hlit : isBoolLiteral t = true)
    (hbefore : ∀ u ∈ before, isBoolLiteral u = false)
    (hboth : boolTrue ∈ found ∧ boolFalse ∈ found) :
    firstPlace found boolean = found.idxOf t := by
  -- The other literal is among what comes after, so it occurs later.
  have hlater : ∀ u ∈ found, isBoolLiteral u = true → u = t ∨ found.idxOf t < found.idxOf u := by
    intro u hu hul
    rw [← mem_distinct, hsplit, List.mem_append, List.mem_cons] at hu
    have hpair := pairwise_distinct found
    rw [hsplit] at hpair
    rcases hu with hu | hu | hu
    · exact absurd (hbefore u hu) (by rw [hul]; exact Bool.true_eq_false_eq_False)
    · exact Or.inl hu
    · exact Or.inr ((List.pairwise_cons.1 (List.pairwise_append.1 hpair).2.1).1 u hu)
  have htrue := hlater boolTrue hboth.1 rfl
  have hfalse := hlater boolFalse hboth.2 rfl
  rw [firstPlace, if_pos ⟨rfl, hnew⟩]
  have hcase : t = boolTrue ∨ t = boolFalse := by
    simpa only [isBoolLiteral, Bool.or_eq_true, beq_iff_eq] using hlit
  rcases hcase with rfl | rfl
  · exact Nat.min_eq_left (hfalse.elim (fun h => by rw [h]) Nat.le_of_lt)
  · exact Nat.min_eq_right (htrue.elim (fun h => by rw [h]) Nat.le_of_lt)

/-- Members stand in the order of their first occurrence, and a new `boolean` where the first of the
    two literals was. -/
theorem pairwise_mergeBooleans (found : List Ty) :
    (mergeBooleans (distinct found)).Pairwise fun t u =>
      firstPlace found t < firstPlace found u := by
  have hfound : (distinct found).Pairwise fun t u => firstPlace found t < firstPlace found u :=
    (pairwise_distinct found).imp_of_mem fun ht hu htu => by
      rwa [firstPlace_of_mem (mem_distinct.1 ht), firstPlace_of_mem (mem_distinct.1 hu)]
  -- A `boolean` that was found needs no new place, and what is left stands in the old order.
  by_cases hbool : boolean ∈ distinct found
  · exact hfound.sublist (mergeBooleans_sublist hbool)
  · by_cases hboth : boolTrue ∈ distinct found ∧ boolFalse ∈ distinct found
    · rcases mergeBooleans_eq hboth hbool with ⟨before, t, after, hsplit, hlit, hbefore, heq⟩
      simp only [mem_distinct] at hbool hboth
      have hmem : t ∈ found := by
        rw [← mem_distinct, hsplit]
        exact List.mem_append_right _ List.mem_cons_self
      have hplace : firstPlace found boolean = firstPlace found t := by
        rw [firstPlace_boolean hbool hsplit hlit hbefore hboth, firstPlace_of_mem hmem]
      -- The `boolean` takes the place of the literal, and the rest is a part of what was there.
      rw [hsplit, List.pairwise_append, List.pairwise_cons] at hfound
      rcases hfound with ⟨hb, ⟨ht, ha⟩, hcross⟩
      rw [heq, List.pairwise_append, List.pairwise_cons]
      refine ⟨hb, ⟨fun u hu => ?_, ha.sublist List.filter_sublist⟩, fun u hu v hv => ?_⟩
      · rw [hplace]
        exact ht u (List.mem_filter.1 hu).1
      · rcases List.mem_cons.1 hv with rfl | hv
        · rw [hplace]
          exact hcross u hu t List.mem_cons_self
        · exact hcross u hu v (List.mem_cons_of_mem _ (List.mem_filter.1 hv).1)
    · rw [mergeBooleans_of_not_both hboth]
      exact hfound

/-- The members that are computed are as stated. -/
theorem canonicalMembers_mergeBooleans (found : List Ty) :
    CanonicalMembers found (mergeBooleans (distinct found)) where
  nodup := nodup_mergeBooleans (nodup_distinct found)
  booleans := not_both_mergeBooleans (distinct found)
  mem := fun hboth t => by
    rw [mergeBooleans_of_not_both (by simpa only [mem_distinct] using hboth), mem_distinct]
  mem_merged := fun hboth t => by
    have hboth' : boolTrue ∈ distinct found ∧ boolFalse ∈ distinct found := by
      simpa only [mem_distinct] using hboth
    simp only [(perm_mergeBooleans hboth').mem_iff, mem_addNew, List.mem_filter, mem_distinct,
      bne_iff_ne, Bool.and_eq_true, ne_eq]
    exact or_comm
  order := pairwise_mergeBooleans found

/-- Members are missing only where nothing was found. -/
theorem mergeBooleans_eq_nil (h : mergeBooleans (distinct found) = []) : found = [] := by
  have hmembers := canonicalMembers_mergeBooleans found
  rw [h] at hmembers
  by_cases hboth : boolTrue ∈ found ∧ boolFalse ∈ found
  · exact absurd ((hmembers.mem_merged hboth boolean).2 (Or.inl rfl)) List.not_mem_nil
  · exact List.eq_nil_iff_forall_not_mem.2 fun t ht =>
      absurd ((hmembers.mem hboth t).2 ht) List.not_mem_nil

/-- The members of a type that was made of members are those, if none of them is a union. -/
theorem members_ofMembers {ms : List Ty} (hne : ms ≠ [])
    (hflat : ∀ m ∈ ms, m.shape.isUnion = false) : (ofMembers ms).members = ms := by
  match ms with
  | [] => exact absurd rfl hne
  | [t] =>
      have ht := hflat t (List.mem_singleton_self t)
      rw [ofMembers, members]
      split
      · rename_i ms hshape
        rw [hshape] at ht
        exact absurd ht.symm Bool.false_ne_true
      · rfl
  | t :: u :: us => rfl

/-- What is found in a list is no union, if no union of the list has one among its members. -/
theorem isUnion_of_mem_flatMap
    (hflat : ∀ ms, of (.union ms) ∈ ts → ∀ m ∈ ms, m.shape.isUnion = false)
    (ht : t ∈ ts.flatMap members) : t.shape.isUnion = false := by
  rcases List.mem_flatMap.1 ht with ⟨⟨s⟩, hs, ht⟩
  cases s with
  | union ms => exact hflat ms hs t ht
  | _ =>
      rw [show t = _ from List.mem_singleton.1 ht]
      rfl

/-- Lists in which the same types are found have the same members, in some order. -/
theorem CanonicalMembers.perm {found' ms ms' : List Ty} (h : CanonicalMembers found ms)
    (h' : CanonicalMembers found' ms') (hsame : ∀ t, t ∈ found ↔ t ∈ found') : ms.Perm ms' := by
  -- Neither list repeats a type, so it is enough to compare them as sets.
  refine (List.perm_ext_iff_of_nodup h.nodup h'.nodup).2 fun t => ?_
  by_cases hboth : boolTrue ∈ found ∧ boolFalse ∈ found
  · have hboth' : boolTrue ∈ found' ∧ boolFalse ∈ found' := by rwa [← hsame, ← hsame]
    rw [h.mem_merged hboth, h'.mem_merged hboth', hsame]
  · have hboth' : ¬ (boolTrue ∈ found' ∧ boolFalse ∈ found') := by rwa [← hsame, ← hsame]
    rw [h.mem hboth, h'.mem hboth', hsame]

/-- What is found and where decides about the members. -/
theorem CanonicalMembers.eq {ms ms' : List Ty} (h : CanonicalMembers found ms)
    (h' : CanonicalMembers found ms') : ms = ms' := by
  -- Both have the same types in the same strict order.
  refine (h.perm h' fun _ => Iff.rfl).eq_of_pairwise (fun t u _ _ htu hut => ?_) h.order h'.order
  exact absurd hut (Nat.lt_asymm htu)

/-- A list without repetitions stays as it is. -/
theorem distinct_of_nodup (h : ts.Nodup) : distinct ts = ts := by
  induction ts using List.reverseRecOn with
  | nil => rfl
  | append_singleton ts t ih =>
      rw [List.nodup_append] at h
      rw [distinct_append_singleton, ih h.1, addNew, if_neg]
      exact fun ht => h.2.2 t ht t (List.mem_singleton_self t) rfl

/-- Members that were computed once are computed again from themselves. -/
theorem mergeBooleans_distinct_idem (found : List Ty) :
    mergeBooleans (distinct (mergeBooleans (distinct found))) = mergeBooleans (distinct found) := by
  rw [distinct_of_nodup (nodup_mergeBooleans (nodup_distinct found)),
    mergeBooleans_of_not_both (not_both_mergeBooleans _)]

theorem ofMembers_eq_never {ms : List Ty} (h : ofMembers ms = ofPrimitive .never) :
    ms = [] ∨ ms = [ofPrimitive .never] := by
  match ms with
  | [] => exact Or.inl rfl
  | [t] => exact Or.inr (by rw [show t = _ from h])
  | t :: u :: us => cases of.inj h

/-- A union is empty if nothing was found but the empty type. -/
theorem union_eq_never_iff :
    union ts = ofPrimitive .never ↔ ∀ m ∈ ts.flatMap members, m = ofPrimitive .never := by
  have hmembers := canonicalMembers_mergeBooleans (ts.flatMap members)
  constructor
  · intro h m hm
    rcases ofMembers_eq_never h with hnil | hone
    · rw [mergeBooleans_eq_nil hnil] at hm
      exact absurd hm List.not_mem_nil
    · rw [hone] at hmembers
      -- Both literals together would give a `boolean`.
      have hboth : ¬ (boolTrue ∈ ts.flatMap members ∧ boolFalse ∈ ts.flatMap members) := by
        intro hboth
        have := (hmembers.mem_merged hboth boolean).2 (Or.inl rfl)
        exact absurd (List.mem_singleton.1 this) (by decide)
      exact List.mem_singleton.1 ((hmembers.mem hboth m).2 hm)
  · intro h
    have hboth : ¬ (boolTrue ∈ ts.flatMap members ∧ boolFalse ∈ ts.flatMap members) :=
      fun hboth => absurd (h _ hboth.1) (by decide)
    have hnever : ∀ m ∈ mergeBooleans (distinct (ts.flatMap members)), m = ofPrimitive .never :=
      fun m hm => h m ((hmembers.mem hboth m).1 hm)
    unfold union
    match hms : mergeBooleans (distinct (ts.flatMap members)) with
    | [] => rfl
    | [t] => exact hnever t (by rw [hms]; exact List.mem_singleton_self t)
    | t :: u :: us =>
        -- Two members would be the same.
        have hnodup := hmembers.nodup
        rw [hms] at hnever hnodup
        refine absurd ?_ (List.nodup_cons.1 hnodup).1
        rw [hnever t List.mem_cons_self, ← hnever u (List.mem_cons_of_mem _ List.mem_cons_self)]
        exact List.mem_cons_self

section Flat

variable (hflat : ∀ ms, of (.union ms) ∈ ts → ∀ m ∈ ms, m.shape.isUnion = false)
include hflat

/-- The members of a union are the ones that were computed. -/
theorem members_union (hne : ts.flatMap members ≠ []) :
    (union ts).members = mergeBooleans (distinct (ts.flatMap members)) := by
  refine members_ofMembers (fun h => hne (mergeBooleans_eq_nil h)) fun m hm => ?_
  rcases mem_mergeBooleans hm with hm | rfl
  · exact isUnion_of_mem_flatMap hflat (mem_distinct.1 hm)
  · rfl

/-- A union that is made of nothing but a union is that union. -/
theorem union_singleton_union : union [union ts] = union ts := by
  -- From an empty list there is nothing to be opened up again.
  by_cases hne : ts.flatMap members = []
  · have hnever : union ts = ofPrimitive .never :=
      union_eq_never_iff.2 fun m hm => absurd hm (by rw [hne]; exact List.not_mem_nil)
    rw [hnever]
    decide
  · rw [union, List.flatMap_cons, List.flatMap_nil, List.append_nil, members_union hflat hne,
      mergeBooleans_distinct_idem]
    rfl

/-- The order of a list decides only about the order of the members. -/
theorem perm_members_union (hperm : ts.Perm us) : (union us).members.Perm (union ts).members := by
  have hsame : ∀ t, t ∈ us.flatMap members ↔ t ∈ ts.flatMap members := fun t => by
    simp only [List.mem_flatMap, hperm.mem_iff]
  -- Where nothing was found, both unions are empty.
  by_cases hne : ts.flatMap members = []
  · have hnever : ∀ vs : List Ty, (∀ t, t ∈ vs.flatMap members ↔ t ∈ ts.flatMap members) →
        union vs = ofPrimitive .never := fun vs hvs =>
      union_eq_never_iff.2 fun m hm => absurd ((hvs m).1 hm) (by rw [hne]; exact List.not_mem_nil)
    rw [hnever us hsame, hnever ts fun _ => Iff.rfl]
  · have hne' : us.flatMap members ≠ [] := fun h =>
      hne (List.eq_nil_iff_forall_not_mem.2 fun t ht => by
        have := (hsame t).2 ht
        rw [h] at this
        exact List.not_mem_nil this)
    rw [members_union hflat hne,
      members_union (fun ms hms => hflat ms (hperm.mem_iff.2 hms)) hne']
    exact (canonicalMembers_mergeBooleans _).perm (canonicalMembers_mergeBooleans _) hsame

end Flat

/-- The union of a list in which no union has a union among its members. Its members are what the
    list gives, each once and in order, with `boolean` for its two literals; a single member is the
    union itself. It is `never` if there is nothing else in the list. A union of a union is the
    same, and changing the order of the list only changes the order of the members. -/
theorem union_canonical (ts : List Ty)
    (hflat : ∀ ms, of (.union ms) ∈ ts → ∀ m ∈ ms, m.shape.isUnion = false) :
    (ts.flatMap members ≠ [] → ∀ ms,
      CanonicalMembers (ts.flatMap members) ms ↔ ms = (union ts).members) ∧
    (∀ t, (union ts).members = [t] → union ts = t) ∧
    (union ts = ofPrimitive .never ↔
      ts.flatMap members = [] ∨ ∀ m ∈ ts.flatMap members, m = ofPrimitive .never) ∧
    union [union ts] = union ts ∧
    ∀ us, ts.Perm us → (union us).members.Perm (union ts).members := by
  refine ⟨fun hne ms => ?_, fun t ht => ?_, ?_, union_singleton_union hflat,
    fun us => perm_members_union hflat⟩
  · have hmembers := canonicalMembers_mergeBooleans (ts.flatMap members)
    rw [members_union hflat hne]
    constructor
    · exact fun h => h.eq hmembers
    · rintro rfl
      exact hmembers
  · -- An empty list gives `never`, which is its own single member.
    by_cases hne : ts.flatMap members = []
    · have hnever : union ts = ofPrimitive .never :=
        union_eq_never_iff.2 fun m hm => absurd hm (by rw [hne]; exact List.not_mem_nil)
      rw [hnever] at ht ⊢
      exact (List.singleton_inj.1 ht)
    · rw [members_union hflat hne] at ht
      rw [union, ht, ofMembers]
  · rw [union_eq_never_iff]
    refine ⟨Or.inr, ?_⟩
    rintro (hnil | h)
    · exact fun m hm => absurd hm (by rw [hnil]; exact List.not_mem_nil)
    · exact h

/-- A list in which types are repeated, also inside of unions, with both boolean literals. -/
def repetitive : List Ty :=
  [of (.union [ofPrimitive .string, boolFalse]), ofPrimitive .number, ofPrimitive .string, boolTrue,
    of (.union [ofPrimitive .number, ofPrimitive .null])]

/-- Four types are left of it. -/
theorem union_canonical_repetitive :
    (∀ ms, of (.union ms) ∈ repetitive → ∀ m ∈ ms, m.shape.isUnion = false) ∧
    repetitive.flatMap members ≠ [] ∧
    CanonicalMembers (repetitive.flatMap members)
      [ofPrimitive .string, boolean, ofPrimitive .number, ofPrimitive .null] ∧
    union repetitive =
      of (.union [ofPrimitive .string, boolean, ofPrimitive .number, ofPrimitive .null]) ∧
    union [union repetitive] = union repetitive := by
  -- Evaluation settles the list itself, and the theorem the rest.
  have hall : ∀ t ∈ repetitive, ∀ m ∈ t.members, m.shape.isUnion = false := by decide +kernel
  have hflat : ∀ ms, of (.union ms) ∈ repetitive → ∀ m ∈ ms, m.shape.isUnion = false :=
    fun ms hms => hall (of (.union ms)) hms
  have hunion : union repetitive =
      of (.union [ofPrimitive .string, boolean, ofPrimitive .number, ofPrimitive .null]) := by
    decide +kernel
  have hne : repetitive.flatMap members ≠ [] := by decide +kernel
  rcases union_canonical repetitive hflat with ⟨hmembers, -, -, hidem, -⟩
  refine ⟨hflat, hne, (hmembers hne _).2 ?_, hunion, hidem⟩
  rw [hunion]
  rfl

end DocModel.Ty
