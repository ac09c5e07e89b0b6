import DocModel.Proofs.Binding

/-!
# How texts of types are read

Parentheses are missing in the text of a type where a part binds more weakly than the layer around
it: a union or an intersection behind an operator, a union in an intersection, an operator in an
array. Such a text can be read all the same, but as another type. Written out, it is a row of
operands with marks between them, and however the operands were grouped before, the reader groups
them by the strength of the marks: the bars separate alternatives, and the ampersands the operands
of an alternative. An operator goes to the operand behind it, and brackets go to the name before
them.

So every plain type has a reading, in which all parts bind strongly enough, and which has the same
text. It is the type itself if nothing was amiss, and another type otherwise. In this sense the
condition under which texts tell types apart can not be weakened.

## Main definitions

* `Ty.Operand`: A type that can stand between marks.
* `Ty.sumText`, `Ty.sum`: Alternatives of operands, as a text and as a type.
* `Ty.Reads`: A text is that of some alternatives.

## Theorems

* `Ty.Reads.append`, `Ty.Reads.glue`, `Ty.Reads.behind`, `Ty.Reads.brackets`: Texts that are put
  together.
* `Ty.exists_reads`: The text of a plain type is that of some alternatives.
* `Ty.guarded_byName`: Strength is not a matter of references.
* `Ty.text_unambiguous`: The text tells the type up to its reading.
* `Ty.text_ambiguous`: Texts that are read as another type.
-/

namespace DocModel

namespace Text

variable {separator : String}

theorem joinWith_cons {s : String} {ss : List String} (h : ss ≠ []) :
    joinWith separator (s :: ss) = s ++ separator ++ joinWith separator ss := by
  cases ss with
  | nil => exact absurd rfl h
  | cons t ss => rfl

/-- Two rows with a separator between them. -/
theorem joinWith_append {ss ts : List String} (hs : ss ≠ []) (ht : ts ≠ []) :
    joinWith separator (ss ++ ts) =
      joinWith separator ss ++ separator ++ joinWith separator ts := by
  induction ss with
  | nil => exact absurd rfl hs
  | cons s ss ih =>
      -- The separator stands behind the last text of the first row.
      by_cases hss : ss = []
      · rw [hss, List.singleton_append, joinWith_cons ht]
        rfl
      · rw [List.cons_append, joinWith_cons (List.append_ne_nil_of_left_ne_nil hss ts), ih hss,
          joinWith_cons hss]
        simp only [String.append_assoc]

/-- A text can be cut inside of one of those it was put together from. -/
theorem joinWith_cut (ss ts : List String) (s t : String) :
    joinWith separator (ss ++ (s ++ t) :: ts) =
      joinWith separator (ss ++ [s]) ++ joinWith separator (t :: ts) := by
  induction ss with
  | nil =>
      cases ts with
      | nil => rfl
      | cons u ts =>
          rw [List.nil_append, List.nil_append, joinWith_cons (List.cons_ne_nil u ts),
            joinWith_cons (List.cons_ne_nil u ts)]
          simp only [String.append_assoc, joinWith]
  | cons u ss ih =>
      rw [List.cons_append, List.cons_append,
        joinWith_cons (List.append_ne_nil_of_right_ne_nil ss (List.cons_ne_nil _ _)),
        joinWith_cons (List.append_ne_nil_of_right_ne_nil ss (List.cons_ne_nil _ _)), ih]
      simp only [String.append_assoc]

end Text

open Text

namespace Ty

/-- A type that can stand between marks. -/
structure Operand (t : Ty) : Prop where
  plain : t.Plain
  guarded : t.Guarded
  strong : 2 ≤ t.shape.strength

/-- The type with the given operands. -/
def product : List Ty → Ty
  | [u] => u
  | us => of (.intersection us)

/-- The type with the given alternatives. -/
def sum : List (List Ty) → Ty
  | [us] => product us
  | alts => of (.union (alts.map product))

/-- Operands with marks between them. -/
def productText (us : List Ty) : String := joinWith " & " (us.map text)

/-- Alternatives with marks between them. -/
def sumText (alts : List (List Ty)) : String := joinWith " | " (alts.map productText)

/-- The text is that of the alternatives. -/
structure Reads (alts : List (List Ty)) (text : String) : Prop where
  some : alts ≠ []
  each : ∀ us ∈ alts, us ≠ []
  operands : ∀ us ∈ alts, ∀ u ∈ us, u.Operand
  text : sumText alts = text

variable {t u : Ty} {us : List Ty} {alts : List (List Ty)}

section Types

/-- Operands are written with ampersands between them. -/
theorem text_product (h : us ≠ []) : (product us).text = productText us := by
  match us with
  | [] => exact absurd rfl h
  | [u] => rfl
  | u :: v :: us => exact text_intersection _

/-- Alternatives are written with bars between them. -/
theorem text_sum (hsome : alts ≠ []) (heach : ∀ us ∈ alts, us ≠ []) :
    (sum alts).text = sumText alts := by
  match alts with
  | [] => exact absurd rfl hsome
  | [us] => exact text_product (heach us (List.mem_singleton_self us))
  | us :: vs :: alts =>
      have hmap : ((us :: vs :: alts).map product).map text =
          (us :: vs :: alts).map productText := by
        rw [List.map_map]
        exact List.map_congr_left fun ws hws => text_product (heach ws hws)
      exact (text_union _).trans (by rw [hmap]; rfl)

/-- What binds more strongly than a bar is no union. -/
theorem isUnion_of_strength {τ : Type} {s : Shape τ} (h : 1 ≤ s.strength) : s.isUnion = false := by
  cases s with
  | union => exact absurd h (Nat.not_succ_le_zero 0)
  | _ => rfl

/-- What binds more strongly than an ampersand is no intersection. -/
theorem isIntersection_of_strength {τ : Type} {s : Shape τ} (h : 2 ≤ s.strength) :
    s.isIntersection = false := by
  cases s with
  | intersection => exact absurd h (Nat.not_succ_le_self 1)
  | _ => rfl

/-- The type of some operands is as it should be, and no union. -/
theorem product_guarded (hne : us ≠ []) (h : ∀ u ∈ us, u.Operand) :
    (product us).Plain ∧ (product us).Guarded ∧ 1 ≤ (product us).shape.strength := by
  match us with
  | [] => exact absurd rfl hne
  | [u] =>
      have hu := h u (List.mem_singleton_self u)
      exact ⟨hu.plain, hu.guarded, Nat.le_trans (Nat.le_succ 1) hu.strong⟩
  | u :: v :: us =>
      refine ⟨everywhere_of.2 ⟨⟨Nat.le_add_left 2 us.length, fun w hw => ?_⟩,
        fun w hw => (h w hw).plain⟩, everywhere_of.2 ⟨fun w hw => Or.inl (h w hw).strong,
        fun w hw => (h w hw).guarded⟩, Nat.le_refl 1⟩
      exact isIntersection_of_strength (h w hw).strong

/-- The type of some alternatives is as it should be. -/
theorem Reads.sum_guarded {text : String} (h : Reads alts text) :
    (sum alts).Plain ∧ (sum alts).Guarded := by
  have hproducts : ∀ us ∈ alts, (product us).Plain ∧ (product us).Guarded ∧
      1 ≤ (product us).shape.strength := fun us hus => product_guarded (h.each us hus)
    (h.operands us hus)
  match alts with
  | [] => exact absurd rfl h.some
  | [us] =>
      have hus := hproducts us (List.mem_singleton_self us)
      exact ⟨hus.1, hus.2.1⟩
  | us :: vs :: alts =>
      have hmembers : ∀ t ∈ (us :: vs :: alts).map product, t.Plain ∧ t.Guarded ∧
          1 ≤ t.shape.strength := by
        intro t ht
        rcases List.mem_map.1 ht with ⟨ws, hws, rfl⟩
        exact hproducts ws hws
      refine ⟨everywhere_of.2 ⟨⟨Nat.le_add_left 2 _, fun t ht => ?_⟩,
        fun t ht => (hmembers t ht).1⟩, everywhere_of.2 ⟨fun t ht => Or.inl (hmembers t ht).2.2,
        fun t ht => (hmembers t ht).2.1⟩⟩
      exact isUnion_of_strength (hmembers t ht).2.2

/-- With two operands or more, the type stands in parentheses in an array. -/
theorem Reads.isLoose_sum {text : String} (h : Reads alts text) (hmany : ∀ u, alts ≠ [[u]]) :
    (sum alts).shape.isLoose = true := by
  match alts with
  | [] => exact absurd rfl h.some
  | [[]] => exact absurd rfl (h.each [] (List.mem_singleton_self []))
  | [[u]] => exact absurd rfl (hmany u)
  | [u :: v :: us] => rfl
  | us :: vs :: alts => rfl

end Types

section Texts

variable {a b : String}

/-- Alternatives behind others. -/
theorem Reads.append {alts' : List (List Ty)} (h : Reads alts a) (h' : Reads alts' b) :
    Reads (alts ++ alts') (a ++ " | " ++ b) where
  some := List.append_ne_nil_of_left_ne_nil h.some _
  each := fun us hus => (List.mem_append.1 hus).elim (h.each us) (h'.each us)
  operands := fun us hus => (List.mem_append.1 hus).elim (h.operands us) (h'.operands us)
  text := by
    rw [sumText, List.map_append, joinWith_append (List.map_eq_nil_iff.not.2 h.some)
      (List.map_eq_nil_iff.not.2 h'.some), ← h.text, ← h'.text]
    rfl

/-- The last alternative is joined to the first of others. -/
theorem Reads.glue {us us' : List Ty} {alts' : List (List Ty)} (h : Reads (alts ++ [us]) a)
    (h' : Reads (us' :: alts') b) : Reads (alts ++ (us ++ us') :: alts') (a ++ " & " ++ b) where
  some := List.append_ne_nil_of_right_ne_nil _ (List.cons_ne_nil _ _)
  each := by
    intro vs hvs
    rcases List.mem_append.1 hvs with hvs | hvs
    · exact h.each vs (List.mem_append_left _ hvs)
    · rcases List.mem_cons.1 hvs with rfl | hvs
      · exact List.append_ne_nil_of_right_ne_nil _ (h'.each us' List.mem_cons_self)
      · exact h'.each vs (List.mem_cons_of_mem _ hvs)
  operands := by
    intro vs hvs v hv
    rcases List.mem_append.1 hvs with hvs | hvs
    · exact h.operands vs (List.mem_append_left _ hvs) v hv
    · rcases List.mem_cons.1 hvs with rfl | hvs
      · rcases List.mem_append.1 hv with hv | hv
        · exact h.operands us (List.mem_append_right _ (List.mem_singleton_self us)) v hv
        · exact h'.operands us' List.mem_cons_self v hv
      · exact h'.operands vs (List.mem_cons_of_mem _ hvs) v hv
  text := by
    have hus : us.map Ty.text ≠ [] := List.map_eq_nil_iff.not.2
      (h.each us (List.mem_append_right _ (List.mem_singleton_self us)))
    have hus' : us'.map Ty.text ≠ [] := List.map_eq_nil_iff.not.2 (h'.each us' List.mem_cons_self)
    -- The operands meet in the middle, between the last alternative and the first of the others.
    have hproduct : productText (us ++ us') = productText us ++ (" & " ++ productText us') := by
      rw [productText, List.map_append, joinWith_append hus hus', String.append_assoc]
      rfl
    have ha : joinWith " | " (alts.map productText ++ [productText us]) = a := by
      rw [← h.text, sumText, List.map_append]
      rfl
    have hb : joinWith " | " (productText us' :: alts'.map productText) = b := h'.text
    have hlater : joinWith " | " ((" & " ++ productText us') :: alts'.map productText) =
        " & " ++ b := by
      rw [← hb]
      exact joinWith_cut [] _ _ _
    rw [sumText, List.map_append, List.map_cons, hproduct, joinWith_cut, ha, hlater,
      String.append_assoc]

/-- An operator goes to the first operand. -/
theorem Reads.behind (h : Reads ((u :: us) :: alts) a) {v : Ty} (hv : v.Operand)
    (htext : v.text = b ++ u.text) : Reads ((v :: us) :: alts) (b ++ a) where
  some := List.cons_ne_nil _ _
  each := fun vs hvs => (List.mem_cons.1 hvs).elim (fun heq => heq ▸ List.cons_ne_nil v us)
    fun hvs => h.each vs (List.mem_cons_of_mem _ hvs)
  operands := by
    intro vs hvs w hw
    rcases List.mem_cons.1 hvs with rfl | hvs
    · rcases List.mem_cons.1 hw with rfl | hw
      · exact hv
      · exact h.operands (u :: us) List.mem_cons_self w (List.mem_cons_of_mem _ hw)
    · exact h.operands vs (List.mem_cons_of_mem _ hvs) w hw
  text := by
    have hproduct : productText (v :: us) = b ++ productText (u :: us) := by
      rw [productText, List.map_cons, htext]
      exact joinWith_cut [] _ _ _
    rw [← h.text, sumText, List.map_cons, hproduct]
    exact joinWith_cut [] _ _ _

/-- Brackets go to the last operand. -/
theorem Reads.brackets (h : Reads (alts ++ [us ++ [u]]) a) {v : Ty} (hv : v.Operand)
    (htext : v.text = u.text ++ b) : Reads (alts ++ [us ++ [v]]) (a ++ b) where
  some := List.append_ne_nil_of_right_ne_nil _ (List.cons_ne_nil _ _)
  each := by
    intro vs hvs
    rcases List.mem_append.1 hvs with hvs | hvs
    · exact h.each vs (List.mem_append_left _ hvs)
    · rw [List.mem_singleton.1 hvs]
      exact List.append_ne_nil_of_right_ne_nil _ (List.cons_ne_nil _ _)
  operands := by
    have hlast : us ++ [u] ∈ alts ++ [us ++ [u]] :=
      List.mem_append_right _ (List.mem_singleton_self _)
    intro vs hvs w hw
    rcases List.mem_append.1 hvs with hvs | hvs
    · exact h.operands vs (List.mem_append_left _ hvs) w hw
    · rw [List.mem_singleton.1 hvs] at hw
      rcases List.mem_append.1 hw with hw | hw
      · exact h.operands _ hlast w (List.mem_append_left _ hw)
      · rw [List.mem_singleton.1 hw]
        exact hv
  text := by
    -- The text behind the last operand is behind the whole text.
    have hproduct : productText (us ++ [v]) = productText (us ++ [u]) ++ b := by
      rw [productText, productText, List.map_append, List.map_append, List.map_singleton, htext]
      exact joinWith_cut _ [] _ _
    rw [← h.text, sumText, sumText, List.map_append, List.map_append, List.map_singleton, hproduct]
    exact joinWith_cut _ [] _ _

end Texts

section Readings

/-- A type without parts is as it should be. -/
theorem guarded_of_parts {s : Shape Ty} (h : s.parts = []) : (of s).Guarded := by
  have hnone : ∀ t ∈ s.parts, False := fun t ht => by
    rw [h] at ht
    exact List.not_mem_nil ht
  exact everywhere_of.2 ⟨fun t ht => (hnone t ht).elim, fun t ht => (hnone t ht).elim⟩

/-- An operand as the only one. -/
theorem Operand.reads (h : u.Operand) : Reads [[u]] u.text where
  some := List.cons_ne_nil _ _
  each := fun us hus => by
    rw [List.mem_singleton.1 hus]
    exact List.cons_ne_nil _ _
  operands := fun us hus v hv => by
    rw [List.mem_singleton.1 hus] at hv
    rwa [List.mem_singleton.1 hv]
  text := rfl

/-- An operator in front of an operand makes an operand. -/
theorem Operand.operator {op : TypeOperator} (hop : op ≠ .infer) (h : u.Operand) :
    (of (.operator op u)).Operand where
  plain := everywhere_of.2 ⟨hop, List.forall_mem_singleton.2 h.plain⟩
  guarded := everywhere_of.2 ⟨List.forall_mem_singleton.2 (Or.inl h.strong),
    List.forall_mem_singleton.2 h.guarded⟩
  strong := Nat.le_refl 2

/-- Brackets behind an operand go to the name in it. -/
theorem Operand.exists_brackets (h : u.Operand) :
    ∃ v : Ty, v.Operand ∧ v.text = u.text ++ "[]" := by
  induction u using Ty.induction with
  | step s ih =>
  rcases Nat.lt_or_ge 2 s.strength with hstrong | hweak
  · -- Nothing binds more strongly, so the brackets can stand behind it.
    have hloose : s.isLoose = false := by
      cases s with
      | union | intersection | function =>
          exact absurd hstrong (by simp only [Shape.strength]; decide)
      | _ => rfl
    refine ⟨of (.array (of s)), ⟨everywhere_of.2 ⟨trivial, List.forall_mem_singleton.2 h.plain⟩,
      everywhere_of.2 ⟨List.forall_mem_singleton.2 (Or.inl hstrong),
        List.forall_mem_singleton.2 h.guarded⟩, Nat.le_succ 2⟩, ?_⟩
    rw [text_array, enclosedText, shape, hloose, if_neg Bool.false_ne_true]
  · -- An operator, whose operand takes the brackets.
    rcases exists_operator (u := of s) (Nat.le_antisymm hweak h.strong) with ⟨op, v, heq⟩
    rw [of.injEq] at heq
    subst heq
    have hv : v ∈ (Shape.operator op v).parts := List.mem_singleton_self v
    rcases everywhere_of.1 h.plain with ⟨hop, hplain⟩
    rcases everywhere_of.1 h.guarded with ⟨hguards, hguarded⟩
    rcases ih v hv ⟨hplain v hv, hguarded v hv,
      (hguards v hv).resolve_right Bool.false_ne_true⟩ with ⟨w, hw, htext⟩
    refine ⟨of (.operator op w), hw.operator hop, ?_⟩
    rw [text_operator, text_operator, htext, String.append_assoc, String.append_assoc,
      String.append_assoc]

/-- Members of a union are read one after the other. -/
theorem exists_reads_union {ts : List Ty} (hne : ts ≠ [])
    (h : ∀ t ∈ ts, ∃ alts, Reads alts t.text) :
    ∃ alts, Reads alts (joinWith " | " (ts.map text)) ∧ ts.length ≤ alts.length := by
  induction ts with
  | nil => exact absurd rfl hne
  | cons t ts ih =>
      rcases h t List.mem_cons_self with ⟨alts, halts⟩
      -- The last member is not followed by a bar.
      by_cases hts : ts = []
      · rw [hts]
        exact ⟨alts, halts, List.length_pos_iff.2 halts.some⟩
      · rcases ih hts fun t ht => h t (List.mem_cons_of_mem _ ht) with ⟨alts', halts', hlen⟩
        refine ⟨alts ++ alts', ?_, ?_⟩
        · rw [List.map_cons, joinWith_cons (List.map_eq_nil_iff.not.2 hts)]
          exact halts.append halts'
        · have := List.length_pos_iff.2 halts.some
          rw [List.length_cons, List.length_append]
          omega

/-- Of the members of an intersection, the last alternative is joined to the first of the next. -/
theorem exists_reads_intersection {ts : List Ty} (hne : ts ≠ [])
    (h : ∀ t ∈ ts, ∃ alts, Reads alts t.text) :
    ∃ alts, Reads alts (joinWith " & " (ts.map text)) ∧
      (2 ≤ ts.length → ∀ u, alts ≠ [[u]]) := by
  induction ts with
  | nil => exact absurd rfl hne
  | cons t ts ih =>
      rcases h t List.mem_cons_self with ⟨alts, halts⟩
      by_cases hts : ts = []
      · rw [hts]
        exact ⟨alts, halts, fun h => absurd h (Nat.not_succ_le_self 1)⟩
      · rcases ih hts fun t ht => h t (List.mem_cons_of_mem _ ht) with ⟨alts', halts', -⟩
        -- The last alternative here, and the first one there.
        rcases List.eq_nil_or_concat alts with rfl | ⟨init, us, rfl⟩
        · exact absurd rfl halts.some
        · cases alts' with
          | nil => exact absurd rfl halts'.some
          | cons us' rest =>
              rw [List.concat_eq_append] at halts
              refine ⟨init ++ (us ++ us') :: rest, ?_, fun _ u heq => ?_⟩
              · rw [List.map_cons, joinWith_cons (List.map_eq_nil_iff.not.2 hts)]
                exact halts.glue halts'
              · -- There is an operand from either side.
                have hus := List.length_pos_iff.2 (halts.each us
                  (List.mem_append_right _ (List.mem_singleton_self us)))
                have hus' := List.length_pos_iff.2 (halts'.each us' List.mem_cons_self)
                have hmem : us ++ us' ∈ [[u]] := by
                  rw [← heq]
                  exact List.mem_append_right _ List.mem_cons_self
                have := congrArg List.length (List.mem_singleton.1 hmem)
                rw [List.length_append, List.length_singleton] at this
                omega

/-- The text of a plain type is that of some alternatives, and of more than one operand if the type
    stands in parentheses in an array. -/
theorem exists_reads (t : Ty) (h : t.Plain) :
    ∃ alts, Reads alts t.text ∧ (t.shape.isLoose = true → ∀ u, alts ≠ [[u]]) := by
  induction t using Ty.induction with
  | step s ih =>
  rcases everywhere_of.1 h with ⟨hs, hparts⟩
  have hreads : ∀ t ∈ s.parts, ∃ alts, Reads alts t.text := fun t ht => by
    rcases ih t ht (hparts t ht) with ⟨alts, halts, -⟩
    exact ⟨alts, halts⟩
  -- Types without parentheses in arrays have nothing to show for them.
  have hone {alts : List (List Ty)} (hl : false = true) : ∀ u, alts ≠ [[u]] :=
    absurd hl Bool.false_ne_true
  cases s with
  | reference r arguments isInfer =>
      rcases hs with ⟨hname, hparent, rfl, rfl⟩
      exact ⟨_, Operand.reads ⟨h, guarded_of_parts rfl, Nat.le_succ 2⟩, hone⟩
  | primitive kind literal =>
      exact ⟨_, Operand.reads ⟨h, guarded_of_parts rfl, Nat.le_succ 2⟩, hone⟩
  | union ts =>
      have hne : ts ≠ [] := List.length_pos_iff.1 (Nat.lt_of_lt_of_le Nat.zero_lt_two hs.1)
      rcases exists_reads_union hne hreads with ⟨alts, halts, hlen⟩
      refine ⟨alts, by rwa [text_union], fun _ u heq => ?_⟩
      rw [heq] at hlen
      exact absurd (Nat.le_trans hs.1 hlen) (Nat.not_succ_le_self 1)
  | intersection ts =>
      have hne : ts ≠ [] := List.length_pos_iff.1 (Nat.lt_of_lt_of_le Nat.zero_lt_two hs.1)
      rcases exists_reads_intersection hne hreads with ⟨alts, halts, hmany⟩
      exact ⟨alts, by rwa [text_intersection], fun _ => hmany hs.1⟩
  | operator op t =>
      rcases hreads t (List.mem_singleton_self t) with ⟨alts, halts⟩
      -- The first operand of the first alternative takes the operator.
      match alts with
      | [] => exact absurd rfl halts.some
      | [] :: _ => exact absurd rfl (halts.each [] List.mem_cons_self)
      | (u :: us) :: alts =>
          have hu := halts.operands (u :: us) List.mem_cons_self u List.mem_cons_self
          refine ⟨(of (.operator op u) :: us) :: alts, ?_, hone⟩
          rw [text_operator]
          exact halts.behind (hu.operator hs) (text_operator op u)
  | array t =>
      rcases ih t (List.mem_singleton_self t) (hparts t (List.mem_singleton_self t)) with
        ⟨alts, halts, hmany⟩
      rw [text_array, enclosedText]
      split
      · rename_i hloose
        -- The alternatives stay together in the parentheses.
        have hsum := halts.sum_guarded
        have henclosed := halts.isLoose_sum (hmany hloose)
        have hoperand : (of (.array (sum alts))).Operand :=
          ⟨everywhere_of.2 ⟨trivial, List.forall_mem_singleton.2 hsum.1⟩,
            everywhere_of.2 ⟨List.forall_mem_singleton.2 (Or.inr henclosed),
              List.forall_mem_singleton.2 hsum.2⟩, Nat.le_succ 2⟩
        have htext : (of (.array (sum alts))).text = "(" ++ t.text ++ ")" ++ "[]" := by
          rw [text_array, enclosedText, if_pos henclosed, text_sum halts.some halts.each,
            halts.text]
        refine ⟨[[of (.array (sum alts))]], ?_, hone⟩
        rw [← htext]
        exact hoperand.reads
      · -- Without parentheses the brackets go to the last operand of the last alternative.
        rcases List.eq_nil_or_concat alts with rfl | ⟨init, us, rfl⟩
        · exact absurd rfl halts.some
        · rw [List.concat_eq_append] at halts
          rcases List.eq_nil_or_concat us with rfl | ⟨us, u, rfl⟩
          · exact absurd rfl (halts.each []
              (List.mem_append_right _ (List.mem_singleton_self _)))
          · rw [List.concat_eq_append] at halts
            have hu := halts.operands (us ++ [u])
              (List.mem_append_right _ (List.mem_singleton_self _)) u
              (List.mem_append_right _ (List.mem_singleton_self _))
            rcases hu.exists_brackets with ⟨v, hv, htext⟩
            exact ⟨_, halts.brackets hv htext, hone⟩
  | _ => exact hs.elim

end Readings

theorem shape_byName (t : Ty) : t.byName.shape = (t.shape.map byName).nameOnly := by
  rcases t with ⟨s⟩
  rw [byName_of]
  rfl

theorem strength_byName (t : Ty) : t.byName.shape.strength = t.shape.strength := by
  rw [shape_byName]
  cases t.shape <;> rfl

theorem isLoose_byName (t : Ty) : t.byName.shape.isLoose = t.shape.isLoose := by
  rw [shape_byName]
  cases t.shape <;> rfl

/-- Whether parts bind strongly enough is not a matter of references. -/
theorem guards_byName (s : Shape Ty) : (s.map byName).nameOnly.Guards ↔ s.Guards := by
  have hparts : (s.map byName).nameOnly.parts = s.parts.map byName := by
    rw [← Shape.parts_map]
    cases s <;> rfl
  have hdemand : (s.map byName).nameOnly.demand = s.demand := by cases s <;> rfl
  -- Parentheses go by the form alone.
  have hencloses : ∀ t : Ty, (s.map byName).nameOnly.encloses t.byName.shape =
      s.encloses t.shape := by
    intro t
    cases s with
    | array => exact isLoose_byName t
    | _ => rfl
  unfold Shape.Guards
  rw [hparts, hdemand, List.forall_mem_map]
  simp only [strength_byName, hencloses]

theorem guarded_byName (t : Ty) : t.byName.Guarded ↔ t.Guarded := by
  induction t using Ty.induction with
  | step s ih =>
  have hparts : (s.map byName).nameOnly.parts = s.parts.map byName := by
    rw [← Shape.parts_map]
    cases s <;> rfl
  rw [byName_of]
  unfold Guarded at ih ⊢
  rw [everywhere_of, everywhere_of, guards_byName, hparts, List.forall_mem_map]
  exact and_congr_right fun _ => forall₂_congr ih

/-- If every part of a plain type binds strongly enough or stands in parentheses, its text is that
    of no other such type. Every plain type has the same text as one of these, which is the same
    only if it is one itself. -/
theorem text_unambiguous (t : Ty) (ht : t.Plain) :
    (t.Guarded → ∀ u : Ty, u.Plain → u.Guarded → u.text = t.text → u.byName = t.byName) ∧
    ∃ u : Ty, u.Plain ∧ u.Guarded ∧ u.text = t.text ∧ (u.byName = t.byName ↔ t.Guarded) := by
  refine ⟨fun htg u hup hug h => byName_eq_of_text hup hug ht htg h, ?_⟩
  -- The reader puts the alternatives together by their marks.
  rcases exists_reads t ht with ⟨alts, halts, -⟩
  rcases halts.sum_guarded with ⟨hplain, hguarded⟩
  have htext : (sum alts).text = t.text := (text_sum halts.some halts.each).trans halts.text
  refine ⟨sum alts, hplain, hguarded, htext, fun h => ?_, fun htg => ?_⟩
  · rw [← guarded_byName, ← h, guarded_byName]
    exact hguarded
  · exact byName_eq_of_text hplain hguarded ht htg htext

/-- A type that is given by its name. -/
def named (name : String) : Ty := ofReference (Reference.make ⟨0⟩ name .unknown) []

theorem plain_named {name : String} (h : isName name = true) : (named name).Plain :=
  everywhere_of.2 ⟨⟨h, rfl, rfl, rfl⟩, List.forall_mem_nil _⟩

theorem plain_array (h : t.Plain) : (of (.array t)).Plain :=
  everywhere_of.2 ⟨trivial, List.forall_mem_singleton.2 h⟩

theorem plain_keyOf (h : t.Plain) : (of (.operator .keyOf t)).Plain :=
  everywhere_of.2 ⟨(by decide : TypeOperator.keyOf ≠ .infer), List.forall_mem_singleton.2 h⟩

theorem plain_union (ht : t.Plain) (hu : u.Plain) (hflat : t.shape.isUnion = false)
    (hflat' : u.shape.isUnion = false) : (of (.union [t, u])).Plain :=
  everywhere_of.2
    ⟨⟨Nat.le_refl 2, List.forall_mem_cons.2 ⟨hflat, List.forall_mem_singleton.2 hflat'⟩⟩,
      List.forall_mem_cons.2 ⟨ht, List.forall_mem_singleton.2 hu⟩⟩

theorem plain_intersection (ht : t.Plain) (hu : u.Plain) (hflat : t.shape.isIntersection = false)
    (hflat' : u.shape.isIntersection = false) : (of (.intersection [t, u])).Plain :=
  everywhere_of.2
    ⟨⟨Nat.le_refl 2, List.forall_mem_cons.2 ⟨hflat, List.forall_mem_singleton.2 hflat'⟩⟩,
      List.forall_mem_cons.2 ⟨ht, List.forall_mem_singleton.2 hu⟩⟩

/-- An array of a union, in which an operator stands. -/
def keysOrName : Ty :=
  of (.array (of (.union [named "A", of (.operator .keyOf (of (.array (named "B"))))])))

/-- The union stands in parentheses, and the text tells the type. -/
theorem text_unambiguous_keysOrName :
    keysOrName.Plain ∧ keysOrName.Guarded ∧ keysOrName.text = "(A | keyof B[])[]" ∧
    ∀ u : Ty, u.Plain → u.Guarded → u.text = "(A | keyof B[])[]" →
      u.byName = keysOrName.byName := by
  have hplain : keysOrName.Plain :=
    plain_array (plain_union (plain_named (by decide)) (plain_keyOf (plain_array
      (plain_named (by decide)))) rfl rfl)
  have hguarded : keysOrName.Guarded := by
    simp [keysOrName, Guarded, everywhere_of, Shape.Guards, Shape.parts, named, ofReference, shape,
      Shape.demand, Shape.strength, Shape.encloses, Shape.isLoose]
  have htext : keysOrName.text = "(A | keyof B[])[]" := by decide +kernel
  refine ⟨hplain, hguarded, htext, ?_⟩
  rw [← htext]
  exact (text_unambiguous keysOrName hplain).1 hguarded

/-- Two plain types that are not the same, but have one text. -/
structure Confused (t u : Ty) : Prop where
  plain : t.Plain ∧ u.Plain
  text : t.text = u.text
  different : t.byName ≠ u.byName

/-- Parentheses are missing around a union or an intersection behind an operator, around a union in
    an intersection, and around an operator in an array. -/
theorem text_ambiguous :
    Confused (of (.operator .keyOf (of (.union [named "A", named "B"]))))
      (of (.union [of (.operator .keyOf (named "A")), named "B"])) ∧
    Confused (of (.operator .keyOf (of (.intersection [named "A", named "B"]))))
      (of (.intersection [of (.operator .keyOf (named "A")), named "B"])) ∧
    Confused (of (.intersection [of (.union [named "A", named "B"]), named "C"]))
      (of (.union [named "A", of (.intersection [named "B", named "C"])])) ∧
    Confused (of (.array (of (.operator .keyOf (named "A")))))
      (of (.operator .keyOf (of (.array (named "A"))))) := by
  have hA : (named "A").Plain := plain_named (by decide)
  have hB : (named "B").Plain := plain_named (by decide)
  have hC : (named "C").Plain := plain_named (by decide)
  refine ⟨⟨⟨plain_keyOf (plain_union hA hB rfl rfl), plain_union (plain_keyOf hA) hB rfl rfl⟩,
      by decide +kernel, by decide +kernel⟩,
    ⟨⟨plain_keyOf (plain_intersection hA hB rfl rfl),
      plain_intersection (plain_keyOf hA) hB rfl rfl⟩, by decide +kernel, by decide +kernel⟩,
    ⟨⟨plain_intersection (plain_union hA hB rfl rfl) hC rfl rfl,
      plain_union hA (plain_intersection hB hC rfl rfl) rfl rfl⟩, by decide +kernel,
      by decide +kernel⟩,
    ⟨⟨plain_array (plain_keyOf hA), plain_keyOf (plain_array hA)⟩, by decide +kernel,
      by decide +kernel⟩⟩

end Ty

end DocModel
