import DocModel.Text.Search
import Mathlib.Tactic.Common

/-!
# Marks outside of parentheses

A text is scanned for the first place where a mark stands outside of all parentheses. What comes
before that place is known from the text alone. So if a text is put together from others with a mark
between them, and the mark stands in none of them except in parentheses, then the text tells what it
was put together from.

That a text can be put into others without being noticed by the scan is `Passes`: whatever follows
it, the scan goes over it and on. It says two things at once, that parentheses match and that the
mark is not met. If there are parentheses around the text it is enough that they match, so what is
asked for depends on how deep the scan is already when it comes to the text.

## Main definitions

* `Text.upTo`: The text before the first mark outside of parentheses.
* `Text.Passes`: The scan goes over a text, from some depth on.

## Theorems

* `Text.Passes.append`, `Text.passes_parens`, `Text.passes_joinWith`: Texts that are put together.
* `Text.Passes.upTo_mark`: The scan stops at a mark behind a text that it goes over.
* `Text.joinWith_injective`: What a text was put together from.
-/

namespace DocModel.Text

/-- The depth behind a character. -/
def nest (depth : Nat) (c : Char) : Nat :=
  if c = '(' then depth + 1 else if c = ')' then depth - 1 else depth

/-- The text before the first mark outside of parentheses, if some are open already. -/
def upTo (mark : Char) : Nat → List Char → List Char
  | _, [] => []
  | depth, c :: cs =>
    if c = mark ∧ depth = 0 then [] else c :: upTo mark (nest depth c) cs

/-- From some depth on the scan goes over the text, and is as deep as before behind it. -/
def Passes (mark : Char) (least : Nat) (text : List Char) : Prop :=
  ∀ depth, least ≤ depth → ∀ rest, upTo mark depth (text ++ rest) = text ++ upTo mark depth rest

variable {mark : Char} {least : Nat} {text text' : List Char}

theorem passes_nil (mark : Char) (least : Nat) : Passes mark least [] := fun _ _ _ => rfl

/-- The scan goes over one text after another. -/
theorem Passes.append (h : Passes mark least text) (h' : Passes mark least text') :
    Passes mark least (text ++ text') := by
  intro depth hdepth rest
  rw [List.append_assoc, h depth hdepth, h' depth hdepth, List.append_assoc]

theorem Passes.mono {least' : Nat} (h : Passes mark least text) (hle : least ≤ least') :
    Passes mark least' text := fun depth hdepth => h depth (Nat.le_trans hle hdepth)

/-- Whether a character is not a parenthesis. -/
def isFlat (c : Char) : Bool := c != '(' && c != ')'

/-- A text without parentheses is passed, if the mark is not in it or does not count. -/
theorem passes_of_flat (hflat : text.all isFlat = true)
    (hmark : least = 0 → mark ∉ text) : Passes mark least text := by
  intro depth hdepth rest
  induction text with
  | nil => rfl
  | cons c cs ih =>
      rw [List.all_cons, Bool.and_eq_true, isFlat, Bool.and_eq_true, bne_iff_ne,
        bne_iff_ne] at hflat
      rcases hflat with ⟨hc, hcs⟩
      have hnest : nest depth c = depth := by rw [nest, if_neg hc.1, if_neg hc.2]
      -- The mark does not stand here outside of parentheses.
      have hstop : ¬ (c = mark ∧ depth = 0) := by
        rintro ⟨rfl, rfl⟩
        exact hmark (Nat.le_zero.1 hdepth) List.mem_cons_self
      rw [List.cons_append, upTo, if_neg hstop, hnest,
        ih hcs fun hl hm => hmark hl (List.mem_cons_of_mem _ hm)]
      rfl

/-- Parentheses hide what is in them. -/
theorem passes_parens (h : Passes mark 1 text) (hopen : mark ≠ '(') (hclose : mark ≠ ')') :
    Passes mark 0 ('(' :: (text ++ [')'])) := by
  intro depth _ rest
  -- Inside, the scan is one deeper, and back behind the closing one.
  have hinside := h (depth + 1) (Nat.le_add_left 1 depth) (')' :: rest)
  rw [upTo, if_neg fun hc => hclose hc.1.symm] at hinside
  rw [List.cons_append, upTo, if_neg fun hc => hopen hc.1.symm, List.append_assoc]
  simp only [nest, if_true, List.cons_append, List.nil_append, Char.reduceEq, if_false,
    Nat.add_sub_cancel] at hinside ⊢
  rw [hinside, List.append_assoc]
  rfl

/-- The scan stops at a mark behind a text that it goes over. -/
theorem Passes.upTo_mark (h : Passes mark 0 text) (rest : List Char) :
    upTo mark 0 (text ++ mark :: rest) = text := by
  rw [h 0 (Nat.le_refl 0), upTo, if_pos ⟨rfl, rfl⟩, List.append_nil]

/-- The scan does not go over a mark. -/
theorem Passes.not_passes_mark (h : Passes mark 0 text) (rest : List Char) :
    ¬ Passes mark 0 (text ++ mark :: rest) := by
  intro h'
  -- It stops at the mark, so what it goes over is too short.
  have hall := h' 0 (Nat.le_refl 0) []
  rw [List.append_nil, h.upTo_mark, upTo, List.append_nil] at hall
  have := congrArg List.length hall
  rw [List.length_append, List.length_cons] at this
  omega

theorem toList_joinWith_cons (separator s t : String) (rest : List String) :
    (joinWith separator (s :: t :: rest)).toList =
      s.toList ++ (separator.toList ++ (joinWith separator (t :: rest)).toList) := by
  rw [joinWith, String.toList_append, String.toList_append, List.append_assoc]

/-- The scan goes over texts with separators between them, if it goes over all of these. -/
theorem passes_joinWith {separator : String} {ss : List String}
    (hsep : Passes mark least separator.toList) (h : ∀ s ∈ ss, Passes mark least s.toList) :
    Passes mark least (joinWith separator ss).toList := by
  match ss with
  | [] => exact passes_nil mark least
  | [s] => exact h s (List.mem_singleton_self s)
  | s :: t :: rest =>
      rw [toList_joinWith_cons]
      exact (h s List.mem_cons_self).append (hsep.append
        (passes_joinWith hsep fun u hu => h u (List.mem_cons_of_mem _ hu)))

section Separator

variable {separator : String} {before after : List Char}
  (hsep : separator.toList = before ++ mark :: after) (hbefore : Passes mark 0 before)
include hsep hbefore

/-- The scan does not go over a text that was put together from at least two. -/
theorem not_passes_joinWith {ss : List String} (hlen : 2 ≤ ss.length)
    (h : ∀ s ∈ ss, Passes mark 0 s.toList) : ¬ Passes mark 0 (joinWith separator ss).toList := by
  match ss with
  | [] => exact absurd hlen (by decide)
  | [s] => exact absurd hlen (Nat.lt_irrefl 1)
  | s :: t :: rest =>
      rw [toList_joinWith_cons, hsep, List.append_assoc, ← List.append_assoc, List.cons_append]
      exact ((h s List.mem_cons_self).append hbefore).not_passes_mark _

/-- What a text was put together from, if the scan goes over all of it. -/
theorem joinWith_injective {ss ts : List String} (hs : ss ≠ []) (ht : ts ≠ [])
    (hss : ∀ s ∈ ss, Passes mark 0 s.toList) (hts : ∀ t ∈ ts, Passes mark 0 t.toList)
    (h : joinWith separator ss = joinWith separator ts) : ss = ts := by
  match ss, ts with
  | [], _ => exact absurd rfl hs
  | _, [] => exact absurd rfl ht
  | [s], [t] => rw [show s = t from h]
  -- A text put together from two or more has the mark outside, and a single one has not.
  | [s], t :: t' :: rest =>
      refine absurd ?_ (not_passes_joinWith hsep hbefore (by simp only [List.length_cons]; omega)
        hts)
      rw [← h]
      exact hss s (List.mem_singleton_self s)
  | s :: s' :: rest, [t] =>
      refine absurd ?_ (not_passes_joinWith hsep hbefore (by simp only [List.length_cons]; omega)
        hss)
      rw [h]
      exact hts t (List.mem_singleton_self t)
  | s :: s' :: ss, t :: t' :: ts =>
      rcases List.forall_mem_cons.1 hss with ⟨hs, hss⟩
      rcases List.forall_mem_cons.1 hts with ⟨ht, hts⟩
      have hlist := congrArg String.toList h
      rw [toList_joinWith_cons, toList_joinWith_cons] at hlist
      -- The scan stops at the first separator on both sides.
      have hfirst : s.toList ++ before = t.toList ++ before := by
        have hscan := congrArg (upTo mark 0) hlist
        rw [hsep, List.append_assoc, List.append_assoc, List.cons_append, List.cons_append,
          ← List.append_assoc, ← List.append_assoc, (hs.append hbefore).upTo_mark,
          (ht.append hbefore).upTo_mark] at hscan
        exact hscan
      -- So the first texts are the same, and the rest are shorter.
      have hst : s = t := String.toList_inj.1 (List.append_cancel_right hfirst)
      rw [hst] at hlist ⊢
      have hrest := List.append_cancel_left (List.append_cancel_left hlist)
      rw [joinWith_injective (List.cons_ne_nil _ _) (List.cons_ne_nil _ _) hss hts
        (String.toList_inj.1 hrest)]

end Separator

end DocModel.Text
