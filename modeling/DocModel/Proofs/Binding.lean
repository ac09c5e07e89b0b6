import DocModel.Proofs.Keeps
import DocModel.Proofs.Places
import DocModel.Proofs.Scan
import DocModel.Ty.Text

/-!
# How strongly types bind

In the text of a type its parts stand next to each other, with marks between them. Which mark
belongs to which layer is a matter of how strongly layers bind: the members of a union are held
together by the weakest mark, then come the members of an intersection, then what an operator is put
before, and then arrays and names. A part that binds more weakly than the layer around it has to
stand in parentheses. Only arrays put parentheses around their parts, and not around all that need
them, so there are types whose texts are read in another way.

Where every part binds strongly enough, or stands in parentheses, the text tells the type. The marks
are looked for outside of parentheses: the weakest of them that is found gives the outermost layer,
and the text between the marks gives the parts.

## Main definitions

* `Ty.Everywhere`: Every layer of a type is as stated.
* `Ty.Plain`: Types of names, primitives, arrays, unions, intersections and operators.
* `Ty.Guarded`: Every part binds strongly enough, or stands in parentheses.
* `Ty.byName`: A type with nothing left of its references but names.

## Theorems

* `Ty.passes_text`: Which marks stand outside of parentheses in the text of a type.
* `Ty.strength_eq_of_text`: The text tells how strongly the type binds.
* `Ty.byName_eq_of_text`: The text tells the type.
-/

namespace DocModel

/-- Characters that stand in texts of types between names. -/
def reserved : List Char := ['(', ')', '[', ']', '|', '&', ' ']

/-- A name that can be told from keywords and from the characters between names. -/
def isName (name : String) : Bool :=
  name != "" && name.toList.all (fun c => !reserved.contains c) &&
    (PrimitiveKind.ofKeyword? name).isNone && (TypeOperator.ofKeyword? name).isNone

/-- A text without characters that stand between names. -/
def IsWord (text : List Char) : Prop := ∀ c ∈ text, c ∉ reserved

theorem isWord_of_all {text : List Char} (h : text.all (fun c => !reserved.contains c) = true) :
    IsWord text := by
  intro c hc
  simpa only [Bool.not_eq_true', List.contains_eq_mem, decide_eq_false_iff_not] using
    List.all_eq_true.1 h c hc

theorem PrimitiveKind.isWord_keyword (kind : PrimitiveKind) : IsWord kind.keyword.toList :=
  isWord_of_all (by cases kind <;> decide)

theorem TypeOperator.isWord_keyword (op : TypeOperator) : IsWord op.keyword.toList :=
  isWord_of_all (by cases op <;> decide)

/-- A name has no characters that stand between names. -/
theorem isWord_of_isName {name : String} (h : isName name = true) : IsWord name.toList := by
  simp only [isName, Bool.and_eq_true] at h
  exact isWord_of_all h.1.1.2

/-- A name is no keyword of a primitive. -/
theorem isName_ne_keyword {name : String} (h : isName name = true) (kind : PrimitiveKind) :
    name ≠ kind.keyword := by
  rintro rfl
  simp only [isName, PrimitiveKind.ofKeyword?_keyword, Option.isNone_some, Bool.and_false,
    Bool.false_and, Bool.false_eq_true] at h

/-- Keywords tell primitives apart. -/
theorem PrimitiveKind.keyword_injective {kind kind' : PrimitiveKind}
    (h : kind.keyword = kind'.keyword) : kind = kind' := by
  rw [← Option.some.injEq, ← ofKeyword?_keyword, h, ofKeyword?_keyword]

/-- Keywords tell operators apart. -/
theorem TypeOperator.keyword_injective {op op' : TypeOperator} (h : op.keyword = op'.keyword) :
    op = op' := by
  rw [← Option.some.injEq, ← ofKeyword?_keyword, h, ofKeyword?_keyword]

/-- The characters that tell layers apart: those between members, and the blank behind operators. -/
inductive Mark where
  | bar
  | ampersand
  | blank

namespace Mark

def char : Mark → Char
  | bar => '|'
  | ampersand => '&'
  | blank => ' '

/-- Types that bind less strongly than this may have the mark in their texts. -/
def level : Mark → Nat
  | bar => 1
  | ampersand => 2
  | blank => 3

theorem level_pos (mark : Mark) : 0 < mark.level := by cases mark <;> decide

theorem level_le (mark : Mark) : mark.level ≤ 3 := by cases mark <;> decide

/-- At every level but the highest there is a mark. -/
theorem exists_level {n : Nat} (h : n < 3) : ∃ mark : Mark, mark.level = n + 1 := by
  match n with
  | 0 => exact ⟨bar, rfl⟩
  | 1 => exact ⟨ampersand, rfl⟩
  | 2 => exact ⟨blank, rfl⟩

theorem char_mem_reserved (mark : Mark) : mark.char ∈ reserved := by cases mark <;> decide

theorem char_ne_parens (mark : Mark) : mark.char ≠ '(' ∧ mark.char ≠ ')' := by
  cases mark <;> decide

theorem char_notMem_brackets (mark : Mark) : mark.char ∉ "[]".toList := by cases mark <;> decide

/-- The mark of unions does not stand between members of an intersection. -/
theorem char_notMem_ampersand {mark : Mark} (h : mark.level ≤ 1) : mark.char ∉ " & ".toList := by
  revert h
  cases mark <;> decide

theorem char_notMem_blank {mark : Mark} (h : mark.level ≤ 2) : mark.char ∉ " ".toList := by
  revert h
  cases mark <;> decide

end Mark

open Text

namespace Ty

section Layers

variable {τ : Type}

def Shape.isIntersection : Shape τ → Bool
  | .intersection _ => true
  | _ => false

/-- How strongly the parts of a layer are held together in its text. -/
def Shape.strength : Shape τ → Nat
  | .union _ | .function _ | .conditional _ _ _ _ => 0
  | .intersection _ => 1
  | .operator _ _ => 2
  | _ => 3

/-- How strongly the parts of a layer have to bind, if they are not in parentheses. -/
def Shape.demand : Shape τ → Nat
  | .union _ => 1
  | .intersection _ | .operator _ _ => 2
  | .array _ => 3
  | _ => 0

/-- Whether the layer puts parentheses around a part with another layer. -/
def Shape.encloses : Shape τ → Shape τ → Bool
  | .array _, part => part.isLoose
  | _, _ => false

end Layers

/-- A layer of names, primitives, arrays, unions, intersections and operators, with unions and
    intersections of at least two members, none of which is one again. -/
def Shape.IsPlain : Shape Ty → Prop
  | .reference target arguments isInfer =>
    isName target.name = true ∧ target.parent = none ∧ arguments = [] ∧ isInfer = false
  | .primitive _ literal => literal = none
  | .array _ => True
  | .union ms => 2 ≤ ms.length ∧ ∀ m ∈ ms, m.shape.isUnion = false
  | .intersection ms => 2 ≤ ms.length ∧ ∀ m ∈ ms, m.shape.isIntersection = false
  | .operator op _ => op ≠ .infer
  | _ => False

/-- Every part of the layer binds strongly enough, or stands in parentheses. -/
def Shape.Guards (s : Shape Ty) : Prop :=
  ∀ t ∈ s.parts, s.demand ≤ t.shape.strength ∨ s.encloses t.shape = true

/-- Every layer of a type is as stated, wherever it stands. -/
def Everywhere (P : Shape Ty → Prop) (t : Ty) : Prop :=
  ∀ place u, t.partAt? place = some u → P u.shape

/-- A type of names, primitives, arrays, unions, intersections and operators. -/
def Plain : Ty → Prop := Everywhere Shape.IsPlain

/-- Every part binds strongly enough, or stands in parentheses. -/
def Guarded : Ty → Prop := Everywhere Shape.Guards

/-- The layer with nothing left of a reference but its name. -/
def Shape.nameOnly {τ : Type} : Shape τ → Shape τ
  | .reference target arguments isInfer =>
    .reference (Reference.make ⟨0⟩ target.name .unknown) arguments isInfer
  | s => s

/-- The type with nothing left of its references but names. -/
def byName : Ty → Ty := fold fun s => of s.nameOnly

/-- A type is as stated everywhere if its outermost layer is, and all parts are everywhere. -/
theorem everywhere_of {P : Shape Ty → Prop} {s : Shape Ty} :
    (of s).Everywhere P ↔ P s ∧ ∀ t ∈ s.parts, t.Everywhere P := by
  constructor
  · -- A place in a part is a place in the whole, with the number of the part in front.
    intro h
    refine ⟨h [] (of s) rfl, fun t ht place u hplace => ?_⟩
    rcases List.mem_iff_getElem?.1 ht with ⟨i, hi⟩
    refine h (i :: place) u ?_
    rw [partAt?, shape, hi]
    exact hplace
  · rintro ⟨hs, hparts⟩ place u hplace
    cases place with
    | nil =>
        rw [← Option.some.inj hplace]
        exact hs
    | cons i place =>
        rcases Option.bind_eq_some_iff.1 hplace with ⟨part, hpart, hplace⟩
        exact hparts part (List.mem_of_getElem? hpart) place u hplace

section Texts

theorem text_of (s : Shape Ty) : (of s).text = (s.map (fold Shape.render)).render.text := by
  rw [text, fold_of]

theorem text_reference {r : Reference} (h : r.parent = none) :
    (of (.reference r [] false)).text = r.name := by
  simp [text_of, Shape.map, Shape.render, Shape.text, markedIf, Reference.text, h]

theorem text_primitive (kind : PrimitiveKind) :
    (of (.primitive kind none)).text = kind.keyword := by
  simp [text_of, Shape.map, Shape.render, Shape.text]

theorem text_union (ts : List Ty) : (of (.union ts)).text = joinWith " | " (ts.map text) := by
  simp only [text_of, Shape.map, Shape.render, Shape.text, List.map_map]
  rfl

theorem text_intersection (ts : List Ty) :
    (of (.intersection ts)).text = joinWith " & " (ts.map text) := by
  simp only [text_of, Shape.map, Shape.render, Shape.text, List.map_map]
  rfl

theorem text_operator (op : TypeOperator) (t : Ty) :
    (of (.operator op t)).text = op.keyword ++ " " ++ t.text := by
  simp only [text_of, Shape.map, Shape.render, Shape.text]
  rfl

/-- What is drawn of a type is loose if its outermost layer is. -/
theorem isLoose_fold (t : Ty) : (t.fold Shape.render).isLoose = t.shape.isLoose := by
  rcases t with ⟨s⟩
  rw [fold_of]
  cases s <;> rfl

/-- The text of a type as it stands in front of the brackets of an array. -/
def enclosedText (t : Ty) : String :=
  if t.shape.isLoose = true then "(" ++ t.text ++ ")" else t.text

/-- The text of an array is that of its element, in parentheses where it is loose, and brackets. -/
theorem text_array (t : Ty) : (of (.array t)).text = t.enclosedText ++ "[]" := by
  simp only [text_of, Shape.map, Shape.render, isLoose_fold, enclosedText]
  split
  · calc "(" ++ t.text ++ ")[]" = "(" ++ t.text ++ (")" ++ "[]") := rfl
      _ = "(" ++ t.text ++ ")" ++ "[]" := String.append_assoc.symm
  · rfl

end Texts

section Scanning

variable {mark : Mark} {least : Nat}

/-- A word is passed, whatever is looked for. -/
theorem passes_word {text : List Char} (h : IsWord text) : Passes mark.char least text := by
  refine passes_of_flat (List.all_eq_true.2 fun c hc => ?_)
    fun _ hm => h mark.char hm mark.char_mem_reserved
  rw [isFlat, Bool.and_eq_true, bne_iff_ne, bne_iff_ne]
  exact ⟨fun hp => h c hc (hp ▸ by decide), fun hp => h c hc (hp ▸ by decide)⟩

/-- Brackets are passed, whatever is looked for. -/
theorem passes_brackets : Passes mark.char least "[]".toList :=
  passes_of_flat (by decide) fun _ => mark.char_notMem_brackets

/-- The marks of layers that bind more weakly stand in parentheses. There any mark is passed. -/
theorem passes_text (t : Ty) (hp : t.Plain) (hg : t.Guarded)
    (hlevel : least = 0 → mark.level ≤ t.shape.strength) :
    Passes mark.char least t.text.toList := by
  -- The induction is on layers. Inside of parentheses the scan starts one level deeper, so it is
  -- for every level.
  induction t using Ty.induction generalizing least with
  | step s ih =>
  rcases everywhere_of.1 hp with ⟨hs, hp⟩
  rcases everywhere_of.1 hg with ⟨hguards, hg⟩
  cases s with
  | reference target arguments isInfer =>
      rcases hs with ⟨hname, hparent, rfl, rfl⟩
      rw [text_reference hparent]
      exact passes_word (isWord_of_isName hname)
  | primitive kind literal =>
      rw [show literal = none from hs, text_primitive]
      exact passes_word kind.isWord_keyword
  | array t =>
      have ht : t ∈ (Shape.array t).parts := List.mem_singleton_self t
      rw [text_array, String.toList_append]
      refine Passes.append ?_ passes_brackets
      unfold enclosedText
      -- In parentheses every mark is passed. Without them the element binds as strongly as
      -- possible.
      split
      · have hinside : Passes mark.char 1 t.text.toList :=
          ih t ht (hp t ht) (hg t ht) fun h => absurd h (by decide)
        rw [String.toList_append, String.toList_append]
        exact (passes_parens hinside mark.char_ne_parens.1 mark.char_ne_parens.2).mono
          (Nat.zero_le least)
      · rename_i hloose
        have hstrong : 3 ≤ t.shape.strength := (hguards t ht).resolve_right hloose
        exact ih t ht (hp t ht) (hg t ht) fun _ => Nat.le_trans mark.level_le hstrong
  | union ts =>
      -- No mark has a level at which nothing is passed.
      have hleast : least ≠ 0 := fun h => absurd (hlevel h) (Nat.not_le.2 mark.level_pos)
      rw [text_union]
      refine passes_joinWith (passes_of_flat (by decide) fun h => absurd h hleast) fun x hx => ?_
      rcases List.mem_map.1 hx with ⟨t, ht, rfl⟩
      exact ih t ht (hp t ht) (hg t ht) fun h => absurd h hleast
  | intersection ts =>
      rw [text_intersection]
      refine passes_joinWith (passes_of_flat (by decide) fun h =>
        Mark.char_notMem_ampersand (hlevel h)) fun x hx => ?_
      rcases List.mem_map.1 hx with ⟨t, ht, rfl⟩
      -- A member that is not in parentheses binds more strongly than the mark allows.
      refine ih t ht (hp t ht) (hg t ht) fun h => ?_
      have hstrong : 2 ≤ t.shape.strength := (hguards t ht).resolve_right Bool.false_ne_true
      exact Nat.le_trans (hlevel h) (Nat.le_trans (Nat.le_succ 1) hstrong)
  | operator op t =>
      have ht : t ∈ (Shape.operator op t).parts := List.mem_singleton_self t
      have hstrong : 2 ≤ t.shape.strength := (hguards t ht).resolve_right Bool.false_ne_true
      rw [text_operator, String.toList_append, String.toList_append]
      refine ((passes_word op.isWord_keyword).append (passes_of_flat (by decide) fun h =>
        Mark.char_notMem_blank (hlevel h))).append (ih t ht (hp t ht) (hg t ht) fun h => ?_)
      exact Nat.le_trans (hlevel h) hstrong
  | _ => exact hs.elim

theorem toList_bar : " | ".toList = [' '] ++ Mark.bar.char :: [' '] := rfl

theorem toList_ampersand : " & ".toList = [' '] ++ Mark.ampersand.char :: [' '] := rfl

theorem passes_blank_bar : Passes Mark.bar.char 0 [' '] := passes_of_flat (by decide) (by decide)

theorem passes_blank_ampersand : Passes Mark.ampersand.char 0 [' '] :=
  passes_of_flat (by decide) (by decide)

/-- The mark between the parts of a layer stands outside of parentheses. -/
theorem not_passes_text (t : Ty) (hp : t.Plain) (hg : t.Guarded)
    (hlevel : mark.level = t.shape.strength + 1) : ¬ Passes mark.char 0 t.text.toList := by
  rcases t with ⟨s⟩
  rcases everywhere_of.1 hp with ⟨hs, hparts⟩
  rcases everywhere_of.1 hg with ⟨hguards, hgs⟩
  -- Of the three marks, one is at the level of the layer.
  cases s with
  | union ts =>
      cases mark with
      | bar =>
          rw [text_union]
          refine not_passes_joinWith toList_bar passes_blank_bar
            (by rw [List.length_map]; exact hs.1) fun x hx => ?_
          rcases List.mem_map.1 hx with ⟨t, ht, rfl⟩
          exact passes_text t (hparts t ht) (hgs t ht) fun _ =>
            (hguards t ht).resolve_right Bool.false_ne_true
      | ampersand => exact absurd (show 2 = 1 from hlevel) (by decide)
      | blank => exact absurd (show 3 = 1 from hlevel) (by decide)
  | intersection ts =>
      cases mark with
      | ampersand =>
          rw [text_intersection]
          refine not_passes_joinWith toList_ampersand passes_blank_ampersand
            (by rw [List.length_map]; exact hs.1) fun x hx => ?_
          rcases List.mem_map.1 hx with ⟨t, ht, rfl⟩
          exact passes_text t (hparts t ht) (hgs t ht) fun _ =>
            (hguards t ht).resolve_right Bool.false_ne_true
      | bar => exact absurd (show 1 = 2 from hlevel) (by decide)
      | blank => exact absurd (show 3 = 2 from hlevel) (by decide)
  | operator op t =>
      cases mark with
      | blank =>
          rw [text_operator, String.toList_append, String.toList_append, List.append_assoc]
          exact (passes_word op.isWord_keyword).not_passes_mark _
      | bar => exact absurd (show 1 = 3 from hlevel) (by decide)
      | ampersand => exact absurd (show 2 = 3 from hlevel) (by decide)
  -- These layers have no mark between parts.
  | reference | primitive | array =>
      exact absurd (show mark.level = 4 from hlevel)
        (Nat.ne_of_lt (Nat.lt_succ_of_le mark.level_le))
  | _ => exact hs.elim

end Scanning

/-- No layer binds more strongly than a name. -/
theorem Shape.strength_le {τ : Type} (s : Shape τ) : s.strength ≤ 3 := by
  cases s <;> simp only [strength] <;> decide

variable {t u : Ty}

/-- The weakest mark outside of parentheses is that of the outermost layer. -/
theorem strength_le_of_text (htp : t.Plain) (htg : t.Guarded) (hup : u.Plain) (hug : u.Guarded)
    (h : t.text = u.text) : u.shape.strength ≤ t.shape.strength := by
  -- Otherwise the mark of the one is outside of parentheses in its text, and is passed in the
  -- other.
  by_contra hlt
  rcases Mark.exists_level (n := t.shape.strength) (by
    have := u.shape.strength_le
    omega) with ⟨mark, hmark⟩
  refine not_passes_text t htp htg hmark ?_
  rw [h]
  exact passes_text u hup hug fun _ => by omega

/-- The text tells how strongly the type binds. -/
theorem strength_eq_of_text (htp : t.Plain) (htg : t.Guarded) (hup : u.Plain) (hug : u.Guarded)
    (h : t.text = u.text) : t.shape.strength = u.shape.strength :=
  Nat.le_antisymm (strength_le_of_text hup hug htp htg h.symm)
    (strength_le_of_text htp htg hup hug h)

theorem byName_of (s : Shape Ty) : (of s).byName = of (s.map byName).nameOnly := by
  rw [byName, fold_of]

/-- Texts of members tell the members, if the text of each of them does. -/
theorem map_byName_eq {ts us : List Ty}
    (ih : ∀ t ∈ ts, ∀ u ∈ us, t.text = u.text → t.byName = u.byName)
    (h : ts.map text = us.map text) : ts.map byName = us.map byName := by
  -- Both lists are gone through together, as their texts are the same one by one.
  induction ts generalizing us with
  | nil => rw [List.map_eq_nil_iff.1 h.symm]
  | cons t ts ihts =>
      cases us with
      | nil => exact absurd h (by simp only [List.map_cons, List.map_nil, reduceCtorEq,
          not_false_eq_true])
      | cons u us =>
          rw [List.map_cons, List.map_cons, List.cons.injEq] at h
          rw [List.map_cons, List.map_cons, ih t List.mem_cons_self u List.mem_cons_self h.1,
            ihts (fun t ht u hu => ih t (List.mem_cons_of_mem _ ht) u (List.mem_cons_of_mem _ hu))
              h.2]

section Forms

/-- Among plain types, only unions bind that weakly. -/
theorem Plain.exists_union (h : u.Plain) (hs : u.shape.strength = 0) :
    ∃ us, u = of (.union us) := by
  rcases u with ⟨s⟩
  have hplain := (everywhere_of.1 h).1
  cases s with
  | union us => exact ⟨us, rfl⟩
  | function | conditional => exact hplain.elim
  | _ => exact absurd hs (by simp only [shape, Shape.strength]; decide)

/-- Only intersections bind that strongly. -/
theorem Plain.exists_intersection (h : u.Plain) (hs : u.shape.strength = 1) :
    ∃ us, u = of (.intersection us) := by
  rcases u with ⟨s⟩
  cases s with
  | intersection us => exact ⟨us, rfl⟩
  | _ => exact absurd hs (by simp only [shape, Shape.strength]; decide)

/-- Only operators bind that strongly, whatever else a type may hold. -/
theorem exists_operator (hs : u.shape.strength = 2) : ∃ op v, u = of (.operator op v) := by
  rcases u with ⟨s⟩
  cases s with
  | operator op v => exact ⟨op, v, rfl⟩
  | _ => exact absurd hs (by simp only [shape, Shape.strength]; decide)

/-- Plain types that bind most strongly are names, primitives and arrays. -/
theorem Plain.tight_cases (h : u.Plain) (hs : u.shape.strength = 3) :
    (∃ r, u = of (.reference r [] false) ∧ isName r.name = true ∧ r.parent = none) ∨
      (∃ kind, u = of (.primitive kind none)) ∨ ∃ v, u = of (.array v) := by
  rcases u with ⟨s⟩
  have hplain := (everywhere_of.1 h).1
  cases s with
  | reference r arguments isInfer =>
      rcases hplain with ⟨hname, hparent, rfl, rfl⟩
      exact Or.inl ⟨r, rfl, hname, hparent⟩
  | primitive kind literal =>
      rw [show literal = none from hplain]
      exact Or.inr (Or.inl ⟨kind, rfl⟩)
  | array v => exact Or.inr (Or.inr ⟨v, rfl⟩)
  | union | intersection | operator =>
      exact absurd hs (by simp only [shape, Shape.strength]; decide)
  | _ => exact hplain.elim

end Forms

/-- A word has no brackets at its end. -/
theorem isWord_ne_array {name : String} (h : IsWord name.toList) (t : Ty) :
    name ≠ (of (.array t)).text := by
  rintro rfl
  rw [text_array, String.toList_append] at h
  exact h ']' (List.mem_append_right _ (by decide)) (by decide)

/-- A type that binds most strongly does not end with a parenthesis. -/
theorem not_parens_of_tight (h : u.Plain) (hs : u.shape.strength = 3) (text : String) :
    u.text ≠ "(" ++ text ++ ")" := by
  have hword : ∀ name : String, IsWord name.toList → name ≠ "(" ++ text ++ ")" := by
    rintro name hname rfl
    rw [String.toList_append] at hname
    exact hname ')' (List.mem_append_right _ (by decide)) (by decide)
  rcases h.tight_cases hs with ⟨r, rfl, hname, hparent⟩ | ⟨kind, rfl⟩ | ⟨v, rfl⟩
  · rw [text_reference hparent]
    exact hword r.name (isWord_of_isName hname)
  · rw [text_primitive]
    exact hword kind.keyword kind.isWord_keyword
  · -- An array ends with a bracket.
    intro heq
    have hlast := congrArg (fun s => s.toList.getLast?) heq
    simp only [text_array, String.toList_append] at hlast
    rw [List.getLast?_append, List.getLast?_append] at hlast
    exact absurd (Option.some.inj (show some ']' = some ')' from hlast)) (by decide)

/-- What stands before the brackets of an array tells its element, if the text of that does. -/
theorem text_eq_of_enclosedText (htp : t.Plain) (hup : u.Plain)
    (ht : 3 ≤ t.shape.strength ∨ t.shape.isLoose = true)
    (hu : 3 ≤ u.shape.strength ∨ u.shape.isLoose = true)
    (h : t.enclosedText = u.enclosedText) : t.text = u.text := by
  have htight : ∀ v : Ty, 3 ≤ v.shape.strength ∨ v.shape.isLoose = true → v.shape.isLoose = false →
      v.shape.strength = 3 := fun v hv hloose =>
    Nat.le_antisymm v.shape.strength_le
      (hv.resolve_right (by rw [hloose]; exact Bool.false_ne_true))
  unfold enclosedText at h
  -- Either both elements are in parentheses or none is.
  cases htl : t.shape.isLoose <;> cases hul : u.shape.isLoose <;>
    simp only [htl, hul, if_true, Bool.false_eq_true, if_false] at h
  · exact h
  · exact absurd h (not_parens_of_tight htp (htight t ht htl) u.text)
  · exact absurd h.symm (not_parens_of_tight hup (htight u hu hul) t.text)
  · have hlist := congrArg String.toList h
    simp only [String.toList_append] at hlist
    exact String.toList_inj.1 (List.append_cancel_left (List.append_cancel_right hlist))

/-- Every member of a layer can be scanned for the mark of the layer. -/
theorem passes_members {s : Shape Ty} {mark : Mark} (hp : (of s).Plain) (hg : (of s).Guarded)
    (hlevel : mark.level = s.demand) (hopen : ∀ part, s.encloses part = false) :
    ∀ x ∈ s.parts.map text, Passes mark.char 0 x.toList := by
  intro x hx
  rcases List.mem_map.1 hx with ⟨t, ht, rfl⟩
  refine passes_text t ((everywhere_of.1 hp).2 t ht) ((everywhere_of.1 hg).2 t ht) fun _ => ?_
  rw [hlevel]
  exact ((everywhere_of.1 hg).1 t ht).resolve_right (by rw [hopen]; exact Bool.false_ne_true)

/-- A list with members has texts. -/
theorem map_text_ne_nil {ts : List Ty} (h : 2 ≤ ts.length) : ts.map text ≠ [] := by
  rintro hnil
  rw [List.map_eq_nil_iff.1 hnil] at h
  exact absurd h (by decide)

/-! ### One layer

Each lemma reads off one layer what its text tells, and takes for granted that the texts of the
parts tell the parts. -/

section OneLayer

/-- Unions with one text have members with the same texts, because the bars between members are the
    only ones outside of parentheses. -/
theorem byName_union_eq {ts us : List Ty} (htp : (of (.union ts)).Plain)
    (htg : (of (.union ts)).Guarded) (hup : (of (.union us)).Plain) (hug : (of (.union us)).Guarded)
    (ih : ∀ t ∈ ts, ∀ u ∈ us, t.text = u.text → t.byName = u.byName)
    (h : (of (.union ts)).text = (of (.union us)).text) :
    (of (.union ts)).byName = (of (.union us)).byName := by
  have ht : 2 ≤ ts.length := (everywhere_of.1 htp).1.1
  have hu : 2 ≤ us.length := (everywhere_of.1 hup).1.1
  rw [text_union, text_union] at h
  have htexts : ts.map text = us.map text :=
    joinWith_injective toList_bar passes_blank_bar (map_text_ne_nil ht) (map_text_ne_nil hu)
      (passes_members htp htg rfl fun _ => rfl) (passes_members hup hug rfl fun _ => rfl) h
  simp only [byName_of, Shape.map, map_byName_eq ih htexts]

/-- It is the same with intersections and the mark between their members. -/
theorem byName_intersection_eq {ts us : List Ty} (htp : (of (.intersection ts)).Plain)
    (htg : (of (.intersection ts)).Guarded) (hup : (of (.intersection us)).Plain)
    (hug : (of (.intersection us)).Guarded)
    (ih : ∀ t ∈ ts, ∀ u ∈ us, t.text = u.text → t.byName = u.byName)
    (h : (of (.intersection ts)).text = (of (.intersection us)).text) :
    (of (.intersection ts)).byName = (of (.intersection us)).byName := by
  have ht : 2 ≤ ts.length := (everywhere_of.1 htp).1.1
  have hu : 2 ≤ us.length := (everywhere_of.1 hup).1.1
  rw [text_intersection, text_intersection] at h
  have htexts : ts.map text = us.map text :=
    joinWith_injective toList_ampersand passes_blank_ampersand (map_text_ne_nil ht)
      (map_text_ne_nil hu) (passes_members htp htg rfl fun _ => rfl)
      (passes_members hup hug rfl fun _ => rfl) h
  simp only [byName_of, Shape.map, map_byName_eq ih htexts]

/-- The keyword of an operator is what comes before the first blank. -/
theorem byName_operator_eq {op op' : TypeOperator}
    (ih : t.text = u.text → t.byName = u.byName)
    (h : (of (.operator op t)).text = (of (.operator op' u)).text) :
    (of (.operator op t)).byName = (of (.operator op' u)).byName := by
  have hlist := congrArg String.toList h
  simp only [text_operator, String.toList_append, List.append_assoc] at hlist
  have hkeyword : op = op' := by
    have hpass : ∀ op : TypeOperator, Passes Mark.blank.char 0 op.keyword.toList := fun op =>
      passes_word op.isWord_keyword
    have hscan :
        upTo Mark.blank.char 0 (op.keyword.toList ++ Mark.blank.char :: t.text.toList) =
          upTo Mark.blank.char 0 (op'.keyword.toList ++ Mark.blank.char :: u.text.toList) :=
      congrArg (upTo Mark.blank.char 0) hlist
    rw [(hpass op).upTo_mark, (hpass op').upTo_mark] at hscan
    exact TypeOperator.keyword_injective (String.toList_inj.1 hscan)
  -- With the same keyword in front, what is left are the texts of the operands.
  subst hkeyword
  have htext : t.text = u.text :=
    String.toList_inj.1 (List.append_cancel_left (List.append_cancel_left hlist))
  simp only [byName_of, Shape.map, ih htext]

/-- Brackets are at the end of arrays only, and what stands before them tells the element. -/
theorem byName_array_eq (htp : (of (.array t)).Plain) (htg : (of (.array t)).Guarded)
    (hup : (of (.array u)).Plain) (hug : (of (.array u)).Guarded)
    (ih : t.text = u.text → t.byName = u.byName)
    (h : (of (.array t)).text = (of (.array u)).text) :
    (of (.array t)).byName = (of (.array u)).byName := by
  have ht : t ∈ (Shape.array t).parts := List.mem_singleton_self t
  have hu : u ∈ (Shape.array u).parts := List.mem_singleton_self u
  rw [text_array, text_array] at h
  have hlist := congrArg String.toList h
  rw [String.toList_append, String.toList_append] at hlist
  have htext : t.text = u.text :=
    text_eq_of_enclosedText ((everywhere_of.1 htp).2 t ht) ((everywhere_of.1 hup).2 u hu)
      ((everywhere_of.1 htg).1 t ht) ((everywhere_of.1 hug).1 u hu)
      (String.toList_inj.1 (List.append_cancel_right hlist))
  simp only [byName_of, Shape.map, ih htext]

/-- A name is the text of a reference only. -/
theorem byName_reference_eq {r : Reference} (hname : isName r.name = true)
    (hparent : r.parent = none) (hup : u.Plain) (hs : u.shape.strength = 3)
    (h : (of (.reference r [] false)).text = u.text) :
    (of (.reference r [] false)).byName = u.byName := by
  rw [text_reference hparent] at h
  rcases hup.tight_cases hs with ⟨r', rfl, _, hparent'⟩ | ⟨kind, rfl⟩ | ⟨v, rfl⟩
  · rw [text_reference hparent'] at h
    simp only [byName_of, Shape.map, Shape.nameOnly, h, List.map_nil]
  · rw [text_primitive] at h
    exact absurd h (isName_ne_keyword hname kind)
  · exact absurd h (isWord_ne_array (isWord_of_isName hname) v)

/-- A keyword is the text of a primitive only. -/
theorem byName_primitive_eq {kind : PrimitiveKind} (hup : u.Plain) (hs : u.shape.strength = 3)
    (h : (of (.primitive kind none)).text = u.text) :
    (of (.primitive kind none)).byName = u.byName := by
  rw [text_primitive] at h
  rcases hup.tight_cases hs with ⟨r, rfl, hname, hparent⟩ | ⟨kind', rfl⟩ | ⟨v, rfl⟩
  · rw [text_reference hparent] at h
    exact absurd h.symm (isName_ne_keyword hname kind)
  · rw [text_primitive] at h
    rw [PrimitiveKind.keyword_injective h]
  · exact absurd h (isWord_ne_array kind.isWord_keyword v)

end OneLayer

/-- The text tells the type, if every part binds strongly enough or stands in parentheses. -/
theorem byName_eq_of_text (htp : t.Plain) (htg : t.Guarded) (hup : u.Plain) (hug : u.Guarded)
    (h : t.text = u.text) : t.byName = u.byName := by
  induction t using Ty.induction generalizing u with
  | step s ih =>
  -- Types with one text bind equally strongly, which leaves few forms for the other type.
  have hstrength := strength_eq_of_text htp htg hup hug h
  rcases everywhere_of.1 htp with ⟨hs, htps⟩
  have hpart : ∀ t ∈ s.parts, ∀ u : Ty, u.Plain → u.Guarded → t.text = u.text →
      t.byName = u.byName := fun t ht u =>
    ih t ht (htps t ht) ((everywhere_of.1 htg).2 t ht)
  cases s with
  | union ts =>
      rcases hup.exists_union hstrength.symm with ⟨us, rfl⟩
      exact byName_union_eq htp htg hup hug (fun t ht u hu =>
        hpart t ht u ((everywhere_of.1 hup).2 u hu) ((everywhere_of.1 hug).2 u hu)) h
  | intersection ts =>
      rcases hup.exists_intersection hstrength.symm with ⟨us, rfl⟩
      exact byName_intersection_eq htp htg hup hug (fun t ht u hu =>
        hpart t ht u ((everywhere_of.1 hup).2 u hu) ((everywhere_of.1 hug).2 u hu)) h
  | operator op t =>
      rcases exists_operator hstrength.symm with ⟨op', u, rfl⟩
      have hu : u ∈ (Shape.operator op' u).parts := List.mem_singleton_self u
      exact byName_operator_eq (hpart t (List.mem_singleton_self t) u ((everywhere_of.1 hup).2 u hu)
        ((everywhere_of.1 hug).2 u hu)) h
  | reference r arguments isInfer =>
      rcases hs with ⟨hname, hparent, rfl, rfl⟩
      exact byName_reference_eq hname hparent hup hstrength.symm h
  | primitive kind literal =>
      rw [show literal = none from hs] at h ⊢
      exact byName_primitive_eq hup hstrength.symm h
  | array t =>
      rcases hup.tight_cases hstrength.symm with ⟨r, rfl, hname, hparent⟩ | ⟨kind, rfl⟩ | ⟨u, rfl⟩
      · rw [text_reference hparent] at h
        exact absurd h.symm (isWord_ne_array (isWord_of_isName hname) t)
      · rw [text_primitive] at h
        exact absurd h.symm (isWord_ne_array kind.isWord_keyword t)
      · have hu : u ∈ (Shape.array u).parts := List.mem_singleton_self u
        exact byName_array_eq htp htg hup hug (hpart t (List.mem_singleton_self t) u
          ((everywhere_of.1 hup).2 u hu) ((everywhere_of.1 hug).2 u hu)) h
  | _ => exact hs.elim

end Ty

end DocModel
