import DocModel.Proofs.Canonical
import DocModel.Session.Normalize
import Mathlib.Algebra.Group.Nat.Even

/-!
# String literals

A string literal is documented by its written form, and two types are the same if they are written
alike. Whether different strings stay apart is therefore a question about the written form: it has
to end where it seems to end, and it has to be possible to read the string back.

The danger is in the backslash, which marks the character behind it and is a character of strings
itself. Whether a quotation mark is bare cannot be told from the character in front of it alone; it
depends on whether the backslashes in front of it pair up. The written forms of characters are put
one behind the other, and each of them leaves no backslash open, so that none of them changes what
the next one means. That is `Enclosable`, which lists inherit from their parts.

## Main definitions

* `Text.backslashesAtEnd`: The backslashes in front of whatever comes next.
* `Text.Enclosable`: Texts that can stand between quotation marks.

## Theorems

* `Text.enclosable_quoteBody`: A written form can stand between quotation marks.
* `Text.unquoteBody_quoteBody`: A string can be read back.
* `Ty.count_members_union`: A type that is found has its own place in a union.
* `TypeForm.string_literals_apart`: String literals are told apart, also in unions.
-/

namespace DocModel

namespace Text

/-- How many backslashes a text ends in. -/
def backslashesAtEnd (cs : List Char) : Nat := (cs.reverse.takeWhile (· == '\\')).length

/-- A text that can stand between quotation marks on one line. -/
structure Enclosable (body : List Char) : Prop where
  /-- A quotation mark is marked as one: the backslashes in front of it do not pair up. -/
  marked : ∀ before after, body = before ++ '"' :: after → Odd (backslashesAtEnd before)
  /-- What comes behind the text is not marked by it. -/
  closed : Even (backslashesAtEnd body)
  lineFeed : '\n' ∉ body
  carriageReturn : '\r' ∉ body
  tab : '\t' ∉ body

variable {a b : List Char} {c : Char}

/-- Backslashes that pair up do not matter to what comes behind them. -/
theorem even_backslashesAtEnd_append (ha : Even (backslashesAtEnd a)) :
    Even (backslashesAtEnd (a ++ b)) ↔ Even (backslashesAtEnd b) := by
  simp only [backslashesAtEnd, List.reverse_append, List.takeWhile_append] at ha ⊢
  split
  · -- All of `b` is backslashes, so those of `a` are counted too.
    rename_i hall
    rw [List.length_append, Nat.even_add, hall]
    exact iff_true_right ha
  · exact Iff.rfl

theorem enclosable_nil : Enclosable [] where
  marked := fun before after h => by simp at h
  closed := ⟨0, rfl⟩
  lineFeed := List.not_mem_nil
  carriageReturn := List.not_mem_nil
  tab := List.not_mem_nil

/-- Two such texts one after the other are one. -/
theorem Enclosable.append (ha : Enclosable a) (hb : Enclosable b) : Enclosable (a ++ b) where
  marked := fun before after h => by
    -- The quotation mark is in one of the two parts.
    rcases List.append_eq_append_iff.1 h with ⟨mid, rfl, rfl⟩ | ⟨mid, rfl, hmid⟩
    · rw [← Nat.not_even_iff_odd, even_backslashesAtEnd_append ha.closed, Nat.not_even_iff_odd]
      exact hb.marked mid after rfl
    · cases mid with
      | nil =>
          -- The mark would be the first character behind `a`.
          have hodd := hb.marked [] after hmid.symm
          exact absurd hodd (by decide)
      | cons q mid =>
          rw [List.cons_append, List.cons.injEq] at hmid
          exact ha.marked before mid (by rw [hmid.1])
  closed := (even_backslashesAtEnd_append ha.closed).2 hb.closed
  lineFeed := by simp only [List.mem_append, ha.lineFeed, hb.lineFeed, or_self, not_false_eq_true]
  carriageReturn := by
    simp only [List.mem_append, ha.carriageReturn, hb.carriageReturn, or_self, not_false_eq_true]
  tab := by simp only [List.mem_append, ha.tab, hb.tab, or_self, not_false_eq_true]

/-- A character is written as itself, or as a letter behind a backslash that stands for it. -/
theorem quoteChar_cases (c : Char) :
    quoteChar c = [c] ∧ c ∉ ['"', '\\', '\n', '\r', '\t'] ∨
    ∃ letter ∈ ['"', '\\', 'n', 'r', 't'],
      quoteChar c = ['\\', letter] ∧ unquoteLetter letter = some c := by
  by_cases hc : c ∈ ['"', '\\', '\n', '\r', '\t']
  · right
    simp only [List.mem_cons, List.not_mem_nil, or_false] at hc
    rcases hc with rfl | rfl | rfl | rfl | rfl
    · exact ⟨'"', by decide⟩
    · exact ⟨'\\', by decide⟩
    · exact ⟨'n', by decide⟩
    · exact ⟨'r', by decide⟩
    · exact ⟨'t', by decide⟩
  · refine Or.inl ⟨?_, hc⟩
    simp only [List.mem_cons, List.not_mem_nil, or_false, not_or] at hc
    simp only [quoteChar, hc, if_false]

/-- The written form of a character can stand between quotation marks. -/
theorem enclosable_quoteChar (c : Char) : Enclosable (quoteChar c) := by
  rcases quoteChar_cases c with ⟨hwritten, hc⟩ | ⟨letter, hletter, hwritten, _⟩
  · -- The character means nothing by itself.
    simp only [List.mem_cons, List.not_mem_nil, or_false, not_or] at hc
    rcases hc with ⟨hquote, hslash, hfeed, hreturn, htab⟩
    rw [hwritten]
    refine ⟨fun before after h => ?_, ?_, ?_, ?_, ?_⟩
    · rcases List.singleton_eq_append_iff.1 h with ⟨rfl, h⟩ | ⟨_, h⟩
      · exact absurd (List.cons.inj h).1 hquote
      · exact absurd h (List.cons_ne_nil _ _)
    · rw [backslashesAtEnd, List.reverse_singleton,
        List.takeWhile_cons_of_neg (by rw [beq_iff_eq]; exact hslash)]
      exact Even.zero
    · exact fun h => hfeed (List.mem_singleton.1 h).symm
    · exact fun h => hreturn (List.mem_singleton.1 h).symm
    · exact fun h => htab (List.mem_singleton.1 h).symm
  · rw [hwritten]
    simp only [List.mem_cons, List.not_mem_nil, or_false] at hletter
    refine ⟨fun before after h => ?_, ?_, ?_, ?_, ?_⟩
    · -- The only place for a quotation mark is the one behind the backslash.
      rcases List.cons_eq_append_iff.1 h with ⟨_, hmark⟩ | ⟨mid, rfl, hrest⟩
      · exact absurd (List.cons.inj hmark).1 (by decide)
      · rcases List.singleton_eq_append_iff.1 hrest with ⟨rfl, _⟩ | ⟨_, hmark⟩
        · decide
        · exact absurd hmark (List.cons_ne_nil _ _)
    all_goals rcases hletter with rfl | rfl | rfl | rfl | rfl <;> decide

/-- The written form of a string can stand between quotation marks. -/
theorem enclosable_quoteBody (cs : List Char) : Enclosable (quoteBody cs) := by
  induction cs with
  | nil => exact enclosable_nil
  | cons c cs ih => exact (enclosable_quoteChar c).append ih

/-- The written form of a character is read back, whatever comes behind it. -/
theorem unquoteBody_quoteChar_append (c : Char) (cs : List Char) :
    unquoteBody (quoteChar c ++ cs) = (unquoteBody cs).map (c :: ·) := by
  rcases quoteChar_cases c with ⟨hwritten, hc⟩ | ⟨letter, _, hwritten, hletter⟩
  · -- A character that is written as itself is not taken for the start of a mark.
    have hslash : c ≠ '\\' := fun h => hc (by rw [h]; decide)
    have hmarked : isQuoteMarked c = false := by rw [isQuoteMarked, hwritten, bne_self_eq_false]
    rw [hwritten, List.singleton_append, unquoteBody, hmarked, if_neg Bool.false_ne_true]
    exact fun _ _ h _ => hslash h
  · rw [hwritten]
    simp only [List.cons_append, List.nil_append, unquoteBody, hletter]
    cases unquoteBody cs <;> rfl

/-- A string can be read back from its written form. -/
theorem unquoteBody_quoteBody (cs : List Char) : unquoteBody (quoteBody cs) = some cs := by
  induction cs with
  | nil => rfl
  | cons c cs ih =>
      have hcons : quoteBody (c :: cs) = quoteChar c ++ quoteBody cs := List.flatMap_cons
      rw [hcons, unquoteBody_quoteChar_append, ih, Option.map_some]

/-- Different strings are written differently. -/
theorem quote_injective : Function.Injective quote := by
  intro v w h
  rw [quote, quote, String.ofList_inj, List.append_left_inj, List.cons.injEq] at h
  -- What is written is read back as the one and as the other.
  have hread := congrArg unquoteBody h.2
  rw [unquoteBody_quoteBody, unquoteBody_quoteBody, Option.some.injEq] at hread
  exact String.toList_inj.1 hread

end Text

namespace Ty

variable {t : Ty} {ts ms : List Ty}

theorem literal_inj {kind kind' : PrimitiveKind} {text text' : String} :
    literal kind text = literal kind' text' ↔ kind = kind' ∧ text = text' := by
  rw [literal, literal, of.injEq, Shape.primitive.injEq, Option.some.injEq]

/-- The members of a type that was made of members are those, if there is one that is no union. -/
theorem members_ofMembers_of_mem (ht : t ∈ ms) (hflat : t.shape.isUnion = false) :
    (ofMembers ms).members = ms := by
  match ms with
  | [u] =>
      refine members_ofMembers (List.cons_ne_nil u []) fun m hm => ?_
      rw [List.mem_singleton.1 hm, ← List.mem_singleton.1 ht, hflat]
  | u :: v :: us => rfl

/-- A type that is found has a place of its own in the union, unless it is a union itself or one of
    the boolean literals. -/
theorem count_members_union (ht : t ∈ ts.flatMap members) (hflat : t.shape.isUnion = false)
    (htrue : t ≠ boolTrue) (hfalse : t ≠ boolFalse) : (union ts).members.count t = 1 := by
  have hmembers := canonicalMembers_mergeBooleans (ts.flatMap members)
  -- Merging takes nothing away but the two literals.
  have hmem : t ∈ mergeBooleans (distinct (ts.flatMap members)) := by
    by_cases hboth : boolTrue ∈ ts.flatMap members ∧ boolFalse ∈ ts.flatMap members
    · exact (hmembers.mem_merged hboth t).2 (Or.inr ⟨ht, htrue, hfalse⟩)
    · exact (hmembers.mem hboth t).2 ht
  rw [union, members_ofMembers_of_mem hmem hflat]
  exact List.count_eq_one_of_mem hmembers.nodup hmem

/-- A string literal has a place of its own. -/
theorem count_string_members_union {text : String}
    (ht : literal .string text ∈ ts.flatMap members) :
    (union ts).members.count (literal .string text) = 1 := by
  refine count_members_union ht rfl ?_ ?_
  · rw [boolTrue, Ne, literal_inj]
    exact fun h => PrimitiveKind.noConfusion h.1
  · rw [boolFalse, Ne, literal_inj]
    exact fun h => PrimitiveKind.noConfusion h.1

end Ty

namespace TypeForm

variable {v w : String}

/-- Different strings give different literals. -/
theorem literal?_stringLiteral_inj :
    (stringLiteral v).literal? = (stringLiteral w).literal? ↔ v = w := by
  refine ⟨fun h => ?_, fun h => by rw [h]⟩
  rw [literal?, literal?, Option.some.injEq, Ty.literal_inj] at h
  exact Text.quote_injective h.2

/-- String literals are told apart. One is documented by its written form, which ends at the first
    bare quotation mark and can be read back. Two of them are the same type if they are the same
    string, and those that differ are members of their own in every union. -/
theorem string_literals_apart :
    (∀ v : String, (stringLiteral v).literal? = some (Ty.literal .string (Text.quote v)) ∧
      ∃ body, (Text.quote v).toList = '"' :: body ++ ['"'] ∧ Text.Enclosable body ∧
        Text.unquoteBody body = some v.toList) ∧
    (∀ v w : String, (stringLiteral v).literal? = (stringLiteral w).literal? ↔ v = w) ∧
    ∀ (ts : List Ty) (v w : String) (t u : Ty), v ≠ w →
      (stringLiteral v).literal? = some t → (stringLiteral w).literal? = some u →
      t ∈ ts.flatMap Ty.members → u ∈ ts.flatMap Ty.members →
        t ≠ u ∧ (Ty.union ts).members.count t = 1 ∧ (Ty.union ts).members.count u = 1 := by
  refine ⟨fun v => ⟨rfl, Text.quoteBody v.toList, ?_, Text.enclosable_quoteBody _,
    Text.unquoteBody_quoteBody _⟩, fun v w => literal?_stringLiteral_inj, ?_⟩
  · rw [Text.quote, String.toList_ofList]
  · intro ts v w t u hne hv hw ht hu
    have hapart : t ≠ u := by
      rintro rfl
      exact hne (literal?_stringLiteral_inj.1 (hv.trans hw.symm))
    cases hv
    cases hw
    exact ⟨hapart, Ty.count_string_members_union ht, Ty.count_string_members_union hu⟩

/-- A quotation mark, and the two characters that it is written as. -/
theorem string_literals_apart_marks :
    let mark := Ty.literal .string "\"\\\"\""
    let written := Ty.literal .string "\"\\\\\\\"\""
    (stringLiteral "\"").literal? = some mark ∧ (stringLiteral "\\\"").literal? = some written ∧
    mark ≠ written ∧ (Ty.union [mark, written, mark]).members.count mark = 1 ∧
      (Ty.union [mark, written, mark]).members.count written = 1 := by
  intro mark written
  have hmark : (stringLiteral "\"").literal? = some mark := by decide +kernel
  have hwritten : (stringLiteral "\\\"").literal? = some written := by decide +kernel
  have hmembers : [mark, written, mark].flatMap Ty.members = [mark, written, mark] := rfl
  refine ⟨hmark, hwritten, string_literals_apart.2.2 [mark, written, mark] _ _ _ _ (by decide)
    hmark hwritten ?_ ?_⟩
  · rw [hmembers]
    exact List.mem_cons_self
  · rw [hmembers]
    exact List.mem_cons_of_mem _ List.mem_cons_self

end TypeForm

end DocModel
