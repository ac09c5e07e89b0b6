import DocModel.Proofs.Drafts
import Mathlib.Tactic.MkIffOfInductiveProp

/-!
# The text behind the name of a tag

A type in braces, an argument and a comment stand behind the name of a tag, in this order, and each
of them may be missing. They are told apart by what they start with and by the name of the tag, and
that does not always work. What opens with a pair of braces is taken for the type, even if it was
meant as an argument or as a comment. A dash in front of a comment is taken for a mark between it
and the argument. These are all the cases in which a tag is not read as it was written, so
`Unambiguous` is not only enough for a tag to be read back but what it takes.

The type is the part where the reader looks for an end by counting braces. The end that it finds is
the one that belongs to the first brace, if the braces in between come in pairs, and there are no
others. `splitBraced?_append` says the one and `eq_of_splitBraced?` the other.

## Main definitions

* `DocTag.closes`, `DocTag.Balanced`: Braces come in pairs.
* `DocTag.OpensGroup`: A text opens with a pair of braces.
* `DocTag.parts`, `DocTag.text`: What stands behind the name of a tag.
* `DocTag.Canonical`: The parts have a form in which they can be written.
* `DocTag.Unambiguous`: No part can be taken for another.

## Theorems

* `DocTag.splitBraced?_append`, `DocTag.eq_of_splitBraced?`: Where the reader finds the end of a
  type.
* `DocTag.takeType_group`, `DocTag.takeType_of_not_opensGroup`: A type is taken off, or there is
  none.
* `DocTag.takeArgument_word`: An argument is taken off.
* `DocTag.Canonical.ofBody_text_iff`: Which tags are read as they were written.
-/

namespace DocModel

open Text

namespace DocTag

/-! ### Braces -/

/-- Whether braces come in pairs, if some are open already. -/
def closes : Nat → List Char → Bool
  | depth, [] => depth == 0
  | depth, c :: cs =>
    if c = '\x7b' then closes (depth + 1) cs
    -- A brace that closes needs one to close.
    else if c = '\x7d' then depth != 0 && closes (depth - 1) cs
    else closes depth cs

/-- Braces come in pairs. -/
def Balanced (cs : List Char) : Prop := closes 0 cs = true

instance (cs : List Char) : Decidable (Balanced cs) := inferInstanceAs (Decidable (_ = _))

/-- A text opens with a pair of braces. -/
def OpensGroup (cs : List Char) : Prop :=
  ∃ inside rest, cs = '\x7b' :: (inside ++ '\x7d' :: rest) ∧ Balanced inside

/-- The reader goes over braces in pairs, and stops at the first that has no partner. -/
theorem splitBraced?_append {depth : Nat} {inside : List Char} (h : closes depth inside = true)
    (rest : List Char) :
    splitBraced? (depth + 1) (inside ++ '\x7d' :: rest) = some (inside, rest) := by
  induction inside generalizing depth with
  | nil =>
      have hdepth : depth = 0 := by simpa [closes] using h
      simp [splitBraced?, hdepth]
  | cons c cs ih =>
      by_cases hopen : c = '\x7b'
      · simp only [closes, hopen, if_true] at h
        simp [splitBraced?, hopen, ih h]
      · by_cases hclose : c = '\x7d'
        · -- A brace that closes one of those inside does not end the text.
          simp only [closes, hclose, Char.reduceEq, if_false, if_true, Bool.and_eq_true, bne_iff_ne]
            at h
          obtain ⟨n, rfl⟩ := Nat.exists_eq_succ_of_ne_zero h.1
          have hrest : closes n cs = true := h.2
          simp [splitBraced?, hclose, ih hrest]
        · simp only [closes, hopen, hclose, if_false] at h
          simp [splitBraced?, hopen, hclose, ih h]

/-- One character more before the place where the reader stops. -/
theorem exists_of_map_cons {c : Char} {cut : Option (List Char × List Char)}
    {inside rest : List Char}
    (h : (cut.map fun (a, b) => (c :: a, b)) = some (inside, rest)) :
    ∃ before, cut = some (before, rest) ∧ inside = c :: before := by
  obtain ⟨⟨before, rest'⟩, hcut, heq⟩ := Option.map_eq_some_iff.1 h
  obtain ⟨rfl, rfl⟩ := Prod.mk.inj heq
  exact ⟨before, hcut, rfl⟩

/-- Where the reader stops, there is a brace with pairs of braces before it. -/
theorem eq_of_splitBraced? {depth : Nat} {cs inside rest : List Char}
    (h : splitBraced? (depth + 1) cs = some (inside, rest)) :
    cs = inside ++ '\x7d' :: rest ∧ closes depth inside = true := by
  induction cs generalizing depth inside with
  | nil => simp [splitBraced?] at h
  | cons c cs ih =>
      rw [splitBraced?] at h
      by_cases hopen : c = '\x7b'
      · rw [if_pos hopen] at h
        obtain ⟨before, hcut, rfl⟩ := exists_of_map_cons h
        rcases ih hcut with ⟨rfl, hcloses⟩
        exact ⟨rfl, by simpa [closes, hopen] using hcloses⟩
      · rw [if_neg hopen] at h
        by_cases hclose : c = '\x7d'
        · rw [if_pos hclose] at h
          cases depth with
          | zero =>
              -- The partner of the first brace: nothing is open before it.
              rw [if_pos (Nat.le_refl 1), Option.some.injEq, Prod.mk.injEq] at h
              rw [← h.1, ← h.2, hclose]
              exact ⟨rfl, rfl⟩
          | succ depth =>
              rw [if_neg (by omega), Nat.add_sub_cancel] at h
              obtain ⟨before, hcut, rfl⟩ := exists_of_map_cons h
              rcases ih hcut with ⟨rfl, hcloses⟩
              exact ⟨rfl, by simpa [closes, hclose] using hcloses⟩
        · rw [if_neg hclose] at h
          obtain ⟨before, hcut, rfl⟩ := exists_of_map_cons h
          rcases ih hcut with ⟨rfl, hcloses⟩
          exact ⟨rfl, by simpa [closes, hopen, hclose] using hcloses⟩

/-- A type is taken off. -/
theorem takeType_group {inside : List Char} (h : Balanced inside) (rest : List Char) :
    takeType ('\x7b' :: (inside ++ '\x7d' :: rest)) = (some (trim inside), trimStart rest) := by
  rw [takeType, splitBraced?_append h]

/-- There is no type to take off. -/
theorem takeType_of_not_opensGroup {cs : List Char} (h : ¬ OpensGroup cs) :
    takeType cs = (none, cs) := by
  unfold takeType
  split
  · rename_i rest
    cases hs : splitBraced? 1 rest with
    | none => rfl
    | some cut =>
        rcases cut with ⟨inside, rest'⟩
        rcases eq_of_splitBraced? hs with ⟨rfl, hcloses⟩
        exact absurd ⟨inside, rest', rfl, hcloses⟩ h
  · rfl

instance (cs : List Char) : Decidable (OpensGroup cs) :=
  decidable_of_iff ((takeType cs).1.isSome = true) (by
    constructor
    · intro h
      by_contra hopens
      rw [takeType_of_not_opensGroup hopens] at h
      exact Bool.false_ne_true h
    · rintro ⟨inside, rest, rfl, hinside⟩
      rw [takeType_group hinside]
      rfl)

/-! ### Arguments and comments -/

/-- A text without a dash before it. -/
def undashed (cs : List Char) : List Char :=
  if cs.head? = some '-' then trimStart cs.tail else cs

/-- The comment that is left of a text, if it is not blank. -/
def commentOf (cs : List Char) : Option String :=
  if (trim cs).isEmpty then none else some (String.ofList (trimEnd cs))

/-- A word is taken off with the dash behind it. -/
theorem takeArgument_word {word rest : List Char} (hword : ∀ c ∈ word, isBlank c = false)
    (hrest : ∀ c ∈ rest.head?, isBlank c = true) :
    takeArgument (word ++ rest) = (argumentName word, undashed (trimStart rest)) := by
  rw [takeArgument, splitWord_word hword hrest, undashed]
  simp only []
  -- The dash goes with the argument.
  split
  · rename_i h
    rw [h]
    rfl
  · -- The reader has seen no dash, so the text does not start with one.
    rename_i h
    rw [if_neg]
    intro hdash
    cases hcs : trimStart rest with
    | nil => simp [hcs] at hdash
    | cons c cs =>
        rw [hcs, List.head?_cons, Option.some.injEq] at hdash
        exact h cs (by rw [hcs, hdash])

/-- A word without brackets and default is the name itself. -/
theorem argumentName_eq_self {word : List Char} (hopen : word.head? ≠ some '[')
    (hclose : word.getLast? ≠ some ']') (heq : '=' ∉ word) : argumentName word = word := by
  have hstart : word.dropWhile (· == '[') = word := by
    cases word with
    | nil => rfl
    | cons c cs =>
        refine List.dropWhile_cons_of_neg ?_
        rintro h
        exact hopen (by rw [List.head?_cons, eq_of_beq h])
  have hend : word.reverse.dropWhile (· == ']') = word.reverse := by
    cases hrev : word.reverse with
    | nil => rfl
    | cons c cs =>
        refine List.dropWhile_cons_of_neg ?_
        rintro h
        refine hclose ?_
        rw [← List.head?_reverse, hrev, List.head?_cons, eq_of_beq h]
  rw [argumentName]
  simp only [hstart, hend, List.reverse_reverse]
  -- Nothing is cut off behind the name, since no default follows.
  rw [List.takeWhile_eq_self_iff]
  intro c hc
  rw [bne_iff_ne]
  rintro rfl
  exact heq hc

/-- A tag that takes no argument, or has nothing to take it from. -/
theorem ofBody_bare {name body rest : List Char} {type : Option (List Char)}
    (htype : takeType (trim body) = (type, rest))
    (h : String.ofList name ∈ namesWithArgument → rest = []) :
    ofBody name body =
      { name := String.ofList name, argument := none, comment := commentOf rest,
        type := type.map String.ofList } := by
  have htakes : (namesWithArgument.contains (String.ofList name) && !rest.isEmpty) = false := by
    rw [Bool.and_eq_false_iff, List.contains_eq_mem, decide_eq_false_iff_not, Bool.not_eq_false',
      List.isEmpty_iff]
    exact or_iff_not_imp_left.2 fun hm => h (not_not.1 hm)
  rw [ofBody]
  simp only [htype, htakes, Bool.false_eq_true, if_false, Option.map_none]
  rfl

/-- A tag that takes an argument. -/
theorem ofBody_argument {name body rest : List Char} {type : Option (List Char)}
    (htype : takeType (trim body) = (type, rest)) (h : String.ofList name ∈ namesWithArgument)
    (hrest : rest ≠ []) :
    ofBody name body =
      { name := String.ofList name,
        argument := some (String.ofList (takeArgument rest).1),
        comment := commentOf (takeArgument rest).2,
        type := type.map String.ofList } := by
  have htakes : (namesWithArgument.contains (String.ofList name) && !rest.isEmpty) = true := by
    rw [Bool.and_eq_true, List.contains_eq_mem, decide_eq_true_iff, Bool.not_eq_true',
      List.isEmpty_eq_false_iff]
    exact ⟨h, hrest⟩
  rw [ofBody]
  simp only [htype, htakes, if_true, Option.map_some]
  rfl

/-! ### Tags as they are written -/

/-- A type that can be written between braces. -/
@[mk_iff]
structure TypeForm (cs : List Char) : Prop where
  trimmed : trim cs = cs
  oneLine : '\n' ∉ cs
  balanced : Balanced cs

/-- A name that is documented: a word without the marks of an optional parameter. -/
@[mk_iff]
structure ArgumentForm (cs : List Char) : Prop where
  nonempty : cs ≠ []
  word : ∀ c ∈ cs, isBlank c = false
  noDefault : '=' ∉ cs
  noOpening : cs.head? ≠ some '['
  noClosing : cs.getLast? ≠ some ']'

/-- A comment: no line of it has blanks at its end, and none but the first can mean anything
    else. -/
@[mk_iff]
structure CommentForm (cs : List Char) : Prop where
  nonempty : cs ≠ []
  trimmed : trim cs = cs
  trimmedLines : ∀ l ∈ cs.splitOn '\n', trimEnd l = l
  laterLines : ∀ l ∈ (cs.splitOn '\n').tail,
    DocComment.opensTag l = false ∧ DocComment.isFence l = false

/-- A tag that can be written. Where an argument can stand, a comment does not stand without one. -/
@[mk_iff]
structure Canonical (t : DocTag) : Prop where
  name_nonempty : t.name ≠ ""
  name_word : ∀ c ∈ t.name.toList, isBlank c = false
  type_form : ∀ s ∈ t.type, TypeForm s.toList
  argument_form : ∀ s ∈ t.argument, ArgumentForm s.toList
  comment_form : ∀ s ∈ t.comment, CommentForm s.toList
  argument_taken : t.argument.isSome = true → t.name ∈ namesWithArgument
  argument_given : t.name ∈ namesWithArgument → t.comment.isSome = true → t.argument.isSome = true

/-- The argument and the comment, as far as they are there. -/
def partsBehindType (t : DocTag) : List (List Char) :=
  (t.argument.map String.toList).toList ++ (t.comment.map String.toList).toList

/-- What stands behind the name of a tag, part by part. -/
def parts (t : DocTag) : List (List Char) :=
  (t.type.map fun s => '\x7b' :: (s.toList ++ ['\x7d'])).toList ++ t.partsBehindType

/-- The text behind the name of a tag. -/
def text (t : DocTag) : List Char := [' '].intercalate t.parts

/-- No part of the tag can be taken for another: what opens with a pair of braces is the type, and a
    comment behind an argument does not start with a dash. -/
@[mk_iff]
structure Unambiguous (t : DocTag) : Prop where
  untyped : t.type = none → ¬ OpensGroup t.text
  undashed : t.argument.isSome = true → ∀ s ∈ t.comment, s.toList.head? ≠ some '-'

instance (cs : List Char) : Decidable (TypeForm cs) := decidable_of_iff' _ (typeForm_iff cs)

instance (cs : List Char) : Decidable (ArgumentForm cs) := decidable_of_iff' _ (argumentForm_iff cs)

instance (cs : List Char) : Decidable (CommentForm cs) := decidable_of_iff' _ (commentForm_iff cs)

instance (t : DocTag) : Decidable t.Canonical := decidable_of_iff' _ (canonical_iff t)

instance (t : DocTag) : Decidable t.Unambiguous := decidable_of_iff' _ (unambiguous_iff t)

/-- A text in a row of others keeps blanks out of its ends. -/
def PartForm (cs : List Char) : Prop := cs ≠ [] ∧ trimStart cs = cs ∧ trimEnd cs = cs

theorem partForm_braced (cs : List Char) : PartForm ('\x7b' :: (cs ++ ['\x7d'])) := by
  refine ⟨List.cons_ne_nil _ _, trimStart_cons_of_not_blank (by decide), ?_⟩
  -- The closing brace is the last character of all.
  rw [← List.cons_append]
  exact trimEnd_concat_of_not_blank (by decide)

theorem ArgumentForm.partForm {cs : List Char} (h : ArgumentForm cs) : PartForm cs :=
  ⟨h.nonempty, trimStart_word h.word, trimEnd_word h.word⟩

theorem CommentForm.partForm {cs : List Char} (h : CommentForm cs) : PartForm cs :=
  ⟨h.nonempty, trimStart_eq_self_of_trim h.trimmed, trimEnd_eq_self_of_trim h.trimmed⟩

/-- Texts in a row have no blanks around them. -/
theorem trim_intercalate {ps : List (List Char)} (h : ∀ p ∈ ps, PartForm p) :
    trim ([' '].intercalate ps) = [' '].intercalate ps := by
  refine trim_eq_self ?_ (trimEnd_intercalate ' ' fun p hp => ⟨(h p hp).1, (h p hp).2.2⟩)
  cases ps with
  | nil => rfl
  | cons p ps =>
      rcases h p List.mem_cons_self with ⟨hne, hstart, -⟩
      rw [intercalate_cons_eq, trimStart_append (by rwa [hstart]), hstart]

/-- A row of texts, each with a blank before it. -/
theorem trimStart_spaced {ps : List (List Char)} (h : ∀ p ∈ ps, PartForm p) :
    trimStart (ps.flatMap (' ' :: ·)) = [' '].intercalate ps := by
  cases ps with
  | nil => rfl
  | cons p ps =>
      -- The first blank goes, and the first text starts without one.
      rcases h p List.mem_cons_self with ⟨hne, hstart, -⟩
      rw [intercalate_cons_eq, List.flatMap_cons, List.cons_append,
        trimStart_cons_of_blank (by decide), trimStart_append (by rwa [hstart]), hstart]

theorem trimEnd_spaced {ps : List (List Char)} (h : ∀ p ∈ ps, PartForm p) :
    trimEnd (ps.flatMap (' ' :: ·)) = ps.flatMap (' ' :: ·) := by
  cases ps with
  | nil => rfl
  | cons p ps =>
      have hrow : (p :: ps).flatMap (' ' :: ·) = [' '] ++ [' '].intercalate (p :: ps) := by
        rw [intercalate_cons_eq, List.flatMap_cons]
        rfl
      rw [hrow]
      exact trimEnd_append_eq_self (trimEnd_eq_self_of_trim (trim_intercalate h))
        (intercalate_cons_ne_nil ' ' (h p List.mem_cons_self).1 ps)

variable {t : DocTag}

theorem Canonical.partsBehindType_form (h : t.Canonical) : ∀ p ∈ t.partsBehindType, PartForm p := by
  intro p hp
  simp only [partsBehindType, List.mem_append, Option.mem_toList,
    Option.map_eq_some_iff] at hp
  rcases hp with ⟨s, hs, rfl⟩ | ⟨s, hs, rfl⟩
  · exact (h.argument_form s hs).partForm
  · exact (h.comment_form s hs).partForm

theorem Canonical.parts_form (h : t.Canonical) : ∀ p ∈ t.parts, PartForm p := by
  intro p hp
  simp only [parts, List.mem_append, Option.mem_toList,
    Option.map_eq_some_iff] at hp
  rcases hp with ⟨s, hs, rfl⟩ | hp
  · exact partForm_braced s.toList
  · exact h.partsBehindType_form p hp

theorem Canonical.trim_text (h : t.Canonical) : trim t.text = t.text :=
  trim_intercalate h.parts_form

/-- The type is read, and what stands behind it is left. -/
theorem Canonical.takeType_text (h : t.Canonical) (hu : t.type = none → ¬ OpensGroup t.text) :
    takeType t.text = (t.type.map String.toList, [' '].intercalate t.partsBehindType) := by
  cases htype : t.type with
  | none =>
      rw [takeType_of_not_opensGroup (hu htype), text, parts, htype]
      rfl
  | some s =>
      -- The type comes first, in its braces.
      have htext : t.text =
          '\x7b' :: (s.toList ++ '\x7d' :: t.partsBehindType.flatMap (' ' :: ·)) := by
        simp [text, parts, htype, intercalate_cons_eq]
      have hform := h.type_form s htype
      rw [htext, takeType_group hform.balanced, trimStart_spaced h.partsBehindType_form,
        hform.trimmed]
      rfl

theorem commentOf_nil : commentOf [] = none := rfl

theorem CommentForm.commentOf_eq {s : String} (h : CommentForm s.toList) :
    commentOf s.toList = some s := by
  rw [commentOf, h.trimmed, if_neg (by rw [List.isEmpty_iff]; exact h.nonempty),
    trimEnd_eq_self_of_trim h.trimmed, String.ofList_toList]

theorem ofBody_type (name body : List Char) :
    (ofBody name body).type = (takeType (trim body)).1.map String.ofList := rfl

/-- A tag is read as it was written, except that its comment may have lost a dash. -/
theorem Canonical.ofBody_text (h : t.Canonical) (hu : t.type = none → ¬ OpensGroup t.text) :
    ofBody t.name.toList t.text =
      { t with comment := t.comment.bind fun s =>
          if t.argument.isSome then commentOf (undashed s.toList) else some s } := by
  -- Trimming changes nothing, so the type is read as it was written.
  have htype := h.takeType_text hu
  rw [← h.trim_text] at htype
  have hname : String.ofList t.name.toList = t.name := String.ofList_toList
  have htypes : (t.type.map String.toList).map String.ofList = t.type := by
    simp
  cases hargument : t.argument with
  | none =>
      -- Nothing is taken for an argument: the tag takes none, or nothing is left behind the type.
      have hrest : t.name ∈ namesWithArgument → [' '].intercalate t.partsBehindType = [] := by
        intro hm
        cases hcomment : t.comment with
        | none => simp [partsBehindType, hargument, hcomment]
        | some s =>
            have := h.argument_given hm (by rw [hcomment]; rfl)
            rw [hargument] at this
            exact absurd this Bool.false_ne_true
      rw [ofBody_bare htype (by rwa [hname]), hname, htypes]
      cases hcomment : t.comment with
      | none => simp [partsBehindType, hargument, hcomment, commentOf_nil]
      | some s =>
          simp [partsBehindType, hargument, hcomment, (h.comment_form s hcomment).commentOf_eq]
  | some a =>
      have hform := h.argument_form a hargument
      have hm : String.ofList t.name.toList ∈ namesWithArgument := by
        rw [hname]
        exact h.argument_taken (by rw [hargument]; rfl)
      -- The argument is the first word behind the type, up to the blank before the comment.
      let later : List (List Char) := (t.comment.map String.toList).toList
      have hbehind : [' '].intercalate t.partsBehindType =
          a.toList ++ later.flatMap (' ' :: ·) := by
        simp [partsBehindType, hargument, later, intercalate_cons_eq]
      have hblank : ∀ c ∈ (later.flatMap (' ' :: ·)).head?, isBlank c = true := by
        cases hcomment : t.comment with
        | none => simp [later, hcomment]
        | some s => simp [later, hcomment, isBlank_of_isWhitespace]
      have hlater : ∀ p ∈ later, PartForm p := fun p hp =>
        h.partsBehindType_form p (List.mem_append_right _ hp)
      rw [hbehind] at htype
      rw [ofBody_argument htype hm (List.append_ne_nil_of_left_ne_nil hform.nonempty _), hname,
        htypes, takeArgument_word hform.word hblank, trimStart_spaced hlater,
        argumentName_eq_self hform.noOpening hform.noClosing hform.noDefault,
        String.ofList_toList]
      cases hcomment : t.comment with
      | none => simp [later, hcomment, undashed, commentOf_nil]
      | some s => simp [later, hcomment]

theorem length_of_commentOf {cs : List Char} {s : String} (h : commentOf cs = some s) :
    s.toList.length ≤ cs.length := by
  rw [commentOf] at h
  split at h
  · cases h
  · rw [← Option.some.inj h, String.toList_ofList]
    exact length_trimEnd_le cs

/-- A canonical tag is read as it was written if no part of it can be taken for another, and in no
    other case. -/
theorem Canonical.ofBody_text_iff (h : t.Canonical) :
    ofBody t.name.toList t.text = t ↔ t.Unambiguous := by
  constructor
  · intro heq
    have huntyped : t.type = none → ¬ OpensGroup t.text := by
      rintro hnone ⟨inside, rest, htext, hinside⟩
      -- The reader would find a type where there is none.
      have htype := congrArg DocTag.type heq
      rw [ofBody_type, h.trim_text, htext, takeType_group hinside, hnone] at htype
      exact absurd htype (by simp only [Option.map_some, reduceCtorEq, not_false_eq_true])
    refine ⟨huntyped, fun hargument s hs hdash => ?_⟩
    rw [h.ofBody_text huntyped] at heq
    rw [Option.mem_def] at hs
    have hcomment := congrArg DocTag.comment heq
    simp only [hs, Option.bind_some, hargument, if_true] at hcomment
    -- Without the dash less is left than the comment.
    have hlen := length_of_commentOf hcomment
    rw [undashed, if_pos hdash] at hlen
    have hle := length_trimStart_le s.toList.tail
    have hpos := List.length_pos_of_ne_nil (h.comment_form s hs).nonempty
    rw [List.length_tail] at hle
    omega
  · intro hu
    rw [h.ofBody_text hu.untyped]
    -- No dash is lost.
    have hcomment : (t.comment.bind fun s =>
        if t.argument.isSome then commentOf (undashed s.toList) else some s) = t.comment := by
      cases hs : t.comment with
      | none => rfl
      | some s =>
          rw [Option.bind_some]
          split
          · rename_i hargument
            rw [undashed, if_neg (hu.undashed hargument s hs), (h.comment_form s hs).commentOf_eq]
          · rfl
    rw [hcomment]

end DocTag

end DocModel
