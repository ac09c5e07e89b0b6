import DocModel.Proofs.TagText

/-!
# Optional parameters with a default

A parameter that may be left out is documented in brackets, and its default can stand in them as
well. The word behind the type is taken for all of this, and its name is what stands between the
bracket and the equals sign. That is right for the name in any case, since it stands in front of the
default. But the word ends at the first blank, so a default with a blank in it is cut there. What
comes behind the blank is read as the description, up to the closing bracket and with the
description itself behind that.

## Main definitions

* `DocComment.inline`: The raw comment with one line, between its delimiters.
* `DocTag.bracketed`, `DocTag.optionalParameter`: An optional parameter as it is written.

## Theorems

* `DocComment.parse?_inline`: A comment with one tag is read.
* `DocTag.argumentName_bracketed`: The name of an optional parameter.
* `DocTag.takeArgument_bracketed`: What is read of an optional parameter.
* `DocComment.default_split_iff`: Which defaults are kept out of the description.
-/

namespace DocModel

open Text

namespace DocComment

/-- The raw comment with one line, between its delimiters. -/
def inline (line : List Char) : List Char := "/** ".toList ++ (line ++ " */".toList)

/-- The blanks around the line are left, and none before an at sign. -/
theorem strip_inline {cs : List Char} (h : '\n' ∉ cs) :
    strip (inline ('@' :: cs)) = ['@' :: (cs ++ [' '])] := by
  have hbody : inline ('@' :: cs) =
      ['/', '*', '*'] ++ (' ' :: '@' :: (cs ++ [' ']) ++ ['*', '/']) := by
    simp [inline]
  have hline : '\n' ∉ ' ' :: '@' :: (cs ++ [' ']) := by simp [h]
  rw [hbody, strip_delimited, lines_last hline (List.cons_ne_nil _ _), List.map_cons,
    List.map_nil, stripLine, trimStart_cons_of_blank (by decide),
    trimStart_cons_of_not_blank (by decide)]
  rfl

/-- A comment with one tag is read. -/
theorem parse?_inline {name text : List Char} (hname : ∀ c ∈ name, isBlank c = false)
    (htext : '\n' ∉ text) :
    parse? (String.ofList (inline ('@' :: (name ++ ' ' :: text)))) =
      some { tags := [DocTag.ofBody name text] } := by
  have hfeed : '\n' ∉ name ++ ' ' :: text := by
    simp [not_mem_of_not_blank isBlank_feed hname, htext]
  -- The blank before the last delimiter belongs to the line, and is trimmed off with the tag.
  have hbody : trim (trimStart (trimEnd (' ' :: (text ++ [' '])))) = trim text := by
    rw [trim_behind_name, trim_append_of_blank (by simp [isBlank_of_isWhitespace])]
  have hread : ofLines ['@' :: (name ++ ' ' :: text ++ [' '])] =
      { tags := [DocTag.ofBody name text] } := by
    rw [ofLines, List.foldl_cons, List.foldl_nil, List.append_assoc, List.cons_append,
      Draft.read_tagLine rfl hname isBlank_head_space, ← DocTag.ofBody_congr name hbody]
    rfl
  rw [parse?, String.toList_ofList, strip_inline hfeed, hread]
  rfl

end DocComment

namespace DocTag

/-- An optional parameter with its default and its description. -/
def bracketed (name default description : List Char) : List Char :=
  '[' :: (name ++ '=' :: (default ++ ']' :: ' ' :: description))

/-- The line of an optional parameter. -/
def optionalParameter (type name default description : List Char) : List Char :=
  '@' :: ("param".toList ++
    ' ' :: '\x7b' :: (type ++ '\x7d' :: ' ' :: bracketed name default description))

/-- A name that can stand in brackets. -/
structure BracketedName (name : List Char) : Prop where
  nonempty : name ≠ []
  word : ∀ c ∈ name, isBlank c = false
  noDefault : '=' ∉ name
  noOpening : '[' ∉ name

variable {name default description : List Char}

/-- The name of an optional parameter stands before the first equals sign. -/
theorem argumentName_bracketed (h : BracketedName name) (rest : List Char) :
    argumentName ('[' :: (name ++ '=' :: rest)) = name := by
  -- The name does not start with a bracket, so one bracket is dropped.
  have hopening : ('[' :: (name ++ '=' :: rest)).dropWhile (· == '[') = name ++ '=' :: rest := by
    rw [List.dropWhile_cons_of_pos (by decide)]
    cases name with
    | nil => exact absurd rfl h.nonempty
    | cons c cs =>
        refine List.dropWhile_cons_of_neg ?_
        rw [beq_iff_eq]
        rintro rfl
        exact h.noOpening List.mem_cons_self
  -- Closing brackets are dropped from behind the equals sign only.
  have hclosing : ((name ++ '=' :: rest).reverse.dropWhile (· == ']')).reverse =
      name ++ '=' :: (rest.reverse.dropWhile (· == ']')).reverse := by
    rw [List.reverse_append, List.reverse_cons, List.append_assoc, List.dropWhile_append]
    split
    · rename_i hempty
      rw [List.isEmpty_iff.1 hempty, List.singleton_append,
        List.dropWhile_cons_of_neg (by decide)]
      simp
    · simp
  rw [argumentName]
  simp only [hopening, hclosing]
  have hname : ∀ c ∈ name, (c != '=') = true := by
    intro c hc
    rw [bne_iff_ne]
    rintro rfl
    exact h.noDefault hc
  rw [List.takeWhile_append_of_pos hname, List.takeWhile_cons_of_neg (by decide), List.append_nil]

/-- Up to a character that is not blank, blanks are dropped from what is before it. -/
theorem trimStart_before {c : Char} (hc : isBlank c = false) (cs rest : List Char) :
    trimStart (cs ++ c :: rest) = trimStart cs ++ c :: rest := by
  by_cases hcs : trimStart cs = []
  · rw [hcs, trimStart, List.dropWhile_append_of_pos (trimStart_eq_nil_iff.1 hcs)]
    exact trimStart_cons_of_not_blank hc
  · exact trimStart_append hcs

/-- A default without blanks is read with the name. -/
theorem takeArgument_bracketed (h : BracketedName name)
    (hdefault : ∀ c ∈ default, isBlank c = false)
    (hstart : trimStart description = description) (hdash : description.head? ≠ some '-') :
    takeArgument (bracketed name default description) = (name, description) := by
  -- The word goes up to the blank behind the closing bracket.
  have hcut : bracketed name default description =
      '[' :: (name ++ '=' :: (default ++ [']'])) ++ ' ' :: description := by
    simp [bracketed]
  have hword : ∀ c ∈ '[' :: (name ++ '=' :: (default ++ [']'])), isBlank c = false := by
    simp only [List.forall_mem_cons, List.forall_mem_append]
    exact ⟨by decide, h.word, by decide, hdefault, by decide, by simp⟩
  rw [hcut, takeArgument_word hword DocComment.isBlank_head_space, argumentName_bracketed h,
    trimStart_cons_of_blank (by decide), hstart, undashed, if_neg hdash]

/-- A default with a blank is cut at the first, and what is behind goes to the description. -/
theorem takeArgument_bracketed_of_blank (description : List Char) (h : BracketedName name)
    (hdefault : ∃ c ∈ default, isBlank c = true) :
    ∃ leak, takeArgument (bracketed name default description) =
      (name, leak ++ ']' :: ' ' :: description) := by
  obtain ⟨c, hfind⟩ := Option.isSome_iff_exists.1 (List.find?_isSome.2 hdefault)
  obtain ⟨hc, before, after, hsplit, hbefore⟩ := List.find?_eq_some_iff_append.1 hfind
  simp only [Bool.not_eq_true'] at hbefore
  -- The word goes up to the first blank of the default.
  have hcut : bracketed name default description =
      '[' :: (name ++ '=' :: before) ++ c :: (after ++ ']' :: ' ' :: description) := by
    simp [bracketed, hsplit]
  have hword : ∀ d ∈ '[' :: (name ++ '=' :: before), isBlank d = false := by
    simp only [List.forall_mem_cons, List.forall_mem_append]
    exact ⟨by decide, h.word, by decide, hbefore⟩
  rw [hcut, takeArgument_word hword (by simp [hc]), argumentName_bracketed h,
    trimStart_cons_of_blank hc, trimStart_before (by decide)]
  -- A dash in front of the piece is dropped with the blanks behind it.
  cases hpiece : trimStart after with
  | nil => exact ⟨[], rfl⟩
  | cons d ds =>
      by_cases hd : d = '-'
      · refine ⟨trimStart ds, ?_⟩
        rw [hd, undashed, List.cons_append, List.head?_cons, if_pos rfl, List.tail_cons,
          trimStart_before (by decide)]
      · refine ⟨d :: ds, ?_⟩
        rw [undashed, List.cons_append, List.head?_cons, if_neg (by rwa [Option.some.injEq])]

/-- A text that ends in a description is taken for a comment. -/
theorem commentOf_append (lead : List Char) (hend : trimEnd description = description)
    (hne : description ≠ []) :
    commentOf (lead ++ description) = some (String.ofList (lead ++ description)) := by
  -- The description has a character that is not blank.
  have hblank : trim (lead ++ description) ≠ [] := by
    intro h
    refine hne (hend ▸ trimEnd_eq_nil_iff.2 fun c hc => ?_)
    exact trim_eq_nil_iff.1 h c (List.mem_append_right lead hc)
  rw [commentOf, if_neg (by rwa [List.isEmpty_iff]), trimEnd_append_eq_self hend hne]

/-- The type of an optional parameter is read, then its name, then what is left. -/
theorem ofBody_bracketed {type lead : List Char} (htype : Balanced type)
    (hend : trimEnd description = description) (hne : description ≠ [])
    (htake : takeArgument (bracketed name default description) = (name, lead ++ description)) :
    ofBody "param".toList
        ('\x7b' :: (type ++ '\x7d' :: ' ' :: bracketed name default description)) =
      { name := "param", argument := some (String.ofList name),
        comment := some (String.ofList (lead ++ description)),
        type := some (String.ofList (trim type)) } := by
  let front := '\x7b' :: (type ++ '\x7d' :: ' ' :: '[' :: (name ++ '=' :: (default ++ [']', ' '])))
  have htext : '\x7b' :: (type ++ '\x7d' :: ' ' :: bracketed name default description) =
      front ++ description := by
    simp [bracketed, front]
  -- Nothing is trimmed off: the text opens with a brace and ends in the description.
  have htrim : trim (front ++ description) = front ++ description :=
    trim_eq_self (trimStart_cons_of_not_blank (by decide)) (trimEnd_append_eq_self hend hne)
  have hread : takeType (trim (front ++ description)) =
      (some (trim type), bracketed name default description) := by
    rw [htrim, ← htext, takeType_group htype, trimStart_cons_of_blank (by decide), bracketed,
      trimStart_cons_of_not_blank (by decide)]
  rw [htext, ofBody_argument hread (by decide) (List.cons_ne_nil _ _), htake,
    commentOf_append lead hend hne]
  rfl

end DocTag

namespace DocComment

/-- An optional parameter with a default is read as one tag, and under its name. The description is
    read as it was written if there are no blanks in the default, and in no other case: with a blank
    it has a piece of the default before it. -/
theorem default_split_iff (type name default description : List Char)
    (htype : DocTag.Balanced type) (hname : DocTag.BracketedName name)
    (hlines : ∀ cs ∈ [type, default, description], '\n' ∉ cs)
    (hne : description ≠ []) (htrim : trim description = description)
    (hdash : description.head? ≠ some '-') :
    ∃ comment,
      parse? (String.ofList (inline (DocTag.optionalParameter type name default description))) =
        some { tags :=
          [{ name := "param", argument := some (String.ofList name),
             comment := some (String.ofList comment),
             type := some (String.ofList (trim type)) }] } ∧
      (comment = description ↔ ∀ c ∈ default, isBlank c = false) ∧
      ((∃ c ∈ default, isBlank c = true) →
        ∃ leak, comment = leak ++ ']' :: ' ' :: description) := by
  simp only [List.forall_mem_cons] at hlines
  obtain ⟨htypeLine, hdefaultLine, hdescriptionLine, -⟩ := hlines
  have hstart := trimStart_eq_self_of_trim htrim
  have hend := trimEnd_eq_self_of_trim htrim
  have hfeed : '\n' ∉
      '\x7b' :: (type ++ '\x7d' :: ' ' :: DocTag.bracketed name default description) := by
    simp [DocTag.bracketed, htypeLine, hdefaultLine, hdescriptionLine,
      not_mem_of_not_blank isBlank_feed hname.word]
  have hread (lead : List Char)
      (htake : DocTag.takeArgument (DocTag.bracketed name default description) =
        (name, lead ++ description)) :=
    (parse?_inline (show ∀ c ∈ "param".toList, isBlank c = false by decide) hfeed).trans
      (congrArg (fun t : DocTag => some { tags := [t] : DocComment })
        (DocTag.ofBody_bracketed htype hend hne htake))
  -- Whatever is left before the description, the tag is read; what is left depends on the default.
  by_cases hblank : ∃ c ∈ default, isBlank c = true
  · obtain ⟨leak, htake⟩ := DocTag.takeArgument_bracketed_of_blank description hname hblank
    rw [List.append_cons, List.append_cons] at htake
    refine ⟨leak ++ [']'] ++ [' '] ++ description, hread _ htake, ?_, fun _ => ⟨leak, by simp⟩⟩
    constructor
    · -- What is left is longer than the description by the closing bracket at least.
      intro h
      have hlen := congrArg List.length h
      simp only [List.length_append, List.length_singleton] at hlen
      omega
    · intro h
      obtain ⟨c, hc, hcb⟩ := hblank
      rw [h c hc] at hcb
      exact absurd hcb Bool.false_ne_true
  · have hdefault : ∀ c ∈ default, isBlank c = false := fun c hc =>
      Bool.eq_false_iff.2 fun h => hblank ⟨c, hc, h⟩
    have htake := DocTag.takeArgument_bracketed hname hdefault hstart hdash
    exact ⟨description, hread [] htake, iff_of_true rfl hdefault,
      fun h => absurd h hblank⟩

/-- A default in quotes with no blank in it leaves the description alone. -/
theorem default_split_iff_quoted :
    ∃ comment,
      parse? (String.ofList (inline (DocTag.optionalParameter "string".toList "label".toList
          "\"x=\x7b1\x7d\"".toList "shown label".toList))) =
        some { tags :=
          [{ name := "param", argument := some (String.ofList "label".toList),
             comment := some (String.ofList comment),
             type := some (String.ofList (trim "string".toList)) }] } ∧
      (comment = "shown label".toList ↔
        ∀ c ∈ "\"x=\x7b1\x7d\"".toList, isBlank c = false) ∧
      ((∃ c ∈ "\"x=\x7b1\x7d\"".toList, isBlank c = true) →
        ∃ leak, comment = leak ++ ']' :: ' ' :: "shown label".toList) :=
  default_split_iff "string".toList "label".toList "\"x=\x7b1\x7d\"".toList
    "shown label".toList (by decide)
    ⟨by decide, by decide, by decide, by decide⟩ (by decide) (by decide) (by decide) (by decide)

/-- A default with a blank in it goes to the description, from the blank on. -/
theorem default_leaks :
    parse? "/** @param \x7bstring\x7d [label=\"a b\"] shown label */" =
      some { tags :=
        [{ name := "param", argument := some "label", comment := some "b\"] shown label",
           type := some "string" }] } := by
  decide +kernel

end DocComment

end DocModel
