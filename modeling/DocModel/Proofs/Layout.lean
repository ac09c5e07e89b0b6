import DocModel.Proofs.TagText

/-!
# The canonical layout of a comment

A comment is written line by line: the lines of each paragraph with an empty line behind them, then
the lines of each tag. A paragraph is read as long as its lines have text and open no tag, and ends
at the empty line. A tag is read as long as no other tag is opened. So of what is written all is
read, and it goes where it belongs. What is left to the reader is to take the text of each tag apart
again, and this is where `DocTag.Unambiguous` comes in.

## Main definitions

* `DocComment.ParagraphForm`, `DocComment.Canonical`: Comments that can be written.
* `DocTag.lines`, `DocComment.writtenLines`: The lines of a tag and of a comment.
* `DocComment.layout`: The raw text of a comment.

## Theorems

* `DocComment.Draft.read_paragraph`: The lines of a paragraph are read.
* `DocTag.Canonical.lines_eq`, `DocComment.Draft.read_lines`: The lines of a tag are read.
* `DocComment.ofLines_writtenLines`: The lines of a comment are read.
* `DocComment.parse?_layout_iff`: Which comments are read as they were written.
-/

namespace DocModel

open Text

namespace DocTag

/-- The lines of a tag. -/
def lines (t : DocTag) : List (List Char) :=
  ('@' :: (t.name.toList ++ t.parts.flatMap (' ' :: ·))).splitOn '\n'

/-- The type and the argument, as far as they are there. -/
def partsBeforeComment (t : DocTag) : List (List Char) :=
  (t.type.map fun s => '\x7b' :: (s.toList ++ ['\x7d'])).toList ++
    (t.argument.map String.toList).toList

variable {t : DocTag}

/-- The comment comes last. -/
theorem parts_eq (t : DocTag) :
    t.parts = t.partsBeforeComment ++ (t.comment.map String.toList).toList := by
  rw [parts, partsBehindType, partsBeforeComment, List.append_assoc]

/-- Only a comment has more than one line. -/
theorem Canonical.feed_not_mem (h : t.Canonical) :
    '\n' ∉ '@' :: (t.name.toList ++ t.partsBeforeComment.flatMap (' ' :: ·)) := by
  -- Types have one line, and arguments have no blanks at all.
  have hparts : ∀ p ∈ t.partsBeforeComment, '\n' ∉ p := by
    intro p hp
    simp only [partsBeforeComment, List.mem_append, Option.mem_toList,
      Option.map_eq_some_iff] at hp
    rcases hp with ⟨s, hs, rfl⟩ | ⟨s, hs, rfl⟩
    · simp [(h.type_form s hs).oneLine]
    · exact not_mem_of_not_blank isBlank_feed (h.argument_form s hs).word
  have hname := not_mem_of_not_blank isBlank_feed h.name_word
  simp only [List.mem_cons, List.mem_append, List.mem_flatMap, Char.reduceEq, false_or, not_or,
    not_exists, not_and]
  exact ⟨hname, hparts⟩

/-- The first line of a comment has no blanks around it, and some text. -/
theorem CommentForm.firstLine {cs l : List Char} {more : List (List Char)} (h : CommentForm cs)
    (hsplit : cs.splitOn '\n' = l :: more) : PartForm l := by
  -- Blanks in front of the line would be blanks in front of the comment.
  have hstart := trimStart_eq_self_of_trim h.trimmed
  have hend : trimEnd l = l := h.trimmedLines l (by rw [hsplit]; exact List.mem_cons_self)
  have hcs := eq_of_splitOn hsplit
  cases l with
  | nil =>
      -- Otherwise the comment is empty, or starts with a line feed.
      cases more with
      | nil => exact absurd hcs h.nonempty
      | cons m more =>
          rw [hcs, List.flatMap_cons, List.nil_append, List.cons_append] at hstart
          exact absurd (not_blank_of_trimStart hstart) (by decide)
  | cons c l =>
      rw [hcs, List.cons_append] at hstart
      exact ⟨List.cons_ne_nil c l,
        trimStart_cons_of_not_blank (not_blank_of_trimStart hstart), hend⟩

/-- The first line of a tag is a row of texts, and the others go on with its comment. -/
theorem Canonical.lines_eq (h : t.Canonical) :
    ∃ ps more, t.lines = ('@' :: (t.name.toList ++ ps.flatMap (' ' :: ·))) :: more ∧
      t.parts.flatMap (' ' :: ·) = ps.flatMap (' ' :: ·) ++ more.flatMap ('\n' :: ·) ∧
      (∀ p ∈ ps, PartForm p) ∧ (more ≠ [] → ps ≠ []) ∧
      ∀ l ∈ more, trimEnd l = l ∧ DocComment.opensTag l = false ∧ DocComment.isFence l = false := by
  cases hcomment : t.comment with
  | none =>
      have hparts : t.parts = t.partsBeforeComment := by
        rw [parts_eq, hcomment]
        exact List.append_nil _
      refine ⟨t.partsBeforeComment, [], ?_, ?_, ?_, ?_, ?_⟩
      · rw [lines, hparts, List.splitOn_eq_singleton h.feed_not_mem]
      · rw [hparts, List.flatMap_nil, List.append_nil]
      · exact hparts ▸ h.parts_form
      · exact fun hne => absurd rfl hne
      · exact List.forall_mem_nil _
  | some s =>
      have hform := h.comment_form s hcomment
      obtain ⟨l, more, hsplit⟩ := List.exists_cons_of_ne_nil (List.splitOn_ne_nil '\n' s.toList)
      have hlines := hform.trimmedLines
      have hlater := hform.laterLines
      rw [hsplit] at hlines hlater
      have hl : PartForm l := hform.firstLine hsplit
      have hparts : t.parts.flatMap (' ' :: ·) =
          t.partsBeforeComment.flatMap (' ' :: ·) ++ ' ' :: s.toList := by
        rw [parts_eq, hcomment]
        simp
      -- The first line of the comment stands behind the other parts, in the same row.
      refine ⟨t.partsBeforeComment ++ [l], more, ?_, ?_, ?_, ?_, ?_⟩
      · rw [lines, hparts, ← List.append_assoc, ← List.cons_append, List.append_cons,
          splitOn_append (by simpa using h.feed_not_mem) hsplit]
        simp
      · rw [hparts, eq_of_splitOn hsplit]
        simp
      · intro p hp
        rcases List.mem_append.1 hp with hp | hp
        · exact h.parts_form p (parts_eq t ▸ List.mem_append_left _ hp)
        · exact List.mem_singleton.1 hp ▸ hl
      · exact fun _ => List.append_ne_nil_of_right_ne_nil _ (List.cons_ne_nil l [])
      · exact fun m hm => ⟨hlines m (List.mem_cons_of_mem l hm), hlater m hm⟩

end DocTag

namespace DocComment

/-- A paragraph that can be written: each of its lines has text, and means nothing else. -/
@[mk_iff]
structure ParagraphForm (cs : List Char) : Prop where
  start : trimStart cs = cs
  nonblank : ∀ l ∈ cs.splitOn '\n', trim l ≠ []
  trimmedLines : ∀ l ∈ cs.splitOn '\n', trimEnd l = l
  prose : ∀ l ∈ cs.splitOn '\n', opensTag l = false ∧ isFence l = false

/-- A comment that can be written. -/
@[mk_iff]
structure Canonical (d : DocComment) : Prop where
  paragraphs_form : ∀ p ∈ d.paragraphs, ParagraphForm p.toList
  tags_form : ∀ t ∈ d.tags, t.Canonical

instance (cs : List Char) : Decidable (ParagraphForm cs) :=
  decidable_of_iff' _ (paragraphForm_iff cs)

instance (d : DocComment) : Decidable d.Canonical := decidable_of_iff' _ (canonical_iff d)

/-- The lines of a comment: an empty line behind each paragraph, then the tags. -/
def writtenLines (d : DocComment) : List (List Char) :=
  d.paragraphs.flatMap (fun p => p.toList.splitOn '\n' ++ [[]]) ++ d.tags.flatMap DocTag.lines

/-- The raw text of a comment. -/
def layout (d : DocComment) : String := String.ofList (written d.writtenLines)

namespace Draft

/-- The lines of a text add up to it. -/
theorem foldl_addLine_splitOn {cs : List Char} (hlines : ∀ l ∈ cs.splitOn '\n', trimEnd l = l)
    (hne : ∀ l ∈ cs.splitOn '\n', trim l ≠ []) : (cs.splitOn '\n').foldl addLine [] = cs := by
  obtain ⟨l, ls, hsplit⟩ := List.exists_cons_of_ne_nil (List.splitOn_ne_nil '\n' cs)
  rw [hsplit] at hlines hne
  -- The first line has text, so the next is put behind it.
  have hl : l ≠ [] := by
    rintro rfl
    exact hne [] List.mem_cons_self rfl
  rcases List.forall_mem_cons.1 hlines with ⟨hfirst, hlater⟩
  rw [hsplit, List.foldl_cons, addLine_nil, hfirst, foldl_addLine_of_trimmed hl hlater,
    ← eq_of_splitOn hsplit]

/-- Lines with text go on with the paragraph. -/
theorem foldl_read_prose {d : Draft} {ls : List (List Char)} (htag : d.tag = none)
    (hd : d.fenced = false) (hne : ∀ l ∈ ls, trim l ≠ [])
    (hls : ∀ l ∈ ls, opensTag l = false ∧ isFence l = false) :
    ls.foldl read d = { d with paragraph := ls.foldl addLine d.paragraph } := by
  induction ls generalizing d with
  | nil => rfl
  | cons l ls ih =>
      rcases List.forall_mem_cons.1 hne with ⟨hl, hne⟩
      rcases List.forall_mem_cons.1 hls with ⟨⟨hopens, hfence⟩, hls⟩
      rw [List.foldl_cons, read_prose htag hd hfence hopens hl]
      exact ih (d := { d with paragraph := addLine d.paragraph l }) htag hd hne hls

/-- A paragraph has no blanks around it. -/
theorem trim_of_paragraphForm {cs : List Char} (h : ParagraphForm cs) : trim cs = cs := by
  have hlines : ∀ l ∈ cs.splitOn '\n', l ≠ [] ∧ trimEnd l = l := by
    intro l hl
    refine ⟨?_, h.trimmedLines l hl⟩
    rintro rfl
    exact h.nonblank [] hl rfl
  have hend := trimEnd_intercalate '\n' hlines
  rw [List.intercalate_splitOn] at hend
  exact trim_eq_self h.start hend

theorem nonempty_of_paragraphForm {cs : List Char} (h : ParagraphForm cs) : cs ≠ [] := by
  rintro rfl
  exact h.nonblank [] (by rw [List.splitOn_nil]; exact List.mem_singleton_self []) rfl

/-- The lines of a paragraph and the empty line behind them are read as this paragraph. -/
theorem read_paragraph {d : Draft} {p : String} (h : ParagraphForm p.toList) (htag : d.tag = none)
    (hd : d.fenced = false) (hp : d.paragraph = []) :
    (p.toList.splitOn '\n' ++ [[]]).foldl read d =
      { d with paragraphs := d.paragraphs ++ [p] } := by
  -- All lines have been added when the empty one comes, and nothing is trimmed off.
  have hprose : (p.toList.splitOn '\n').foldl read d = { d with paragraph := p.toList } := by
    rw [foldl_read_prose htag hd h.nonblank h.prose, hp,
      foldl_addLine_splitOn h.trimmedLines h.nonblank]
  rw [List.foldl_append, hprose, List.foldl_cons, List.foldl_nil,
    read_blank (d := { d with paragraph := p.toList }) htag hd rfl, endParagraph]
  simp [trim_of_paragraphForm h, nonempty_of_paragraphForm h, hp]

/-- The lines of a tag are read as its name and the text behind it. -/
theorem read_lines {d : Draft} {t : DocTag} (h : t.Canonical) (hd : d.fenced = false) :
    t.lines.foldl read d =
      { d.endParagraph.endTag with tag := some (t.name.toList, t.text) } := by
  obtain ⟨ps, more, hlines, hparts, hps, hne, hmore⟩ := h.lines_eq
  -- Behind the name there is a blank, or nothing.
  have hblank : ∀ c ∈ (ps.flatMap (' ' :: ·)).head?, isBlank c = true := by
    cases ps with
    | nil => simp
    | cons p ps => simp [isBlank_of_isWhitespace]
  -- The first line leaves the row behind the name, and the other lines are added to it.
  have htext : more.foldl addLine ([' '].intercalate ps) = t.text := by
    have hspaced : t.text = trimStart (ps.flatMap (' ' :: ·) ++ more.flatMap ('\n' :: ·)) := by
      rw [← hparts, DocTag.trimStart_spaced h.parts_form]
      rfl
    rcases eq_or_ne more [] with rfl | hlater
    · rw [hspaced, List.flatMap_nil, List.append_nil, DocTag.trimStart_spaced hps, List.foldl_nil]
    · -- There is text on the first line, so the others do not take its place.
      have hrow : [' '].intercalate ps ≠ [] := by
        obtain ⟨p, qs, rfl⟩ := List.exists_cons_of_ne_nil (hne hlater)
        exact intercalate_cons_ne_nil ' ' (hps p List.mem_cons_self).1 qs
      rw [foldl_addLine_of_trimmed hrow fun l hl => (hmore l hl).1, hspaced,
        trimStart_append (by rwa [DocTag.trimStart_spaced hps]), DocTag.trimStart_spaced hps]
  rw [hlines, List.foldl_cons, read_tagLine hd h.name_word hblank, DocTag.trimEnd_spaced hps,
    DocTag.trimStart_spaced hps,
    foldl_read_body rfl (fun l hl => (hmore l hl).2.2) (Or.inr fun l hl => (hmore l hl).2.1), htext]

/-- The paragraphs of a comment are read. -/
theorem foldl_read_paragraphs {d : Draft} {ps : List String}
    (h : ∀ p ∈ ps, ParagraphForm p.toList) (htag : d.tag = none) (hd : d.fenced = false)
    (hp : d.paragraph = []) :
    (ps.flatMap fun p => p.toList.splitOn '\n' ++ [[]]).foldl read d =
      { d with paragraphs := d.paragraphs ++ ps } := by
  induction ps generalizing d with
  | nil => rw [List.flatMap_nil, List.foldl_nil, List.append_nil]
  | cons p ps ih =>
      rcases List.forall_mem_cons.1 h with ⟨hform, h⟩
      -- The paragraph is done, and the next one starts from nothing.
      rw [List.flatMap_cons, List.foldl_append, read_paragraph hform htag hd hp,
        ih (d := { d with paragraphs := d.paragraphs ++ [p] }) h htag hd hp, List.append_assoc,
        List.singleton_append]

/-- The tags of a comment are read. Each is ended by the next, and the last by the end of the
    comment. -/
theorem finish_foldl_read_lines {d : Draft} {ts : List DocTag} (h : ∀ t ∈ ts, t.Canonical)
    (hd : d.fenced = false) (hp : d.paragraph = []) :
    ((ts.flatMap DocTag.lines).foldl read d).finish =
      { paragraphs := d.paragraphs,
        tags := d.endTag.tags ++ ts.map fun t => DocTag.ofBody t.name.toList t.text } := by
  induction ts generalizing d with
  | nil =>
      rw [List.flatMap_nil, List.foldl_nil, finish, endParagraph_of_nil hp, List.map_nil,
        List.append_nil]
      simp only [endTag_paragraphs]
  | cons t ts ih =>
      rcases List.forall_mem_cons.1 h with ⟨hform, h⟩
      -- The tag is open now, and the next line that is read outside of it ends it.
      rw [List.flatMap_cons, List.foldl_append, read_lines hform hd, endParagraph_of_nil hp,
        ih h (by exact (endTag_fenced d).trans hd) (by exact (endTag_paragraph d).trans hp),
        endTag_of_tag (d := { d.endTag with tag := some (t.name.toList, t.text) }) rfl]
      simp only [endTag_paragraphs, List.append_assoc, List.singleton_append, List.map_cons]

end Draft

/-- The lines of a comment are read: paragraphs as they were written, and of each tag what its name
    and its text make. -/
theorem ofLines_writtenLines {d : DocComment} (h : d.Canonical) :
    ofLines d.writtenLines =
      { paragraphs := d.paragraphs,
        tags := d.tags.map fun t => DocTag.ofBody t.name.toList t.text } := by
  rw [ofLines, writtenLines, List.foldl_append,
    Draft.foldl_read_paragraphs h.paragraphs_form rfl rfl rfl,
    Draft.finish_foldl_read_lines h.tags_form rfl rfl]
  rfl

theorem feed_not_mem_writtenLines {d : DocComment} : ∀ l ∈ d.writtenLines, '\n' ∉ l := by
  intro l hl
  simp only [writtenLines, List.mem_append, List.mem_flatMap, List.mem_singleton] at hl
  rcases hl with ⟨p, -, hl | rfl⟩ | ⟨t, -, hl⟩
  · exact feed_not_mem_of_mem_splitOn hl
  · exact List.not_mem_nil
  · exact feed_not_mem_of_mem_splitOn hl

/-- A canonical comment that is written down is read as it was if no part of a tag in it can be
    taken for another, and in no other case. -/
theorem parse?_layout_iff (d : DocComment) (h : d.Canonical) (hne : d.isEmpty = false) :
    parse? d.layout = some d ↔ ∀ t ∈ d.tags, t.Unambiguous := by
  have hread := ofLines_writtenLines h
  have hsome : (ofLines d.writtenLines).isEmpty = false := by
    rw [hread]
    simpa [isEmpty] using hne
  rw [layout, parse?_written feed_not_mem_writtenLines hsome, hread, Option.some.injEq]
  have htags : (d.tags.map fun t => DocTag.ofBody t.name.toList t.text) = d.tags ↔
      ∀ t ∈ d.tags, DocTag.ofBody t.name.toList t.text = t := by
    conv_lhs => rhs; rw [← List.map_id d.tags]
    exact List.map_inj_left
  -- Paragraphs are read as they are, so it comes down to the tags one by one.
  constructor
  · intro heq t ht
    have hall := htags.1 (congrArg DocComment.tags heq)
    exact (h.tags_form t ht).ofBody_text_iff.1 (hall t ht)
  · intro hu
    rw [htags.2 fun t ht => (h.tags_form t ht).ofBody_text_iff.2 (hu t ht)]

/-- A comment with everything that can stand in one. -/
def sample : DocComment where
  paragraphs := ["Adds two numbers.\n  Rounds @ the end.", "Second paragraph."]
  tags :=
    [{ name := "param", type := some "\x7b id: \x7b n: number \x7d \x7d",
       argument := some "options",
       comment := some "what to add\n\n    - with blanks\n  and a last line" },
     { name := "template", argument := some "T" },
     { name := "returns", type := some "number", comment := some "- the sum" },
     { name := "example", comment := some "@at the start\n  code" },
     { name := "deprecated" }]

/-- The sample is read as it was. -/
theorem parse?_layout_iff_sample :
    sample.Canonical ∧ sample.isEmpty = false ∧ (∀ t ∈ sample.tags, t.Unambiguous) ∧
      sample.layout =
        "/**\n * Adds two numbers.\n *   Rounds @ the end.\n *\n * Second paragraph.\n *\n" ++
          " * @param \x7b\x7b id: \x7b n: number \x7d \x7d\x7d options what to add\n *\n" ++
          " *     - with blanks\n *   and a last line\n * @template T\n" ++
          " * @returns \x7bnumber\x7d - the sum\n * @example @at the start\n *   code\n" ++
          " * @deprecated\n */" ∧
      parse? sample.layout = some sample := by
  have hform : sample.Canonical := by decide +kernel
  have hne : sample.isEmpty = false := by decide +kernel
  have hu : ∀ t ∈ sample.tags, t.Unambiguous := by decide +kernel
  exact ⟨hform, hne, hu, by decide +kernel, (parse?_layout_iff sample hform hne).2 hu⟩

/-- The argument of a tag is taken for its type. -/
def bracedArgument : DocComment := { tags := [{ name := "param", argument := some "\x7bx\x7d" }] }

/-- The comment of a tag loses its first character. -/
def dashedComment : DocComment :=
  { tags := [{ name := "param", argument := some "x", comment := some "-1 or more" }] }

/-- Comments that can be written and are not read as they were. -/
theorem layout_misread :
    bracedArgument.Canonical ∧ bracedArgument.isEmpty = false ∧
    parse? bracedArgument.layout = some { tags := [{ name := "param", type := some "x" }] } ∧
    parse? bracedArgument.layout ≠ some bracedArgument ∧
    dashedComment.Canonical ∧ dashedComment.isEmpty = false ∧
    parse? dashedComment.layout =
      some { tags := [{ name := "param", argument := some "x", comment := some "1 or more" }] } ∧
    parse? dashedComment.layout ≠ some dashedComment := by
  decide +kernel

end DocComment

end DocModel
