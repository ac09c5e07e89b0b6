import DocModel.Comment.Parse
import DocModel.Proofs.Trimming

/-!
# Comments line by line

A raw comment that is written with a star before each line is read as these lines, whatever they
are: the first and the last line of the raw text hold nothing but the delimiters, and to the reader
this makes no difference. So what is said about comments is said about lists of lines.

A line can do four things to the comment that is being read. It opens a tag, it goes on with the tag
that is open, it goes on with the paragraph, or it ends the paragraph. Which of them it does depends
on whether it starts with an at sign, whether it is a fence, and whether it is blank. A fence
changes what the next lines can do, and goes on with what is open in any case.

## Main definitions

* `DocComment.starred`, `DocComment.written`: A line behind its star, and the raw comment with the
  given lines.
* `DocComment.opensTag`, `DocComment.isFence`: Whether a line starts with an at sign or with three
  backquotes.

## Theorems

* `DocComment.strip_delimited`: Delimiters are taken off.
* `DocComment.strip_written`: The lines of a raw comment are those it was written with.
* `DocComment.ofLines_strip_written`, `DocComment.parse?_written`: Delimiters make no difference to
  the reader.
* `DocComment.Draft.read_opening`, `DocComment.Draft.read_tagLine`: A line that opens a tag.
* `DocComment.Draft.read_body`, `DocComment.Draft.read_prose`, `DocComment.Draft.read_blank`: Any
  other line.
* `DocComment.Draft.foldl_read_body`: Lines that go on with a tag.
* `DocComment.Draft.foldl_addLine`: The text that lines add up to.
-/

namespace DocModel

open Text

/-- Only the trimmed text behind its name counts for a tag. -/
theorem DocTag.ofBody_congr (name : List Char) {body body' : List Char}
    (h : trim body = trim body') : DocTag.ofBody name body = DocTag.ofBody name body' := by
  rw [DocTag.ofBody, DocTag.ofBody, h]

namespace DocComment

/-- A line behind the star that leads it. -/
def starred (l : List Char) : List Char := ' ' :: '*' :: if l.isEmpty then [] else ' ' :: l

/-- The raw comment with the given lines. -/
def written (ls : List (List Char)) : List Char :=
  "/**\n".toList ++ (ls.flatMap (starred · ++ ['\n']) ++ " */".toList)

/-- Whether a line starts with an at sign. -/
def opensTag (line : List Char) : Bool := ['@'].isPrefixOf (trim line)

/-- Whether a line starts with three backquotes. -/
def isFence (line : List Char) : Bool := ['\x60', '\x60', '\x60'].isPrefixOf (trim line)

theorem opensTag_iff {line : List Char} :
    opensTag line = true ↔ ∃ rest, trim line = '@' :: rest := by
  rw [opensTag, List.isPrefixOf_iff_prefix]
  constructor
  · rintro ⟨rest, h⟩
    exact ⟨rest, h.symm⟩
  · rintro ⟨rest, h⟩
    exact ⟨rest, h.symm⟩

/-- An at sign in front stays. -/
theorem trim_at (cs : List Char) : trim ('@' :: cs) = '@' :: trimEnd cs := by
  rw [trim, trimStart_cons_of_not_blank (by decide)]
  exact trimEnd_word_append (w := ['@']) (by decide) cs

theorem isBlank_head_space {cs : List Char} : ∀ c ∈ (' ' :: cs).head?, isBlank c = true := by
  intro c hc
  rw [List.head?_cons, Option.mem_def, Option.some.injEq] at hc
  rw [← hc]
  decide

/-- The blank behind the name of a tag does not count, nor do those at the end of its line. -/
theorem trim_behind_name (text : List Char) :
    trim (trimStart (trimEnd (' ' :: text))) = trim text := by
  rw [trim_trimStart, trim_trimEnd]
  exact trim_append_of_blank_left (a := [' ']) (by simp [isBlank_of_isWhitespace])

/-! ### Stars and delimiters -/

/-- The delimiters are taken off, and the lines between them are left. -/
theorem strip_delimited (body : List Char) :
    strip (['/', '*', '*'] ++ (body ++ ['*', '/'])) = (lines body).map stripLine := by
  -- The delimiters have no blanks around them.
  have htrim : trim (['/', '*', '*'] ++ (body ++ ['*', '/'])) =
      ['/', '*', '*'] ++ (body ++ ['*', '/']) := by
    refine trim_eq_self (trimStart_cons_of_not_blank (by decide)) ?_
    rw [← List.append_assoc]
    exact trimEnd_append_eq_self (by decide) (by decide)
  have hfront : ['/', '*', '*'].isPrefixOf? (['/', '*', '*'] ++ (body ++ ['*', '/'])) =
      some (body ++ ['*', '/']) := List.isPrefixOf?_eq_some_iff_append_eq.2 rfl
  have hback : ['*', '/'].isSuffixOf? (body ++ ['*', '/']) = some body :=
    List.isSuffixOf?_eq_some_iff_append_eq.2 rfl
  rw [strip, htrim, hfront, Option.getD_some, hback, Option.getD_some]

theorem feed_not_mem_starred {l : List Char} (h : '\n' ∉ l) : '\n' ∉ starred l := by
  rw [starred]
  split <;> simp [h]

/-- A star is taken off again, whether the line ends in a carriage return or not. -/
theorem stripLine_starred (l : List Char) : stripLine (chomp (starred l)) = chomp l := by
  cases l with
  | nil => decide
  | cons c l =>
      have hstar : starred (c :: l) = ' ' :: '*' :: ' ' :: c :: l := rfl
      rw [hstar, chomp_cons_cons, chomp_cons_cons, chomp_cons_cons, stripLine,
        trimStart_cons_of_blank (by decide), trimStart_cons_of_not_blank (by decide)]
      rfl

/-- The lines of a text that ends in one without a line feed. -/
theorem lines_starred {ls : List (List Char)} (h : ∀ l ∈ ls, '\n' ∉ l) (rest : List Char) :
    (lines (ls.flatMap (starred · ++ ['\n']) ++ rest)).map stripLine =
      ls.map chomp ++ (lines rest).map stripLine := by
  induction ls with
  | nil => rfl
  | cons l ls ih =>
      -- The first line goes up to the line feed behind it.
      rcases List.forall_mem_cons.1 h with ⟨hl, hls⟩
      rw [List.flatMap_cons, List.append_assoc, List.append_assoc, List.singleton_append,
        lines_line (feed_not_mem_starred hl), List.map_cons, List.map_cons, stripLine_starred,
        ih hls, List.cons_append]

/-- The lines of a raw comment are those it was written with, between two empty ones. -/
theorem strip_written {ls : List (List Char)} (h : ∀ l ∈ ls, '\n' ∉ l) :
    strip (written ls) = [] :: (ls.map chomp ++ [[]]) := by
  have hbody : written ls =
      ['/', '*', '*'] ++ ('\n' :: (ls.flatMap (starred · ++ ['\n']) ++ [' ']) ++ ['*', '/']) := by
    simp [written]
  -- The line of the first delimiter is left empty, and that of the last a blank.
  rw [hbody, strip_delimited, lines_feed, List.map_cons, lines_starred h]
  rfl

namespace Draft

/-! ### One line -/

/-- Only the trimmed line counts. -/
theorem read_congr (d : Draft) {l l' : List Char} (h : trim l = trim l')
    (hend : trimEnd l = trimEnd l') : d.read l = d.read l' := by
  simp only [read, addLine, h, hend]

/-- Carriage returns at the ends of lines make no difference. -/
theorem foldl_read_chomp (d : Draft) (ls : List (List Char)) :
    (ls.map chomp).foldl read d = ls.foldl read d := by
  induction ls generalizing d with
  | nil => rfl
  | cons l ls ih =>
      rw [List.map_cons, List.foldl_cons, List.foldl_cons,
        d.read_congr (trim_chomp l) (trimEnd_chomp l), ih]

/-- A paragraph without text does not end. -/
theorem endParagraph_of_nil {d : Draft} (h : d.paragraph = []) : d.endParagraph = d := by
  cases d
  subst h
  rfl

theorem endTag_paragraph (d : Draft) : d.endTag.paragraph = d.paragraph := by
  rw [endTag]
  split <;> rfl

theorem endTag_paragraphs (d : Draft) : d.endTag.paragraphs = d.paragraphs := by
  rw [endTag]
  split <;> rfl

theorem endTag_fenced (d : Draft) : d.endTag.fenced = d.fenced := by
  rw [endTag]
  split <;> rfl

/-- An open tag is read and put behind the others. -/
theorem endTag_of_tag {d : Draft} {name body : List Char} (h : d.tag = some (name, body)) :
    d.endTag = { d with tags := d.tags ++ [DocTag.ofBody name body], tag := none } := by
  rw [endTag, h]

/-- A line that starts with an at sign outside of a fence opens a tag. -/
theorem read_opening {d : Draft} {line rest : List Char} (hd : d.fenced = false)
    (hline : trim line = '@' :: rest) :
    d.read line = { d.endParagraph.endTag with
      tag := some ((splitWord rest).1, trimStart (splitWord rest).2) } := by
  simp [read, hline, hd]

/-- The name behind the at sign goes up to the first blank. -/
theorem read_tagLine {d : Draft} {name rest : List Char} (hd : d.fenced = false)
    (hname : ∀ c ∈ name, isBlank c = false) (hrest : ∀ c ∈ rest.head?, isBlank c = true) :
    d.read ('@' :: (name ++ rest)) =
      { d.endParagraph.endTag with tag := some (name, trimStart (trimEnd rest)) } := by
  -- The line is trimmed before the name is looked for, and the name survives that.
  have hline : trim ('@' :: (name ++ rest)) = '@' :: (name ++ trimEnd rest) := by
    rw [trim_at, trimEnd_word_append hname]
  have hhead : ∀ c ∈ (trimEnd rest).head?, isBlank c = true := fun c hc =>
    hrest c (head?_of_trimEnd hc)
  rw [read_opening hd hline, splitWord_word hname hhead]

/-- Any other line goes on with the tag that is open, and a fence opens or closes. -/
theorem read_body {d : Draft} {line name body : List Char} {fenced : Bool}
    (htag : d.tag = some (name, body)) (hfenced : (d.fenced ^^ isFence line) = fenced)
    (hline : fenced = true ∨ opensTag line = false) :
    d.read line = { d with tag := some (name, addLine body line), fenced := fenced } := by
  -- The fence is opened or closed before anything else is done with the line.
  have hstate : (if ['\x60', '\x60', '\x60'].isPrefixOf (trim line) then
      { d with fenced := !d.fenced } else d) = { d with fenced := fenced } := by
    rw [← hfenced, isFence]
    cases ['\x60', '\x60', '\x60'].isPrefixOf (trim line) <;> simp
  unfold read
  simp only [hstate]
  simp only [htag]
  split
  · -- This would be a line that opens a tag, and inside of a fence or with no at sign it does not.
    rename_i hat
    simp [opensTag, hat] at hline
  · rfl

/-- Outside of tags and fences a line with text goes on with the paragraph. -/
theorem read_prose {d : Draft} {line : List Char} (htag : d.tag = none) (hd : d.fenced = false)
    (hfence : isFence line = false) (hopens : opensTag line = false) (hne : trim line ≠ []) :
    d.read line = { d with paragraph := addLine d.paragraph line } := by
  rw [isFence] at hfence
  rw [opensTag] at hopens
  unfold read
  simp only [hfence, Bool.false_eq_true, if_false, htag, hd]
  split
  · -- The line would open a tag.
    rename_i rest _ hat
    rw [hat] at hopens
    exact absurd hopens (by simp)
  · rw [if_neg (by simp [hne])]

/-- Outside of tags and fences a blank line ends the paragraph. -/
theorem read_blank {d : Draft} {line : List Char} (htag : d.tag = none) (hd : d.fenced = false)
    (hline : trim line = []) : d.read line = d.endParagraph := by
  simp [read, hline, htag, hd]

/-! ### Lines that add up -/

/-- Lines that are added to a text stand behind it, without blanks at their ends. -/
theorem foldl_addLine {text : List Char} (h : text ≠ []) (ls : List (List Char)) :
    ls.foldl addLine text = text ++ ls.flatMap fun l => '\n' :: trimEnd l := by
  induction ls generalizing text with
  | nil => rw [List.foldl_nil, List.flatMap_nil, List.append_nil]
  | cons l ls ih =>
      -- The text is not empty, so a line feed stands in front of the line.
      rw [List.foldl_cons, addLine, if_neg (by rwa [List.isEmpty_iff]), ih (by simp),
        List.flatMap_cons, List.append_assoc]

/-- Lines without blanks at their ends are added as they are. -/
theorem foldl_addLine_of_trimmed {text : List Char} (h : text ≠ []) {ls : List (List Char)}
    (hls : ∀ l ∈ ls, trimEnd l = l) : ls.foldl addLine text = text ++ ls.flatMap ('\n' :: ·) := by
  rw [foldl_addLine h]
  congr 1
  exact List.flatMap_congr fun l hl => by rw [hls l hl]

theorem addLine_nil (line : List Char) : addLine [] line = trimEnd line := rfl

/-- Lines that go on with a tag: inside of a fence all but fences, elsewhere those that open no
    tag. -/
theorem foldl_read_body {d : Draft} {name body : List Char} {ls : List (List Char)}
    (htag : d.tag = some (name, body)) (hfence : ∀ l ∈ ls, isFence l = false)
    (hls : d.fenced = true ∨ ∀ l ∈ ls, opensTag l = false) :
    ls.foldl read d = { d with tag := some (name, ls.foldl addLine body) } := by
  induction ls generalizing d body with
  | nil =>
      cases d
      subst htag
      rfl
  | cons l ls ih =>
      rcases List.forall_mem_cons.1 hfence with ⟨hl, hfence⟩
      have hline : d.fenced = true ∨ opensTag l = false := hls.imp_right fun h =>
        h l List.mem_cons_self
      -- A line that is no fence leaves the next one where it was, inside of a fence or outside.
      have hkeep : (d.fenced ^^ isFence l) = d.fenced := by rw [hl, Bool.xor_false]
      rw [List.foldl_cons, List.foldl_cons, read_body htag hkeep hline]
      exact ih (d := { d with tag := some (name, addLine body l) }) rfl hfence
        (hls.imp_right fun h m hm => h m (List.mem_cons_of_mem l hm))

/-! ### The end of a comment -/

/-- An empty line adds a blank at most. -/
theorem trim_addLine_nil (text : List Char) : trim (addLine text []) = trim text := by
  cases text with
  | nil => rfl
  | cons c text => exact trim_append_of_blank (b := ['\n']) (by decide)

/-- An empty line at the end adds nothing to the comment. -/
theorem finish_read_nil (d : Draft) : (d.read []).finish = d.finish := by
  cases htag : d.tag with
  | some tag =>
      rcases tag with ⟨name, body⟩
      -- The line goes on with the tag, and adds a blank that is trimmed off.
      rw [read_body htag rfl (Or.inr rfl), finish, finish]
      simp only [endTag, endParagraph, htag, DocTag.ofBody_congr name (trim_addLine_nil body)]
  | none =>
      cases hd : d.fenced with
      | false =>
          -- The paragraph ends one line earlier, and ends nothing when it is asked to end again.
          rw [read_blank htag hd rfl, finish, endParagraph_of_nil (d := d.endParagraph) rfl]
          rfl
      | true =>
          -- Inside of a fence the line goes on with the paragraph.
          have hread : d.read [] = { d with paragraph := addLine d.paragraph [] } := by
            simp [read, htag, hd, trim]
          rw [hread, finish, finish]
          simp only [endTag, endParagraph, htag, trim_addLine_nil]

end Draft

/-- The delimiters of a raw comment make no difference to the reader. -/
theorem ofLines_strip_written {ls : List (List Char)} (h : ∀ l ∈ ls, '\n' ∉ l) :
    ofLines (strip (written ls)) = ofLines ls := by
  -- The empty line in front ends a paragraph without text, and that behind adds a blank at most.
  rw [strip_written h, ofLines, List.foldl_cons, List.foldl_append, Draft.foldl_read_chomp,
    List.foldl_cons, List.foldl_nil, Draft.finish_read_nil]
  rfl

/-- A comment with text or tags is read from its lines. -/
theorem parse?_written {ls : List (List Char)} (h : ∀ l ∈ ls, '\n' ∉ l)
    (hne : (ofLines ls).isEmpty = false) :
    parse? (String.ofList (written ls)) = some (ofLines ls) := by
  rw [parse?, String.toList_ofList, ofLines_strip_written h]
  simp only [hne, Bool.false_eq_true, if_false]

end DocComment

end DocModel
