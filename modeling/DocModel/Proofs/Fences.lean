import DocModel.Proofs.Drafts

/-!
# Fences around code

A line that starts with three backquotes opens a fence, the next such line closes it, and no line in
between opens a tag. So code in a tag can hold lines that start with an at sign, and the tag behind
it is found again: `Draft.foldl_read_block` says that a block changes nothing but the text of the
tag that it stands in.

This goes by lines. Three backquotes that stand behind the name of a tag are not at the start of a
line, and open nothing. Then each line of the code that starts with an at sign opens a tag. The line
that was meant to close the fence opens it, and as nothing closes it again the rest of the comment
belongs to whatever tag is open there. What tags are read in this case is found by counting them
along the lines, and `InTag` is what holds from line to line.

## Main definitions

* `DocComment.fence`, `DocComment.block`: Three backquotes, and the lines of a block of code.
* `DocComment.fencedBelow`, `DocComment.fencedBeside`: A tag with a block on the line below its
  name, or beside it.
* `DocComment.openedName`: The name of the tag that a line opens.
* `DocComment.Draft.InTag`: A tag is open, and the names of all tags so far.

## Theorems

* `DocComment.Draft.foldl_read_block`: A block goes into the tag that is open.
* `DocComment.Draft.InTag.body`, `DocComment.Draft.InTag.opening`: One line, and the names of the
  tags.
* `DocComment.Draft.InTag.foldl`: The lines outside of a fence that open tags.
* `DocComment.fences_shield`: What tags are read in either case.
-/

namespace DocModel.DocComment

open Text

/-- Three backquotes. -/
def fence : List Char := ['\x60', '\x60', '\x60']

/-- The lines of a block of code. -/
def block (info : List Char) (code : List (List Char)) : List (List Char) :=
  (fence ++ info) :: (code ++ [fence])

/-- A tag with a block on the line below its name, and another tag behind it. -/
def fencedBelow (name info : List Char) (code : List (List Char)) (next body : List Char) :
    List (List Char) :=
  ('@' :: name) :: (block info code ++ ['@' :: (next ++ ' ' :: body)])

/-- A tag with a block that starts on the line of its name, and another tag behind it. -/
def fencedBeside (name info : List Char) (code : List (List Char)) (next body : List Char) :
    List (List Char) :=
  ('@' :: (name ++ ' ' :: (fence ++ info))) :: (code ++ [fence, '@' :: (next ++ ' ' :: body)])

/-- The name of the tag that a line opens. -/
def openedName (line : List Char) : List Char := (splitWord (trim line).tail).1

/-! ### Lines that are fences and lines that are not -/

theorem not_blank_fence : ∀ c ∈ fence, isBlank c = false := by decide

/-- A fence with an info word has no blanks. -/
theorem not_blank_fence_append {info : List Char} (h : ∀ c ∈ info, isBlank c = false) :
    ∀ c ∈ fence ++ info, isBlank c = false := fun c hc =>
  (List.mem_append.1 hc).elim (not_blank_fence c) (h c)

theorem isFence_fence {info : List Char} (h : ∀ c ∈ info, isBlank c = false) :
    isFence (fence ++ info) = true := by
  have hword := not_blank_fence_append h
  rw [isFence, trim_eq_self (trimStart_word hword) (trimEnd_word hword)]
  exact List.isPrefixOf_iff_prefix.2 (List.prefix_append fence info)

/-- A line that opens a tag is not a fence. -/
theorem isFence_of_opensTag {line : List Char} (h : opensTag line = true) :
    isFence line = false := by
  obtain ⟨rest, hline⟩ := opensTag_iff.1 h
  rw [isFence, hline]
  rfl

/-- A tag with text behind it is one line. -/
theorem feed_not_mem_tagLine {name rest : List Char} (hname : ∀ c ∈ name, isBlank c = false)
    (hrest : '\n' ∉ rest) : '\n' ∉ '@' :: (name ++ ' ' :: rest) := by
  simp only [List.mem_cons, List.mem_append, Char.reduceEq, false_or, not_or]
  exact ⟨not_mem_of_not_blank isBlank_feed hname, hrest⟩

theorem opensTag_cons (cs : List Char) : opensTag ('@' :: cs) = true :=
  opensTag_iff.2 ⟨trimEnd cs, trim_at cs⟩

namespace Draft

/-- A block goes into the tag that is open, and the fence is closed behind it. -/
theorem foldl_read_block {d : Draft} {name body info : List Char} {code : List (List Char)}
    (htag : d.tag = some (name, body)) (hd : d.fenced = false)
    (hinfo : ∀ c ∈ info, isBlank c = false) (hcode : ∀ l ∈ code, isFence l = false) :
    (block info code).foldl read d =
      { d with tag := some (name, (block info code).foldl addLine body) } := by
  -- The first line opens the fence, and its info word belongs to the text like the rest.
  have hopen : d.read (fence ++ info) =
      { d with tag := some (name, addLine body (fence ++ info)), fenced := true } :=
    read_body htag (by rw [hd, isFence_fence hinfo]; rfl) (Or.inl rfl)
  -- Inside of the fence no line opens a tag.
  have hinside : code.foldl read (d.read (fence ++ info)) =
      { d with tag := some (name, code.foldl addLine (addLine body (fence ++ info))),
               fenced := true } := by
    rw [hopen]
    exact foldl_read_body rfl hcode (Or.inl rfl)
  -- The last line closes the fence.
  have hclose : (code.foldl read (d.read (fence ++ info))).read fence =
      { d with
        tag := some (name, addLine (code.foldl addLine (addLine body (fence ++ info))) fence),
        fenced := false } := by
    rw [hinside]
    exact read_body rfl rfl (Or.inr rfl)
  rw [block, List.foldl_cons, List.foldl_append, List.foldl_cons, List.foldl_nil, hclose,
    List.foldl_cons, List.foldl_append, List.foldl_cons, List.foldl_nil, ← hd]

/-- A tag is open and no paragraph, and these are the names of the tags up to here. -/
structure InTag (paragraphs names : List String) (fenced : Bool) (d : Draft) : Prop where
  paragraphs_eq : d.paragraphs = paragraphs
  paragraph_eq : d.paragraph = []
  fenced_eq : d.fenced = fenced
  tag_isSome : d.tag.isSome = true
  names_eq : d.endTag.tags.map DocTag.name = names

variable {paragraphs names : List String} {fenced : Bool} {d : Draft} {line : List Char}

/-- A line that goes on with the tag adds no name. -/
theorem InTag.body (h : InTag paragraphs names fenced d) {fenced' : Bool}
    (hfenced : (fenced ^^ isFence line) = fenced')
    (hline : fenced' = true ∨ opensTag line = false) :
    InTag paragraphs names fenced' (d.read line) := by
  obtain ⟨⟨name, body⟩, htag⟩ := Option.isSome_iff_exists.1 h.tag_isSome
  rw [← h.fenced_eq] at hfenced
  rw [read_body htag hfenced hline]
  refine ⟨h.paragraphs_eq, h.paragraph_eq, rfl, rfl, ?_⟩
  -- The text of the open tag has changed, and its name has not.
  rw [← h.names_eq, endTag_of_tag htag, endTag_of_tag rfl]
  simp only [List.map_append, List.map_cons, List.map_nil]
  rfl

/-- A line that opens a tag adds its name. -/
theorem InTag.opening (h : InTag paragraphs names false d) (hline : opensTag line = true) :
    InTag paragraphs (names ++ [String.ofList (openedName line)]) false (d.read line) := by
  obtain ⟨rest, hrest⟩ := opensTag_iff.1 hline
  -- There is no paragraph to end, and the tag that is open joins those that have ended.
  rw [read_opening h.fenced_eq hrest, endParagraph_of_nil h.paragraph_eq]
  refine ⟨?_, ?_, ?_, rfl, ?_⟩
  · exact (endTag_paragraphs d).trans h.paragraphs_eq
  · exact (endTag_paragraph d).trans h.paragraph_eq
  · exact (endTag_fenced d).trans h.fenced_eq
  · rw [← h.names_eq, endTag_of_tag rfl, openedName, hrest]
    simp only [List.map_append, List.map_cons, List.map_nil, List.tail_cons]
    rfl

/-- Outside of a fence each line that starts with an at sign opens a tag. -/
theorem InTag.foldl {ls : List (List Char)} (h : InTag paragraphs names false d)
    (hls : ∀ l ∈ ls, isFence l = false) :
    InTag paragraphs
      (names ++ (ls.filter opensTag).map fun l => String.ofList (openedName l)) false
      (ls.foldl read d) := by
  induction ls generalizing d names with
  | nil => simpa using h
  | cons l ls ih =>
      rcases List.forall_mem_cons.1 hls with ⟨hl, hls⟩
      rw [List.foldl_cons]
      -- A line that opens a tag adds its name, and any other goes on with the tag.
      by_cases hopens : opensTag l = true
      · have hnext := ih (h.opening hopens) hls
        rw [List.append_assoc, List.singleton_append] at hnext
        rwa [List.filter_cons_of_pos hopens, List.map_cons]
      · rw [List.filter_cons_of_neg hopens]
        exact ih (h.body (by rw [hl]; rfl) (Or.inr (Bool.eq_false_iff.2 hopens))) hls

/-- At the end of the comment the tag that is open ends. -/
theorem InTag.finish_eq (h : InTag paragraphs names fenced d) :
    d.finish = { paragraphs := paragraphs, tags := d.endTag.tags } := by
  rw [finish, endParagraph_of_nil h.paragraph_eq, ← h.paragraphs_eq]
  simp only [endTag_paragraphs]

/-- A comment with a tag is not empty. -/
theorem InTag.isEmpty_eq (h : InTag paragraphs names fenced d) :
    DocComment.isEmpty { paragraphs := paragraphs, tags := d.endTag.tags } = false := by
  obtain ⟨⟨name, body⟩, htag⟩ := Option.isSome_iff_exists.1 h.tag_isSome
  rw [endTag_of_tag htag]
  simp [DocComment.isEmpty]

end Draft

/-- The text that a block adds up to. -/
theorem foldl_addLine_block {info : List Char} {code : List (List Char)}
    (hinfo : ∀ c ∈ info, isBlank c = false) :
    (block info code).foldl Draft.addLine [] =
      ['\n'].intercalate ((block info code).map trimEnd) := by
  have hword := not_blank_fence_append hinfo
  have hne : fence ++ info ≠ [] := List.cons_ne_nil _ _
  rw [block, List.foldl_cons, Draft.addLine_nil, trimEnd_word hword, Draft.foldl_addLine hne,
    List.map_cons, trimEnd_word hword, intercalate_cons_eq, List.flatMap_map]

/-- The lines below the name of a tag go into it, and the tag behind them is read. -/
theorem ofLines_fencedBelow {name info next : List Char} {code : List (List Char)}
    (body : List Char)
    (hname : ∀ c ∈ name, isBlank c = false) (hinfo : ∀ c ∈ info, isBlank c = false)
    (hnext : ∀ c ∈ next, isBlank c = false) (hcode : ∀ l ∈ code, isFence l = false) :
    ofLines (fencedBelow name info code next body) =
      { tags := [DocTag.ofBody name (['\n'].intercalate ((block info code).map trimEnd)),
          DocTag.ofBody next body] } := by
  -- The tag opens with nothing in it, so the block is all of its text.
  have hopen : ({} : Draft).read ('@' :: name) = { tag := some (name, []) } := by
    have h := Draft.read_tagLine (d := {}) rfl hname (show ∀ c ∈ [].head?, _ by simp)
    rwa [List.append_nil] at h
  rw [ofLines, fencedBelow, List.foldl_cons, hopen, List.foldl_append,
    Draft.foldl_read_block rfl rfl hinfo hcode, foldl_addLine_block hinfo, List.foldl_cons,
    List.foldl_nil, Draft.read_tagLine rfl hnext isBlank_head_space, Draft.finish,
    ← DocTag.ofBody_congr next (trim_behind_name body)]
  rfl

/-- The tags that are read if a fence stands beside the name of a tag. -/
theorem inTag_fencedBeside {name : List Char} {code : List (List Char)}
    (info next body : List Char)
    (hname : ∀ c ∈ name, isBlank c = false) (hcode : ∀ l ∈ code, isFence l = false) :
    Draft.InTag [] ((name :: (code.filter opensTag).map openedName).map String.ofList) true
      ((fencedBeside name info code next body).foldl Draft.read {}) := by
  -- The backquotes beside the name belong to the tag, and open no fence.
  have hfirst : Draft.InTag [] [String.ofList name] false
      (({} : Draft).read ('@' :: (name ++ ' ' :: (fence ++ info)))) := by
    rw [Draft.read_tagLine rfl hname isBlank_head_space]
    exact ⟨rfl, rfl, rfl, rfl, rfl⟩
  have hlines := hfirst.foldl hcode
  -- The fence behind the code is the first that is seen, and nothing behind it opens a tag.
  have hfence := hlines.body (show (false ^^ isFence fence) = true from rfl) (Or.inl rfl)
  have hlast := hfence.body
    (show (true ^^ isFence ('@' :: (next ++ ' ' :: body))) = true by
      rw [isFence_of_opensTag (opensTag_cons _)]
      rfl)
    (Or.inl rfl)
  rw [fencedBeside, List.foldl_cons, List.foldl_append, List.foldl_cons, List.foldl_cons,
    List.foldl_nil, List.map_cons, List.map_map]
  exact hlast

/-- If the fence stands on the line below the name of a tag, the code belongs to this tag and the
    tag behind it is read. If the fence stands beside the name, the tags that are read are this tag
    and those that lines of the code open, and the tag behind the code is not among them. -/
theorem fences_shield (name info next body : List Char) (code : List (List Char))
    (hname : ∀ c ∈ name, isBlank c = false) (hinfo : ∀ c ∈ info, isBlank c = false)
    (hnext : ∀ c ∈ next, isBlank c = false) (hbody : '\n' ∉ body)
    (hcode : ∀ l ∈ code, '\n' ∉ l ∧ isFence l = false) :
    parse? (String.ofList (written (fencedBelow name info code next body))) =
      some { tags := [DocTag.ofBody name (['\n'].intercalate ((block info code).map trimEnd)),
        DocTag.ofBody next body] } ∧
    ∃ tags, parse? (String.ofList (written (fencedBeside name info code next body))) =
        some { tags := tags } ∧
      tags.map DocTag.name =
        (name :: (code.filter opensTag).map openedName).map String.ofList := by
  have hfences : ∀ l ∈ code, isFence l = false := fun l hl => (hcode l hl).2
  have hopening : '\n' ∉ fence ++ info :=
    not_mem_of_not_blank isBlank_feed (not_blank_fence_append hinfo)
  constructor
  · have hread := ofLines_fencedBelow body hname hinfo hnext hfences
    rw [parse?_written ?_ (by rw [hread]; rfl), hread]
    -- It remains that each of the lines is one.
    intro l hl
    simp only [fencedBelow, block, List.mem_cons, List.mem_append, List.not_mem_nil,
      or_false] at hl
    rcases hl with rfl | (rfl | hl | rfl) | rfl
    · exact not_mem_of_not_blank isBlank_feed (List.forall_mem_cons.2 ⟨by decide, hname⟩)
    · exact hopening
    · exact (hcode l hl).1
    · decide
    · exact feed_not_mem_tagLine hnext hbody
  · have hread := inTag_fencedBeside info next body hname hfences
    have hlines : ofLines (fencedBeside name info code next body) = _ := hread.finish_eq
    refine ⟨_, ?_, hread.names_eq⟩
    rw [parse?_written ?_ ?_, hlines]
    · intro l hl
      simp only [fencedBeside, List.mem_cons, List.mem_append, List.not_mem_nil, or_false] at hl
      rcases hl with rfl | hl | rfl | rfl
      · exact feed_not_mem_tagLine hname hopening
      · exact (hcode l hl).1
      · decide
      · exact feed_not_mem_tagLine hnext hbody
    · rw [hlines]
      exact hread.isEmpty_eq

/-- Code with a line that starts with an at sign. -/
def decorated : List (List Char) := ["@decorated()".toList, "run();".toList]

/-- The code has a decorator at the start of a line. -/
theorem fences_shield_decorated :
    (∀ l ∈ decorated, '\n' ∉ l ∧ isFence l = false) ∧
    parse? (String.ofList (written (fencedBelow "example".toList "ts".toList decorated
        "returns".toList "nothing".toList))) =
      some { tags := [DocTag.ofBody "example".toList
          (['\n'].intercalate ((block "ts".toList decorated).map trimEnd)),
        DocTag.ofBody "returns".toList "nothing".toList] } ∧
    ∃ tags, parse? (String.ofList (written (fencedBeside "example".toList "ts".toList decorated
        "returns".toList "nothing".toList))) = some { tags := tags } ∧
      tags.map DocTag.name =
        ("example".toList :: (decorated.filter opensTag).map openedName).map String.ofList := by
  have hcode : ∀ l ∈ decorated, '\n' ∉ l ∧ isFence l = false := by decide
  exact ⟨hcode, fences_shield "example".toList "ts".toList "returns".toList "nothing".toList
    decorated (by decide) (by decide) (by decide) (by decide) hcode⟩

/-- With the fence beside the name of the first tag, a line of the code is read as a tag and the tag
    behind the code is not. -/
theorem fence_beside_unseen :
    parse? (String.ofList (written (fencedBeside "example".toList "ts".toList decorated
        "returns".toList "nothing".toList))) =
      some { tags :=
        [{ name := "example", comment := some "\x60\x60\x60ts" },
         { name := "decorated()",
           comment := some "run();\n\x60\x60\x60\n@returns nothing" }] } := by
  decide +kernel

end DocModel.DocComment
