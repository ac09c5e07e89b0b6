import DocModel.Text.Blank
import DocModel.Text.Lines
import Mathlib.Data.List.DropRight
import Mathlib.Data.List.TakeWhile

/-!
# Blanks around texts

Texts that are put together, and what is left of them when blanks are dropped, words are taken off
or lines are taken apart. A text without blanks at an end is one that dropping them leaves as it is,
so this is written `trimStart cs = cs` and `trimEnd cs = cs`.

A carriage return before a line feed belongs to the end of the line, so a line that is written is
read without it. `chomp` is what is read. It takes away a blank, and whoever goes by the trimmed
line does not see the difference.

## Main definitions

* `Text.chomp`: A line without a carriage return at its end.

## Theorems

* `Text.trim_append_of_blank`, `Text.trim_append_of_blank_left`: Blanks behind a text and before it.
* `Text.trim_eq_self`: A text without blanks at its ends.
* `Text.splitWord_word`: A word is read up to the blank behind it.
* `Text.lines_line`, `Text.lines_last`: The lines of a text that was put together from them.
* `Text.trim_chomp`, `Text.trimEnd_chomp`: Trimming does not see the end of a line.
* `Text.intercalate_cons_eq`: Texts that are joined.
-/

namespace DocModel.Text

variable {a b cs : List Char} {c : Char}

/-- Whether a text has blanks in it is decided along the text, and not by trying out all
    characters. -/
instance decidableForallBlank (cs : List Char) (b : Bool) : Decidable (∀ c ∈ cs, isBlank c = b) :=
  List.decidableBAll (fun c => isBlank c = b) cs

theorem isBlank_feed : isBlank '\n' = true := by decide

theorem not_mem_of_not_blank {w : List Char} (hc : isBlank c = true)
    (hw : ∀ d ∈ w, isBlank d = false) : c ∉ w := by
  intro hm
  rw [hw c hm] at hc
  exact absurd hc (by simp only [Bool.false_eq_true, not_false_eq_true])

/-! ### Dropping blanks -/

@[simp]
theorem trimStart_nil : trimStart [] = [] := rfl

@[simp]
theorem trimEnd_nil : trimEnd [] = [] := rfl

theorem trimStart_cons_of_blank (h : isBlank c = true) : trimStart (c :: cs) = trimStart cs :=
  List.dropWhile_cons_of_pos h

theorem trimStart_cons_of_not_blank (h : isBlank c = false) : trimStart (c :: cs) = c :: cs :=
  List.dropWhile_cons_of_neg (by rw [h]; exact Bool.false_ne_true)

theorem trimEnd_concat_of_not_blank (h : isBlank c = false) : trimEnd (cs ++ [c]) = cs ++ [c] :=
  List.rdropWhile_concat_neg isBlank cs c (by rw [h]; exact Bool.false_ne_true)

theorem trimStart_eq_nil_iff : trimStart cs = [] ↔ ∀ c ∈ cs, isBlank c = true :=
  List.dropWhile_eq_nil_iff

theorem trimEnd_eq_nil_iff : trimEnd cs = [] ↔ ∀ c ∈ cs, isBlank c = true :=
  List.rdropWhile_eq_nil_iff

theorem trimStart_trimStart (cs : List Char) : trimStart (trimStart cs) = trimStart cs :=
  List.dropWhile_idempotent isBlank cs

theorem trimEnd_trimEnd (cs : List Char) : trimEnd (trimEnd cs) = trimEnd cs :=
  List.rdropWhile_idempotent isBlank cs

/-- Only blanks at the start of the first text are dropped, if there is more in it. -/
theorem trimStart_append (h : trimStart a ≠ []) : trimStart (a ++ b) = trimStart a ++ b := by
  rw [trimStart, List.dropWhile_append, if_neg (by rwa [List.isEmpty_iff])]
  rfl

/-- Only blanks at the end of the last text are dropped, if there is more in it. -/
theorem trimEnd_append (h : trimEnd b ≠ []) : trimEnd (a ++ b) = a ++ trimEnd b := by
  -- Seen from the end, something is left of the last text.
  have hb : b.reverse.dropWhile isBlank ≠ [] := by
    intro hnil
    exact h (by rw [trimEnd, hnil, List.reverse_nil])
  rw [trimEnd, List.reverse_append, List.dropWhile_append, if_neg (by rwa [List.isEmpty_iff]),
    List.reverse_append, List.reverse_reverse]
  rfl

theorem length_trimStart_le (cs : List Char) : (trimStart cs).length ≤ cs.length :=
  (List.dropWhile_suffix isBlank).length_le

theorem length_trimEnd_le (cs : List Char) : (trimEnd cs).length ≤ cs.length :=
  (List.rdropWhile_prefix isBlank cs).length_le

/-- What is left without the blanks at the end starts as the whole does. -/
theorem head?_of_trimEnd (h : c ∈ (trimEnd cs).head?) : c ∈ cs.head? := by
  -- Blanks were cut off at the other end.
  obtain ⟨blanks, hcs⟩ : trimEnd cs <+: cs := List.rdropWhile_prefix isBlank cs
  rw [Option.mem_def] at h ⊢
  conv_lhs => rw [← hcs, List.head?_append, h]
  rfl

theorem trimEnd_append_of_blank (h : ∀ c ∈ b, isBlank c = true) :
    trimEnd (a ++ b) = trimEnd a := by
  rw [trimEnd, List.reverse_append,
    List.dropWhile_append_of_pos fun c hc => h c (List.mem_reverse.1 hc)]
  rfl

/-- A text that ends in one without blanks at the end has none there. -/
theorem trimEnd_append_eq_self (hb : trimEnd b = b) (hne : b ≠ []) :
    trimEnd (a ++ b) = a ++ b := by
  rw [trimEnd_append (by rwa [hb]), hb]

/-- A text without blanks at its ends. -/
theorem trim_eq_self (hstart : trimStart cs = cs) (hend : trimEnd cs = cs) : trim cs = cs := by
  rw [trim, hstart, hend]

/-- Both ends of a trimmed text are free of blanks. -/
theorem trimEnd_eq_self_of_trim (h : trim cs = cs) : trimEnd cs = cs := by
  rw [← h]
  exact trimEnd_trimEnd _

/-- A text without blanks at its start does not start with one. -/
theorem not_blank_of_trimStart (h : trimStart (c :: cs) = c :: cs) : isBlank c = false := by
  refine Bool.eq_false_iff.2 fun hc => ?_
  -- Otherwise the rest would be as long as the whole.
  have hle := length_trimStart_le cs
  rw [← trimStart_cons_of_blank hc, h, List.length_cons] at hle
  exact Nat.not_succ_le_self _ hle

theorem trimStart_eq_self_of_trim (h : trim cs = cs) : trimStart cs = cs := by
  cases cs with
  | nil => rfl
  | cons c cs =>
      refine trimStart_cons_of_not_blank (Bool.eq_false_iff.2 fun hc => ?_)
      -- Otherwise the trimmed text is at most as long as the rest.
      have hle := (length_trimEnd_le (trimStart cs)).trans (length_trimStart_le cs)
      rw [← trimStart_cons_of_blank hc, ← trim, h, List.length_cons] at hle
      exact Nat.not_succ_le_self _ hle

/-- Blanks behind a text are dropped. -/
theorem trim_append_of_blank (h : ∀ c ∈ b, isBlank c = true) : trim (a ++ b) = trim a := by
  by_cases ha : trimStart a = []
  · -- Then there is nothing but blanks, and nothing is left on either side.
    have hall : ∀ c ∈ a ++ b, isBlank c = true := fun c hc =>
      (List.mem_append.1 hc).elim (trimStart_eq_nil_iff.1 ha c) (h c)
    rw [trim, trim, ha, trimStart_eq_nil_iff.2 hall]
  · rw [trim, trim, trimStart_append ha, trimEnd_append_of_blank h]

/-- Blanks before a text are dropped. -/
theorem trim_append_of_blank_left (h : ∀ c ∈ a, isBlank c = true) : trim (a ++ b) = trim b := by
  rw [trim, trimStart, List.dropWhile_append_of_pos h]
  rfl

theorem trim_trimStart (cs : List Char) : trim (trimStart cs) = trim cs := by
  rw [trim, trim, trimStart_trimStart]

theorem trim_trimEnd (cs : List Char) : trim (trimEnd cs) = trim cs := by
  have hsplit : trimEnd cs ++ cs.rtakeWhile isBlank = cs :=
    List.rdropWhile_append_rtakeWhile
  have hblank : ∀ c ∈ cs.rtakeWhile isBlank, isBlank c = true := fun c hc =>
    List.mem_rtakeWhile_imp hc
  -- What was cut off are blanks, so it can be put back.
  conv_rhs => rw [← hsplit, trim_append_of_blank hblank]

theorem trim_eq_nil_iff : trim cs = [] ↔ ∀ c ∈ cs, isBlank c = true := by
  rw [← trimStart_eq_nil_iff]
  constructor
  · intro h
    have hall := trimEnd_eq_nil_iff.1 h
    exact trimStart_trimStart cs ▸ trimStart_eq_nil_iff.2 hall
  · intro h
    rw [trim, h, trimEnd_nil]

/-! ### Words -/

theorem trimStart_word {w : List Char} (hw : ∀ c ∈ w, isBlank c = false) : trimStart w = w := by
  cases w with
  | nil => rfl
  | cons c cs => exact trimStart_cons_of_not_blank (hw c List.mem_cons_self)

theorem trimEnd_word {w : List Char} (hw : ∀ c ∈ w, isBlank c = false) : trimEnd w = w := by
  refine List.rdropWhile_eq_self_iff.2 fun hne hblank => ?_
  rw [hw _ (List.getLast_mem hne)] at hblank
  exact Bool.false_ne_true hblank

/-- Blanks are dropped up to a word and not further. -/
theorem trimEnd_word_append {w : List Char} (hw : ∀ c ∈ w, isBlank c = false) (cs : List Char) :
    trimEnd (w ++ cs) = w ++ trimEnd cs := by
  -- Behind the word there are blanks alone, or there is more.
  by_cases hcs : trimEnd cs = []
  · rw [trimEnd_append_of_blank (trimEnd_eq_nil_iff.1 hcs), trimEnd_word hw, hcs, List.append_nil]
  · exact trimEnd_append hcs

/-- A word is read up to the blank behind it. -/
theorem splitWord_word {w rest : List Char} (hw : ∀ c ∈ w, isBlank c = false)
    (hrest : ∀ c ∈ rest.head?, isBlank c = true) : splitWord (w ++ rest) = (w, rest) := by
  have hw' : ∀ c ∈ w, (fun c => !isBlank c) c = true := fun c hc => by
    simp only [hw c hc, Bool.not_false]
  -- The word is passed over, and the first character behind it stops the reader.
  rw [splitWord, List.takeWhile_append_of_pos hw', List.dropWhile_append_of_pos hw']
  cases rest with
  | nil => rw [List.takeWhile_nil, List.dropWhile_nil, List.append_nil]
  | cons c cs =>
      have hc : isBlank c = true := hrest c (by rw [List.head?_cons, Option.mem_def])
      simp only [List.takeWhile_cons, List.dropWhile_cons, hc, Bool.not_true, Bool.false_eq_true,
        if_false, List.append_nil]

/-! ### Lines -/

/-- A line without a carriage return at its end. -/
def chomp (l : List Char) : List Char := if l.getLast? = some '\r' then l.dropLast else l

theorem chomp_cons_cons (c d : Char) (l : List Char) :
    chomp (c :: d :: l) = c :: chomp (d :: l) := by
  simp only [chomp, List.getLast?_cons_cons, List.dropLast_cons_cons]
  split <;> rfl

theorem exists_chomp_append (l : List Char) : l = chomp l ∨ l = chomp l ++ ['\r'] := by
  rw [chomp]
  split
  · rename_i h
    exact Or.inr (List.dropLast_append_getLast? '\r' h).symm
  · exact Or.inl rfl

theorem trim_chomp (l : List Char) : trim (chomp l) = trim l := by
  rcases exists_chomp_append l with h | h
  · rw [← h]
  · conv_rhs => rw [h, trim_append_of_blank (by decide)]

theorem trimEnd_chomp (l : List Char) : trimEnd (chomp l) = trimEnd l := by
  rcases exists_chomp_append l with h | h
  · rw [← h]
  · conv_rhs => rw [h, trimEnd_append_of_blank (by decide)]

/-- A character goes to the line behind it, if it does not end a line. -/
theorem lines_cons {l : List Char} {ls : List (List Char)} (hc : c ≠ '\n')
    (hr : c = '\r' → cs.head? ≠ some '\n') (h : lines cs = l :: ls) :
    lines (c :: cs) = (c :: l) :: ls := by
  -- The character is neither a line feed nor the return before one.
  rw [lines, h]
  · exact hc
  · rintro ds rfl rfl
    exact hr rfl rfl

/-- The first line of a text. -/
theorem lines_line {l : List Char} (hl : '\n' ∉ l) (rest : List Char) :
    lines (l ++ '\n' :: rest) = chomp l :: lines rest := by
  induction l with
  | nil => exact lines_feed rest
  | cons c l ih =>
      rcases List.ne_and_not_mem_of_not_mem_cons hl with ⟨hc, hl⟩
      cases l with
      | nil =>
          -- Only the last character of the line can be the return that belongs to its end.
          by_cases hr : c = '\r'
          · subst hr
            rw [List.singleton_append, lines]
            rfl
          · have hchomp : chomp [c] = [c] := by
              rw [chomp, if_neg (by simpa using hr)]
            rw [hchomp]
            exact lines_cons (Ne.symm hc) (fun h => absurd h hr) (lines_feed rest)
      | cons d l =>
          rw [chomp_cons_cons]
          refine lines_cons (Ne.symm hc) (fun _ => ?_) (ih hl)
          rintro h
          exact (List.ne_and_not_mem_of_not_mem_cons hl).1 (Option.some.inj h).symm

/-- The last line of a text, if no line feed ends it. -/
theorem lines_last {l : List Char} (hl : '\n' ∉ l) (hne : l ≠ []) : lines l = [l] := by
  induction l with
  | nil => exact absurd rfl hne
  | cons c l ih =>
      rcases List.ne_and_not_mem_of_not_mem_cons hl with ⟨hc, hl⟩
      cases l with
      | nil => simp [lines, Ne.symm hc]
      | cons d l =>
          refine lines_cons (Ne.symm hc) (fun _ => ?_) (ih hl (List.cons_ne_nil d l))
          rw [List.head?_cons, Ne, Option.some.injEq]
          exact Ne.symm (List.ne_and_not_mem_of_not_mem_cons hl).1

/-- Texts that are joined: each but the first has the mark before it. -/
theorem intercalate_cons_eq (mark : Char) (l : List Char) (ls : List (List Char)) :
    [mark].intercalate (l :: ls) = l ++ ls.flatMap (mark :: ·) := by
  induction ls generalizing l with
  | nil => rw [List.intercalate_singleton, List.flatMap_nil, List.append_nil]
  | cons m ls ih =>
      rw [List.intercalate_cons_cons, ih, List.flatMap_cons, List.append_assoc]
      rfl

theorem intercalate_cons_ne_nil (mark : Char) {l : List Char} (hl : l ≠ [])
    (ls : List (List Char)) : [mark].intercalate (l :: ls) ≠ [] := by
  rw [intercalate_cons_eq]
  exact List.append_ne_nil_of_left_ne_nil hl _

/-- Texts that are joined have no blanks at the end, if the last of them has not. -/
theorem trimEnd_intercalate (mark : Char) {ls : List (List Char)}
    (h : ∀ l ∈ ls, l ≠ [] ∧ trimEnd l = l) :
    trimEnd ([mark].intercalate ls) = [mark].intercalate ls := by
  induction ls with
  | nil => rfl
  | cons l ls ih =>
      rcases List.forall_mem_cons.1 h with ⟨hl, hls⟩
      cases ls with
      | nil => rw [List.intercalate_singleton, hl.2]
      | cons m ls =>
          -- The row ends as it does without its first text.
          rw [List.intercalate_cons_cons]
          exact trimEnd_append_eq_self (ih hls)
            (intercalate_cons_ne_nil mark (hls m List.mem_cons_self).1 ls)

/-- Lines go on where a text without a line feed has stopped. -/
theorem splitOn_append {l m : List Char} {ms : List (List Char)} (hl : '\n' ∉ l)
    (h : cs.splitOn '\n' = m :: ms) : (l ++ cs).splitOn '\n' = (l ++ m) :: ms := by
  induction l with
  | nil => exact h
  | cons c l ih =>
      rcases List.ne_and_not_mem_of_not_mem_cons hl with ⟨hc, hl⟩
      -- The character is no line feed, so it goes to the first line.
      rw [List.cons_append, List.splitOn_cons_eq_if_modifyHead,
        if_neg (by rw [beq_iff_eq]; exact Ne.symm hc), ih hl, List.modifyHead_cons,
        List.cons_append]

/-- A text is put together again from its lines. -/
theorem eq_of_splitOn {l : List Char} {ls : List (List Char)} (h : cs.splitOn '\n' = l :: ls) :
    cs = l ++ ls.flatMap ('\n' :: ·) := by
  rw [← intercalate_cons_eq, ← h, List.intercalate_splitOn]

/-- The lines of a text have no line feed in them. -/
theorem feed_not_mem_of_mem_splitOn {l : List Char} (h : l ∈ cs.splitOn '\n') : '\n' ∉ l := by
  -- A character is put before the first line, and a line feed starts a new one instead.
  induction cs generalizing l with
  | nil =>
      rw [List.splitOn_nil, List.mem_singleton] at h
      rw [h]
      exact List.not_mem_nil
  | cons c cs ih =>
      rw [List.splitOn_cons_eq_if_modifyHead] at h
      split at h
      · rcases List.mem_cons.1 h with rfl | h
        · exact List.not_mem_nil
        · exact ih h
      · rename_i hc
        cases hs : cs.splitOn '\n' with
        | nil => exact absurd hs (List.splitOn_ne_nil '\n' cs)
        | cons m ms =>
            rw [hs, List.modifyHead_cons] at h
            rw [hs] at ih
            rcases List.mem_cons.1 h with rfl | h
            · refine List.not_mem_cons_of_ne_of_not_mem ?_ (ih List.mem_cons_self)
              rintro rfl
              exact hc (beq_self_eq_true '\n')
            · exact ih (List.mem_cons_of_mem m h)

end DocModel.Text
