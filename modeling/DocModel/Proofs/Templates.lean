import DocModel.External.Link
import Mathlib.Data.List.Infix
import Mathlib.Logic.Function.Basic

/-!
# Links from templates

A template is text with places in it, and the link is the text with a value in each place. The
values are put in one after the other, and each time the whole text is searched. So a value that is
put in early is searched for the places of the later ones, and if it holds one, a value is put into
a value. This can happen to names only: kinds have no braces, and paths come last.

It is not enough that the name holds no place. The end of one name and the start of the next can
make a place together with the text that stands between them in the template. `Inert` excludes both,
and a name is put right into all templates exactly if it is inert. A name without an opening brace,
or without a closing one, always is.

That nothing else is mistaken for a place is `fill_shown`. The search looks for a place at each
character in turn. At text and at the places of other values there is none, as no place starts
there. Inside of a value there is none either, as it would have to end somewhere, and braces are
only in values and places: it ends in the same value or in a later one.

## Main definitions

* `LinkTemplate.Place`, `LinkTemplate.Piece`, `LinkTemplate.shown`: A template in pieces, and its
  text for given values.
* `LinkTemplate.Bridges`: A place that starts in one text and ends in another.
* `LinkTemplate.Clear`: Nothing but a place is mistaken for it.
* `LinkTemplate.Inert`: A name that is put right into all templates.
* `LinkTemplate.values`: What is put in for a declaration.
* `LinkTemplate.Simultaneous`: The values are put in at once.

## Theorems

* `Text.replaceAll_pattern`, `Text.replaceAll_append`: Where a text is replaced, and where not.
* `Text.length_replaceAll_lt`: A text gets shorter if it is replaced by a shorter one.
* `LinkTemplate.fill_shown`: A value is put into its places and nowhere else.
* `LinkTemplate.inert_of_not_mem`: Names that lack a brace.
* `LinkTemplate.link_simultaneous_iff`: Which names are put right into all templates.
-/

namespace DocModel

namespace Text

variable {pattern value : List Char}

theorem replaceFrom_nil (skip : Nat) : replaceFrom pattern value skip [] = [] := by
  cases skip <;> rfl

theorem replaceFrom_skip (xs ys : List Char) :
    replaceFrom pattern value xs.length (xs ++ ys) = replaceAll pattern value ys := by
  induction xs with
  | nil => rfl
  | cons x xs ih =>
      rw [List.length_cons, List.cons_append, replaceFrom]
      exact ih

/-- At the text that is searched for, the value is put in. -/
theorem replaceAll_pattern (hne : pattern ≠ []) (rest : List Char) :
    replaceAll pattern value (pattern ++ rest) = value ++ replaceAll pattern value rest := by
  obtain ⟨c, cs, rfl⟩ := List.exists_cons_of_ne_nil hne
  -- It stands at the start, so the value is put in and the rest of it is skipped.
  have hfound : (c :: cs).isPrefixOf (c :: (cs ++ rest)) = true :=
    List.isPrefixOf_iff_prefix.2 ⟨rest, rfl⟩
  rw [replaceAll, List.cons_append, replaceFrom, if_pos hfound, List.length_cons,
    Nat.add_sub_cancel, replaceFrom_skip]

/-- A text is kept if what is searched for starts nowhere in it. -/
theorem replaceAll_append {xs ys : List Char}
    (h : ∀ zs, zs <:+ xs → zs ≠ [] → ¬ pattern <+: zs ++ ys) :
    replaceAll pattern value (xs ++ ys) = xs ++ replaceAll pattern value ys := by
  induction xs with
  | nil => rfl
  | cons x xs ih =>
      have hstart : ¬ pattern.isPrefixOf (x :: (xs ++ ys)) = true := by
        rw [List.isPrefixOf_iff_prefix]
        exact h (x :: xs) List.suffix_rfl (List.cons_ne_nil x xs)
      rw [replaceAll, List.cons_append, replaceFrom, if_neg hstart, ← replaceAll,
        ih fun zs hzs => h zs (hzs.trans (List.suffix_cons x xs)), List.cons_append]

/-- A text without what is searched for stays as it is. -/
theorem replaceAll_eq_self {text : List Char} (h : ¬ pattern <:+: text) :
    replaceAll pattern value text = text := by
  have happ : replaceAll pattern value (text ++ []) = text ++ replaceAll pattern value [] := by
    refine replaceAll_append fun zs hzs _ hpre => h ?_
    rw [List.append_nil] at hpre
    exact hpre.isInfix.trans hzs.isInfix
  have hnil : replaceAll pattern value [] = [] := replaceFrom_nil 0
  rwa [List.append_nil, hnil, List.append_nil] at happ

/-- What is left of a text with a part to skip, if values are no longer than what they replace. -/
theorem length_replaceFrom_le (hv : value.length ≤ pattern.length) {skip : Nat} {text : List Char}
    (hskip : skip ≤ text.length) :
    (replaceFrom pattern value skip text).length + skip ≤ text.length := by
  induction text generalizing skip with
  | nil =>
      rw [replaceFrom_nil, List.length_nil, Nat.zero_add]
      exact hskip
  | cons c cs ih =>
      rw [List.length_cons] at hskip
      cases skip with
      | succ skip =>
          have hle := ih (Nat.le_of_succ_le_succ hskip)
          rw [replaceFrom, List.length_cons]
          omega
      | zero =>
          rw [replaceFrom, List.length_cons]
          split
          · -- The value stands for this character and those that are skipped behind it.
            rename_i hfound
            have hpattern := (List.isPrefixOf_iff_prefix.1 hfound).length_le
            rw [List.length_cons] at hpattern
            have hle := ih (show pattern.length - 1 ≤ cs.length by omega)
            rw [List.length_append]
            omega
          · have hle := ih (Nat.zero_le _)
            rw [List.length_cons]
            omega

/-- A text gets shorter if something in it is replaced by something shorter. -/
theorem length_replaceAll_lt (hv : value.length < pattern.length) {text : List Char}
    (h : pattern <:+: text) : (replaceAll pattern value text).length < text.length := by
  induction text with
  | nil =>
      rw [List.infix_nil.1 h] at hv
      exact absurd hv (Nat.not_lt_zero _)
  | cons c cs ih =>
      rw [replaceAll, replaceFrom, List.length_cons]
      split
      · rename_i hfound
        have hpattern := (List.isPrefixOf_iff_prefix.1 hfound).length_le
        rw [List.length_cons] at hpattern
        have hle := length_replaceFrom_le (Nat.le_of_lt hv)
          (show pattern.length - 1 ≤ cs.length by omega)
        rw [List.length_append]
        omega
      · rename_i hfound
        -- What is replaced stands further on.
        rcases List.infix_cons_iff.1 h with hstart | hlater
        · exact absurd (List.isPrefixOf_iff_prefix.2 hstart) hfound
        · have hlt := ih hlater
          rw [List.length_cons]
          exact Nat.succ_lt_succ hlt

end Text

namespace LinkTemplate

open Text

/-- What a value can be put in for. -/
inductive Place where
  | name
  | kind
  | path
deriving DecidableEq

/-- How a place is written. -/
def Place.mark : Place → List Char
  | name => namePlace.toList
  | kind => kindPlace.toList
  | path => pathPlace.toList

/-- A text without braces. -/
def Plain (cs : List Char) : Prop := '\x7b' ∉ cs ∧ '\x7d' ∉ cs

/-- A piece of a template: a text without braces, or a place. -/
inductive Piece where
  | text (cs : List Char) (plain : Plain cs)
  | place (p : Place)

/-- A piece with a text for each place. -/
def Piece.shown (f : Place → List Char) : Piece → List Char
  | text cs _ => cs
  | place p => f p

/-- The text of a template with a text for each place. -/
def shown (f : Place → List Char) (pieces : List Piece) : List Char :=
  pieces.flatMap (Piece.shown f)

/-- A mark that starts at the end of one text and ends at the start of another. -/
def Bridges (mark x y : List Char) : Prop :=
  ∃ a b c, mark = a ++ (b ++ c) ∧ a ≠ [] ∧ c ≠ [] ∧ a <:+ x ∧ c <+: y

/-- A place is still written out, and nothing else can be mistaken for it. -/
structure Clear (p : Place) (f : Place → List Char) : Prop where
  own : f p = p.mark
  inside : ∀ q, q ≠ p → ¬ p.mark <:+: f q
  between : ∀ q r, q ≠ p → r ≠ p → ¬ Bridges p.mark (f q) (f r)

/-- A mark is a word in braces. -/
theorem Place.mark_eq (p : Place) : ∃ word, p.mark = '\x7b' :: (word ++ ['\x7d']) ∧ Plain word := by
  cases p with
  | name => exact ⟨"name".toList, by decide, by decide, by decide⟩
  | kind => exact ⟨"kind".toList, by decide, by decide, by decide⟩
  | path => exact ⟨"path".toList, by decide, by decide, by decide⟩

theorem Place.length_mark (p : Place) : p.mark.length = 6 := by
  cases p <;> decide

theorem Place.mark_ne_nil (p : Place) : p.mark ≠ [] :=
  List.ne_nil_of_length_pos (by rw [p.length_mark]; decide)

variable {p : Place} {f : Place → List Char}

/-- The first brace of a mark is in any part that it starts with. -/
theorem Place.head?_of_append {a b : List Char} (h : p.mark = a ++ b) (ha : a ≠ []) :
    a.head? = some '\x7b' := by
  obtain ⟨word, hmark, -⟩ := p.mark_eq
  rw [← List.head?_append_of_ne_nil a ha, ← h, hmark]
  rfl

/-- Behind the first brace of a mark no other is opened. -/
theorem Place.opening_not_mem {a b : List Char} (h : p.mark = a ++ b) (ha : a ≠ []) :
    '\x7b' ∉ b := by
  obtain ⟨word, hmark, hword⟩ := p.mark_eq
  obtain ⟨c, cs, rfl⟩ := List.exists_cons_of_ne_nil ha
  rw [hmark, List.cons_append, List.cons.injEq] at h
  intro hb
  -- It would be in the word between the braces.
  have hmem : '\x7b' ∈ word ++ ['\x7d'] := by
    rw [h.2]
    exact List.mem_append_right cs hb
  rcases List.mem_append.1 hmem with hmem | hmem
  · exact hword.1 hmem
  · exact absurd (List.mem_singleton.1 hmem) (by decide)

/-- The last brace of a mark is in any part that it ends with. -/
theorem Place.getLast?_of_append {a b : List Char} (h : p.mark = a ++ b) (hb : b ≠ []) :
    b.getLast? = some '\x7d' := by
  obtain ⟨word, hmark, -⟩ := p.mark_eq
  rw [← List.getLast?_append_of_ne_nil a hb, ← h, hmark, ← List.cons_append, List.getLast?_concat]

/-- Before the last brace of a mark none is closed. -/
theorem Place.closing_not_mem {a b : List Char} (h : p.mark = a ++ b) (hb : b ≠ []) :
    '\x7d' ∉ a := by
  obtain ⟨word, hmark, hword⟩ := p.mark_eq
  have hfront := congrArg List.dropLast h
  rw [hmark, ← List.cons_append, List.dropLast_concat, List.dropLast_append_of_ne_nil hb] at hfront
  intro ha
  have hmem : '\x7d' ∈ '\x7b' :: word := by
    rw [hfront]
    exact List.mem_append_left _ ha
  rcases List.mem_cons.1 hmem with hmem | hmem
  · exact absurd hmem (by decide)
  · exact hword.2 hmem

/-- A mark that bridges two texts opens in the first and closes in the second. -/
theorem Bridges.mem {x y : List Char} (h : Bridges p.mark x y) : '\x7b' ∈ x ∧ '\x7d' ∈ y := by
  obtain ⟨a, b, c, hmark, ha, hc, hx, hy⟩ := h
  constructor
  · exact hx.subset (List.mem_of_head? (Place.head?_of_append hmark ha))
  · rw [← List.append_assoc] at hmark
    exact hy.subset (List.mem_of_getLast? (Place.getLast?_of_append hmark hc))

/-- A mark in a text opens and closes there. -/
theorem braces_mem_of_mark {x : List Char} (h : p.mark <:+: x) : '\x7b' ∈ x ∧ '\x7d' ∈ x := by
  obtain ⟨word, hmark, -⟩ := p.mark_eq
  rw [hmark] at h
  exact ⟨h.subset List.mem_cons_self, h.subset (by simp)⟩

/-- A mark is not a part of another. -/
theorem Place.not_infix_mark {q : Place} (h : q ≠ p) : ¬ p.mark <:+: q.mark := by
  revert h
  cases p <;> cases q <;> decide

/-- The end of a place does not start another. -/
theorem Place.not_bridges_left (q : Place) (y : List Char) : ¬ Bridges p.mark q.mark y := by
  rintro ⟨a, b, c, hmark, ha, hc, hsuffix, -⟩
  obtain ⟨word, hq, hword⟩ := q.mark_eq
  have hopen := List.mem_of_head? (Place.head?_of_append hmark ha)
  rw [hq, List.suffix_cons_iff, ← hq] at hsuffix
  rcases hsuffix with rfl | hsuffix
  · -- All of the other place would be the start of this one, which is no longer.
    have hlen := congrArg List.length hmark
    have hpos := List.length_pos_of_ne_nil hc
    rw [List.length_append, List.length_append, Place.length_mark, Place.length_mark] at hlen
    omega
  · rcases List.mem_append.1 (hsuffix.subset hopen) with hmem | hmem
    · exact hword.1 hmem
    · exact absurd (List.mem_singleton.1 hmem) (by decide)

/-- The start of a place does not end another. -/
theorem Place.not_bridges_right (q : Place) (x : List Char) : ¬ Bridges p.mark x q.mark := by
  rintro ⟨a, b, c, hmark, ha, hc, -, ⟨rest, hprefix⟩⟩
  -- The other place opens with a brace, and this one has its brace before.
  have hopen := List.mem_of_head? (Place.head?_of_append hprefix.symm hc)
  exact Place.opening_not_mem hmark ha (List.mem_append_right b hopen)

/-- A text that goes on in a template and closes a brace there ends in a value. -/
theorem exists_of_prefix_shown {pieces : List Piece} {y : List Char}
    (hclose : y.getLast? = some '\x7d') (h : y <+: shown f pieces) :
    ∃ q b c, y = b ++ c ∧ c ≠ [] ∧ c <+: f q := by
  induction pieces generalizing y with
  | nil =>
      rw [List.prefix_nil.1 h] at hclose
      exact absurd hclose (by decide)
  | cons piece pieces ih =>
      have hne : y ≠ [] := by
        rintro rfl
        exact absurd hclose (by decide)
      rw [shown, List.flatMap_cons] at h
      rcases List.prefix_or_prefix_of_prefix h (List.prefix_append _ _) with hin | ⟨z, rfl⟩
      · -- It ends in this piece, and that is a value, as texts have no braces.
        cases piece with
        | text cs plain => exact absurd (hin.subset (List.mem_of_getLast? hclose)) plain.2
        | place q => exact ⟨q, [], y, rfl, hne, hin⟩
      · rw [List.prefix_append_right_inj] at h
        rcases eq_or_ne z [] with rfl | hz
        · rw [List.append_nil] at hclose hne ⊢
          cases piece with
          | text cs plain => exact absurd (List.mem_of_getLast? hclose) plain.2
          | place q => exact ⟨q, [], _, rfl, hne, List.prefix_rfl⟩
        · -- It goes on behind this piece.
          rw [List.getLast?_append_of_ne_nil _ hz] at hclose
          obtain ⟨q, b, c, rfl, hc, hq⟩ := ih hclose h
          exact ⟨q, piece.shown f ++ b, c, (List.append_assoc _ _ _).symm, hc, hq⟩

/-- A place that is searched for does not start in the value of another. -/
theorem Clear.not_starting (h : Clear p f) {q : Place} (hq : q ≠ p) {pieces : List Piece}
    {zs : List Char} (hzs : zs <:+ f q) (hne : zs ≠ []) : ¬ p.mark <+: zs ++ shown f pieces := by
  intro hprefix
  -- It ends in the same value, or goes on behind it.
  rcases List.prefix_or_prefix_of_prefix hprefix (List.prefix_append _ _) with hin | ⟨y, hmark⟩
  · exact h.inside q hq (hin.isInfix.trans hzs.isInfix)
  · rcases eq_or_ne y [] with rfl | hy
    · rw [List.append_nil] at hmark
      exact h.inside q hq (hmark ▸ hzs.isInfix)
    · -- The rest of the place ends in another value, and not in a place of the same kind.
      rw [← hmark, List.prefix_append_right_inj] at hprefix
      obtain ⟨r, b, c, rfl, hc, hr⟩ :=
        exists_of_prefix_shown (Place.getLast?_of_append hmark.symm hy) hprefix
      refine h.between q r hq ?_ ⟨zs, b, c, hmark.symm, hne, hc, hzs, hr⟩
      rintro rfl
      obtain ⟨rest, hrest⟩ := hr
      rw [h.own] at hrest
      have hopen := List.mem_of_head? (Place.head?_of_append hrest.symm hc)
      exact Place.opening_not_mem hmark.symm hne (List.mem_append_right b hopen)

/-- A value is put into its places, and nowhere else. -/
theorem fill_shown (h : Clear p f) (value : List Char) (pieces : List Piece) :
    replaceAll p.mark value (shown f pieces) = shown (Function.update f p value) pieces := by
  induction pieces with
  | nil => exact replaceFrom_nil 0
  | cons piece pieces ih =>
      have hsplit (g : Place → List Char) :
          shown g (piece :: pieces) = piece.shown g ++ shown g pieces := List.flatMap_cons
      rw [hsplit, hsplit, ← ih]
      cases piece with
      | text cs plain =>
          refine replaceAll_append fun zs hzs hne hprefix => plain.1 (hzs.subset ?_)
          -- It would have to start with a brace.
          obtain ⟨rest, hrest⟩ := hprefix
          have hhead := congrArg List.head? hrest
          rw [List.head?_append_of_ne_nil _ p.mark_ne_nil, List.head?_append_of_ne_nil _ hne,
            Place.head?_of_append (List.append_nil _).symm p.mark_ne_nil] at hhead
          exact List.mem_of_head? hhead.symm
      | place q =>
          rcases eq_or_ne q p with rfl | hq
          · rw [Piece.shown, Piece.shown, h.own, Function.update_self,
              replaceAll_pattern q.mark_ne_nil]
          · rw [Piece.shown, Piece.shown, Function.update_of_ne hq]
            exact replaceAll_append fun zs hzs hne => h.not_starting hq hzs hne

/-! ### Names -/

/-- What is put into the places of a template for a declaration. -/
def values (s : ExternalSymbol) : Place → List Char
  | .name => s.name.toList
  | .kind => s.kind.text.toList
  | .path => (joinWith "/" s.origin.path).toList

/-- A name in which no place is found that is searched later, by itself or between two of them. -/
structure Inert (name : List Char) : Prop where
  inside : ∀ p, p ≠ Place.name → ¬ p.mark <:+: name
  between : ∀ p, p ≠ Place.name → ¬ Bridges p.mark name name

/-- A name that lacks one of the braces is inert. -/
theorem inert_of_not_mem {name : List Char} (h : '\x7b' ∉ name ∨ '\x7d' ∉ name) : Inert name := by
  constructor
  · intro p _ hin
    exact h.elim (· (braces_mem_of_mark hin).1) (· (braces_mem_of_mark hin).2)
  · intro p _ hbridge
    exact h.elim (· hbridge.mem.1) (· hbridge.mem.2)

theorem plain_kind (k : ReferenceKind) : Plain k.text.toList := by
  cases k <;> exact ⟨by decide, by decide⟩

theorem clear_name : Clear .name Place.mark where
  own := rfl
  inside _ hq := Place.not_infix_mark hq
  between q _ _ _ := Place.not_bridges_left q _

theorem clear_kind {name : List Char} (h : Inert name) :
    Clear .kind (Function.update Place.mark .name name) where
  own := rfl
  inside q hq := by
    cases q with
    | name => exact h.inside .kind (by decide)
    | kind => exact absurd rfl hq
    | path => exact Place.not_infix_mark hq
  between q r hq hr := by
    cases q with
    | name =>
        -- A place between two values starts and ends in names.
        cases r with
        | name => exact h.between .kind (by decide)
        | kind => exact absurd rfl hr
        | path => exact Place.not_bridges_right .path _
    | kind => exact absurd rfl hq
    | path => exact Place.not_bridges_left .path _

theorem clear_path {name kind : List Char} (h : Inert name) (hkind : Plain kind) :
    Clear .path (Function.update (Function.update Place.mark .name name) .kind kind) where
  own := rfl
  inside q hq := by
    cases q with
    | name => exact h.inside .path (by decide)
    | kind => exact fun hin => hkind.1 (braces_mem_of_mark hin).1
    | path => exact absurd rfl hq
  between q r hq hr := by
    cases q with
    | name =>
        cases r with
        | name => exact h.between .path (by decide)
        | kind => exact fun hbridge => hkind.2 hbridge.mem.2
        | path => exact absurd rfl hr
    | kind => exact fun hbridge => hkind.1 hbridge.mem.1
    | path => exact absurd rfl hq

/-- The url of a template in pieces. -/
def ofPieces (library : String) (pieces : List Piece) : LinkTemplate where
  library := library
  url := String.ofList (shown Place.mark pieces)

theorem resolver_ofPieces {library : String} {pieces : List Piece} {s : ExternalSymbol}
    (h : s.origin.library = some library) :
    (ofPieces library pieces).resolver s = some ((ofPieces library pieces).link s) := if_pos h

/-- The name is always put right into its places; what follows depends on it. -/
theorem link_ofPieces (library : String) (pieces : List Piece) (s : ExternalSymbol) :
    (ofPieces library pieces).link s =
      String.ofList (fill pathPlace (joinWith "/" s.origin.path) (fill kindPlace s.kind.text
        (shown (Function.update Place.mark .name s.name.toList) pieces))) := by
  rw [link, ofPieces, String.toList_ofList, ← fill_shown clear_name]
  rfl

theorem link_of_inert {s : ExternalSymbol} (h : Inert s.name.toList) (library : String)
    (pieces : List Piece) :
    (ofPieces library pieces).link s = String.ofList (shown (values s) pieces) := by
  have hvalues : Function.update (Function.update (Function.update Place.mark .name s.name.toList)
      .kind s.kind.text.toList) .path (joinWith "/" s.origin.path).toList = values s := by
    funext p
    cases p <;> rfl
  -- The name is in its places. Kind and path follow, and each finds its own places only.
  have hkind : fill kindPlace s.kind.text
      (shown (Function.update Place.mark .name s.name.toList) pieces) = _ :=
    fill_shown (clear_kind h) s.kind.text.toList pieces
  have hpath : fill pathPlace (joinWith "/" s.origin.path) _ = _ :=
    fill_shown (clear_path h (plain_kind s.kind)) (joinWith "/" s.origin.path).toList pieces
  rw [link_ofPieces, hkind, hpath, hvalues]

/-- A kind and a path that are shorter than their places make a text shorter that has one. -/
theorem length_fill_lt {text : List Char} {p : Place} (hp : p ≠ .name) (h : p.mark <:+: text) :
    (fill pathPlace "" (fill kindPlace "class" text)).length < text.length := by
  -- An empty path makes no text longer.
  have hpath (t : List Char) : (fill pathPlace "" t).length ≤ t.length :=
    length_replaceFrom_le (by decide) (Nat.zero_le _)
  by_cases hkind : Place.kind.mark <:+: text
  · have hlt : (fill kindPlace "class" text).length < text.length :=
      length_replaceAll_lt (by decide) hkind
    exact Nat.lt_of_le_of_lt (hpath _) hlt
  · -- Then it is the place of the path, and there is no other.
    have hkeep : fill kindPlace "class" text = text := replaceAll_eq_self hkind
    rw [hkeep]
    cases p with
    | name => exact absurd rfl hp
    | kind => exact absurd h hkind
    | path => exact length_replaceAll_lt (by decide) h

/-- A declaration whose kind and path are short. -/
def probe (name : String) : ExternalSymbol where
  name := name
  kind := .classType
  origin := { library := some "", path := [] }

/-- The links to declarations with a name are their templates with all values put in at once. -/
def Simultaneous (name : String) : Prop :=
  ∀ (library : String) (pieces : List Piece) (s : ExternalSymbol),
    s.name = name → s.origin.library = some library →
    (ofPieces library pieces).resolver s = some (String.ofList (shown (values s) pieces))

/-- In a template with places for the name alone, nothing is found later. -/
theorem Simultaneous.not_mark {name : String} (h : Simultaneous name) (pieces : List Piece)
    (hpieces : shown (values (probe name)) pieces =
      shown (Function.update Place.mark .name name.toList) pieces)
    {p : Place} (hp : p ≠ .name) : ¬ p.mark <:+: shown (values (probe name)) pieces := by
  intro hin
  have hlink := h "" pieces (probe name) rfl rfl
  rw [resolver_ofPieces rfl, link_ofPieces, Option.some.injEq, String.ofList_inj] at hlink
  -- Something has become shorter that was to stay as it is.
  have hlt := length_fill_lt hp hin
  rw [hpieces] at hlt hlink
  exact absurd (congrArg List.length hlink) (Nat.ne_of_lt hlt)

/-- Two templates are enough to tell that a name is inert. -/
theorem Simultaneous.inert {name : String} (h : Simultaneous name) : Inert name.toList := by
  constructor
  · intro p hp hin
    have hshown : shown (values (probe name)) [.place .name] = name.toList :=
      List.append_nil name.toList
    exact h.not_mark [.place .name] rfl hp (hshown ▸ hin)
  · rintro p hp ⟨a, b, c, hmark, ha, hc, ⟨x, hx⟩, ⟨y, hy⟩⟩
    -- The template has the name twice, and between them what the place still lacks.
    have hplain : Plain b := by
      constructor
      · exact fun hb => Place.opening_not_mem hmark ha (List.mem_append_left c hb)
      · rw [← List.append_assoc] at hmark
        exact fun hb => Place.closing_not_mem hmark hc (List.mem_append_right a hb)
    have hpieces : shown (values (probe name)) [.place .name, .text b hplain, .place .name] =
        name.toList ++ (b ++ name.toList) := by
      simp [shown, Piece.shown, values, probe]
    refine h.not_mark [.place .name, .text b hplain, .place .name] rfl hp ⟨x, y, ?_⟩
    calc x ++ p.mark ++ y = (x ++ a) ++ (b ++ (c ++ y)) := by rw [hmark]; simp
      _ = name.toList ++ (b ++ name.toList) := by rw [hx, hy]
      _ = _ := hpieces.symm

/-- The links to declarations with a given name have all values in their places and nothing else
    changed, for each template, kind and path, if the name is inert and in no other case. So they
    do for each name that lacks one of the braces. -/
theorem link_simultaneous_iff (name : String) :
    (Simultaneous name ↔ Inert name.toList) ∧
    ('\x7b' ∉ name.toList ∨ '\x7d' ∉ name.toList → Inert name.toList) := by
  refine ⟨⟨Simultaneous.inert, ?_⟩, inert_of_not_mem⟩
  rintro h library pieces s rfl hlibrary
  rw [resolver_ofPieces hlibrary, link_of_inert h]

/-- A name that looks like the place of the kind is taken for it. -/
theorem place_in_name_filled :
    (ofPieces "lib" [.text "https://lib.dev/".toList ⟨by decide, by decide⟩, .place .name]).resolver
        { name := "\x7bkind\x7d", kind := .classType,
          origin := { library := some "lib", path := ["a"] } } =
      some "https://lib.dev/class" := by
  decide +kernel

end LinkTemplate

end DocModel
