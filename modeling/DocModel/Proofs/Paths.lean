import DocModel.Path
import Mathlib.Data.List.TakeWhile

/-!
# Components of pieces of a path

A path is cut as a text and compared by its components. The two have to agree: what is left after a
cut has to have the components that one would expect, however the path was written. Cutting off the
last component drops the last of the components, and what is below a base has the components that
follow those of the base.

The danger is in taking apart again what was put together. The text of a path may have a lead that
its segments did not have, since a segment `.` is idle anywhere but in front, and an empty segment
in front of others is the root. It does not happen because cutting never leaves an idle segment in
front where there is no lead.

## Main definitions

* `Path.namesIn`: The plain names in a list of components.
* `Path.directoriesBelow`: The names of the directories between a root and a file.

## Theorems

* `Path.components_putTogether`: A text that was put together can be taken apart again.
* `Path.components_parent?`: The components of what a path is in.
* `Path.components_relativeTo?`: The components of what is below a base.
* `Path.components_eq_of_compare`: Paths that the order does not tell apart have the same
  components.
-/

namespace DocModel

namespace Path

/-- A segment has no slash in it. -/
theorem not_mem_segments {cs s : List Char} (h : s ∈ segments cs) : '/' ∉ s := by
  induction cs generalizing s with
  | nil =>
      rw [segments, List.mem_singleton] at h
      rw [h]
      exact List.not_mem_nil
  | cons c cs ih =>
      rw [segments] at h
      obtain ⟨first, rest, heq⟩ := List.exists_cons_of_ne_nil (segments_ne_nil cs)
      rw [heq] at h ih
      -- A slash opens a new segment, and any other character joins the first.
      by_cases hc : c = '/'
      · rw [if_pos hc] at h
        rcases List.mem_cons.1 h with rfl | h
        · exact List.not_mem_nil
        · exact ih h
      · rw [if_neg hc] at h
        rcases List.mem_cons.1 h with rfl | h
        · intro hmem
          rcases List.mem_cons.1 hmem with hslash | hmem
          · exact hc hslash.symm
          · exact ih List.mem_cons_self hmem
        · exact ih (List.mem_cons_of_mem _ h)

/-- What stands in front of the first slash is the first segment. -/
theorem segments_append_slash (s cs : List Char) (hs : '/' ∉ s) :
    segments (s ++ '/' :: cs) = s :: segments cs := by
  induction s with
  | nil => rw [List.nil_append, segments, if_pos rfl]
  | cons c s ih =>
      rw [List.mem_cons, not_or] at hs
      rw [List.cons_append, segments, if_neg (fun h => hs.1 h.symm), ih hs.2]

/-- A text without slashes is one segment. -/
theorem segments_of_not_mem (s : List Char) (hs : '/' ∉ s) : segments s = [s] := by
  induction s with
  | nil => rfl
  | cons c s ih =>
      rw [List.mem_cons, not_or] at hs
      rw [segments, if_neg (fun h => hs.1 h.symm), ih hs.2]

/-- Segments without slashes come back from the text they are joined to. -/
theorem segments_joinSegments {ss : List (List Char)} (hne : ss ≠ []) (hs : ∀ s ∈ ss, '/' ∉ s) :
    segments (joinSegments ss) = ss := by
  induction ss with
  | nil => exact absurd rfl hne
  | cons s rest ih =>
      have hfirst := hs s List.mem_cons_self
      cases rest with
      | nil => rw [joinSegments, segments_of_not_mem s hfirst]
      | cons t rest =>
          have hrest := ih (List.cons_ne_nil t rest) fun s hs' => hs s (List.mem_cons_of_mem _ hs')
          rw [joinSegments, segments_append_slash s _ hfirst, hrest]

/-- Idle segments name nothing. -/
theorem filterMap_idle {ss : List (List Char)} (h : ∀ s ∈ ss, isIdle s = true) :
    ss.filterMap component? = [] := by
  refine List.filterMap_eq_nil_iff.2 fun s hs => ?_
  rw [component?, if_pos (h s hs)]

/-- A list is what is kept of it and idle segments at the end. -/
theorem exists_dropIdleEnd (ss : List (List Char)) :
    ∃ idle, ss = dropIdleEnd ss ++ idle ∧ ∀ s ∈ idle, isIdle s = true := by
  refine ⟨(ss.reverse.takeWhile isIdle).reverse, ?_, fun s hs => ?_⟩
  · rw [dropIdleEnd, ← List.reverse_append, List.takeWhile_append_dropWhile, List.reverse_reverse]
  · exact List.mem_takeWhile_imp (List.mem_reverse.1 hs)

/-- Leaving them out at the end changes no component. -/
theorem filterMap_dropIdleEnd (ss : List (List Char)) :
    (dropIdleEnd ss).filterMap component? = ss.filterMap component? := by
  rcases exists_dropIdleEnd ss with ⟨idle, heq, hidle⟩
  conv => rhs; rw [heq, List.filterMap_append, filterMap_idle hidle, List.append_nil]

theorem isPrefix_dropIdleEnd (ss : List (List Char)) : dropIdleEnd ss <+: ss := by
  rcases exists_dropIdleEnd ss with ⟨idle, heq, _⟩
  exact ⟨idle, heq.symm⟩

theorem filterMap_dropWhile_isIdle (ss : List (List Char)) :
    (ss.dropWhile isIdle).filterMap component? = ss.filterMap component? := by
  conv => rhs; rw [← List.takeWhile_append_dropWhile (p := isIdle) (l := ss),
    List.filterMap_append, filterMap_idle fun s hs => List.mem_takeWhile_imp hs, List.nil_append]

/-- The last of the segments that are kept names something. -/
theorem getLast_dropIdleEnd {ss : List (List Char)} (hne : dropIdleEnd ss ≠ []) :
    isIdle ((dropIdleEnd ss).getLast hne) = false := by
  have hkept : ss.reverse.dropWhile isIdle ≠ [] := fun h => hne (by rw [dropIdleEnd, h]; rfl)
  have hhead := List.head_dropWhile_not isIdle hkept
  simp only [dropIdleEnd, List.getLast_reverse]
  exact hhead

/-- A segment that is not idle names something. -/
theorem exists_component? {s : List Char} (h : isIdle s = false) :
    ∃ c, component? s = some c := by
  unfold component?
  rw [h]
  by_cases hup : s == ['.', '.']
  · exact ⟨.up, by rw [if_neg Bool.false_ne_true, if_pos hup]⟩
  · exact ⟨.name (String.ofList s), by rw [if_neg Bool.false_ne_true, if_neg hup]⟩

/-- Dropping the last segment that names something drops the last component. -/
theorem filterMap_dropLast {ss : List (List Char)} (hne : dropIdleEnd ss ≠ []) :
    ss.filterMap component? ≠ [] ∧
      (dropIdleEnd ss).dropLast.filterMap component? = (ss.filterMap component?).dropLast := by
  rcases exists_component? (getLast_dropIdleEnd hne) with ⟨c, hc⟩
  have hsplit : ss.filterMap component? =
      (dropIdleEnd ss).dropLast.filterMap component? ++ [c] := by
    rw [← filterMap_dropIdleEnd]
    conv => lhs; rw [← List.dropLast_concat_getLast hne, List.filterMap_append]
    rw [List.filterMap_cons_some hc, List.filterMap_nil]
  rw [hsplit, List.dropLast_concat]
  exact ⟨List.concat_ne_nil _ _, rfl⟩

/-- Dropping segments that name something drops as many components. -/
theorem filterMap_dropNamed (n : Nat) (ss : List (List Char)) :
    (dropNamed n ss).filterMap component? = (ss.filterMap component?).drop n := by
  induction ss generalizing n with
  | nil => cases n <;> simp only [dropNamed, List.filterMap_nil, List.drop_nil]
  | cons s ss ih =>
      cases n with
      | zero => rfl
      | succ n =>
          rw [dropNamed]
          -- Idle segments are passed over and not counted.
          by_cases hidle : isIdle s = true
          · have hnone : component? s = none := by rw [component?, if_pos hidle]
            rw [if_pos hidle, ih, List.filterMap_cons_none hnone]
          · rcases exists_component? (Bool.eq_false_iff.2 hidle) with ⟨c, hc⟩
            rw [if_neg hidle, ih, List.filterMap_cons_some hc, List.drop_succ_cons]

theorem dropNamed_suffix (n : Nat) (ss : List (List Char)) : dropNamed n ss <:+ ss := by
  induction ss generalizing n with
  | nil => cases n <;> exact List.suffix_refl _
  | cons s ss ih =>
      cases n with
      | zero => exact List.suffix_refl _
      | succ n =>
          rw [dropNamed]
          split <;> exact (ih _).trans (List.suffix_cons s ss)

/-- Segments that come back, behind a lead, from the text they are put together to. -/
structure Written (lead : Lead) (ss : List (List Char)) : Prop where
  slash : ∀ s ∈ ss, '/' ∉ s
  head : lead = .bare → ∀ s, ss.head? = some s → isIdle s = false

/-- Segments can be written if they and more behind them can. -/
theorem Written.shorten {lead : Lead} {ss ss' : List (List Char)} (h : Written lead ss)
    (hp : ss' <+: ss) : Written lead ss' := by
  refine ⟨fun s hs => h.slash s (hp.subset hs), fun hlead s hs => h.head hlead s ?_⟩
  rcases hp with ⟨rest, rfl⟩
  rw [List.head?_append, hs, Option.some_or]

/-- What a text is taken apart into depends on how it begins. -/
theorem takeApart_cases (cs : List Char) :
    (∃ rest, cs = '/' :: rest ∧ takeApart cs = (.root, segments rest)) ∨
    (∃ rest, segments cs = ['.'] :: rest ∧ takeApart cs = (.here, rest)) ∨
    cs.head? ≠ some '/' ∧ (segments cs).head? ≠ some ['.'] ∧
      takeApart cs = (.bare, segments cs) := by
  unfold takeApart
  split
  · exact Or.inl ⟨_, rfl, rfl⟩
  · rename_i hroot
    split
    · rename_i rest heq
      exact Or.inr (Or.inl ⟨rest, heq, rfl⟩)
    · rename_i hhere
      refine Or.inr (Or.inr ⟨fun h => ?_, fun h => ?_, rfl⟩)
      · rcases List.head?_eq_some_iff.1 h with ⟨rest, heq⟩
        exact hroot rest heq
      · rcases List.head?_eq_some_iff.1 h with ⟨rest, heq⟩
        exact hhere rest heq

/-- A text that does not begin with a slash has the lead that its segments have. -/
theorem takeApart_joinSegments {s : List Char} {ss : List (List Char)}
    (hslash : ∀ t ∈ s :: ss, '/' ∉ t) (hs : s ≠ []) :
    takeApart (joinSegments (s :: ss)) = if s = ['.'] then (.here, ss) else (.bare, s :: ss) := by
  have hsegments := segments_joinSegments (List.cons_ne_nil s ss) hslash
  rcases takeApart_cases (joinSegments (s :: ss)) with ⟨rest, heq, _⟩ | ⟨rest, heq, happ⟩ |
    ⟨_, hhead, happ⟩
  · -- A slash in front would leave an empty segment there.
    rw [heq, segments, if_pos rfl] at hsegments
    exact absurd (List.cons.inj hsegments).1.symm hs
  · rw [hsegments] at heq
    rcases List.cons.inj heq with ⟨hdot, rfl⟩
    rw [happ, if_pos hdot]
  · rw [hsegments] at hhead happ
    rw [happ, if_neg fun hdot => hhead (by rw [hdot]; rfl)]

/-- A text that was put together can be taken apart again. -/
theorem components_putTogether {lead : Lead} {ss : List (List Char)} (h : Written lead ss) :
    (putTogether lead ss).components = lead.components ++ ss.filterMap component? := by
  cases lead with
  | root =>
      simp only [components, putTogether, String.toList_ofList, takeApart]
      by_cases hne : ss = []
      · rw [hne]
        rfl
      · rw [segments_joinSegments hne h.slash]
  | here =>
      have hslash : ∀ s ∈ ['.'] :: ss, '/' ∉ s := by
        intro s hs
        rcases List.mem_cons.1 hs with rfl | hs
        · decide
        · exact h.slash s hs
      have happ := takeApart_joinSegments hslash (List.cons_ne_nil _ _)
      rw [if_pos rfl] at happ
      simp only [components, putTogether, String.toList_ofList, happ]
  | bare =>
      cases ss with
      | nil => rfl
      | cons s ss =>
          -- The first segment names something, so it is neither empty nor a dot.
          have hidle := h.head rfl s rfl
          have hne : s ≠ [] := fun hs => absurd hidle (by rw [hs]; decide)
          have hdot : s ≠ ['.'] := fun hs => absurd hidle (by rw [hs]; decide)
          have happ := takeApart_joinSegments h.slash hne
          rw [if_neg hdot] at happ
          simp only [components, putTogether, String.toList_ofList, happ]

/-- What a text is taken apart into has no slashes. -/
theorem slash_takeApart (cs : List Char) : ∀ s ∈ (takeApart cs).2, '/' ∉ s := by
  intro s hs
  rcases takeApart_cases cs with ⟨rest, _, happ⟩ | ⟨rest, heq, happ⟩ | ⟨_, _, happ⟩
  · rw [happ] at hs
    exact not_mem_segments hs
  · rw [happ] at hs
    have hmem : s ∈ segments cs := by
      rw [heq]
      exact List.mem_cons_of_mem _ hs
    exact not_mem_segments hmem
  · rw [happ] at hs
    exact not_mem_segments hs

/-- It can be written again, without the idle segments at the end. -/
theorem written_takeApart (cs : List Char) :
    Written (takeApart cs).1 (dropIdleEnd (takeApart cs).2) := by
  refine ⟨fun s hs => slash_takeApart cs s ((isPrefix_dropIdleEnd _).subset hs), ?_⟩
  rcases takeApart_cases cs with ⟨rest, _, happ⟩ | ⟨rest, heq, happ⟩ | ⟨hroot, hhere, happ⟩
  · rw [happ]
    exact fun h => Lead.noConfusion h
  · rw [happ]
    exact fun h => Lead.noConfusion h
  · rw [happ]
    intro _ s hs
    -- An idle segment in front would be empty, and then the text is empty or begins with a slash.
    cases cs with
    | nil =>
        exact absurd (show (none : Option (List Char)) = some s from hs)
          (by simp only [reduceCtorEq, not_false_eq_true])
    | cons c cs =>
        have hhead := (isPrefix_dropIdleEnd (segments (c :: cs)))
        rcases hhead with ⟨idle, heq⟩
        have hfirst : (segments (c :: cs)).head? = some s := by
          rw [← heq, List.head?_append, hs, Option.some_or]
        have hc : c ≠ '/' := fun hc => hroot (by rw [hc]; rfl)
        obtain ⟨first, rest, hrest⟩ := List.exists_cons_of_ne_nil (segments_ne_nil cs)
        rw [segments, if_neg hc, hrest] at hfirst hhere
        have hs : c :: first = s := Option.some.inj hfirst
        have hdot : s ≠ ['.'] := fun h => hhere (by rw [← h, ← hs]; rfl)
        rw [isIdle, Bool.or_eq_false_iff]
        exact ⟨by rw [← hs]; rfl, beq_false_of_ne hdot⟩

theorem components_of_takeApart {p : Path} {lead : Lead} {ss : List (List Char)}
    (h : takeApart p.text.toList = (lead, ss)) :
    p.components = lead.components ++ ss.filterMap component? := by
  rw [components, h]

/-- What a path is in has all its components but the last. -/
theorem components_parent? {p d : Path} (h : p.parent? = some d) :
    d.components = p.components.dropLast := by
  rcases happ : takeApart p.text.toList with ⟨lead, ss⟩
  have hwritten := written_takeApart p.text.toList
  rw [happ] at hwritten
  rw [components_of_takeApart happ]
  simp only [parent?, happ] at h
  split at h
  · rename_i hnone
    -- Nothing is named, so the lead is all there is.
    have hnil : ss.filterMap component? = [] := by rw [← filterMap_dropIdleEnd, hnone]; rfl
    by_cases hlead : lead = .here
    · rw [if_pos hlead, Option.some.injEq] at h
      rw [hnil, hlead, ← h]
      rfl
    · rw [if_neg hlead] at h
      cases h
  · rename_i hne
    rcases filterMap_dropLast hne with ⟨hsome, hlast⟩
    have hbelow : Written lead (dropIdleEnd (dropIdleEnd ss).dropLast) :=
      hwritten.shorten ((isPrefix_dropIdleEnd _).trans ⟨_, List.dropLast_concat_getLast hne⟩)
    rw [← Option.some.inj h, components_putTogether hbelow, filterMap_dropIdleEnd, hlast,
      List.dropLast_append_of_ne_nil hsome]

/-- A path that is in nothing has at most one component. -/
theorem dropLast_components_of_parent? {p : Path} (h : p.parent? = none) :
    p.components.dropLast = [] := by
  rcases happ : takeApart p.text.toList with ⟨lead, ss⟩
  rw [components_of_takeApart happ]
  simp only [parent?, happ] at h
  split at h
  · rename_i hnone
    have hnil : ss.filterMap component? = [] := by rw [← filterMap_dropIdleEnd, hnone]; rfl
    rw [hnil]
    cases lead <;> rfl
  · cases h

/-- What is below a base has the components that follow those of the base. -/
theorem components_relativeTo? {p base below : Path} (h : p.relativeTo? base = some below) :
    below.components = p.components.drop base.components.length := by
  rcases happ : takeApart p.text.toList with ⟨lead, ss⟩
  have hwritten := written_takeApart p.text.toList
  have hslash := slash_takeApart p.text.toList
  rw [happ] at hwritten hslash
  rw [components_of_takeApart happ]
  simp only [relativeTo?, happ] at h
  split at h
  · split at h
    · rename_i hbase
      rw [← Option.some.inj h, components_putTogether hwritten, filterMap_dropIdleEnd, hbase,
        List.drop_zero]
    · rename_i n hbase
      -- The first component of the base is the lead, if there is one.
      have hdrop : (lead.components ++ ss.filterMap component?).drop (n + 1) =
          (ss.filterMap component?).drop (if lead = .bare then n + 1 else n) := by
        cases lead <;> rfl
      -- The rest starts with a segment that names something.
      have hbelow : Written .bare (dropIdleEnd
          ((dropNamed (if lead = .bare then n + 1 else n) ss).dropWhile isIdle)) := by
        refine Written.shorten ⟨fun s hs => ?_, fun _ s hs => ?_⟩ (isPrefix_dropIdleEnd _)
        · exact hslash s ((dropNamed_suffix _ _).subset ((List.dropWhile_suffix _).subset hs))
        · have hnot := List.head?_dropWhile_not isIdle
            (dropNamed (if lead = .bare then n + 1 else n) ss)
          rw [hs] at hnot
          exact hnot
      rw [← Option.some.inj h, components_putTogether hbelow, filterMap_dropIdleEnd,
        filterMap_dropWhile_isIdle, filterMap_dropNamed, hbase, hdrop]
      rfl
  · cases h

/-- The plain names in a list of components. -/
def namesIn (cs : List Component) : List String :=
  cs.filterMap fun
    | .name text => some text
    | _ => none

/-- It does not matter from which end a list is cut first. -/
theorem dropLast_drop (cs : List Component) (n : Nat) :
    (cs.drop n).dropLast = cs.dropLast.drop n := by
  rw [List.dropLast_eq_take, List.dropLast_eq_take, List.drop_take, List.length_drop,
    Nat.sub_right_comm]

/-- The names of the directories between a root and a file. -/
def directoriesBelow (file root : Path) : List String :=
  namesIn (file.components.drop root.components.length).dropLast

/-- The sort of a component and its name are all there is to it. -/
theorem Component.ext_of_label {a b : Component} (hrank : a.rank = b.rank)
    (hlabel : a.label = b.label) : a = b := by
  cases a <;> cases b <;> simp_all [Component.rank, Component.label]

instance : Std.LawfulEqOrd Component where
  eq_of_compare {a b} h := by
    have hboth : compareLex (compareOn Component.rank) (compareOn Component.label) a b = .eq := h
    rw [compareLex, Ordering.then_eq_eq] at hboth
    exact Component.ext_of_label (Std.LawfulEqCmp.eq_of_compare hboth.1)
      (Std.LawfulEqCmp.eq_of_compare hboth.2)

/-- Paths that the order does not tell apart have the same components. -/
theorem components_eq_of_compare {p q : Path} (h : compare p q = .eq) :
    p.components = q.components :=
  Std.LawfulEqCmp.eq_of_compare (show compare p.components q.components = .eq from h)

/-- A path has a rest below a base exactly if it starts with the base. -/
theorem isSome_relativeTo? (p base : Path) :
    (p.relativeTo? base).isSome = p.startsWith base := by
  unfold relativeTo?
  cases p.startsWith base with
  | false => rfl
  | true =>
      simp only [if_true]
      split <;> rfl

/-- A file in a directory below a root is below the root. -/
theorem startsWith_of_parent? {file dir base : Path} (hdir : file.parent? = some dir)
    (hbelow : dir.startsWith base = true) : file.startsWith base = true := by
  have hstart := List.isPrefixOf_iff_prefix.1 hbelow
  rw [components_parent? hdir] at hstart
  exact List.isPrefixOf_iff_prefix.2 (hstart.trans (List.dropLast_prefix _))

/-- The order does not tell paths with the same components apart. -/
theorem compare_of_components_eq {p q : Path} (h : p.components = q.components) :
    compare p q = .eq := by
  change compare p.components q.components = .eq
  rw [h]
  exact Std.ReflCmp.compare_self

end Path

end DocModel
