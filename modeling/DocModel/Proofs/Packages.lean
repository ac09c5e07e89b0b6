import DocModel.External.Origin
import DocModel.Proofs.Paths
import Mathlib.Data.List.Basic

/-!
# Packages of type declarations

A package that is not typed itself may have its types declared in a package of its own, in the scope
`@types`. A file of the one and the file at the same place in the other have the same origin. Both
origins are read off the path, and what has to be shown is that they can be: where the package
starts, how many of the names belong to it, and which package is meant.

A scope has to be part of the name in `@types`, where there is only one segment for both, so that
`@babel/core` becomes `babel__core`. The name is cut at its first double underscore. That is where
the two were put together, unless there is one in the scope, or the scope ends in an underscore and
the cut comes too early. `PackageName` leaves these out.

## Main definitions

* `Path.IsName`, `Path.descend`: Names in a path, and a path with names put behind it.
* `PackageName`: Packages whose types can be declared elsewhere.
* `Origin.IsStem`: A file name without the longest of its endings.

## Theorems

* `Path.names_descend`: Names that are put behind a path are the last of its names.
* `Text.splitOnce?_doubled`: Where a text is cut at a doubled character.
* `Origin.isStem_sourceStem`: The order in which endings are tried lets the longest one win.
* `Origin.types_attributed`: Declarations of types belong to the package that they describe.
-/

namespace DocModel

namespace Path

/-- One segment of a path that is a plain name. -/
structure IsName (name : String) : Prop where
  nonempty : name ≠ ""
  notHere : name ≠ "."
  notUp : name ≠ ".."
  slash : '/' ∉ name.toList

instance (name : String) : Decidable (IsName name) :=
  decidable_of_iff (name ≠ "" ∧ name ≠ "." ∧ name ≠ ".." ∧ '/' ∉ name.toList)
    ⟨fun ⟨hempty, hhere, hup, hslash⟩ => ⟨hempty, hhere, hup, hslash⟩,
      fun h => ⟨h.nonempty, h.notHere, h.notUp, h.slash⟩⟩

/-- The path with names put behind it, one after the other. -/
def descend (p : Path) (names : List String) : Path := names.foldl (fun q n => q.join ⟨n⟩) p

variable {a b : List Char} {name : String} {names : List String}

/-- A segment is a plain name if there is anything in it but dots. -/
theorem isName_of_mem {c : Char} (hc : c ∈ name.toList) (hdot : c ≠ '.')
    (hslash : '/' ∉ name.toList) : IsName name := by
  refine ⟨?_, ?_, ?_, hslash⟩
  · rintro rfl
    exact List.not_mem_nil hc
  · rintro rfl
    exact hdot (List.mem_singleton.1 hc)
  · rintro rfl
    exact hdot (List.eq_of_mem_replicate (n := 2) hc)

/-- A plain name stands for itself. -/
theorem component?_of_isName (h : IsName name) : component? name.toList = some (.name name) := by
  have hempty : name.toList ≠ [] := fun e => h.nonempty (String.toList_eq_nil_iff.1 e)
  have hhere : name.toList ≠ ['.'] := fun e => h.notHere (String.toList_inj.1 e)
  have hup : name.toList ≠ ['.', '.'] := fun e => h.notUp (String.toList_inj.1 e)
  have hidle : isIdle name.toList = false := by
    rw [isIdle, List.isEmpty_eq_false_iff.2 hempty, beq_eq_false_iff_ne.2 hhere, Bool.or_false]
  rw [component?, hidle, if_neg Bool.false_ne_true, beq_eq_false_iff_ne.2 hup,
    if_neg Bool.false_ne_true, String.ofList_toList]

/-- A slash ends a segment. -/
theorem segments_append (a b : List Char) :
    segments (a ++ '/' :: b) = segments a ++ segments b := by
  induction a with
  | nil => rfl
  | cons c a ih =>
      rw [List.cons_append, segments, segments, ih]
      obtain ⟨first, rest, heq⟩ := List.exists_cons_of_ne_nil (segments_ne_nil a)
      rw [heq]
      -- A slash opens a new segment, and any other character joins the first.
      by_cases hc : c = '/'
      · rw [if_pos hc, if_pos hc]
        rfl
      · rw [if_neg hc, if_neg hc, List.cons_append, List.cons_append]

theorem takeApart_here {rest : List (List Char)} (h : segments a = ['.'] :: rest) :
    takeApart a = (.here, rest) := by
  rcases takeApart_cases a with ⟨below, rfl, _⟩ | ⟨below, heq, happ⟩ | ⟨_, hhere, _⟩
  · rw [segments, if_pos rfl] at h
    exact absurd (List.cons.inj h).1 (List.cons_ne_nil _ _).symm
  · rw [happ, (List.cons.inj (heq.symm.trans h)).2]
  · exact absurd (by rw [h]; rfl) hhere

theorem takeApart_bare (hroot : a.head? ≠ some '/') (hhere : (segments a).head? ≠ some ['.']) :
    takeApart a = (.bare, segments a) := by
  rcases takeApart_cases a with ⟨below, rfl, _⟩ | ⟨below, heq, _⟩ | ⟨_, _, happ⟩
  · exact absurd rfl hroot
  · exact absurd (by rw [heq]; rfl) hhere
  · exact happ

/-- What is put behind a text changes nothing about its lead, unless there is no text. -/
theorem takeApart_append (ha : a ≠ []) (b : List Char) :
    takeApart (a ++ '/' :: b) = ((takeApart a).1, (takeApart a).2 ++ segments b) := by
  rcases takeApart_cases a with ⟨rest, rfl, happ⟩ | ⟨rest, heq, happ⟩ | ⟨hroot, hhere, happ⟩
  · rw [happ, List.cons_append, takeApart, segments_append]
  · rw [happ]
    exact takeApart_here (by rw [segments_append, heq, List.cons_append])
  · -- The lead is read off the first segment, and that is still the one of `a`.
    rw [happ, ← segments_append]
    refine takeApart_bare ?_ ?_
    · obtain ⟨c, rest, rfl⟩ := List.exists_cons_of_ne_nil ha
      exact hroot
    · obtain ⟨first, rest, heq⟩ := List.exists_cons_of_ne_nil (segments_ne_nil a)
      rw [segments_append, heq]
      rw [heq] at hhere
      exact hhere

/-- A slash at the end names nothing. -/
theorem components_slash {p q : Path} (hp : p.text.toList = a) (ha : a ≠ [])
    (hq : q.text.toList = a ++ ['/']) : q.components = p.components := by
  have happ := takeApart_append ha []
  rw [← hq] at happ
  rw [components_of_takeApart happ, components, hp, List.filterMap_append]
  exact congrArg _ (List.append_nil _)

/-- A segment behind a slash adds the component that it stands for. -/
theorem components_slash_append {p q : Path} (hp : p.text.toList = a ++ ['/'])
    (hq : q.text.toList = a ++ '/' :: b) (hb : '/' ∉ b) :
    q.components = p.components ++ (component? b).toList := by
  have hsegment : (segments b).filterMap component? = (component? b).toList := by
    rw [segments_of_not_mem b hb]
    cases hc : component? b with
    | none => rw [List.filterMap_cons_none hc]; rfl
    | some c => rw [List.filterMap_cons_some hc]; rfl
  by_cases ha : a = []
  · -- The slash is the root.
    subst ha
    rw [components, components, hp, hq]
    simp only [List.nil_append, takeApart, hsegment]
    rfl
  · have hpapp := takeApart_append ha []
    have hqapp := takeApart_append ha b
    rw [← hp] at hpapp
    rw [← hq] at hqapp
    rw [components_of_takeApart hpapp, components_of_takeApart hqapp, List.filterMap_append,
      List.filterMap_append, hsegment, ← List.append_assoc]
    exact congrArg (· ++ _) (congrArg _ (List.append_nil _).symm)

/-- A name by itself is a relative path. -/
theorem isAbsolute_of_isName (h : IsName name) : isAbsolute ⟨name⟩ = false := by
  rw [isAbsolute, beq_eq_false_iff_ne]
  exact fun hslash => h.slash (List.mem_of_head? hslash)

theorem components_of_isName (h : IsName name) : components ⟨name⟩ = [.name name] := by
  have hsegments := segments_of_not_mem name.toList h.slash
  have happ : takeApart name.toList = (.bare, [name.toList]) := by
    rw [← hsegments]
    refine takeApart_bare (fun hhead => h.slash (List.mem_of_head? hhead)) fun hhead => ?_
    rw [hsegments, List.head?_cons, Option.some.injEq] at hhead
    exact h.notHere (String.toList_inj.1 hhead)
  rw [components_of_takeApart happ, List.filterMap_cons_some (component?_of_isName h)]
  rfl

/-- Putting a name behind a path puts it behind the components. -/
theorem components_join (p : Path) (h : IsName name) :
    (p.join ⟨name⟩).components = p.components ++ [.name name] := by
  have hname : (component? name.toList).toList = [.name name] := by
    rw [component?_of_isName h, Option.toList_some]
  rw [join, isAbsolute_of_isName h, if_neg Bool.false_ne_true]
  split
  · rename_i hlast
    -- There is nothing in front of the name.
    rw [components_of_isName h, components, List.getLast?_eq_none_iff.1 hlast]
    rfl
  · rename_i hlast
    rcases List.getLast?_eq_some_iff.1 hlast with ⟨a, ha⟩
    have htext : (p.text ++ name).toList = a ++ '/' :: name.toList := by
      rw [String.toList_append, ha, List.append_assoc, List.singleton_append]
    rw [components_slash_append ha htext h.slash, hname]
  · rename_i c _ hlast
    -- The slash that is put in between names nothing by itself.
    have hne : p.text.toList ≠ [] := List.ne_nil_of_mem (List.mem_of_getLast? hlast)
    have hslash : (p.text ++ "/").toList = p.text.toList ++ ['/'] := String.toList_append
    have htext : (p.text ++ "/" ++ name).toList = p.text.toList ++ '/' :: name.toList := by
      rw [String.toList_append, hslash, List.append_assoc, List.singleton_append]
    rw [components_slash_append (p := ⟨p.text ++ "/"⟩) hslash htext h.slash, hname,
      components_slash rfl hne hslash]

/-- Names that are put behind a path are the last of its names. -/
theorem names_descend (p : Path) (h : ∀ n ∈ names, IsName n) :
    (p.descend names).names = p.names ++ names := by
  induction names generalizing p with
  | nil => exact (List.append_nil _).symm
  | cons n ns ih =>
      have hjoin : (p.join ⟨n⟩).names = p.names ++ [n] := by
        rw [Path.names, components_join p (h n List.mem_cons_self), List.filterMap_append]
        rfl
      have hrest := ih (p.join ⟨n⟩) fun m hm => h m (List.mem_cons_of_mem _ hm)
      rw [hjoin, List.append_assoc, List.singleton_append] at hrest
      exact hrest

end Path

namespace Text

variable {pattern cs : List Char} {d : Char}

/-- A text that starts with the pattern is cut at once. -/
theorem splitOnce?_of_prefix (after : List Char) :
    splitOnce? (d :: pattern) (d :: pattern ++ after) = some ([], after) := by
  have hstart : (d :: pattern).isPrefixOf? (d :: pattern ++ after) = some after :=
    List.isPrefixOf?_eq_some_iff_append_eq.2 rfl
  rw [List.cons_append] at hstart ⊢
  rw [splitOnce?, hstart]

/-- Where the pattern does not start, the text is cut further on. -/
theorem splitOnce?_cons (c : Char) (h : pattern.isPrefixOf (c :: cs) = false) :
    splitOnce? pattern (c :: cs) =
      (splitOnce? pattern cs).map fun (before, after) => (c :: before, after) := by
  have hstart : pattern.isPrefixOf? (c :: cs) = none := by
    rw [← Option.not_isSome_iff_eq_none, List.isSome_isPrefixOf?_eq_isPrefixOf, h]
    exact Bool.false_ne_true
  rw [splitOnce?, hstart]

/-- A text in which a pattern does not stand is not cut. -/
theorem splitOnce?_eq_none (h : occursIn pattern cs = false) : splitOnce? pattern cs = none := by
  induction cs with
  | nil => rw [splitOnce?, show pattern.isEmpty = false from h, if_neg Bool.false_ne_true]
  | cons c cs ih =>
      rw [occursIn, Bool.or_eq_false_iff] at h
      rw [splitOnce?_cons c h.1, ih h.2, Option.map_none]

/-- A text is cut at a doubled character where its two parts were put together, if the first of
    them neither has one itself nor ends in a single one. -/
theorem splitOnce?_doubled {before : List Char} (after : List Char)
    (hno : occursIn [d, d] before = false) (hlast : before.getLast? ≠ some d) :
    splitOnce? [d, d] (before ++ d :: d :: after) = some (before, after) := by
  induction before with
  | nil => exact splitOnce?_of_prefix after
  | cons c before ih =>
      rw [occursIn, Bool.or_eq_false_iff] at hno
      -- The second of two marks would be in the first part, or the first of them at its end.
      have hstart : [d, d].isPrefixOf (c :: (before ++ d :: d :: after)) = false := by
        cases before with
        | nil =>
            have hc : d ≠ c := fun h => hlast (by rw [h, List.getLast?_singleton])
            rw [List.isPrefixOf, beq_eq_false_iff_ne.2 hc, Bool.false_and]
        | cons e before => exact hno.1
      have hbefore : before.getLast? ≠ some d := by
        cases before with
        | nil => exact Option.some_ne_none d |>.symm
        | cons e before => exact hlast
      rw [List.cons_append, splitOnce?_cons c hstart, ih hno.2 hbefore, Option.map_some]

theorem stripStart?_append (start rest : String) :
    stripStart? (start ++ rest) start = some rest := by
  have hstart : start.toList.isPrefixOf? (start ++ rest).toList = some rest.toList :=
    List.isPrefixOf?_eq_some_iff_append_eq.2 String.toList_append.symm
  rw [stripStart?, hstart, Option.map_some, String.ofList_toList]

theorem stripStart?_eq_none {text start : String} (h : ¬ start.toList <+: text.toList) :
    stripStart? text start = none := by
  have hstart : start.toList.isPrefixOf? text.toList = none := by
    rw [← Option.not_isSome_iff_eq_none, List.isSome_isPrefixOf?_eq_isPrefixOf,
      List.isPrefixOf_iff_prefix]
    exact h
  rw [stripStart?, hstart, Option.map_none]

/-- A suffix is taken off exactly if the text ends in it, and what is left is the text before it. -/
theorem stripSuffix?_eq_some {text suffix stem : String} :
    stripSuffix? text suffix = some stem ↔ text = stem ++ suffix := by
  rw [stripSuffix?, Option.map_eq_some_iff]
  constructor
  · rintro ⟨cs, hcs, rfl⟩
    rw [List.isSuffixOf?_eq_some_iff_append_eq] at hcs
    rw [← String.toList_inj, String.toList_append, String.toList_ofList, hcs]
  · rintro rfl
    exact ⟨stem.toList, List.isSuffixOf?_eq_some_iff_append_eq.2 String.toList_append.symm,
      String.ofList_toList⟩

/-- Nothing is taken off a text that does not end so. -/
theorem stripSuffix?_eq_none {text suffix : String} :
    stripSuffix? text suffix = none ↔ endsWith text suffix = false := by
  rw [stripSuffix?, Option.map_eq_none_iff, ← Option.not_isSome_iff_eq_none,
    List.isSome_isSuffixOf?_eq_isSuffixOf, endsWith, Bool.not_eq_true]

end Text

namespace Origin

/-- What is left of the name of a source file: the name without the longest of the endings that it
    has, or all of it. -/
def IsStem (name stem : String) : Prop :=
  (∃ ending ∈ sourceEndings, name = stem ++ ending ∧
    ∀ other ∈ sourceEndings, Text.endsWith name other = true → other.length ≤ ending.length) ∨
  stem = name ∧ ∀ ending ∈ sourceEndings, Text.endsWith name ending = false

/-- An ending that is tried later is shorter, or does not occur together with the earlier one. -/
theorem pairwise_sourceEndings : sourceEndings.Pairwise fun earlier later =>
    later.length ≤ earlier.length ∨ ¬ earlier.toList <:+ later.toList := by
  decide

/-- The order in which endings are tried lets the longest one win. -/
theorem isStem_sourceStem (name : String) : IsStem name (sourceStem name) := by
  rw [sourceStem]
  cases hfound : sourceEndings.findSome? (Text.stripSuffix? name) with
  | none =>
      rw [List.findSome?_eq_none_iff] at hfound
      exact Or.inr ⟨rfl, fun ending he => Text.stripSuffix?_eq_none.1 (hfound ending he)⟩
  | some stem =>
      rcases List.findSome?_eq_some_iff.1 hfound with ⟨earlier, ending, later, hlist, hstem, hno⟩
      -- The endings in front of this one were tried without success.
      have hpairs := pairwise_sourceEndings
      rw [hlist, List.pairwise_append, List.pairwise_cons] at hpairs
      have hname := Text.stripSuffix?_eq_some.1 hstem
      refine Or.inl ⟨ending, ?_, hname, fun other hother hends => ?_⟩
      · rw [hlist]
        exact List.mem_append_right _ List.mem_cons_self
      · rw [hlist, List.mem_append, List.mem_cons] at hother
        rcases hother with hother | rfl | hother
        · rw [Text.stripSuffix?_eq_none.1 (hno other hother)] at hends
          exact absurd hends Bool.false_ne_true
        · exact Nat.le_refl _
        · rcases hpairs.2.1.1 other hother with hle | hnot
          · exact hle
          · -- Of two endings of one name the shorter is an ending of the longer.
            by_contra hlt
            have hending : ending.toList <:+ name.toList := ⟨stem.toList, by
              rw [hname, String.toList_append]⟩
            refine hnot (List.suffix_of_suffix_length_le hending
              (List.isSuffixOf_iff_suffix.1 hends) ?_)
            rw [String.length_toList, String.length_toList]
            exact Nat.le_of_lt (Nat.lt_of_not_le hlt)

/-- The place of a file inside its package is that of its stem, or of its directory. -/
theorem placeOf_append_singleton (directories : List String) (last : String) :
    placeOf (directories ++ [last]) =
      directories ++ if sourceStem last = "index" then [] else [sourceStem last] := by
  rw [placeOf, List.getLast?_concat, List.dropLast_concat]

/-- Below the innermost directory of packages are the names behind it. -/
theorem belowPackages?_append (outer : List String) {names : List String}
    (h : packageDirectory ∉ names) :
    belowPackages? (outer ++ packageDirectory :: names) = some names := by
  -- The names are looked through from the end, so that the innermost directory is met first.
  have hkept : ∀ n ∈ names.reverse, (n != packageDirectory) = true := fun n hn => by
    rw [bne_iff_ne]
    rintro rfl
    exact h (List.mem_reverse.1 hn)
  rw [belowPackages?, if_pos (List.mem_append_right _ List.mem_cons_self), List.reverse_append,
    List.reverse_cons, List.append_assoc, List.takeWhile_append_of_pos hkept,
    List.singleton_append, List.takeWhile_cons_of_neg (by rw [bne_self_eq_false]; exact
      Bool.false_ne_true), List.append_nil, List.reverse_reverse]

/-- The origin of a file in a package, wherever the package is. -/
theorem ofFile_descend (base : Path) {names below : List String} {package : String}
    (hnames : ∀ n ∈ names, Path.IsName n ∧ n ≠ packageDirectory)
    (hsplit : splitPackage? names = some (package, below)) :
    ofFile (base.descend (packageDirectory :: names)) false =
      { library := some (describedPackage package), path := placeOf below } := by
  have hall : ∀ n ∈ packageDirectory :: names, Path.IsName n := by
    intro n hn
    rcases List.mem_cons.1 hn with rfl | hn
    · decide
    · exact (hnames n hn).1
  -- Behind the directory of packages there is no other.
  have hinner : packageDirectory ∉ names := fun hmem => (hnames _ hmem).2 rfl
  rw [ofFile, if_neg Bool.false_ne_true, Path.names_descend base hall,
    belowPackages?_append base.names hinner, Option.bind_some, hsplit]

end Origin

/-- The name of a package whose types can be declared in a package of their own. -/
inductive PackageName where
  /-- A package outside of all scopes. -/
  | plain (name : String) (isName : Path.IsName name)
      (notDirectory : name ≠ Origin.packageDirectory) (unscoped : Origin.isScope name = false)
      (undivided : Text.contains name "__" = false)
  /-- A package in a scope. -/
  | inScope (scope name : String) (nonempty : scope ≠ "") (slash : '/' ∉ scope.toList)
      (notTypes : scope ≠ "types") (undivided : Text.contains scope "__" = false)
      (ending : scope.toList.getLast? ≠ some '_') (isName : Path.IsName name)
      (notDirectory : name ≠ Origin.packageDirectory)

namespace PackageName

/-- The name as it is written in programs. -/
def text : PackageName → String
  | plain name .. => name
  | inScope scope name .. => "@" ++ scope ++ "/" ++ name

/-- The directories of the package. -/
def directories : PackageName → List String
  | plain name .. => [name]
  | inScope scope name .. => ["@" ++ scope, name]

/-- The directory of the package of its types in the scope `@types`. -/
def typesDirectory : PackageName → String
  | plain name .. => name
  | inScope scope name .. => scope ++ "__" ++ name

theorem toList_text_inScope (scope name : String) :
    ("@" ++ scope ++ "/" ++ name).toList = '@' :: (scope.toList ++ '/' :: name.toList) := by
  simp only [String.toList_append, List.append_assoc]
  rfl

/-- The directory of the types of a package in a scope, as a text. -/
theorem toList_types_inScope (scope name : String) :
    (scope ++ "__" ++ name).toList = scope.toList ++ '_' :: '_' :: name.toList := by
  simp only [String.toList_append, List.append_assoc]
  rfl

/-- The directories of a package are plain names. -/
theorem mem_directories (p : PackageName) :
    ∀ n ∈ p.directories, Path.IsName n ∧ n ≠ Origin.packageDirectory := by
  intro n hn
  cases p with
  | plain name isName notDirectory =>
      rw [List.mem_singleton.1 hn]
      exact ⟨isName, notDirectory⟩
  | inScope scope name nonempty slash notTypes undivided ending isName notDirectory =>
      rcases List.mem_cons.1 hn with rfl | hn
      · have hlist : ("@" ++ scope).toList = '@' :: scope.toList := String.toList_append
        refine ⟨Path.isName_of_mem (c := '@') ?_ (by decide) ?_, fun h => ?_⟩
        · rw [hlist]
          exact List.mem_cons_self
        · rw [hlist, List.mem_cons, not_or]
          exact ⟨by decide, slash⟩
        · have hhead := congrArg (·.toList.head?) h
          simp only [hlist, List.head?_cons] at hhead
          exact absurd hhead (by decide)
      · rw [List.mem_singleton.1 hn]
        exact ⟨isName, notDirectory⟩

/-- The name in the scope `@types` is cut where it was put together. -/
theorem splitOnce?_types {scope : String} (name : String)
    (undivided : Text.contains scope "__" = false) (ending : scope.toList.getLast? ≠ some '_') :
    Text.splitOnce? "__".toList (scope ++ "__" ++ name).toList =
      some (scope.toList, name.toList) := by
  rw [toList_types_inScope]
  exact Text.splitOnce?_doubled name.toList undivided ending

theorem isName_typesDirectory (p : PackageName) :
    Path.IsName p.typesDirectory ∧ p.typesDirectory ≠ Origin.packageDirectory := by
  cases p with
  | plain name isName notDirectory => exact ⟨isName, notDirectory⟩
  | inScope scope name nonempty slash notTypes undivided ending isName notDirectory =>
      refine ⟨Path.isName_of_mem (c := '_') ?_ (by decide) ?_, fun h => ?_⟩
      · rw [typesDirectory, toList_types_inScope]
        exact List.mem_append_right _ List.mem_cons_self
      · simp only [typesDirectory, toList_types_inScope, List.mem_append, List.mem_cons, slash,
          isName.slash, or_false, false_or]
        decide
      · -- There is no place at which the other name could be cut.
        have hcut := splitOnce?_types name undivided ending
        have hnone : Text.splitOnce? "__".toList Origin.packageDirectory.toList = none := by decide
        rw [show scope ++ "__" ++ name = _ from h, hnone] at hcut
        cases hcut

/-- Type declarations describe the package. -/
theorem describedPackage_types (p : PackageName) :
    Origin.describedPackage ("@types/" ++ p.typesDirectory) = p.text := by
  rw [Origin.describedPackage, Text.stripStart?_append]
  cases p with
  | plain name isName notDirectory unscoped undivided =>
      simp only [typesDirectory, text, Text.splitOnce?_eq_none undivided]
  | inScope scope name nonempty slash notTypes undivided ending =>
      simp only [typesDirectory, text, splitOnce?_types name undivided ending,
        String.ofList_toList]

/-- A package outside of the scope `@types` describes itself. -/
theorem describedPackage_text (p : PackageName) : Origin.describedPackage p.text = p.text := by
  rw [Origin.describedPackage, Text.stripStart?_eq_none]
  rintro ⟨rest, hrest⟩
  cases p with
  | plain name isName =>
      refine isName.slash ?_
      rw [show name.toList = _ from hrest.symm]
      exact List.mem_append_left _ (by decide)
  | inScope scope name nonempty slash notTypes =>
      -- What stands in front of the slash would be the scope.
      rw [text, toList_text_inScope] at hrest
      have hscope : "types".toList ++ '/' :: rest = scope.toList ++ '/' :: name.toList :=
        (List.cons.inj hrest).2
      have hsegments := congrArg Path.segments hscope
      rw [Path.segments_append_slash _ _ (by decide), Path.segments_append_slash _ _ slash]
        at hsegments
      exact notTypes (String.toList_inj.1 (List.cons.inj hsegments).1.symm)

/-- As many names belong to the package as it has directories. -/
theorem splitPackage?_directories (p : PackageName) {below : List String} (hne : below ≠ []) :
    Origin.splitPackage? (p.directories ++ below) = some (p.text, below) := by
  cases p with
  | plain name isName notDirectory unscoped =>
      obtain ⟨first, rest, rfl⟩ := List.exists_cons_of_ne_nil hne
      simp only [directories, text, List.singleton_append, Origin.splitPackage?, unscoped,
        Bool.false_eq_true, if_false]
  | inScope scope name =>
      -- The first directory is a scope, so the second belongs to the name.
      have hscope : Origin.isScope ("@" ++ scope) = true := by
        rw [Origin.isScope, String.toList_append]
        rfl
      simp only [directories, text, List.cons_append, List.nil_append, Origin.splitPackage?,
        hscope, if_true]

end PackageName

namespace Origin

variable (p : PackageName) (base : Path) {below : List String}

/-- The origin of a file in a package. -/
theorem ofFile_package (hne : below ≠ [])
    (hbelow : ∀ n ∈ below, Path.IsName n ∧ n ≠ packageDirectory) :
    ofFile (base.descend (packageDirectory :: (p.directories ++ below))) false =
      { library := some p.text, path := placeOf below } := by
  have hnames : ∀ n ∈ p.directories ++ below, Path.IsName n ∧ n ≠ packageDirectory := by
    intro n hn
    rcases List.mem_append.1 hn with hn | hn
    · exact p.mem_directories n hn
    · exact hbelow n hn
  rw [ofFile_descend base hnames (p.splitPackage?_directories hne), p.describedPackage_text]

/-- The origin of a file in the package of the types of a package. -/
theorem ofFile_typesPackage (hbelow : ∀ n ∈ below, Path.IsName n ∧ n ≠ packageDirectory) :
    ofFile (base.descend (packageDirectory :: "@types" :: p.typesDirectory :: below)) false =
      { library := some p.text, path := placeOf below } := by
  have hnames : ∀ n ∈ "@types" :: p.typesDirectory :: below,
      Path.IsName n ∧ n ≠ packageDirectory := by
    intro n hn
    rcases List.mem_cons.1 hn with rfl | hn
    · decide
    · rcases List.mem_cons.1 hn with rfl | hn
      · exact p.isName_typesDirectory
      · exact hbelow n hn
  -- To the path this is a package in a scope like any other.
  have hsplit : splitPackage? ("@types" :: p.typesDirectory :: below) =
      some ("@types/" ++ p.typesDirectory, below) := rfl
  rw [ofFile_descend base hnames hsplit, p.describedPackage_types]

/-- Declarations of types belong to the package that they describe. A file of a package and the file
    at the same place in the package of its types have the same origin, wherever the two packages
    are: the package, and the place of the file without the ending of its name. -/
theorem types_attributed (directories : List String) (last : String)
    (hbelow : ∀ n ∈ directories ++ [last], Path.IsName n ∧ n ≠ packageDirectory) :
    ofFile (base.descend
        (packageDirectory :: "@types" :: p.typesDirectory :: (directories ++ [last]))) false =
      ofFile (base.descend (packageDirectory :: (p.directories ++ (directories ++ [last]))))
        false ∧
    ∃ stem, IsStem last stem ∧
      ofFile (base.descend (packageDirectory :: (p.directories ++ (directories ++ [last]))))
        false =
        { library := some p.text
          path := directories ++ if stem = "index" then [] else [stem] } := by
  have hplain := ofFile_package p base (List.concat_ne_nil last directories) hbelow
  have htypes := ofFile_typesPackage p base hbelow
  refine ⟨htypes.trans hplain.symm, sourceStem last, isStem_sourceStem last, ?_⟩
  rw [hplain, placeOf_append_singleton]

/-- A package in a scope, installed for another package. -/
theorem types_attributed_nested :
    ofFile ⟨"/app/node_modules/a/node_modules/@types/babel__core/lib/index.d.ts"⟩ false =
      ofFile ⟨"/app/node_modules/a/node_modules/@babel/core/lib/index.d.ts"⟩ false ∧
    ∃ stem, IsStem "index.d.ts" stem ∧
      ofFile ⟨"/app/node_modules/a/node_modules/@babel/core/lib/index.d.ts"⟩ false =
        { library := some "@babel/core"
          path := ["lib"] ++ if stem = "index" then [] else [stem] } := by
  have hbelow : ∀ n ∈ ["lib"] ++ ["index.d.ts"], Path.IsName n ∧ n ≠ packageDirectory := by
    decide
  have h := types_attributed (.inScope "babel" "core" (by decide) (by decide) (by decide)
    (by decide) (by decide) (by decide) (by decide)) ⟨"/app/node_modules/a"⟩ ["lib"] "index.d.ts"
    hbelow
  have htypes : Path.descend ⟨"/app/node_modules/a"⟩
      ["node_modules", "@types", "babel__core", "lib", "index.d.ts"] =
        ⟨"/app/node_modules/a/node_modules/@types/babel__core/lib/index.d.ts"⟩ := by
    decide +kernel
  have hplain : Path.descend ⟨"/app/node_modules/a"⟩
      ["node_modules", "@babel", "core", "lib", "index.d.ts"] =
        ⟨"/app/node_modules/a/node_modules/@babel/core/lib/index.d.ts"⟩ := by
    decide +kernel
  rw [← htypes, ← hplain]
  exact h

end Origin

end DocModel
