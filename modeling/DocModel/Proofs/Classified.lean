import DocModel.Proofs.Origins

/-!
# What every export comes to

The exports of a file are looked at one by one, and each of them comes to one thing. A name that
stands for a whole file opens a group for it. A name that stands for something in another file of
the projects is passed on, in the group of that file. Everything else is an export of the file's
own, if it has a reference. The list of what the exports come to, in their order, is all that there
is to the result: its two lists are read off it.

What an export comes to depends on what is known when its turn comes, since looking up a reference
changes the state. Which group it goes to does not: growth changes nothing about the paths of files.

## Main definitions

* `Contribution`: What a single export comes to.
* `Context.ComesTo`: What the export of a symbol comes to, in the state in which its turn comes.
* `Context.Tallied`: The exports of a file are those that the contributions make.

## Theorems

* `Context.Tallied.change`, `Context.Tallied.append`: One contribution more.
* `Context.tallied_addExport`: One export more.
* `Context.tallied_exportsUntil`: The exports of a file, as far as they were looked at.
* `Session.exports_classified`: Every export comes to one thing, and there is nothing else.
-/

namespace DocModel

/-- What tells groups apart: the path of the file they come from, and the name that stands for it.
-/
def ReExport.key (g : ReExport) : String × Option String := (g.file, g.spaceName)

/-- What a single export comes to. -/
inductive Contribution where
  | nothing
  /-- All names of a file, under one name or as they are. -/
  | whole (origin : Path) (spaceName : Option String)
  /-- A name of another file. -/
  | passed (origin : Path) (entry : ExportedReference)
  /-- A name of the file's own, or from outside. -/
  | own (entry : ExportedReference)

/-- The entry that a contribution makes among the exports of the file's own. -/
def Contribution.own? : Contribution → Option ExportedReference
  | .own entry => some entry
  | _ => none

/-- The entry that a contribution makes in either list. -/
def Contribution.entry? : Contribution → Option ExportedReference
  | .passed _ entry => some entry
  | .own entry => some entry
  | _ => none

/-- A reference that is exported under a name has that name. -/
theorem exportedName_exportedAs (name : String) (reference : Reference) :
    (Context.exportedAs name reference).exportedName = name := by
  unfold Context.exportedAs ExportedReference.exportedName
  by_cases h : name = reference.name
  · rw [if_pos h, Option.getD_none, h]
  · rw [if_neg h, Option.getD_some]

/-- A file of the projects has a path below the root of its project. -/
theorem exists_relativeFile? {passthrough : List String} {s : State} (hs : Grounded passthrough s)
    {file : Path} {i : Nat} (hi : s.projectFor? file = some i) :
    ∃ relative, s.relativeFile? file = some relative := by
  have hrooted : Rooted s.projects := fun project hp => by
    rw [(hs.located project hp).passed]
    exact hs.located project hp
  rcases hrooted.relativeFile? hs.trees hi with ⟨_, below, _, _, hrelative⟩
  exact ⟨_, hrelative⟩

namespace Context

/-- The key of the group of a file under a name. A file from outside has no group. -/
def groupKey? (ctx : Context) (s : State) (origin : Path) (spaceName : Option String) :
    Option (String × Option String) :=
  if ctx.isExternalFile s origin then none
  else (s.relativeFile? origin).map fun relative => (relative, spaceName)

/-- The key of the group that a contribution goes to. -/
def keyOf? (ctx : Context) (s : State) : Contribution → Option (String × Option String)
  | .whole origin spaceName => ctx.groupKey? s origin spaceName
  | .passed origin _ => ctx.groupKey? s origin none
  | _ => none

/-- The entry that a contribution makes in the group of a key. -/
def entryIn? (ctx : Context) (s : State) (key : String × Option String) :
    Contribution → Option ExportedReference
  | .passed origin entry => if ctx.groupKey? s origin none = some key then some entry else none
  | _ => none

/-- A contribution passes on all names of the file of a group. -/
def Marks (ctx : Context) (s : State) (key : String × Option String) : Contribution → Prop
  | .whole origin spaceName => ctx.groupKey? s origin spaceName = some key
  | _ => False

/-- A name for a whole file: it stands for a file, and the file is known. -/
structure StandsForFile (ctx : Context) (x : SymbolId) (info : SymbolInfo) (origin : Path) :
    Prop where
  link : info.kind = .link
  kind : (ctx.program.symbol? (ctx.program.resolveAlias x)).map SymbolInfo.kind = some .sourceFile
  declared : ctx.symbolFile? (ctx.program.resolveAlias x) = some origin

/-- A name for something in another file of the projects. -/
structure StandsForOther (ctx : Context) (s : State) (file : Path) (x : SymbolId)
    (info : SymbolInfo) (origin : Path) : Prop where
  link : info.kind = .link
  kind : (ctx.program.symbol? (ctx.program.resolveAlias x)).map SymbolInfo.kind ≠ some .sourceFile
  declared : ctx.symbolFile? (ctx.program.resolveAlias x) = some origin
  other : origin.same file = false
  inside : ctx.isExternalFile s origin = false

/-- The state in which a symbol is asked for itself: it does not stand for a file, and if it stands
    for something in another file, then that was asked for first and has no reference. -/
structure IsLeft (ctx : Context) (s : State) (t : Trail) (file : Path) (x : SymbolId)
    (info : SymbolInfo) (s' : State) (t' : Trail) : Prop where
  noFile : ∀ origin, ¬ ctx.StandsForFile x info origin
  noOther : (∀ origin, ¬ ctx.StandsForOther s file x info origin) ∧ s' = s ∧ t' = t ∨
    (∃ origin, ctx.StandsForOther s file x info origin) ∧
      ctx.referenceOf (ctx.program.resolveAlias x) s t = .ok ((none, s'), t')

/-- What the export of a symbol comes to, in the state in which its turn comes. -/
inductive ComesTo (ctx : Context) (s : State) (t : Trail) (file : Path) (x : SymbolId) :
    Contribution → Prop
  | unknown (hx : ctx.program.symbol? x = none) : ComesTo ctx s t file x .nothing
  | whole {info : SymbolInfo} {origin : Path} (hx : ctx.program.symbol? x = some info)
      (hfile : ctx.StandsForFile x info origin) :
      ComesTo ctx s t file x (.whole origin (some info.name))
  | passed {info : SymbolInfo} {origin : Path} {r : Reference} {s' : State} {t' : Trail}
      (hx : ctx.program.symbol? x = some info) (hother : ctx.StandsForOther s file x info origin)
      (hreference : ctx.referenceOf (ctx.program.resolveAlias x) s t = .ok ((some r, s'), t')) :
      ComesTo ctx s t file x (.passed origin (exportedAs info.name r))
  | own {info : SymbolInfo} {r : Reference} {s₁ s' : State} {t₁ t' : Trail}
      (hx : ctx.program.symbol? x = some info) (hleft : ctx.IsLeft s t file x info s₁ t₁)
      (hreference : ctx.referenceOf x s₁ t₁ = .ok ((some r, s'), t')) :
      ComesTo ctx s t file x (.own (exportedAs info.name r))
  | refused {info : SymbolInfo} {s₁ s' : State} {t₁ t' : Trail}
      (hx : ctx.program.symbol? x = some info) (hleft : ctx.IsLeft s t file x info s₁ t₁)
      (hreference : ctx.referenceOf x s₁ t₁ = .ok ((none, s'), t')) :
      ComesTo ctx s t file x .nothing

/-- Every entry has the name of the symbol that it is made for. -/
theorem ComesTo.exportedName {ctx : Context} {s : State} {t : Trail} {file : Path} {x : SymbolId}
    {c : Contribution} (h : ctx.ComesTo s t file x c) {entry : ExportedReference}
    (hentry : c.entry? = some entry) :
    ∃ info, ctx.program.symbol? x = some info ∧ entry.exportedName = info.name := by
  cases h with
  | unknown hx => cases hentry
  | whole hx hfile => cases hentry
  | refused hx hleft hreference => cases hentry
  | passed hx hother hreference =>
      cases hentry
      exact ⟨_, hx, exportedName_exportedAs _ _⟩
  | own hx hleft hreference =>
      cases hentry
      exact ⟨_, hx, exportedName_exportedAs _ _⟩

/-- The exports of a file are those that the contributions make: they are listed in order, each
    group has a key of its own, there is a group where there is a contribution to it, and it holds
    what they make in it. -/
structure Tallied (ctx : Context) (s : State) (cs : List Contribution) (e : FileExports) :
    Prop where
  own : e.exports = cs.filterMap Contribution.own?
  distinct : (e.reexports.map ReExport.key).Nodup
  groups : ∀ key, key ∈ e.reexports.map ReExport.key ↔ key ∈ cs.filterMap (ctx.keyOf? s)
  references : ∀ g ∈ e.reexports, g.references = cs.filterMap (ctx.entryIn? s g.key)
  wildcard : ∀ g ∈ e.reexports, (g.wildcard = true ↔ ∃ c ∈ cs, ctx.Marks s g.key c)

/-- The keys of groups after one of them was changed. -/
theorem keys_changeIn (groups : List ReExport) (fresh : ReExport) {change : ReExport → ReExport}
    (hkey : ∀ g, (change g).key = g.key) :
    (changeIn groups fresh change).map ReExport.key =
      if fresh.key ∈ groups.map ReExport.key then groups.map ReExport.key
      else groups.map ReExport.key ++ [fresh.key] := by
  induction groups with
  | nil => simp only [changeIn, List.map_cons, List.map_nil, hkey, List.not_mem_nil, if_false,
      List.nil_append]
  | cons g rest ih =>
      -- A group is recognized by the two parts of its key.
      have hiff : (g.file = fresh.file ∧ g.spaceName = fresh.spaceName) ↔ fresh.key = g.key := by
        simp only [ReExport.key, Prod.mk.injEq, eq_comm]
      unfold changeIn
      by_cases hg : fresh.key = g.key
      · rw [if_pos (hiff.2 hg), if_pos (by rw [hg]; exact List.mem_cons_self)]
        simp only [List.map_cons, hkey]
      · rw [if_neg fun h => hg (hiff.1 h)]
        simp only [List.map_cons, ih, List.mem_cons, hg, false_or]
        split <;> rfl

/-- The keys afterwards are those before, and the key of the group. -/
theorem mem_keys_changeIn (groups : List ReExport) (fresh : ReExport)
    {change : ReExport → ReExport} (hkey : ∀ g, (change g).key = g.key)
    (key : String × Option String) :
    key ∈ (changeIn groups fresh change).map ReExport.key ↔
      key ∈ groups.map ReExport.key ∨ key = fresh.key := by
  rw [keys_changeIn groups fresh hkey]
  split
  · rename_i hold
    refine ⟨Or.inl, ?_⟩
    rintro (hmem | rfl)
    · exact hmem
    · exact hold
  · rw [List.mem_append, List.mem_singleton]

/-- Keys stay distinct: a group is opened only where there is none of its key. -/
theorem nodup_keys_changeIn {groups : List ReExport} (fresh : ReExport)
    {change : ReExport → ReExport} (hdistinct : (groups.map ReExport.key).Nodup)
    (hkey : ∀ g, (change g).key = g.key) :
    ((changeIn groups fresh change).map ReExport.key).Nodup := by
  rw [keys_changeIn groups fresh hkey]
  split
  · exact hdistinct
  · rename_i hnew
    rw [List.nodup_append]
    refine ⟨hdistinct, List.nodup_singleton _, fun a ha b hb hab => hnew ?_⟩
    rw [List.mem_singleton] at hb
    rw [← hb, ← hab]
    exact ha

/-- After a change, a group of another key was there before, and a group of the key is one that was
    changed: it was there, or it is new and there was none. -/
theorem mem_changeIn_cases {groups : List ReExport} {fresh g : ReExport}
    {change : ReExport → ReExport} (hdistinct : (groups.map ReExport.key).Nodup)
    (hg : g ∈ changeIn groups fresh change) :
    (g ∈ groups ∧ g.key ≠ fresh.key) ∨
      ∃ g', g = change g' ∧ g'.key = fresh.key ∧
        (g' ∈ groups ∨ g' = fresh ∧ fresh.key ∉ groups.map ReExport.key) := by
  induction groups with
  | nil =>
      rw [changeIn, List.mem_singleton] at hg
      exact Or.inr ⟨fresh, hg, rfl, Or.inr ⟨rfl, List.not_mem_nil⟩⟩
  | cons first rest ih =>
      rw [List.map_cons, List.nodup_cons] at hdistinct
      unfold changeIn at hg
      split at hg
      · rename_i hfirst
        have hfirstKey : first.key = fresh.key := Prod.ext hfirst.1 hfirst.2
        rcases List.mem_cons.1 hg with rfl | hg
        · exact Or.inr ⟨first, rfl, hfirstKey, Or.inl List.mem_cons_self⟩
        · -- The keys are distinct, so no other group has the key.
          refine Or.inl ⟨List.mem_cons_of_mem _ hg, fun h => hdistinct.1 ?_⟩
          rw [hfirstKey, ← h]
          exact List.mem_map_of_mem hg
      · rename_i hfirst
        have hfirstKey : first.key ≠ fresh.key := fun h => hfirst (Prod.mk.inj h)
        rcases List.mem_cons.1 hg with rfl | hg
        · exact Or.inl ⟨List.mem_cons_self, hfirstKey⟩
        · rcases ih hdistinct.2 hg with ⟨hmem, hne⟩ | ⟨g', rfl, hg', hfrom⟩
          · exact Or.inl ⟨List.mem_cons_of_mem _ hmem, hne⟩
          · refine Or.inr ⟨g', rfl, hg', hfrom.imp (List.mem_cons_of_mem _) fun hnew => ?_⟩
            refine ⟨hnew.1, fun hmem => ?_⟩
            rcases List.mem_cons.1 hmem with h | h
            · exact hfirstKey h.symm
            · exact hnew.2 h

section Keys

variable {ctx : Context} {s : State} {key key' : String × Option String} {c : Contribution}

/-- An entry is made only in the group that the contribution goes to. -/
theorem keyOf?_of_entryIn? {entry : ExportedReference} (h : ctx.entryIn? s key c = some entry) :
    ctx.keyOf? s c = some key := by
  cases c with
  | passed origin e =>
      simp only [entryIn?] at h
      split at h
      · assumption
      · cases h
  | _ => cases h

/-- Only a contribution to a group passes on all names of its file. -/
theorem keyOf?_of_marks (h : ctx.Marks s key c) : ctx.keyOf? s c = some key := by
  cases c with
  | whole origin spaceName => exact h
  | _ => cases h

/-- A contribution to one group makes no entry in another. -/
theorem entryIn?_eq_none_of_ne (hc : ctx.keyOf? s c = some key') (hne : key ≠ key') :
    ctx.entryIn? s key c = none := by
  by_contra hsome
  rcases Option.ne_none_iff_exists'.1 hsome with ⟨entry, hentry⟩
  rw [keyOf?_of_entryIn? hentry, Option.some.injEq] at hc
  exact hne hc

/-- Nor does it pass on all names of another. -/
theorem not_marks_of_ne (hc : ctx.keyOf? s c = some key') (hne : key ≠ key') :
    ¬ ctx.Marks s key c := by
  intro hm
  rw [keyOf?_of_marks hm, Option.some.injEq] at hc
  exact hne hc

end Keys

namespace Tallied

variable {ctx : Context} {s : State} {cs : List Contribution} {e : FileExports}

theorem empty (ctx : Context) (s : State) : ctx.Tallied s [] {} := by
  refine ⟨rfl, List.nodup_nil, fun key => Iff.rfl, ?_, ?_⟩
  · intro g hg
    exact absurd hg List.not_mem_nil
  · intro g hg
    exact absurd hg List.not_mem_nil

/-- A contribution that goes to no group. -/
theorem append (h : ctx.Tallied s cs e) {c : Contribution} (hc : ctx.keyOf? s c = none) :
    ctx.Tallied s (cs ++ [c]) { e with exports := e.exports ++ c.own?.toList } := by
  -- A contribution without a key is no entry of a group, and marks none.
  have hentry : ∀ key, ctx.entryIn? s key c = none := by
    intro key
    by_contra hsome
    rcases Option.ne_none_iff_exists'.1 hsome with ⟨entry, hentry⟩
    rw [keyOf?_of_entryIn? hentry] at hc
    cases hc
  have hmarks : ∀ key, ¬ ctx.Marks s key c := by
    intro key hm
    rw [keyOf?_of_marks hm] at hc
    cases hc
  refine ⟨?_, h.distinct, ?_, ?_, ?_⟩
  · rw [List.filterMap_append, h.own]
    cases hown : c.own? <;> simp only [List.filterMap_cons, List.filterMap_nil, hown,
      Option.toList_none, Option.toList_some]
  · intro key
    rw [h.groups key, List.filterMap_append, List.filterMap_cons_none hc, List.filterMap_nil,
      List.append_nil]
  · intro g hg
    rw [h.references g hg, List.filterMap_append, List.filterMap_cons_none (hentry g.key),
      List.filterMap_nil, List.append_nil]
  · intro g hg
    rw [h.wildcard g hg]
    constructor
    · rintro ⟨c', hc', hm⟩
      exact ⟨c', List.mem_append_left _ hc', hm⟩
    · rintro ⟨c', hc', hm⟩
      rcases List.mem_append.1 hc' with hc' | hc'
      · exact ⟨c', hc', hm⟩
      · rw [List.mem_singleton.1 hc'] at hm
        exact absurd hm (hmarks g.key)

/-- A contribution that makes nothing at all. -/
theorem skip (h : ctx.Tallied s cs e) {c : Contribution} (hc : ctx.keyOf? s c = none)
    (hown : c.own? = none) : ctx.Tallied s (cs ++ [c]) e := by
  have happend := h.append hc
  rw [hown, Option.toList_none, List.append_nil] at happend
  exact happend

/-- No contribution was made to a group that is not there. -/
theorem keyOf?_ne (h : ctx.Tallied s cs e) {key : String × Option String}
    (hnew : key ∉ e.reexports.map ReExport.key) {c : Contribution} (hc : c ∈ cs) :
    ctx.keyOf? s c ≠ some key :=
  fun hkey => hnew ((h.groups key).2 (List.mem_filterMap.2 ⟨c, hc, hkey⟩))

section Change

variable {c : Contribution} {fresh g : ReExport} {modify : ReExport → ReExport}

/-- The group that a contribution goes to holds one entry more, and the others hold what they held.
-/
theorem references_changeIn (h : ctx.Tallied s cs e) (hc : ctx.keyOf? s c = some fresh.key)
    (hempty : fresh.references = []) (hkey : ∀ g, (modify g).key = g.key)
    (hreferences : ∀ g, (modify g).references =
      g.references ++ (ctx.entryIn? s fresh.key c).toList)
    (hg : g ∈ changeIn e.reexports fresh modify) :
    g.references = (cs ++ [c]).filterMap (ctx.entryIn? s g.key) := by
  rw [List.filterMap_append, List.filterMap_cons, List.filterMap_nil]
  rcases mem_changeIn_cases h.distinct hg with ⟨hmem, hne⟩ | ⟨g', rfl, hg', hfrom⟩
  · rw [entryIn?_eq_none_of_ne hc hne, h.references g hmem]
    exact (List.append_nil _).symm
  · rw [hkey, hg', hreferences]
    -- A group that is opened now has had no contribution before.
    have hbefore : g'.references = cs.filterMap (ctx.entryIn? s fresh.key) := by
      rcases hfrom with hmem | ⟨rfl, hnew⟩
      · rw [h.references g' hmem, hg']
      · rw [hempty, eq_comm, List.filterMap_eq_nil_iff]
        intro c' hc'
        by_contra hsome
        rcases Option.ne_none_iff_exists'.1 hsome with ⟨entry, hentry⟩
        exact h.keyOf?_ne hnew hc' (keyOf?_of_entryIn? hentry)
    rw [hbefore]
    cases ctx.entryIn? s fresh.key c <;> rfl

/-- A group passes on all names if it did, or if the contribution says so. -/
theorem wildcard_changeIn (h : ctx.Tallied s cs e) (hc : ctx.keyOf? s c = some fresh.key)
    (hsingle : fresh.wildcard = false) (hkey : ∀ g, (modify g).key = g.key)
    (hwildcard : ∀ g, (modify g).wildcard = true ↔ g.wildcard = true ∨ ctx.Marks s fresh.key c)
    (hg : g ∈ changeIn e.reexports fresh modify) :
    g.wildcard = true ↔ ∃ c' ∈ cs ++ [c], ctx.Marks s g.key c' := by
  have hsplit : ∀ key, (∃ c' ∈ cs ++ [c], ctx.Marks s key c') ↔
      (∃ c' ∈ cs, ctx.Marks s key c') ∨ ctx.Marks s key c := by
    intro key
    simp only [List.mem_append, List.mem_singleton, or_and_right, exists_or, exists_eq_left]
  rw [hsplit]
  rcases mem_changeIn_cases h.distinct hg with ⟨hmem, hne⟩ | ⟨g', rfl, hg', hfrom⟩
  · rw [h.wildcard g hmem, or_iff_left (not_marks_of_ne hc hne)]
  · rw [hkey, hg', hwildcard]
    have hbefore : g'.wildcard = true ↔ ∃ c' ∈ cs, ctx.Marks s fresh.key c' := by
      rcases hfrom with hmem | ⟨rfl, hnew⟩
      · rw [h.wildcard g' hmem, hg']
      · rw [hsingle]
        refine ⟨fun hf => absurd hf Bool.false_ne_true, ?_⟩
        rintro ⟨c', hc', hm⟩
        exact absurd (keyOf?_of_marks hm) (h.keyOf?_ne hnew hc')
    rw [hbefore]

/-- A contribution that goes to a group: the group is changed, and it is opened before if there is
    none. -/
theorem change (h : ctx.Tallied s cs e) (hc : ctx.keyOf? s c = some fresh.key)
    (hown : c.own? = none) (hempty : fresh.references = []) (hsingle : fresh.wildcard = false)
    (hkey : ∀ g, (modify g).key = g.key)
    (hreferences : ∀ g, (modify g).references =
      g.references ++ (ctx.entryIn? s fresh.key c).toList)
    (hwildcard : ∀ g, (modify g).wildcard = true ↔ g.wildcard = true ∨ ctx.Marks s fresh.key c) :
    ctx.Tallied s (cs ++ [c]) { e with reexports := changeIn e.reexports fresh modify } := by
  refine ⟨?_, nodup_keys_changeIn fresh h.distinct hkey, fun key => ?_,
    fun g hg => h.references_changeIn hc hempty hkey hreferences hg,
    fun g hg => h.wildcard_changeIn hc hsingle hkey hwildcard hg⟩
  · rw [List.filterMap_append, List.filterMap_cons_none hown, List.filterMap_nil, List.append_nil]
    exact h.own
  · refine (mem_keys_changeIn e.reexports fresh hkey key).trans ?_
    rw [h.groups key, List.filterMap_append, List.filterMap_cons_some hc, List.filterMap_nil,
      List.mem_append, List.mem_singleton]

end Change

end Tallied

/-- What a wildcard export comes to. -/
def wildcard (ctx : Context) (w : WildcardExport) : Contribution :=
  match ctx.symbolFile? w.target with
  | none => .nothing
  | some target => .whole target w.spaceName

section

variable {ctx : Context} {law : Nat → Ty → Prop} {s s₁ s' : State} (hs : ctx.Grounded s) {d : Nat}
  (hl : Ty.Law ctx.settings.maxTypeDepth law) {cs : List Contribution} {exports e : FileExports}
  {t t' : Trail} {owner : ModuleHandle} {file : Path} {x : SymbolId}

include hs in
/-- A file of the projects has a group: that of its path. -/
theorem groupKey?_of_inside {origin : Path} (hin : ctx.isExternalFile s origin = false) :
    ∃ relative, s.relativeFile? origin = some relative ∧
      ∀ spaceName, ctx.groupKey? s origin spaceName = some (relative, spaceName) := by
  -- A file that is not from outside belongs to a project.
  have hproject : (s.projectFor? origin).isSome = true := by
    have hboth := hin
    rw [isExternalFile_eq, Program.isOutside, Bool.or_eq_false_iff] at hboth
    rw [← Option.not_isNone, show (s.projectFor? origin).isNone = false from hboth.2]
    rfl
  rcases Option.isSome_iff_exists.1 hproject with ⟨i, hi⟩
  rcases exists_relativeFile? hs hi with ⟨relative, hrelative⟩
  refine ⟨relative, hrelative, fun spaceName => ?_⟩
  rw [groupKey?, hin, if_neg Bool.false_ne_true, hrelative]
  rfl

include hs in
/-- A file of the projects has a group, which is changed or opened and changed. A file from outside
    has none. -/
theorem changeGroup?_cases (h₁ : ctx.From law s d s₁) {target : Path} {spaceName : Option String}
    {change : ReExport → ReExport} {o : Option FileExports}
    (hrun : ctx.changeGroup? owner exports target spaceName change s₁ t = .ok ((o, s'), t')) :
    (ctx.isExternalFile s target = true ∧ o = none) ∨
      ∃ fresh : ReExport, ctx.groupKey? s target spaceName = some fresh.key ∧
        fresh.references = [] ∧ fresh.wildcard = false ∧
        o = some { exports with reexports := changeIn exports.reexports fresh change } := by
  have hgrow := h₁.changes.projects
  have hexternal : ctx.isExternalFile s₁ target = ctx.isExternalFile s target :=
    isOutside_of_grow ctx.program hgrow target
  unfold changeGroup? at hrun
  rw [Action.get_bind, hexternal] at hrun
  by_cases hout : ctx.isExternalFile s target = true
  · rw [if_pos hout] at hrun
    exact Or.inl ⟨hout, (Action.pure_eq_ok hrun).1.symm⟩
  · rw [if_neg hout] at hrun
    rcases Action.bind_eq_ok hrun with ⟨found, s₂, t₂, hresolve, hrun⟩
    rcases From.resolveModule? law (h₁.grounded hs) hresolve with ⟨h₂, _, _, hnone, hfound⟩
    cases found with
    | none =>
        -- Every file of the projects has a module.
        refine absurd ?_ hout
        rw [← hexternal]
        exact hnone rfl
    | some handle =>
        rcases hfound handle rfl with ⟨module, hmodule, _⟩
        rcases groupKey?_of_inside hs (Bool.eq_false_iff.2 hout) with ⟨relative, hrelative, hkey⟩
        -- Making the module of the file does not move the file.
        have hrelative₂ : s₂.relativeFile? target = some relative := by
          rw [relativeFile?_of_grow hs.trees (h₁.after h₂).changes.projects, hrelative]
        simp only [Action.get_bind, hrelative₂, show s₂.module? handle = some module from hmodule]
          at hrun
        refine Or.inr ⟨_, ?_, rfl, rfl, (Action.pure_eq_ok hrun).1.symm⟩
        exact hkey spaceName

include hs in
/-- All names of a file are passed on in its group. A file from outside is passed over. -/
theorem tallied_addWildcard (h₁ : ctx.From law s d s₁) (htally : ctx.Tallied s cs exports)
    {target : Path} {spaceName : Option String}
    (hrun : ctx.addWildcard owner exports target spaceName s₁ t = .ok ((e, s'), t')) :
    ctx.Tallied s (cs ++ [.whole target spaceName]) e := by
  unfold addWildcard at hrun
  rcases Action.bind_eq_ok hrun with ⟨o, s₂, t₂, hgroup, hrun⟩
  rw [← (Action.pure_eq_ok hrun).1]
  -- A file from outside has no group, and nothing is done about it.
  rcases changeGroup?_cases hs h₁ hgroup with ⟨hout, rfl⟩ | ⟨fresh, hkey, hempty, hsingle, rfl⟩
  · have hnone : ctx.keyOf? s (.whole target spaceName) = none := by
      rw [keyOf?, groupKey?, if_pos hout]
    exact htally.skip hnone rfl
  · refine htally.change (c := .whole target spaceName) hkey rfl hempty hsingle (fun _ => rfl)
      (fun g => (List.append_nil _).symm) fun g => ?_
    exact ⟨fun _ => Or.inr hkey, fun _ => rfl⟩

/-- A symbol that is left to itself is an export of the file's own, if it has a reference. -/
theorem tallied_addDirect (htally : ctx.Tallied s cs exports) {info : SymbolInfo} {s₀ : State}
    {t₀ : Trail} (hx : ctx.program.symbol? x = some info)
    (hleft : ctx.IsLeft s₀ t₀ file x info s₁ t)
    (hrun : ctx.addDirect exports x info.name s₁ t = .ok ((e, s'), t')) :
    ∃ c, ctx.ComesTo s₀ t₀ file x c ∧ ctx.Tallied s (cs ++ [c]) e := by
  unfold addDirect at hrun
  rcases Action.bind_eq_ok hrun with ⟨o, s₂, t₂, hreference, hrun⟩
  cases o with
  | none =>
      rw [← (Action.pure_eq_ok hrun).1]
      exact ⟨.nothing, .refused hx hleft hreference, htally.skip rfl rfl⟩
  | some r =>
      rw [← (Action.pure_eq_ok hrun).1]
      exact ⟨.own (exportedAs info.name r), .own hx hleft hreference, htally.append rfl⟩

section

variable (h₁ : ctx.From law s d s₁) (htally : ctx.Tallied s cs exports) {info : SymbolInfo}

include hs hl h₁ htally

/-- Something in another file of the projects is passed on in the group of that file, if it has a
    reference. Otherwise nothing is done. -/
theorem tallied_addPassedOn? {origin : Path} {o : Option FileExports}
    (hx : ctx.program.symbol? x = some info)
    (hother : ctx.StandsForOther s₁ file x info origin)
    (hrun : ctx.addPassedOn? owner exports (ctx.program.resolveAlias x) origin info.name s₁ t =
      .ok ((o, s'), t')) :
    (o = none ∧ ctx.referenceOf (ctx.program.resolveAlias x) s₁ t = .ok ((none, s'), t')) ∨
      ∃ e c, o = some e ∧ ctx.ComesTo s₁ t file x c ∧ ctx.Tallied s (cs ++ [c]) e := by
  unfold addPassedOn? at hrun
  rcases Action.bind_eq_ok hrun with ⟨found, s₂, t₂, hreference, hrun⟩
  cases found with
  | none =>
      have heq : (((none : Option FileExports), s₂), t₂) = ((o, s'), t') := Except.ok.inj hrun
      cases heq
      exact Or.inl ⟨rfl, hreference⟩
  | some r =>
      have h₂ := ((explores hl hs d).referenceOf _).state h₁ hreference
      -- What is inside now was so when the exports were started on: roots of projects stay.
      have hinside : ctx.isExternalFile s origin = false :=
        (isOutside_of_grow ctx.program h₁.changes.projects origin).symm.trans hother.inside
      rcases changeGroup?_cases hs h₂ hrun with ⟨hout, _⟩ | ⟨fresh, hkey, hempty, hsingle, rfl⟩
      · rw [hinside] at hout
        cases hout
      · refine Or.inr ⟨_, .passed origin (exportedAs info.name r), rfl,
          .passed hx hother hreference, ?_⟩
        -- The new entry goes to the end of the group, and the group does not pass on more than it
        -- did.
        refine htally.change (c := .passed origin (exportedAs info.name r)) hkey rfl hempty hsingle
          (fun _ => rfl) (fun g => ?_) fun g => ?_
        · rw [entryIn?, if_pos hkey, Option.toList_some]
        · exact (or_iff_left fun hm => hm).symm

/-- A symbol that stands for another passes on a whole file or one symbol of it, or is left to
    itself. -/
theorem tallied_addAlias (hx : ctx.program.symbol? x = some info) (hlink : info.kind = .link) :
    Yields s₁ t (ctx.addAlias owner file exports x info.name) fun e =>
      ∃ c, ctx.ComesTo s₁ t file x c ∧ ctx.Tallied s (cs ++ [c]) e := by
  unfold addAlias
  dsimp only
  -- It stands for a file, or for something that is declared in a file, or for neither.
  split
  · rename_i origin hkind hfile
    intro e s' t' hrun
    exact ⟨.whole origin (some info.name), .whole hx ⟨hlink, hkind, hfile⟩,
      tallied_addWildcard hs h₁ htally hrun⟩
  · rename_i kind origin hnot hkind hfile
    have hno : ∀ o, ¬ ctx.StandsForFile x info o := by
      intro o ho
      have hsource := ho.kind
      rw [hkind, Option.some.injEq] at hsource
      exact hnot hsource
    intro e s' t' hrun
    rw [Action.get_bind] at hrun
    split at hrun
    · rename_i hcond
      rw [Bool.and_eq_true, Bool.not_eq_true', Bool.not_eq_true'] at hcond
      have hother : ctx.StandsForOther s₁ file x info origin := by
        refine ⟨hlink, ?_, hfile, hcond.1, hcond.2⟩
        rw [hkind, ne_eq, Option.some.injEq]
        exact hnot
      rcases Action.bind_eq_ok hrun with ⟨o, s₂, t₂, hpassed, hrun⟩
      rcases tallied_addPassedOn? hs hl h₁ htally hx hother hpassed with
        ⟨rfl, hrefused⟩ | ⟨e', c, rfl, hc, htally'⟩
      · exact tallied_addDirect htally hx ⟨hno, Or.inr ⟨⟨origin, hother⟩, hrefused⟩⟩ hrun
      · rw [← (Action.pure_eq_ok hrun).1]
        exact ⟨c, hc, htally'⟩
    · rename_i hcond
      refine tallied_addDirect htally hx ⟨hno, Or.inl ⟨fun o ho => hcond ?_, rfl, rfl⟩⟩ hrun
      have horigin : o = origin := Option.some.inj (ho.declared.symm.trans hfile)
      rw [Bool.and_eq_true, Bool.not_eq_true', Bool.not_eq_true', ← horigin]
      exact ⟨ho.other, ho.inside⟩
  · rename_i hnot₁ hnot₂
    intro e s' t' hrun
    refine tallied_addDirect htally hx ⟨fun o ho => ?_, Or.inl ⟨fun o ho => ?_, rfl, rfl⟩⟩ hrun
    · exact hnot₁ o ho.kind ho.declared
    · -- A symbol that is declared in a file has a kind.
      rcases Option.map_eq_some_iff.1 ho.declared with ⟨node, hnode, _⟩
      rcases Option.bind_eq_some_iff.1 hnode with ⟨target, htarget, _⟩
      exact hnot₂ target.kind o (by rw [htarget]; rfl) ho.declared

/-- One export more. -/
theorem tallied_addExport :
    Yields s₁ t (ctx.addExport owner file exports x) fun e =>
      ∃ c, ctx.ComesTo s₁ t file x c ∧ ctx.Tallied s (cs ++ [c]) e := by
  unfold addExport
  split
  · rename_i hx
    intro e s' t' hrun
    rw [← (Action.pure_eq_ok hrun).1]
    exact ⟨.nothing, .unknown hx, htally.skip rfl rfl⟩
  · rename_i info hx
    split
    · rename_i hlink
      exact tallied_addAlias hs hl h₁ htally hx hlink
    · rename_i hlink
      intro e s' t' hrun
      refine tallied_addDirect htally hx ⟨fun o ho => ?_, Or.inl ⟨fun o ho => ?_, rfl, rfl⟩⟩ hrun
      · exact hlink ho.link
      · exact hlink ho.link

end

include hs hl

/-- The files whose names are all passed on. -/
theorem tallied_wildcards (ws : List WildcardExport) (h₁ : ctx.From law s d s₁)
    (htally : ctx.Tallied s cs exports)
    (hrun : (ws.foldlM (fun exports w => (ctx.symbolFile? w.target).elim (pure exports)
      fun target => ctx.addWildcard owner exports target w.spaceName) exports : Action FileExports)
        s₁ t = .ok ((e, s'), t')) :
    ctx.From law s d s' ∧ ctx.Tallied s (cs ++ ws.map ctx.wildcard) e := by
  -- Each file adds a contribution, and the next starts from the state that it leaves.
  induction ws generalizing cs exports s₁ t with
  | nil =>
      rcases Action.pure_eq_ok hrun with ⟨rfl, rfl⟩
      rw [List.map_nil, List.append_nil]
      exact ⟨h₁, htally⟩
  | cons w ws ih =>
      rw [List.foldlM_cons] at hrun
      rcases Action.bind_eq_ok hrun with ⟨e₁, s₂, t₂, hfirst, hrun⟩
      rw [List.map_cons, ← List.singleton_append, ← List.append_assoc]
      cases hfile : ctx.symbolFile? w.target with
      | none =>
          rw [hfile] at hfirst
          rcases Action.pure_eq_ok hfirst with ⟨rfl, rfl⟩
          -- What has no file is passed over, and counts as a contribution of nothing.
          refine ih h₁ ?_ hrun
          rw [wildcard, hfile]
          exact htally.skip rfl rfl
      | some target =>
          rw [hfile] at hfirst
          refine ih (((explores hl hs d).addWildcard owner exports target w.spaceName).state h₁
            hfirst) ?_ hrun
          rw [wildcard, hfile]
          exact tallied_addWildcard hs h₁ htally hfirst

/-- The exports of a file, as far as they were looked at: each of the symbols came to something when
    its turn came, and these contributions make what there is. -/
theorem tallied_exportsUntil {fileSymbol : SymbolId} (symbols : List SymbolId)
    (hrun : ctx.exportsUntil owner file fileSymbol symbols s t = .ok ((e, s'), t')) :
    ctx.From law s s.depth s' ∧ ∃ log : List (SymbolId × Contribution),
      log.map (·.1) = symbols ∧
      (∀ i x c, log[i]? = some (x, c) → ∃ before s₁ t₁,
        ctx.exportsUntil owner file fileSymbol (symbols.take i) s t = .ok ((before, s₁), t₁) ∧
          ctx.ComesTo s₁ t₁ file x c) ∧
      ctx.Tallied s ((ctx.program.wildcardExports fileSymbol).map ctx.wildcard ++ log.map (·.2))
        e := by
  -- One symbol after another, from the left: each is looked at where those before it have led.
  induction symbols using List.reverseRecOn generalizing e s' t' with
  | nil =>
      rcases Action.bind_eq_ok hrun with ⟨e₁, s₁, t₁, hwildcards, hrest⟩
      rcases Action.pure_eq_ok hrest with ⟨rfl, rfl⟩
      rcases tallied_wildcards hs hl _ (From.refl s) (Tallied.empty ctx s) hwildcards with
        ⟨hfrom, htally⟩
      refine ⟨hfrom, [], rfl, ?_, ?_⟩
      · intro i x c hi
        cases hi
      · rw [List.map_nil, List.append_nil]
        exact htally
  | append_singleton symbols x ih =>
      rw [exportsUntil_append_singleton] at hrun
      rcases Action.bind_eq_ok hrun with ⟨e₁, s₁, t₁, hbefore, hlast⟩
      rcases ih hbefore with ⟨h₁, log, hsymbols, hturns, htally⟩
      have hlength : log.length = symbols.length := by
        rw [← hsymbols, List.length_map]
      rcases tallied_addExport hs hl h₁ htally e s' t' hlast with ⟨c, hc, htally'⟩
      refine ⟨((explores hl hs _).addExport owner file e₁ x).state h₁ hlast, log ++ [(x, c)],
        ?_, ?_, ?_⟩
      · rw [List.map_append, hsymbols]
        rfl
      · intro i y c' hi
        by_cases hlt : i < log.length
        · rw [List.getElem?_append_left hlt] at hi
          rw [List.take_append_of_le_length (by omega)]
          exact hturns i y c' hi
        · -- The last symbol has its turn after all others.
          have hlast : i = log.length := by
            have hbound := (List.getElem?_eq_some_iff.1 hi).1
            rw [List.length_append, List.length_singleton] at hbound
            omega
          rw [hlast, List.getElem?_concat_length] at hi
          cases hi
          rw [hlast, hlength, List.take_left]
          exact ⟨e₁, s₁, t₁, hbefore, hc⟩
      · rw [List.map_append, ← List.append_assoc]
        exact htally'

end

end Context

/-- After any run, when the exports of a file are looked at: each of its symbols, in order, comes to
    one thing, in the state in which its turn comes. A name for a whole file opens a group for it,
    under its own name; a name for something in another file of the projects is passed on in the
    group of that file; anything else that has a reference is an export of the file's own. With what
    is passed on as a whole, this is all that there is in the two lists, in this order, and every
    entry has the name of its symbol. -/
theorem Session.exports_classified (program : Program) (settings : Settings) (steps : Nat)
    (ops : List Operation) (s s' : Session) (owner : ModuleHandle) (file : Path)
    (fileSymbol : SymbolId) (exports : FileExports)
    (hops : (start program settings steps).performAll ops = .ok s)
    (hsymbol : program.fileSymbol? file = some fileSymbol)
    (hrun : s.run (s.context.trackExports owner file) = .ok (exports, s')) :
    ∃ log : List (SymbolId × Contribution),
      log.map (·.1) = program.exportsOf fileSymbol ∧
      (∀ i x c, log[i]? = some (x, c) → ∃ before s₁ t₁,
        s.context.exportsUntil owner file fileSymbol ((program.exportsOf fileSymbol).take i)
            s.state (s.state :: s.trail) = .ok ((before, s₁), t₁) ∧
          s.context.ComesTo s₁ t₁ file x c) ∧
      s.context.Tallied s.state
        ((program.wildcardExports fileSymbol).map s.context.wildcard ++ log.map (·.2)) exports ∧
      (∀ x c entry, (x, c) ∈ log → c.entry? = some entry →
        ∃ info, program.symbol? x = some info ∧ entry.exportedName = info.name) ∧
      ∀ origin, s.isExternalFile origin = false →
        ∃ relative, s.state.relativeFile? origin = some relative ∧
          ∀ spaceName,
            s.context.groupKey? s.state origin spaceName = some (relative, spaceName) := by
  rcases performAll_isAt (isAt_start program settings steps) ops hops with ⟨m, hat, _⟩
  have hs := performAll_grounded program settings steps ops s hops
  have hprogram := hat.program
  subst hprogram
  rcases Outcome.map_eq_ok.1 hrun with ⟨⟨⟨exports', state⟩, trail⟩, hact, heq⟩
  rcases Prod.mk.inj heq with ⟨rfl, rfl⟩
  -- Tracking the exports is looking at all of them.
  rw [s.context.trackExports_eq owner hsymbol] at hact
  rcases Context.tallied_exportsUntil hs (Ty.law_true _) _ hact with
    ⟨_, log, hsymbols, hturns, htally⟩
  refine ⟨log, hsymbols, hturns, htally, ?_, fun origin => Context.groupKey?_of_inside hs⟩
  intro x c entry hmem hentry
  rcases List.mem_iff_getElem?.1 hmem with ⟨i, hi⟩
  rcases hturns i x c hi with ⟨_, s₁, t₁, _, hc⟩
  exact hc.exportedName hentry

/-- Of two names, one is passed on from a file of the project, and the other comes from outside. -/
theorem Session.exports_classified_twins :
    ∃ s exports s', ∃ log : List (SymbolId × Contribution),
      (start .twins {} 9).performAll [.addProject { name := "a", root := ⟨"/a"⟩ }] = .ok s ∧
      Program.twins.fileSymbol? ⟨"/a/index.ts"⟩ = some ⟨0⟩ ∧
      s.run (s.context.trackExports ⟨0, ⟨0⟩⟩ ⟨"/a/index.ts"⟩) = .ok (exports, s') ∧
      exports.exports.length = 1 ∧ exports.reexports.length = 1 ∧
      log.map (·.1) = [⟨5⟩, ⟨6⟩] ∧
      exports.exports = (log.map (·.2)).filterMap Contribution.own? ∧
      ∀ g ∈ exports.reexports,
        g.references = (log.map (·.2)).filterMap (s.context.entryIn? s.state g.key) := by
  have hrun : ((start .twins {} 9).performAll
        [.addProject { name := "a", root := ⟨"/a"⟩ }]).toOption.any
      (fun s => (s.run (s.context.trackExports ⟨0, ⟨0⟩⟩ ⟨"/a/index.ts"⟩)).toOption.any fun r =>
        r.1.exports.length == 1 && r.1.reexports.length == 1) = true := by
    decide +kernel
  rcases Outcome.of_any hrun with ⟨s, hs, hrun⟩
  rcases Outcome.of_any hrun with ⟨⟨exports, s'⟩, htrack, hlengths⟩
  rw [Bool.and_eq_true, beq_iff_eq, beq_iff_eq] at hlengths
  have hsymbol : Program.twins.fileSymbol? ⟨"/a/index.ts"⟩ = some ⟨0⟩ := by decide +kernel
  rcases exports_classified .twins {} 9 _ s s' _ _ ⟨0⟩ exports hs hsymbol htrack with
    ⟨log, hlog, _, htally, _⟩
  -- No file is passed on as a whole, so the log holds all contributions.
  have hnone : Program.twins.wildcardExports ⟨0⟩ = [] := by decide +kernel
  have hexports : Program.twins.exportsOf ⟨0⟩ = [⟨5⟩, ⟨6⟩] := by decide +kernel
  rw [hnone, List.map_nil, List.nil_append] at htally
  exact ⟨s, exports, s', log, hs, hsymbol, htrack, hlengths.1, hlengths.2, hlog.trans hexports,
    htally.own, htally.references⟩

end DocModel
