import DocModel.Proofs.Endure

/-!
# Enumerations and their members

An enumeration enters its members one by one, each before its value is built. The reference of a
member has the reference of the enumeration in it, so the enumeration comes first.

While an enumeration has a reference, nothing but its own registration has a bearing on the entries
of the enumeration and of a member that no other enumeration lists. Where the enumeration is entered
anew, as far as can be seen from within a run, its number is higher than all before: numbers tell
one registration from another, and the members of one from those of the other.

So both are set apart, and it is shown of all other work that it keeps what is said of their
entries. Between any two states of a run there is an advance: if the enumeration still has the
reference that it had, the member still has the reference that it got with it.

## Main definitions

* `Enrolment`: A member that is listed once, by one enumeration.
* `Enrolment.Begun`, `Enrolment.Joined`: The enumeration has a reference with a path, and the member
  was entered with it.
* `Enrolment.Complete`: If the enumeration has begun, the member has joined.
* `Enrolment.Sane`, `Enrolment.Advances`: What is known of a state, and of a later one.
* `Enrolment.InOrder`, `Enrolment.guard`: These hold throughout the trail, and the state meets a
  condition.
* `Enrolment.Lasting`: A condition that other work has no bearing on.
* `Enrolment.Waiting`, `Enrolment.Served`: The enumeration has begun, and the turn of the member is
  still to come, or has come.

## Theorems

* `Enrolment.Sane.advance_of_alike`, `Enrolment.Sane.advance_owner`,
  `Enrolment.Sane.advance_member`: The changes that lead to a sane state, and are an advance.
* `Enrolment.lasting_complete`, `Enrolment.lasting_of_begun`: Which conditions last.
* `Enrolment.endures`: All other work keeps what is known of the two.
-/

namespace DocModel

/-- A member that is listed once by its enumeration, and not at all by any other. Both stand for
    themselves and are declared. -/
structure Enrolment (p : Program) where
  owner : SymbolId
  member : SymbolId
  info : SymbolInfo
  memberInfo : SymbolInfo
  node : NodeInfo
  memberNode : NodeInfo
  self : p.resolveAlias owner = owner
  symbol : p.symbol? owner = some info
  kind : info.kind = .enum
  declaration : p.declarationOf? info = some node
  member_self : p.resolveAlias member = member
  member_symbol : p.symbol? member = some memberInfo
  member_kind : memberInfo.kind = .enumMember
  member_declaration : p.declarationOf? memberInfo = some memberNode
  once : (p.exportsOf owner).count member = 1
  only : ∀ x, p.Lists x member → x = owner

namespace Enrolment

variable {p : Program} (w : Enrolment p)

theorem isEnumMember_owner : p.isEnumMember w.owner = false := by
  rw [Program.isEnumMember_of_symbol? w.symbol, w.kind]
  rfl

theorem isEnumMember_member : p.isEnumMember w.member = true := by
  rw [Program.isEnumMember_of_symbol? w.member_symbol, w.member_kind]
  rfl

/-- The entry of the enumeration is never replaced. -/
theorem owner_isPlain : p.IsPlain w.owner :=
  Program.IsOwn.isPlain ⟨w.self, w.isEnumMember_owner⟩

theorem member_ne_owner : w.member ≠ w.owner := by
  intro heq
  have hmember := w.isEnumMember_member
  rw [heq, w.isEnumMember_owner] at hmember
  exact Bool.false_ne_true hmember

/-- The list of the enumeration, before the turn of the member and after it. -/
theorem exists_split : ∃ before after, p.exportsOf w.owner = before ++ w.member :: after ∧
    w.member ∉ before ∧ w.member ∉ after := by
  have honce := w.once
  have hmem : w.member ∈ p.exportsOf w.owner :=
    List.count_pos_iff.1 (by rw [honce]; exact Nat.one_pos)
  rcases List.append_of_mem hmem with ⟨before, after, hsplit⟩
  rw [hsplit, List.count_append, List.count_cons_self] at honce
  -- One of the occurrences is in the middle, and there are no others.
  refine ⟨before, after, hsplit, List.count_eq_zero.1 ?_, List.count_eq_zero.1 ?_⟩
  · omega
  · omega

/-- A member has a reference by itself only if it is declared outside. -/
theorem outside_of_hasReference {projects : List Project}
    (h : p.HasReference projects w.member) :
    p.isOutside projects w.memberNode.file = true := by
  rw [Program.hasReference_of_self w.member_self w.member_symbol] at h
  rcases h with hkind | ⟨node, hnode, hout | hreg⟩
  · rw [w.member_kind] at hkind
    cases hkind
  · rw [w.member_declaration, Option.some.injEq] at hnode
    rw [hnode]
    exact hout
  · exact absurd w.member_kind (Program.isRegistrable_ne_enumMember hreg)

/-- The enumeration has a reference that leads somewhere. -/
structure Begun (s : State) (outer : Reference) : Prop where
  entered : s.registry.find? w.owner = some outer
  path : outer.path.isSome = true

/-- The member was entered with a reference of the enumeration. -/
structure Joined (s : State) (outer ref : Reference) : Prop where
  entered : s.registry.find? w.member = some ref
  parent : ref.parent = some outer
  path : ref.path = outer.path

/-- If the enumeration has begun, the member has joined it. -/
def Complete (s : State) : Prop := ∀ outer, w.Begun s outer → ∃ ref, w.Joined s outer ref

/-- What is known of a state: the member is analysed if the enumeration is, and numbers that are in
    use were given out. -/
structure Sane (s : State) : Prop where
  files : p.isOutside s.projects w.node.file = false →
    p.isOutside s.projects w.memberNode.file = false
  inside : ∀ outer, w.Begun s outer → p.isOutside s.projects w.memberNode.file = false
  owner_lt : ∀ outer, s.registry.find? w.owner = some outer → outer.id.index < s.registry.nextId
  parent_lt : ∀ ref outer, s.registry.find? w.member = some ref → ref.path.isSome = true →
    ref.parent = some outer → outer.id.index < s.registry.nextId

/-- What is known of a later state: if the enumeration has a reference with a number from before, it
    had that reference before, and the member is still where it was. -/
structure Advances (s s' : State) : Prop where
  nextId : s.registry.nextId ≤ s'.registry.nextId
  begun : ∀ outer, w.Begun s' outer → outer.id.index < s.registry.nextId → w.Begun s outer
  joined : ∀ outer ref, w.Begun s' outer → outer.id.index < s.registry.nextId →
    w.Joined s outer ref → s'.registry.find? w.member = some ref

/-- The entries of the two are the same. -/
structure Alike (s s' : State) : Prop where
  owner : s'.registry.find? w.owner = s.registry.find? w.owner
  member : s'.registry.find? w.member = s.registry.find? w.member

variable {w}

namespace Alike

variable {s s' : State} (h : w.Alike s s')

include h

/-- An enumeration that has begun had begun before. -/
theorem begun {outer : Reference} (hb : w.Begun s' outer) : w.Begun s outer :=
  ⟨h.owner ▸ hb.entered, hb.path⟩

/-- A complete enumeration stays so. -/
theorem complete (hc : w.Complete s) : w.Complete s' := by
  intro outer hb
  rcases hc outer (h.begun hb) with ⟨ref, hj⟩
  exact ⟨ref, h.member ▸ hj.entered, hj.parent, hj.path⟩

end Alike

/-- Both entries are the same after an entry was made for another symbol. -/
theorem alike_insert {s : State} {r : Registry}
    (hr : ∀ y, r.find? y = s.registry.find? y) {x : SymbolId} (ref : Reference)
    (howner : x ≠ w.owner) (hmember : x ≠ w.member) :
    w.Alike s { s with registry := r.insert x ref } := by
  refine ⟨?_, ?_⟩
  · rw [Registry.find?_insert, if_neg howner.symm, hr]
  · rw [Registry.find?_insert, if_neg hmember.symm, hr]

theorem Advances.refl (s : State) : w.Advances s s :=
  ⟨Nat.le_refl _, fun _ hb _ => hb, fun _ _ _ _ hj => hj.entered⟩

theorem Advances.trans {s s' s'' : State} (h : w.Advances s s') (h' : w.Advances s' s'') :
    w.Advances s s'' := by
  -- A number from before the first advance is one from before the second.
  have hbegun : ∀ outer, w.Begun s'' outer → outer.id.index < s.registry.nextId →
      w.Begun s' outer :=
    fun outer hb hlt => h'.begun outer hb (Nat.lt_of_lt_of_le hlt h.nextId)
  refine ⟨Nat.le_trans h.nextId h'.nextId, fun outer hb hlt => ?_, fun outer ref hb hlt hj => ?_⟩
  · exact h.begun outer (hbegun outer hb hlt) hlt
  · have hmiddle := h.joined outer ref (hbegun outer hb hlt) hlt hj
    exact h'.joined outer ref hb (Nat.lt_of_lt_of_le hlt h.nextId)
      ⟨hmiddle, hj.parent, hj.path⟩

namespace Sane

variable {s s' : State} (hs : w.Sane s)

include hs

/-- A change that leaves both entries as they are. -/
theorem advance_of_alike (hroots : s'.projects.map (·.baseDir) = s.projects.map (·.baseDir))
    (hnext : s.registry.nextId ≤ s'.registry.nextId) (h : w.Alike s s') :
    w.Sane s' ∧ w.Advances s s' := by
  refine ⟨⟨?_, fun outer hb => ?_, fun outer ho => ?_, fun ref outer hr hpath hp => ?_⟩, hnext,
    fun outer hb _ => h.begun hb, fun outer ref _ _ hj => h.member ▸ hj.entered⟩
  · rw [isOutside_congr p hroots, isOutside_congr p hroots]
    exact hs.files
  · rw [isOutside_congr p hroots]
    exact hs.inside outer (h.begun hb)
  · exact Nat.lt_of_lt_of_le (hs.owner_lt outer (h.owner ▸ ho)) hnext
  · exact Nat.lt_of_lt_of_le (hs.parent_lt ref outer (h.member ▸ hr) hpath hp) hnext

/-- The enumeration is entered with a new number. If it leads somewhere, the member is analysed. -/
theorem advance_owner {outer : Reference} (hid : outer.id = ⟨s.registry.nextId⟩)
    (hinside : outer.path.isSome = true → p.isOutside s.projects w.memberNode.file = false) :
    let s' := { s with
      registry := (s.registry.mint outer.name outer.kind).2.insert w.owner outer }
    w.Sane s' ∧ w.Advances s s' := by
  have hnext : s.registry.nextId < s.registry.nextId + 1 := Nat.lt_succ_self _
  -- The new entry is the only one for the enumeration.
  have hself : ∀ outer', ((s.registry.mint outer.name outer.kind).2.insert w.owner outer).find?
      w.owner = some outer' → outer' = outer := by
    intro outer' ho
    rw [Registry.find?_insert, if_pos rfl, Option.some.injEq] at ho
    exact ho.symm
  have hmember : ((s.registry.mint outer.name outer.kind).2.insert w.owner outer).find? w.member =
      s.registry.find? w.member := by
    rw [Registry.find?_insert, if_neg w.member_ne_owner]
    rfl
  refine ⟨⟨hs.files, fun outer' hb => ?_, fun outer' ho => ?_, fun ref outer' hr hpath hp => ?_⟩,
    Nat.le_succ _, fun outer' hb hlt => ?_, fun outer' ref hb hlt _ => ?_⟩
  · have heq := hself outer' hb.entered
    exact hinside (heq ▸ hb.path)
  · rw [hself outer' ho, hid]
    exact hnext
  · rw [hmember] at hr
    exact Nat.lt_trans (hs.parent_lt ref outer' hr hpath hp) hnext
  -- The number is new, so nothing is left to be said of numbers from before.
  · rw [hself outer' hb.entered, hid] at hlt
    exact absurd hlt (Nat.lt_irrefl _)
  · rw [hself outer' hb.entered, hid] at hlt
    exact absurd hlt (Nat.lt_irrefl _)

/-- The member is entered. If the enumeration has begun, the member had not joined it before. -/
theorem advance_member {r : Registry} {ref : Reference}
    (hnext : s.registry.nextId ≤ r.nextId) (hr : ∀ y, r.find? y = s.registry.find? y)
    (hnew : ∀ outer ref', w.Begun s outer → ¬ w.Joined s outer ref')
    (hparent : ∀ outer, ref.path.isSome = true → ref.parent = some outer →
      outer.id.index < r.nextId) :
    w.Sane { s with registry := r.insert w.member ref } ∧
      w.Advances s { s with registry := r.insert w.member ref } := by
  have howner : (r.insert w.member ref).find? w.owner = s.registry.find? w.owner := by
    rw [Registry.find?_insert, if_neg w.member_ne_owner.symm, hr]
  have hbegun : ∀ outer, w.Begun { s with registry := r.insert w.member ref } outer →
      w.Begun s outer := fun outer hb => ⟨howner ▸ hb.entered, hb.path⟩
  refine ⟨⟨hs.files, fun outer hb => hs.inside outer (hbegun outer hb), fun outer ho => ?_,
    fun ref' outer hr' hpath hp => ?_⟩, hnext, fun outer hb _ => hbegun outer hb,
    fun outer ref' hb _ hj => absurd hj (hnew outer ref' (hbegun outer hb))⟩
  · exact Nat.lt_of_lt_of_le (hs.owner_lt outer (howner ▸ ho)) hnext
  · change (r.insert w.member ref).find? w.member = some ref' at hr'
    rw [Registry.find?_insert, if_pos rfl, Option.some.injEq] at hr'
    subst hr'
    exact hparent outer hpath hp

end Sane

variable (w)

/-- Every state of the trail is sane, and each is an advance on those before it. The projects have
    the given roots, and the state meets a condition. -/
structure InOrder (projects : List Project) (X : State → Prop) (s : State) (t : Trail) : Prop where
  roots : s.projects.map (·.baseDir) = projects.map (·.baseDir)
  sane : ∀ u ∈ s :: t, w.Sane u
  history : (s :: t).Pairwise fun later earlier => w.Advances earlier later
  meets : X s

/-- That the trail is in order, as a guard. -/
def guard (projects : List Project) (X : State → Prop) : Guard where
  holds := w.InOrder projects X

/-- A condition that has to do with nothing but the entries of the two, and is met where the
    enumeration is looked up outside, or the member. -/
structure Lasting (projects : List Project) (X : State → Prop) : Prop where
  alike : ∀ s s', w.Alike s s' → X s → X s'
  owner : (w.guard projects X).Ready p w.owner → ∀ s outer,
    s.registry.find? w.owner = some outer → outer.path = none → X s
  member : ∀ s s', w.Sane s → p.isOutside s.projects w.memberNode.file = true →
    s'.registry.find? w.owner = s.registry.find? w.owner → X s → X s'

/-- The enumeration and the member are set apart. -/
def Apart (x : SymbolId) : Prop := x = w.owner ∨ x = w.member

/-- The enumeration has begun, and the member has not joined it. -/
def Waiting (outer : Reference) (s : State) : Prop :=
  w.Begun s outer ∧ ∀ ref q, s.registry.find? w.member = some ref → ref.path.isSome = true →
    ref.parent = some q → q.id.index < outer.id.index

/-- The enumeration has begun, and the member has joined it. -/
def Served (outer : Reference) (s : State) : Prop := w.Begun s outer ∧ ∃ ref, w.Joined s outer ref

variable {w}

section

variable {projects projects' : List Project} {X Y : State → Prop} {s s' : State} {t : Trail}

/-- One change after another. -/
theorem guard_step (hs : (w.guard projects X).holds s t)
    (hroots : s'.projects.map (·.baseDir) = projects'.map (·.baseDir))
    (hstep : w.Sane s → w.Sane s' ∧ w.Advances s s') (hX : Y s') :
    (w.guard projects' Y).holds s' t := by
  rcases hs with ⟨_, hsane, hpairs, _⟩
  rcases hstep (hsane s List.mem_cons_self) with ⟨hsane', hadvances⟩
  -- The new state is an advance on the last, and so on all before it.
  rcases List.pairwise_cons.1 hpairs with ⟨hhead, htail⟩
  refine ⟨hroots, fun u hu => ?_, List.pairwise_cons.2 ⟨fun u hu => ?_, htail⟩, hX⟩
  · rcases List.mem_cons.1 hu with rfl | hu
    · exact hsane'
    · exact hsane u (List.mem_cons_of_mem _ hu)
  · exact (hhead u hu).trans hadvances

/-- A change that leaves both entries as they are keeps any local condition. -/
theorem guard_alike (hX : w.Lasting projects X) (hs : (w.guard projects X).holds s t)
    (hroots : s'.projects.map (·.baseDir) = s.projects.map (·.baseDir))
    (hnext : s.registry.nextId ≤ s'.registry.nextId) (h : w.Alike s s') :
    (w.guard projects X).holds s' t :=
  guard_step hs (hroots.trans hs.roots) (fun hsane => hsane.advance_of_alike hroots hnext h)
    (hX.alike s s' h hs.meets)

theorem guard_note (hs : (w.guard projects X).holds s t) :
    (w.guard projects X).holds s (s :: t) := by
  rcases hs with ⟨hr, hsane, hpairs, hX⟩
  refine ⟨hr, fun u hu => ?_, List.pairwise_cons.2 ⟨fun u hu => ?_, hpairs⟩, hX⟩
  · rcases List.mem_cons.1 hu with rfl | hu
    · exact hsane u List.mem_cons_self
    · exact hsane u hu
  · rcases List.mem_cons.1 hu with rfl | hu
    · exact .refl u
    · exact (List.pairwise_cons.1 hpairs).1 u hu

theorem guard_mono (hs : (w.guard projects X).holds s t) (h : X s → Y s) :
    (w.guard projects Y).holds s t := ⟨hs.roots, hs.sane, hs.history, h hs.meets⟩

/-- The member is looked up for the first time, so it is outside. -/
theorem outside_of_ready (hs : (w.guard projects X).holds s t)
    (h : (w.guard projects X).Ready p w.member) :
    p.isOutside s.projects w.memberNode.file = true := by
  rcases h.hasReference with ⟨s₁, t₁, hs₁, hx⟩
  rw [isOutside_congr p (hs.roots.trans hs₁.roots.symm)]
  exact w.outside_of_hasReference hx

theorem guard_sane (hs : (w.guard projects X).holds s t) : w.Sane s := hs.sane s List.mem_cons_self

/-- An enumeration that has begun is analysed, and so is the member. -/
theorem not_outside_of_begun {outer : Reference} (hs : w.Sane s) (hb : w.Begun s outer) :
    p.isOutside s.projects w.memberNode.file ≠ true := by
  rw [hs.inside outer hb]
  exact Bool.false_ne_true

/-- That the enumeration is complete lasts. -/
theorem lasting_complete (projects : List Project) : w.Lasting projects w.Complete where
  alike := fun _ _ h hc => h.complete hc
  owner := by
    intro _ s outer ho hpath outer' hb
    -- A reference that leads nowhere does not begin the enumeration.
    have heq : outer = outer' := Option.some.inj (ho.symm.trans hb.entered)
    have hsome := hb.path
    rw [← heq, hpath] at hsome
    exact absurd hsome Bool.false_ne_true
  member := fun s s' hs hout ho _ outer hb =>
    absurd hout (not_outside_of_begun hs ⟨ho ▸ hb.entered, hb.path⟩)

/-- What is said of an enumeration that has begun lasts, as long as it has to do with nothing but
    the entries of the two: neither is looked up outside any more. -/
theorem lasting_of_begun (halike : ∀ s s', w.Alike s s' → X s → X s')
    (hbegun : ∀ s, X s → ∃ outer, w.Begun s outer) : w.Lasting projects X where
  alike := halike
  owner := by
    intro hready
    rcases hready.unseen with ⟨s, t, hs, hnone⟩
    rcases hbegun s hs.meets with ⟨outer, hb⟩
    rw [hb.entered] at hnone
    cases hnone
  member := by
    intro s s' hs hout _ hX
    rcases hbegun s hX with ⟨outer, hb⟩
    exact absurd hout (not_outside_of_begun hs hb)

theorem lasting_waiting (outer : Reference) : w.Lasting projects (w.Waiting outer) := by
  refine lasting_of_begun ?_ fun s h => ⟨outer, h.1⟩
  rintro s s' h ⟨hb, hlt⟩
  exact ⟨⟨h.owner ▸ hb.entered, hb.path⟩, fun ref q hr => hlt ref q (h.member ▸ hr)⟩

theorem lasting_served (outer : Reference) : w.Lasting projects (w.Served outer) := by
  refine lasting_of_begun ?_ fun s h => ⟨outer, h.1⟩
  rintro s s' h ⟨hb, ref, hj⟩
  exact ⟨⟨h.owner ▸ hb.entered, hb.path⟩, ref, h.member ▸ hj.entered, hj.parent, hj.path⟩

/-- The member is entered from outside, in a registry that has handed out numbers since. -/
theorem guard_outside (hX : w.Lasting projects X) (hs : (w.guard projects X).holds s t)
    (hready : (w.guard projects X).Ready p w.member) {r : Registry}
    (hnext : s.registry.nextId ≤ r.nextId) (hr : ∀ y, r.find? y = s.registry.find? y)
    {ref : Reference} (hpath : ref.path = none) :
    (w.guard projects X).holds { s with registry := r.insert w.member ref } t := by
  -- The member is outside, so the enumeration has not begun.
  have hout := outside_of_ready hs hready
  refine guard_step hs hs.roots (fun hsane => hsane.advance_member hnext hr
    (fun outer ref' hb _ => ?_) fun outer hsome => ?_)
    (hX.member s _ (guard_sane hs) hout ?_ hs.meets)
  · exact not_outside_of_begun hsane hb hout
  · rw [hpath] at hsome
    exact absurd hsome Bool.false_ne_true
  · rw [Registry.find?_insert, if_neg w.member_ne_owner.symm, hr]

/-- Exports have no bearing on the two. -/
theorem exportFree (hX : w.Lasting projects X) : (w.guard projects X).ExportFree := by
  intro s s' t hs hregistry hroots
  refine guard_alike hX hs hroots (by rw [hregistry]) ⟨?_, ?_⟩
  · rw [hregistry]
  · rw [hregistry]

/-- All other work keeps what is known of the two. -/
theorem endures (hX : w.Lasting projects X) : (w.guard projects X).Endures p w.Apart where
  note := fun _ _ hs => guard_note hs
  aside := (exportFree hX).aside
  mint := fun s t name kind hs => guard_alike hX hs rfl (Nat.le_succ _) ⟨rfl, rfl⟩
  own := by
    intro s t x ref hs hready hid hpath
    have hfind : ∀ y, (s.registry.mint ref.name ref.kind).2.find? y = s.registry.find? y :=
      fun _ => rfl
    -- Only an entry for the owner or for the member matters to what is known of the two.
    by_cases howner : x = w.owner
    · subst howner
      have hnone := hpath (Or.inl rfl)
      refine guard_step hs hs.roots (fun hsane => hsane.advance_owner hid fun hsome => ?_)
        (hX.owner hready _ ref ?_ hnone)
      · rw [hnone] at hsome
        exact absurd hsome Bool.false_ne_true
      · rw [Registry.find?_insert, if_pos rfl]
    · by_cases hmember : x = w.member
      · -- The member has a reference of its own only if it is outside.
        subst hmember
        exact guard_outside hX hs hready (Nat.le_succ _) hfind (hpath (Or.inr rfl))
      · exact guard_alike hX hs rfl (Nat.le_succ _) (alike_insert hfind ref howner hmember)
  outer := by
    intro s t x ref hs hready hx hpath
    by_cases hmember : x = w.member
    · subst hmember
      exact guard_outside hX hs hready (Nat.le_refl _) (fun _ => rfl) hpath
    · refine guard_alike hX hs rfl (Nat.le_refl _) (alike_insert (fun _ => rfl) ref ?_ hmember)
      rintro rfl
      rw [w.isEnumMember_owner] at hx
      exact absurd hx Bool.false_ne_true
  member := by
    -- Only the enumeration lists the member, and it is set apart.
    intro s t x owner ref hs _ hapart hlists hx
    refine guard_alike hX hs rfl (Nat.le_refl _) (alike_insert (fun _ => rfl) ref ?_ ?_)
    · rintro rfl
      rw [w.isEnumMember_owner] at hx
      exact absurd hx Bool.false_ne_true
    · rintro rfl
      exact hapart (Or.inl (w.only owner hlists))
  link := by
    -- Both stand for themselves.
    intro s t x ref hs hother _ _
    refine guard_alike hX hs rfl (Nat.le_refl _) (alike_insert (fun _ => rfl) ref ?_ ?_)
    · rintro rfl
      exact hother w.self
    · rintro rfl
      exact hother w.member_self

end

end Enrolment

end DocModel
