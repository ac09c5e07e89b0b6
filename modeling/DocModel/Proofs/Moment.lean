import DocModel.Proofs.Homes

/-!
# Moments of an extraction

A moment is a state of an extraction, together with what led to it as far as that matters: the
references that were made, the declarations that are open, and those that were attached, in order.
It holds what is true of a state at any time, also in the middle of a registration. That a reference
leads somewhere, for one, holds at any time only in the sense that what it refers to is open or
attached; once nothing is open, what it refers to is attached.

Every change that an extraction makes to its state is one of a few, and for each of them there is
the moment after it. Whatever else is said of an extraction is put together from these.

## Main definitions

* `Spaces`: Modules that stand for namespaces exist, and the namespaces have references.
* `Account`: A state of an extraction with what led to it.
* `Moment`: An account together with the trail.
* `Account.moment`: An account as if nothing had been asked for.
* `Moment.initial`: The moment before anything was done.
* `Moment.withDepth`, `Moment.noted`, `Moment.enlarged`, `Moment.minted`, `Moment.withUtility`,
  `Moment.entered`, `Moment.enteredOwn`, `Moment.remade`, `Moment.reentered`, `Moment.withSpace`,
  `Moment.attach`, `Moment.withExports`, `Moment.withProject`: The moments after the changes.
* `Moment.Before`: One moment comes before another in the same extraction.

## Theorems

* `Moment.before_withDepth` and so on: Each change leads to a later moment.
* `Moment.before_space`: So do a namespace's reference and its module together.
* `Moment.Before.abides`: What was settled about places is so at a later moment.
-/

namespace DocModel

/-- The modules of namespaces exist, and the namespaces have references. -/
structure Spaces (projects : List Project) (r : Registry)
    (namespaces : Table SymbolId ModuleHandle) : Prop where
  registered : ∀ (x : SymbolId) (h : ModuleHandle), namespaces.find? x = some h →
    r.contains x = true
  module : ∀ (x : SymbolId) (h : ModuleHandle), namespaces.find? x = some h →
    ∃ m, moduleIn projects h = some m

/-- Modules of namespaces stay, and so do their references. -/
theorem Spaces.mono {p : Program} {projects projects' : List Project} {r r' : Registry}
    {namespaces : Table SymbolId ModuleHandle} (h : Spaces projects r namespaces)
    (hp : ProjectsExtend p projects projects')
    (hr : ∀ x, r.contains x = true → r'.contains x = true) : Spaces projects' r' namespaces := by
  refine ⟨fun x handle hs => hr x (h.registered x handle hs), fun x handle hs => ?_⟩
  rcases h.module x handle hs with ⟨m, hm⟩
  rcases hp.module handle m hm with ⟨m', hm', _⟩
  exact ⟨m', hm'⟩

/-- A symbol without a reference has no module either. -/
theorem Spaces.find?_eq_none {projects : List Project} {r : Registry}
    {namespaces : Table SymbolId ModuleHandle} (h : Spaces projects r namespaces) {x : SymbolId}
    (hnone : r.find? x = none) : namespaces.find? x = none := by
  cases hs : namespaces.find? x with
  | none => rfl
  | some handle =>
      rcases (Registry.contains_iff _ _).1 (h.registered x handle hs) with ⟨ref, href⟩
      rw [hnone] at href
      cases href

/-- A state of an extraction, with an account of what led to it. -/
structure Account (p : Program) where
  state : State
  /-- The references that were made so far. -/
  made : Reference → Prop
  /-- The declarations that are being built, the innermost first. -/
  opened : List Entry
  /-- The declarations that were attached, in order. -/
  attached : List Attachment
  trees : Trees state.projects
  rooted : Rooted state.projects
  spaces : Spaces state.projects state.registry state.namespaces
  ledger : Ledger state.registry state.stringUtilities made
  identity : Identity p state.registry
  roll : Roll p state.registry
  documented : ∀ ref path, made ref → ref.path = some path →
    IsDocumented p state.projects (opened ++ attached.map (·.toEntry)) ref path
  entries : Entries p state.projects state.registry (opened ++ attached.map (·.toEntry))
  content : Content p state.projects made attached
  notices : state.notices = attached.flatMap (·.notices)

/-- A state of an extraction with an account of it, and the trail. -/
structure Moment (p : Program) extends Account p where
  trail : Trail
  /-- What plain symbols had on the trail, they still have. -/
  kept : ∀ s ∈ trail, s.registry.Keeps p state.registry
  /-- What plain symbols had on the trail, they had from then on. -/
  history : trail.Pairwise fun later earlier => earlier.registry.Keeps p later.registry
  /-- There is an account of every state on the trail. -/
  past : ∀ s ∈ trail, ∃ a : Account p, a.state = s

/-- The moment with an account of which nothing is on the trail. -/
def Account.moment {p : Program} (a : Account p) : Moment p :=
  { a with
    trail := []
    kept := List.forall_mem_nil _
    history := List.Pairwise.nil
    past := List.forall_mem_nil _ }

namespace Moment

variable {p : Program}

/-- One moment comes before another in the same extraction, with the given listeners. -/
structure Before (listeners : List String) (m m' : Moment p) : Prop where
  keeps : m.state.registry.Keeps p m'.state.registry
  contains : ∀ (x : SymbolId), m.state.registry.contains x = true →
    m'.state.registry.contains x = true
  namespaces : ∀ (x : SymbolId) (h : ModuleHandle), m.state.namespaces.find? x = some h →
    m'.state.namespaces.find? x = some h
  projects : ProjectsGrow m.state.projects m'.state.projects
  made : ∀ (ref : Reference), m.made ref → m'.made ref
  attached : ∃ more : List Attachment, m'.attached = m.attached ++ more ∧
    ∀ a ∈ more, a.listeners = listeners
  unspaced : ∀ (x : SymbolId), (p.HasReference m.state.projects x →
    m.state.registry.contains x = true) → m.state.namespaces.find? x = none →
    m'.state.namespaces.find? x = none
  homes : ∀ a ∈ m'.attached, a ∈ m.attached ∨ a.IsHome p m'.state

namespace Before

variable {l : List String} {m m' m'' : Moment p}

theorem refl (m : Moment p) : Before l m m :=
  ⟨Registry.Keeps.refl p _, fun _ h => h, fun _ _ h => h, ProjectsGrow.refl _, fun _ h => h,
    ⟨[], (List.append_nil _).symm, List.forall_mem_nil _⟩, fun _ _ h => h,
    fun _ ha => Or.inl ha⟩

/-- What was settled about places is so later. -/
theorem abides (h : Before l m m') : Abides p m.state m'.state :=
  ⟨h.contains, h.namespaces, h.unspaced,
    fun x hx => (Program.HasReference.grow h.projects x).1 hx, h.projects.project⟩

/-- One moment after another; the attachments of both stretches are new. -/
theorem trans (h : Before l m m') (h' : Before l m' m'') : Before l m m'' := by
  rcases h.attached with ⟨more, heq, hmore⟩
  rcases h'.attached with ⟨more', heq', hmore'⟩
  have habides := h.abides.trans h'.abides
  refine ⟨h.keeps.trans h'.keeps, habides.contains, habides.namespaces,
    h.projects.trans h'.projects, fun ref hr => h'.made ref (h.made ref hr),
    ⟨more ++ more', by rw [heq', heq, List.append_assoc], fun a ha => ?_⟩, habides.unspaced,
    fun a ha => ?_⟩
  · rcases List.mem_append.1 ha with ha | ha
    · exact hmore a ha
    · exact hmore' a ha
  · -- An attachment of the first stretch is still at home after the second.
    rcases h'.homes a ha with ha | ha
    · exact (h.homes a ha).imp_right fun hhome => hhome.mono h'.abides
    · exact Or.inr ha

/-- A namespace that has a module keeps having one. -/
theorem containsSpace (h : Before l m m') (x : SymbolId)
    (hx : m.state.namespaces.contains x = true) : m'.state.namespaces.contains x = true := by
  rcases (Table.contains_iff _ _).1 hx with ⟨handle, hh⟩
  exact (Table.contains_iff _ _).2 ⟨handle, h.namespaces x handle hh⟩

end Before

/-- A change that leaves the registry and attachments alone. -/
theorem before_of_same {l : List String} {m m' : Moment p}
    (hr : m'.state.registry = m.state.registry)
    (hn : m'.state.namespaces = m.state.namespaces)
    (hp : ProjectsGrow m.state.projects m'.state.projects) (hm : m'.made = m.made)
    (ha : m'.attached = m.attached) : Before l m m' := by
  have habides : Abides p m.state m'.state := Abides.of_grow hr hn hp
  refine ⟨?_, habides.contains, habides.namespaces, hp, ?_,
    ⟨[], ?_, List.forall_mem_nil _⟩, habides.unspaced, ?_⟩
  · rw [hr]
    exact Registry.Keeps.refl p _
  · rw [hm]
    exact fun _ h => h
  · rw [ha, List.append_nil]
  · rw [ha]
    exact fun _ h => Or.inl h

/-- Another nesting depth. -/
def withDepth (m : Moment p) (depth : Nat) : Moment p :=
  { m with state := { m.state with depth } }

/-- The depth has no bearing on what came before. -/
theorem before_withDepth {l : List String} (m : Moment p) (depth : Nat) :
    Before l m (m.withDepth depth) := before_of_same rfl rfl (ProjectsGrow.refl _) rfl rfl

/-- The state on the trail. -/
def noted (m : Moment p) : Moment p :=
  { m with
    trail := m.state :: m.trail
    kept := by
      intro s hs
      rcases List.mem_cons.1 hs with rfl | hs
      · exact Registry.Keeps.refl p _
      · exact m.kept s hs
    history := List.pairwise_cons.2 ⟨m.kept, m.history⟩
    past := by
      intro s hs
      rcases List.mem_cons.1 hs with rfl | hs
      · exact ⟨m.toAccount, rfl⟩
      · exact m.past s hs }

/-- Nor has the trail. -/
theorem before_noted {l : List String} (m : Moment p) : Before l m m.noted :=
  before_of_same rfl rfl (ProjectsGrow.refl _) rfl rfl

/-- A later form of the tree of a project, in which modules were made and nothing else. -/
def enlarged (m : Moment p) (i : Nat) (project : Project) (tree : ModuleTree)
    (hp : m.state.projects[i]? = some project) (he : project.modules.Enlarges tree)
    (hl : tree.Located project.modules.passthrough project.baseDir) : Moment p :=
  let hg := (grow_withTree m.state.projects i tree project hp he.grows).extend p
  { m with
    state := { m.state with projects := withTree m.state.projects i tree }
    trees := m.trees.withTree i tree project hp he.grows he.sound
    rooted := m.rooted.withTree hp hl
    spaces := m.spaces.mono hg fun _ h => h
    documented := fun ref path hm hr => (m.documented ref path hm hr).mono hg fun _ h => h
    entries := m.entries.mono hg (Registry.Keeps.refl p _)
    content := m.content.mono (contentIn_withTree m.state.projects i tree project hp he.content)
      fun _ h => h }

/-- Modules that are made leave everything else as it was. -/
theorem before_enlarged {l : List String} (m : Moment p) (i : Nat) (project : Project)
    (tree : ModuleTree) (hp : m.state.projects[i]? = some project)
    (he : project.modules.Enlarges tree) (hl) : Before l m (m.enlarged i project tree hp he hl) :=
  before_of_same rfl rfl (grow_withTree m.state.projects i tree project hp he.grows) rfl rfl

/-- A reference that leads nowhere and is entered nowhere. -/
def minted (m : Moment p) (name : String) (kind : ReferenceKind) : Moment p :=
  let ref := Reference.make ⟨m.state.registry.nextId⟩ name kind
  { m with
    state := { m.state with registry := (m.state.registry.mint name kind).2 }
    made := fun ref' => m.made ref' ∨ ref' = ref
    spaces := m.spaces.mono ((ProjectsGrow.refl _).extend p) fun _ h => h
    ledger := (m.ledger.mint name kind).make ref (Nat.lt_succ_self _)
      (Or.inr m.ledger.ne_nextId) (fun _ h => absurd h (by simp only [ref, Reference.make,
        reduceCtorEq, not_false_eq_true]))
    identity := ⟨m.identity.plain, m.identity.own⟩
    roll := fun x ref' hself hx hr hpath => m.roll x ref' hself hx hr hpath
    documented := by
      rintro ref' path (hm | rfl) hr
      · exact m.documented ref' path hm hr
      · exact absurd hr (by simp only [ref, Reference.make, reduceCtorEq, not_false_eq_true])
    entries := m.entries.mono ((ProjectsGrow.refl _).extend p) fun _ _ _ h => h
    content := m.content.mono (fun _ => rfl) fun _ h => Or.inl h
    kept := fun s hs x ref' hx h => m.kept s hs x ref' hx h }

/-- A number that is given out changes no entry. -/
theorem before_minted {l : List String} (m : Moment p) (name : String) (kind : ReferenceKind) :
    Before l m (m.minted name kind) :=
  { Before.refl m with made := fun _ h => Or.inl h, homes := fun _ h => Or.inl h }

/-- A reference entered for a built-in. -/
def withUtility (m : Moment p) (name : String) (ref : Reference) (hm : m.made ref) : Moment p :=
  { m with
    state := { m.state with stringUtilities := m.state.stringUtilities.insert name ref }
    ledger := m.ledger.insertUtility name ref hm }

theorem before_withUtility {l : List String} (m : Moment p) (name : String) (ref : Reference)
    (hm : m.made ref) : Before l m (m.withUtility name ref hm) :=
  before_of_same rfl rfl (ProjectsGrow.refl _) rfl rfl

/-- A reference with the next number may be entered for a member of an enumeration, and for a symbol
    that stands for itself and has none. -/
theorem mayEnter_next (m : Moment p) (x : SymbolId) (ref : Reference)
    (hid : ref.id = ⟨m.state.registry.nextId⟩)
    (hx : p.isEnumMember x = true ∨ p.IsOwn x ∧ m.state.registry.find? x = none) :
    MayEnter p m.state.registry x ref := by
  rcases hx with hx | ⟨hx, hnone⟩
  · exact .member hx
  · refine .own hx hnone (fun y ref' _ hr => ?_)
    rw [hid]
    exact m.ledger.ne_nextId ref' (m.ledger.registry y ref' hr)

/-- The registry after a reference with the next number was entered. -/
def nextRegistry (m : Moment p) (x : SymbolId) (ref : Reference) : Registry :=
  ((m.state.registry.mint ref.name ref.kind).2).insert x ref

/-- Plain symbols keep their references. -/
theorem keeps_nextRegistry (m : Moment p) (x : SymbolId) (ref : Reference)
    (hid : ref.id = ⟨m.state.registry.nextId⟩)
    (hx : p.isEnumMember x = true ∨ p.IsOwn x ∧ m.state.registry.find? x = none) :
    m.state.registry.Keeps p (m.nextRegistry x ref) :=
  (m.mayEnter_next x ref hid hx).keeps m.identity

theorem contains_nextRegistry (m : Moment p) (x y : SymbolId) (ref : Reference)
    (hy : m.state.registry.contains y = true) : (m.nextRegistry x ref).contains y = true :=
  (Registry.contains_insert _ x y ref).2 (Or.inr hy)

theorem find?_nextRegistry (m : Moment p) (x : SymbolId) (ref : Reference) :
    (m.nextRegistry x ref).find? x = some ref := by
  rw [nextRegistry, Registry.find?_insert, if_pos rfl]

/-- A reference with the next number, made and entered for a symbol. A declaration may be opened
    with it. -/
def entered (m : Moment p) (x : SymbolId) (ref : Reference) (extra : Option Entry)
    (hid : ref.id = ⟨m.state.registry.nextId⟩)
    (hparent : ∀ outer, ref.parent = some outer → m.made outer)
    (hx : p.isEnumMember x = true ∨ p.IsOwn x ∧ m.state.registry.find? x = none)
    (hroll : p.isEnumMember x = true → ref.path.isSome = true →
      Enlisted p m.state.registry x ref)
    (hdoc : ∀ path, ref.path = some path → IsDocumented p m.state.projects
      (extra.toList ++ m.opened ++ m.attached.map (·.toEntry)) ref path)
    (hextra : ∀ e, extra = some e → m.state.registry.find? e.symbol = none ∧
      e.Valid p m.state.projects (m.nextRegistry x ref)) : Moment p :=
  { m with
    state := { m.state with registry := m.nextRegistry x ref }
    made := fun ref' => m.made ref' ∨ ref' = ref
    opened := extra.toList ++ m.opened
    spaces := m.spaces.mono ((ProjectsGrow.refl _).extend p)
      fun y => m.contains_nextRegistry x y ref
    ledger := by
      refine Ledger.insert ((m.ledger.mint ref.name ref.kind).make ref ?_ (Or.inr ?_) hparent) x ref
        (Or.inr rfl)
      · rw [hid]
        exact Nat.lt_succ_self _
      · rw [hid]
        exact m.ledger.ne_nextId
    identity := by
      have hi := (m.mayEnter_next x ref hid hx).identity m.identity
      exact ⟨hi.plain, hi.own⟩
    roll := Roll.insert (r := (m.state.registry.mint ref.name ref.kind).2) m.roll
      (m.keeps_nextRegistry x ref hid hx) fun _ => hroll
    documented := by
      rintro ref' path (hm | rfl) hr
      · refine (m.documented ref' path hm hr).mono ((ProjectsGrow.refl _).extend p) (fun e he => ?_)
        rw [List.append_assoc]
        exact List.mem_append_right _ he
      · exact hdoc path hr
    entries := by
      have hkeeps := m.keeps_nextRegistry x ref hid hx
      cases extra with
      | none => exact m.entries.mono ((ProjectsGrow.refl _).extend p) hkeeps
      | some e => exact m.entries.cons hkeeps e (hextra e rfl).1 (hextra e rfl).2
    content := m.content.mono (fun _ => rfl) fun _ h => Or.inl h
    kept := fun s hs => (m.kept s hs).trans (m.keeps_nextRegistry x ref hid hx) }

/-- Entering a reference leads to a later moment. -/
theorem before_entered {l : List String} (m : Moment p) (x : SymbolId) (ref : Reference)
    (extra : Option Entry) (hid) (hparent) (hx) (hroll) (hdoc) (hextra) :
    Before l m (m.entered x ref extra hid hparent hx hroll hdoc hextra) :=
  { Before.refl m with
    keeps := m.keeps_nextRegistry x ref hid hx
    contains := fun y => m.contains_nextRegistry x y ref
    made := fun _ h => Or.inl h
    homes := fun _ h => Or.inl h }

/-- A reference with the next number, made and entered for a symbol that stands for itself. It leads
    to a module or nowhere. -/
def enteredOwn (m : Moment p) (x : SymbolId) (ref : Reference)
    (hid : ref.id = ⟨m.state.registry.nextId⟩) (hparent : ref.parent = none) (hx : p.IsOwn x)
    (hnone : m.state.registry.find? x = none)
    (hdoc : ∀ path, ref.path = some path →
      ref.kind = .module ∧ FindsModule m.state.projects (path ++ [ref.name])) : Moment p :=
  m.entered x ref none hid
    (fun _ ho => by
      rw [hparent] at ho
      cases ho)
    (Or.inr ⟨hx, hnone⟩) (fun hmem => absurd hmem (by rw [hx.2]; exact Bool.false_ne_true))
    (fun path hpath => .of_module (hdoc path hpath).1 (hdoc path hpath).2)
    (fun _ he => by cases he)

theorem before_enteredOwn {l : List String} (m : Moment p) (x : SymbolId) (ref : Reference) (hid)
    (hparent) (hx) (hnone) (hdoc) :
    Before l m (m.enteredOwn x ref hid hparent hx hnone hdoc) :=
  m.before_entered x ref none _ _ _ _ _ _

/-- Another form of the reference of a member of an enumeration. -/
def remade (m : Moment p) (ref : Reference) (hk : ref.kind = .enumMember) (hpath : ref.path = none)
    (hlt : ref.id.index < m.state.registry.nextId)
    (hparent : ∀ outer, ref.parent = some outer → m.made outer) : Moment p :=
  { m with
    made := fun ref' => m.made ref' ∨ ref' = ref
    ledger := m.ledger.make ref hlt (Or.inl hk) hparent
    documented := by
      rintro ref' path (hm | rfl) hr
      · exact m.documented ref' path hm hr
      · rw [hpath] at hr
        cases hr
    content := m.content.mono (fun _ => rfl) fun _ h => Or.inl h }

theorem before_remade {l : List String} (m : Moment p) (ref : Reference) (hk) (hpath) (hlt)
    (hparent) : Before l m (m.remade ref hk hpath hlt hparent) :=
  { Before.refl m with made := fun _ h => Or.inl h }

/-- A reference that was made, entered for a symbol. -/
def reentered (m : Moment p) (x : SymbolId) (ref : Reference) (hm : m.made ref)
    (hx : MayEnter p m.state.registry x ref) (hroll : p.resolveAlias x = x → ref.path = none) :
    Moment p :=
  { m with
    state := { m.state with registry := m.state.registry.insert x ref }
    spaces := m.spaces.mono ((ProjectsGrow.refl _).extend p)
      fun y hy => (Registry.contains_insert _ x y ref).2 (Or.inr hy)
    ledger := m.ledger.insert x ref hm
    identity := hx.identity m.identity
    roll := m.roll.insert (hx.keeps m.identity) fun hself _ hpath => by
      rw [hroll hself] at hpath
      exact absurd hpath Bool.false_ne_true
    entries := m.entries.mono ((ProjectsGrow.refl _).extend p) (hx.keeps m.identity)
    kept := fun s hs => (m.kept s hs).trans (hx.keeps m.identity) }

theorem before_reentered {l : List String} (m : Moment p) (x : SymbolId) (ref : Reference) (hm)
    (hx : MayEnter p m.state.registry x ref) (hroll) :
    Before l m (m.reentered x ref hm hx hroll) :=
  { Before.refl m with
    keeps := hx.keeps m.identity
    contains := fun y hy => (Registry.contains_insert _ x y ref).2 (Or.inr hy)
    homes := fun _ h => Or.inl h }

/-- A module that stands for a namespace which has a reference. -/
def withSpace (m : Moment p) (x : SymbolId) (h : ModuleHandle)
    (hc : m.state.registry.contains x = true)
    (hm : ∃ module, moduleIn m.state.projects h = some module) : Moment p :=
  { m with
    state := { m.state with namespaces := m.state.namespaces.insert x h }
    spaces := by
      refine ⟨fun y h' hs => ?_, fun y h' hs => ?_⟩
      · rw [Table.find?_insert] at hs
        by_cases hy : y = x
        · rw [hy]
          exact hc
        · rw [if_neg hy] at hs
          exact m.spaces.registered y h' hs
      · rw [Table.find?_insert] at hs
        by_cases hy : y = x
        · rw [if_pos hy, Option.some.injEq] at hs
          rw [← hs]
          exact hm
        · rw [if_neg hy] at hs
          exact m.spaces.module y h' hs }

/-- A namespace gets its reference and its module together, and had neither before. -/
theorem before_space {l : List String} (m : Moment p) (x : SymbolId) (ref : Reference)
    (h : ModuleHandle) (hid) (hparent) (hx) (hnone : m.state.registry.find? x = none) (hdoc) (hc)
    (hm) (hhas : p.HasReference m.state.projects x) :
    Before l m ((m.enteredOwn x ref hid hparent hx hnone hdoc).withSpace x h hc hm) :=
  { (m.before_enteredOwn x ref hid hparent hx hnone hdoc : Before l m _) with
    -- The namespace had no reference, so it had no module.
    namespaces := fun _ _ hs =>
      Table.find?_insert_of_find? _ _ _ _ _ (m.spaces.find?_eq_none hnone) hs
    unspaced := by
      intro y hknown hs
      -- The namespace itself could have a reference and had none.
      have hy : y ≠ x := by
        rintro rfl
        rcases (Registry.contains_iff _ _).1 (hknown hhas) with ⟨ref', href⟩
        rw [hnone] at href
        cases href
      change (m.state.namespaces.insert x h).find? y = none
      rw [Table.find?_insert, if_neg hy, hs]
    homes := fun _ ha => Or.inl ha }

/-- The innermost open declaration, built and attached. -/
def attach (m : Moment p) (a : Attachment) (rest : List Entry) (project : Project)
    (hopen : m.opened = a.toEntry :: rest)
    (hp : m.state.projects[a.handle.project]? = some project)
    (hm : project.modules.get? a.handle.module = some a.module)
    (hmentions : ∀ ref ∈ a.declaration.mentions, m.made ref)
    (hfits : a.declaration.Fits p a.symbol a.reference) : Moment p :=
  let tree := project.modules.update a.handle.module (·.addDeclaration a.declaration)
  have hkeeps := ModuleTree.keepsPlace_addDeclaration a.declaration
  have hgrows := ModuleTree.grows_update project.modules a.handle.module _ hkeeps
  have hext := (grow_withTree m.state.projects a.handle.project tree project hp hgrows).extend p
  -- The innermost open declaration becomes the last one that is attached.
  have hperm : (m.opened ++ m.attached.map (·.toEntry)).Perm
      (rest ++ (m.attached ++ [a]).map (·.toEntry)) := by
    rw [hopen, List.map_append, ← List.append_assoc, List.cons_append]
    exact (List.perm_append_singleton a.toEntry _).symm
  { m with
    state := { m.state with
      projects := withTree m.state.projects a.handle.project tree
      notices := m.state.notices ++ a.notices }
    opened := rest
    attached := m.attached ++ [a]
    trees := m.trees.withTree a.handle.project tree project hp hgrows
      ((m.trees.sound project (List.mem_of_getElem? hp)).update a.handle.module _ hkeeps)
    rooted := m.rooted.update m.trees hp a.handle.module hkeeps
    spaces := m.spaces.mono hext fun _ h => h
    documented := fun ref path hr hpath =>
      (m.documented ref path hr hpath).mono hext fun e he => hperm.mem_iff.1 he
    entries := (m.entries.mono hext (Registry.Keeps.refl p _)).perm hperm
    content := by
      refine m.content.attach a project hp hm ?_ hmentions hfits
      have hvalid := m.entries.valid a.toEntry (List.mem_append_left _ (by
        rw [hopen]
        exact List.mem_cons_self))
      rcases hvalid.placed with ⟨module, hmodule, hpath⟩
      rw [moduleIn, hp, Option.bind_some, hm, Option.some.injEq] at hmodule
      rw [hpath, hmodule]
    notices := by
      rw [List.flatMap_append, ← m.notices]
      simp only [List.flatMap_cons, List.flatMap_nil, List.append_nil] }

/-- A declaration is attached where it is at home. -/
theorem before_attach (m : Moment p) (a : Attachment) (rest : List Entry) (project : Project)
    (hopen) (hp : m.state.projects[a.handle.project]? = some project) (hm) (hmentions) (hfits)
    (hhome : a.IsHome p m.state) :
    Before a.listeners m (m.attach a rest project hopen hp hm hmentions hfits) := by
  have hgrows := ModuleTree.grows_update project.modules a.handle.module
    _ (ModuleTree.keepsPlace_addDeclaration a.declaration)
  have hgrow := grow_withTree m.state.projects a.handle.project _ project hp hgrows
  exact { (Before.refl m : Before a.listeners m m) with
    projects := hgrow
    attached := ⟨[a], rfl, fun a' ha => by rw [List.mem_singleton.1 ha]⟩
    homes := by
      intro a' ha
      refine (List.mem_append.1 ha).imp_right fun ha => ?_
      rw [List.mem_singleton.1 ha]
      exact hhome.mono (Abides.of_grow rfl rfl hgrow) }

/-- The exports of a file, entered in its module. -/
def withExports (m : Moment p) (handle : ModuleHandle) (project : Project) (module : Module)
    (hp : m.state.projects[handle.project]? = some project)
    (hm : project.modules.get? handle.module = some module) (file : String) (exports : FileExports)
    (hmentions : ∀ ref ∈ exports.mentions, m.made ref) : Moment p :=
  let tree := project.modules.update handle.module fun module =>
    { module with exports := module.exports.insert file exports }
  have hkeeps := ModuleTree.keepsPlace_exports file exports
  have hgrows := ModuleTree.grows_update project.modules handle.module _ hkeeps
  have hext := (grow_withTree m.state.projects handle.project tree project hp hgrows).extend p
  { m with
    state := { m.state with projects := withTree m.state.projects handle.project tree }
    trees := m.trees.withTree handle.project tree project hp hgrows
      ((m.trees.sound project (List.mem_of_getElem? hp)).update handle.module _ hkeeps)
    rooted := m.rooted.update m.trees hp handle.module hkeeps
    spaces := m.spaces.mono hext fun _ h => h
    documented := fun ref path hr hpath => (m.documented ref path hr hpath).mono hext fun _ h => h
    entries := m.entries.mono hext (Registry.Keeps.refl p _)
    content := m.content.enterExports handle project hp module hm file exports hmentions }

/-- Exports that are entered leave declarations and references as they were. -/
theorem before_withExports {l : List String} (m : Moment p) (handle : ModuleHandle)
    (project : Project) (module : Module)
    (hp : m.state.projects[handle.project]? = some project) (hm) (file : String)
    (exports : FileExports) (hmentions) :
    Before l m (m.withExports handle project module hp hm file exports hmentions) :=
  before_of_same rfl rfl (grow_withTree m.state.projects handle.project _ project hp
    (ModuleTree.grows_update project.modules handle.module _
      (ModuleTree.keepsPlace_exports file exports))) rfl rfl

/-- Before anything was done. -/
def initial (p : Program) : Moment p where
  state := {}
  trail := []
  made := fun _ => False
  opened := []
  attached := []
  trees := ⟨List.nodup_nil, List.forall_mem_nil _, List.forall_mem_nil _⟩
  rooted := List.forall_mem_nil _
  spaces := ⟨fun _ _ h => absurd (h.symm.trans (Table.find?_empty _)) (Option.some_ne_none _),
    fun _ _ h => absurd (h.symm.trans (Table.find?_empty _)) (Option.some_ne_none _)⟩
  ledger := ⟨fun _ h => h.elim, fun _ _ h => h.elim, fun _ _ h => h.elim,
    fun _ _ h => absurd (h.symm.trans (Registry.find?_empty _)) (Option.some_ne_none _),
    fun _ _ h => absurd (h.symm.trans (Table.find?_empty _)) (Option.some_ne_none _)⟩
  identity := ⟨
    fun _ _ _ h => absurd (h.symm.trans (Registry.find?_empty _)) (Option.some_ne_none _),
    fun _ _ _ _ _ _ h => absurd (h.symm.trans (Registry.find?_empty _)) (Option.some_ne_none _)⟩
  roll := fun _ _ _ _ h => absurd (h.symm.trans (Registry.find?_empty _)) (Option.some_ne_none _)
  documented := fun _ _ h => h.elim
  entries := ⟨List.forall_mem_nil _, List.nodup_nil⟩
  content := ⟨fun _ => rfl, fun _ _ h => absurd h List.not_mem_nil, List.forall_mem_nil _,
    List.forall_mem_nil _, fun before _ _ h => absurd h (by simp)⟩
  notices := rfl
  kept := List.forall_mem_nil _
  history := .nil
  past := List.forall_mem_nil _

/-- A new project, under a name of its own. -/
def withProject (m : Moment p) (project : Project)
    (hname : project.name ∉ m.state.projects.map (·.name)) (hsound : project.modules.Sound)
    (hroot : ∀ module, project.modules.root? = some module → module.name = project.name)
    (hlocated : project.modules.Located project.modules.passthrough project.baseDir)
    (hblank : ∀ id, project.modules.contentAt id = Module.blank) : Moment p :=
  have hext := extend_append p m.state.projects project
  { m with
    state := { m.state with projects := m.state.projects ++ [project] }
    trees := m.trees.append project hname hsound hroot
    rooted := m.rooted.append hlocated
    spaces := m.spaces.mono hext fun _ h => h
    documented := fun ref path hr hpath => (m.documented ref path hr hpath).mono hext fun _ h => h
    entries := m.entries.mono hext (Registry.Keeps.refl p _)
    content := m.content.mono (contentIn_append m.state.projects project hblank) fun _ h => h }

end Moment

end DocModel
