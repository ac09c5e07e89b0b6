import DocModel.Proofs.Exports
import DocModel.Session.Basic

/-!
# Runs of sessions

A session is used by one operation after another. Between operations nothing is open, so that the
state of a session belongs to a moment of which everything is known that is known of moments in
general, and moreover that every declaration whose reference was entered has been attached.

Whatever is to be shown of all sessions follows from `Session.performAll_isAt`: there is such a
moment after any run. Operations that set a session up add to what it reads and to its projects;
those that extract lead from moment to moment.

## Main definitions

* `Operation`: Something that is done to a session.
* `Session.perform`, `Session.performAll`: A session after an operation, and after a run.
* `Session.IsAt`: A session is at a moment in which nothing is open.
* `Session.Later`: What a run does to a session, whatever the operations.
* `Session.Occurs`: A reference stands in the registry or in the documentation.
* `Program.sample`, `Operation.sampleSetup`: A small program, and a session set up for it.

## Theorems

* `Session.run_isAt`: What an action leaves.
* `Session.perform_isAt`: What an operation leaves.
* `Session.performAll_isAt`: What a run leaves.
* `Session.IsAt.made_of_occurs`: What occurs was made.
-/

namespace DocModel

/-- Something that is done to a session. -/
inductive Operation where
  | addProject (spec : ProjectSpec)
  | addResolver (resolver : Resolver)
  | addListener (listener : String)
  | reference (symbol : SymbolId)
  | normalize (ty : TypeId) (node : Option NodeId)
  | extract
  | extractFile (file : Path)
  | resolveModule (file : Path)

namespace Session

/-- The session after an operation. A project that is refused leaves the session as it is. There is
    none after an operation that fails. -/
def perform (s : Session) : Operation → Outcome Session
  | .addProject spec =>
    match s.addProject spec with
    | .ok (_, s') => .ok s'
    | .error _ => .ok s
  | .addResolver resolver => .ok (s.addResolver resolver)
  | .addListener listener => .ok (s.addListener listener)
  | .reference x => (s.reference x).map (·.2)
  | .normalize ty node => (s.normalize ty node).map (·.2)
  | .extract => s.extract
  | .extractFile file => s.extractFile file
  | .resolveModule file => (s.resolveModule file).map (·.2)

/-- The session after a run, if no operation fails. -/
def performAll (s : Session) (ops : List Operation) : Outcome Session := ops.foldlM perform s

/-- A session is at a moment in which nothing is open. -/
structure IsAt (s : Session) {p : Program} (m : Moment p) : Prop where
  program : s.context.program = p
  state : m.state = s.state
  trail : m.trail = s.trail
  opened : m.opened = []

/-- What a run does to a session and its moment, whatever the operations: settings stay, listeners
    are added behind, what is attached is told to those there were, and it stands where it belongs.
-/
structure Later {p : Program} (s : Session) (m : Moment p) (s' : Session) (m' : Moment p) :
    Prop where
  settings : s'.context.settings = s.context.settings
  steps : s'.context.steps = s.context.steps
  listeners : s.context.listeners <+: s'.context.listeners
  attached : ∃ more : List Attachment, m'.attached = m.attached ++ more ∧
    ∀ a ∈ more, s.context.listeners <+: a.listeners ∧ a.listeners <+: s'.context.listeners
  abides : Abides p m.state m'.state
  homes : ∀ a ∈ m'.attached, a ∈ m.attached ∨ a.IsHome p m'.state

section

variable {p : Program} {s s' s'' : Session} {m m' m'' : Moment p}

theorem Later.refl (s : Session) (m : Moment p) : Later s m s m :=
  ⟨rfl, rfl, List.prefix_refl _,
    ⟨[], (List.append_nil _).symm, List.forall_mem_nil _⟩, Abides.refl p _,
    fun _ ha => Or.inl ha⟩

/-- Listeners that are told in the second part were there in it, and those of the first still
    are. -/
theorem Later.trans (h : Later s m s' m') (h' : Later s' m' s'' m'') : Later s m s'' m'' := by
  rcases h.attached with ⟨more, heq, hmore⟩
  rcases h'.attached with ⟨more', heq', hmore'⟩
  refine ⟨h'.settings.trans h.settings, h'.steps.trans h.steps, h.listeners.trans h'.listeners,
    ⟨more ++ more', by rw [heq', heq, List.append_assoc], fun a ha => ?_⟩,
    h.abides.trans h'.abides, fun a ha => ?_⟩
  · rcases List.mem_append.1 ha with ha | ha
    · exact ⟨(hmore a ha).1, (hmore a ha).2.trans h'.listeners⟩
    · exact ⟨h.listeners.trans (hmore' a ha).1, (hmore' a ha).2⟩
  · -- What stood in its place after the first part stands there after the second.
    rcases h'.homes a ha with ha | ha
    · exact (h.homes a ha).imp_right fun hhome => hhome.mono h'.abides
    · exact Or.inr ha

end

/-- A session starts with nothing done. -/
theorem isAt_start (program : Program) (settings : Settings) (steps : Nat) :
    (start program settings steps).IsAt (Moment.initial program) := ⟨rfl, rfl, rfl, rfl⟩

/-- What an action leaves, if it meets a contract that lets nothing stay open. -/
theorem run_isAt {α : Type} {s s' : Session} {m : Moment s.context.program} (h : s.IsAt m)
    {act : Action α} {refs : α → List Reference} {ok : α → Prop} {a : α}
    (hact : Gives s.context s.context.steps [] [] act refs ok) (hrun : s.run act = .ok (a, s')) :
    ∃ m' : Moment s.context.program, s'.IsAt m' ∧ Later s m s' m' := by
  rcases Outcome.map_eq_ok.1 hrun with ⟨⟨⟨a', state⟩, trail⟩, hr, heq⟩
  rw [Prod.mk.injEq] at heq
  rcases heq with ⟨rfl, rfl⟩
  -- The run starts by putting the state on the trail.
  have hnoted := hact m.noted h.opened (List.forall_mem_nil _)
  have hr' : act m.noted.state m.noted.trail = .ok ((a', state), trail) := by
    rw [show m.noted.state = s.state from h.state,
      show m.noted.trail = s.state :: s.trail by rw [← h.trail, ← h.state]; rfl, hr]
  rcases hnoted.holds a' state trail hr' with ⟨m', hs, ht, hl, _, _⟩
  refine ⟨m', ⟨rfl, hs, ht, hl.opened.trans h.opened⟩, rfl, rfl, List.prefix_refl _, ?_, hl.abides,
    hl.homes⟩
  rcases hl.attached with ⟨more, hmore, hlisteners⟩
  refine ⟨more, hmore, fun a ha => ?_⟩
  rw [hlisteners a ha]
  exact ⟨List.prefix_refl _, List.prefix_refl _⟩

/-- What adding a project leaves. -/
theorem addProject_isAt {p : Program} {s s' : Session} {m : Moment p} (h : s.IsAt m)
    {spec : ProjectSpec} {i : Nat} (hadd : s.addProject spec = .ok (i, s')) :
    ∃ m' : Moment p, s'.IsAt m' ∧ Later s m s' m' := by
  rcases s with ⟨context, state, trail⟩
  rcases h with ⟨hprogram, rfl, rfl, hopened⟩
  unfold addProject at hadd
  split at hadd
  · cases hadd
  · split at hadd
    · cases hadd
    · -- The entry is a file of the program, and no project has the name.
      rename_i hname
      simp only [Except.ok.injEq, Prod.mk.injEq] at hadd
      rcases hadd with ⟨_, rfl⟩
      -- The session has checked that the name is new.
      have hfresh : spec.name ∉ m.state.projects.map (·.name) := by
        intro hmem
        rcases List.mem_map.1 hmem with ⟨project, hp, heq⟩
        exact hname (List.any_eq_true.2 ⟨project, hp, beq_iff_eq.2 heq⟩)
      refine ⟨m.withProject
        { name := spec.name, baseDir := spec.root
          entry := spec.entry.bind (ModuleTree.make spec.name spec.root
            context.settings.passthroughModules).relativePath?
          metadata := spec.metadata
          modules := ModuleTree.make spec.name spec.root context.settings.passthroughModules }
        hfresh (ModuleTree.sound_make _ _ _) (fun module hm => ?_) (ModuleTree.located_make _ _ _)
        (ModuleTree.contentAt_make _ _ _), ⟨hprogram, rfl, rfl, hopened⟩, ?_⟩
      · rw [(ModuleTree.eq_root_of_get?_make hm).2]
        rfl
      · exact ⟨rfl, rfl, List.prefix_refl _,
          ⟨[], (List.append_nil _).symm, List.forall_mem_nil _⟩,
          Abides.of_append rfl rfl rfl, fun _ ha => Or.inl ha⟩

/-- What an operation leaves. -/
theorem perform_isAt {p : Program} {s s' : Session} {m : Moment p} (h : s.IsAt m) (op : Operation)
    (hop : s.perform op = .ok s') : ∃ m' : Moment p, s'.IsAt m' ∧ Later s m s' m' := by
  have hprogram := h.program
  subst hprogram
  -- Setting up is looked at case by case; everything else is a run of an action.
  cases op with
  | addProject spec =>
      simp only [perform] at hop
      split at hop
      · rename_i i s₁ hadd
        rw [← Except.ok.inj hop]
        exact addProject_isAt h hadd
      · rw [← Except.ok.inj hop]
        exact ⟨m, h, Later.refl s m⟩
  | addResolver resolver =>
      rw [← Except.ok.inj hop]
      exact ⟨m, ⟨rfl, h.state, h.trail, h.opened⟩, { Later.refl s m with }⟩
  | addListener listener =>
      rw [← Except.ok.inj hop]
      exact ⟨m, ⟨rfl, h.state, h.trail, h.opened⟩,
        { Later.refl s m with
          listeners := List.prefix_append _ _
          attached := ⟨[], (List.append_nil _).symm, List.forall_mem_nil _⟩ }⟩
  | reference x =>
      rcases Outcome.map_eq_ok.1 hop with ⟨⟨o, s₁⟩, hrun, rfl⟩
      exact run_isAt h (s.context.gives_referenceOf x) hrun
  | normalize ty node =>
      rcases Outcome.map_eq_ok.1 hop with ⟨⟨o, s₁⟩, hrun, rfl⟩
      exact run_isAt h (s.context.gives_typeOf ty node) hrun
  | extract =>
      rcases Outcome.map_eq_ok.1 hop with ⟨⟨o, s₁⟩, hrun, rfl⟩
      exact run_isAt h s.context.gives_extract hrun
  | extractFile file =>
      rcases Outcome.map_eq_ok.1 hop with ⟨⟨o, s₁⟩, hrun, rfl⟩
      exact run_isAt h (s.context.gives_extractFile file) hrun
  | resolveModule file =>
      rcases Outcome.map_eq_ok.1 hop with ⟨⟨o, s₁⟩, hrun, rfl⟩
      exact run_isAt h (s.context.gives_resolveModule? file) hrun

/-- What a run leaves. -/
theorem performAll_isAt {p : Program} {s s' : Session} {m : Moment p} (h : s.IsAt m)
    (ops : List Operation) (hops : s.performAll ops = .ok s') :
    ∃ m' : Moment p, s'.IsAt m' ∧ Later s m s' m' := by
  induction ops generalizing s m with
  | nil =>
      rw [← Except.ok.inj hops]
      exact ⟨m, h, Later.refl s m⟩
  | cons op ops ih =>
      rw [performAll, List.foldlM_cons] at hops
      rcases Outcome.bind_eq_ok.1 hops with ⟨s₁, hop, hops⟩
      -- The moment after the operation is the one that the rest starts from.
      rcases perform_isAt h op hop with ⟨m₁, hat, hl⟩
      rcases ih hat hops with ⟨m', hat', hl'⟩
      exact ⟨m', hat', hl.trans hl'⟩

/-- A reference stands in the registry or in the documentation, or around one that does. -/
def Occurs (s : Session) (r : Reference) : Prop :=
  (∃ x r', s.state.registry.find? x = some r' ∧ r ∈ r'.chain) ∨ r ∈ s.finish.mentions

/-- What occurs was made. -/
theorem IsAt.made_of_occurs {p : Program} {s : Session} {m : Moment p} (h : s.IsAt m)
    {r : Reference} (hr : s.Occurs r) : m.made r := by
  rcases hr with ⟨x, r', hx, hr⟩ | hr
  · rw [← h.state] at hx
    exact m.ledger.chain r' (m.ledger.registry x r' hx) r hr
  · rcases List.mem_flatMap.1 hr with ⟨project, hp, hr⟩
    rcases List.mem_flatMap.1 hr with ⟨module, hmodule, hr⟩
    rcases List.mem_flatMap.1 hr with ⟨r', hr', hr⟩
    rcases List.mem_iff_getElem?.1 hp with ⟨i, hi⟩
    rcases List.mem_iff_getElem?.1 hmodule with ⟨j, hj⟩
    -- The module is one of the state, found by its numbers.
    have hm : moduleIn m.state.projects ⟨i, ⟨j⟩⟩ = some module := by
      rw [h.state, moduleIn, show s.state.projects[i]? = some project from hi, Option.bind_some,
        ModuleTree.get?, ← hj, Array.getElem?_toList]
    refine m.ledger.chain r' ?_ r hr
    rcases List.mem_append.1 hr' with hr' | hr'
    · -- In a declaration, which was attached.
      rcases List.mem_flatMap.1 hr' with ⟨d, hd, hr'⟩
      rcases m.content.exists_attachment _ module hm d hd with ⟨a, ha, _, rfl⟩
      exact m.content.mentions a ha r' hr'
    · -- In the exports of a file.
      rcases List.mem_flatMap.1 hr' with ⟨e, he, hr'⟩
      refine m.content.exports ⟨i, ⟨j⟩⟩ e ?_ r' hr'
      rw [contentIn, hm]
      exact he

/-- Whatever occurs and has a path is documented by what was attached. -/
theorem IsAt.documented {p : Program} {s : Session} {m : Moment p} (h : s.IsAt m)
    {r : Reference} {path : List String} (hr : s.Occurs r) (hpath : r.path = some path) :
    IsDocumented p m.state.projects (m.attached.map (·.toEntry)) r path := by
  have hdoc := m.documented r path (h.made_of_occurs hr) hpath
  rwa [h.opened, List.nil_append] at hdoc

end Session

/-- A file with a namespace, in which a class refers to itself and to a member of an enumeration.
    The file exports the namespace, and the class under another name. -/
def Program.sample : Program where
  symbols := #[
    { info := { name := "a", kind := .sourceFile, declarations := [⟨0⟩] }
      exports := [⟨1⟩, ⟨7⟩] },
    { info := { name := "Shapes", kind := .namespaceScope, declarations := [⟨1⟩] }
      exports := [⟨2⟩, ⟨3⟩] },
    { info := { name := "Box", kind := .classType, declarations := [⟨2⟩], parent := some ⟨1⟩ }
      declaredType := some ⟨0⟩ },
    { info := { name := "Color", kind := .enum, declarations := [⟨3⟩], parent := some ⟨1⟩ }
      exports := [⟨4⟩], declaredType := some ⟨1⟩ },
    { info := { name := "Red", kind := .enumMember, declarations := [⟨4⟩], parent := some ⟨3⟩ } },
    { info := { name := "next", kind := .property, declarations := [⟨5⟩], parent := some ⟨2⟩ }
      valueType := some ⟨0⟩ },
    { info := { name := "color", kind := .property, declarations := [⟨6⟩], parent := some ⟨2⟩ }
      valueType := some ⟨2⟩ },
    { info := { name := "Crate", kind := .link, declarations := [⟨7⟩] }, aliased := some ⟨2⟩ }]
  nodes := #[
    { kind := .sourceFile, file := ⟨"/p/a.ts"⟩ },
    { kind := .namespaceScope, file := ⟨"/p/a.ts"⟩ },
    { kind := .classNode [] [] [], file := ⟨"/p/a.ts"⟩ },
    { kind := .enum false, file := ⟨"/p/a.ts"⟩ },
    { kind := .enumMember none, file := ⟨"/p/a.ts"⟩ },
    { kind := .property none, file := ⟨"/p/a.ts"⟩ },
    { kind := .property none, file := ⟨"/p/a.ts"⟩ },
    { kind := .other, file := ⟨"/p/a.ts"⟩ }]
  types := #[
    { info := { form := .object, symbol := some ⟨2⟩ }, properties := [⟨5⟩, ⟨6⟩] },
    { info := { form := .object, symbol := some ⟨3⟩ } },
    { info := { form := .object, symbol := some ⟨4⟩ } }]
  files := Table.insert ∅ ⟨"/p/a.ts"⟩ ⟨0⟩

/-- The project of the sample is added, and someone listens. -/
def Operation.sampleSetup : List Operation :=
  [.addProject { name := "p", root := ⟨"/p"⟩ }, .addListener "log"]

end DocModel
