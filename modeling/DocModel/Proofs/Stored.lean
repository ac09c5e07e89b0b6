import DocModel.Proofs.Depth

/-!
# The types of the documentation

Types get into modules in one way only: a declaration is attached when it has been built. All else
that is done on the way leaves the declarations in the modules as they are. So what holds of every
type that is built from depth zero holds of every type in the documentation, after any run.

What is said of types may depend on the depth at which they are built. It may also be the same at
all depths: a condition that every layer inherits from the types in it is such a law.

## Main definitions

* `TypeIn`: A type stands in a declaration of one of the projects.

## Theorems

* `Ty.Layers.law`: A condition that every layer inherits is a law.
* `Change.typeIn`: One change adds the types of one declaration at most.
* `Session.fits_of_typeIn`: What stands in the documentation fits the law, after any run.
* `Session.types_obey`: So does what is asked for, at any depth.
-/

namespace DocModel

/-- A condition that every layer inherits from the types in it is the same at all depths. -/
theorem Ty.Layers.law {ok : Ty → Prop} (h : Ty.Layers ok ok) (limit : Nat) :
    Ty.Law limit fun _ => ok :=
  ⟨fun _ => h.toAdmits, fun _ _ => h⟩

/-- A type stands in a declaration of one of the projects. -/
def TypeIn (projects : List Project) (t : Ty) : Prop :=
  ∃ h, ∃ d ∈ (contentIn projects h).declarations, t ∈ d.types

/-- Where a type stands in a project, by modules and declarations. -/
theorem typeIn_of_mem {projects : List Project} {project : Project} {m : Module}
    {d : Declaration} {t : Ty} (hp : project ∈ projects) (hm : m ∈ project.modules.modules)
    (hd : d ∈ m.declarations) (ht : t ∈ d.types) : TypeIn projects t := by
  rcases List.mem_iff_getElem?.1 hp with ⟨i, hi⟩
  rcases Array.mem_iff_getElem?.1 hm with ⟨j, hj⟩
  have hmodule : moduleIn projects ⟨i, ⟨j⟩⟩ = some m := by
    rw [moduleIn, hi, Option.bind_some]
    exact hj
  refine ⟨⟨i, ⟨j⟩⟩, d, ?_, ht⟩
  rw [contentIn, hmodule]
  exact hd

/-- One change adds the types of one declaration at most. -/
theorem Change.typeIn {p : Program} {passthrough : List String} {fits : Ty → Prop}
    {s s' : State} (h : Change p passthrough fits s s') {t : Ty} (ht : TypeIn s'.projects t) :
    TypeIn s.projects t ∨ fits t := by
  -- Trees and exports may change; declarations come in one case only.
  cases h with
  | enlarge i project tree hp hen hl =>
      rcases ht with ⟨h, d, hd, ht⟩
      rw [contentIn_withTree s.projects i tree project hp hen.content] at hd
      exact Or.inl ⟨h, d, hd, ht⟩
  | attach h project m d notices hp hm hfits =>
      rcases ht with ⟨h', d', hd', ht⟩
      rw [contentIn_update s.projects h h' project hp m hm] at hd'
      split at hd'
      · rcases List.mem_cons.1 ((declarations_addDeclaration m d).mem_iff.1 hd') with rfl | hd'
        · exact Or.inr (hfits t ht)
        · refine Or.inl ⟨h, d', ?_, ht⟩
          rw [contentIn, moduleIn, hp, Option.bind_some, hm]
          exact hd'
      · exact Or.inl ⟨h', d', hd', ht⟩
  | exports h project m file exports hp hm =>
      rcases ht with ⟨h', d', hd', ht⟩
      rw [contentIn_update s.projects h h' project hp m hm] at hd'
      split at hd'
      · refine Or.inl ⟨h, d', ?_, ht⟩
        rw [contentIn, moduleIn, hp, Option.bind_some, hm]
        exact hd'
      · exact Or.inl ⟨h', d', hd', ht⟩
  | _ => exact Or.inl ht

namespace Session

/-- What a run documents fits what the law says of depth zero. -/
theorem fits_of_typeIn {law : Nat → Ty → Prop} (program : Program) (settings : Settings)
    (steps : Nat) (ops : List Operation) (s : Session) (hl : Ty.Law settings.maxTypeDepth law)
    (hops : (start program settings steps).performAll ops = .ok s) (t : Ty)
    (ht : TypeIn s.state.projects t) : law 0 t := by
  have hrun := performAll_induct (fun s => ∀ t, TypeIn s.state.projects t → law 0 t) ?_
    hl (grounded_start program settings steps) (fun t ht => ?_) ops hops
  · exact hrun.2 t ht
  · intro s s' _ hmoves hfits
    rcases hmoves.state with hfrom | ⟨project, hnew, heq⟩
    · -- Along the changes, what is documented stays within bounds.
      refine hfrom.changes.induct (fun s => ∀ t, TypeIn s.projects t → law 0 t) ?_ hfits
      intro s₁ s₂ hc hfits₁ t ht
      exact (hc.typeIn ht).elim (hfits₁ t) id
    · -- A new project has no types in it.
      rintro t ⟨h, d, hd, ht⟩
      have hblank : ∀ id, project.modules.contentAt id = Module.blank := by
        rw [hnew.modules]
        exact ModuleTree.contentAt_make _ _ _
      rw [heq, contentIn_append s.state.projects project hblank] at hd
      exact hfits t ⟨h, d, hd, ht⟩
  · rcases ht with ⟨h, d, hd, _⟩
    exact absurd hd List.not_mem_nil

/-- Every type obeys a law: those in the documentation after any run, those that are asked for then,
    and those that are asked for at a depth, in the middle of whatever work. -/
theorem types_obey {law : Nat → Ty → Prop} (program : Program) (settings : Settings) (steps : Nat)
    (ops : List Operation) (s : Session) (hl : Ty.Law settings.maxTypeDepth law)
    (hops : (start program settings steps).performAll ops = .ok s) :
    (∀ project ∈ s.finish.projects, ∀ m ∈ project.modules.modules, ∀ d ∈ m.declarations,
      ∀ t ∈ d.types, law 0 t) ∧
    (∀ ty node t s', s.normalize ty node = .ok (t, s') → law 0 t) ∧
    ∀ state, s.context.Grounded state → ∀ n ty node expanding trail t state' trail',
      s.context.normalize n ty node expanding state trail = .ok ((t, state'), trail') →
      law state.depth t := by
  rcases performAll_isAt (isAt_start program settings steps) ops hops with ⟨_, _, hlater⟩
  rcases depth_zero program settings steps ops s hops with ⟨_, hs, hzero⟩
  -- What is said of a type depends on the state it is asked for in, not on the run.
  have hasked : ∀ state, s.context.Grounded state → ∀ n ty node expanding trail t state' trail',
      s.context.normalize n ty node expanding state trail = .ok ((t, state'), trail') →
      law state.depth t := by
    intro state hstate n ty node expanding trail t state' trail' hrun
    rw [← show s.context.settings = settings from hlater.settings] at hl
    have horderly := (s.context.orderly hl n).normalize ty node expanding
    exact (horderly state trail t state' trail' hstate hrun).2.2
  refine ⟨fun project hp m hm d hd t ht => ?_, fun ty node t s' hrun => ?_, hasked⟩
  · exact fits_of_typeIn program settings steps ops s hl hops t (typeIn_of_mem hp hm hd ht)
  · -- Between operations the depth is zero.
    rcases Outcome.map_eq_ok.1 hrun with ⟨⟨⟨t', state⟩, trail⟩, hact, heq⟩
    rcases Prod.mk.inj heq with ⟨rfl, _⟩
    rw [← hzero]
    exact hasked s.state hs _ ty node none _ t' state trail hact

end Session

end DocModel
