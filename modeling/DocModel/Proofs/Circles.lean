import DocModel.Proofs.Outcome
import DocModel.Proofs.Placement
import DocModel.Proofs.Steps

/-!
# Questions that have no end

Before a declaration is registered, the namespace around it is asked for, and the enumeration around
a member. Nothing is entered before that question is answered. So if symbols are inside one another
in a circle, a question for one of them leads round the circle and comes back to the same symbol in
the same state, and no number of steps is enough to answer it. The same holds of a question for
anything that is inside such a symbol.

Once all projects are there, nothing can break a circle of namespaces. A namespace has a reference
only where it has a place, and a place is found by going outwards until there is no namespace any
more. Members of enumerations are different. An enumeration enters the members that it lists without
asking what they are inside of, and a member that has a reference is found at once. A circle of
members is therefore without end as long as none of them is known.

## Main definitions

* `Encircled`: From a symbol, a relation leads to a circle.
* `Program.IsIn`: What a symbol is inside of, if that is asked for first.
* `Program.IsInSpace`: The namespace around a symbol, if that has a module of its own.
* `Program.InCircle`: A declaration in a circle of namespaces, or inside of one.
* `State.Unknown`: Neither a symbol nor what it stands for has a reference.
* `State.LeadsOn`: One question leads to the next, as long as the symbol is unknown.

## Theorems

* `Encircled.exists_next`: A way that ends in a circle goes on.
* `PlacedAt.not_encircled`: What has a place is not in a circle of namespaces.
* `Calls.referenceStep_of_asked`: A question fails as that for the next symbol on the way does.
* `Context.reference_endless`: A question that leads on for ever has no end.
* `Session.circles_unanswered`: What is in a circle of namespaces has no reference, in any run.
-/

namespace DocModel

/-- From a symbol, a relation leads to a symbol that it leads back to. -/
def Encircled (R : SymbolId → SymbolId → Prop) (x : SymbolId) : Prop :=
  ∃ y, Relation.ReflTransGen R x y ∧ Relation.TransGen R y y

/-- A way that ends in a circle goes on. -/
theorem Encircled.exists_next {R : SymbolId → SymbolId → Prop} {x : SymbolId} (h : Encircled R x) :
    ∃ y, R x y ∧ Encircled R y := by
  rcases h with ⟨z, hway, hcircle⟩
  rcases Relation.ReflTransGen.cases_head hway with rfl | ⟨y, hstep, hway⟩
  · -- The symbol is on the circle, and the next one has the rest of the circle before it.
    rcases Relation.TransGen.head'_iff.1 hcircle with ⟨y, hstep, hrest⟩
    exact ⟨y, hstep, x, hrest, hcircle⟩
  · exact ⟨y, hstep, z, hway, hcircle⟩

/-- What a symbol stands for is declared in the analysed sources, directly inside something that is
    asked for first: a namespace, or anything that a member of an enumeration is inside of. -/
def Program.IsIn (p : Program) (projects : List Project) (x y : SymbolId) : Prop :=
  ∃ info node, Declared p projects (p.resolveAlias x) info node ∧ info.kind ≠ .typeParameter ∧
    info.parent = some y ∧ (p.isNamespace y = true ∨ info.kind = .enumMember)

/-- A symbol is directly inside a namespace that has a module of its own. -/
def Program.IsInSpace (p : Program) (projects : List Project) (x y : SymbolId) : Prop :=
  ∃ info outer, p.symbol? x = some info ∧ info.parent = some y ∧ p.IsSpace projects y outer

/-- Something that is placed in modules is declared in a circle of namespaces, or inside of one. -/
structure Program.InCircle (p : Program) (projects : List Project) (x : SymbolId) : Prop where
  declared : ∃ info node, Declared p projects x info node ∧ info.kind.isPlaced = true
  circle : Encircled (p.IsInSpace projects) x

/-- Neither a symbol nor what it stands for has a reference, and it has no module. -/
structure State.Unknown (p : Program) (s : State) (x : SymbolId) : Prop where
  self : s.registry.find? x = none
  target : s.registry.find? (p.resolveAlias x) = none
  space : s.namespaces.contains x = false

/-- The question for an unknown symbol leads to what the symbol is inside of. -/
def State.LeadsOn (p : Program) (s : State) (x y : SymbolId) : Prop :=
  p.IsIn s.projects x y ∧ s.Unknown p x

/-- What has a place is not in a circle of namespaces. -/
theorem PlacedAt.not_encircled {p : Program} {passthrough : List String} {projects : List Project}
    {x : SymbolId} {path : List String} (h : PlacedAt p passthrough projects x path) :
    ¬ Encircled (p.IsInSpace projects) x := by
  -- The place is found by going outwards, and each step of that way is a step towards the circle.
  induction h with
  | space hx hparent hspace _ ih =>
      intro hcircle
      rcases hcircle.exists_next with ⟨y, ⟨info, outer, hinfo, hy, _⟩, hnext⟩
      rw [hx, Option.some.injEq] at hinfo
      rw [← hinfo, hparent, Option.some.injEq] at hy
      rw [← hy] at hnext
      exact ih hnext
  | file hx hnode hnone hplace =>
      intro hcircle
      rcases hcircle.exists_next with ⟨y, ⟨info, outer, hinfo, hy, hspace⟩, _⟩
      rw [hx, Option.some.injEq] at hinfo
      rw [← hinfo] at hy
      exact hnone y outer hy hspace

namespace Calls

variable {calls : Calls} {ctx : Context} {s : State} {t : Trail} {x y : SymbolId} {e : Failure}

/-- What a declaration is inside of is asked for before anything is done about the declaration. -/
theorem resolveSymbol_of_asked {info : SymbolInfo} {node : NodeInfo}
    (hx : Declared ctx.program s.projects x info node) (hkind : info.kind ≠ .typeParameter)
    (hparent : info.parent = some y)
    (hasked : ctx.program.isNamespace y = true ∨ info.kind = .enumMember)
    (hspace : s.namespaces.contains y = false)
    (hfails : ∀ d t', calls.reference y { s with depth := d } t' = .error e) :
    calls.resolveSymbol ctx x info s t = .error e := by
  unfold resolveSymbol
  simp only [if_neg hkind, hx.declaration, Action.get_bind]
  rw [isExternalFile_eq, hx.inside, if_neg Bool.false_ne_true]
  -- A namespace is asked for before the sort of the declaration is looked at.
  by_cases hnamespace : ctx.program.isNamespace y = true
  · refine Action.bind_of_error ?_
    unfold registerEnclosing?
    simp only [hparent, Action.get_bind, hspace, hnamespace, Bool.not_false, Bool.and_self, if_true]
    exact Action.bind_of_error (hfails s.depth t)
  · -- A member asks for what it is inside of in any case, with the depth set to zero.
    have hencl : calls.registerEnclosing? ctx x info s t = .ok ((none, s), t) := by
      unfold registerEnclosing?
      simp only [hparent, Action.get_bind, hnamespace, Bool.and_false, Bool.false_eq_true, if_false]
      rfl
    rw [Action.bind_apply, hencl]
    change calls.registerSymbol ctx x info node s t = .error e
    rw [registerSymbol, if_pos (hasked.resolve_left hnamespace), enumMemberReference?,
      Action.takeDepth_bind]
    simp only [hparent]
    exact Action.bind_of_error (hfails 0 t)

/-- What an unknown symbol is inside of is asked for before anything is done about the symbol, and
    until then nothing but the nesting depth changes. -/
theorem referenceStep_of_asked (hx : s.Unknown ctx.program x)
    (hin : ctx.program.IsIn s.projects x y) (hspace : s.namespaces.contains y = false)
    (hfails : ∀ d t', calls.reference y { s with depth := d } t' = .error e) :
    calls.referenceStep ctx x s t = .error e := by
  rcases hin with ⟨info, node, hd, hkind, hparent, hasked⟩
  have hresolve := resolveSymbol_of_asked (t := t) hd hkind hparent hasked hspace hfails
  unfold referenceStep
  rw [Action.entered?_bind, hx.self]
  dsimp only
  -- A symbol that stands for another asks on behalf of the other.
  by_cases hself : ctx.program.resolveAlias x = x
  · rw [hself] at hresolve hd
    rw [if_pos hself, hd.symbol]
    exact hresolve
  · rw [if_neg hself, Action.entered?_bind, hx.target, hd.symbol]
    exact Action.bind_of_error hresolve

end Calls

/-- No question for one of a number of unknown symbols has an end, in any number of steps, if each
    of them is inside another of them. -/
theorem Context.reference_endless {ctx : Context} {s : State} {among : SymbolId → Prop}
    (hamong : ∀ x, among x → ∃ y, s.LeadsOn ctx.program x y ∧ among y) {x : SymbolId} (hx : among x)
    (n d : Nat) (t : Trail) : ctx.reference n x { s with depth := d } t = .error .endless := by
  induction n generalizing x d t with
  | zero => rfl
  | succ n ih =>
      rcases hamong x hx with ⟨y, ⟨hin, hunknown⟩, hy⟩
      rcases hamong y hy with ⟨_, ⟨_, hnext⟩, _⟩
      have hunknown' : State.Unknown ctx.program { s with depth := d } x :=
        ⟨hunknown.self, hunknown.target, hunknown.space⟩
      -- The next symbol on the way is asked for in the same state, up to the depth.
      exact Calls.referenceStep_of_asked hunknown' hin hnext.space fun d' t' => ih hy d' t'

section

variable {p : Program} {passthrough : List String} {projects projects' : List Project} {s : State}
  {x y : SymbolId}

/-- Growth brings nothing into a circle. -/
theorem Program.InCircle.of_grow (h : p.InCircle projects x)
    (hg : ProjectsGrow projects projects') : p.InCircle projects' x := by
  -- Which namespaces have modules is decided by the roots of the projects, and they stay.
  have hspaces : p.IsInSpace projects' = p.IsInSpace projects := by
    funext y z
    unfold IsInSpace
    simp only [IsSpace.of_grow hg]
  rcases h.declared with ⟨info, node, hx, hkind⟩
  exact ⟨⟨info, node, (Declared.of_grow hg).2 hx, hkind⟩, by rw [hspaces]; exact h.circle⟩

/-- What is in a circle asks for a namespace first, which is in the circle too. -/
theorem Program.InCircle.exists_isIn (h : p.InCircle projects x) :
    ∃ y, p.IsIn projects x y ∧ p.InCircle projects y := by
  rcases h.declared with ⟨info, node, hx, hkind⟩
  -- The first step of the circle is the question that is asked first.
  rcases h.circle.exists_next with ⟨y, ⟨info', outer, hinfo, hparent, hspace⟩, hy⟩
  rw [hx.symbol, Option.some.injEq] at hinfo
  rw [← hinfo] at hparent
  refine ⟨y, ⟨info, node, by rwa [hx.resolved], fun htype => ?_, hparent,
    Or.inl hspace.isNamespace⟩, ?_, hy⟩
  · rw [htype] at hkind
    cases hkind
  · rcases hspace with ⟨hspace, node', hy'⟩
    exact ⟨outer, node', hy', by rw [hspace]; rfl⟩

/-- Where everything is in place, what is in a circle is unknown. -/
theorem InPlace.unknown (h : InPlace p passthrough s) (hx : p.InCircle s.projects x) :
    s.Unknown p x := by
  rcases hx.declared with ⟨info, node, hd, hkind⟩
  -- A reference would have a place, and there is none in a circle.
  have hnone : s.registry.find? x = none := by
    refine Option.eq_none_iff_forall_ne_some.2 fun ref href => ?_
    rcases (h.references x info node ref hd hkind href).placed with ⟨path, hplaced, _⟩
    exact hplaced.not_encircled hx.circle
  refine ⟨hnone, by rw [hd.resolved, hnone], Bool.eq_false_iff.2 fun hc => ?_⟩
  rcases (Table.contains_iff _ _).1 hc with ⟨handle, hfind⟩
  rcases h.spaces x handle hfind with ⟨_, path, _, hplaced, _⟩
  exact hplaced.not_encircled hx.circle

end

namespace Session

variable {s : Session} {x : SymbolId}

/-- In a session the same question fails, however many steps it is given. -/
theorem reference_endless {among : SymbolId → Prop}
    (hamong : ∀ x, among x → ∃ y, s.state.LeadsOn s.context.program x y ∧ among y)
    (hx : among x) (n : Nat) : (s.withSteps n).reference x = .error .endless := by
  refine Outcome.map_eq_error.2 ?_
  change (s.context.withSteps n).reference n x s.state (s.state :: s.trail) = .error .endless
  rw [(s.context.calls_withSteps n n).1]
  exact Context.reference_endless hamong hx n s.state.depth _

/-- As long as nothing is asked for, all symbols are unknown. -/
theorem unknown_of_quiet (program : Program) (settings : Settings) (steps : Nat)
    (ops : List Operation) (hops : ∀ op ∈ ops, op.asks = false)
    (hrun : (start program settings steps).performAll ops = .ok s) (x : SymbolId) :
    s.state.Unknown program x := by
  rcases performAll_quiet (grounded_start program settings steps) ops hops hrun with
    ⟨_, hregistry, hspaces⟩
  refine ⟨?_, ?_, ?_⟩
  · rw [hregistry]
    rfl
  · rw [hregistry]
    rfl
  · rw [hspaces]
    rfl

/-- If all projects are added before the first question, then no first question that leads to a
    circle has an answer, in any number of steps. In any run, what is declared in a circle of
    namespaces never has a reference, and a question for it never has an answer. Other questions
    that lead to a circle have none as long as the symbols on the way are unknown. -/
theorem circles_unanswered (program : Program) (settings : Settings) (steps : Nat)
    (before after : List Operation) (s₀ s : Session)
    (hquiet : ∀ op ∈ before, op.asks = false) (hclosed : ∀ op ∈ after, op.addsProject = false)
    (hbefore : (start program settings steps).performAll before = .ok s₀)
    (hafter : s₀.performAll after = .ok s) :
    (∀ x n, Encircled (program.IsIn s₀.state.projects) x →
      (s₀.withSteps n).reference x = .error .endless) ∧
    (∀ x n, program.InCircle s₀.state.projects x →
      s.state.registry.find? x = none ∧ (s.withSteps n).reference x = .error .endless) ∧
    ∀ x n, Encircled (s.state.LeadsOn program) x →
      (s.withSteps n).reference x = .error .endless := by
  rcases performAll_isAt (isAt_start program settings steps) before hbefore with ⟨m₀, hat₀, hlater₀⟩
  rcases inPlace_of_quiet program settings steps before hquiet hbefore with ⟨hs₀, hi₀⟩
  -- After the last project everything stays in place.
  rcases performAll_inPlace hs₀ hi₀ after hclosed hafter with
    ⟨_, hgrow, hprogram, hsettings, hi⟩
  rw [hprogram, hsettings, hat₀.program] at hi
  have hprogram' : s.context.program = program := hprogram.trans hat₀.program
  refine ⟨fun x n hx => ?_, fun x n hx => ?_, fun x n hx => ?_⟩
  · -- Before the first question every symbol is unknown.
    refine reference_endless (fun y hy => ?_) hx n
    rcases hy.exists_next with ⟨z, hin, hz⟩
    rw [hat₀.program]
    exact ⟨z, ⟨hin, unknown_of_quiet program settings steps before hquiet hbefore y⟩, hz⟩
  · -- What is declared in a circle of namespaces stays unknown, since it is placed nowhere.
    have hx := hx.of_grow hgrow
    refine ⟨(hi.unknown hx).self, reference_endless (fun y hy => ?_) hx n⟩
    rcases hy.exists_isIn with ⟨z, hin, hz⟩
    rw [hprogram']
    exact ⟨z, ⟨hin, hi.unknown hy⟩, hz⟩
  · -- For all other symbols it is assumed that the way to the circle is unknown.
    refine reference_endless (fun y hy => ?_) hx n
    rw [hprogram']
    exact hy.exists_next

end Session

/-- Two namespaces that contain each other, a class in one of them, a class outside, and a member of
    an enumeration that is inside of itself. -/
def Program.entangled : Program where
  symbols := #[
    { info := { name := "a", kind := .sourceFile, declarations := [⟨0⟩] } },
    { info := { name := "A", kind := .namespaceScope, declarations := [⟨1⟩], parent := some ⟨2⟩ } },
    { info := { name := "B", kind := .namespaceScope, declarations := [⟨1⟩], parent := some ⟨1⟩ } },
    { info := { name := "C", kind := .classType, declarations := [⟨2⟩], parent := some ⟨1⟩ }
      declaredType := some ⟨0⟩ },
    { info := { name := "D", kind := .classType, declarations := [⟨2⟩] }
      declaredType := some ⟨1⟩ },
    { info := { name := "M", kind := .enumMember, declarations := [⟨3⟩], parent := some ⟨5⟩ } }]
  nodes := #[
    { kind := .sourceFile, file := ⟨"/p/a.ts"⟩ },
    { kind := .namespaceScope, file := ⟨"/p/a.ts"⟩ },
    { kind := .classNode [] [] [], file := ⟨"/p/a.ts"⟩ },
    { kind := .enumMember none, file := ⟨"/p/a.ts"⟩ }]
  types := #[
    { info := { form := .object, symbol := some ⟨3⟩ } },
    { info := { form := .object, symbol := some ⟨4⟩ } }]
  files := Table.insert ∅ ⟨"/p/a.ts"⟩ ⟨0⟩

/-- The class is in the circle of the two namespaces, and the member is a circle of its own. -/
theorem Program.circles_entangled {projects : List Project}
    (hinside : entangled.isOutside projects ⟨"/p/a.ts"⟩ = false) :
    entangled.InCircle projects ⟨3⟩ ∧ entangled.IsIn projects ⟨5⟩ ⟨5⟩ := by
  have hA : entangled.IsSpace projects ⟨1⟩
      { name := "A", kind := .namespaceScope, declarations := [⟨1⟩], parent := some ⟨2⟩ } :=
    ⟨rfl, { kind := .namespaceScope, file := ⟨"/p/a.ts"⟩ }, by decide +kernel, rfl, rfl, hinside⟩
  have hB : entangled.IsSpace projects ⟨2⟩
      { name := "B", kind := .namespaceScope, declarations := [⟨1⟩], parent := some ⟨1⟩ } :=
    ⟨rfl, { kind := .namespaceScope, file := ⟨"/p/a.ts"⟩ }, by decide +kernel, rfl, rfl, hinside⟩
  -- From the class one step leads to the circle, and two steps lead around it.
  have hAB : entangled.IsInSpace projects ⟨1⟩ ⟨2⟩ := ⟨_, _, rfl, rfl, hB⟩
  have hBA : entangled.IsInSpace projects ⟨2⟩ ⟨1⟩ := ⟨_, _, rfl, rfl, hA⟩
  have hC : entangled.IsInSpace projects ⟨3⟩ ⟨1⟩ := ⟨_, _, rfl, rfl, hA⟩
  have hself : entangled.resolveAlias ⟨3⟩ = ⟨3⟩ := by decide +kernel
  have hM : Declared entangled projects (entangled.resolveAlias ⟨5⟩)
      { name := "M", kind := .enumMember, declarations := [⟨3⟩], parent := some ⟨5⟩ }
      { kind := .enumMember none, file := ⟨"/p/a.ts"⟩ } :=
    ⟨by decide +kernel, by decide +kernel, rfl, hinside⟩
  refine ⟨⟨⟨_, _, ⟨hself, rfl, rfl, hinside⟩, rfl⟩, ⟨1⟩, .single hC, .tail (.single hAB) hBA⟩, ?_⟩
  exact ⟨_, _, hM, nofun, rfl, Or.inr rfl⟩

namespace Session

/-- In the example, the class outside gets its reference, and the other class and the member never
    do. -/
theorem circles_unanswered_entangled :
    ∃ s₀ s, (start .entangled {} 20).performAll [.addProject { name := "p", root := ⟨"/p"⟩ }] =
        .ok s₀ ∧
      s₀.performAll [.reference ⟨4⟩] = .ok s ∧ s.state.registry.contains ⟨4⟩ = true ∧
      Program.entangled.InCircle s₀.state.projects ⟨3⟩ ∧
      Encircled (Program.entangled.IsIn s₀.state.projects) ⟨5⟩ ∧
      Encircled (s.state.LeadsOn .entangled) ⟨5⟩ ∧ s.state.registry.find? ⟨3⟩ = none ∧
      ∀ n, (s₀.withSteps n).reference ⟨5⟩ = .error .endless ∧
        (s.withSteps n).reference ⟨3⟩ = .error .endless ∧
        (s.withSteps n).reference ⟨5⟩ = .error .endless := by
  have hrun : ((start .entangled {} 20).performAll
      [.addProject { name := "p", root := ⟨"/p"⟩ }]).toOption.any (fun s₀ =>
        !Program.entangled.isOutside s₀.state.projects ⟨"/p/a.ts"⟩ &&
        (s₀.performAll [.reference ⟨4⟩]).toOption.any fun s =>
          !Program.entangled.isOutside s.state.projects ⟨"/p/a.ts"⟩ &&
          s.state.registry.contains ⟨4⟩ && s.state.registry.find? ⟨5⟩ == none &&
          !s.state.namespaces.contains ⟨5⟩) = true := by
    decide +kernel
  rcases Outcome.of_any hrun with ⟨s₀, hbefore, hrun⟩
  rw [Bool.and_eq_true, Bool.not_eq_true'] at hrun
  rcases hrun with ⟨hinside₀, hrun⟩
  rcases Outcome.of_any hrun with ⟨s, hafter, hrun⟩
  simp only [Bool.and_eq_true, Bool.not_eq_true', beq_iff_eq] at hrun
  rcases hrun with ⟨⟨⟨hinside, hother⟩, hnone⟩, hspace⟩
  have hC := (Program.circles_entangled hinside₀).1
  have hM₀ : Encircled (Program.entangled.IsIn s₀.state.projects) ⟨5⟩ :=
    ⟨⟨5⟩, .refl, .single (Program.circles_entangled hinside₀).2⟩
  have htarget : s.state.registry.find? (Program.entangled.resolveAlias ⟨5⟩) = none := by
    rw [show Program.entangled.resolveAlias ⟨5⟩ = ⟨5⟩ by decide +kernel, hnone]
  have hM : Encircled (s.state.LeadsOn .entangled) ⟨5⟩ :=
    ⟨⟨5⟩, .refl, .single ⟨(Program.circles_entangled hinside).2, hnone, htarget, hspace⟩⟩
  rcases circles_unanswered .entangled {} 20 _ _ s₀ s (by decide) (by decide) hbefore hafter with
    ⟨hfirst, hspaces, hlater⟩
  exact ⟨s₀, s, hbefore, hafter, hother, hC, hM₀, hM, (hspaces ⟨3⟩ 0 hC).1, fun n =>
    ⟨hfirst ⟨5⟩ n hM₀, (hspaces ⟨3⟩ n hC).2, hlater ⟨5⟩ n hM⟩⟩

end Session

/-- A namespace that is inside of itself. -/
def Program.selfContained : Program where
  symbols := #[
    { info := { name := "a", kind := .sourceFile, declarations := [⟨0⟩] } },
    { info := { name := "N", kind := .namespaceScope, declarations := [⟨1⟩], parent := some ⟨1⟩ } }]
  nodes := #[
    { kind := .sourceFile, file := ⟨"/p/a.ts"⟩ },
    { kind := .namespaceScope, file := ⟨"/p/a.ts"⟩ }]
  files := Table.insert ∅ ⟨"/p/a.ts"⟩ ⟨0⟩

/-- The question for the namespace has no answer. -/
theorem Session.own_parent_unanswered :
    ∃ s, (start .selfContained {} 20).performAll [.addProject { name := "p", root := ⟨"/p"⟩ }] =
      .ok s ∧ ∀ n, (s.withSteps n).reference ⟨1⟩ = .error .endless := by
  have hrun : ((start .selfContained {} 20).performAll
      [.addProject { name := "p", root := ⟨"/p"⟩ }]).toOption.any (fun s =>
        !Program.selfContained.isOutside s.state.projects ⟨"/p/a.ts"⟩) = true := by
    decide +kernel
  rcases Outcome.of_any hrun with ⟨s, hsetup, hrun⟩
  rw [Bool.not_eq_true'] at hrun
  rcases performAll_isAt (isAt_start .selfContained {} 20) _ hsetup with ⟨_, hat, _⟩
  -- Nothing has been asked for, so the namespace is unknown, and it is inside of itself.
  have hunknown := unknown_of_quiet .selfContained {} 20 _ (by decide) hsetup ⟨1⟩
  have hN : Declared .selfContained s.state.projects (Program.selfContained.resolveAlias ⟨1⟩)
      { name := "N", kind := .namespaceScope, declarations := [⟨1⟩], parent := some ⟨1⟩ }
      { kind := .namespaceScope, file := ⟨"/p/a.ts"⟩ } :=
    ⟨by decide +kernel, by decide +kernel, rfl, hrun⟩
  refine ⟨s, hsetup, fun n => reference_endless (fun x hx => ?_) (Eq.refl ⟨1⟩) n⟩
  rw [hat.program, ← hx]
  exact ⟨⟨1⟩, ⟨⟨_, _, hN, nofun, rfl, Or.inl rfl⟩, hunknown⟩, rfl⟩

end DocModel
