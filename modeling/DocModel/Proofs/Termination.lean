import DocModel.Proofs.Lost
import DocModel.Proofs.Operations

/-!
# Extractions come to an end

References and types ask for one another, and for themselves. Types may contain themselves, aliases
may stand for one another in circles, files may export one another, and numbers may point nowhere.
Every question is answered nevertheless, with two exceptions. Namespaces may not contain one another
without end, because a namespace is asked for before the reference of what is in it is entered. And
a member of an enumeration must be inside something that has a reference whenever it is asked for,
because otherwise the nesting depth is lost with each question for the member. A member of another
enumeration will not always do: while that enumeration is built, it may have no reference yet.

That a question is answered means that `Program.enoughSteps` are enough for it. It means more than
that, because more steps give the same answer: what bounds the work is the work itself and not the
number of steps.

## Main definitions

* `Program.knot`: A program with a member inside a member of another enumeration.

## Theorems

* `Context.room_of_enoughSteps`: Enough steps leave room at any moment.
* `Session.exists_run`: A run that has room gives an answer.
* `Program.acyclic_of_parents_first`: Programs in which the parents of symbols come first.
* `Session.questions_answered`: Every question is answered, in any number of steps that is enough.
* `Session.unmet_member_unanswered`: A question that has no end, because of a member inside a
  member.
-/

namespace DocModel

/-- Enough steps leave room at any moment. -/
theorem Context.room_of_enoughSteps {ctx : Context} {n : Nat} (m : Moment ctx.program)
    (hsteps : ctx.program.enoughSteps ctx.settings ≤ n) (hacyclic : ctx.program.Acyclic)
    (henclosed : ctx.program.MembersEnclosed m.state) : Room ctx n m := by
  refine ⟨hacyclic, henclosed, Nat.le_trans ?_ hsteps⟩
  -- In the worst case all symbols are without a reference and the depth is zero.
  have hvacant := Nat.mul_le_mul_right ctx.stride (ctx.program.vacant_le m.state.registry)
  have henough : ctx.program.enoughSteps ctx.settings =
      ctx.program.symbols.size * ctx.stride + ctx.stride := Nat.succ_mul _ _
  have hstride : ctx.stride = ctx.program.symbols.size + ctx.settings.maxTypeDepth + 5 := rfl
  omega

/-- A program in which what is around a symbol comes before it is acyclic. -/
theorem Program.acyclic_of_parents_first {p : Program}
    (h : ∀ i < p.symbols.size, ((p.symbol? ⟨i⟩).bind (·.parent)).all
      (fun parent => (p.resolveAlias parent).index < i) = true) : p.Acyclic := by
  intro x hx
  have hlt : ∀ y, Relation.TransGen p.Above x y → y.index < x.index := by
    -- Going outwards leads to smaller numbers.
    have hstep : ∀ x y, p.Above x y → y.index < x.index := by
      rintro x _ ⟨info, parent, hinfo, hparent, _, rfl⟩
      have hall := h x.index (p.mem_numbered_of_symbol? hinfo)
      rw [show p.symbol? ⟨x.index⟩ = some info from hinfo, Option.bind_some, hparent] at hall
      exact of_decide_eq_true hall
    intro y hy
    induction hy with
    | single hab => exact hstep _ _ hab
    | tail _ hab ih => exact Nat.lt_trans (hstep _ _ hab) ih
  exact Nat.lt_irrefl _ (hlt x hx)

namespace Session

/-- A run that has room gives an answer. -/
theorem exists_run {α : Type} {s : Session} {m : Moment s.context.program} (h : s.IsAt m)
    {act : Action α} {refs : α → List Reference} {ok : α → Prop}
    (hact : Gives s.context s.context.steps [] [] act refs ok)
    (hroom : Room s.context s.context.steps m) : ∃ a s', s.run act = .ok (a, s') := by
  have hbefore : Moment.Before s.context.listeners m m.noted := m.before_noted
  -- The state is put on the trail before the action runs.
  have hnoted := hact m.noted h.opened (List.forall_mem_nil _)
  have hroom' := hroom.leads (hbefore.leads rfl rfl)
  rcases hnoted.returns (Averted.of_room hroom' hroom'.enclosed) with ⟨⟨⟨a, state⟩, trail⟩, hr⟩
  refine ⟨a, { s with state, trail }, Outcome.map_eq_ok.2 ⟨((a, state), trail), ?_, rfl⟩⟩
  rw [← h.trail, ← h.state]
  exact hr

/-- After any run, every question that is put to a session is answered, and the answer is the same
    with any greater number of steps: provided that namespaces do not contain one another in
    circles, and that members of enumerations are inside something that has a reference. -/
theorem questions_answered (program : Program) (settings : Settings) (steps : Nat)
    (ops : List Operation) (s : Session) (hsteps : program.enoughSteps settings ≤ steps)
    (hops : (start program settings steps).performAll ops = .ok s) (hacyclic : program.Acyclic)
    (henclosed : program.MembersEnclosed s.state) :
    (∀ x, ∃ o s', s.reference x = .ok (o, s') ∧
      ∀ k, steps ≤ k → (s.withSteps k).reference x = .ok (o, s'.withSteps k)) ∧
    (∀ ty node, ∃ t s', s.normalize ty node = .ok (t, s') ∧
      ∀ k, steps ≤ k → (s.withSteps k).normalize ty node = .ok (t, s'.withSteps k)) ∧
    (∃ s', s.extract = .ok s' ∧
      ∀ k, steps ≤ k → (s.withSteps k).extract = .ok (s'.withSteps k)) ∧
    ∀ file, ∃ s', s.extractFile file = .ok s' ∧
      ∀ k, steps ≤ k → (s.withSteps k).extractFile file = .ok (s'.withSteps k) := by
  rcases performAll_isAt (isAt_start program settings steps) ops hops with ⟨m, hat, hlater⟩
  have hprogram := hat.program
  subst hprogram
  have hcount : s.context.steps = steps := hlater.steps
  rw [← show s.context.settings = settings from hlater.settings, ← hcount] at hsteps
  rw [← hat.state] at henclosed
  -- There is room at the moment the run has come to, and each action gives an answer then.
  have hroom := s.context.room_of_enoughSteps m hsteps hacyclic henclosed
  refine ⟨fun x => ?_, fun ty node => ?_, ?_, fun file => ?_⟩
  · rcases exists_run hat (s.context.gives_referenceOf x) hroom with ⟨o, s', hrun⟩
    exact ⟨o, s', hrun, fun k hk =>
      run_withSteps k (Context.below_referenceOf (hcount ▸ hk) x) hrun⟩
  · rcases exists_run hat (s.context.gives_typeOf ty node) hroom with ⟨t, s', hrun⟩
    exact ⟨t, s', hrun, fun k hk =>
      run_withSteps k (Context.below_typeOf (hcount ▸ hk) ty node) hrun⟩
  · rcases exists_run hat s.context.gives_extract hroom with ⟨u, s', hrun⟩
    refine ⟨s', by rw [extract, hrun]; rfl, fun k hk => ?_⟩
    have hmore := run_withSteps k (Context.below_extract (hcount ▸ hk)) hrun
    exact Outcome.map_eq_ok.2 ⟨(u, s'.withSteps k), hmore, rfl⟩
  · rcases exists_run hat (s.context.gives_extractFile file) hroom with ⟨u, s', hrun⟩
    refine ⟨s', by rw [extractFile, hrun]; rfl, fun k hk => ?_⟩
    have hmore := run_withSteps k (Context.below_extractFile (hcount ▸ hk) file) hrun
    exact Outcome.map_eq_ok.2 ⟨(u, s'.withSteps k), hmore, rfl⟩

end Session

theorem Program.acyclic_sample : Program.sample.Acyclic :=
  acyclic_of_parents_first (by decide +kernel)

/-- The only member of an enumeration is inside the enumeration. -/
theorem Program.membersEnclosed_sample (s : State) : Program.sample.MembersEnclosed s := by
  have hmember : ∀ i < 8, (Program.sample.symbol? ⟨i⟩).all (fun info =>
      info.kind != .enumMember || info.parent == some ⟨3⟩) = true := by
    decide +kernel
  intro x info node hinfo hkind _ _
  have hall := hmember x.index (Program.sample.mem_numbered_of_symbol? hinfo)
  rw [show Program.sample.symbol? ⟨x.index⟩ = some info from hinfo, Option.all_some, hkind] at hall
  -- The enumeration is declared as one, and its type is there.
  refine ⟨⟨3⟩, beq_iff_eq.1 hall, Or.inl ?_⟩
  refine ⟨{ name := "Color", kind := .enum, declarations := [⟨3⟩], parent := some ⟨1⟩ },
    by decide +kernel, Or.inr ⟨{ kind := .enum false, file := ⟨"/p/a.ts"⟩ }, rfl, Or.inr ?_⟩⟩
  decide +kernel

/-- In the sample the class contains itself, and everything comes to an end. -/
theorem Session.questions_answered_sample :
    ∃ s s', Program.sample.Acyclic ∧ Program.sample.MembersEnclosed s.state ∧
      (start .sample {} (Program.sample.enoughSteps {})).performAll Operation.sampleSetup = .ok s ∧
      s.extract = .ok s' ∧ ∀ k, Program.sample.enoughSteps {} ≤ k →
        (s.withSteps k).extract = .ok (s'.withSteps k) := by
  have hsetup : ((start .sample {} (Program.sample.enoughSteps {})).performAll
      Operation.sampleSetup).toOption.any (fun _ => true) = true := by
    decide +kernel
  rcases Outcome.of_any hsetup with ⟨s, hs, _⟩
  have henclosed := Program.membersEnclosed_sample s.state
  rcases (questions_answered .sample {} _ _ s (Nat.le_refl _) hs Program.acyclic_sample
    henclosed).2.2.1 with ⟨s', hextract, hmore⟩
  exact ⟨s, s', Program.acyclic_sample, henclosed, hs, hextract, hmore⟩

/-- An enumeration with two members, a member that is inside the second of them, and a type alias
    for the keys of itself. The first member has the alias as its type, and the alias belongs to the
    member inside the second. -/
def Program.knot : Program where
  symbols := #[
    { info := { name := "a", kind := .sourceFile, declarations := [⟨0⟩] } },
    { info := { name := "E", kind := .enum, declarations := [⟨1⟩] }
      exports := [⟨2⟩, ⟨3⟩], declaredType := some ⟨0⟩ },
    { info := { name := "First", kind := .enumMember, declarations := [⟨2⟩], parent := some ⟨1⟩ } },
    { info := { name := "Second", kind := .enumMember, declarations := [⟨3⟩]
                parent := some ⟨1⟩ } },
    { info := { name := "Inner", kind := .enumMember, declarations := [⟨3⟩], parent := some ⟨3⟩ } },
    { info := { name := "Keys", kind := .typeAlias, declarations := [⟨5⟩] }
      declaredType := some ⟨1⟩ }]
  nodes := #[
    { kind := .sourceFile, file := ⟨"/p/a.ts"⟩ },
    { kind := .enum false, file := ⟨"/p/a.ts"⟩ },
    { kind := .enumMember (some ⟨4⟩), file := ⟨"/p/a.ts"⟩ },
    { kind := .enumMember none, file := ⟨"/p/a.ts"⟩ },
    { kind := .expression, file := ⟨"/p/a.ts"⟩ },
    { kind := .typeAlias [] none, file := ⟨"/p/a.ts"⟩ }]
  types := #[
    { info := { form := .object, symbol := some ⟨1⟩ } },
    { info := { form := .keyOf ⟨1⟩, symbol := some ⟨4⟩ } },
    { info := { form := .object, symbol := some ⟨5⟩ } }]
  files := Table.insert ∅ ⟨"/p/a.ts"⟩ ⟨0⟩
  nodeTypes := Table.insert ∅ ⟨4⟩ ⟨2⟩

/-- Whether the enumeration has been entered and has not come to its second member. -/
def Program.atKnot (u : State) : Bool :=
  !knot.isOutside u.projects ⟨"/p/a.ts"⟩ && u.depth == 0 && u.registry.contains ⟨1⟩ &&
    u.registry.find? ⟨3⟩ == none && u.registry.find? ⟨4⟩ == none

/-- The work on the type of the alias has no end then. -/
theorem Program.knot_endless {ctx : Context} (hctx : ctx.program = knot)
    (hlimit : 0 < ctx.settings.maxTypeDepth) {u : State} (hu : atKnot u = true) (n : Nat)
    (node : Option NodeId) (expanding : Option SymbolId) (t : Trail) :
    ctx.normalize n ⟨1⟩ node expanding u t = .error .endless := by
  simp only [atKnot, Bool.and_eq_true, Bool.not_eq_true', beq_iff_eq] at hu
  rcases hu with ⟨⟨⟨⟨hinside, hdepth⟩, hentered⟩, hsecond⟩, hinner⟩
  -- The enumeration answers, but has not entered the second member.
  rcases (Registry.contains_iff _ _).1 hentered with ⟨ref, href⟩
  have hSecond : Declared ctx.program u.projects ⟨3⟩
      { name := "Second", kind := .enumMember, declarations := [⟨3⟩], parent := some ⟨1⟩ }
      { kind := .enumMember none, file := ⟨"/p/a.ts"⟩ } := by
    rw [hctx]
    exact ⟨by decide +kernel, rfl, rfl, hinside⟩
  have hInner : Declared ctx.program u.projects ⟨4⟩
      { name := "Inner", kind := .enumMember, declarations := [⟨3⟩], parent := some ⟨3⟩ }
      { kind := .enumMember none, file := ⟨"/p/a.ts"⟩ } := by
    rw [hctx]
    exact ⟨by decide +kernel, rfl, rfl, hinside⟩
  -- The second member is refused, so that the depth is lost with the member inside it.
  have hrefuses := Context.refuses_of_entered hSecond rfl hsecond rfl (by rw [hctx]; rfl) href
  have hloses := Context.loses_of_refuses hInner rfl hinner rfl (by rw [hctx]; rfl) hrefuses rfl
  have hadrift : ctx.Adrift u ⟨1⟩ { form := .keyOf ⟨1⟩, symbol := some ⟨4⟩ } :=
    ⟨by rw [hctx]; rfl, rfl, nofun, ⟨4⟩, rfl, by rw [hctx]; rfl, hloses⟩
  have hends := hadrift.normalize_endless rfl (by rw [hctx]; decide +kernel) hlimit n node expanding
    t
  rw [← hdepth] at hends
  exact hends

/-- When the enumeration has come to its second member, all members are enclosed. -/
theorem Program.membersEnclosed_knot {s : State} (henum : s.registry.contains ⟨1⟩ = true)
    (hsecond : s.registry.contains ⟨3⟩ = true) : knot.MembersEnclosed s := by
  have hparents : ∀ i < 6, (knot.symbol? ⟨i⟩).all (fun info =>
      info.kind != .enumMember || info.parent == some ⟨1⟩ || info.parent == some ⟨3⟩) = true := by
    decide +kernel
  intro x info node hinfo hkind _ _
  have hall := hparents x.index (knot.mem_numbered_of_symbol? hinfo)
  rw [show knot.symbol? ⟨x.index⟩ = some info from hinfo, Option.all_some, hkind,
    Bool.or_eq_true] at hall
  rcases hall with hall | hall
  · exact ⟨⟨1⟩, beq_iff_eq.1 hall, Or.inr (Or.inl henum)⟩
  · exact ⟨⟨3⟩, beq_iff_eq.1 hall, Or.inr (Or.inl hsecond)⟩

/-- In the example nothing is inside itself, and every member is inside something that has a
    reference once the alias has been asked for. If the enumeration is asked for before that, the
    question has no end. -/
theorem Session.unmet_member_unanswered :
    ∃ s s', (start .knot {} 900).performAll [.addProject { name := "p", root := ⟨"/p"⟩ }] = .ok s ∧
      Program.knot.Acyclic ∧ s.performAll [.reference ⟨5⟩] = .ok s' ∧
      Program.knot.MembersEnclosed s'.state ∧
      ∀ n, (s.withSteps n).reference ⟨1⟩ = .error .endless := by
  have hrun : ((start .knot {} 900).performAll
      [.addProject { name := "p", root := ⟨"/p"⟩ }]).toOption.any (fun s =>
        (s.performAll [.reference ⟨5⟩]).toOption.any (fun s' =>
          s'.state.registry.contains ⟨1⟩ && s'.state.registry.contains ⟨3⟩) &&
        [.missing, .depthBelowZero].all fun e =>
          ((s.context.step^[3] (Calls.mark ⟨s.context.reference 0, s.context.normalize 0⟩ ⟨1⟩
            Program.atKnot e)).reference ⟨1⟩ s.state (s.state :: s.trail)).failsWith e) = true := by
    decide +kernel
  rcases Outcome.of_any hrun with ⟨s, hs, hrun⟩
  rw [Bool.and_eq_true, List.all_eq_true] at hrun
  rcases Outcome.of_any hrun.1 with ⟨s', hs', hentered⟩
  rw [Bool.and_eq_true] at hentered
  rcases performAll_isAt (isAt_start .knot {} 900) _ hs with ⟨_, hat, hlater⟩
  refine ⟨s, s', hs, Program.acyclic_of_parents_first (by decide +kernel), hs',
    Program.membersEnclosed_knot hentered.1 hentered.2, fun n => ?_⟩
  -- The question for the enumeration comes to the type of the alias, whatever reason is marked.
  have hmark : ∀ e, e ≠ .endless → (s.context.step^[3] (Calls.mark ⟨s.context.reference 0,
      s.context.normalize 0⟩ ⟨1⟩ Program.atKnot e)).reference ⟨1⟩ s.state (s.state :: s.trail) =
        .error e := by
    intro e he
    refine Outcome.of_failsWith (hrun.2 e ?_)
    cases e with
    | endless => exact absurd rfl he
    | depthBelowZero => exact List.mem_cons_of_mem _ List.mem_cons_self
    | missing => exact List.mem_cons_self
  have hlimit : 0 < s.context.settings.maxTypeDepth := by
    rw [hlater.settings]
    decide
  refine Outcome.map_eq_error.2 ?_
  change (s.context.withSteps n).reference n ⟨1⟩ s.state (s.state :: s.trail) = .error .endless
  rw [(s.context.calls_withSteps n n).1]
  exact Context.reference_endless_of_mark hmark
    (fun n node expanding u t hu => Program.knot_endless hat.program hlimit hu n node expanding t) n

end DocModel
