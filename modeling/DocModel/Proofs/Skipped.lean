import DocModel.Proofs.DepthFree
import DocModel.Proofs.Placement
import DocModel.Proofs.Stability
import DocModel.Proofs.Termination

/-!
# Symbols that are passed over

Some symbols have no reference, whatever is done: a symbol that leads nowhere, one without a
declaration, and one whose declaration in the analysed sources cannot be registered. A question for
such a symbol is not remembered, so it is put again whenever the symbol comes up, in the middle of
other work too. The answer could depend on what has been done by then. It does not.

In one direction this is known of every moment: where there is no answer, the symbol has no
reference to begin with. The other direction is about what was entered earlier, since a symbol that
has been entered is answered without another look at it. With the roots of the projects fixed,
nothing is entered but what is found to have a reference, so that is a guard which every part of an
extraction keeps.

Members of enumerations are left out: what is answered for a member depends on how far its
enumeration has been built. There may also be no answer at all. Before a symbol is passed over, the
namespace around it is registered with all that it exports, and a type in there may belong to a
member with which the nesting depth is lost.

## Main definitions

* `NodeKind.sort?`: The sort of symbols that a node is the declaration of.
* `Program.Unfit`: A declaration of the analysed sources cannot be registered.
* `Program.IsSkipped`: A symbol is passed over.
* `Program.Sparing`: Nothing has a reference that should be passed over.
* `Program.waylaid`: A program in which the question for a property leads to a stray member.

## Theorems

* `Program.unfit_iff`, `Program.isSkipped_iff`: What is passed over is what has no reference.
* `Program.endures_sparing`: Nothing else gets one.
* `Context.reference_answered`, `Context.reference_returns`: Questions at any state of which there
  is an account.
* `Session.skips_by_program`: Whether a symbol is passed over is decided by the program.
* `Session.skipped_unanswered`: A symbol that should be passed over, and the question has no answer.
-/

namespace DocModel

/-- The sort of symbols that a node is the declaration of, where the sorts have to agree. -/
def NodeKind.sort? : NodeKind → Option SymbolKind
  | .classNode .. => some .classType
  | .interface .. => some .interface
  | .enum _ => some .enum
  | .typeAlias .. => some .typeAlias
  | .function => some .function
  | .binding .. => some .binding
  | _ => none

namespace Program

/-- A declaration of the analysed sources cannot be registered: it is of another sort than its
    symbol, or the type that is needed is missing, or symbols of the sort are never registered. -/
def Unfit (p : Program) (x : SymbolId) (info : SymbolInfo) (node : NodeInfo) : Prop :=
  match info.kind with
  | .classType | .interface | .enum | .typeAlias =>
    node.kind.sort? ≠ some info.kind ∨ p.declaredType? x = none
  | .function =>
    node.kind.sort? ≠ some .function ∨ p.valueType? x = none ∨
      ∃ ty, p.valueType? x = some ty ∧ p.callSignatures ty = []
  | .binding => node.kind.sort? ≠ some .binding ∨ p.valueType? x = none
  | .link | .property | .method | .accessor | .parameter | .typeLiteral | .other => True
  | .enumMember | .typeParameter | .namespaceScope | .sourceFile => False

/-- A symbol is passed over: what it stands for is unknown; or it is no type parameter and has no
    declaration; or its first declaration is in the analysed sources and cannot be registered. -/
def IsSkipped (p : Program) (projects : List Project) (x : SymbolId) : Prop :=
  p.symbol? (p.resolveAlias x) = none ∨
    ∃ info, p.symbol? (p.resolveAlias x) = some info ∧ info.kind ≠ .typeParameter ∧
      (p.declarationOf? info = none ∨ ∃ node, p.declarationOf? info = some node ∧
        p.isOutside projects node.file = false ∧ p.Unfit (p.resolveAlias x) info node)

variable {p : Program}

/-- A declaration that cannot be registered is one that is not registrable. -/
theorem unfit_iff {x : SymbolId} {info : SymbolInfo} {node : NodeInfo}
    (hmember : info.kind ≠ .enumMember) (hparameter : info.kind ≠ .typeParameter) :
    p.Unfit x info node ↔ p.isRegistrable x info node = false := by
  unfold Unfit isRegistrable
  -- Each sort has its own condition, on the node and on the type.
  cases hkind : info.kind with
  | enumMember => exact absurd hkind hmember
  | typeParameter => exact absurd hkind hparameter
  | classType | interface | enum | typeAlias | binding =>
      cases node.kind <;> simp [NodeKind.sort?]
  | function => cases node.kind <;> cases p.valueType? x <;> simp [NodeKind.sort?]
  | _ => simp

/-- What is passed over is what has no reference. -/
theorem isSkipped_iff {projects : List Project} {x : SymbolId} (hx : p.IsPlain x) :
    p.IsSkipped projects x ↔ ¬ p.HasReference projects x := by
  unfold IsSkipped HasReference
  cases hinfo : p.symbol? (p.resolveAlias x) with
  | none => simp only [reduceCtorEq, false_and, exists_false, not_false_eq_true, true_or]
  | some info =>
      -- A plain symbol does not stand for a member.
      have hmember : info.kind ≠ .enumMember := by
        have hplain := hx.2
        rw [isEnumMember_of_symbol? hinfo, beq_eq_false_iff_ne] at hplain
        exact hplain
      simp only [reduceCtorEq, false_or, Option.some.injEq, exists_eq_left', not_or, not_exists,
        not_and]
      refine and_congr_right fun hparameter => ?_
      cases hnode : p.declarationOf? info with
      | none => simp only [reduceCtorEq, true_or, false_implies, implies_true]
      | some node =>
          simp only [reduceCtorEq, false_or, Option.some.injEq, exists_eq_left', forall_eq',
            unfit_iff hmember hparameter, Bool.not_eq_true]

/-- The projects have the given roots, and what has a reference is not to be passed over. -/
structure Sparing (p : Program) (projects : List Project) (s : State) : Prop where
  roots : s.projects.map (·.baseDir) = projects.map (·.baseDir)
  entered : ∀ x, p.IsPlain x → s.registry.contains x = true → p.HasReference projects x

/-- Since a session, all states were sparing. -/
def sparingSince (p : Program) (since : Session) : Guard where
  holds s t := ∃ more, t = more ++ since.trail ∧ ∀ u ∈ s :: more, p.Sparing since.state.projects u

/-- Whatever leads from a sparing state to a sparing one keeps the guard. -/
theorem sparingSince_of_sparing {since : Session} {s s' : State} {t : Trail}
    (hs : (p.sparingSince since).holds s t)
    (h : p.Sparing since.state.projects s → p.Sparing since.state.projects s') :
    (p.sparingSince since).holds s' t := by
  rcases hs with ⟨more, rfl, hall⟩
  refine ⟨more, rfl, fun u hu => ?_⟩
  rcases List.mem_cons.1 hu with rfl | hu
  · exact h (hall s List.mem_cons_self)
  · exact hall u (List.mem_cons_of_mem _ hu)

/-- The state in which a guard is met is sparing. -/
theorem sparing_of_holds {since : Session} {s : State} {t : Trail}
    (hs : (p.sparingSince since).holds s t) : p.Sparing since.state.projects s := by
  rcases hs with ⟨_, _, hall⟩
  exact hall s List.mem_cons_self

/-- A reference may be entered for what is not to be passed over. -/
theorem Sparing.insert {projects : List Project} {s : State} (hs : p.Sparing projects s)
    {r : Registry} (hr : ∀ y, r.contains y = true → s.registry.contains y = true) {x : SymbolId}
    (hx : p.IsPlain x → p.HasReference projects x) (ref : Reference) :
    p.Sparing projects { s with registry := r.insert x ref } := by
  refine ⟨hs.roots, fun y hy hc => ?_⟩
  rcases (Registry.contains_insert _ _ _ _).1 hc with rfl | hc
  · exact hx hy
  · exact hs.entered y hy (hr y hc)

theorem exportFree_sparing (since : Session) : (p.sparingSince since).ExportFree :=
  fun _ _ _ hs hregistry hroots => sparingSince_of_sparing hs fun h =>
    ⟨hroots.trans h.roots, fun x hx hc => h.entered x hx (hregistry ▸ hc)⟩

/-- Nothing is entered but what has a reference by the program. -/
theorem endures_sparing (since : Session) : (p.sparingSince since).Endures p fun _ => False where
  note := by
    rintro s t ⟨more, rfl, hall⟩
    refine ⟨s :: more, rfl, fun u hu => ?_⟩
    rcases List.mem_cons.1 hu with rfl | hu
    · exact hall u List.mem_cons_self
    · exact hall u hu
  aside := (exportFree_sparing since).aside
  mint := fun s t name kind hs => sparingSince_of_sparing hs fun h =>
    ⟨h.roots, fun x hx hc => h.entered x hx hc⟩
  own := by
    intro s t x ref hs hready _ _
    refine sparingSince_of_sparing hs fun h =>
      h.insert (r := (s.registry.mint ref.name ref.kind).2) (fun _ hc => hc) (fun _ => ?_) ref
    -- It was entered because it has a reference, which depends on the roots of projects alone.
    rcases hready.hasReference with ⟨s₁, t₁, hs₁, hx⟩
    exact (HasReference.congr (sparing_of_holds hs₁).roots x).1 hx
  outer := by
    intro s t x ref hs _ hmember _
    refine sparingSince_of_sparing hs fun h => h.insert (fun _ hc => hc) (fun hx => ?_) ref
    exact absurd hmember (by rw [hx.1]; exact Bool.false_ne_true)
  member := by
    intro s t x owner ref hs _ _ _ hmember
    refine sparingSince_of_sparing hs fun h => h.insert (fun _ hc => hc) (fun hx => ?_) ref
    exact absurd hmember (by rw [hx.1]; exact Bool.false_ne_true)
  link := by
    intro s t x ref hs _ _ hseen
    refine sparingSince_of_sparing hs fun h => h.insert (fun _ hc => hc) (fun hx => ?_) ref
    -- What the symbol stands for was entered before.
    rcases hseen with ⟨s₁, t₁, hs₁, hc⟩
    rw [← p.hasReference_resolveAlias]
    exact (sparing_of_holds hs₁).entered _ hx.own.isPlain hc

end Program

namespace Context

variable {ctx : Context} {n : Nat} {x : SymbolId} {t : Trail}

theorem keep_sparing (ctx : Context) (since : Session) (n : Nat) :
    Calls.Keep ⟨ctx.reference n, ctx.normalize n⟩ (ctx.program.sparingSince since) fun _ => True :=
  (Program.endures_sparing since).keep (fun _ _ h => h.elim) n

/-- What is answered at a state of which there is an account, whatever is on the trail. -/
theorem reference_answered (a : Account ctx.program) {o : Option Reference} {s' : State}
    {t' : Trail} (hrun : ctx.reference n x a.state t = .ok ((o, s'), t')) :
    ∃ m' : Moment ctx.program, m'.state = s' ∧ Answered ctx x a.moment o m' := by
  rcases (ctx.blind_reference n x).exists_run hrun [] with ⟨t'', hrun'⟩
  rcases ((ctx.sound n).reference x a.moment).holds _ _ _ hrun' with ⟨m', hstate, _, hanswered⟩
  exact ⟨m', hstate, hanswered⟩

/-- A question is answered there, if the steps are enough for it. -/
theorem reference_returns (a : Account ctx.program)
    (hsteps : ctx.program.enoughSteps ctx.settings ≤ n) (hacyclic : ctx.program.Acyclic)
    (henclosed : ctx.program.MembersEnclosed a.state) :
    ∃ o s' t', ctx.reference n x a.state t = .ok ((o, s'), t') := by
  -- Enough steps make room for any symbol.
  have hroom := ctx.room_of_enoughSteps a.moment hsteps hacyclic henclosed
  rcases ((ctx.sound n).reference x a.moment).returns
    (Averted.of_room (hroom.roomFor x) henclosed) with ⟨⟨⟨o, s'⟩, t'⟩, hrun⟩
  rcases (ctx.blind_reference n x).exists_run hrun t with ⟨t'', hrun'⟩
  exact ⟨o, s', t'', hrun'⟩

end Context

namespace Session

/-- As long as nothing is asked for, nothing plain is on the trail, because nothing is entered. -/
theorem sparing_of_quiet (program : Program) (settings : Settings) (steps : Nat)
    (ops : List Operation) (hops : ∀ op ∈ ops, op.asks = false) {s : Session}
    (hrun : (start program settings steps).performAll ops = .ok s) :
    (program.sparingSince s).holds s.state s.trail := by
  rcases performAll_quiet (grounded_start program settings steps) ops hops hrun with
    ⟨_, hregistry, _⟩
  refine ⟨[], rfl, fun u hu => ?_⟩
  rw [List.mem_singleton.1 hu]
  refine ⟨rfl, fun x _ hc => ?_⟩
  rw [hregistry] at hc
  exact nomatch hc

/-- If all projects are added before the first question, then at any state from then on, also in
    the middle of a registration, a question for a symbol gives no reference exactly if the symbol
    is passed over, by the program and the projects as they were before anything was asked for.
    Every such question is answered, in steps that are enough, where nothing contains itself and
    members of enumerations are enclosed. Questions for members are left out. -/
theorem skips_by_program (program : Program) (settings : Settings) (steps : Nat)
    (before after : List Operation) (s₀ s : Session)
    (hquiet : ∀ op ∈ before, op.asks = false) (hclosed : ∀ op ∈ after, op.addsProject = false)
    (hbefore : (start program settings steps).performAll before = .ok s₀)
    (hafter : s₀.performAll after = .ok s) :
    ∃ more, s.trail = more ++ s₀.trail ∧
      ∀ u ∈ s.state :: more, ∀ ctx : Context, ctx.program = program →
        ∀ n x t, program.IsPlain x →
          (∀ o u' t', ctx.reference n x u t = .ok ((o, u'), t') →
            (o = none ↔ program.IsSkipped s₀.state.projects x)) ∧
          (program.enoughSteps ctx.settings ≤ n → program.Acyclic →
            program.MembersEnclosed u →
              ∃ o u' t', ctx.reference n x u t = .ok ((o, u'), t')) := by
  rcases performAll_isAt (isAt_start program settings steps) before hbefore with ⟨m₀, hat₀, _⟩
  rcases performAll_isAt hat₀ after hafter with ⟨m, hat, _⟩
  have hholds := performAll_keep (Program.endures_sparing s₀) (Program.exportFree_sparing s₀)
    (fun ctx hctx => hctx ▸ ctx.keep_sparing s₀ ctx.steps) hat₀.program after hclosed
    (sparing_of_quiet program settings steps before hquiet hbefore) hafter
  -- All states since then are sparing, also those on the trail.
  rcases hholds with ⟨more, htrail, hsparing⟩
  refine ⟨more, htrail, fun u hu ctx hctx n x t hx => ?_⟩
  subst hctx
  have hmem : u ∈ s.state :: s.trail := by
    rw [htrail, ← List.cons_append]
    exact List.mem_append_left _ hu
  rcases hat.exists_account u hmem with ⟨a, rfl⟩
  have hroots := (hsparing a.state hu).roots
  refine ⟨fun o u' t' hrun => ?_, Context.reference_returns a⟩
  · rw [Program.isSkipped_iff hx]
    rcases Context.reference_answered a hrun with ⟨m', rfl, hanswered⟩
    cases o with
    | none =>
        refine iff_of_true rfl fun hreference => hanswered.not_hasReference rfl ?_
        exact (Program.HasReference.congr hroots x).2 hreference
    | some ref =>
        refine iff_of_false (Option.some_ne_none ref) (not_not_intro ?_)
        -- The symbol is entered by now, and what is entered is not to be passed over.
        have hentered := hanswered.contains_of_some ref rfl
        rcases (ctx.blind_reference n x).exists_run hrun s₀.trail with ⟨t₁, hrun₁⟩
        have hholds : (ctx.program.sparingSince s₀).holds a.state s₀.trail :=
          ⟨[], rfl, fun u' hu' => List.mem_singleton.1 hu' ▸ hsparing a.state hu⟩
        have hkept := ((ctx.keep_sparing s₀ n).reference x).holds _ _ _ _ _ hholds hrun₁
        exact (Program.sparing_of_holds hkept.1).entered x hx hentered

/-- In the sample, a property of the class is passed over while the class is being built, when its
    reference is entered and the enumeration that it needs has none yet. -/
theorem skips_by_program_sample :
    ∃ s₀ s u u' t', (start .sample {} 30).performAll Operation.sampleSetup = .ok s₀ ∧
      s₀.performAll [.extract] = .ok s ∧ u ∈ s.trail ∧
      u.registry.contains ⟨2⟩ = true ∧ u.registry.contains ⟨3⟩ = false ∧
      Program.sample.IsSkipped s₀.state.projects ⟨5⟩ ∧
      s₀.context.reference (Program.sample.enoughSteps {}) ⟨5⟩ u [] = .ok ((none, u'), t') := by
  have hrun : ((start .sample {} 30).performAll Operation.sampleSetup).toOption.any (fun s₀ =>
      s₀.trail.isEmpty && !Program.sample.isOutside s₀.state.projects ⟨"/p/a.ts"⟩ &&
      (s₀.performAll [.extract]).toOption.any fun s => s.trail.any fun u =>
        u.registry.contains ⟨2⟩ && !u.registry.contains ⟨3⟩) = true := by
    decide +kernel
  rcases Outcome.of_any hrun with ⟨s₀, hbefore, hrun⟩
  rw [Bool.and_eq_true, Bool.and_eq_true, Bool.not_eq_true'] at hrun
  rcases hrun with ⟨⟨hempty, hinside⟩, hrun⟩
  rcases Outcome.of_any hrun with ⟨s, hafter, hrun⟩
  rcases List.any_eq_true.1 hrun with ⟨u, hu, hrun⟩
  rw [Bool.and_eq_true, Bool.not_eq_true'] at hrun
  -- It is a property of a class in the analysed sources.
  have hskipped : Program.sample.IsSkipped s₀.state.projects ⟨5⟩ :=
    Or.inr ⟨_, rfl, by decide, Or.inr ⟨_, rfl, hinside, trivial⟩⟩
  rcases skips_by_program .sample {} 30 Operation.sampleSetup [.extract] s₀ s (by decide)
    (by decide) hbefore hafter with ⟨more, htrail, hskips⟩
  rw [List.isEmpty_iff.1 hempty, List.append_nil] at htrail
  have hplain : Program.sample.IsPlain ⟨5⟩ := ⟨by decide +kernel, by decide +kernel⟩
  rcases performAll_isAt (isAt_start .sample {} 30) _ hbefore with ⟨_, hat₀, hlater₀⟩
  rcases hskips u (List.mem_cons_of_mem _ (htrail ▸ hu)) s₀.context hat₀.program
    (Program.sample.enoughSteps {}) ⟨5⟩ [] hplain with ⟨hdecided, hreturns⟩
  rw [hlater₀.settings] at hreturns
  rcases hreturns (Nat.le_refl _) Program.acyclic_sample (Program.membersEnclosed_sample _) with
    ⟨o, u', t', hreference⟩
  have ho : o = none := (hdecided o u' t' hreference).2 hskipped
  rw [ho] at hreference
  exact ⟨s₀, s, u, u', t', hbefore, hafter, hu, hrun.1, hrun.2, hskipped, hreference⟩

end Session

/-- A namespace with a type alias and a property, where the alias stands for the type of a member of
    an enumeration that is inside nothing. -/
def Program.waylaid : Program where
  symbols := #[
    { info := { name := "a", kind := .sourceFile, declarations := [⟨0⟩] } },
    { info := { name := "N", kind := .namespaceScope, declarations := [⟨1⟩] }, exports := [⟨2⟩] },
    { info := { name := "A", kind := .typeAlias, declarations := [⟨2⟩], parent := some ⟨1⟩ }
      declaredType := some ⟨0⟩ },
    { info := { name := "Red", kind := .enumMember, declarations := [⟨3⟩] } },
    { info := { name := "size", kind := .property, declarations := [⟨4⟩], parent := some ⟨1⟩ } }]
  nodes := #[
    { kind := .sourceFile, file := ⟨"/p/a.ts"⟩ },
    { kind := .namespaceScope, file := ⟨"/p/a.ts"⟩ },
    { kind := .typeAlias [] none, file := ⟨"/p/a.ts"⟩ },
    { kind := .enumMember none, file := ⟨"/p/a.ts"⟩ },
    { kind := .other, file := ⟨"/p/a.ts"⟩ }]
  types := #[{ info := { form := .object, symbol := some ⟨3⟩ } }]
  files := Table.insert ∅ ⟨"/p/a.ts"⟩ ⟨0⟩

/-- The property is one to be passed over, and nothing is inside itself. But the question for it
    leads to the namespace around it, to the alias, and to the type with which the depth is lost, so
    that it has no answer in any number of steps. -/
theorem Session.skipped_unanswered :
    ∃ s, (start .waylaid {} 20).performAll [.addProject { name := "p", root := ⟨"/p"⟩ }] = .ok s ∧
      Program.waylaid.Acyclic ∧ Program.waylaid.IsPlain ⟨4⟩ ∧
      Program.waylaid.IsSkipped s.state.projects ⟨4⟩ ∧
      ∀ k, 20 ≤ k → (s.withSteps k).reference ⟨4⟩ = .error .depthBelowZero := by
  have hrun : ((start .waylaid {} 20).performAll
      [.addProject { name := "p", root := ⟨"/p"⟩ }]).toOption.any (fun s =>
        !Program.waylaid.isOutside s.state.projects ⟨"/p/a.ts"⟩ &&
        (s.reference ⟨4⟩).failsWith .depthBelowZero) = true := by
    decide +kernel
  rcases Outcome.of_any hrun with ⟨s, hs, hrun⟩
  rw [Bool.and_eq_true, Bool.not_eq_true'] at hrun
  rcases performAll_isAt (isAt_start .waylaid {} 20) _ hs with ⟨_, _, hlater⟩
  refine ⟨s, hs, Program.acyclic_of_parents_first (by decide +kernel),
    ⟨by decide +kernel, by decide +kernel⟩,
    Or.inr ⟨_, rfl, by decide, Or.inr ⟨_, rfl, hrun.1, trivial⟩⟩, fun k hk => ?_⟩
  -- More steps do not change the failure.
  have hsteps : s.context.steps ≤ k := (show s.context.steps = 20 from hlater.steps) ▸ hk
  exact run_withSteps_error k (Context.below_referenceOf hsteps ⟨4⟩) nofun
    (Outcome.of_failsWith hrun.2)

end DocModel
