import DocModel.Proofs.Orderly
import DocModel.Proofs.Termination

/-!
# The nesting depth comes back

The depth counts how far a type is nested. It goes up by one on the way into a type and down by one
on the way out, and it is set aside while a declaration is registered. A type that is built leaves
the depth as it was, whatever is asked for in between, and between operations the depth is zero.

Looking up a symbol leaves the depth as it was, with one exception. For a member of an enumeration
the depth is set aside too, and if what is around the member has no reference it is not put back. So
the depth is lost, which leaves it at zero. If that happens inside a type, then the way out of the
type would lead below zero, and there is no type. Where members of enumerations are enclosed, the
depth is never lost and never falls below zero.

## Main definitions

* `Context.KeepsDepth`: An action leaves the depth as it was, unless it is lost.
* `Program.stray`: A program with a member of an enumeration that is in none.

## Theorems

* `Session.depth_zero`: Between operations the depth is zero.
* `Session.run_above_zero`: Where members are enclosed, the depth does not fall below zero.
* `Session.depth_balanced`: Everything leaves the depth as it was, in any run, unless it is lost.
* `Session.depth_lost`: A member that is in no enumeration loses the depth.
-/

namespace DocModel

/-- From every state in order, the action leaves the depth as it was or loses it, which leaves it at
    zero. Where members of enumerations are enclosed it does not lose it. -/
def Context.KeepsDepth {α : Type} (ctx : Context) (act : Action α) : Prop :=
  ∀ s t a s' t', ctx.Grounded s → act s t = .ok ((a, s'), t') →
    (s'.depth = s.depth ∨ s'.depth = 0) ∧ (ctx.program.MembersEnclosed s → s'.depth = s.depth)

namespace Context

variable {ctx : Context} {α : Type} {act : Action α}

/-- What leads from states in order by changes, with the depth that is expected, keeps the depth. -/
theorem keepsDepth_of_keeps (h : ∀ s, ctx.Grounded s →
    Keeps (ctx.From (fun _ _ => True) s s.depth) act fun _ => True) : ctx.KeepsDepth act := by
  intro s t a s' t' hs hrun
  have hfrom := (h s hs).state (.refl s) hrun
  exact ⟨hfrom.depth, hfrom.kept⟩

/-- Looking up a symbol keeps the depth or loses it. -/
theorem keepsDepth_reference (n : Nat) (x : SymbolId) : ctx.KeepsDepth (ctx.reference n x) :=
  keepsDepth_of_keeps fun s hs =>
    From.keeps (((ctx.orderly (Ty.law_true _) n).keep hs s.depth).reference x)

/-- What is done between the way in and the way out. -/
theorem keepsDepth_normalizeType (n : Nat) (ty : TypeId) (node : Option NodeId)
    (expanding : Option SymbolId) :
    ctx.KeepsDepth (Calls.normalizeType ⟨ctx.reference n, ctx.normalize n⟩ ctx.program ty node
      expanding) := by
  -- Nothing is asked of the types.
  refine keepsDepth_of_keeps fun s hs => ?_
  have hkeep := (ctx.orderly (Ty.law_true ctx.settings.maxTypeDepth) n).keep hs s.depth
  exact From.keeps (hkeep.normalizeType ((Ty.law_true 1).layers 0 Nat.zero_lt_one)
    (From.bears_nil s s.depth) ctx.program ty node expanding)

end Context

namespace Session

/-- Between operations the depth is zero. -/
theorem depth_zero (program : Program) (settings : Settings) (steps : Nat) (ops : List Operation)
    (s : Session) (hops : (start program settings steps).performAll ops = .ok s) :
    s.context.program = program ∧ s.context.Grounded s.state ∧ s.state.depth = 0 := by
  have hrun := performAll_induct (fun s => s.context.program = program ∧ s.state.depth = 0) ?_
    (Ty.law_true _) (grounded_start program settings steps) ⟨rfl, rfl⟩ ops hops
  · exact ⟨hrun.2.1, hrun.1, hrun.2.2⟩
  · rintro s s' _ hmoves ⟨hprogram, hzero⟩
    refine ⟨hmoves.program.trans hprogram, ?_⟩
    rcases hmoves.state with hfrom | ⟨project, _, heq⟩
    · -- From depth zero it makes no difference whether the depth is kept or lost.
      rw [hzero] at hfrom
      exact hfrom.depth_zero
    · rw [heq]
      exact hzero

/-- Where members of enumerations are enclosed, the depth does not fall below zero in a run. -/
theorem run_above_zero {α : Type} {s : Session} {m : Moment s.context.program} (h : s.IsAt m)
    {act : Action α} {refs : α → List Reference} {ok : α → Prop}
    (hact : Gives s.context s.context.steps [] [] act refs ok)
    (he : s.context.program.MembersEnclosed s.state) : s.run act ≠ .error .depthBelowZero := by
  intro hrun
  -- The contract of the action says which failures cannot happen where members are enclosed.
  have hnoted := hact m.noted h.opened (List.forall_mem_nil _)
  refine hnoted.fails .depthBelowZero ?_ ?_
  · change act m.state (m.state :: m.trail) = .error .depthBelowZero
    rw [h.state, h.trail]
    exact Outcome.map_eq_error.1 hrun
  · change s.context.program.MembersEnclosed m.state
    rw [h.state]
    exact he

/-- After any run the depth is zero, and whatever can be asked for, from any state in order, at any
    depth and in any number of steps: a type that is built leaves the depth as it was; everything
    else leaves it as it was, or at zero if it is lost, which it is only where a member of an
    enumeration is not enclosed. Where all are, the depth does not fall below zero on the way out of
    a type. -/
theorem depth_balanced (program : Program) (settings : Settings) (steps : Nat)
    (ops : List Operation) (s : Session)
    (hops : (start program settings steps).performAll ops = .ok s) :
    s.state.depth = 0 ∧ (∀ d, s.context.Grounded { s.state with depth := d }) ∧
    (∀ n ty node expanding u t a u' t', s.context.Grounded u →
      s.context.normalize n ty node expanding u t = .ok ((a, u'), t') → u'.depth = u.depth) ∧
    (∀ n x, s.context.KeepsDepth (s.context.reference n x)) ∧
    (∀ n ty node expanding, s.context.KeepsDepth (Calls.normalizeType
      ⟨s.context.reference n, s.context.normalize n⟩ program ty node expanding)) ∧
    s.context.KeepsDepth s.context.extract ∧
    (∀ file, s.context.KeepsDepth (s.context.extractFile file)) ∧
    (program.MembersEnclosed s.state →
      (∀ x, s.reference x ≠ .error .depthBelowZero) ∧
      (∀ ty node, s.normalize ty node ≠ .error .depthBelowZero) ∧
      s.extract ≠ .error .depthBelowZero ∧
      ∀ file, s.extractFile file ≠ .error .depthBelowZero) := by
  rcases depth_zero program settings steps ops s hops with ⟨rfl, hs, hzero⟩
  -- Between operations the session is at a moment, with which the contracts start.
  rcases performAll_isAt (isAt_start _ settings steps) ops hops with ⟨m, hat, _⟩
  refine ⟨hzero, fun d => ⟨hs.trees, hs.located, hs.spaces⟩,
    fun n ty node expanding u t a u' t' hu hrun => ?_, Context.keepsDepth_reference,
    Context.keepsDepth_normalizeType, ?_, fun file => ?_, fun he => ⟨fun x => ?_, fun ty node => ?_,
      fun hrun => ?_, fun file hrun => ?_⟩⟩
  · -- There is a way out of the type, so the depth was not lost in it.
    have horderly := s.context.orderly (Ty.law_true _) n
    exact (horderly.normalize ty node expanding u t a u' t' hu hrun).2.1
  · exact Context.keepsDepth_of_keeps fun u hu =>
      (Context.explores (Ty.law_true _) hu u.depth).extract
  · exact Context.keepsDepth_of_keeps fun u hu =>
      (Context.explores (Ty.law_true _) hu u.depth).extractFile file
  · exact run_above_zero hat (s.context.gives_referenceOf x) he
  · exact run_above_zero hat (s.context.gives_typeOf ty node) he
  · exact run_above_zero hat s.context.gives_extract he (Outcome.map_eq_error.1 hrun)
  · exact run_above_zero hat (s.context.gives_extractFile file) he (Outcome.map_eq_error.1 hrun)

/-- In the sample, a class whose type leads back to the class is looked at from the third level. -/
theorem depth_balanced_sample :
    ∃ s a u t, (start .sample {} 30).performAll (Operation.sampleSetup ++ [.extract]) = .ok s ∧
      s.state.depth = 0 ∧
      s.context.normalize 30 ⟨0⟩ none none { s.state with depth := 3 } s.trail = .ok ((a, u), t) ∧
      u.depth = 3 ∧ s.extract ≠ .error .depthBelowZero := by
  have hrun : ((start .sample {} 30).performAll
      (Operation.sampleSetup ++ [.extract])).toOption.any (fun s =>
        (s.context.normalize 30 ⟨0⟩ none none { s.state with depth := 3 } s.trail).toOption.any
          fun _ => true) = true := by
    decide +kernel
  rcases Outcome.of_any hrun with ⟨s, hs, hrun⟩
  rcases Outcome.of_any hrun with ⟨⟨⟨a, u⟩, t⟩, hnormalize, _⟩
  rcases depth_balanced .sample {} 30 _ s hs with ⟨hzero, hgrounded, hkeeps, _, _, _, _, habove⟩
  exact ⟨s, a, u, t, hs, hzero, hnormalize,
    hkeeps 30 ⟨0⟩ none none _ _ _ _ _ (hgrounded 3) hnormalize,
    (habove (Program.membersEnclosed_sample _)).2.2.1⟩

end Session

/-- A file with a member of an enumeration that is in none, and a type of that member. -/
def Program.stray : Program where
  symbols := #[
    { info := { name := "a", kind := .sourceFile, declarations := [⟨0⟩] } },
    { info := { name := "Red", kind := .enumMember, declarations := [⟨1⟩] } }]
  nodes := #[
    { kind := .sourceFile, file := ⟨"/p/a.ts"⟩ },
    { kind := .enumMember none, file := ⟨"/p/a.ts"⟩ }]
  types := #[{ info := { form := .object, symbol := some ⟨1⟩ } }]
  files := Table.insert ∅ ⟨"/p/a.ts"⟩ ⟨0⟩

/-- A member that is in no enumeration loses the depth: looked up from the first level it leads to
    level zero. So the type of the member is not built, however many steps there are, because the
    way out of it would lead below zero. -/
theorem Session.depth_lost :
    ∃ s u t, (start .stray {} 9).performAll [.addProject { name := "p", root := ⟨"/p"⟩ }] = .ok s ∧
      s.context.reference 9 ⟨1⟩ { s.state with depth := 1 } s.trail = .ok ((none, u), t) ∧
      u.depth = 0 ∧ ∀ k, 9 ≤ k → (s.withSteps k).normalize ⟨0⟩ none = .error .depthBelowZero := by
  -- With nine steps the run is over, and more steps change nothing about it.
  have hrun : ((start .stray {} 9).performAll
      [.addProject { name := "p", root := ⟨"/p"⟩ }]).toOption.any (fun s =>
        (s.normalize ⟨0⟩ none).failsWith .depthBelowZero &&
        (s.context.reference 9 ⟨1⟩ { s.state with depth := 1 } s.trail).toOption.any fun r =>
          r.1.1.isNone && r.1.2.depth == 0) = true := by
    decide +kernel
  rcases Outcome.of_any hrun with ⟨s, hs, hrun⟩
  rw [Bool.and_eq_true] at hrun
  rcases Outcome.of_any hrun.2 with ⟨⟨⟨o, u⟩, t⟩, hreference, hlost⟩
  rw [Bool.and_eq_true, Option.isNone_iff_eq_none, beq_iff_eq] at hlost
  rcases hlost with ⟨rfl, hzero⟩
  rcases performAll_isAt (isAt_start .stray {} 9) _ hs with ⟨_, _, hlater⟩
  refine ⟨s, u, t, hs, hreference, hzero, fun k hk => ?_⟩
  have hsteps : s.context.steps ≤ k := (show s.context.steps = 9 from hlater.steps) ▸ hk
  exact run_withSteps_error k (Context.below_typeOf hsteps ⟨0⟩ none) nofun
    (Outcome.of_failsWith hrun.1)

end DocModel
