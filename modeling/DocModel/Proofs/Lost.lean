import DocModel.Proofs.Lookup
import DocModel.Proofs.Steps

/-!
# Where the nesting depth is lost

A member of an enumeration is registered with the enumeration. If it is asked for before that, what
is around it is asked for in its place, with the nesting depth set aside; and if there is no
reference for what is around it, the depth is not put back. The member may be inside nothing. It may
also be inside a member of another enumeration, and be asked for while that enumeration is built and
has not come to the other member yet.

A type that belongs to such a member is built from depth zero then, and the way out of it would lead
below zero. So there is no such type. If it contains itself, the limit of the settings does not stop
the work, because the count starts again with each level, and the work has no end.

A question that is put in the middle of other work decides over that work. To see that a run comes
to a question, the question is marked: it fails for a reason of its own, and the run fails for that
reason. If the question has no end, then neither has the run.

## Main definitions

* `Context.Refuses`: Asking for a symbol gives nothing, and changes nothing but the depth.
* `Context.Loses`: Asking for a symbol gives nothing, and the depth is lost.
* `Context.Adrift`: A type belongs to a symbol with which the depth is lost.
* `Calls.mark`: The operations with a mark on one type.

## Theorems

* `Context.loses_of_alone`, `Context.loses_of_refuses`, `Context.refuses_of_entered`: Members.
* `Context.Adrift.normalize_fails`: A type of such a member is not built, in any number of steps.
* `Context.Adrift.normalize_endless`: If it contains itself, the work has no end.
* `Context.reference_endless_of_mark`: What comes to a question that has no end has none.
-/

namespace DocModel

namespace Calls

variable {calls : Calls} {ctx : Context} {s : State} {x y : SymbolId} {info : SymbolInfo}
  {node : NodeInfo}

/-- A member that has no reference, and is not inside a namespace, is asked for by asking for what
    is around it. -/
theorem referenceStep_member (hx : Declared ctx.program s.projects x info node)
    (hkind : info.kind = .enumMember) (hnone : s.registry.find? x = none)
    (hspace : ∀ y, info.parent = some y → ctx.program.isNamespace y = false) (t : Trail) :
    calls.referenceStep ctx x s t = calls.enumMemberReference? x info s t := by
  -- There is no namespace around it to be asked for first.
  have houtside : calls.registerEnclosing? ctx x info s t = .ok ((none, s), t) := by
    unfold registerEnclosing?
    cases hparent : info.parent with
    | none => rfl
    | some y =>
        simp only [Action.get_bind, hspace y hparent, Bool.and_false, Bool.false_eq_true, if_false]
        rfl
  rw [referenceStep, Action.entered?_bind, hnone]
  simp only [if_pos hx.resolved, hx.symbol]
  unfold resolveSymbol
  simp only [hkind, reduceCtorEq, if_false, hx.declaration, Action.get_bind]
  rw [isExternalFile_eq, hx.inside, if_neg Bool.false_ne_true, Action.bind_apply, houtside]
  change calls.registerSymbol ctx x info node s t = _
  rw [registerSymbol, if_pos hkind]

end Calls

namespace Context

variable (ctx : Context)

/-- Asking for a symbol gives nothing, from any depth and in any number of steps, and changes
    nothing but the depth. There may be too few steps for it. -/
def Refuses (s : State) (x : SymbolId) (after : Nat → Nat) : Prop :=
  ∀ n d t, ctx.reference n x { s with depth := d } t = .error .endless ∨
    ∃ t', ctx.reference n x { s with depth := d } t =
      .ok ((none, { s with depth := after d }), t')

/-- Asking for a symbol gives nothing, and the depth is lost. -/
def Loses (s : State) (x : SymbolId) : Prop := ctx.Refuses s x fun _ => 0

variable {ctx} {s : State} {x y : SymbolId} {info : SymbolInfo} {node : NodeInfo}

/-- It is enough to know what asking for what is around a member comes to. -/
theorem refuses_of_member {after : Nat → Nat} (hx : Declared ctx.program s.projects x info node)
    (hkind : info.kind = .enumMember) (hnone : s.registry.find? x = none)
    (hspace : ∀ y, info.parent = some y → ctx.program.isNamespace y = false)
    (hasked : ∀ n d t, Calls.enumMemberReference? ⟨ctx.reference n, ctx.normalize n⟩ x info
        { s with depth := d } t = .error .endless ∨
      ∃ t', Calls.enumMemberReference? ⟨ctx.reference n, ctx.normalize n⟩ x info
        { s with depth := d } t = .ok ((none, { s with depth := after d }), t')) :
    ctx.Refuses s x after := by
  intro n d t
  cases n with
  | zero => exact Or.inl rfl
  | succ n =>
      have hstep : ctx.reference (n + 1) x { s with depth := d } t =
          Calls.enumMemberReference? ⟨ctx.reference n, ctx.normalize n⟩ x info { s with depth := d }
            ({ s with depth := d } :: t) := by
        rw [reference]
        exact Calls.referenceStep_member (s := { s with depth := d }) hx hkind hnone hspace _
      rw [hstep]
      exact hasked n d _

/-- With a member that is inside nothing the depth is lost. -/
theorem loses_of_alone (hx : Declared ctx.program s.projects x info node)
    (hkind : info.kind = .enumMember) (hnone : s.registry.find? x = none)
    (hparent : info.parent = none) : ctx.Loses s x := by
  refine refuses_of_member hx hkind hnone (fun y hy => ?_) fun n d t => Or.inr ⟨t, ?_⟩
  · rw [hparent] at hy
    exact nomatch hy
  · rw [Calls.enumMemberReference?, Action.takeDepth_bind, hparent]
    rfl

/-- So it is with a member that is inside something that there is no reference for. -/
theorem loses_of_refuses {after : Nat → Nat} (hx : Declared ctx.program s.projects x info node)
    (hkind : info.kind = .enumMember) (hnone : s.registry.find? x = none)
    (hparent : info.parent = some y) (hspace : ctx.program.isNamespace y = false)
    (hy : ctx.Refuses s y after) (hafter : after 0 = 0) : ctx.Loses s x := by
  refine refuses_of_member hx hkind hnone (fun z hz => ?_) fun n d t => ?_
  · rw [hparent, Option.some.injEq] at hz
    rw [← hz]
    exact hspace
  · -- The depth is set aside, and is put back only behind an answer.
    rw [Calls.enumMemberReference?, Action.takeDepth_bind]
    simp only [hparent]
    refine (hy n 0 t).imp Action.bind_of_error ?_
    rintro ⟨t', hrun⟩
    rw [hafter] at hrun
    exact ⟨t', by rw [Action.bind_apply, hrun]; rfl⟩

/-- A member that its enumeration has not come to is refused, and the depth is put back. -/
theorem refuses_of_entered {ref : Reference} (hx : Declared ctx.program s.projects x info node)
    (hkind : info.kind = .enumMember) (hnone : s.registry.find? x = none)
    (hparent : info.parent = some y) (hspace : ctx.program.isNamespace y = false)
    (hy : s.registry.find? y = some ref) : ctx.Refuses s x id := by
  refine refuses_of_member hx hkind hnone (fun z hz => ?_) fun n d t => ?_
  · rw [hparent, Option.some.injEq] at hz
    rw [← hz]
    exact hspace
  · rw [Calls.enumMemberReference?, Action.takeDepth_bind]
    simp only [hparent]
    cases n with
    | zero => exact Or.inl rfl
    | succ n =>
        -- The enumeration is found at once, and the member is not.
        have hfound : ctx.reference (n + 1) y { s with depth := 0 } t =
            .ok ((some ref, { s with depth := 0 }), { s with depth := 0 } :: t) := by
          rw [reference]
          change Calls.referenceStep _ ctx y _ _ = _
          rw [Calls.referenceStep, Action.entered?_bind, hy]
          rfl
        refine Or.inr ⟨{ s with depth := 0 } :: t, ?_⟩
        rw [Action.bind_apply, hfound]
        change Except.ok ((s.registry.find? x, { s with depth := d }), _) = _
        rw [hnone]
        rfl

/-- A type belongs to a symbol with which the depth is lost. It is known under no other name, and
    is no list. -/
structure Adrift (ctx : Context) (s : State) (ty : TypeId) (info : TypeInfo) : Prop where
  typeInfo : ctx.program.typeInfo? ty = some info
  unwritten : info.writtenAs = none
  noList : ∀ element, info.form ≠ .array element
  owner : ∃ x, info.symbol = some x ∧
    (ctx.program.symbol? x).any (·.kind.isDeclaration) = true ∧ ctx.Loses s x

namespace Adrift

variable {ty : TypeId} {info : TypeInfo} {d : Nat}

/-- Such a type is built by its structure, from depth zero. -/
theorem normalizeType_eq (h : ctx.Adrift s ty info) (n d : Nat) (node : Option NodeId)
    (expanding : Option SymbolId) (t : Trail) :
    Calls.normalizeType ⟨ctx.reference n, ctx.normalize n⟩ ctx.program ty node expanding
        { s with depth := d } t = .error .endless ∨
      ∃ t', Calls.normalizeType ⟨ctx.reference n, ctx.normalize n⟩ ctx.program ty node expanding
          { s with depth := d } t =
        Calls.normalizeStructure ⟨ctx.reference n, ctx.normalize n⟩ ctx.program ty info
          { s with depth := 0 } t' := by
  rcases h.owner with ⟨x, hx, hdeclaration, hloses⟩
  generalize hcalls : Calls.mk (ctx.reference n) (ctx.normalize n) = calls
  -- There is no other name to be found.
  have halias : calls.writtenAlias? info expanding = pure none := by
    rw [Calls.writtenAlias?, h.unwritten]
  have hwritten : calls.writtenReference? ctx.program info node = pure none := by
    rw [Calls.writtenReference?, hx]
  have htype : calls.normalizeType ctx.program ty node expanding =
      calls.owningReference? ctx.program ty info >>= fun o =>
        o.elim (calls.normalizeStructure ctx.program ty info) pure := by
    rw [Calls.normalizeType, h.typeInfo]
    simp only [halias, hwritten, pure_bind]
    cases hform : info.form with
    | array element => exact absurd hform (h.noList element)
    | _ => exact bind_congr fun o => by cases o <;> rfl
  have hasked : calls.reference x { s with depth := d } t = .error .endless ∨
      ∃ t', calls.reference x { s with depth := d } t =
        .ok ((none, { s with depth := 0 }), t') := by
    rw [← hcalls]
    exact hloses n d t
  rw [htype, Calls.owningReference?, hx]
  simp only [hdeclaration, if_true, bind_assoc]
  refine hasked.imp Action.bind_of_error ?_
  rintro ⟨t', hrun⟩
  exact ⟨t', by rw [Action.bind_apply, hrun]; rfl⟩

/-- After that there is the way out of it. -/
theorem normalize_eq (h : ctx.Adrift s ty info) (hd : d < ctx.settings.maxTypeDepth) (n : Nat)
    (node : Option NodeId) (expanding : Option SymbolId) (t : Trail) :
    ctx.normalize (n + 1) ty node expanding { s with depth := d } t = .error .endless ∨
      ∃ t', ctx.normalize (n + 1) ty node expanding { s with depth := d } t =
        (Calls.normalizeStructure ⟨ctx.reference n, ctx.normalize n⟩ ctx.program ty info >>=
          fun a => Action.ascend >>= fun _ => pure a) { s with depth := 0 } t' := by
  have hstep : ctx.normalize (n + 1) ty node expanding { s with depth := d } t =
      (Calls.normalizeType ⟨ctx.reference n, ctx.normalize n⟩ ctx.program ty node expanding >>=
        fun a => Action.ascend >>= fun _ => pure a) { s with depth := d + 1 }
          ({ s with depth := d } :: t) := by
    rw [normalize]
    change Calls.normalizeStep _ ctx ty node expanding _ _ = _
    rw [Calls.normalizeStep, Action.get_bind, if_neg (Nat.not_le.2 hd)]
    rfl
  rw [hstep]
  refine (h.normalizeType_eq n (d + 1) node expanding _).imp Action.bind_of_error ?_
  rintro ⟨t', heq⟩
  exact ⟨t', by rw [Action.bind_apply, Action.bind_apply, heq]⟩

/-- There is no such type, in any number of steps. -/
theorem normalize_fails (h : ctx.Adrift s ty info) (hs : ctx.Grounded s)
    (hd : d < ctx.settings.maxTypeDepth) (n : Nat) (node : Option NodeId)
    (expanding : Option SymbolId) (t : Trail) :
    ∃ e, ctx.normalize n ty node expanding { s with depth := d } t = .error e := by
  cases n with
  | zero => exact ⟨.endless, rfl⟩
  | succ n =>
      rcases h.normalize_eq hd n node expanding t with hends | ⟨t', heq⟩
      · exact ⟨.endless, hends⟩
      · rw [heq, Action.bind_apply]
        cases hrun : Calls.normalizeStructure ⟨ctx.reference n, ctx.normalize n⟩ ctx.program ty info
            { s with depth := 0 } t' with
        | error e => exact ⟨e, rfl⟩
        | ok r =>
            -- From depth zero the structure leads to depth zero, and there is no way out.
            have hs₀ : ctx.Grounded { s with depth := 0 } := ⟨hs.trees, hs.located, hs.spaces⟩
            have hkeep := (ctx.orderly (Ty.law_true ctx.settings.maxTypeDepth) n).keep hs₀ 0
            have hfrom := (From.keeps (hkeep.normalizeStructure
              ((Ty.law_true 1).layers 0 Nat.zero_lt_one) (From.bears_nil _ 0) ctx.program ty
              info)).state (.refl _) hrun
            exact ⟨.depthBelowZero,
              Action.bind_of_error (Action.ascend_zero hfrom.depth_zero r.2)⟩

/-- If the type is that of its own keys, the work has no end. -/
theorem normalize_endless (h : ctx.Adrift s ty info) (hform : info.form = .keyOf ty)
    (hidentity : ctx.program.identityPrimitive? ty = none) (hd : d < ctx.settings.maxTypeDepth)
    (n : Nat) (node : Option NodeId) (expanding : Option SymbolId) (t : Trail) :
    ctx.normalize n ty node expanding { s with depth := d } t = .error .endless := by
  induction n generalizing d node expanding t with
  | zero => rfl
  | succ n ih =>
      -- The keys are those of the type itself, which is asked for with a step fewer.
      rcases h.normalize_eq hd n node expanding t with hends | ⟨t', heq⟩
      · exact hends
      · rw [heq]
        refine Action.bind_of_error ?_
        unfold Calls.normalizeStructure
        simp only [hform, hidentity]
        exact Action.bind_of_error (ih (Nat.zero_lt_of_lt hd) none none t')

end Adrift

end Context

/-- The same operations, but asking for one type fails for a given reason in the marked states. -/
def Calls.mark (calls : Calls) (ty : TypeId) (marked : State → Bool) (e : Failure) : Calls where
  reference := calls.reference
  normalize ty' node expanding s t :=
    if ty' = ty ∧ marked s = true then .error e else calls.normalize ty' node expanding s t

namespace Context

variable {ctx : Context} {ty : TypeId} {marked : State → Bool} {e : Failure} {x : SymbolId}
  {s : State} {t : Trail}

theorem below_mark {calls calls' : Calls} (h : calls.Below calls') (ty : TypeId)
    (marked : State → Bool) (e : Failure) :
    (calls.mark ty marked e).Below (calls'.mark ty marked e) := by
  refine ⟨h.reference, fun ty' node expanding s t hends => ?_⟩
  -- A marked question fails for both.
  by_cases hcase : ty' = ty ∧ marked s = true
  · simp only [Calls.mark, if_pos hcase]
  · simp only [Calls.mark, if_neg hcase] at hends ⊢
    exact h.normalize ty' node expanding s t hends

/-- Where asking for the type has no end, a mark takes nothing away. -/
theorem below_mark_of_endless {calls : Calls}
    (h : ∀ node expanding s t, marked s = true →
      calls.normalize ty node expanding s t = .error .endless) :
    calls.Below (calls.mark ty marked e) := by
  refine ⟨fun x => Action.Below.refl _, fun ty' node expanding s t hends => ?_⟩
  by_cases hcase : ty' = ty ∧ marked s = true
  · rw [hcase.1] at hends
    exact absurd (h node expanding s t hcase.2) hends
  · simp only [Calls.mark, if_neg hcase]

/-- What is below stays below, in any number of steps. -/
theorem below_iterate (ctx : Context) {calls calls' : Calls} (h : calls.Below calls') (k : Nat) :
    (ctx.step^[k] calls).Below (ctx.step^[k] calls') := by
  induction k with
  | zero => exact h
  | succ k ih =>
      rw [Function.iterate_succ_apply', Function.iterate_succ_apply']
      exact ctx.below_step ih

/-- So many steps from the operations of a number of steps. -/
theorem iterate_calls (n k : Nat) : ctx.step^[k] ⟨ctx.reference n, ctx.normalize n⟩ =
    ⟨ctx.reference (n + k), ctx.normalize (n + k)⟩ := by
  induction k with
  | zero => rfl
  | succ k ih => rw [Function.iterate_succ_apply', ih, step_calls, Nat.add_assoc]

/-- If a question comes to the type in a marked state, whatever reason the mark gives, and asking
    for the type has no end there, then the question has no end. -/
theorem reference_endless_of_mark {k : Nat}
    (hmark : ∀ e, e ≠ .endless → (ctx.step^[k] (Calls.mark ⟨ctx.reference 0, ctx.normalize 0⟩ ty
      marked e)).reference x s t = .error e)
    (hends : ∀ n node expanding u t, marked u = true →
      ctx.normalize n ty node expanding u t = .error .endless) (n : Nat) :
    ctx.reference n x s t = .error .endless := by
  by_contra hne
  -- An answer would be the same with further steps, with any mark on the type.
  have hsame : ∀ e, e ≠ .endless → ctx.reference n x s t = .error e := by
    intro e he
    have hmore := (ctx.below_of_le (Nat.le_add_right n k)).reference x s t hne
    have hunmarked : Calls.Below ⟨ctx.reference n, ctx.normalize n⟩
        (Calls.mark ⟨ctx.reference n, ctx.normalize n⟩ ty marked e) :=
      below_mark_of_endless (hends n)
    have hgiven := (ctx.below_iterate hunmarked k).reference x s t
    rw [iterate_calls] at hgiven
    have hmarked := below_mark (ctx.below_zero ⟨ctx.reference n, ctx.normalize n⟩) ty marked e
    have hreached := (ctx.below_iterate hmarked k).reference x s t (by
      rw [hmark e he]
      exact fun h => he (Except.error.inj h))
    rw [hgiven (hmore ▸ hne), hmark e he] at hreached
    exact hmore.symm.trans hreached
  exact absurd ((hsame .missing nofun).symm.trans (hsame .depthBelowZero nofun)) nofun

end Context

end DocModel
