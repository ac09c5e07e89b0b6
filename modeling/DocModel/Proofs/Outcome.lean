import DocModel.Proofs.Answer
import DocModel.Proofs.Lasting

/-!
# What comes of a question

A symbol is asked for in one of few ways: it is found, or what it stands for is found, or what it
stands for has to be resolved first. This is said once here, so that nothing else has to look at how
a question is worked on.

A question that has no answer does little. On the way, at most the namespace or the enumeration
around the symbol is asked for, and that may well have an answer. If the symbol has no reference in
the end, it has none for good, as long as enumerations list only members that are inside of them. A
member that is declared nowhere is the exception: nobody asks for its enumeration, and it gets its
reference when the enumeration comes up.

## Main definitions

* `Calls.Outcome`: The ways in which a question is answered.
* `Context.Onward`: A later state of the same extraction.
* `Program.Firm`: A symbol that is declared, if an enumeration lists it.

## Theorems

* `Calls.referenceStep_ends`: There are no other ways.
* `Context.asked_of_refused`: What is asked for on the way was asked for.
* `Context.absent_of_refused`: A question without an answer never has one.
-/

namespace DocModel

/-- The ways in which a question for a symbol is answered. -/
inductive Calls.Outcome (calls : Calls) (ctx : Context) (x : SymbolId) (s : State) (t : Trail) :
    Option Reference → State → Prop
  /-- The symbol has a reference. -/
  | found (ref : Reference) (hx : s.registry.find? x = some ref) :
      Outcome calls ctx x s t (some ref) s
  /-- What the symbol stands for has a reference. -/
  | linked (ref : Reference) (hx : s.registry.find? x = none) (hne : ctx.program.resolveAlias x ≠ x)
      (htarget : s.registry.find? (ctx.program.resolveAlias x) = some ref) :
      Outcome calls ctx x s t (some ref) { s with registry := s.registry.insert x ref }
  /-- The symbol stands for nothing. -/
  | unknown (hx : s.registry.find? x = none)
      (htarget : s.registry.find? (ctx.program.resolveAlias x) = none)
      (hinfo : ctx.program.symbol? (ctx.program.resolveAlias x) = none) :
      Outcome calls ctx x s t none s
  /-- The answer is that of what the symbol stands for. -/
  | resolved (info : SymbolInfo) (o : Option Reference) (s' : State) (t' : Trail)
      (hx : s.registry.find? x = none)
      (htarget : s.registry.find? (ctx.program.resolveAlias x) = none)
      (hinfo : ctx.program.symbol? (ctx.program.resolveAlias x) = some info)
      (hrun : calls.resolveSymbol ctx (ctx.program.resolveAlias x) info s t = .ok ((o, s'), t'))
      (ho : o = none ∨ ctx.program.resolveAlias x = x) : Outcome calls ctx x s t o s'
  /-- The answer is that of what the symbol stands for, and is entered for the symbol. -/
  | passedOn (info : SymbolInfo) (ref : Reference) (s' : State) (t' : Trail)
      (hx : s.registry.find? x = none) (hne : ctx.program.resolveAlias x ≠ x)
      (htarget : s.registry.find? (ctx.program.resolveAlias x) = none)
      (hinfo : ctx.program.symbol? (ctx.program.resolveAlias x) = some info)
      (hrun : calls.resolveSymbol ctx (ctx.program.resolveAlias x) info s t =
        .ok ((some ref, s'), t')) :
      Outcome calls ctx x s t (some ref) { s' with registry := s'.registry.insert x ref }

section

variable {calls : Calls} {ctx : Context} {s : State} {t : Trail}

/-- A question is answered in one of these ways. -/
theorem Calls.referenceStep_ends (x : SymbolId) :
    Action.Ends s t (calls.referenceStep ctx x) (calls.Outcome ctx x s t) := by
  intro o s' t' hrun
  unfold Calls.referenceStep at hrun
  rw [Action.entered?_bind] at hrun
  cases hx : s.registry.find? x with
  | some ref =>
      simp only [hx] at hrun
      rcases Action.pure_eq_ok hrun with ⟨rfl, rfl⟩
      exact .found ref hx
  | none =>
      simp only [hx] at hrun
      -- A symbol that stands for another is entered with the answer for the other.
      by_cases hself : ctx.program.resolveAlias x = x
      · rw [if_pos hself] at hrun
        have htarget : s.registry.find? (ctx.program.resolveAlias x) = none := by rw [hself, hx]
        cases hinfo : ctx.program.symbol? x with
        | none =>
            simp only [hinfo] at hrun
            rcases Action.pure_eq_ok hrun with ⟨rfl, rfl⟩
            exact .unknown hx htarget (by rw [hself, hinfo])
        | some info =>
            simp only [hinfo] at hrun
            exact .resolved info o s' t' hx htarget (by rw [hself, hinfo]) (by rw [hself, hrun])
              (Or.inr hself)
      · rw [if_neg hself, Action.entered?_bind] at hrun
        cases htarget : s.registry.find? (ctx.program.resolveAlias x) with
        | some ref =>
            simp only [htarget, Action.enter_bind] at hrun
            rcases Action.pure_eq_ok hrun with ⟨rfl, rfl⟩
            exact .linked ref hx hself htarget
        | none =>
            simp only [htarget] at hrun
            cases hinfo : ctx.program.symbol? (ctx.program.resolveAlias x) with
            | none =>
                simp only [hinfo] at hrun
                rcases Action.pure_eq_ok hrun with ⟨rfl, rfl⟩
                exact .unknown hx htarget hinfo
            | some info =>
                simp only [hinfo] at hrun
                rcases Action.bind_eq_ok hrun with ⟨o₁, s₁, t₁, hresolve, hrun⟩
                cases o₁ with
                | none =>
                    rcases Action.pure_eq_ok hrun with ⟨rfl, rfl⟩
                    exact .resolved info none s₁ t₁ hx htarget hinfo hresolve (Or.inl rfl)
                | some ref =>
                    simp only [Action.enter_bind] at hrun
                    rcases Action.pure_eq_ok hrun with ⟨rfl, rfl⟩
                    exact .passedOn info ref s₁ t₁ hx hself htarget hinfo hresolve

/-- The namespace around a symbol is asked for, unless it has a module. -/
theorem Calls.registerEnclosing?_ends (x : SymbolId) (info : SymbolInfo) :
    Action.Ends s t (calls.registerEnclosing? ctx x info) fun o s' =>
      (∃ parent o₁ t₁, info.parent = some parent ∧
        calls.reference parent s t = .ok ((o₁, s'), t₁) ∧ o = s'.registry.find? x) ∨
      o = none ∧ s' = s ∧ ∀ parent, info.parent = some parent →
        ctx.program.isNamespace parent = true → s.namespaces.contains parent = true := by
  unfold Calls.registerEnclosing?
  split
  · rename_i hparent
    refine .pure (Or.inr ⟨rfl, rfl, fun parent hsome => ?_⟩)
    rw [hparent] at hsome
    cases hsome
  · rename_i parent hparent
    refine .bind fun s₁ s₂ t₂ hget => ?_
    rcases Prod.mk.inj (Except.ok.inj hget) with ⟨hpair, rfl⟩
    rcases Prod.mk.inj hpair with ⟨rfl, rfl⟩
    split
    · -- The namespace has no module yet. It is asked for, and may have entered the symbol.
      refine .bind fun o₁ s₁ t₁ hask => ?_
      intro o s' t' hrun
      rcases Prod.mk.inj (Except.ok.inj hrun) with ⟨hpair, rfl⟩
      rcases Prod.mk.inj hpair with ⟨rfl, rfl⟩
      exact Or.inl ⟨parent, o₁, t₁, hparent, hask, rfl⟩
    · -- What is around it is no namespace, or one that has its module.
      rename_i hcase
      refine .pure (Or.inr ⟨rfl, rfl, fun parent' hparent' hspace => ?_⟩)
      rw [hparent, Option.some.injEq] at hparent'
      rw [← hparent'] at hspace ⊢
      simpa only [hspace, Bool.and_true, Bool.not_eq_true', Bool.not_eq_false] using hcase

/-- The enumeration around a member is asked for. -/
theorem Calls.enumMemberReference?_ends (x : SymbolId) (info : SymbolInfo) :
    Action.Ends s t (calls.enumMemberReference? x info) fun o s' =>
      info.parent = none ∧ o = none ∧ s' = { s with depth := 0 } ∨
      ∃ parent o₁ s₁ t₁, info.parent = some parent ∧
        calls.reference parent { s with depth := 0 } t = .ok ((o₁, s₁), t₁) ∧
        (o₁ = none ∧ o = none ∧ s' = s₁ ∨
          o = s'.registry.find? x ∧ s' = { s₁ with depth := s.depth }) := by
  intro o s' t' hrun
  unfold Calls.enumMemberReference? at hrun
  rw [Action.takeDepth_bind] at hrun
  cases hparent : info.parent with
  | none =>
      simp only [hparent] at hrun
      rcases Action.pure_eq_ok hrun with ⟨rfl, rfl⟩
      exact Or.inl ⟨rfl, rfl, rfl⟩
  | some parent =>
      simp only [hparent] at hrun
      rcases Action.bind_eq_ok hrun with ⟨o₁, s₁, t₁, hask, hrun⟩
      refine Or.inr ⟨parent, o₁, s₁, t₁, rfl, hask, ?_⟩
      -- The depth is set back only if the enumeration has a reference.
      cases o₁ with
      | none =>
          rcases Action.pure_eq_ok hrun with ⟨rfl, rfl⟩
          exact Or.inl ⟨rfl, rfl, rfl⟩
      | some ref =>
          simp only [Action.setDepth_bind] at hrun
          rcases Prod.mk.inj (Except.ok.inj hrun) with ⟨hpair, _⟩
          rcases Prod.mk.inj hpair with ⟨rfl, rfl⟩
          exact Or.inr ⟨rfl, rfl⟩

/-- A declaration of the analysed sources is registered by its namespace or by itself. -/
theorem Calls.resolveSymbol_inside {x : SymbolId} {info : SymbolInfo} {node : NodeInfo}
    {o : Option Reference} {s' : State} {t' : Trail} (hkind : info.kind ≠ .typeParameter)
    (hnode : ctx.program.declarationOf? info = some node)
    (hin : ctx.program.isOutside s.projects node.file = false)
    (hrun : calls.resolveSymbol ctx x info s t = .ok ((o, s'), t')) :
    ∃ o₁ s₁ t₁, calls.registerEnclosing? ctx x info s t = .ok ((o₁, s₁), t₁) ∧
      ((∃ ref, o₁ = some ref ∧ o = some ref ∧ s' = s₁) ∨
        o₁ = none ∧ calls.registerSymbol ctx x info node s₁ t₁ = .ok ((o, s'), t')) := by
  unfold Calls.resolveSymbol at hrun
  have hin : ctx.isExternalFile s node.file = false := hin
  rw [if_neg hkind] at hrun
  simp only [hnode, Action.get_bind, hin, Bool.false_eq_true, if_false] at hrun
  -- The namespace is asked for first, and an answer from there is the last word.
  rcases Action.bind_eq_ok hrun with ⟨o₁, s₁, t₁, hencl, hrun⟩
  refine ⟨o₁, s₁, t₁, hencl, ?_⟩
  cases o₁ with
  | some ref =>
      rcases Action.pure_eq_ok hrun with ⟨rfl, rfl⟩
      exact Or.inl ⟨ref, rfl, rfl, rfl⟩
  | none => exact Or.inr ⟨rfl, hrun⟩

/-- A declaration from outside gets a reference with a link. -/
theorem Calls.resolveSymbol_outside {x : SymbolId} {info : SymbolInfo} {node : NodeInfo}
    {o : Option Reference} {s' : State} {t' : Trail} (hkind : info.kind ≠ .typeParameter)
    (hnode : ctx.program.declarationOf? info = some node)
    (hout : ctx.program.isOutside s.projects node.file = true)
    (hrun : calls.resolveSymbol ctx x info s t = .ok ((o, s'), t')) :
    ∃ ref t₁, o = some ref ∧ calls.externalReference ctx x info node s t = .ok ((ref, s'), t₁) := by
  unfold Calls.resolveSymbol at hrun
  have hout : ctx.isExternalFile s node.file = true := hout
  rw [if_neg hkind] at hrun
  simp only [hnode, Action.get_bind, hout, if_true] at hrun
  rcases Action.bind_eq_ok hrun with ⟨ref, s₁, t₁, hext, hrun⟩
  rcases Action.pure_eq_ok hrun with ⟨rfl, rfl⟩
  exact ⟨ref, t₁, rfl, hext⟩

/-- What is declared nowhere is not looked for. -/
theorem Calls.resolveSymbol_undeclared {x : SymbolId} {info : SymbolInfo} {o : Option Reference}
    {s' : State} {t' : Trail} (hkind : info.kind ≠ .typeParameter)
    (hnode : ctx.program.declarationOf? info = none)
    (hrun : calls.resolveSymbol ctx x info s t = .ok ((o, s'), t')) : o = none ∧ s' = s := by
  unfold Calls.resolveSymbol at hrun
  rw [if_neg hkind] at hrun
  simp only [hnode] at hrun
  rcases Action.pure_eq_ok hrun with ⟨rfl, rfl⟩
  exact ⟨rfl, rfl⟩

/-- A member of the analysed sources has the reference that was entered for it, unless what it is
    inside of has none. -/
theorem Calls.Orderly.resolveSymbol_member {law : Nat → Ty → Prop} (h : calls.Orderly ctx law)
    {x : SymbolId} {info : SymbolInfo} {node : NodeInfo} {o : Option Reference} {s' : State}
    {t' : Trail} (hs : ctx.Grounded s) (hkind : info.kind = .enumMember)
    (hnode : ctx.program.declarationOf? info = some node)
    (hin : ctx.program.isOutside s.projects node.file = false)
    (hrun : calls.resolveSymbol ctx x info s t = .ok ((o, s'), t')) :
    o = s'.registry.find? x ∨ o = none ∧ ∀ parent, info.parent = some parent →
      ¬ ctx.program.HasReference s.projects parent := by
  rcases resolveSymbol_inside (by rw [hkind]; exact nofun) hnode hin hrun with
    ⟨o₁, s₁, t₁, hencl, hrest⟩
  have h₁ := (h.registerEnclosing? hs hencl).1
  rcases hrest with ⟨ref, rfl, rfl, rfl⟩ | ⟨rfl, hrun⟩
  · -- The namespace that the member is inside of has entered it.
    rcases registerEnclosing?_ends x info _ _ _ hencl with ⟨_, _, _, _, _, hfind⟩ | ⟨hnone, _⟩
    · exact Or.inl hfind
    · cases hnone
  · unfold Calls.registerSymbol at hrun
    rw [if_pos hkind] at hrun
    rcases enumMemberReference?_ends x info _ _ _ hrun with
      ⟨hparent, rfl, _⟩ | ⟨parent, o₂, s₂, t₂, hparent, hask, hcase⟩
    · refine Or.inr ⟨rfl, fun parent hsome => ?_⟩
      rw [hparent] at hsome
      cases hsome
    · rcases hcase with ⟨rfl, rfl, rfl⟩ | ⟨hfind, _⟩
      · -- What the member is inside of was refused, and projects keep their roots meanwhile.
        refine Or.inr ⟨rfl, fun parent' hparent' => ?_⟩
        rw [hparent, Option.some.injEq] at hparent'
        rw [← hparent', ← Program.HasReference.grow h₁.changes.projects]
        have hgrounded := (h₁.withDepth 0).grounded hs
        exact (h.reference parent _ t₁ none _ t₂ hgrounded hask).not_hasReference rfl
      · exact Or.inl hfind

end

/-- A later state of the same extraction: changes have led to it, and what lasts was kept. -/
structure Context.Onward (ctx : Context) (s s' : State) : Prop where
  changes : Changes ctx.program ctx.settings.passthroughModules (fun _ => True) s s'
  lasts : ctx.program.Lasts s s'

namespace Context

variable {ctx : Context} {n : Nat} {x : SymbolId} {s s' s'' : State} {t t' : Trail}
  {o : Option Reference}

namespace Onward

theorem refl (s : State) : ctx.Onward s s := ⟨Changes.refl s, Program.Lasts.refl _ s⟩

theorem trans (h : ctx.Onward s s') (h' : ctx.Onward s' s'') : ctx.Onward s s'' :=
  ⟨h.changes.trans h'.changes, h.lasts.trans h'.lasts⟩

theorem withDepth (s : State) (d : Nat) : ctx.Onward s { s with depth := d } :=
  ⟨Changes.one (.depth d), rfl, fun _ h => h, fun _ _ _ h => h, fun _ h => h.find?⟩

end Onward

/-- What a question leaves and what is known of the answer. -/
theorem reference_replies (hs : ctx.Grounded s)
    (hrun : ctx.reference n x s t = .ok ((o, s'), t')) :
    ctx.Replies (fun _ _ => True) x s o s' :=
  (ctx.orderly (Ty.law_true _) n).reference x s t o s' t' hs hrun

/-- A question leads to a later state. -/
theorem reference_onward (hs : ctx.Grounded s)
    (hrun : ctx.reference n x s t = .ok ((o, s'), t')) : ctx.Onward s s' :=
  ⟨(reference_replies hs hrun).changes, reference_lasts hrun⟩

/-- A question that is worked on is noted on the trail first. -/
theorem reference_outcome (hrun : ctx.reference (n + 1) x s t = .ok ((o, s'), t')) :
    Calls.Outcome ⟨ctx.reference n, ctx.normalize n⟩ ctx x s (s :: t) o s' := by
  simp only [reference] at hrun
  rcases Action.bind_eq_ok hrun with ⟨_, s₁, t₁, hnote, hrun⟩
  rcases Prod.mk.inj (Except.ok.inj hnote) with ⟨hpair, rfl⟩
  rcases Prod.mk.inj hpair with ⟨_, rfl⟩
  exact Calls.referenceStep_ends x o s' t' hrun

/-- What cannot be registered leaves the state alone, except that the enumeration around a member is
    asked for. -/
theorem registerSymbol_onward {info : SymbolInfo} {node : NodeInfo} (hs : ctx.Grounded s)
    (hreg : ctx.program.isRegistrable x info node = false)
    (hrun : Calls.registerSymbol ⟨ctx.reference n, ctx.normalize n⟩ ctx x info node s t =
      .ok ((o, s'), t')) :
    ctx.Onward s s' ∧ (info.kind = .enumMember → ∀ parent, info.parent = some parent →
      ∃ o₁ s₂ t₂, ctx.reference n parent { s with depth := 0 } t = .ok ((o₁, s₂), t₂) ∧
        ctx.Onward s₂ s') := by
  have hzero : ctx.Onward s { s with depth := 0 } := .withDepth s 0
  unfold Calls.registerSymbol at hrun
  by_cases hkind : info.kind = .enumMember
  · rw [if_pos hkind] at hrun
    rcases Calls.enumMemberReference?_ends x info _ _ _ hrun with
      ⟨hparent, _, rfl⟩ | ⟨parent, o₁, s₁, t₁, hparent, hask, hcase⟩
    · refine ⟨hzero, fun _ parent hsome => ?_⟩
      rw [hparent] at hsome
      cases hsome
    · -- Behind the question the depth is set back or lost, and nothing else is done.
      have hrest : ctx.Onward s₁ s' := by
        rcases hcase with ⟨_, _, rfl⟩ | ⟨_, rfl⟩
        · exact .refl s'
        · exact .withDepth s₁ s.depth
      have hasked := reference_onward (hzero.changes.grounded hs) hask
      refine ⟨(hzero.trans hasked).trans hrest, fun _ parent' hparent' => ?_⟩
      rw [hparent, Option.some.injEq] at hparent'
      rw [← hparent']
      exact ⟨o₁, s₁, t₁, hask, hrest⟩
  · -- The depth is taken and set back, with nothing between.
    rw [if_neg hkind, Action.takeDepth_bind,
      Calls.registerDeclaration_eq_none _ ctx x info node hreg] at hrun
    rcases Action.pure_eq_ok hrun with ⟨_, rfl⟩
    exact ⟨hzero.trans (.withDepth _ s.depth), fun hk => absurd hk hkind⟩

/-- If there is no answer, then whatever is asked for on the way was asked for. -/
theorem asked_of_refused {info : SymbolInfo} {parent : SymbolId} (hs : ctx.Grounded s)
    (hself : ctx.program.resolveAlias x = x) (hinfo : ctx.program.symbol? x = some info)
    (hhas : ¬ ctx.program.HasReference s.projects x)
    (hrun : Calls.resolveSymbol ⟨ctx.reference n, ctx.normalize n⟩ ctx x info s t =
      .ok ((none, s'), t'))
    (hasks : ctx.program.Asks s x parent) :
    ∃ s₁ t₁ o₁ s₂ t₂, ctx.Grounded s₁ ∧ ctx.Onward s s₁ ∧
      ctx.reference n parent s₁ t₁ = .ok ((o₁, s₂), t₂) ∧ ctx.Onward s₂ s' := by
  rcases hasks with ⟨info', node, hinfo', hnode, hparent, hcase⟩
  rw [hself, hinfo, Option.some.injEq] at hinfo'
  subst hinfo'
  rw [Program.hasReference_of_self hself hinfo] at hhas
  -- What has no reference is none of the things that always have one.
  have hkind : info.kind ≠ .typeParameter := fun hkind => hhas (Or.inl hkind)
  have hin : ctx.program.isOutside s.projects node.file = false :=
    Bool.eq_false_iff.2 fun hout => hhas (Or.inr ⟨node, hnode, Or.inl hout⟩)
  have hreg : ctx.program.isRegistrable x info node = false :=
    Bool.eq_false_iff.2 fun hreg => hhas (Or.inr ⟨node, hnode, Or.inr hreg⟩)
  rcases Calls.resolveSymbol_inside hkind hnode hin hrun with ⟨o₁, s₁, t₁, hencl, hrest⟩
  rcases hrest with ⟨ref, _, hsome, _⟩ | ⟨_, hregister⟩
  · cases hsome
  · rcases Calls.registerEnclosing?_ends x info _ _ _ hencl with
      ⟨parent', o₂, t₂, hparent', hask, _⟩ | ⟨_, rfl, hspaces⟩
    · -- The namespace around the symbol is asked for first.
      rw [hparent, Option.some.injEq] at hparent'
      rw [← hparent'] at hask
      have hasked := reference_onward hs hask
      have hrest := (registerSymbol_onward (hasked.changes.grounded hs) hreg hregister).1
      exact ⟨s, t, o₂, s₁, t₂, hs, .refl s, hask, hrest⟩
    · -- Otherwise it is a member, and what is around it is asked for when it is registered.
      rcases hcase with ⟨hspace, hnone⟩ | hmember
      · rw [hspaces parent hparent hspace] at hnone
        cases hnone
      · have hzero : ctx.Onward s₁ { s₁ with depth := 0 } := .withDepth s₁ 0
        rcases (registerSymbol_onward hs hreg hregister).2 hmember parent hparent with
          ⟨o₂, s₂, t₂, hask, hrest⟩
        exact ⟨_, t₁, o₂, s₂, t₂, hzero.changes.grounded hs, hzero, hask, hrest⟩

end Context

/-- If an enumeration lists the symbol as a member of it, the symbol is declared somewhere. -/
def Program.Firm (p : Program) (x : SymbolId) : Prop :=
  ∀ owner info, p.Lists owner x → p.symbol? x = some info → info.kind = .enumMember →
    ∃ node, p.declarationOf? info = some node

namespace Context

variable {ctx : Context} {n : Nat} {x : SymbolId} {s s' : State} {t t' : Trail}

/-- A question that has no answer never has one. Either nothing was left in the beginning that could
    enter the symbol, or its enumeration has come up by now and did not enter it. -/
theorem absent_of_refused (hhome : ctx.program.MembersAtHome) (hs : ctx.Grounded s)
    (hfirm : ctx.program.Firm (ctx.program.resolveAlias x))
    (hrun : ctx.reference n x s t = .ok ((none, s'), t')) :
    ctx.program.Absent s' (ctx.program.resolveAlias x) := by
  cases n with
  | zero => cases hrun
  | succ n =>
    have honward := reference_onward hs hrun
    have hself := ctx.program.resolveAlias_resolveAlias x
    have hhas : ¬ ctx.program.HasReference s.projects (ctx.program.resolveAlias x) := by
      rw [ctx.program.hasReference_resolveAlias]
      exact (reference_replies hs hrun).not_hasReference rfl
    have htarget : s.registry.find? (ctx.program.resolveAlias x) = none := by
      cases reference_outcome hrun with
      | unknown _ htarget _ => exact htarget
      | resolved _ _ _ _ _ htarget _ _ _ => exact htarget
    -- If no enumeration could enter it in the beginning, none can later.
    by_cases hclosed : ctx.program.Closed s (ctx.program.resolveAlias x)
    · exact honward.lasts.stillAbsent ⟨hself, htarget, hhas, hclosed⟩
    · -- The symbol is a member of an enumeration that has no reference yet, but can have one.
      unfold Program.Closed at hclosed
      push Not at hclosed
      rcases hclosed with ⟨owner, hlists, hmember, howner, hc⟩
      rcases Program.exists_symbol?_of_isEnumMember hmember with ⟨info, hinfo, hkind⟩
      have hparent := hhome owner _ info hlists hinfo hkind
      rcases hfirm owner info hlists hinfo hkind with ⟨node, hnode⟩
      have hin : ctx.program.isOutside s.projects node.file = false := by
        rw [Program.hasReference_of_self hself hinfo] at hhas
        exact Bool.eq_false_iff.2 fun hout => hhas (Or.inr ⟨node, hnode, Or.inl hout⟩)
      cases reference_outcome hrun with
      | unknown _ _ hunknown =>
          rw [hinfo] at hunknown
          cases hunknown
      | resolved info' _ _ t₁ _ _ hinfo' hresolve _ =>
          rw [hinfo, Option.some.injEq] at hinfo'
          subst hinfo'
          have horderly := ctx.orderly (Ty.law_true ctx.settings.maxTypeDepth) n
          have hfind : s'.registry.find? (ctx.program.resolveAlias x) = none := by
            rcases horderly.resolveSymbol_member hs hkind hnode hin hresolve with
              hfind | ⟨_, hnone⟩
            · exact hfind.symm
            · exact absurd howner (hnone owner hparent)
          have hasks : ctx.program.Asks s (ctx.program.resolveAlias x) owner :=
            ⟨info, node, by rw [hself, hinfo], hnode, hparent, Or.inr hkind⟩
          rcases asked_of_refused hs hself hinfo hhas hresolve hasks with
            ⟨s₁, t₂, o₁, s₂, t₃, hs₁, h₁, hask, h₂⟩
          -- Its enumeration was asked for, and can have a reference.
          have hcontains : s'.registry.contains owner = true := by
            refine h₂.changes.contains ?_
            have hreply := reference_replies hs₁ hask
            cases o₁ with
            | none =>
                exact absurd ((h₁.lasts.hasReference_iff owner).2 howner)
                  (hreply.not_hasReference rfl)
            | some ref => exact hreply.entered ref rfl
          refine ⟨hself, hfind, fun h => hhas ((honward.lasts.hasReference_iff _).1 h), ?_⟩
          intro owner' hlists' hmember' _
          rw [hhome.unique hlists' hlists hmember]
          exact hcontains

end Context

end DocModel
