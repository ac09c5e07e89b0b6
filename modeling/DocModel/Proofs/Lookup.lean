import DocModel.Proofs.Chain

/-!
# Extraction is a chain of changes

Looking up a symbol is orderly if the calls are that it makes, and so is building a type. By
induction on the number of steps, the two calls are orderly themselves. An extraction from beginning
to end is therefore a chain of changes, and whatever every change keeps is kept by it.

The nesting depth is lost in one place. A member of an enumeration is looked up with the depth at
zero, and the depth is set back only if the enumeration has a reference. Everything else that sets
the depth to zero sets it back.

## Theorems

* `Calls.Orderly.enumMemberReference?`: Where the depth is lost.
* `Calls.Orderly.referenceStep`, `Calls.Orderly.normalizeStep`: One step of each call.
* `Context.orderly`: Any number of steps.
-/

namespace DocModel

section

variable {calls : Calls} {ctx : Context} {law : Nat → Ty → Prop} {s s' : State} {t t' : Trail}
  {info : SymbolInfo} {node : NodeInfo}

/-- A symbol from outside is entered at once. A member of an enumeration is entered again with the
    enumeration around it, if that has a reference. -/
theorem Calls.externalReference_ends (x : SymbolId) :
    Action.Ends s t (calls.externalReference ctx x info node) fun ref s' =>
      ∃ (ref₁ : Reference) (s₁ : State),
        s₁ = { s with registry :=
          (s.registry.mint info.name info.kind.referenceKind).2.insert x ref₁ } ∧
        ((info.kind = .enumMember → info.parent = none) ∧ ref = ref₁ ∧ s' = s₁ ∨
          ∃ parent o s₂ t₂, info.kind = .enumMember ∧ info.parent = some parent ∧
            calls.reference parent s₁ t = .ok ((o, s₂), t₂) ∧
            (o = none ∧ ref = ref₁ ∧ s' = s₂ ∨
              ∃ outer, o = some outer ∧ ref = { ref₁ with parent := some outer } ∧
                s' = { s₂ with registry := s₂.registry.insert x ref })) := by
  unfold Calls.externalReference
  dsimp only
  -- The link has no bearing on the rest.
  generalize Resolver.first? ctx.resolvers _ = link
  refine .bind fun minted s₁ t₁ hmint => .bind fun _ s₂ t₂ henter => ?_
  rcases Prod.mk.inj (Except.ok.inj hmint) with ⟨hpair, rfl⟩
  rcases Prod.mk.inj hpair with ⟨rfl, rfl⟩
  rcases Prod.mk.inj (Except.ok.inj henter) with ⟨hpair, rfl⟩
  rcases Prod.mk.inj hpair with ⟨_, rfl⟩
  split
  · rename_i parent hkind hparent
    refine .bind fun o s₂ t₂ hask => ?_
    cases o with
    | none =>
        exact .pure ⟨_, _, rfl, Or.inr ⟨parent, none, s₂, t₂, hkind, hparent, hask,
          Or.inl ⟨rfl, rfl, rfl⟩⟩⟩
    | some outer =>
        intro ref s' t' hrun
        simp only [Action.enter_bind] at hrun
        rcases Action.pure_eq_ok hrun with ⟨rfl, rfl⟩
        exact ⟨_, _, rfl, Or.inr ⟨parent, some outer, s₂, t₂, hkind, hparent, hask,
          Or.inr ⟨outer, rfl, rfl, rfl⟩⟩⟩
  · -- No member, or a member with nothing around it.
    rename_i hinner
    refine .pure ⟨_, _, rfl, Or.inl ⟨fun hkind => ?_, rfl, rfl⟩⟩
    exact Option.eq_none_iff_forall_ne_some.2 fun parent hparent => hinner parent hkind hparent

namespace Calls.Orderly

variable (h : calls.Orderly ctx law) (hlaw : Ty.Admits (law 0))

include h hlaw

omit hlaw in
/-- A member of an enumeration is looked up by way of the enumeration. The depth is not set back if
    the enumeration has no reference. -/
theorem enumMemberReference? {x : SymbolId} {o : Option Reference} (hs : ctx.Grounded s)
    (hx : Declared ctx.program s.projects x info node) (hkind : info.kind = .enumMember)
    (hrun : calls.enumMemberReference? x info s t = .ok ((o, s'), t')) :
    ctx.From law s s.depth s' ∧ ∀ ref, o = some ref → s'.registry.contains x = true := by
  have hzero : ctx.From law s 0 { s with depth := 0 } := (Context.From.refl s).withDepth 0
  unfold Calls.enumMemberReference? at hrun
  rw [Action.takeDepth_bind] at hrun
  cases hparent : info.parent with
  | none =>
      simp only [hparent] at hrun
      rcases Action.pure_eq_ok hrun with ⟨rfl, rfl⟩
      -- The depth is lost, which cannot happen if every member is inside something.
      refine ⟨hzero.lost fun he => ?_, nofun⟩
      rcases he x info node hx.symbol hkind hx.declaration hx.inside with ⟨parent, hsome, _⟩
      rw [hparent] at hsome
      exact nomatch hsome
  | some parent =>
      simp only [hparent] at hrun
      rcases Action.bind_eq_ok hrun with ⟨o₁, s₁, t₁, hask, hrun⟩
      have hreply := h.reference parent _ t o₁ s₁ t₁ (hzero.grounded hs) hask
      have hfrom := hzero.after hreply.toFrom
      cases o₁ with
      | none =>
          rcases Action.pure_eq_ok hrun with ⟨rfl, rfl⟩
          -- It is lost here too, which cannot happen if what is around has a reference.
          refine ⟨hfrom.lost fun he => ?_, nofun⟩
          rcases he x info node hx.symbol hkind hx.declaration hx.inside with
            ⟨parent', hsome, hreferable⟩
          rw [hparent, Option.some.injEq] at hsome
          rw [← hsome] at hreferable
          exact hreply.refused rfl hreferable
      | some ref =>
          simp only [Action.setDepth_bind] at hrun
          rcases Prod.mk.inj (Except.ok.inj hrun) with ⟨hpair, _⟩
          rcases Prod.mk.inj hpair with ⟨rfl, rfl⟩
          refine ⟨hfrom.withDepth s.depth, fun ref href => ?_⟩
          exact Registry.contains_of_find? href

/-- The depth starts from zero in a declaration, and is set back after it. -/
theorem registerSymbol {x : SymbolId} {o : Option Reference} (hs : ctx.Grounded s)
    (hx : Declared ctx.program s.projects x info node)
    (hrun : calls.registerSymbol ctx x info node s t = .ok ((o, s'), t')) :
    ctx.From law s s.depth s' ∧ (o = none → ctx.program.isRegistrable x info node = false) ∧
      ∀ ref, o = some ref → s'.registry.contains x = true := by
  unfold Calls.registerSymbol at hrun
  -- A member is left to its enumeration.
  by_cases hkind : info.kind = .enumMember
  · rw [if_pos hkind] at hrun
    rcases h.enumMemberReference? hs hx hkind hrun with ⟨hfrom, hentered⟩
    refine ⟨hfrom, fun _ => Bool.eq_false_iff.2 fun hreg => ?_, hentered⟩
    exact Program.isRegistrable_ne_enumMember hreg hkind
  · rw [if_neg hkind, Action.takeDepth_bind] at hrun
    rcases Action.bind_eq_ok hrun with ⟨o₁, s₁, t₁, hregister, hrun⟩
    have hzero : ctx.From law s 0 { s with depth := 0 } := (Context.From.refl s).withDepth 0
    rcases h.registerDeclaration hlaw (hzero.grounded hs) rfl hx hregister with
      ⟨hfrom, hnone, hentered⟩
    simp only [Action.setDepth_bind] at hrun
    rcases Action.pure_eq_ok hrun with ⟨rfl, rfl⟩
    exact ⟨(hzero.trans hfrom).withDepth s.depth, hnone, hentered⟩

omit hlaw in
/-- The namespace around a symbol is looked up before it, and may have entered it. -/
theorem registerEnclosing? {x : SymbolId} {o : Option Reference} (hs : ctx.Grounded s)
    (hrun : calls.registerEnclosing? ctx x info s t = .ok ((o, s'), t')) :
    ctx.From law s s.depth s' ∧ ∀ ref, o = some ref → s'.registry.contains x = true := by
  unfold Calls.registerEnclosing? at hrun
  cases hparent : info.parent with
  | none =>
      simp only [hparent] at hrun
      rcases Action.pure_eq_ok hrun with ⟨rfl, rfl⟩
      exact ⟨.refl s, nofun⟩
  | some parent =>
      simp only [hparent, Action.get_bind] at hrun
      -- A namespace that has its module already is not asked for again.
      split at hrun
      · rcases Action.bind_eq_ok hrun with ⟨o₁, s₁, t₁, hask, hrun⟩
        have hreply := h.reference parent s t o₁ s₁ t₁ hs hask
        rcases Prod.mk.inj (Except.ok.inj hrun) with ⟨hpair, _⟩
        rcases Prod.mk.inj hpair with ⟨rfl, rfl⟩
        exact ⟨hreply.toFrom, fun ref href => Registry.contains_of_find? href⟩
      · rcases Action.pure_eq_ok hrun with ⟨rfl, rfl⟩
        exact ⟨.refl s, nofun⟩

omit hlaw in
/-- A symbol from outside gets a reference, and a member of an enumeration is given the reference of
    the enumeration as well. -/
theorem externalReference {x : SymbolId} {ref : Reference} (hs : ctx.Grounded s)
    (hself : ctx.program.resolveAlias x = x) (hx : ctx.program.symbol? x = some info)
    (hnode : ctx.program.declarationOf? info = some node)
    (hout : ctx.program.isOutside s.projects node.file = true)
    (hrun : calls.externalReference ctx x info node s t = .ok ((ref, s'), t')) :
    ctx.From law s s.depth s' ∧ s'.registry.contains x = true := by
  -- However far the projects have grown, the file is still outside.
  have henter : ∀ {s₁ : State} (ref : Reference), ProjectsGrow s.projects s₁.projects →
      Change ctx.program ctx.settings.passthroughModules (law 0) s₁
        { s₁ with registry := s₁.registry.insert x ref } := by
    intro s₁ ref hgrow
    refine .enter x info ref hx (Or.inr (Or.inr (Or.inr ⟨node, hnode, ?_⟩))) (Or.inl hself)
    rw [isOutside_of_grow ctx.program hgrow, hout]
  rcases externalReference_ends x ref s' t' hrun with ⟨ref₁, s₁, hs₁, hrest⟩
  have h₁ : Changes ctx.program ctx.settings.passthroughModules (law 0) s s₁ := by
    rw [hs₁]
    exact (Changes.one (.mint info.name info.kind.referenceKind)).trans
      (Changes.one (henter ref₁ (ProjectsGrow.refl _)))
  have hentered : ∀ y, s₁.registry.contains y = true ↔ y = x ∨ s.registry.contains y = true := by
    intro y
    rw [hs₁]
    exact Registry.contains_insert _ _ _ _
  -- The reference is entered right away. By the time that all is done, the member is housed.
  have hrest : ctx.From law s₁ s₁.depth s' ∧
      (ctx.program.isEnumMember x = true → ctx.program.Housed s' x) := by
    rcases hrest with ⟨hinner, _, rfl⟩ | ⟨parent, o, s₂, t₂, hkind, hparent, hask, hrest⟩
    · refine ⟨.refl _, fun hmember => Or.inr fun info' parent hinfo' hparent => ?_⟩
      rw [Program.isEnumMember_of_symbol? hx, beq_iff_eq] at hmember
      rw [hx, Option.some.injEq] at hinfo'
      rw [← hinfo', hinner hmember] at hparent
      cases hparent
    · have hreply := h.reference parent s₁ t o s₂ t₂ (h₁.grounded hs) hask
      -- What is around the member has been asked for: it has a reference, or can have none.
      have hhoused : ctx.program.Housed s₂ x := by
        refine Or.inr fun info' parent' hinfo' hparent' hhas => ?_
        rw [hx, Option.some.injEq] at hinfo'
        rw [← hinfo', hparent, Option.some.injEq] at hparent'
        rw [← hparent'] at hhas ⊢
        cases o with
        | none =>
            rw [Program.HasReference.grow hreply.changes.projects] at hhas
            exact absurd hhas (hreply.not_hasReference rfl)
        | some outer => exact hreply.entered outer rfl
      rcases hrest with ⟨_, _, rfl⟩ | ⟨outer, _, _, rfl⟩
      · exact ⟨hreply.toFrom, fun _ => hhoused⟩
      · have hagain := henter ref (h₁.trans hreply.changes).projects
        have hhoused' := (Changes.one hagain).housed hhoused
        exact ⟨hreply.toFrom.enter hagain rfl rfl fun _ _ => hhoused', fun _ => hhoused'⟩
  have hdepth : s₁.depth = s.depth := by rw [hs₁]
  rw [hdepth] at hrest
  refine ⟨⟨h₁.trans hrest.1.changes, hrest.1.depth, fun he => hrest.1.kept ?_,
    fun y hy hmember hc => ?_⟩, hrest.1.changes.contains ((hentered x).2 (Or.inl rfl))⟩
  · exact he.mono h₁.projects fun _ => h₁.contains
  · rcases hrest.1.housed y hy hmember hc with hc | hhoused
    · rcases (hentered y).1 hc with rfl | hc
      · exact Or.inr (hrest.2 hmember)
      · exact Or.inl hc
    · exact Or.inr hhoused

/-- A symbol that stands for itself and has no reference yet. -/
theorem resolveSymbol {x : SymbolId} {o : Option Reference} (hs : ctx.Grounded s)
    (hself : ctx.program.resolveAlias x = x) (hx : ctx.program.symbol? x = some info)
    (hnew : s.registry.find? x = none)
    (hrun : calls.resolveSymbol ctx x info s t = .ok ((o, s'), t')) :
    ctx.Replies law x s o s' := by
  unfold Calls.resolveSymbol at hrun
  by_cases htp : info.kind = .typeParameter
  · simp only [htp, if_true, Action.mint_bind, Action.enter_bind] at hrun
    rcases Action.pure_eq_ok hrun with ⟨rfl, rfl⟩
    have hminted := (Context.From.refl s : ctx.From law s s.depth s).step
      (.mint info.name .typeParameter) rfl
    exact { hminted.enterOther (.enter x info _ hx (Or.inl htp) (Or.inl hself)) rfl rfl hx
        (by rw [htp]; exact nofun) with
      refused := nofun
      entered := fun _ _ => (Registry.contains_insert _ _ _ _).2 (Or.inl rfl) }
  · rw [if_neg htp] at hrun
    cases hnode : ctx.program.declarationOf? info with
    | none =>
        simp only [hnode] at hrun
        rcases Action.pure_eq_ok hrun with ⟨rfl, rfl⟩
        refine { Context.From.refl s with
          refused := fun _ => Program.not_referable_of_self hself hnew ?_, entered := nofun }
        rw [Program.hasReference_of_self hself hx, hnode]
        rintro (hcase | ⟨node, hnode', _⟩)
        · exact htp hcase
        · exact absurd hnode'.symm (Option.some_ne_none node)
    | some node =>
        simp only [hnode, Action.get_bind] at hrun
        by_cases hout : ctx.isExternalFile s node.file = true
        · rw [if_pos hout] at hrun
          rcases Action.bind_eq_ok hrun with ⟨ref, s₁, t₁, hext, hrun⟩
          rcases Action.pure_eq_ok hrun with ⟨rfl, rfl⟩
          rcases h.externalReference hs hself hx hnode hout hext with ⟨hfrom, hcontains⟩
          exact { hfrom with refused := nofun, entered := fun _ _ => hcontains }
        · rw [if_neg hout] at hrun
          rcases Action.bind_eq_ok hrun with ⟨o₁, s₁, t₁, hencl, hrun⟩
          -- The namespace around the symbol goes first.
          rcases h.registerEnclosing? hs hencl with ⟨h₁, hentered₁⟩
          cases o₁ with
          | some ref =>
              rcases Action.pure_eq_ok hrun with ⟨rfl, rfl⟩
              exact { h₁ with refused := nofun, entered := fun _ _ => hentered₁ ref rfl }
          | none =>
              have hin : ctx.program.isOutside s₁.projects node.file = false := by
                rw [isOutside_of_grow ctx.program h₁.changes.projects, Bool.eq_false_iff]
                exact hout
              rcases h.registerSymbol hlaw (h₁.grounded hs) ⟨hself, hx, hnode, hin⟩ hrun with
                ⟨h₂, hnone, hentered₂⟩
              refine { h₁.after h₂ with
                refused := fun ho => Program.not_referable_of_self hself hnew ?_
                entered := hentered₂ }
              -- Nothing came of it, so it is none of the things that have a reference.
              rw [Program.hasReference_of_self hself hx, hnode]
              rintro (hcase | ⟨node', hnode', hcase⟩)
              · exact htp hcase
              · rw [Option.some.injEq] at hnode'
                subst hnode'
                rw [hnone ho] at hcase
                exact hcase.elim hout Bool.false_ne_true

/-- Looking up a symbol, one step further in. -/
theorem referenceStep {x : SymbolId} {o : Option Reference} (hs : ctx.Grounded s)
    (hrun : calls.referenceStep ctx x s t = .ok ((o, s'), t')) : ctx.Replies law x s o s' := by
  unfold Calls.referenceStep at hrun
  rw [Action.entered?_bind] at hrun
  -- What is entered is the answer.
  cases hx : s.registry.find? x with
  | some ref =>
      simp only [hx] at hrun
      rcases Action.pure_eq_ok hrun with ⟨rfl, rfl⟩
      exact { Context.From.refl s with
        refused := nofun
        entered := fun _ _ => Registry.contains_of_find? hx }
  | none =>
      simp only [hx] at hrun
      by_cases hself : ctx.program.resolveAlias x = x
      · rw [if_pos hself] at hrun
        cases hinfo : ctx.program.symbol? x with
        | none =>
            simp only [hinfo] at hrun
            rcases Action.pure_eq_ok hrun with ⟨rfl, rfl⟩
            refine { Context.From.refl s with
              refused := fun _ => Program.not_referable_of_self hself hx ?_, entered := nofun }
            rintro ⟨info', hinfo', _⟩
            rw [hself, hinfo] at hinfo'
            exact nomatch hinfo'
        | some info =>
            simp only [hinfo] at hrun
            exact h.resolveSymbol hlaw hs hself hinfo hx hrun
      · -- What the symbol stands for is looked up, and its reference is entered for the symbol.
        rw [if_neg hself, Action.entered?_bind] at hrun
        cases htarget : s.registry.find? (ctx.program.resolveAlias x) with
        | some ref =>
            simp only [htarget, Action.enter_bind] at hrun
            rcases Action.pure_eq_ok hrun with ⟨rfl, rfl⟩
            have hentered := Registry.contains_of_find? htarget
            exact { (Context.From.refl s).enter (.link x ref hself hentered) rfl rfl
                (fun hx => absurd hx hself) with
              refused := nofun
              entered := fun _ _ => (Registry.contains_insert _ _ _ _).2 (Or.inl rfl) }
        | none =>
            simp only [htarget] at hrun
            cases hinfo : ctx.program.symbol? (ctx.program.resolveAlias x) with
            | none =>
                simp only [hinfo] at hrun
                rcases Action.pure_eq_ok hrun with ⟨rfl, rfl⟩
                refine { Context.From.refl s with
                  refused := fun _ => ctx.program.not_referable hx htarget ?_, entered := nofun }
                rintro ⟨info', hinfo', _⟩
                rw [hinfo] at hinfo'
                exact nomatch hinfo'
            | some info =>
                simp only [hinfo] at hrun
                rcases Action.bind_eq_ok hrun with ⟨o₁, s₁, t₁, hresolve, hrun⟩
                -- What it stands for stands for itself, so it is resolved.
                have hreply := h.resolveSymbol hlaw hs
                  (ctx.program.resolveAlias_resolveAlias x) hinfo htarget hresolve
                cases o₁ with
                | none =>
                    rcases Action.pure_eq_ok hrun with ⟨rfl, rfl⟩
                    refine { hreply.toFrom with
                      refused := fun _ => ctx.program.not_referable hx htarget fun hhas => ?_
                      entered := nofun }
                    exact hreply.not_hasReference rfl
                      ((ctx.program.hasReference_resolveAlias s.projects x).2 hhas)
                | some ref =>
                    simp only [Action.enter_bind] at hrun
                    rcases Action.pure_eq_ok hrun with ⟨rfl, rfl⟩
                    have hentered := hreply.entered ref rfl
                    exact { hreply.toFrom.enter (.link x ref hself hentered) rfl rfl
                        (fun hx => absurd hx hself) with
                      refused := nofun
                      entered := fun _ _ => (Registry.contains_insert _ _ _ _).2 (Or.inl rfl) }

omit hlaw in
/-- Building a type, one step further in. What is built goes one level deeper, and the level is left
    by the time that the type is done. -/
theorem normalizeStep {ty : TypeId} {node : Option NodeId} {expanding : Option SymbolId} {a : Ty}
    (hl : Ty.Law ctx.settings.maxTypeDepth law) (hs : ctx.Grounded s)
    (hrun : calls.normalizeStep ctx ty node expanding s t = .ok ((a, s'), t')) :
    ctx.From law s s.depth s' ∧ s'.depth = s.depth ∧ law s.depth a := by
  unfold Calls.normalizeStep at hrun
  rw [Action.get_bind] at hrun
  -- At the limit the type is a text, and nothing is done.
  by_cases hlimit : ctx.settings.maxTypeDepth ≤ s.depth
  · rw [if_pos hlimit] at hrun
    rcases Action.pure_eq_ok hrun with ⟨rfl, rfl⟩
    exact ⟨.refl s, rfl, (hl.admits s.depth).verbatim _⟩
  · rw [if_neg hlimit] at hrun
    simp only [Action.descend, Action.modify_bind] at hrun
    rcases Action.bind_eq_ok hrun with ⟨a₁, s₁, t₁, hbuild, hrun⟩
    have hdown : ctx.From law s (s.depth + 1) { s with depth := s.depth + 1 } :=
      (Context.From.refl s).withDepth (s.depth + 1)
    have hkeep := h.keep (hdown.grounded hs) (s.depth + 1)
    have hlayers := hl.layers s.depth (Nat.lt_of_not_le hlimit)
    have hbuilt :=
      hkeep.normalizeType hlayers (Context.From.bears_nil _ _) ctx.program ty node expanding
    rcases hbuilt.holds _ _ _ _ _ (Context.From.refl _) hbuild with ⟨h₁, ha⟩
    have h₁ : ctx.From law { s with depth := s.depth + 1 } (s.depth + 1) s₁ := h₁
    -- There is a way out, so the depth has not been lost: it is one more than before.
    rcases h₁.depth with hdepth | hzero
    · rw [Action.bind_apply, Action.ascend_succ hdepth] at hrun
      rcases Action.pure_eq_ok hrun with ⟨rfl, rfl⟩
      exact ⟨(hdown.trans h₁).withDepth s.depth, rfl, (ha hdepth).2⟩
    · rw [Action.bind_apply, Action.ascend_zero hzero] at hrun
      cases hrun

end Calls.Orderly

end

/-- Extraction is orderly, whatever the number of steps. -/
theorem Context.orderly (ctx : Context) {law : Nat → Ty → Prop}
    (hl : Ty.Law ctx.settings.maxTypeDepth law) (n : Nat) :
    Calls.Orderly ⟨ctx.reference n, ctx.normalize n⟩ ctx law := by
  -- With no steps left there is no result, and a step needs only that those below are orderly.
  induction n with
  | zero => exact ⟨nofun, nofun⟩
  | succ n ih =>
      refine ⟨fun x s t o s' t' hs hrun => ?_, fun ty node expanding s t a s' t' hs hrun => ?_⟩
      · -- Noting the state on the trail leaves the state alone.
        simp only [Context.reference] at hrun
        rcases Action.bind_eq_ok hrun with ⟨_, s₁, t₁, hnote, hrun⟩
        rcases Prod.mk.inj (Except.ok.inj hnote) with ⟨hpair, rfl⟩
        rcases Prod.mk.inj hpair with ⟨_, rfl⟩
        exact ih.referenceStep (hl.admits 0) hs hrun
      · simp only [Context.normalize] at hrun
        rcases Action.bind_eq_ok hrun with ⟨_, s₁, t₁, hnote, hrun⟩
        rcases Prod.mk.inj (Except.ok.inj hnote) with ⟨hpair, rfl⟩
        rcases Prod.mk.inj hpair with ⟨_, rfl⟩
        exact ih.normalizeStep hl hs hrun

end DocModel
