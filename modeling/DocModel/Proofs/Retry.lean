import DocModel.Proofs.Outcome

/-!
# Asking again

A symbol that was asked for in vain is asked for again whenever it comes up, since nothing is
entered for it. The second question works its way through the same symbols as the first. It must
come to nothing again, and must not make anything on the way.

What was asked for in `n` nested steps is settled in `n` steps: it has a reference, or it can have
none, and what is asked for on the way is settled in one step less. The number of steps matters,
since it is not known that questions come to an end. That the first one did is why the second one
does.

A question for a settled symbol may still enter something: a symbol may stand for a member that had
no reference at first and has one now, and gets the reference of the member. This is ruled out where
every member that an enumeration lists is declared.

## Main definitions

* `SettledIn`: Asking for the symbol in a number of steps makes nothing new.
* `Program.Quiet`: Nothing was made, and at most known references were entered for other symbols.

## Theorems

* `SettledIn.onward`: A settled symbol stays settled.
* `Context.reference_settledIn`: What was asked for is settled.
* `Context.reference_again`: A question for a settled symbol is answered, and quiet.
-/

namespace DocModel

/-- Asking for the symbol in `n` nested steps makes nothing new. -/
def SettledIn (p : Program) (s : State) : Nat → SymbolId → Prop
  | 0, _ => False
  | n + 1, x => s.registry.contains x = true ∨
      ¬ p.HasReference s.projects x ∧
        (p.Firm (p.resolveAlias x) → p.Absent s (p.resolveAlias x)) ∧
        ∀ parent, p.Asks s x parent → SettledIn p s n parent

/-- A symbol stays settled as long as nothing gets lost. -/
theorem SettledIn.mono {p : Program} {s s' : State}
    (hcontains : ∀ x, s.registry.contains x = true → s'.registry.contains x = true)
    (hhas : ∀ x, p.HasReference s'.projects x → p.HasReference s.projects x)
    (habsent : ∀ x, p.Absent s x → p.Absent s' x)
    (hspaces : ∀ x, s.namespaces.contains x = true → s'.namespaces.contains x = true)
    {n : Nat} {x : SymbolId} (h : SettledIn p s n x) : SettledIn p s' n x := by
  induction n generalizing x with
  | zero => exact h
  | succ n ih =>
      rcases h with hx | ⟨hx, hfirm, houter⟩
      · exact Or.inl (hcontains x hx)
      · refine Or.inr ⟨fun h => hx (hhas x h), fun h => habsent _ (hfirm h), ?_⟩
        -- What is asked for later would have been asked for before.
        rintro parent ⟨info, node, hinfo, hnode, hparent, hcase⟩
        refine ih (houter parent ⟨info, node, hinfo, hnode, hparent, hcase.imp_left ?_⟩)
        rintro ⟨hspace, hnone⟩
        refine ⟨hspace, Bool.eq_false_iff.2 fun hc => ?_⟩
        rw [hspaces parent hc] at hnone
        cases hnone

/-- A settled symbol stays settled. -/
theorem SettledIn.onward {ctx : Context} {s s' : State} {n : Nat} {x : SymbolId}
    (h : SettledIn ctx.program s n x) (ho : ctx.Onward s s') : SettledIn ctx.program s' n x :=
  h.mono (fun _ => ho.changes.contains) (fun y => (ho.lasts.hasReference_iff y).1)
    (fun _ => ho.lasts.stillAbsent) (fun _ => ho.changes.containsSpace)

/-- What was asked for is settled. -/
theorem Context.reference_settledIn {ctx : Context} (hhome : ctx.program.MembersAtHome) {n : Nat}
    {x : SymbolId} {s s' : State} {t t' : Trail} {o : Option Reference} (hs : ctx.Grounded s)
    (hrun : ctx.reference n x s t = .ok ((o, s'), t')) : SettledIn ctx.program s' n x := by
  induction n generalizing x s s' t t' o with
  | zero => cases hrun
  | succ n ih =>
      have hreply := reference_replies hs hrun
      have honward := reference_onward hs hrun
      cases o with
      | some ref => exact Or.inl (hreply.entered ref rfl)
      | none =>
          have hhas := hreply.not_hasReference rfl
          refine Or.inr ⟨fun h => hhas ((honward.lasts.hasReference_iff x).1 h),
            fun hfirm => absent_of_refused hhome hs hfirm hrun, ?_⟩
          intro parent hasks
          -- What would be asked for now was asked for then.
          have hbefore : ctx.program.Asks s (ctx.program.resolveAlias x) parent := by
            rw [ctx.program.asks_resolveAlias]
            rcases hasks with ⟨info, node, hinfo, hnode, hparent, hcase⟩
            refine ⟨info, node, hinfo, hnode, hparent, hcase.imp_left fun ⟨hspace, hnone⟩ => ?_⟩
            refine ⟨hspace, Bool.eq_false_iff.2 fun hc => ?_⟩
            rw [honward.changes.containsSpace hc] at hnone
            cases hnone
          cases reference_outcome hrun with
          | unknown _ _ hunknown =>
              rcases hasks with ⟨info, _, hinfo, _⟩
              rw [hunknown] at hinfo
              cases hinfo
          | resolved info _ _ t₁ _ _ hinfo hresolve _ =>
              rw [← ctx.program.hasReference_resolveAlias] at hhas
              rcases asked_of_refused hs (ctx.program.resolveAlias_resolveAlias x) hinfo hhas
                hresolve hbefore with ⟨s₁, t₁, o₁, s₂, t₂, hs₁, _, hask, hrest⟩
              exact (ih hs₁ hask).onward hrest

/-- Nothing was made, and at most known references were entered for symbols that stand for others.
    Not even that, if every member that an enumeration lists is declared. -/
structure Program.Quiet (p : Program) (s s' : State) : Prop where
  projects : s'.projects = s.projects
  namespaces : s'.namespaces = s.namespaces
  stringUtilities : s'.stringUtilities = s.stringUtilities
  notices : s'.notices = s.notices
  nextId : s'.registry.nextId = s.registry.nextId
  entries : ∀ x ref, s.registry.find? x = some ref → s'.registry.find? x = some ref
  own : ∀ x, p.resolveAlias x = x → s'.registry.find? x = s.registry.find? x
  still : (∀ x, p.Firm x) → s'.registry = s.registry

namespace Program.Quiet

variable {p : Program} {s s' s'' : State} {n : Nat} {x : SymbolId}

theorem refl (p : Program) (s : State) : p.Quiet s s :=
  ⟨rfl, rfl, rfl, rfl, rfl, fun _ _ h => h, fun _ _ => rfl, fun _ => rfl⟩

theorem trans (h : p.Quiet s s') (h' : p.Quiet s' s'') : p.Quiet s s'' where
  projects := h'.projects.trans h.projects
  namespaces := h'.namespaces.trans h.namespaces
  stringUtilities := h'.stringUtilities.trans h.stringUtilities
  notices := h'.notices.trans h.notices
  nextId := h'.nextId.trans h.nextId
  entries := fun x ref hx => h'.entries x ref (h.entries x ref hx)
  own := fun x hx => (h'.own x hx).trans (h.own x hx)
  still := fun hfirm => (h'.still hfirm).trans (h.still hfirm)

theorem withDepth (h : p.Quiet s s') (d : Nat) : p.Quiet s { s' with depth := d } :=
  h.trans ⟨rfl, rfl, rfl, rfl, rfl, fun _ _ h => h, fun _ _ => rfl, fun _ => rfl⟩

/-- A symbol that stands for another gets a reference, if not all members are declared. -/
theorem link (hx : s.registry.find? x = none) (hne : p.resolveAlias x ≠ x)
    (hloose : ¬ ∀ y, p.Firm y) (ref : Reference) :
    p.Quiet s { s with registry := s.registry.insert x ref } := by
  refine ⟨rfl, rfl, rfl, rfl, rfl, fun y ref' hy => ?_, fun y hy => ?_, fun h => absurd h hloose⟩
  · have hyx : y ≠ x := by
      rintro rfl
      rw [hx] at hy
      cases hy
    rw [Registry.find?_insert, if_neg hyx]
    exact hy
  · have hyx : y ≠ x := by
      rintro rfl
      exact hne hy
    rw [Registry.find?_insert, if_neg hyx]

theorem contains (h : p.Quiet s s') (hx : s.registry.contains x = true) :
    s'.registry.contains x = true := by
  rcases (Registry.contains_iff _ _).1 hx with ⟨ref, href⟩
  exact Registry.contains_of_find? (h.entries x ref href)

/-- A settled symbol stays settled. -/
theorem settledIn (h : p.Quiet s s') (hx : SettledIn p s n x) : SettledIn p s' n x := by
  refine hx.mono (fun _ => h.contains) (fun y hy => ?_) (fun y hy => ?_) (fun y hy => ?_)
  · rwa [h.projects] at hy
  · refine ⟨hy.self, ?_, ?_, fun owner hlists hmember hhas => ?_⟩
    · rw [h.own y hy.self, hy.find?]
    · rw [h.projects]
      exact hy.hopeless
    · rw [h.projects] at hhas
      exact h.contains (hy.closed owner hlists hmember hhas)
  · rwa [h.namespaces]

end Program.Quiet

namespace Calls

variable {calls : Calls} {ctx : Context} {n : Nat} {x : SymbolId} {s : State} {t : Trail}
  {info : SymbolInfo} {node : NodeInfo}

/-- Questions for symbols that are settled in `n` steps are answered, and quiet. -/
def Quiet (calls : Calls) (ctx : Context) (n : Nat) : Prop :=
  ∀ x s t, SettledIn ctx.program s n x →
    Action.Returns s t (calls.reference x) fun _ s' => ctx.program.Quiet s s'

/-- The namespace around a symbol without a reference is asked for in vain. -/
theorem registerEnclosing?_again (hcalls : calls.Quiet ctx n)
    (hself : ctx.program.resolveAlias x = x) (hinfo : ctx.program.symbol? x = some info)
    (hnode : ctx.program.declarationOf? info = some node) (hx : s.registry.find? x = none)
    (houter : ∀ parent, ctx.program.Asks s x parent → SettledIn ctx.program s n parent) :
    Action.Returns s t (calls.registerEnclosing? ctx x info) fun o s' =>
      o = none ∧ ctx.program.Quiet s s' := by
  unfold registerEnclosing?
  split
  · exact .pure ⟨rfl, .refl _ s⟩
  · rename_i parent hparent
    refine .get ?_
    split
    · rename_i hcase
      simp only [Bool.and_eq_true, Bool.not_eq_true'] at hcase
      -- The namespace is one that was asked for.
      have hasks : ctx.program.Asks s x parent :=
        ⟨info, node, by rw [hself, hinfo], hnode, hparent, Or.inl ⟨hcase.2, hcase.1⟩⟩
      refine (hcalls parent s t (houter parent hasks)).bind fun o s₁ t₁ hquiet => ?_
      exact ⟨_, s₁, t₁, rfl, by rw [hquiet.own x hself, hx], hquiet⟩
    · exact .pure ⟨rfl, .refl _ s⟩

/-- The enumeration around a member without a reference is asked for, and does not enter it. -/
theorem enumMemberReference?_again (hcalls : calls.Quiet ctx n)
    (hself : ctx.program.resolveAlias x = x) (hx : s.registry.find? x = none)
    (houter : ∀ parent, info.parent = some parent → SettledIn ctx.program s n parent) :
    Action.Returns s t (calls.enumMemberReference? x info) fun o s' =>
      o = none ∧ ctx.program.Quiet s s' := by
  have hzero : ctx.program.Quiet s { s with depth := 0 } :=
    (Program.Quiet.refl _ s).withDepth 0
  unfold enumMemberReference?
  refine .takeDepth ?_
  split
  · exact .pure ⟨rfl, hzero⟩
  · rename_i parent hparent
    refine (hcalls parent _ t (hzero.settledIn (houter parent hparent))).bind
      fun o s₁ t₁ hquiet => ?_
    -- The member stands for itself, so nothing was entered for it.
    have hquiet := hzero.trans hquiet
    cases o with
    | none => exact .pure ⟨rfl, hquiet⟩
    | some ref =>
        exact ⟨_, { s₁ with depth := s.depth }, t₁, rfl, by rw [hquiet.own x hself, hx],
          hquiet.withDepth s.depth⟩

/-- A symbol that stands for itself and can have no reference is resolved in vain. -/
theorem resolveSymbol_again (hcalls : calls.Quiet ctx n) (hself : ctx.program.resolveAlias x = x)
    (hinfo : ctx.program.symbol? x = some info) (hx : s.registry.find? x = none)
    (hhas : ¬ ctx.program.HasReference s.projects x)
    (houter : ∀ parent, ctx.program.Asks s x parent → SettledIn ctx.program s n parent) :
    Action.Returns s t (calls.resolveSymbol ctx x info) fun o s' =>
      o = none ∧ ctx.program.Quiet s s' := by
  -- Whatever would give a reference is excluded, one branch after the other.
  rw [Program.hasReference_of_self hself hinfo] at hhas
  unfold resolveSymbol
  rw [if_neg fun hkind => hhas (Or.inl hkind)]
  cases hnode : ctx.program.declarationOf? info with
  | none => exact .pure ⟨rfl, .refl _ s⟩
  | some node =>
      -- It is inside, or it would have a reference.
      have hin : ¬ ctx.isExternalFile s node.file = true :=
        fun hout => hhas (Or.inr ⟨node, hnode, Or.inl hout⟩)
      have hreg : ctx.program.isRegistrable x info node = false :=
        Bool.eq_false_iff.2 fun hreg => hhas (Or.inr ⟨node, hnode, Or.inr hreg⟩)
      refine .get ?_
      rw [if_neg hin]
      refine (registerEnclosing?_again hcalls hself hinfo hnode hx houter).bind
        fun o s₁ t₁ hencl => ?_
      rcases hencl with ⟨rfl, hquiet⟩
      have hx₁ : s₁.registry.find? x = none := by rw [hquiet.own x hself, hx]
      unfold registerSymbol
      by_cases hkind : info.kind = .enumMember
      · rw [if_pos hkind]
        refine (enumMemberReference?_again hcalls hself hx₁ fun parent hparent => ?_).mono
          fun o s' h => ⟨h.1, hquiet.trans h.2⟩
        -- What the member is inside of is settled, before and after the namespace was asked for.
        refine hquiet.settledIn (houter parent ?_)
        exact ⟨info, node, by rw [hself, hinfo], hnode, hparent, Or.inr hkind⟩
      · rw [if_neg hkind, registerDeclaration_eq_none calls ctx x info node hreg]
        exact ⟨none, s₁, t₁, rfl, rfl, hquiet⟩

/-- A question for a settled symbol, one step further in. -/
theorem referenceStep_again (hcalls : calls.Quiet ctx n)
    (h : SettledIn ctx.program s (n + 1) x) :
    Action.Returns s t (calls.referenceStep ctx x) fun o s' =>
      ctx.program.Quiet s s' ∧ (∀ ref, s.registry.find? x = some ref → o = some ref) ∧
        (s.registry.find? x = none → ctx.program.Firm (ctx.program.resolveAlias x) → o = none) := by
  unfold referenceStep
  refine .entered? ?_
  cases hx : s.registry.find? x with
  | some ref => exact .pure ⟨.refl _ s, fun _ href => href, nofun⟩
  | none =>
      dsimp only
      rcases h with hc | ⟨hhas, habsent, houter⟩
      · rcases (Registry.contains_iff _ _).1 hc with ⟨ref, href⟩
        rw [hx] at href
        cases href
      · rw [← ctx.program.hasReference_resolveAlias] at hhas
        have houter : ∀ parent, ctx.program.Asks s (ctx.program.resolveAlias x) parent →
            SettledIn ctx.program s n parent := by
          intro parent hasks
          exact houter parent ((ctx.program.asks_resolveAlias s x parent).1 hasks)
        -- It stands for itself, or for another that can have no reference either.
        by_cases hself : ctx.program.resolveAlias x = x
        · rw [hself] at hhas houter
          rw [if_pos hself]
          cases hinfo : ctx.program.symbol? x with
          | none => exact .pure ⟨.refl _ s, nofun, fun _ _ => rfl⟩
          | some info =>
              exact (resolveSymbol_again hcalls hself hinfo hx hhas houter).mono
                fun _ _ h => ⟨h.2, nofun, fun _ _ => h.1⟩
        · rw [if_neg hself]
          refine .entered? ?_
          cases htarget : s.registry.find? (ctx.program.resolveAlias x) with
          | some ref =>
              -- The symbol stands for a member that has got a reference since.
              have hloose : ¬ ctx.program.Firm (ctx.program.resolveAlias x) := by
                intro hfirm
                have hnone := (habsent hfirm).find?
                rw [htarget] at hnone
                cases hnone
              have hquiet := Program.Quiet.link hx hself (fun hall => hloose (hall _)) ref
              exact ⟨some ref, _, t, rfl, hquiet, nofun, fun _ hfirm => absurd hfirm hloose⟩
          | none =>
              dsimp only
              cases hinfo : ctx.program.symbol? (ctx.program.resolveAlias x) with
              | none => exact .pure ⟨.refl _ s, nofun, fun _ _ => rfl⟩
              | some info =>
                  refine (resolveSymbol_again hcalls (ctx.program.resolveAlias_resolveAlias x)
                    hinfo htarget hhas houter).bind fun o s' t' hnone => ?_
                  rcases hnone with ⟨rfl, hquiet⟩
                  exact .pure ⟨hquiet, nofun, fun _ _ => rfl⟩

end Calls

namespace Context

variable {ctx : Context} {x : SymbolId} {s : State}

/-- A question for a settled symbol, which is put on the trail first. -/
theorem reference_again_succ {n : Nat}
    (hcalls : Calls.Quiet ⟨ctx.reference n, ctx.normalize n⟩ ctx n)
    (h : SettledIn ctx.program s (n + 1) x) (t : Trail) :
    Action.Returns s t (ctx.reference (n + 1) x) fun o s' =>
      ctx.program.Quiet s s' ∧ (∀ ref, s.registry.find? x = some ref → o = some ref) ∧
        (s.registry.find? x = none → ctx.program.Firm (ctx.program.resolveAlias x) → o = none) := by
  rcases Calls.referenceStep_again (t := s :: t) hcalls h with ⟨o, s', t', hrun, hpost⟩
  refine ⟨o, s', t', ?_, hpost⟩
  simp only [Context.reference]
  exact hrun

/-- Questions are quiet in any number of steps. -/
theorem quiet_calls (ctx : Context) (n : Nat) :
    Calls.Quiet ⟨ctx.reference n, ctx.normalize n⟩ ctx n := by
  induction n with
  | zero => exact fun _ _ _ h => h.elim
  | succ n ih => exact fun x s t h => (reference_again_succ ih h t).mono fun _ _ hpost => hpost.1

/-- A question for a settled symbol is answered, and quiet. -/
theorem reference_again {n : Nat} (h : SettledIn ctx.program s n x) (t : Trail) :
    Action.Returns s t (ctx.reference n x) fun o s' =>
      ctx.program.Quiet s s' ∧ (∀ ref, s.registry.find? x = some ref → o = some ref) ∧
        (s.registry.find? x = none → ctx.program.Firm (ctx.program.resolveAlias x) → o = none) := by
  cases n with
  | zero => exact h.elim
  | succ n => exact reference_again_succ (ctx.quiet_calls n) h t

end Context

end DocModel
