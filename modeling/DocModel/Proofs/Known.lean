import DocModel.Proofs.Exports
import DocModel.Proofs.Retry

/-!
# Answers that stay

While something is worked on, much is in between. A member of an enumeration has a reference before
its enumeration is asked for, and an enumeration has one before its members are entered. Nothing is
in between when a file is extracted and its exports are asked for one by one. What is answered then
is known from then on.

How much is known depends on the members of enumerations. A member may be declared nowhere, or stand
for something else, and then a question for it that had no answer may have one later. Where no
enumeration lists such a member, the answer stays whatever it was. In any case a question that is
asked again makes nothing new.

## Main definitions

* `Context.AtRest`: A state in which nothing is being worked on.
* `Program.MembersFirm`: Enumerations list members that are declared and stand for themselves.
* `Context.Known`: What is known of a symbol that has been asked for.

## Theorems

* `Context.AtRest.found_of_answer`: An answer is what is entered for the symbol.
* `Context.AtRest.known`: A symbol that has been asked for is known.
* `Context.Known.onward`: It stays known.
* `Context.Known.again`: Asking for it once more makes nothing new.
-/

namespace DocModel

/-- Members of enumerations are declared, and stand for themselves. -/
def Program.MembersFirm (p : Program) : Prop :=
  ∀ owner x info, p.Lists owner x → p.symbol? x = some info → info.kind = .enumMember →
    p.resolveAlias x = x ∧ ∃ node, p.declarationOf? info = some node

/-- Every symbol that an enumeration lists is declared. -/
theorem Program.MembersFirm.firm {p : Program} (h : p.MembersFirm) (x : SymbolId) : p.Firm x :=
  fun owner info hlists hinfo hkind => (h owner x info hlists hinfo hkind).2

/-- What stands for another is no member of an enumeration. -/
theorem Program.MembersFirm.not_member {p : Program} (h : p.MembersFirm) {owner x : SymbolId}
    (hx : p.resolveAlias x ≠ x) (hlists : p.Lists owner x) : p.isEnumMember x = false := by
  rw [Bool.eq_false_iff]
  intro hmember
  rcases Program.exists_symbol?_of_isEnumMember hmember with ⟨info, hinfo, hkind⟩
  exact hx (h owner x info hlists hinfo hkind).1

namespace Context

/-- A state in which nothing is being worked on, with the trail. -/
structure AtRest (ctx : Context) (s : State) (t : Trail) : Prop where
  grounded : ctx.Grounded s
  housed : ∀ x, ctx.program.resolveAlias x = x → ctx.program.isEnumMember x = true →
    s.registry.contains x = true → ctx.program.Housed s x
  moment : ∃ m : Moment ctx.program, m.state = s ∧ m.trail = t ∧ m.opened = []

variable {ctx : Context} {n : Nat} {x : SymbolId} {s s' : State} {t t' : Trail}
  {o : Option Reference}

/-- Work that leaves nothing open leads from rest to rest. -/
theorem AtRest.of_gives {α : Type} {act : Action α} {refs : α → List Reference} {ok : α → Prop}
    {a : α} {d : Nat} (h : ctx.AtRest s t) (hgives : Gives ctx ctx.steps [] [] act refs ok)
    (hfrom : ctx.From (fun _ _ => True) s d s') (hrun : act s t = .ok ((a, s'), t')) :
    ctx.AtRest s' t' := by
  refine ⟨hfrom.grounded h.grounded, fun x hself hmember hx => ?_, ?_⟩
  · -- A member was there before, or it has come with its enumeration.
    rcases hfrom.housed x hself hmember hx with hx | hhoused
    · exact hfrom.changes.housed (h.housed x hself hmember hx)
    · exact hhoused
  · rcases h.moment with ⟨m, rfl, rfl, hopened⟩
    have hmeets := hgives m hopened (List.forall_mem_nil _)
    rcases hmeets.holds a s' t' hrun with ⟨m', hstate, htrail, hleads, _⟩
    exact ⟨m', hstate, htrail, hleads.opened.trans hopened⟩

/-- Asking for a symbol leaves nothing open. -/
theorem AtRest.referenceOf (h : ctx.AtRest s t)
    (hrun : ctx.referenceOf x s t = .ok ((o, s'), t')) : ctx.AtRest s' t' :=
  h.of_gives (ctx.gives_referenceOf x) (reference_replies h.grounded hrun).toFrom hrun

theorem AtRest.resolveModule? {file : Path} {handle : Option ModuleHandle} (h : ctx.AtRest s t)
    (hrun : Action.resolveModule? file s t = .ok ((handle, s'), t')) : ctx.AtRest s' t' :=
  h.of_gives (ctx.gives_resolveModule? file) (From.resolveModule? _ h.grounded hrun).1 hrun

/-- No enumeration is left that could enter what has a reference at rest. -/
theorem AtRest.closed (h : ctx.AtRest s t) (hhome : ctx.program.MembersAtHome)
    (hfirm : ctx.program.MembersFirm) (hx : s.registry.contains x = true) :
    ctx.program.Closed s x := by
  intro owner hlists hmember
  rcases Program.exists_symbol?_of_isEnumMember hmember with ⟨info, hinfo, hkind⟩
  have hself := (hfirm owner x info hlists hinfo hkind).1
  exact (h.housed x hself hmember hx).closed hhome owner hlists hmember

/-- A member from outside has the reference that was entered for it in the end. -/
theorem find?_of_externalReference {info : SymbolInfo} {node : NodeInfo} {ref : Reference}
    (hhome : ctx.program.MembersAtHome) (hs : ctx.Grounded s)
    (hinfo : ctx.program.symbol? x = some info)
    (hrun : Calls.externalReference ⟨ctx.reference n, ctx.normalize n⟩ ctx x info node s t =
      .ok ((ref, s'), t')) : s'.registry.find? x = some ref := by
  rcases Calls.externalReference_ends x ref s' t' hrun with ⟨ref₁, s₁, hs₁, hcase⟩
  have hfind : s₁.registry.find? x = some ref₁ := by
    rw [hs₁, Registry.find?_insert, if_pos rfl]
  rcases hcase with ⟨_, rfl, rfl⟩ | ⟨parent, o, s₂, t₂, hkind, hparent, hask, hcase⟩
  · exact hfind
  · rcases hcase with ⟨rfl, rfl, rfl⟩ | ⟨outer, _, _, rfl⟩
    · -- The enumeration can have no reference, so it does not enter the member either.
      have hgrounded : ctx.Grounded s₁ := by
        rw [hs₁]
        exact ⟨hs.trees, hs.located, hs.spaces⟩
      have hrefused := (reference_replies hgrounded hask).not_hasReference rfl
      refine (reference_lasts hask).entries x ref (fun owner hlists _ howner => ?_) hfind
      rw [hhome owner x info hlists hinfo hkind, Option.some.injEq] at hparent
      rw [hparent] at howner
      exact absurd howner hrefused
    · rw [Registry.find?_insert, if_pos rfl]

/-- An answer that is given at rest is what is entered for the symbol. -/
theorem AtRest.found_of_answer (h : ctx.AtRest s t) (hhome : ctx.program.MembersAtHome)
    {ref : Reference} (hrun : ctx.reference n x s t = .ok ((some ref, s'), t')) :
    s'.registry.find? x = some ref := by
  cases n with
  | zero => cases hrun
  | succ n =>
    -- The answer was there, was taken over from another symbol, or was made.
    cases reference_outcome hrun with
    | found _ hx => exact hx
    | linked => rw [Registry.find?_insert, if_pos rfl]
    | passedOn => rw [Registry.find?_insert, if_pos rfl]
    | resolved info _ _ t₁ _ _ hinfo hresolve hself =>
      rcases hself with hnone | hself
      · cases hnone
      · rw [hself] at hinfo hresolve
        -- A member may be entered by its enumeration, behind the back of the question.
        by_cases hkind : info.kind = .enumMember
        · have hother : info.kind ≠ .typeParameter := by
            rw [hkind]
            exact nofun
          cases hnode : ctx.program.declarationOf? info with
          | none => cases (Calls.resolveSymbol_undeclared hother hnode hresolve).1
          | some node =>
            cases hout : ctx.program.isOutside s.projects node.file with
            | true =>
              rcases Calls.resolveSymbol_outside hother hnode hout hresolve with
                ⟨ref', t₂, href, hext⟩
              rw [href]
              exact find?_of_externalReference hhome h.grounded hinfo hext
            | false =>
              have horderly := ctx.orderly (Ty.law_true ctx.settings.maxTypeDepth) n
              rcases horderly.resolveSymbol_member h.grounded hkind hnode hout hresolve with
                hfind | ⟨hnone, _⟩
              · exact hfind.symm
              · cases hnone
        · -- Whatever is no member of an enumeration keeps its reference once it has one.
          have hown : ctx.program.IsOwn x := by
            refine ⟨hself, ?_⟩
            rw [Program.isEnumMember_of_symbol? hinfo, beq_eq_false_iff_ne]
            exact hkind
          rcases h.moment with ⟨m, rfl, rfl, _⟩
          rcases ((ctx.sound (n + 1)).reference x m).holds _ _ _ hrun with
            ⟨m', rfl, _, hanswered⟩
          exact hanswered.find?_of_some ref rfl hown.isPlain

/-- What is asked for in vain had no reference. -/
theorem find?_eq_none_of_refused (hrun : ctx.reference n x s t = .ok ((none, s'), t')) :
    s.registry.find? x = none := by
  cases n with
  | zero => cases hrun
  | succ n =>
    cases reference_outcome hrun with
    | unknown hx => exact hx
    | resolved _ _ _ _ hx => exact hx

/-- A symbol that stands for what never gets a reference gets none itself. -/
theorem Onward.find?_eq_none (h : ctx.Onward s s') (hfirm : ctx.program.MembersFirm)
    (hx : s.registry.find? x = none)
    (habsent : ctx.program.Absent s' (ctx.program.resolveAlias x)) :
    s'.registry.find? x = none := by
  by_cases hself : ctx.program.resolveAlias x = x
  · rw [hself] at habsent
    exact habsent.find?
  · cases hfind : s'.registry.find? x with
    | none => rfl
    | some ref =>
      -- A reference for it would be that of what it stands for.
      rcases h.changes.linked hself (fun owner => hfirm.not_member hself)
        (Registry.contains_of_find? hfind) with hc | hc
      · rcases (Registry.contains_iff _ _).1 hc with ⟨ref', href'⟩
        rw [hx] at href'
        cases href'
      · rcases (Registry.contains_iff _ _).1 hc with ⟨ref', href'⟩
        rw [habsent.find?] at href'
        cases href'

/-- What is known of a symbol that has been asked for, with the answer. -/
structure Known (ctx : Context) (x : SymbolId) (o : Option Reference) (s : State) : Prop where
  settled : SettledIn ctx.program s ctx.steps x
  entered : ∀ ref, o = some ref → s.registry.contains x = true
  absent : o = none → ctx.program.Firm (ctx.program.resolveAlias x) →
    ctx.program.Absent s (ctx.program.resolveAlias x)
  find? : ctx.program.MembersFirm → s.registry.find? x = o
  closed : ctx.program.MembersFirm → ∀ ref, o = some ref → ctx.program.Closed s x

/-- A symbol that has been asked for at rest is known. -/
theorem AtRest.known (h : ctx.AtRest s t) (hhome : ctx.program.MembersAtHome)
    (hrun : ctx.referenceOf x s t = .ok ((o, s'), t')) : ctx.Known x o s' := by
  have hreply := reference_replies h.grounded hrun
  have habsent : o = none → ctx.program.Firm (ctx.program.resolveAlias x) →
      ctx.program.Absent s' (ctx.program.resolveAlias x) := by
    rintro rfl hfirm
    exact absent_of_refused hhome h.grounded hfirm hrun
  refine ⟨reference_settledIn hhome h.grounded hrun, hreply.entered, habsent,
    fun hfirm => ?_, fun hfirm ref ho => ?_⟩
  · cases o with
    | some ref => exact h.found_of_answer hhome hrun
    | none =>
      refine (reference_onward h.grounded hrun).find?_eq_none hfirm ?_
        (habsent rfl (hfirm.firm _))
      exact find?_eq_none_of_refused hrun
  · exact (h.referenceOf hrun).closed hhome hfirm (hreply.entered ref ho)

/-- It stays known. -/
theorem Known.onward (h : ctx.Known x o s) (ho : ctx.Onward s s') : ctx.Known x o s' where
  settled := h.settled.onward ho
  entered := fun ref href => ho.changes.contains (h.entered ref href)
  absent := fun hnone hfirm => ho.lasts.stillAbsent (h.absent hnone hfirm)
  find? := fun hfirm => by
    -- No enumeration enters it any more, nor anything that it stands for.
    have hfind := h.find? hfirm
    cases o with
    | some ref => exact ho.lasts.entries x ref (h.closed hfirm ref rfl) hfind
    | none =>
      exact ho.find?_eq_none hfirm hfind (ho.lasts.stillAbsent (h.absent rfl (hfirm.firm _)))
  closed := fun hfirm ref href => ho.lasts.closed (h.closed hfirm ref href)

/-- The same extraction with other resolvers and listeners. -/
def among (ctx : Context) (resolvers : List Resolver) (listeners : List String) : Context :=
  { ctx with resolvers, listeners }

/-- Asking once more for what is known makes nothing new. There is an answer if there was one, as
    long as the symbol stands for itself and is declared if an enumeration lists it. -/
theorem Known.again (h : ctx.Known x o s) (resolvers : List Resolver) (listeners : List String)
    (t : Trail) :
    Action.Returns s t ((ctx.among resolvers listeners).referenceOf x) fun o' s' =>
      ctx.program.Quiet s s' ∧ (ctx.program.MembersFirm → o' = o) ∧
        (ctx.program.resolveAlias x = x → ctx.program.Firm x → o'.isSome = o.isSome) := by
  -- Being settled is about the program and the state, not about who listens.
  have hsettled : SettledIn (ctx.among resolvers listeners).program s
      (ctx.among resolvers listeners).steps x := h.settled
  refine (reference_again hsettled t).mono ?_
  rintro o' s' ⟨hquiet, hfound, hnone⟩
  refine ⟨hquiet, fun hfirm => ?_, fun hself hfirm => ?_⟩
  · have hfind := h.find? hfirm
    cases o with
    | some ref => exact hfound ref hfind
    | none => exact hnone hfind (hfirm.firm _)
  · cases o with
    | some ref =>
      rcases (Registry.contains_iff _ _).1 (h.entered ref rfl) with ⟨ref', href'⟩
      rw [hfound ref' href']
      rfl
    | none =>
      have htarget : ctx.program.Firm (ctx.program.resolveAlias x) := by
        rw [hself]
        exact hfirm
      have habsent := h.absent rfl htarget
      rw [hself] at habsent
      rw [hnone habsent.find? htarget]

end Context

end DocModel
