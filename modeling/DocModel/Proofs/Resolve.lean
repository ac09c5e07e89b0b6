import DocModel.Proofs.Sorts

/-!
# One step of looking up a reference

What is known after one step holds of the next. A step looks in the registry, then asks for what the
symbol stands for; and where that has no reference yet, it makes one. A symbol from outside is
entered as it is. Of a symbol of the analysed sources, the namespace around it is asked for first,
which may register the symbol along with the rest of the namespace; if it did not, the symbol is
registered, a member of an enumeration along with the enumeration.

The induction over nested steps then gives what holds of every extraction.

## Main definitions

* `AskedAround`: What is known after the namespace around a symbol was asked for.

## Theorems

* `Calls.Sound.meets_resolveSymbol`: The reference of a symbol that has none yet.
* `Calls.Sound.meets_referenceStep`: The reference of a symbol.
* `Context.sound`: Looking up references and building types do what is expected, in any number of
  nested steps.
-/

namespace DocModel

/-- A settled symbol without a reference stands for a settled one. -/
theorem Settled.resolveAlias {p : Program} {s : State} {x : SymbolId} (h : Settled p s x)
    (hnone : s.registry.find? x = none) : Settled p s (p.resolveAlias x) := by
  rcases h.hopeless_of_find? hnone with ⟨hno, houter⟩
  refine .hopeless (by rwa [p.hasReference_resolveAlias]) fun parent ha => houter parent ?_
  exact (p.asks_resolveAlias s x parent).1 ha

/-- A symbol and what it stands for need the same room. -/
theorem RoomFor.resolveAlias {ctx : Context} {n : Nat} {x : SymbolId} {m : Moment ctx.program}
    (h : RoomFor ctx n x m) : RoomFor ctx n (ctx.program.resolveAlias x) m := by
  refine ⟨h.acyclic, h.enclosed, ?_⟩
  unfold Program.rank
  rw [ctx.program.resolveAlias_resolveAlias]
  exact h.steps

namespace Answered

variable {ctx : Context} {x : SymbolId} {m m₁ m' : Moment ctx.program} {o : Option Reference}
  {ref : Reference}

/-- A reference that is entered is an answer. -/
theorem of_find? (hl : Leads ctx m m') (hf : m'.state.registry.find? x = some ref)
    (hq : Settled ctx.program m.state x → ∀ y, ctx.program.IsOwn y →
      m'.state.registry.find? y = m.state.registry.find? y) : Answered ctx x m (some ref) m' :=
  { hl with
    made_of_some := fun r hr => by
      rw [← Option.some.inj hr]
      exact m'.ledger.registry x ref hf
    contains_of_some := fun _ _ => Registry.contains_of_find? hf
    find?_of_some := fun r hr _ => by rw [hf, hr]
    not_referable := fun hn => by cases hn
    settled_outer := fun hn => by cases hn
    quiet := hq }

/-- A symbol without a reference has no answer. -/
theorem of_not_referable (hl : Leads ctx m m') (hn : ¬ ctx.program.Referable m.state x)
    (ho : ∀ parent, ctx.program.Asks m'.state x parent → Settled ctx.program m'.state parent)
    (hq : Settled ctx.program m.state x → ∀ y, ctx.program.IsOwn y →
      m'.state.registry.find? y = m.state.registry.find? y) : Answered ctx x m none m' :=
  { hl with
    made_of_some := fun _ hr => by cases hr
    contains_of_some := fun _ hr => by cases hr
    find?_of_some := fun _ hr => by cases hr
    not_referable := fun _ => hn
    settled_outer := fun _ => ho
    quiet := hq }

/-- Work before the question that is quiet itself. -/
theorem after (h : Answered ctx x m₁ o m') (hl : Leads ctx m m₁)
    (hq : Settled ctx.program m.state x → ∀ y, ctx.program.IsOwn y →
      m₁.state.registry.find? y = m.state.registry.find? y) : Answered ctx x m o m' :=
  { hl.trans h.toLeads with
    made_of_some := h.made_of_some
    contains_of_some := h.contains_of_some
    find?_of_some := h.find?_of_some
    not_referable := fun hn hr => h.not_referable hn (hr.mono hl.projects hl.contains)
    settled_outer := h.settled_outer
    quiet := fun hs y hy => by rw [h.quiet (hs.before hl.toBefore) y hy, hq hs y hy] }

/-- A symbol that stands for another has no answer if the other has none. -/
theorem of_resolveAlias (h : Answered ctx (ctx.program.resolveAlias x) m none m')
    (hnone : m.state.registry.find? x = none) : Answered ctx x m none m' := by
  refine of_not_referable h.toLeads ?_ (fun parent ha => ?_) fun hs => ?_
  · -- A reference is to come, the symbol has one, or the other has.
    rintro (hhas | hc | hc)
    · rw [← Program.hasReference_resolveAlias] at hhas
      exact h.not_hasReference rfl hhas
    · exact Registry.not_contains_of_find? hnone hc
    · exact h.not_referable rfl (Or.inr (Or.inl hc))
  · exact h.settled_outer rfl parent ((ctx.program.asks_resolveAlias _ x parent).2 ha)
  · exact h.quiet (hs.resolveAlias hnone)

end Answered

/-- Entering the reference of what a symbol stands for. -/
theorem meets_link {ctx : Context} {x : SymbolId} {m m₁ : Moment ctx.program} {ref : Reference}
    {averted : Failure → Prop} (ha : Answered ctx (ctx.program.resolveAlias x) m (some ref) m₁)
    (hnone : m.state.registry.find? x = none) (hother : ctx.program.resolveAlias x ≠ x) :
    Meets (do
      Action.enter x ref
      return some ref) m₁ averted (Answered ctx x m) := by
  have hmay : MayEnter ctx.program m₁.state.registry x ref :=
    .linked hother fun hp => ha.find?_of_some ref rfl hp.own.isPlain
  let m₂ := m₁.reentered x ref (ha.made_of_some ref rfl) hmay fun hself => absurd hself hother
  have hl : Leads ctx m m₂ := ha.toLeads.trans ((m₁.before_reentered x ref _ hmay _).leads rfl rfl)
  have hfind : ∀ y, m₂.state.registry.find? y =
      if y = x then some ref else m₁.state.registry.find? y :=
    fun y => Registry.find?_insert m₁.state.registry x y ref
  refine Meets.of_eq m₂ (a := some ref) rfl (Answered.of_find? hl (by rw [hfind, if_pos rfl]) ?_)
  -- Symbols with references of their own stand for themselves.
  intro hs y hy
  have hyx : y ≠ x := by
    rintro rfl
    exact hother hy.1
  rw [hfind, if_neg hyx, ha.quiet (hs.resolveAlias hnone) y hy]

/-- A symbol that has a reference to come, and none yet, is not settled. -/
theorem not_settled {p : Program} {s : State} {x : SymbolId} (hnone : s.registry.find? x = none)
    (hhas : p.HasReference s.projects x) : ¬ Settled p s x :=
  fun hs => (hs.hopeless_of_find? hnone).1 hhas

/-- What is known after the namespace around a symbol was asked for. -/
structure AskedAround (ctx : Context) (x : SymbolId) (info : SymbolInfo) (m : Moment ctx.program)
    (o : Option Reference) (m' : Moment ctx.program) : Prop extends Leads ctx m m' where
  find?_eq : m'.state.registry.find? x = o
  enclosed : Enclosed ctx.program m'.state info
  quiet : Settled ctx.program m.state x → ∀ (y : SymbolId), ctx.program.IsOwn y →
    m'.state.registry.find? y = m.state.registry.find? y

namespace Calls.Sound

variable {calls : Calls} {ctx : Context} {n : Nat} {x : SymbolId} {info : SymbolInfo}
  {node : NodeInfo}

/-- A symbol from outside gets a reference at once. A member of an enumeration is entered again with
    the enumeration around it, if that has a reference. -/
theorem meets_externalReference (h : calls.Sound ctx n) (m : Moment ctx.program)
    (hfresh : Fresh ctx m x info) (hnode : ctx.program.declarationOf? info = some node)
    (hout : ctx.program.isOutside m.state.projects node.file = true) :
    Meets (calls.externalReference ctx x info node) m (Averted ctx (RoomFor ctx (n + 1) x m) m)
      fun ref m' => Answered ctx x m (some ref) m' := by
  -- What is outside has a reference to come, so it can not be settled.
  have hhas : ctx.program.HasReference m.state.projects x :=
    (hfresh.hasReference_iff hnode _).2 (Or.inr (Or.inl hout))
  have hquiet : ∀ m' : Moment ctx.program, Settled ctx.program m.state x →
      ∀ y, ctx.program.IsOwn y → m'.state.registry.find? y = m.state.registry.find? y :=
    fun _ hs => absurd hs (not_settled hfresh.unentered hhas)
  unfold externalReference
  dsimp only
  generalize Resolver.first? ctx.resolvers _ = link
  let ref : Reference :=
    { Reference.make ⟨m.state.registry.nextId⟩ info.name info.kind.referenceKind with link }
  -- Members may be entered again, and the rest only once.
  have hx : ctx.program.isEnumMember x = true ∨
      ctx.program.IsOwn x ∧ m.state.registry.find? x = none := by
    by_cases hk : info.kind = .enumMember
    · exact Or.inl (hfresh.isEnumMember hk)
    · exact Or.inr ⟨hfresh.isOwn hk, hfresh.unentered⟩
  let m₁ := m.entered x ref none rfl
    (fun _ ho => absurd ho (by simp only [ref, Reference.make, reduceCtorEq, not_false_eq_true]))
    hx (fun _ hp => absurd hp Bool.false_ne_true)
    (fun _ hp => absurd hp (by simp only [ref, Reference.make, reduceCtorEq, not_false_eq_true]))
    (fun _ he => by cases he)
  have hl₁ : Leads ctx m m₁ := (m.before_entered x ref none _ _ _ _ _ _).leads rfl rfl
  have hfind : m₁.state.registry.find? x = some ref := m.find?_nextRegistry x ref
  refine Meets.mintEnter m₁ rfl rfl ?_
  split
  · rename_i parent hkind hparent
    have hmember := hfresh.isEnumMember hkind
    have hnotPlain : ¬ ctx.program.IsPlain x := fun hp => by
      rw [hp.1] at hmember
      exact absurd hmember Bool.false_ne_true
    -- The symbol is entered by now, so there is room for any other.
    have hroom : RoomFor ctx (n + 1) x m → RoomFor ctx n parent m₁ := fun hroom =>
      (hroom.room hl₁.toBefore hfresh.mem_numbered hfresh.unentered
        (Registry.contains_of_find? hfind)).roomFor parent
    refine ((h.reference parent m₁).mono (Averted.before hl₁.toBefore hroom)
      fun _ _ ha => ha).bind ?_
    intro o m₂ ha
    have hl₂ := hl₁.trans ha.toLeads
    have hmade : m₂.made ref := ha.made ref (Or.inr rfl)
    cases o with
    | none =>
        -- The enumeration has no reference, and the first one stays.
        refine Meets.pure { hl₂ with
          made_of_some := fun r hr => by
            rw [← Option.some.inj hr]
            exact hmade
          contains_of_some := fun _ _ => ha.contains x (Registry.contains_of_find? hfind)
          find?_of_some := fun _ _ hp => absurd hp hnotPlain
          not_referable := fun hn => by cases hn
          settled_outer := fun hn => by cases hn
          quiet := hquiet m₂ }
    | some outer =>
        let ref' : Reference := { ref with parent := some outer }
        have hk : ref'.kind = .enumMember := by
          change info.kind.referenceKind = .enumMember
          rw [hkind]
          rfl
        -- The reference is made again with the enumeration in it. It keeps its number, which only
        -- members may do.
        let m₃ := m₂.remade ref' hk rfl (m₂.ledger.id_lt ref hmade) (fun q hq => by
          rw [← Option.some.inj hq]
          exact ha.made_of_some outer rfl)
        let m₄ := m₃.reentered x ref' (Or.inr rfl) (.member hmember) fun _ => rfl
        have hl₄ : Leads ctx m₂ m₄ := ((m₂.before_remade ref' _ _ _ _).trans
          (m₃.before_reentered x ref' _ _ _)).leads rfl rfl
        refine Meets.of_eq m₄ (a := ref') rfl (Answered.of_find? (hl₂.trans hl₄) ?_ (hquiet m₄))
        change (m₃.state.registry.insert x ref').find? x = some ref'
        rw [Registry.find?_insert, if_pos rfl]
  · exact Meets.pure (Answered.of_find? hl₁ hfind (hquiet m₁))

/-- The namespace around a symbol is asked for, unless it has a module already. -/
theorem meets_registerEnclosing? (h : calls.Sound ctx n) (m : Moment ctx.program)
    (hfresh : Fresh ctx m x info) (hnode : ctx.program.declarationOf? info = some node) :
    Meets (calls.registerEnclosing? ctx x info) m (Averted ctx (RoomFor ctx (n + 1) x m) m)
      (AskedAround ctx x info m) := by
  unfold registerEnclosing?
  split
  · -- Nothing is around it.
    rename_i hparent
    refine Meets.pure { Leads.refl m with
      find?_eq := hfresh.unentered
      enclosed := fun parent hp => ?_
      quiet := fun _ _ _ => rfl }
    rw [hparent] at hp
    cases hp
  · rename_i parent hparent
    refine Meets.get ?_
    split
    · rename_i hasked
      rw [Bool.and_eq_true, Bool.not_eq_true'] at hasked
      -- The namespace has no module yet, so it is asked for.
      have hasks : ctx.program.Asks m.state x parent :=
        ⟨info, node, hfresh.symbol?_resolveAlias, hnode, hparent, Or.inl ⟨hasked.2, hasked.1⟩⟩
      refine ((h.reference parent m).mono (Averted.mono fun hroom =>
        hroom.outer hfresh.symbol?_resolveAlias hparent (Or.inl hasked.2))
        fun _ _ ha => ha).bind fun o m₁ ha => ?_
      refine Meets.of_eq m₁ (a := m₁.state.registry.find? x) rfl { ha.toLeads with
        find?_eq := rfl
        enclosed := fun parent' hp _ => ?_
        quiet := fun hs => ha.quiet ((hs.hopeless_of_find? hfresh.unentered).2 parent hasks) }
      rw [hparent, Option.some.injEq] at hp
      rw [← hp]
      exact Or.inr ha.settled
    · rename_i hasked
      -- Otherwise it has one already, or it is no namespace at all.
      refine Meets.pure { Leads.refl m with
        find?_eq := hfresh.unentered
        enclosed := fun parent' hp hspace => Or.inl ?_
        quiet := fun _ _ _ => rfl }
      rw [hparent, Option.some.injEq] at hp
      rw [← hp] at hspace ⊢
      rw [hspace, Bool.and_true, Bool.not_eq_true', Bool.not_eq_false] at hasked
      exact hasked

/-- A member of an enumeration of the analysed sources is registered with the enumeration. The
    nesting depth is lost where the enumeration has no reference; that is why members have to be
    inside something that has one. -/
theorem meets_enumMemberReference? (h : calls.Sound ctx n) (m : Moment ctx.program)
    (hfresh : Fresh ctx m x info) (hnode : ctx.program.declarationOf? info = some node)
    (hin : ctx.program.isOutside m.state.projects node.file = false)
    (hkind : info.kind = .enumMember) :
    Meets (calls.enumMemberReference? x info) m (Averted ctx (RoomFor ctx (n + 1) x m) m)
      (Answered ctx x m) := by
  -- A member has no reference to come on its own account.
  have hhopeless : ¬ ctx.program.Referable m.state x := by
    refine hfresh.not_referable ?_
    rw [hfresh.hasReference_iff hnode, hkind, hin]
    rintro (htp | hfile | hreg)
    · cases htp
    · exact absurd hfile Bool.false_ne_true
    · exact absurd hkind (Program.isRegistrable_ne_enumMember hreg)
  let m₁ := m.withDepth 0
  have hdepth : Moment.Before ctx.listeners m m₁ := m.before_withDepth 0
  refine Meets.step m₁ (a := m.state.depth) rfl ?_
  split
  · rename_i hparent
    -- The depth is not set back here, which is what `MembersEnclosed` rules out.
    have hl : Leads ctx m m₁ :=
      { hdepth with
        opened := rfl
        depth := fun henclosed => by
          rcases henclosed x info node hfresh.symbol hkind hnode hin with ⟨parent, hp, _⟩
          rw [hparent] at hp
          cases hp }
    refine Meets.pure (Answered.of_not_referable hl hhopeless (fun parent ha => ?_)
      fun _ _ _ => rfl)
    rw [(hfresh.parent_of_asks ha).1] at hparent
    cases hparent
  · rename_i parent hparent
    have hasks : ctx.program.Asks m.state x parent :=
      ⟨info, node, hfresh.symbol?_resolveAlias, hnode, hparent, Or.inr hkind⟩
    refine ((h.reference parent m₁).mono (Averted.before hdepth fun hroom =>
      (hroom.before hdepth).outer hfresh.symbol?_resolveAlias hparent (Or.inr hkind))
      fun _ _ ha => ha).bind fun o m₂ ha => ?_
    have hb : Moment.Before ctx.listeners m m₂ := hdepth.trans ha.toBefore
    -- If the member was settled, so was the enumeration, and asking was quiet.
    have hquiet : Settled ctx.program m.state x → ∀ y, ctx.program.IsOwn y →
        m₂.state.registry.find? y = m.state.registry.find? y := fun hs =>
      ha.quiet (((hs.hopeless_of_find? hfresh.unentered).2 parent hasks).before hdepth)
    have houter : ∀ parent', ctx.program.Asks m₂.state x parent' →
        Settled ctx.program m₂.state parent' := by
      intro parent' hp
      have hp' := (hfresh.parent_of_asks hp).1
      rw [hparent, Option.some.injEq] at hp'
      rw [← hp']
      exact ha.settled
    cases o with
    | none =>
        -- Nor is it here: an enumeration that has no reference is ruled out as well.
        refine Meets.pure (Answered.of_not_referable { hb with opened := ha.opened, depth := ?_ }
          hhopeless houter hquiet)
        intro henclosed
        rcases henclosed x info node hfresh.symbol hkind hnode hin with ⟨parent', hp, hreferable⟩
        rw [hparent, Option.some.injEq] at hp
        rw [← hp] at hreferable
        exact absurd hreferable (ha.not_referable rfl)
    | some _ =>
        -- The enumeration has a reference, and the depth is set back.
        let m₃ := m₂.withDepth m.state.depth
        have hback : Moment.Before ctx.listeners m₂ m₃ := m₂.before_withDepth m.state.depth
        have hl : Leads ctx m m₃ :=
          { hb.trans hback with opened := ha.opened, depth := fun _ => rfl }
        refine Meets.step m₃ (a := ()) rfl ?_
        refine Meets.of_eq m₃ (a := m₃.state.registry.find? x) rfl ?_
        -- The enumeration may be open and not have come to the member yet.
        cases hf : m₃.state.registry.find? x with
        | some ref => exact Answered.of_find? hl hf hquiet
        | none =>
            exact Answered.of_not_referable hl hhopeless
              (fun parent' hp => (houter parent' (hp.of_before hback)).before hback) hquiet

/-- A symbol of the analysed sources is registered, if it can be. -/
theorem meets_registerSymbol (h : calls.Sound ctx n) (m : Moment ctx.program)
    (hfresh : Fresh ctx m x info) (hnode : ctx.program.declarationOf? info = some node)
    (hin : ctx.program.isOutside m.state.projects node.file = false)
    (htp : info.kind ≠ .typeParameter) (henclosed : Enclosed ctx.program m.state info) :
    Meets (calls.registerSymbol ctx x info node) m (Averted ctx (RoomFor ctx (n + 1) x m) m)
      (Answered ctx x m) := by
  unfold registerSymbol
  by_cases hkind : info.kind = .enumMember
  · rw [if_pos hkind]
    exact h.meets_enumMemberReference? m hfresh hnode hin hkind
  · rw [if_neg hkind]
    let m₁ := m.withDepth 0
    have hdepth : Moment.Before ctx.listeners m m₁ := m.before_withDepth 0
    refine Meets.step m₁ (a := m.state.depth) rfl ?_
    cases hreg : ctx.program.isRegistrable x info node with
    | false =>
        rw [registerDeclaration_eq_none calls ctx x info node hreg]
        -- Nothing happens. The namespace has been asked for, so nothing is left to ask.
        let m₂ := m₁.withDepth m.state.depth
        have hl : Leads ctx m m₂ :=
          (hdepth.trans (m₁.before_withDepth m.state.depth)).leads rfl rfl
        refine Meets.of_eq m₂ (a := none) rfl
          (Answered.of_not_referable hl (hfresh.not_referable ?_) (fun parent ha => ?_)
            fun _ _ _ => rfl)
        · rw [hfresh.hasReference_iff hnode, hin, hreg]
          rintro (htp' | hfile | hreg')
          · exact htp htp'
          · exact absurd hfile Bool.false_ne_true
          · exact absurd hreg' Bool.false_ne_true
        · rcases hfresh.parent_of_asks ha with ⟨hparent, ⟨hspace, hc⟩ | hk⟩
          · rcases henclosed parent hparent hspace with hc' | hs
            · rw [show m.state.namespaces.contains parent = false from hc] at hc'
              exact absurd hc' Bool.false_ne_true
            · exact hs.before hl.toBefore
          · exact absurd hk hkind
    | true =>
        -- It is registered, so it was not settled before.
        have hhas : ctx.program.HasReference m.state.projects x :=
          (hfresh.hasReference_iff hnode _).2 (Or.inr (Or.inr hreg))
        have hdue : Due ctx m₁ x info node :=
          { resolved := hfresh.resolved, symbol := hfresh.symbol, unentered := hfresh.unentered
            kind := hkind, declaration := hnode, inside := hin
            enclosed := fun parent hp hspace => (henclosed parent hp hspace).imp_right
              fun hs => hs.before hdepth }
        refine ((h.meets_registerDeclaration m₁ hdue hreg).mono
          (Averted.before hdepth fun hroom => hroom.before hdepth) fun _ _ hp => hp).bind ?_
        rintro _ m₂ ⟨hb, hopened, ref, rfl, hf⟩
        let m₃ := m₂.withDepth m.state.depth
        have hl : Leads ctx m m₃ :=
          { (hdepth.trans hb).trans (m₂.before_withDepth m.state.depth) with
            opened := hopened, depth := fun _ => rfl }
        exact Meets.of_eq m₃ (a := some ref) rfl (Answered.of_find? hl hf
          fun hs => absurd hs (not_settled hfresh.unentered hhas))

/-- The reference of a symbol that has none yet. -/
theorem meets_resolveSymbol (h : calls.Sound ctx n) (m : Moment ctx.program)
    (hfresh : Fresh ctx m x info) :
    Meets (calls.resolveSymbol ctx x info) m (Averted ctx (RoomFor ctx (n + 1) x m) m)
      (Answered ctx x m) := by
  unfold resolveSymbol
  by_cases htp : info.kind = .typeParameter
  · rw [if_pos htp]
    -- A type parameter is entered at once.
    have hown : ctx.program.IsOwn x := hfresh.isOwn (by rw [htp]; decide)
    have hhas : ctx.program.HasReference m.state.projects x :=
      ⟨info, hfresh.symbol?_resolveAlias, Or.inl htp⟩
    let ref := Reference.make ⟨m.state.registry.nextId⟩ info.name .typeParameter
    have hdoc : ∀ path, ref.path = some path →
        ref.kind = .module ∧ FindsModule m.state.projects (path ++ [ref.name]) :=
      fun _ hp => absurd hp (by simp only [ref, Reference.make, reduceCtorEq, not_false_eq_true])
    let m₁ := m.enteredOwn x ref rfl rfl hown hfresh.unentered hdoc
    have hl : Leads ctx m m₁ :=
      (m.before_enteredOwn x ref rfl rfl hown hfresh.unentered hdoc).leads rfl rfl
    exact Meets.of_eq m₁ (a := some ref) rfl (Answered.of_find? hl (m.find?_nextRegistry x ref)
      fun hs => absurd hs (not_settled hfresh.unentered hhas))
  · rw [if_neg htp]
    cases hnode : ctx.program.declarationOf? info with
    | none =>
        refine Meets.pure (Answered.of_not_referable (Leads.refl m) (hfresh.not_referable ?_)
          (fun parent ha => ?_) fun _ _ _ => rfl)
        · -- Without a declaration there is nothing to refer to.
          rintro ⟨info', hinfo, hcase⟩
          rw [hfresh.symbol?_resolveAlias, Option.some.injEq] at hinfo
          subst hinfo
          rcases hcase with htp' | ⟨node, hnode', _⟩
          · exact htp htp'
          · rw [hnode] at hnode'
            cases hnode'
        · rcases ha with ⟨info', node, hinfo, hnode', _⟩
          rw [hfresh.symbol?_resolveAlias, Option.some.injEq] at hinfo
          rw [← hinfo, hnode] at hnode'
          cases hnode'
    | some node =>
        refine Meets.get ?_
        rw [isExternalFile_eq]
        cases hin : ctx.program.isOutside m.state.projects node.file with
        | true =>
            rw [if_pos rfl]
            exact (h.meets_externalReference m hfresh hnode hin).bind fun ref m₁ ha => Meets.pure ha
        | false =>
            rw [if_neg Bool.false_ne_true]
            -- The namespace may register the symbol on the way. If it does, that is the answer.
            refine (h.meets_registerEnclosing? m hfresh hnode).bind fun o m₁ ha => ?_
            cases o with
            | some ref => exact Meets.pure (Answered.of_find? ha.toLeads ha.find?_eq ha.quiet)
            | none =>
                have hfresh₁ : Fresh ctx m₁ x info := ⟨hfresh.resolved, hfresh.symbol, ha.find?_eq⟩
                refine (h.meets_registerSymbol m₁ hfresh₁ hnode ?_ htp ha.enclosed).mono
                  (Averted.before ha.toBefore fun hroom => hroom.before ha.toBefore)
                  fun _ _ hr => hr.after ha.toLeads ha.quiet
                rw [isOutside_of_grow ctx.program ha.projects, hin]

/-- The reference of a symbol. What the symbol stands for is looked up in its place, and the
    reference entered for both. -/
theorem meets_referenceStep (h : calls.Sound ctx n) (x : SymbolId) (m : Moment ctx.program) :
    Meets (calls.referenceStep ctx x) m (Averted ctx (RoomFor ctx (n + 1) x m) m)
      (Answered ctx x m) := by
  unfold referenceStep
  refine Meets.step m (a := m.state.registry.find? x) rfl ?_
  cases hx : m.state.registry.find? x with
  | some ref => exact Meets.pure (Answered.of_find? (Leads.refl m) hx fun _ _ _ => rfl)
  | none =>
      dsimp only
      -- A symbol that is not there has no answer, whatever it was asked for as.
      have hunknown : m.state.registry.find? (ctx.program.resolveAlias x) = none →
          ctx.program.symbol? (ctx.program.resolveAlias x) = none → Answered ctx x m none m := by
        intro htarget hnone
        refine Answered.of_not_referable (Leads.refl m) (ctx.program.not_referable hx htarget ?_)
          (fun parent ha => ?_) fun _ _ _ => rfl
        · rintro ⟨info, hinfo, _⟩
          rw [hnone] at hinfo
          cases hinfo
        · rcases ha with ⟨info, _, hinfo, _⟩
          rw [hnone] at hinfo
          cases hinfo
      split
      · -- It stands for itself.
        rename_i hself
        cases hinfo : ctx.program.symbol? x with
        | none => exact Meets.pure (hunknown (by rw [hself, hx]) (by rw [hself, hinfo]))
        | some info => exact h.meets_resolveSymbol m ⟨hself, hinfo, hx⟩
      · -- It stands for another, which may be entered.
        rename_i hother
        refine Meets.step m (a := m.state.registry.find? (ctx.program.resolveAlias x)) rfl ?_
        cases htarget : m.state.registry.find? (ctx.program.resolveAlias x) with
        | some ref =>
            exact meets_link (Answered.of_find? (Leads.refl m) htarget fun _ _ _ => rfl) hx hother
        | none =>
            dsimp only
            cases hinfo : ctx.program.symbol? (ctx.program.resolveAlias x) with
            | none => exact Meets.pure (hunknown htarget hinfo)
            | some info =>
                have hfresh : Fresh ctx m (ctx.program.resolveAlias x) info :=
                  ⟨ctx.program.resolveAlias_resolveAlias x, hinfo, htarget⟩
                refine ((h.meets_resolveSymbol m hfresh).mono
                  (Averted.mono fun hroom => hroom.resolveAlias) fun _ _ ha => ha).bind
                  fun o m₁ ha => ?_
                cases o with
                | none => exact Meets.pure (ha.of_resolveAlias hx)
                | some ref => exact meets_link ha hx hother

end Calls.Sound

/-- Looking up references and building types do what is expected of them, in any number of nested
    steps. Without a step nothing is given, and there is no room for anything. -/
theorem Context.sound (ctx : Context) (n : Nat) :
    Calls.Sound ⟨ctx.reference n, ctx.normalize n⟩ ctx n := by
  induction n with
  | zero =>
      constructor
      · intro x m
        exact Meets.of_error rfl fun hroom : RoomFor ctx 0 x m => absurd hroom.steps (by omega)
      · intro ty node expanding opened known m _ _
        exact Meets.of_error rfl fun hroom : Room ctx 0 m => absurd hroom.steps (by omega)
  | succ n ih =>
      constructor
      · intro x m
        -- The step starts by putting the state on the trail, which changes nothing else.
        have hl : Leads ctx m m.noted := m.before_noted.leads rfl rfl
        refine Meets.step m.noted (a := ()) rfl ?_
        exact (ih.meets_referenceStep x m.noted).mono
          (Averted.before hl.toBefore fun hroom => hroom.before hl.toBefore)
          fun _ _ ha => ha.after hl fun _ _ _ => rfl
      · intro ty node expanding opened known m ho hm
        have hl : Leads ctx m m.noted := m.before_noted.leads rfl rfl
        refine Meets.step m.noted (a := ()) rfl ?_
        exact (ih.gives_normalizeStep ty node expanding).after hl ho hm

end DocModel
