import DocModel.Proofs.Meets

/-!
# Answers to questions for references

What is known once a symbol has been asked for. If there is an answer, the symbol is entered; and
there is one unless the symbol has no reference to begin with.

A declaration inside a namespace makes trouble. The namespace is asked for before the declaration is
registered, since it may register it; and it is asked for once more when the module of the
declaration is needed, if it has no module by then. Were the second question to register anything,
the declaration could be registered twice. It does not: a symbol that has been asked for is settled,
and asking for a settled symbol enters nothing new. Either the symbol has its reference by now, or
it is hopeless, and then so is whatever is asked for on the way.

## Main definitions

* `Program.Asks`: What is asked for on the way to a symbol.
* `Settled`: Asking for a symbol enters nothing new.
* `Answered`: What is known after a symbol was asked for.
* `Calls.Sound`: The two operations that come back to themselves do what is expected of them.

## Theorems

* `Settled.before`: A settled symbol stays settled.
* `Answered.settled`: A symbol that has been asked for is settled.
* `RoomFor.outer`, `RoomFor.room`: Room for what is asked for on the way, and for what is built.
* `Calls.Sound.gives_reference`: Asking for a reference while a type is built.
-/

namespace DocModel

/-- What is asked for on the way to a symbol: the namespace around it, if that has no module yet, or
    the enumeration around a member. -/
def Program.Asks (p : Program) (s : State) (x parent : SymbolId) : Prop :=
  ∃ info node, p.symbol? (p.resolveAlias x) = some info ∧ p.declarationOf? info = some node ∧
    info.parent = some parent ∧
    (p.isNamespace parent = true ∧ s.namespaces.contains parent = false ∨ info.kind = .enumMember)

/-- Asking for the symbol enters nothing new: it has a reference, or it has none and what is asked
    for on the way is settled too. -/
inductive Settled (p : Program) (s : State) : SymbolId → Prop where
  | entered {x : SymbolId} (h : s.registry.contains x = true) : Settled p s x
  | hopeless {x : SymbolId} (hnone : ¬ p.HasReference s.projects x)
      (houter : ∀ (parent : SymbolId), p.Asks s x parent → Settled p s parent) : Settled p s x

/-- What is asked for later would have been asked for before. -/
theorem Program.Asks.of_before {p : Program} {l : List String} {m m' : Moment p}
    {x parent : SymbolId} (h : p.Asks m'.state x parent) (hb : Moment.Before l m m') :
    p.Asks m.state x parent := by
  rcases h with ⟨info, node, hinfo, hnode, hparent, hasked⟩
  refine ⟨info, node, hinfo, hnode, hparent, hasked.imp_left fun ⟨hn, hc⟩ => ⟨hn, ?_⟩⟩
  by_contra hne
  rw [hb.containsSpace parent (by simpa only [Bool.not_eq_false] using hne)] at hc
  exact absurd hc.symm Bool.false_ne_true

/-- A settled symbol stays settled. -/
theorem Settled.before {p : Program} {l : List String} {m m' : Moment p} {x : SymbolId}
    (h : Settled p m.state x) (hb : Moment.Before l m m') : Settled p m'.state x := by
  -- The induction is on what is asked for on the way, as far as it goes.
  induction h with
  | entered h => exact .entered (hb.contains _ h)
  | hopeless hnone houter ih =>
      exact .hopeless (by rwa [Program.HasReference.grow hb.projects])
        fun parent hasks => ih parent (hasks.of_before hb)

/-- A symbol can have a reference exactly if what it stands for can. -/
theorem Program.hasReference_resolveAlias (p : Program) (projects : List Project) (x : SymbolId) :
    p.HasReference projects (p.resolveAlias x) ↔ p.HasReference projects x := by
  unfold HasReference
  rw [p.resolveAlias_resolveAlias]

/-- On the way to both the same is asked for. -/
theorem Program.asks_resolveAlias (p : Program) (s : State) (x parent : SymbolId) :
    p.Asks s (p.resolveAlias x) parent ↔ p.Asks s x parent := by
  unfold Asks
  rw [p.resolveAlias_resolveAlias]

/-- A settled symbol without a reference is hopeless. -/
theorem Settled.hopeless_of_find? {p : Program} {s : State} {x : SymbolId} (h : Settled p s x)
    (hnone : s.registry.find? x = none) :
    ¬ p.HasReference s.projects x ∧ ∀ (parent : SymbolId), p.Asks s x parent →
      Settled p s parent := by
  cases h with
  | entered h =>
      rcases (Registry.contains_iff _ _).1 h with ⟨ref, href⟩
      rw [hnone] at href
      cases href
  | hopeless hno houter => exact ⟨hno, houter⟩

/-- A settled symbol has a reference if it can have one. -/
theorem Settled.contains {p : Program} {s : State} {x : SymbolId} (h : Settled p s x)
    (hhas : p.HasReference s.projects x) : s.registry.contains x = true := by
  cases h with
  | entered h => exact h
  | hopeless hnone _ => exact absurd hhas hnone

/-- What is known after a symbol was asked for. -/
structure Answered (ctx : Context) (x : SymbolId) (m : Moment ctx.program) (o : Option Reference)
    (m' : Moment ctx.program) : Prop extends Leads ctx m m' where
  made_of_some : ∀ (ref : Reference), o = some ref → m'.made ref
  contains_of_some : ∀ (ref : Reference), o = some ref → m'.state.registry.contains x = true
  find?_of_some : ∀ (ref : Reference), o = some ref → ctx.program.IsPlain x →
    m'.state.registry.find? x = some ref
  not_referable : o = none → ¬ ctx.program.Referable m.state x
  settled_outer : o = none → ∀ (parent : SymbolId), ctx.program.Asks m'.state x parent →
    Settled ctx.program m'.state parent
  /-- A question for a settled symbol enters nothing for symbols that stand for themselves. -/
  quiet : Settled ctx.program m.state x → ∀ (y : SymbolId), ctx.program.IsOwn y →
    m'.state.registry.find? y = m.state.registry.find? y

theorem Answered.not_hasReference {ctx : Context} {x : SymbolId} {m m' : Moment ctx.program}
    {o : Option Reference} (h : Answered ctx x m o m') (ho : o = none) :
    ¬ ctx.program.HasReference m.state.projects x := fun hhas => h.not_referable ho (Or.inl hhas)

/-- A symbol that has been asked for is settled. -/
theorem Answered.settled {ctx : Context} {x : SymbolId} {m m' : Moment ctx.program}
    {o : Option Reference} (h : Answered ctx x m o m') : Settled ctx.program m'.state x := by
  cases ho : o with
  | none =>
      refine .hopeless ?_ (h.settled_outer ho)
      rw [Program.HasReference.grow h.projects]
      exact h.not_hasReference ho
  | some ref => exact .entered (h.contains_of_some ref ho)

/-- The two operations that come back to themselves do what is expected of them, in `n` nested
    steps. -/
structure Calls.Sound (calls : Calls) (ctx : Context) (n : Nat) : Prop where
  reference : ∀ (x : SymbolId) (m : Moment ctx.program),
    Meets (calls.reference x) m (Averted ctx (RoomFor ctx n x m) m) (Answered ctx x m)
  normalize : ∀ (ty : TypeId) (node : Option NodeId) (expanding : Option SymbolId)
    (opened : List Entry) (known : List Reference),
    Gives ctx n opened known (calls.normalize ty node expanding) Ty.mentions fun _ => True

/-- Where there is room for a type, there is room for a reference. -/
theorem Room.roomFor {ctx : Context} {n : Nat} {m : Moment ctx.program} (h : Room ctx n m)
    (x : SymbolId) : RoomFor ctx n x m := by
  refine ⟨h.acyclic, h.enclosed, ?_⟩
  -- The way out of a symbol is no longer than there are symbols, and room for a type allows for
  -- that.
  have hrank := ctx.program.rank_le x
  have hsteps := h.steps
  omega

/-- Work that is done takes no room from the reference of a symbol. -/
theorem RoomFor.before {ctx : Context} {n : Nat} {x : SymbolId} {l : List String}
    {m m' : Moment ctx.program} (h : RoomFor ctx n x m) (hb : Moment.Before l m m') :
    RoomFor ctx n x m' := by
  refine ⟨h.acyclic, h.enclosed.mono hb.projects hb.contains, ?_⟩
  exact Nat.le_trans (Nat.add_le_add_right (Nat.mul_le_mul_right _ hb.vacant_le) _) h.steps

/-- What is asked for on the way to a symbol is further out. -/
theorem RoomFor.outer {ctx : Context} {n : Nat} {x parent : SymbolId} {info : SymbolInfo}
    {m : Moment ctx.program} (h : RoomFor ctx (n + 1) x m)
    (hinfo : ctx.program.symbol? (ctx.program.resolveAlias x) = some info)
    (hparent : info.parent = some parent)
    (hasked : ctx.program.isNamespace parent = true ∨ info.kind = .enumMember) :
    RoomFor ctx n parent m := by
  refine ⟨h.acyclic, h.enclosed, ?_⟩
  have hrank := Program.rank_lt_of_above h.acyclic hinfo hparent hasked
  have hsteps := h.steps
  omega

/-- Once a symbol has been entered, there is room for any type. -/
theorem RoomFor.room {ctx : Context} {n : Nat} {x : SymbolId} {l : List String}
    {m m' : Moment ctx.program} (h : RoomFor ctx (n + 1) x m) (hb : Moment.Before l m m')
    (hx : x ∈ ctx.program.numbered) (hnone : m.state.registry.find? x = none)
    (hsome : m'.state.registry.contains x = true) : Room ctx n m' := by
  refine ⟨h.acyclic, h.enclosed.mono hb.projects hb.contains, ?_⟩
  -- One symbol fewer is without a reference, and that is worth a whole stride.
  have hvacant : ctx.program.vacant m'.state.registry + 1 ≤
      ctx.program.vacant m.state.registry := by
    refine Program.vacant_lt_of_contains hx ?_ hsome hb.contains
    by_contra hc
    rcases (Registry.contains_iff _ _).1 (by simpa only [Bool.not_eq_false] using hc) with ⟨r, hr⟩
    rw [hnone] at hr
    cases hr
  have hmul := Nat.mul_le_mul_right ctx.stride hvacant
  rw [Nat.add_mul, Nat.one_mul] at hmul
  have hsteps := h.steps
  have hstride : ctx.stride = ctx.program.symbols.size + ctx.settings.maxTypeDepth + 5 := rfl
  omega

/-- Asking for a reference while a type is built. -/
theorem Calls.Sound.gives_reference {calls : Calls} {ctx : Context} {n : Nat}
    (h : calls.Sound ctx n) (x : SymbolId) (opened : List Entry) (known : List Reference) :
    Gives ctx n opened known (calls.reference x) (·.toList) fun _ => True := by
  intro m _ _
  refine (h.reference x m).mono (Averted.mono fun hroom => hroom.roomFor x) fun o m' ha => ?_
  refine ⟨ha.toLeads, fun ref hr => ?_, trivial⟩
  exact ha.made_of_some ref (Option.mem_toList.1 hr)

end DocModel
