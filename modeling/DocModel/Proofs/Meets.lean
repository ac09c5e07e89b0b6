import DocModel.Proofs.Measure
import DocModel.Proofs.Moment
import DocModel.Session.Engine

/-!
# Contracts of actions

What an action comes to, from a given moment: if it gives a result, the state it leaves belongs to a
later moment of which something is known; and it does not fail for a reason that is averted. Against
work without end there has to be room, which is a bound on the steps that the rest of the work can
need. Against a nesting depth below zero, members of enumerations have to be enclosed. Nothing is
ever missing. These are assumptions about the moment and the number of steps left, and what is known
of a result does not depend on them. So the same proof tells what holds whenever an extraction comes
to an end, and when it does.

Most of what an extraction builds is put together from types, and all that matters of it is which
references it mentions. `Gives` is the contract of such work: whatever the references known before
it, those in the result were made. It composes without mention of moments.

## Main definitions

* `Meets`: The contract of an action, from a moment.
* `Leads`: A later moment with the same open declarations and the same nesting depth.
* `Room`, `RoomFor`: There are enough steps left for types, and for the reference of a symbol.
* `Averted`: What keeps work from failing, for each reason that it could fail for.
* `Gives`: The contract of an action whose result mentions references.

## Theorems

* `Meets.bind`, `Meets.step`: One action after another.
* `Meets.ran`: What an action gives, together with the fact that it gave it.
* `Room.leads`: Work that is done takes no room from the work behind it.
* `Gives.bind`, `Gives.mapM`, `Gives.foldlM`, `Gives.forM`, `Gives.collect`: Work put together.
-/

namespace DocModel

variable {α β : Type}

/-- Both parts have results if they have one together. -/
theorem Outcome.bind_eq_ok {x : Outcome α} {f : α → Outcome β} {b : β} :
    x.bind f = .ok b ↔ ∃ a, x = .ok a ∧ f a = .ok b := by
  cases x with
  | error e => exact ⟨nofun, fun ⟨_, ha, _⟩ => nomatch ha⟩
  | ok a => exact ⟨fun h => ⟨a, rfl, h⟩, fun ⟨_, ha, h⟩ => Except.ok.inj ha ▸ h⟩

theorem Outcome.map_eq_ok {x : Outcome α} {f : α → β} {b : β} :
    x.map f = .ok b ↔ ∃ a, x = .ok a ∧ f a = b := by
  cases x with
  | error e => exact ⟨nofun, fun ⟨_, ha, _⟩ => nomatch ha⟩
  | ok a => exact ⟨fun h => ⟨a, rfl, Except.ok.inj h⟩, fun ⟨_, ha, h⟩ => Except.ok.inj ha ▸ h ▸ rfl⟩

/-- A failure stays what it is, whatever is done with results. -/
theorem Outcome.map_eq_error {x : Outcome α} {f : α → β} {e : Failure} :
    x.map f = .error e ↔ x = .error e := by
  cases x with
  | error e' => exact ⟨fun h => Except.error.inj h ▸ rfl, fun h => Except.error.inj h ▸ rfl⟩
  | ok a => exact ⟨nofun, nofun⟩

theorem Outcome.map_map {γ : Type} (x : Outcome α) (f : α → β) (g : β → γ) :
    (x.map f).map g = x.map fun a => g (f a) := by
  cases x <;> rfl

/-- A result that is found by running. -/
theorem Outcome.of_any {x : Outcome α} {holds : α → Bool} (h : x.toOption.any holds = true) :
    ∃ a, x = .ok a ∧ holds a = true := by
  cases x with
  | error e => cases h
  | ok a => exact ⟨a, rfl, h⟩

/-- Whether there is no result, for a given reason. -/
def Outcome.failsWith (e : Failure) : Outcome α → Bool
  | .error e' => e' == e
  | .ok _ => false

/-- A failure that is found by running. -/
theorem Outcome.of_failsWith {x : Outcome α} {e : Failure} (h : x.failsWith e = true) :
    x = .error e := by
  cases x with
  | error e' => rw [beq_iff_eq.1 h]
  | ok a => cases h

theorem Action.bind_apply (act : Action α) (f : α → Action β) (s : State) (t : Trail) :
    (act >>= f) s t = (act s t).bind fun r => f r.1.1 r.1.2 r.2 := rfl

/-- Where the first of two actions fails, both fail. -/
theorem Action.bind_of_error {act : Action α} {f : α → Action β} {s : State} {t : Trail}
    {e : Failure} (h : act s t = .error e) : (act >>= f) s t = .error e := by
  rw [bind_apply, h]
  rfl

theorem Action.get_bind {s : State} {t : Trail} (f : State → Action β) :
    (MonadState.get >>= f) s t = f s s t := rfl

/-- From depth zero there is no way back. -/
theorem Action.ascend_zero {s : State} (h : s.depth = 0) (t : Trail) :
    Action.ascend s t = .error .depthBelowZero := by
  rw [ascend, get_bind, h]
  rfl

/-- From any other depth the way leads one level out. -/
theorem Action.ascend_succ {s : State} {d : Nat} (h : s.depth = d + 1) (t : Trail) :
    Action.ascend s t = .ok (((), { s with depth := d }), t) := by
  rw [ascend, get_bind, h]
  rfl

/-- From the moment, the action does not fail for a reason that is averted; and whatever it gives,
    with a moment that has the state and the trail it leaves, is as stated. -/
structure Meets {p : Program} (act : Action α) (m : Moment p) (averted : Failure → Prop)
    (post : α → Moment p → Prop) : Prop where
  fails : ∀ e, act m.state m.trail = .error e → ¬ averted e
  holds : ∀ (a : α) (s : State) (t : Trail), act m.state m.trail = .ok ((a, s), t) →
    ∃ m' : Moment p, m'.state = s ∧ m'.trail = t ∧ post a m'

namespace Meets

variable {p : Program} {m : Moment p} {averted averted' : Failure → Prop} {act : Action α}
  {f : α → Action β} {post : α → Moment p → Prop} {post' : β → Moment p → Prop}

/-- Where every failure is averted there is a result. -/
theorem returns (h : Meets act m averted post) (hall : ∀ e, averted e) :
    ∃ r, act m.state m.trail = .ok r := by
  cases hact : act m.state m.trail with
  | error e => exact absurd (hall e) (h.fails e hact)
  | ok r => exact ⟨r, rfl⟩

/-- An action whose outcome is known. -/
theorem of_eq {a : α} (m' : Moment p) (h : act m.state m.trail = .ok ((a, m'.state), m'.trail))
    (hpost : post a m') : Meets act m averted post := by
  refine ⟨fun e hr => ?_, fun a' s t hr => ?_⟩
  · rw [h] at hr
    cases hr
  · rw [h] at hr
    simp only [Except.ok.injEq, Prod.mk.injEq] at hr
    rcases hr with ⟨⟨rfl, rfl⟩, rfl⟩
    exact ⟨m', rfl, rfl, hpost⟩

theorem pure {a : α} (h : post a m) : Meets (Pure.pure a : Action α) m averted post := of_eq m rfl h

/-- An action that fails for a reason that is not averted. -/
theorem of_error {e : Failure} (hact : act m.state m.trail = .error e) (h : ¬ averted e) :
    Meets act m averted post := by
  refine ⟨fun e' hr => ?_, fun a s t hr => ?_⟩
  · rw [hact] at hr
    exact Except.error.inj hr ▸ h
  · rw [hact] at hr
    cases hr

theorem mono {post₁ : α → Moment p → Prop} (h : Meets act m averted post)
    (haverted : ∀ e, averted' e → averted e) (hpost : ∀ a m', post a m' → post₁ a m') :
    Meets act m averted' post₁ := by
  refine ⟨fun e hr ha => h.fails e hr (haverted e ha), fun a s t hr => ?_⟩
  rcases h.holds a s t hr with ⟨m', hs, ht, hp⟩
  exact ⟨m', hs, ht, hpost a m' hp⟩

/-- What the action gives, it gives from the moment, and leaves the state and the trail of the later
    one. -/
theorem ran (h : Meets act m averted post) : Meets act m averted fun a m' =>
    post a m' ∧ act m.state m.trail = .ok ((a, m'.state), m'.trail) := by
  refine ⟨h.fails, fun a s t hr => ?_⟩
  rcases h.holds a s t hr with ⟨m', rfl, rfl, hp⟩
  exact ⟨m', rfl, rfl, hp, hr⟩

/-- The contract of an action that comes to the same as another. -/
theorem of_same {act' : Action β} {m' : Moment p} {post : β → Moment p → Prop}
    {act : Action β} (h : Meets act' m' averted post)
    (heq : act m.state m.trail = act' m'.state m'.trail) : Meets act m averted post :=
  ⟨fun e hr => h.fails e (heq ▸ hr), fun b s t hr => h.holds b s t (heq ▸ hr)⟩

/-- One action after another. -/
theorem bind (h : Meets act m averted post)
    (hf : ∀ a m', post a m' → Meets (f a) m' averted post') :
    Meets (act >>= f) m averted post' := by
  -- If the first action fails, so do both, and for the same reason.
  cases hact : act m.state m.trail with
  | error e => exact of_error (Action.bind_of_error hact) (h.fails e hact)
  | ok r =>
      rcases h.holds r.1.1 r.1.2 r.2 hact with ⟨m', hs, ht, hp⟩
      refine (hf r.1.1 m' hp).of_same ?_
      rw [Action.bind_apply, hact, hs, ht]
      rfl

/-- An action whose outcome is known, and another after it. -/
theorem step {a : α} (m' : Moment p) (h : act m.state m.trail = .ok ((a, m'.state), m'.trail))
    (hf : Meets (f a) m' averted post') : Meets (act >>= f) m averted post' := by
  refine hf.of_same ?_
  rw [Action.bind_apply, h]
  rfl

/-- Reading the state. -/
theorem get {f : State → Action β} (hf : Meets (f m.state) m averted post') :
    Meets (MonadState.get >>= f) m averted post' := step m rfl hf

/-- Making a reference and entering it in some form, and another action after that. -/
theorem mintEnter {name : String} {kind : ReferenceKind} {x : SymbolId}
    {form : Reference → Reference} {f : Reference → Action β} (m' : Moment p)
    (hstate : m'.state =
      { m.state with
        registry := (m.state.registry.mint name kind).2.insert x
          (form (m.state.registry.mint name kind).1) })
    (htrail : m'.trail = m.trail)
    (hf : Meets (f (m.state.registry.mint name kind).1) m' averted post') :
    Meets (Action.mint name kind >>= fun ref => Action.enter x (form ref) >>= fun _ => f ref) m
      averted post' := by
  refine hf.of_same ?_
  rw [hstate, htrail]
  rfl

end Meets

/-- A later moment with the same open declarations. The nesting depth is the same too, if members of
    enumerations are inside something that has a reference. -/
structure Leads (ctx : Context) (m m' : Moment ctx.program) : Prop
    extends Moment.Before ctx.listeners m m' where
  opened : m'.opened = m.opened
  depth : ctx.program.MembersEnclosed m.state → m'.state.depth = m.state.depth

theorem Leads.refl {ctx : Context} (m : Moment ctx.program) : Leads ctx m m :=
  { Moment.Before.refl m with opened := rfl, depth := fun _ => rfl }

theorem Leads.trans {ctx : Context} {m m' m'' : Moment ctx.program} (h : Leads ctx m m')
    (h' : Leads ctx m' m'') : Leads ctx m m'' :=
  { h.toBefore.trans h'.toBefore with
    opened := h'.opened.trans h.opened
    depth := fun he => (h'.depth (he.mono h.projects h.contains)).trans (h.depth he) }

/-- How many steps may be taken for each symbol without a reference. -/
def Context.stride (ctx : Context) : Nat :=
  ctx.program.symbols.size + ctx.settings.maxTypeDepth + 5

/-- There are enough steps left for a type. -/
structure Room (ctx : Context) (n : Nat) (m : Moment ctx.program) : Prop where
  acyclic : ctx.program.Acyclic
  enclosed : ctx.program.MembersEnclosed m.state
  steps : ctx.program.vacant m.state.registry * ctx.stride + (ctx.program.symbols.size + 2 +
    (ctx.settings.maxTypeDepth - m.state.depth)) ≤ n

/-- There are enough steps left for the reference of a symbol. -/
structure RoomFor (ctx : Context) (n : Nat) (x : SymbolId) (m : Moment ctx.program) : Prop where
  acyclic : ctx.program.Acyclic
  enclosed : ctx.program.MembersEnclosed m.state
  steps : ctx.program.vacant m.state.registry * ctx.stride + (ctx.program.rank x + 1) ≤ n

/-- Fewer symbols without a reference take fewer steps. -/
theorem Moment.Before.vacant_le {p : Program} {l : List String} {m m' : Moment p}
    (h : Moment.Before l m m') : p.vacant m'.state.registry ≤ p.vacant m.state.registry :=
  Program.vacant_le_of_contains h.contains

/-- Work that is done takes no room from the work behind it. -/
theorem Room.leads {ctx : Context} {n : Nat} {m m' : Moment ctx.program} (h : Room ctx n m)
    (hl : Leads ctx m m') : Room ctx n m' := by
  refine ⟨h.acyclic, h.enclosed.mono hl.projects hl.contains, ?_⟩
  -- The depth is what it was, and fewer symbols are without a reference.
  rw [hl.depth h.enclosed]
  exact Nat.le_trans (Nat.add_le_add_right (Nat.mul_le_mul_right _ hl.vacant_le) _) h.steps

/-- What averts each failure at a moment: room, if there could be work without end; members that are
    enclosed, if the depth could fall below zero. Nothing is missing at any moment. -/
def Averted (ctx : Context) (room : Prop) (m : Moment ctx.program) : Failure → Prop
  | .endless => room
  | .depthBelowZero => ctx.program.MembersEnclosed m.state
  | .missing => True

/-- What is averted at a moment is averted later, if there is room then. -/
theorem Averted.before {ctx : Context} {room room' : Prop} {l : List String}
    {m m' : Moment ctx.program} (hb : Moment.Before l m m') (hroom : room → room') (e : Failure)
    (h : Averted ctx room m e) : Averted ctx room' m' e := by
  cases e with
  | endless => exact hroom h
  | depthBelowZero => exact Program.MembersEnclosed.mono h hb.projects hb.contains
  | missing => trivial

theorem Averted.mono {ctx : Context} {room room' : Prop} {m : Moment ctx.program}
    (hroom : room → room') : ∀ e, Averted ctx room m e → Averted ctx room' m e :=
  Averted.before (Moment.Before.refl (l := []) m) hroom

/-- Where there is room, no failure is left. -/
theorem Averted.of_room {ctx : Context} {room : Prop} {m : Moment ctx.program} (h : room)
    (he : ctx.program.MembersEnclosed m.state) (e : Failure) : Averted ctx room m e := by
  cases e with
  | endless => exact h
  | depthBelowZero => exact he
  | missing => trivial

/-- The contract of an action whose result mentions references: from every moment with the given
    open declarations in which the known references were made, it leads to one in which those that
    the result mentions were made too. -/
def Gives (ctx : Context) (n : Nat) (opened : List Entry) (known : List Reference)
    (act : Action α) (refs : α → List Reference) (ok : α → Prop) : Prop :=
  ∀ m : Moment ctx.program, m.opened = opened → (∀ r ∈ known, m.made r) →
    Meets act m (Averted ctx (Room ctx n m) m) fun a m' =>
      Leads ctx m m' ∧ (∀ r ∈ refs a, m'.made r) ∧ ok a

namespace Gives

variable {ctx : Context} {n : Nat} {opened : List Entry} {known known' : List Reference}
  {act : Action α} {f : α → Action β} {refs refs₁ : α → List Reference}
  {refs' : β → List Reference} {ok ok₁ : α → Prop} {ok' : β → Prop}

theorem pure {a : α} (hrefs : ∀ r ∈ refs a, r ∈ known) (hok : ok a) :
    Gives ctx n opened known (Pure.pure a : Action α) refs ok :=
  fun m _ hm => Meets.pure ⟨Leads.refl m, fun r hr => hm r (hrefs r hr), hok⟩

/-- More may be known before, and less asked after. -/
theorem mono (h : Gives ctx n opened known act refs ok) (hknown : ∀ r ∈ known, r ∈ known')
    (hrefs : ∀ a, ok a → ∀ r ∈ refs₁ a, r ∈ refs a ∨ r ∈ known') (hok : ∀ a, ok a → ok₁ a) :
    Gives ctx n opened known' act refs₁ ok₁ := by
  intro m ho hm
  refine (h m ho (fun r hr => hm r (hknown r hr))).mono (fun _ he => he) ?_
  rintro a m' ⟨hl, hr, ha⟩
  refine ⟨hl, fun r hr' => ?_, hok a ha⟩
  rcases hrefs a ha r hr' with hr' | hr'
  · exact hr r hr'
  · exact hl.made r (hm r hr')

theorem weaken_ok (h : Gives ctx n opened known act refs ok) :
    Gives ctx n opened known act refs fun _ => True :=
  h.mono (fun _ hr => hr) (fun _ _ _ hr => Or.inl hr) fun _ _ => trivial

/-- Work that goes on from a later moment. -/
theorem after {m m₁ : Moment ctx.program} (h : Gives ctx n opened known act refs ok)
    (hl : Leads ctx m m₁) (ho : m.opened = opened) (hm : ∀ r ∈ known, m.made r) :
    Meets act m₁ (Averted ctx (Room ctx n m) m) fun a m' =>
      Leads ctx m m' ∧ (∀ r ∈ refs a, m'.made r) ∧ ok a := by
  refine (h m₁ (hl.opened.trans ho) fun r hr => hl.made r (hm r hr)).mono
    (Averted.before hl.toBefore fun hroom => hroom.leads hl) ?_
  rintro a m' ⟨hl', hr, ha⟩
  exact ⟨hl.trans hl', hr, ha⟩

/-- One action after another; what the first mentions is known to the second. -/
theorem bind (h : Gives ctx n opened known act refs ok)
    (hf : ∀ a, ok a → Gives ctx n opened (refs a ++ known) (f a) refs' ok') :
    Gives ctx n opened known (act >>= f) refs' ok' := by
  intro m ho hm
  refine (h m ho hm).bind ?_
  rintro a m₁ ⟨hl, hr, ha⟩
  refine (hf a ha m₁ (hl.opened.trans ho) (fun r hr' => ?_)).mono
    (Averted.before hl.toBefore fun hroom => hroom.leads hl) ?_
  · -- What was made stays made.
    rcases List.mem_append.1 hr' with hr' | hr'
    · exact hr r hr'
    · exact hl.made r (hm r hr')
  · rintro b m₂ ⟨hl', hr', hb⟩
    exact ⟨hl.trans hl', hr', hb⟩

/-- Reading the state, where it does not matter what is read. -/
theorem get {f : State → Action β} (hf : ∀ s, Gives ctx n opened known (f s) refs' ok') :
    Gives ctx n opened known (MonadState.get >>= f) refs' ok' :=
  fun m ho hm => Meets.get (hf m.state m ho hm)

/-- The result in another form mentions nothing new. -/
theorem map {g : α → β} (h : Gives ctx n opened known act refs ok)
    (hrefs : ∀ a, ok a → ∀ r ∈ refs' (g a), r ∈ refs a ++ known) (hok : ∀ a, ok a → ok' (g a)) :
    Gives ctx n opened known (g <$> act) refs' ok' := by
  rw [map_eq_pure_bind]
  exact h.bind fun a ha => pure (hrefs a ha) (hok a ha)

/-- Work on every item of a list. -/
theorem mapM {okm : α → β → Prop} (as : List α)
    (h : ∀ a ∈ as, Gives ctx n opened known (f a) refs' (okm a)) :
    Gives ctx n opened known (as.mapM f) (·.flatMap refs') (List.Forall₂ okm as) := by
  induction as with
  | nil =>
      rw [List.mapM_nil]
      exact pure (List.forall_mem_nil _) .nil
  | cons a as ih =>
      rw [List.mapM_cons]
      refine (h a List.mem_cons_self).bind fun b hb => ?_
      -- What the first item mentions is known to the others.
      have ih' := ih fun a' ha' => h a' (List.mem_cons_of_mem a ha')
      refine Gives.bind (ih'.mono (fun r hr => List.mem_append_right _ hr)
        (fun _ _ r hr => Or.inl hr) fun _ hbs => hbs) fun bs hbs => ?_
      refine pure (fun r hr => ?_) (.cons hb hbs)
      rw [List.flatMap_cons] at hr
      rcases List.mem_append.1 hr with hr | hr
      · exact List.mem_append_right _ (List.mem_append_left _ hr)
      · exact List.mem_append_left _ hr

/-- Work on what may not be there. -/
theorem optionMapM (o : Option α) (h : ∀ a, o = some a → Gives ctx n opened known (f a) refs' ok') :
    Gives ctx n opened known (o.mapM f) (·.toList.flatMap refs') fun _ => True := by
  cases o with
  | none => exact pure (List.forall_mem_nil _) trivial
  | some a =>
      refine (h a rfl).map (fun b _ r hr => List.mem_append_left _ ?_) fun _ _ => trivial
      simpa only [Option.toList_some, List.flatMap_cons, List.flatMap_nil, List.append_nil] using hr

/-- Work on every item of a list, keeping the results that are there. -/
theorem collect {g : α → Action (Option β)} {okm : α → Option β → Prop} (as : List α)
    (h : ∀ a ∈ as, Gives ctx n opened known (g a) (·.toList.flatMap refs') (okm a)) :
    Gives ctx n opened known (Action.collect g as) (·.flatMap refs')
      fun bs => ∃ os, List.Forall₂ okm as os ∧ bs = os.filterMap id := by
  refine (mapM as h).bind fun os hos => pure (fun r hr => ?_) ⟨os, hos, rfl⟩
  rcases List.mem_flatMap.1 hr with ⟨b, hb, hr⟩
  rcases List.mem_filterMap.1 hb with ⟨o, ho, rfl⟩
  refine List.mem_append_left _ (List.mem_flatMap.2 ⟨some b, ho, ?_⟩)
  exact List.mem_flatMap.2 ⟨b, List.mem_singleton_self b, hr⟩

/-- Work on every item of a list, adding to what there is. -/
theorem foldlM {g : β → α → Action β} (as : List α) (b : β) (hb : ∀ r ∈ refs' b, r ∈ known)
    (h : ∀ (b : β), ∀ a ∈ as, ∀ known', (∀ r ∈ refs' b, r ∈ known') →
      Gives ctx n opened known' (g b a) refs' fun _ => True) :
    Gives ctx n opened known (as.foldlM g b) refs' fun _ => True := by
  induction as generalizing b known with
  | nil =>
      rw [List.foldlM_nil]
      exact pure hb trivial
  | cons a as ih =>
      rw [List.foldlM_cons]
      refine (h b a List.mem_cons_self known hb).bind fun b' _ => ?_
      -- What there is by now is known to the rest.
      exact ih b' (fun r hr => List.mem_append_left _ hr)
        fun b a ha => h b a (List.mem_cons_of_mem _ ha)

/-- Work on every item of a list, for its effect alone. -/
theorem forM {g : α → Action Unit} (as : List α)
    (h : ∀ a ∈ as, ∀ known, Gives ctx n opened known (g a) (fun _ => []) fun _ => True) :
    Gives ctx n opened known (as.forM g) (fun _ => []) fun _ => True := by
  induction as generalizing known with
  | nil => exact pure (List.forall_mem_nil _) trivial
  | cons a as ih =>
      exact (h a List.mem_cons_self known).bind fun _ _ =>
        ih fun a' ha' => h a' (List.mem_cons_of_mem a ha')

end Gives

end DocModel
