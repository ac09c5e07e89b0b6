import DocModel.Proofs.Meets
import DocModel.Proofs.Mentions

/-!
# What building keeps

Building types, signatures and members does little to a state on its own. It makes references, and
everything else that happens is the work of the two calls. So whatever the calls keep is kept by all
that is built with them, and whatever they say of the types they give can be said of all types in
what is built.

The last step of building a type puts a layer around types, and that is where something changes: of
the whole one can say what follows from what is known of the parts. `Ty.Layers` has one condition
for the parts and one for the whole. A union is not put together from its members as they are,
since those that are unions are opened up, and it may turn out to be one of its members.

## Main definitions

* `Action.Ends`: What is known of the result of an action and of the state that it leaves.
* `Action.Returns`: The action has a result, of which this is known.
* `Guard`: A condition on states, and on the trail.
* `Keeps`: An action keeps a guard, and its result meets a condition.
* `KeepsAt`: The same from one state alone.
* `Calls.Keep`: The two calls keep a guard, and the types they give meet a condition.
* `Bears`: A guard that the work of building itself cannot break.
* `Ty.Admits`, `Ty.Layers`: A condition met by what has no parts, and by what has a layer around it.

## Theorems

* `Keeps.bind`, `Keeps.mapM`, `Keeps.collect`, `Keeps.foldlM`, `Keeps.forM`: Work put together.
* `Calls.Keep.signature`, `Calls.Keep.objectLiteral`: Signatures and members.
* `Calls.Keep.normalizeType`: Types, with a layer more.
-/

namespace DocModel

variable {α β : Type}

namespace Action

variable {s s' : State} {t t' : Trail}

/-- If two actions give a result one after the other, then the first gives one for the second. -/
theorem bind_eq_ok {act : Action α} {f : α → Action β} {r : (β × State) × Trail}
    (h : (act >>= f) s t = .ok r) :
    ∃ a s' t', act s t = .ok ((a, s'), t') ∧ f a s' t' = .ok r := by
  rw [bind_apply] at h
  rcases Outcome.bind_eq_ok.1 h with ⟨⟨⟨a, s'⟩, t'⟩, hact, hf⟩
  exact ⟨a, s', t', hact, hf⟩

theorem pure_eq_ok {a b : α} (h : (pure a : Action α) s t = .ok ((b, s'), t')) :
    a = b ∧ s = s' := by
  rcases Prod.mk.inj (Except.ok.inj h) with ⟨hpair, _⟩
  rcases Prod.mk.inj hpair with ⟨rfl, rfl⟩
  exact ⟨rfl, rfl⟩

theorem modify_bind (g : State → State) (f : PUnit → Action β) :
    (modify g >>= f) s t = f ⟨⟩ (g s) t := rfl

theorem mint_bind (name : String) (kind : ReferenceKind) (f : Reference → Action β) :
    (mint name kind >>= f) s t = f (s.registry.mint name kind).1
      { s with registry := (s.registry.mint name kind).2 } t := rfl

theorem enter_bind (x : SymbolId) (ref : Reference) (f : PUnit → Action β) :
    (enter x ref >>= f) s t = f ⟨⟩ { s with registry := s.registry.insert x ref } t := rfl

theorem entered?_bind (x : SymbolId) (f : Option Reference → Action β) :
    (entered? x >>= f) s t = f (s.registry.find? x) s t := rfl

theorem setTree_bind (i : Nat) (tree : ModuleTree) (f : PUnit → Action β) :
    (setTree i tree >>= f) s t = f ⟨⟩ (s.updateTree i fun _ => tree) t := rfl

theorem takeDepth_bind (f : Nat → Action β) :
    (takeDepth >>= f) s t = f s.depth { s with depth := 0 } t := rfl

theorem setDepth_bind (d : Nat) (f : PUnit → Action β) :
    (setDepth d >>= f) s t = f ⟨⟩ { s with depth := d } t := rfl

theorem require_eq_ok {o : Option α} {a : α} (h : require o s t = .ok ((a, s'), t')) :
    o = some a ∧ s = s' ∧ t = t' := by
  cases o with
  | none => cases h
  | some b =>
      rcases Prod.mk.inj (Except.ok.inj h) with ⟨hpair, ht⟩
      rcases Prod.mk.inj hpair with ⟨hb, hs⟩
      exact ⟨by rw [hb], hs, ht⟩

theorem require_bind {o : Option α} {a : α} (h : o = some a) (f : α → Action β) :
    (require o >>= f) s t = f a s t := by
  rw [h]
  rfl

/-- The way out of a type ends one level further out, if there is a level left. -/
theorem ascend_eq_ok {a : Unit} (h : ascend s t = .ok ((a, s'), t')) :
    s.depth = s'.depth + 1 ∧ s' = { s with depth := s'.depth } ∧ t' = t := by
  cases hd : s.depth with
  | zero =>
      rw [ascend_zero hd] at h
      cases h
  | succ d =>
      rw [ascend_succ hd] at h
      rcases Prod.mk.inj (Except.ok.inj h) with ⟨hpair, rfl⟩
      rcases Prod.mk.inj hpair with ⟨_, rfl⟩
      exact ⟨rfl, rfl, rfl⟩

/-- Whatever the action gives, it is as stated of the result and of the state that is left. -/
def Ends (s : State) (t : Trail) (act : Action α) (post : α → State → Prop) : Prop :=
  ∀ a s' t', act s t = .ok ((a, s'), t') → post a s'

namespace Ends

variable {act : Action α} {f : α → Action β} {post : α → State → Prop} {post' : β → State → Prop}

theorem pure {a : α} (h : post a s) : Ends s t (Pure.pure a) post := by
  intro b s' t' hrun
  rcases pure_eq_ok hrun with ⟨rfl, rfl⟩
  exact h

theorem bind (h : ∀ a s' t', act s t = .ok ((a, s'), t') → Ends s' t' (f a) post') :
    Ends s t (act >>= f) post' := by
  intro b s'' t'' hrun
  rcases bind_eq_ok hrun with ⟨a, s', t', hact, hrun⟩
  exact h a s' t' hact b s'' t'' hrun

theorem get {f : State → Action β} (h : Ends s t (f s) post') :
    Ends s t (MonadState.get >>= f) post' := h

end Ends

/-- The action gives a result, and what is stated holds of the result and of the state that is
    left. -/
def Returns (s : State) (t : Trail) (act : Action α) (post : α → State → Prop) : Prop :=
  ∃ a s' t', act s t = .ok ((a, s'), t') ∧ post a s'

namespace Returns

variable {act : Action α} {f : α → Action β} {post : α → State → Prop} {post' : β → State → Prop}

theorem pure {a : α} (h : post a s) : Returns s t (Pure.pure a) post := ⟨a, s, t, rfl, h⟩

theorem bind (h : Returns s t act post)
    (hf : ∀ a s' t', post a s' → Returns s' t' (f a) post') : Returns s t (act >>= f) post' := by
  rcases h with ⟨a, s₁, t₁, hact, ha⟩
  rcases hf a s₁ t₁ ha with ⟨b, s₂, t₂, hb, hpost⟩
  refine ⟨b, s₂, t₂, ?_, hpost⟩
  rw [bind_apply, hact]
  exact hb

theorem get {f : State → Action β} (h : Returns s t (f s) post') :
    Returns s t (MonadState.get >>= f) post' := h

theorem entered? {x : SymbolId} {f : Option Reference → Action β}
    (h : Returns s t (f (s.registry.find? x)) post') :
    Returns s t (Action.entered? x >>= f) post' := h

theorem takeDepth {f : Nat → Action β} (h : Returns { s with depth := 0 } t (f s.depth) post') :
    Returns s t (Action.takeDepth >>= f) post' := h

theorem mono {post₁ : α → State → Prop} (h : Returns s t act post)
    (hpost : ∀ a s', post a s' → post₁ a s') : Returns s t act post₁ := by
  rcases h with ⟨a, s', t', hact, ha⟩
  exact ⟨a, s', t', hact, hpost a s' ha⟩

end Returns

end Action

/-- What an action is to keep. -/
structure Guard where
  /-- The condition on a state and on the trail that has led to it. -/
  holds : State → Trail → Prop
  /-- Whether it is to be kept, too, that the trail has no bearing on the outcome. -/
  blind : Prop := False
  /-- The depths at which results can be relied on. Work that has left them does not come back. -/
  whole : Nat → Prop := fun _ => True

/-- A condition on states alone. -/
instance : Coe (State → Prop) Guard := ⟨fun K => { holds := fun s _ => K s }⟩

/-- Whenever the action gives a result from a state that meets the guard, so does the state it
    leaves. If results can be relied on there, they could be before, and the result is as stated. -/
structure Keeps (K : Guard) (act : Action α) (ok : α → Prop) : Prop where
  holds : ∀ s t a s' t', K.holds s t → act s t = .ok ((a, s'), t') →
    K.holds s' t' ∧ (K.whole s'.depth → K.whole s.depth ∧ ok a)
  blind : K.blind → ∀ s t u, K.holds s t → (act s u).map (·.1) = (act s t).map (·.1)

namespace Keeps

section

variable {K : State → Prop} {act : Action α} {ok : α → Prop}

/-- A condition on states alone does not ask for more. -/
theorem of_state (h : ∀ s t a s' t', K s → act s t = .ok ((a, s'), t') → K s' ∧ ok a) :
    Keeps K act ok := by
  refine ⟨fun s t a s' t' hs hrun => ?_, False.elim⟩
  rcases h s t a s' t' hs hrun with ⟨hs', ha⟩
  exact ⟨hs', fun _ => ⟨trivial, ha⟩⟩

theorem state {s s' : State} {t t' : Trail} {a : α} (h : Keeps K act ok) (hs : K s)
    (hrun : act s t = .ok ((a, s'), t')) : K s' := (h.holds s t a s' t' hs hrun).1

theorem result {s s' : State} {t t' : Trail} {a : α} (h : Keeps K act ok) (hs : K s)
    (hrun : act s t = .ok ((a, s'), t')) : ok a := ((h.holds s t a s' t' hs hrun).2 trivial).2

end

variable {K : Guard} {act : Action α} {f : α → Action β} {ok ok₁ : α → Prop} {ok' : β → Prop}

theorem pure {a : α} (h : ok a) : Keeps K (Pure.pure a : Action α) ok := by
  refine ⟨fun s t b s' t' hs hrun => ?_, fun _ _ _ _ _ => rfl⟩
  rcases Prod.mk.inj (Except.ok.inj hrun) with ⟨hpair, rfl⟩
  rcases Prod.mk.inj hpair with ⟨rfl, rfl⟩
  exact ⟨hs, fun hw => ⟨hw, h⟩⟩

theorem pure_none {P : Prop} :
    Keeps K (Pure.pure none : Action (Option α)) fun o => ∀ a, o = some a → P :=
  pure fun _ h => absurd h.symm (Option.some_ne_none _)

theorem fail (failure : Failure) : Keeps K (Action.fail failure : Action α) ok :=
  ⟨fun _ _ _ _ _ _ hrun => (nomatch hrun), fun _ _ _ _ _ => rfl⟩

theorem mono (h : Keeps K act ok) (hok : ∀ a, ok a → ok₁ a) : Keeps K act ok₁ := by
  refine ⟨fun s t a s' t' hs hrun => ?_, h.blind⟩
  rcases h.holds s t a s' t' hs hrun with ⟨hs', ha⟩
  exact ⟨hs', fun hw => ⟨(ha hw).1, hok a (ha hw).2⟩⟩

/-- If the trail has no bearing on either of two actions, it has none on both together. -/
theorem blind_bind (h : Keeps K act ok)
    (hf : ∀ s t a s' t', K.holds s t → act s t = .ok ((a, s'), t') →
      Keeps K (f a) fun _ => True)
    (hblind : K.blind) (s : State) (t u : Trail) (hs : K.holds s t) :
    ((act >>= f) s u).map (·.1) = ((act >>= f) s t).map (·.1) := by
  have hsame := h.blind hblind s t u hs
  rw [Action.bind_apply, Action.bind_apply]
  -- The first action does the same whatever the trail is, so the second starts from the same state.
  cases hact : act s t with
  | error e =>
      rw [hact] at hsame
      rw [Outcome.map_eq_error.1 hsame]
  | ok r =>
      rcases r with ⟨⟨a, s'⟩, t'⟩
      rw [hact] at hsame
      rcases Outcome.map_eq_ok.1 hsame with ⟨⟨_, u'⟩, hact', rfl⟩
      rw [hact']
      exact (hf s t a s' t' hs hact).blind hblind s' t' u' (h.holds s t a s' t' hs hact).1

/-- One action after another. What is said of the first result is known where the second is. -/
theorem bind (h : Keeps K act ok) (hf : ∀ a, Keeps K (f a) fun b => ok a → ok' b) :
    Keeps K (act >>= f) ok' := by
  refine ⟨fun s t b s'' t'' hs hrun => ?_,
    h.blind_bind fun _ _ a _ _ _ _ => (hf a).mono fun _ _ => trivial⟩
  rcases Action.bind_eq_ok hrun with ⟨a, s', t', hact, hrun⟩
  -- Where the last result can be relied on, so can the one before it.
  rcases h.holds s t a s' t' hs hact with ⟨hs', ha⟩
  rcases (hf a).holds s' t' b s'' t'' hs' hrun with ⟨hs'', hb⟩
  refine ⟨hs'', fun hw => ?_⟩
  rcases hb hw with ⟨hw', hb⟩
  exact ⟨(ha hw').1, hb (ha hw').2⟩

/-- One action after another, where the first result can be relied on in any case. -/
theorem bindWhole (h : Keeps K act ok) (hK : ∀ d, K.whole d)
    (hf : ∀ a, ok a → Keeps K (f a) ok') : Keeps K (act >>= f) ok' := by
  have hok : ∀ s t a s' t', K.holds s t → act s t = .ok ((a, s'), t') → ok a :=
    fun s t a s' t' hs hact => ((h.holds s t a s' t' hs hact).2 (hK _)).2
  refine ⟨fun s t b s'' t'' hs hrun => ?_,
    h.blind_bind fun s t a s' t' hs hact =>
      (hf a (hok s t a s' t' hs hact)).mono fun _ _ => trivial⟩
  rcases Action.bind_eq_ok hrun with ⟨a, s', t', hact, hrun⟩
  have hrest := hf a (hok s t a s' t' hs hact)
  rcases hrest.holds s' t' b s'' t'' (h.holds s t a s' t' hs hact).1 hrun with ⟨hs'', hb⟩
  exact ⟨hs'', fun hw => ⟨hK _, (hb hw).2⟩⟩

/-- One action after another, where nothing is said of what the first gives. -/
theorem andThen (h : Keeps K act fun _ => True) (hf : ∀ a, Keeps K (f a) ok') :
    Keeps K (act >>= f) ok' := h.bind fun a => (hf a).mono fun _ hb _ => hb

/-- Reading the state. What is known of the state is known of what is read. -/
theorem get {f : State → Action β} (hf : ∀ s, (∃ t, K.holds s t) → Keeps K (f s) ok') :
    Keeps K (MonadState.get >>= f) ok' :=
  ⟨fun s t b s' t' hs hrun => (hf s ⟨t, hs⟩).holds s t b s' t' hs hrun,
    fun hblind s t u hs => (hf s ⟨t, hs⟩).blind hblind s t u hs⟩

/-- Changing the state. -/
theorem update {g : State → State} (hg : ∀ s t, K.holds s t → K.holds (g s) t)
    (hw : ∀ s, K.whole (g s).depth → K.whole s.depth := by exact fun _ h => h) :
    Keeps K (modify g : Action PUnit) fun _ => True := by
  refine ⟨fun s t a s' t' hs hrun => ?_, fun _ _ _ _ _ => rfl⟩
  rcases Prod.mk.inj (Except.ok.inj hrun) with ⟨hpair, rfl⟩
  rw [← (Prod.mk.inj hpair).2]
  exact ⟨hg s t hs, fun h => ⟨hw s h, trivial⟩⟩

/-- The way out of a type, if the depth has no bearing on the guard. -/
theorem ascend (hg : ∀ s t d, K.holds s t → K.holds { s with depth := d } t)
    (hw : ∀ d, K.whole d) : Keeps K Action.ascend fun _ => True := by
  refine ⟨fun s t a s' t' hs hrun => ?_, fun _ s t u _ => ?_⟩
  · rcases Action.ascend_eq_ok hrun with ⟨_, heq, rfl⟩
    rw [heq]
    exact ⟨hg s _ _ hs, fun _ => ⟨hw _, trivial⟩⟩
  · cases hd : s.depth with
    | zero => rw [Action.ascend_zero hd, Action.ascend_zero hd]
    | succ d =>
        rw [Action.ascend_succ hd, Action.ascend_succ hd]
        rfl

/-- Looking at what may not be there. If it is not there, there is no result. -/
theorem require {o : Option α} (hf : ∀ a, o = some a → Keeps K (f a) ok') :
    Keeps K (Action.require o >>= f) ok' := by
  cases o with
  | none => exact ⟨fun _ _ _ _ _ _ hrun => (nomatch hrun), fun _ _ _ _ _ => rfl⟩
  | some a => exact hf a rfl

/-- Work on every item of a list. -/
theorem mapM (as : List α) (h : ∀ a ∈ as, Keeps K (f a) ok') :
    Keeps K (as.mapM f) fun bs => ∀ b ∈ bs, ok' b := by
  induction as with
  | nil =>
      rw [List.mapM_nil]
      exact pure (List.forall_mem_nil _)
  | cons a as ih =>
      rw [List.mapM_cons]
      refine (h a List.mem_cons_self).bind fun b => ?_
      refine (ih fun a' ha' => h a' (List.mem_cons_of_mem a ha')).bind fun bs => pure ?_
      -- The first item is in front of what the rest gives.
      intro hbs hb b' hb'
      rcases List.mem_cons.1 hb' with rfl | hb'
      · exact hb
      · exact hbs b' hb'

/-- Work on what may not be there. -/
theorem optionMapM (o : Option α) (h : ∀ a, Keeps K (f a) ok') :
    Keeps K (o.mapM f) fun o => ∀ b ∈ o.toList, ok' b := by
  cases o with
  | none => exact pure (List.forall_mem_nil _)
  | some a =>
      refine (h a).bind fun b => pure fun hb b' hb' => ?_
      rw [List.mem_singleton.1 hb']
      exact hb

/-- Work on every item of a list, keeping the results that are there. -/
theorem collect {g : α → Action (Option β)} (as : List α)
    (h : ∀ a ∈ as, Keeps K (g a) fun o => ∀ b ∈ o.toList, ok' b) :
    Keeps K (Action.collect g as) fun bs => ∀ b ∈ bs, ok' b := by
  refine (mapM as h).bind fun os => pure fun hos b hb => ?_
  rcases List.mem_filterMap.1 hb with ⟨o, ho, rfl⟩
  exact hos (some b) ho b (List.mem_singleton_self b)

/-- Work on every item of a list, adding to what there is. -/
theorem foldlM {g : β → α → Action β} (as : List α) (b : β)
    (h : ∀ b, ∀ a ∈ as, Keeps K (g b a) fun b' => ok' b → ok' b') :
    Keeps K (as.foldlM g b) fun b' => ok' b → ok' b' := by
  induction as generalizing b with
  | nil =>
      rw [List.foldlM_nil]
      exact pure id
  | cons a as ih =>
      rw [List.foldlM_cons]
      -- If the condition holds of what there is, it holds after the first item, and so after all.
      refine (h b a List.mem_cons_self).bind fun b₁ => ?_
      exact (ih b₁ fun b a ha => h b a (List.mem_cons_of_mem _ ha)).mono
        fun b₂ hb₂ hb₁ hb => hb₂ (hb₁ hb)

/-- The same, where nothing is said of what there is. -/
theorem foldlM_true {g : β → α → Action β} (as : List α) (b : β)
    (h : ∀ b, ∀ a ∈ as, Keeps K (g b a) fun _ => True) :
    Keeps K (as.foldlM g b) fun _ => True := by
  induction as generalizing b with
  | nil => exact pure trivial
  | cons a as ih =>
      rw [List.foldlM_cons]
      exact (h b a List.mem_cons_self).andThen fun b₁ =>
        ih b₁ fun b a ha => h b a (List.mem_cons_of_mem _ ha)

/-- Work on every item of a list, for its effect alone. -/
theorem forM {g : α → Action Unit} (as : List α) (h : ∀ a ∈ as, Keeps K (g a) fun _ => True) :
    Keeps K (as.forM g) fun _ => True := by
  induction as with
  | nil => exact pure trivial
  | cons a as ih =>
      exact (h a List.mem_cons_self).andThen fun _ =>
        ih fun a' ha' => h a' (List.mem_cons_of_mem a ha')

end Keeps

section

variable {K : State → Prop} {act : Action α} {f : α → Action β} {ok : α → Prop} {ok' : β → Prop}

/-- One action after another, with a condition on states alone. -/
theorem Keeps.bindState (h : Keeps K act ok) (hf : ∀ a, ok a → Keeps K (f a) ok') :
    Keeps K (act >>= f) ok' := h.bindWhole (fun _ => trivial) hf

/-- Work on every item of a list, with a condition on states alone. -/
theorem Keeps.foldlState {g : β → α → Action β} (as : List α) (b : β) (hb : ok' b)
    (h : ∀ b, ∀ a ∈ as, ok' b → Keeps K (g b a) ok') : Keeps K (as.foldlM g b) ok' := by
  induction as generalizing b with
  | nil =>
      rw [List.foldlM_nil]
      exact pure hb
  | cons a as ih =>
      rw [List.foldlM_cons]
      exact (h b a List.mem_cons_self hb).bindState fun b' hb' =>
        ih b' hb' fun b a ha => h b a (List.mem_cons_of_mem _ ha)

end

/-- The same from one state alone. -/
structure KeepsAt (K : Guard) (s : State) (act : Action α) (ok : α → Prop) : Prop where
  holds : ∀ t a s' t', K.holds s t → act s t = .ok ((a, s'), t') →
    K.holds s' t' ∧ (K.whole s'.depth → K.whole s.depth ∧ ok a)
  blind : K.blind → ∀ t u, K.holds s t → (act s u).map (·.1) = (act s t).map (·.1)

section

variable {K : Guard} {act : Action α} {f : α → Action β} {ok : α → Prop} {ok' : β → Prop}
  {s : State}

theorem Keeps.keepsAt (h : Keeps K act ok) (s : State) : KeepsAt K s act ok :=
  ⟨h.holds s, fun hblind => h.blind hblind s⟩

/-- Reading the state, where it matters that what comes next starts from the state that was read. -/
theorem Keeps.getAt {f : State → Action β} (hf : ∀ s, KeepsAt K s (f s) ok') :
    Keeps K (MonadState.get >>= f) ok' :=
  ⟨fun s => (hf s).holds, fun hblind s => (hf s).blind hblind⟩

theorem KeepsAt.require {o : Option α} (hf : ∀ a, o = some a → KeepsAt K s (f a) ok') :
    KeepsAt K s (Action.require o >>= f) ok' := by
  cases o with
  | none => exact (Keeps.require fun _ ha => absurd ha.symm (Option.some_ne_none _)).keepsAt s
  | some a => exact hf a rfl

/-- Changing the state, from the state that was read. -/
theorem KeepsAt.update {g : State → State} {f : PUnit → Action β}
    (hg : ∀ t, K.holds s t → K.holds (g s) t) (hf : Keeps K (f ⟨⟩) ok')
    (hw : K.whole (g s).depth → K.whole s.depth := by exact fun h => h) :
    KeepsAt K s (modify g >>= f) ok' := by
  refine ⟨fun t b s' t' hs hrun => ?_, fun hblind t u hs => hf.blind hblind (g s) t u (hg t hs)⟩
  rcases hf.holds (g s) t b s' t' (hg t hs) hrun with ⟨hs', hb⟩
  exact ⟨hs', fun h => ⟨hw (hb h).1, (hb h).2⟩⟩

end

/-- A condition that is met by types without parts. -/
structure Ty.Admits (ok : Ty → Prop) : Prop where
  verbatim : ∀ text, ok (Ty.verbatim text)
  primitive : ∀ kind literal, ok (.of (.primitive kind literal))

/-- The condition that is met by all types. -/
theorem Ty.admits_true : Ty.Admits fun _ => True := ⟨fun _ => trivial, fun _ _ => trivial⟩

/-- A union, which is simplified where it is made. -/
def Ty.Shape.isUnion : Ty.Shape α → Bool
  | .union _ => true
  | _ => false

/-- What is known of the parts of a type, and what follows for the type. -/
structure Ty.Layers (inner outer : Ty → Prop) : Prop extends Ty.Admits inner where
  layer : ∀ s : Ty.Shape Ty, s.isUnion = false → (∀ t ∈ s.parts, inner t) → outer (.of s)
  union : ∀ ts, (∀ t ∈ ts, inner t) → outer (Ty.union ts)

/-- A layer without parts is a layer. -/
theorem Ty.Layers.admits {inner outer : Ty → Prop} (h : Ty.Layers inner outer) :
    Ty.Admits outer :=
  ⟨fun _ => h.layer _ rfl (List.forall_mem_nil _), fun _ _ => h.layer _ rfl (List.forall_mem_nil _)⟩

/-- An intrinsic type has no parts. -/
theorem Intrinsic.admits_ty {ok : Ty → Prop} (h : Ty.Admits ok) (kind : Intrinsic) :
    ok kind.ty := by
  cases kind <;> exact h.primitive _ _

theorem TypeForm.admits_literal? {ok : Ty → Prop} (h : Ty.Admits ok) (form : TypeForm) (t : Ty)
    (ht : form.literal? = some t) : ok t := by
  cases form with
  | intrinsic kind =>
      rw [← Option.some.inj ht]
      exact kind.admits_ty h
  | stringLiteral | numberLiteral | bigintLiteral =>
      rw [← Option.some.inj ht]
      exact h.primitive _ _
  | _ => exact absurd ht (by simp only [literal?, reduceCtorEq, not_false_eq_true])

namespace Program

variable {ok : Ty → Prop} (p : Program)

theorem admits_identityPrimitive? (h : Ty.Admits ok) (ty : TypeId) (t : Ty)
    (ht : p.identityPrimitive? ty = some t) : ok t := by
  rcases Option.map_eq_some_iff.1 ht with ⟨kind, _, rfl⟩
  exact kind.admits_ty h

theorem admits_literalType? (h : Ty.Admits ok) (ty : TypeId) (t : Ty)
    (ht : p.literalType? ty = some t) : ok t := by
  rcases Option.or_eq_some_iff.1 ht with ht | ⟨_, ht⟩
  · exact p.admits_identityPrimitive? h ty t ht
  · rcases Option.bind_eq_some_iff.1 ht with ⟨info, _, ht⟩
    exact info.form.admits_literal? h t ht

end Program

/-- A guard that the work of building itself cannot break: it makes references, and enters the
    members of an enumeration together with it. -/
structure Bears (p : Program) (members : List SymbolId) (K : Guard) : Prop where
  mint : ∀ s t name kind, K.holds s t →
    K.holds { s with registry := (s.registry.mint name kind).2 } t
  utility : ∀ s t name ref, K.holds s t →
    K.holds { s with stringUtilities := s.stringUtilities.insert name ref } t
  member : ∀ s t x info ref, x ∈ members → p.symbol? x = some info → info.kind = .enumMember →
    K.holds s t → K.holds { s with registry := s.registry.insert x ref } t

namespace Bears

variable {p : Program} {members : List SymbolId} {K : Guard} (h : Bears p members K)

include h

theorem keeps_mint (name : String) (kind : ReferenceKind) :
    Keeps K (Action.mint name kind) fun _ => True := by
  refine ⟨fun s t a s' t' hs hrun => ?_, fun _ _ _ _ _ => rfl⟩
  rcases Prod.mk.inj (Except.ok.inj hrun) with ⟨hpair, rfl⟩
  rw [← (Prod.mk.inj hpair).2]
  exact ⟨h.mint s t name kind hs, fun hw => ⟨hw, trivial⟩⟩

/-- A type of which nothing is known is a reference, without arguments. -/
theorem keeps_unknownReference {inner outer : Ty → Prop}
    (hl : Ty.Layers inner outer) (q : Program) (ty : TypeId) :
    Keeps K (unknownReference q ty) outer := by
  refine (h.keeps_mint _ _).andThen fun ref => Keeps.pure ?_
  exact hl.layer _ rfl (List.forall_mem_nil _)

/-- The reference to a utility is made once and kept. -/
theorem keeps_stringUtility (name : String) :
    Keeps K (stringUtility name) fun _ => True := by
  refine Keeps.get fun s _ => ?_
  cases s.stringUtilities.find? name with
  | some ref => exact Keeps.pure trivial
  | none =>
      refine (h.keeps_mint name .stringUtility).andThen fun ref => ?_
      exact (Keeps.update fun s t hs => h.utility s t name ref hs).andThen fun _ =>
        Keeps.pure trivial

end Bears

/-- The two calls keep a guard, and the types they give meet a condition. -/
structure Calls.Keep (calls : Calls) (K : Guard) (ok : Ty → Prop) : Prop where
  reference : ∀ x, Keeps K (calls.reference x) fun _ => True
  normalize : ∀ ty node expanding, Keeps K (calls.normalize ty node expanding) ok

namespace Calls.Keep

section Members

variable {calls : Calls} {K : Guard} {ok : Ty → Prop} (h : calls.Keep K ok)
  (hok : Ty.Admits ok) (p : Program)

include h hok

theorem normalizeNode (node : NodeId) : Keeps K (calls.normalizeNode p node) ok := by
  unfold Calls.normalizeNode
  split
  · exact h.normalize _ _ _
  · exact Keeps.pure (hok.verbatim _)

/-- A type parameter has its constraint and its default as parts. -/
theorem typeParameter? (node : NodeId) :
    Keeps K (calls.typeParameter? p node) fun o => ∀ b ∈ o.toList, ∀ t ∈ b.parts, ok t := by
  unfold Calls.typeParameter?
  split
  · refine (Keeps.optionMapM _ fun a => h.normalizeNode hok p a).bind fun constraint => ?_
    refine (Keeps.optionMapM _ fun a => h.normalizeNode hok p a).bind fun fallback => ?_
    refine Keeps.pure fun hf hc b hb t ht => ?_
    rw [List.mem_singleton.1 hb] at ht
    rcases List.mem_append.1 ht with ht | ht
    · exact hc t ht
    · exact hf t ht
  · exact Keeps.pure (List.forall_mem_nil _)

theorem typeParameters (nodes : List NodeId) :
    Keeps K (calls.typeParameters p nodes) fun bs => ∀ b ∈ bs, ∀ t ∈ b.parts, ok t :=
  Keeps.collect nodes fun node _ => h.typeParameter? hok p node

theorem typeParameterOf? (ty : TypeId) :
    Keeps K (calls.typeParameterOf? p ty) fun o => ∀ b ∈ o.toList, ∀ t ∈ b.parts, ok t := by
  unfold Calls.typeParameterOf?
  split
  · exact Keeps.pure (List.forall_mem_nil _)
  · split
    · exact h.typeParameter? hok p _
    · refine Keeps.pure fun b hb t ht => ?_
      rw [List.mem_singleton.1 hb] at ht
      exact absurd ht List.not_mem_nil

omit hok in
theorem parameter? (x : SymbolId) :
    Keeps K (calls.parameter? p x) fun o => ∀ b ∈ o.toList, ∀ t ∈ b.parts, ok t := by
  unfold Calls.parameter?
  split
  · exact Keeps.pure (List.forall_mem_nil _)
  · refine (Keeps.optionMapM _ fun ty => h.normalize ty _ none).bind fun ty => ?_
    refine Keeps.pure fun hty b hb t ht => ?_
    rw [List.mem_singleton.1 hb] at ht
    exact hty t ht

/-- A signature has the parts of its parameters, and what it returns. -/
theorem signature (s : SignatureInfo) :
    Keeps K (calls.signature p s) fun b => ∀ t ∈ b.parts, ok t := by
  unfold Calls.signature
  refine (Keeps.collect _ fun ty _ => h.typeParameterOf? hok p ty).bind fun ts => ?_
  refine (Keeps.collect _ fun x _ => h.parameter? p x).bind fun ps => ?_
  refine (h.normalize _ none none).bind fun r => Keeps.pure fun hr hps hts t ht => ?_
  rcases List.mem_append.1 ht with ht | ht
  · rcases List.mem_append.1 ht with ht | ht
    · rcases List.mem_flatMap.1 ht with ⟨b, hb, ht⟩
      exact hts b hb t ht
    · rcases List.mem_flatMap.1 ht with ⟨b, hb, ht⟩
      exact hps b hb t ht
  · rw [List.mem_singleton.1 ht]
    exact hr

theorem signatures (ss : List SignatureInfo) :
    Keeps K (calls.signatures p ss) fun bs => ∀ t ∈ bs.flatMap (·.parts), ok t := by
  refine (Keeps.mapM ss fun s _ => h.signature hok p s).mono fun bs hbs t ht => ?_
  rcases List.mem_flatMap.1 ht with ⟨b, hb, ht⟩
  exact hbs b hb t ht

theorem method (info : SymbolInfo) (nodes : List NodeInfo) (ty : TypeId) (style : MemberStyle) :
    Keeps K (calls.method p info nodes ty style) fun m => ∀ t ∈ m.parts, ok t :=
  (h.signatures hok p _).bind fun _ => Keeps.pure id

omit hok in
theorem property (info : SymbolInfo) (nodes : List NodeInfo) (ty : TypeId) (style : MemberStyle) :
    Keeps K (calls.property info nodes ty style) fun m => ∀ t ∈ m.parts, ok t := by
  refine (h.normalize ty _ none).bind fun value => Keeps.pure fun hvalue t ht => ?_
  rw [List.mem_singleton.1 ht]
  exact hvalue

/-- What is added comes last among its like; all else was there before. -/
theorem addMember (style : MemberStyle) (object : ObjectLiteral Ty) (x : SymbolId) :
    Keeps K (calls.addMember p style object x)
      fun o => (∀ t ∈ object.parts, ok t) → ∀ t ∈ o.parts, ok t := by
  unfold Calls.addMember
  split
  · dsimp only
    -- Constructors become signatures, and the rest are methods or properties.
    split
    · refine (h.signatures hok p _).bind fun added => Keeps.pure fun hadded hobject t ht => ?_
      have hold := hobject t
      have hnew := hadded t
      simp only [ObjectLiteral.parts, List.flatMap_append, List.mem_append] at ht hold
      tauto
    · split
      · refine (h.method hok p _ _ _ _).bind fun added => Keeps.pure fun hadded hobject t ht => ?_
        have hold := hobject t
        have hnew := hadded t
        simp only [ObjectLiteral.parts, List.flatMap_append, List.flatMap_cons, List.flatMap_nil,
          List.append_nil, List.mem_append] at ht hold
        tauto
      · refine (h.property _ _ _ _).bind fun added => Keeps.pure fun hadded hobject t ht => ?_
        have hold := hobject t
        have hnew := hadded t
        simp only [ObjectLiteral.parts, List.flatMap_append, List.flatMap_cons, List.flatMap_nil,
          List.append_nil, List.mem_append] at ht hold
        tauto
  · exact Keeps.pure id

theorem addMembers (style : MemberStyle) (object : ObjectLiteral Ty) (xs : List SymbolId) :
    Keeps K (xs.foldlM (calls.addMember p style) object)
      fun o => (∀ t ∈ object.parts, ok t) → ∀ t ∈ o.parts, ok t :=
  Keeps.foldlM xs object fun o x _ => h.addMember hok p style o x

/-- An index signature has its key as a part, which is a primitive type. -/
theorem indexSignature? (ty : TypeId) (kind : IndexKind) (key : PrimitiveKind) :
    Keeps K (calls.indexSignature? p ty kind key)
      fun o => ∀ t ∈ o.toList.flatMap (·.parts), ok t := by
  unfold Calls.indexSignature?
  refine (Keeps.optionMapM _ fun ty => h.normalize ty none none).bind fun value =>
    Keeps.pure fun hvalue t ht => ?_
  cases value with
  | none => exact absurd ht List.not_mem_nil
  | some value =>
      simp only [Option.map_some, Option.toList_some, List.flatMap_cons, List.flatMap_nil,
        List.append_nil, IndexSignature.parts, List.mem_cons, List.not_mem_nil, or_false] at ht
      rcases ht with rfl | rfl
      · exact hok.primitive _ _
      · exact hvalue t (List.mem_singleton_self t)

/-- Members, index signatures and signatures, one after the other. -/
theorem objectLiteral (ty : TypeId) (withFlags : Bool) :
    Keeps K (calls.objectLiteral p ty withFlags) fun o => ∀ t ∈ o.parts, ok t := by
  unfold Calls.objectLiteral
  refine (h.addMembers hok p _ _ _).bind fun o => ?_
  refine (h.indexSignature? hok p ty .string .string).bind fun byString => ?_
  refine (h.indexSignature? hok p ty .number .number).bind fun byNumber => ?_
  refine (h.signatures hok p _).bind fun calls => ?_
  refine (h.signatures hok p _).bind fun makes =>
    Keeps.pure fun hmakes hcalls hn hs ho t ht => ?_
  have ho' := ho (List.forall_mem_nil _) t
  have hs' := hs t
  have hn' := hn t
  have hcalls' := hcalls t
  have hmakes' := hmakes t
  simp only [ObjectLiteral.parts, List.flatMap_append, List.mem_append] at ht ho'
  tauto

end Members

section Types

variable {calls : Calls} {K : Guard} {inner outer : Ty → Prop} (h : calls.Keep K inner)
  (hl : Ty.Layers inner outer) {p : Program} {members : List SymbolId} (hb : Bears p members K)
  (q : Program)

include h

theorem normalizeAll (tys : List TypeId) :
    Keeps K (calls.normalizeAll tys) fun ts => ∀ t ∈ ts, inner t :=
  Keeps.mapM tys fun ty _ => h.normalize ty none none

theorem tupleElement (member : TupleMember) :
    Keeps K (calls.tupleElement member) fun e => inner e.ty :=
  (h.normalize member.ty none none).bind fun _ => Keeps.pure id

/-- Each span of a template has one type. -/
theorem templateSpans (tys : List TypeId) (texts : List String) :
    Keeps K (calls.templateSpans tys texts) fun spans => ∀ t ∈ spans.map (·.ty), inner t := by
  induction tys generalizing texts with
  | nil => exact Keeps.pure (List.forall_mem_nil _)
  | cons ty tys ih =>
      unfold Calls.templateSpans
      refine (h.normalize ty none none).bind fun t => (ih texts.tail).bind fun spans =>
        Keeps.pure fun hspans ht u hu => ?_
      rw [List.map_cons] at hu
      rcases List.mem_cons.1 hu with rfl | hu
      · exact ht
      · exact hspans u hu

include hl

/-- A type with one signature and nothing else is a function type, and any other is an object. -/
theorem objectType (ty : TypeId) : Keeps K (calls.objectType q ty) outer := by
  have hobject := h.objectLiteral hl.toAdmits q ty false
  unfold Calls.objectType
  split
  · split
    · exact (h.signature hl.toAdmits q _).bind fun s => Keeps.pure fun hs => hl.layer _ rfl hs
    · exact hobject.bind fun o => Keeps.pure fun ho => hl.layer _ rfl ho
  · exact hobject.bind fun o => Keeps.pure fun ho => hl.layer _ rfl ho

include hb

theorem composite (ty : TypeId) (form : TypeForm) :
    Keeps K (calls.composite q ty form) outer := by
  -- Each form is one layer around what the calls give.
  have hplain := fun ty => h.normalize ty none none
  cases form with
  | union members => exact (h.normalizeAll members).bind fun ts => Keeps.pure (hl.union ts)
  | intersection members =>
      exact (h.normalizeAll members).bind fun ts => Keeps.pure fun hts => hl.layer _ rfl hts
  | tuple members =>
      refine (Keeps.mapM members fun e _ => h.tupleElement e).bind fun es => ?_
      refine Keeps.pure fun hes => hl.layer _ rfl fun t ht => ?_
      rcases List.mem_map.1 ht with ⟨e, he, rfl⟩
      exact hes e he
  | conditional check bound whenTrue whenFalse =>
      refine (hplain check).bind fun t₁ => (hplain bound).bind fun t₂ =>
        (hplain whenTrue).bind fun t₃ => (hplain whenFalse).bind fun t₄ => ?_
      refine Keeps.pure fun h₄ h₃ h₂ h₁ => hl.layer _ rfl fun t ht => ?_
      simp only [Ty.Shape.parts, List.mem_cons, List.not_mem_nil, or_false] at ht
      rcases ht with rfl | rfl | rfl | rfl <;> assumption
  | indexedAccess container index =>
      refine (hplain container).bind fun t₁ => (hplain index).bind fun t₂ => ?_
      refine Keeps.pure fun h₂ h₁ => hl.layer _ rfl fun t ht => ?_
      simp only [Ty.Shape.parts, List.mem_cons, List.not_mem_nil, or_false] at ht
      rcases ht with rfl | rfl <;> assumption
  | keyOf target | operator _ target =>
      refine (hplain target).bind fun t => Keeps.pure fun ht => hl.layer _ rfl fun u hu => ?_
      rw [List.mem_singleton.1 hu]
      exact ht
  | template texts types =>
      exact (h.templateSpans types texts.tail).bind fun spans =>
        Keeps.pure fun hspans => hl.layer _ rfl hspans
  | unrecognized =>
      exact Keeps.pure (hl.layer _ rfl (List.forall_mem_nil _))
  | _ => exact hb.keeps_unknownReference hl q ty

theorem normalizeStructure (ty : TypeId) (info : TypeInfo) :
    Keeps K (calls.normalizeStructure q ty info) outer := by
  have hplain := fun ty => h.normalize ty none none
  have hnone : ∀ t ∈ ([] : List Ty), inner t := List.forall_mem_nil _
  unfold Calls.normalizeStructure
  split
  · split
    · exact hb.keeps_unknownReference hl q ty
    · refine (h.reference _).andThen fun o => ?_
      cases o with
      | none => exact hb.keeps_unknownReference hl q ty
      | some ref => exact Keeps.pure (hl.layer _ rfl hnone)
  · -- A string mapping is a reference to a utility, with what it maps as its argument.
    refine (hb.keeps_stringUtility _).andThen fun ref => (hplain _).bind fun t => ?_
    refine Keeps.pure fun ht => hl.layer _ rfl fun u hu => ?_
    rw [List.mem_singleton.1 hu]
    exact ht
  · refine (Keeps.optionMapM _ hplain).bind fun t₁ => ?_
    refine (Keeps.optionMapM _ hplain).bind fun t₂ => ?_
    refine (Keeps.optionMapM _ hplain).bind fun t₃ => ?_
    refine Keeps.pure fun h₃ h₂ h₁ => hl.layer _ rfl fun t ht => ?_
    simp only [Ty.Shape.parts, MappedType.parts, List.mem_append] at ht
    rcases ht with (ht | ht) | ht
    · exact h₁ t ht
    · exact h₂ t ht
    · exact h₃ t ht
  · exact h.objectType hl q ty
  · split
    · rename_i form literal hliteral
      refine Keeps.pure ?_
      rcases Option.or_eq_some_iff.1 hliteral with hliteral | ⟨_, hliteral⟩
      · exact q.admits_identityPrimitive? hl.admits ty literal hliteral
      · exact TypeForm.admits_literal? hl.admits _ literal hliteral
    · exact h.composite hl hb q ty _

omit hb

/-- The alias that a type is written with, unless it is the one being expanded. -/
theorem writtenAlias? (info : TypeInfo) (expanding : Option SymbolId) :
    Keeps K (calls.writtenAlias? info expanding) fun o => ∀ t ∈ o.toList, outer t := by
  unfold Calls.writtenAlias?
  split
  · exact Keeps.pure (List.forall_mem_nil _)
  · split
    · exact Keeps.pure (List.forall_mem_nil _)
    · refine (h.reference _).andThen fun o => ?_
      cases o with
      | none => exact Keeps.pure (List.forall_mem_nil _)
      | some ref =>
          refine (h.normalizeAll _).bind fun ts => Keeps.pure fun hts t ht => ?_
          rw [List.mem_singleton.1 ht]
          exact hl.layer _ rfl hts

/-- The reference that a node has, with the arguments that are written there. -/
theorem writtenReference? (info : TypeInfo) (node : Option NodeId) :
    Keeps K (calls.writtenReference? q info node) fun o => ∀ t ∈ o.toList, outer t := by
  unfold Calls.writtenReference?
  split
  · refine (h.reference _).andThen fun o => ?_
    cases o with
    | none => exact Keeps.pure (List.forall_mem_nil _)
    | some ref =>
        refine (Keeps.mapM _ fun a _ => h.normalizeNode hl.toAdmits q a).bind fun ts =>
          Keeps.pure fun hts t ht => ?_
        rw [List.mem_singleton.1 ht]
        exact hl.layer _ rfl hts
  · exact Keeps.pure (List.forall_mem_nil _)

/-- The declaration that a type belongs to, with its arguments. -/
theorem owningReference? (ty : TypeId) (info : TypeInfo) :
    Keeps K (calls.owningReference? q ty info) fun o => ∀ t ∈ o.toList, outer t := by
  unfold Calls.owningReference?
  split
  · exact Keeps.pure (List.forall_mem_nil _)
  · split
    · refine (h.reference _).andThen fun o => ?_
      cases o with
      | none => exact Keeps.pure (List.forall_mem_nil _)
      | some ref =>
          refine (h.normalizeAll _).bind fun ts => Keeps.pure fun hts t ht => ?_
          rw [List.mem_singleton.1 ht]
          exact hl.layer _ rfl hts
    · exact Keeps.pure (List.forall_mem_nil _)

include hb

/-- A type has one layer more than the types that the calls give. -/
theorem normalizeType (ty : TypeId) (node : Option NodeId) (expanding : Option SymbolId) :
    Keeps K (calls.normalizeType q ty node expanding) outer := by
  unfold Calls.normalizeType
  split
  · exact hb.keeps_unknownReference hl q ty
  · -- The ways to write a type are tried in order, and its structure comes last.
    refine (h.writtenAlias? hl _ _).bind fun o => ?_
    cases o with
    | some t => exact Keeps.pure fun ho => ho t (List.mem_singleton_self t)
    | none =>
        refine Keeps.mono ?_ fun _ ht _ => ht
        refine (h.writtenReference? hl q _ _).bind fun o => ?_
        cases o with
        | some t => exact Keeps.pure fun ho => ho t (List.mem_singleton_self t)
        | none =>
            refine Keeps.mono ?_ fun _ ht _ => ht
            dsimp only
            split
            · refine (h.normalize _ none none).bind fun t => Keeps.pure fun ht => ?_
              refine hl.layer _ rfl fun u hu => ?_
              rw [List.mem_singleton.1 hu]
              exact ht
            · refine (h.owningReference? hl q ty _).bind fun o => ?_
              cases o with
              | some t => exact Keeps.pure fun ho => ho t (List.mem_singleton_self t)
              | none => exact (h.normalizeStructure hl hb q ty _).mono fun _ ht _ => ht

end Types

end Calls.Keep

end DocModel
