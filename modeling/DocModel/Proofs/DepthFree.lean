import DocModel.Proofs.Endure
import DocModel.Session.Basic

/-!
# References do not depend on the depth

A type that is nested too deeply is given as a text, so what comes of a type depends on the depth at
which it stands. What comes of a declaration does not. The depth is set to zero before a declaration
is registered, and nothing that is done before that looks at it: a symbol that is looked up from
deep inside a type gets the reference, the declaration and the module that it would get if it were
looked up first of all.

Two runs that start from states with different depths have different trails from then on. So it has
to be known that the trail has no bearing on what is done. It is a guard that every part of an
extraction keeps, since it asks nothing of states.

From where the depth is set to zero the two runs go through the same states. Around that, their
states differ in the depth alone, and one run can be followed along the other.

## Main definitions

* `Action.Blind`: The trail has no bearing on what an action does.
* `Action.outcome`: What comes of an action, with the depth and the trail left out.
* `Action.DepthFree`: The depth has no bearing on what comes of an action.

## Theorems

* `Context.blind_registerDeclaration`, `Context.blind_reference`: Nothing reads the trail.
* `Action.DepthFree.aside`: Where the depth is set to zero, two runs meet.
* `Context.depthFree_reference`: Looking up a symbol, in any number of steps.
* `Session.reference_ignores_depth`: The same in a session.
-/

namespace DocModel

variable {α β : Type}

namespace Action

/-- The trail has no bearing on the result of an action, and on the state that it leaves. -/
def Blind (act : Action α) : Prop :=
  ∀ s t u, (act s u).map (·.1) = (act s t).map (·.1)

/-- What comes of an action: its result and the state that it leaves, except for the depth. -/
def outcome (act : Action α) (s : State) (t : Trail) : Outcome (α × State) :=
  (act s t).map fun r => (r.1.1, { r.1.2 with depth := 0 })

/-- The depth has no bearing on what comes of an action. -/
def DepthFree (act : Action α) : Prop :=
  ∀ s d t u, act.outcome { s with depth := d } u = act.outcome s t

theorem outcome_of_eq_ok {act : Action α} {s s' : State} {t t' : Trail} {a : α}
    (h : act s t = .ok ((a, s'), t')) : act.outcome s t = .ok (a, { s' with depth := 0 }) := by
  rw [outcome, h]
  rfl

theorem outcome_of_eq_error {act : Action α} {s : State} {t : Trail} {e : Failure}
    (h : act s t = .error e) : act.outcome s t = .error e := by
  rw [outcome, h]
  rfl

/-- What there is of an outcome is a result with a state that has another depth. -/
theorem exists_of_outcome {act : Action α} {s s' : State} {t : Trail} {a : α}
    (h : act.outcome s t = .ok (a, { s' with depth := 0 })) :
    ∃ d t', act s t = .ok ((a, { s' with depth := d }), t') := by
  rcases Outcome.map_eq_ok.1 h with ⟨⟨⟨a', s''⟩, t'⟩, hact, heq⟩
  rcases Prod.mk.inj heq with ⟨rfl, hs⟩
  refine ⟨s''.depth, t', ?_⟩
  have hstate : s'' = { s' with depth := s''.depth } := by
    cases s''
    cases s'
    simp only [State.mk.injEq] at hs ⊢
    exact ⟨hs.1, hs.2.1, hs.2.2.1, hs.2.2.2.1, trivial, hs.2.2.2.2.2⟩
  rw [hact, ← hstate]

/-- A run can be repeated with another trail. -/
theorem Blind.exists_run {act : Action α} (h : act.Blind) {s s' : State} {t t' : Trail} {a : α}
    (hrun : act s t = .ok ((a, s'), t')) (u : Trail) : ∃ u', act s u = .ok ((a, s'), u') := by
  have hsame := h s t u
  rw [hrun] at hsame
  rcases Outcome.map_eq_ok.1 hsame with ⟨⟨pair, u'⟩, hrun', rfl⟩
  exact ⟨u', hrun'⟩

namespace DepthFree

variable {act : Action α} {f : α → Action β}

theorem pure (a : α) : DepthFree (Pure.pure a : Action α) := fun _ _ _ _ => rfl

/-- One action after another. The second starts from states that differ in the depth alone. -/
theorem bind (h : DepthFree act) (hf : ∀ a, DepthFree (f a)) : DepthFree (act >>= f) := by
  intro s d t u
  have hsame := h s d t u
  -- Both runs fail for the same reason, or go on from states that differ in the depth.
  cases hact : act s t with
  | error e =>
      rw [outcome_of_eq_error hact] at hsame
      rw [outcome, outcome, bind_apply, bind_apply, hact, Outcome.map_eq_error.1 hsame]
  | ok r =>
      rcases r with ⟨⟨a, s₁⟩, t₁⟩
      rw [outcome_of_eq_ok hact] at hsame
      rcases exists_of_outcome hsame with ⟨d₁, u₁, hact'⟩
      rw [outcome, outcome, bind_apply, bind_apply, hact, hact']
      exact hf a s₁ d₁ t₁ u₁

/-- Reading the state, where the depth is not looked at. -/
theorem get {f : State → Action β} (hread : ∀ s d, f { s with depth := d } = f s)
    (hf : ∀ s, DepthFree (f s)) : DepthFree (MonadState.get >>= f) := by
  intro s d t u
  change (f { s with depth := d }).outcome { s with depth := d } u = (f s).outcome s t
  rw [hread]
  exact hf s s d t u

theorem note : DepthFree Action.note := fun _ _ _ _ => rfl

theorem mint (name : String) (kind : ReferenceKind) : DepthFree (Action.mint name kind) :=
  fun _ _ _ _ => rfl

theorem enter (x : SymbolId) (ref : Reference) : DepthFree (Action.enter x ref) :=
  fun _ _ _ _ => rfl

theorem entered? (x : SymbolId) : DepthFree (Action.entered? x) := fun _ _ _ _ => rfl

/-- Once the depth is set to zero, two runs go on from the same state. The depth that there was may
    be used for nothing but a later depth. -/
theorem aside {f : Nat → α → Action β} (h : act.Blind)
    (hf : ∀ d d' a s t u, (f d a).outcome s u = (f d' a).outcome s t) :
    DepthFree (Action.takeDepth >>= fun d => act >>= f d) := by
  intro s d t u
  -- From depth zero both runs are in the same state, and only the trails differ.
  have hsame := h { s with depth := 0 } t u
  change (act >>= f d).outcome { s with depth := 0 } u =
    (act >>= f s.depth).outcome { s with depth := 0 } t
  rw [outcome, outcome, bind_apply, bind_apply]
  cases hact : act { s with depth := 0 } t with
  | error e =>
      rw [hact] at hsame
      rw [Outcome.map_eq_error.1 hsame]
      rfl
  | ok r =>
      rw [hact] at hsame
      rcases Outcome.map_eq_ok.1 hsame with ⟨r', hact', heq⟩
      rw [hact']
      change ((f d r'.1.1) r'.1.2 r'.2).map _ = _
      rw [heq]
      exact hf d s.depth r.1.1 r.1.2 r.2 r'.2

end DepthFree

end Action

namespace Context

variable (ctx : Context)

/-- That nothing reads the trail, whatever the state. -/
def unread : Guard where
  holds := fun _ _ => True
  blind := True

/-- Nothing that is done reads the trail. -/
theorem endures_unread : unread.Endures ctx.program fun _ => False where
  note := fun _ _ _ => trivial
  aside := fun _ _ _ _ _ => trivial
  mint := fun _ _ _ _ _ => trivial
  own := fun _ _ _ _ _ _ _ _ => trivial
  outer := fun _ _ _ _ _ _ _ _ => trivial
  member := fun _ _ _ _ _ _ _ _ _ _ => trivial
  link := fun _ _ _ _ _ _ _ _ => trivial

theorem keep_unread (n : Nat) :
    Calls.Keep ⟨ctx.reference n, ctx.normalize n⟩ unread fun _ => True :=
  ctx.endures_unread.keep (fun _ _ hfalse => hfalse.elim) n

/-- Looking up a symbol does not read the trail. -/
theorem blind_reference (n : Nat) (x : SymbolId) : (ctx.reference n x).Blind :=
  fun s t u => ((ctx.keep_unread n).reference x).blind trivial s t u trivial

/-- Nor does registering a declaration. -/
theorem blind_registerDeclaration (n : Nat) {x : SymbolId} {info : SymbolInfo} {node : NodeInfo}
    (hself : ctx.program.resolveAlias x = x) (hinfo : ctx.program.symbol? x = some info)
    (hnode : ctx.program.declarationOf? info = some node) :
    (Calls.registerDeclaration ⟨ctx.reference n, ctx.normalize n⟩ ctx x info node).Blind := by
  have hdeclares := ctx.endures_unread.registerDeclaration (ctx.keep_unread n) hself id
    ⟨{}, [], trivial, Registry.find?_empty x⟩ hinfo hnode
  exact fun s t u => hdeclares.blind trivial s t u trivial

end Context

section

variable {calls : Calls} {ctx : Context} {x : SymbolId} {info : SymbolInfo} {node : NodeInfo}
  (h : ∀ y, (calls.reference y).DepthFree)

include h

namespace Calls

theorem depthFree_externalReference :
    (calls.externalReference ctx x info node).DepthFree := by
  refine (Action.DepthFree.mint _ _).bind fun ref => (Action.DepthFree.enter x _).bind fun _ => ?_
  split
  · refine (h _).bind fun o => ?_
    cases o with
    | none => exact .pure _
    | some parent => exact (Action.DepthFree.enter x _).bind fun _ => .pure _
  · exact .pure _

/-- The namespace around a declaration is asked for at any depth. -/
theorem depthFree_registerEnclosing? : (calls.registerEnclosing? ctx x info).DepthFree := by
  unfold registerEnclosing?
  split
  · exact .pure _
  · refine .get (fun _ _ => rfl) fun s => ?_
    split
    · exact (h _).bind fun _ => .entered? x
    · exact .pure _

omit h in
/-- The depth is not set back where the enumeration has no reference, but it is left out of what
    comes of it. -/
theorem depthFree_enumMemberReference? (hblind : ∀ y, (calls.reference y).Blind) :
    (calls.enumMemberReference? x info).DepthFree := by
  unfold enumMemberReference?
  cases info.parent with
  | none => exact fun _ _ _ _ => rfl
  | some parent =>
      refine .aside (hblind parent) fun d d' o s t u => ?_
      cases o with
      | none => rfl
      | some _ => rfl

variable (hblind : ∀ y, (calls.reference y).Blind)
  (hdeclared : ∀ y info node, ctx.program.resolveAlias y = y → ctx.program.symbol? y = some info →
    ctx.program.declarationOf? info = some node → (calls.registerDeclaration ctx y info node).Blind)

include hblind hdeclared

theorem depthFree_resolveSymbol (hself : ctx.program.resolveAlias x = x)
    (hinfo : ctx.program.symbol? x = some info) : (calls.resolveSymbol ctx x info).DepthFree := by
  unfold resolveSymbol
  split
  · exact (Action.DepthFree.mint _ _).bind fun ref => (Action.DepthFree.enter x _).bind
      fun _ => .pure _
  · split
    · exact .pure _
    · rename_i node hnode
      refine .get (fun _ _ => rfl) fun s => ?_
      split
      · exact (depthFree_externalReference h).bind fun ref => .pure _
      · refine (depthFree_registerEnclosing? h).bind fun o => ?_
        cases o with
        | some ref => exact .pure _
        | none =>
            dsimp only
            -- From here on the depth is set aside, whatever is registered.
            unfold registerSymbol
            split
            · exact depthFree_enumMemberReference? hblind
            · exact .aside (hdeclared x info node hself hinfo hnode) fun _ _ _ _ _ _ => rfl

/-- One step of looking up a symbol does not depend on the depth, if the steps below do not. -/
theorem depthFree_referenceStep (x : SymbolId) : (calls.referenceStep ctx x).DepthFree := by
  refine (Action.DepthFree.entered? x).bind fun o => ?_
  cases o with
  | some ref => exact .pure _
  | none =>
      dsimp only
      -- What is entered has nothing to do with the depth, so only resolving is left.
      split
      · rename_i hself
        split
        · exact .pure _
        · rename_i info hinfo
          exact depthFree_resolveSymbol h hblind hdeclared hself hinfo
      · refine (Action.DepthFree.entered? _).bind fun o => ?_
        cases o with
        | some ref => exact (Action.DepthFree.enter x ref).bind fun _ => .pure _
        | none =>
            dsimp only
            split
            · exact .pure _
            · rename_i info hinfo
              refine (depthFree_resolveSymbol h hblind hdeclared
                (ctx.program.resolveAlias_resolveAlias x) hinfo).bind fun o => ?_
              cases o with
              | none => exact .pure _
              | some ref => exact (Action.DepthFree.enter x ref).bind fun _ => .pure _

end Calls

end

/-- Looking up a symbol does not depend on the depth, whatever the number of steps. -/
theorem Context.depthFree_reference (ctx : Context) (n : Nat) (x : SymbolId) :
    (ctx.reference n x).DepthFree := by
  -- The induction is on the number of steps; the state is put on the trail first, which is not
  -- read.
  induction n generalizing x with
  | zero => exact fun _ _ _ _ => rfl
  | succ n ih =>
      refine Action.DepthFree.note.bind fun _ => ?_
      exact Calls.depthFree_referenceStep ih (ctx.blind_reference n)
        (fun _ _ _ => ctx.blind_registerDeclaration n) x

/-- A symbol can be looked up at any depth: in a session that differs in the depth alone there is a
    result exactly if there is one, it is the same, and the states afterwards differ in the depth
    alone. If there is none, it is for the same reason. So the same is registered, with the same
    numbers and in the same modules, and listeners are told the same. The same holds for questions
    in the middle of other work. -/
theorem Session.reference_ignores_depth (s : Session) (d : Nat) (x : SymbolId) :
    (({ s with state := { s.state with depth := d } } : Session).reference x).map
        (fun r => (r.1, { r.2.state with depth := 0 })) =
      (s.reference x).map (fun r => (r.1, { r.2.state with depth := 0 })) ∧
    ∀ (ctx : Context) (n : Nat) (state : State) (t u : Trail),
      (ctx.reference n x).outcome { state with depth := d } u =
        (ctx.reference n x).outcome state t := by
  refine ⟨?_, fun ctx n state t u => ctx.depthFree_reference n x state d t u⟩
  -- The session is only a wrapping of the run, with the state it starts from on the trail.
  have hsame := s.context.depthFree_reference s.context.steps x s.state d (s.state :: s.trail)
    ({ s.state with depth := d } :: s.trail)
  rw [Session.reference, Session.reference, Session.run, Session.run, Outcome.map_map,
    Outcome.map_map]
  exact hsame

end DocModel
