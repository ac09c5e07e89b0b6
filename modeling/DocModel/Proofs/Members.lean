import DocModel.Proofs.DepthFree
import DocModel.Proofs.Enrolment
import DocModel.Proofs.Stability

/-!
# References of members

Until its turn comes a member has no reference, although its enumeration has one. A value that is
built for an earlier member may ask for a later one, and is told that there is none.

That is the only time. A member that an enumeration lists once, and that no other enumeration lists,
is entered when its turn comes and never again, so its reference stays what it is; and when the work
of whatever has asked for the enumeration is done, the member has its reference.

It takes two views of a run to see this. That the reference of the enumeration stays is known of all
moments, and so is what a member with a path has for a parent. That the member is entered only once
is seen from within the registration of the enumeration: before the turn of the member all work
keeps what is known of a member that is waiting, and after it what is known of one that has been
served.

## Main definitions

* `Turns`: An action that leads from one guard to another.
* `Session.Enrols`: The enrolment is complete, and was in order all along.
* `Program.eager`: An enumeration in which the first member needs the second.

## Theorems

* `Turns.mapM_split`: Work on a list with one special item.
* `Enrolment.turns_enumMember?`, `Enrolment.turns_members`: The turn of the member, and all turns.
* `Enrolment.turns_register`: The registration of the enumeration.
* `Enrolment.keep`: Whatever is asked for leaves the enrolment complete.
* `Session.members_stay_enrolled`: In any run, members have their references, and keep them.
* `Session.later_member_missing`: In the middle of a registration, a member has none.
-/

namespace DocModel

/-- Whenever the action gives a result from a state that meets a guard, the state it leaves meets
    another, which depends on the result. -/
def Turns {α : Type} (K : Guard) (act : Action α) (post : α → Guard) : Prop :=
  ∀ s t a s' t', K.holds s t → act s t = .ok ((a, s'), t') → (post a).holds s' t'

namespace Turns

variable {α β : Type} {K : Guard} {act : Action α} {f : α → Action β} {post : α → Guard}
  {post' : β → Guard}

/-- What is kept is met in the end. -/
theorem of_keeps {ok : α → Prop} (h : Keeps K act ok) : Turns K act fun _ => K :=
  fun s t a s' t' hs hrun => (h.holds s t a s' t' hs hrun).1

theorem pure (post : α → Guard) (a : α) : Turns (post a) (Pure.pure a : Action α) post := by
  intro s t b s' t' hs hrun
  rcases Prod.mk.inj (Except.ok.inj hrun) with ⟨hpair, rfl⟩
  rcases Prod.mk.inj hpair with ⟨rfl, rfl⟩
  exact hs

theorem bind (h : Turns K act post) (hf : ∀ a, Turns (post a) (f a) post') :
    Turns K (act >>= f) post' := by
  intro s t b s'' t'' hs hrun
  rcases Action.bind_eq_ok hrun with ⟨a, s', t', hact, hrun⟩
  exact hf a s' t' b s'' t'' (h s t a s' t' hs hact) hrun

/-- Work on every item of a list, of which one is special. -/
theorem mapM_split {g : α → Action β} {K₁ K₂ : Guard} {before after : List α} {a : α}
    (hbefore : Keeps K₁ (before.mapM g) fun _ => True) (ha : Turns K₁ (g a) fun _ => K₂)
    (hafter : Keeps K₂ (after.mapM g) fun _ => True) :
    Turns K₁ ((before ++ a :: after).mapM g) fun _ => K₂ := by
  rw [List.mapM_append, List.mapM_cons]
  refine (of_keeps hbefore).bind fun _ => Turns.bind ?_ fun _ => pure (fun _ => K₂) _
  exact ha.bind fun _ => (of_keeps hafter).bind fun _ => pure (fun _ => K₂) _

end Turns

namespace Enrolment

variable {ctx : Context} {w : Enrolment ctx.program} {projects : List Project} {n : Nat}

/-- The member is not registered by itself. -/
theorem declares_member (calls : Calls) (K : Guard) : calls.Declares ctx K w.member := by
  intro info node hinfo _ _
  rw [w.member_symbol, Option.some.injEq] at hinfo
  have hreg : ctx.program.isRegistrable w.member info node = false := by
    unfold Program.isRegistrable
    rw [← hinfo, w.member_kind]
  rw [Calls.registerDeclaration_eq_none calls ctx w.member info node hreg]
  exact Keeps.pure_none

/-- Once the enumeration has begun, the calls keep what is said of both entries. -/
theorem keep_begun {X : State → Prop} (hX : w.Lasting projects X)
    (hbegun : ∀ s, X s → ∃ outer, w.Begun s outer) (n : Nat) :
    Calls.Keep ⟨ctx.reference n, ctx.normalize n⟩ (w.guard projects X) fun _ => True := by
  refine (endures hX).keep (fun n x ha _ hunseen _ => ?_) n
  rcases ha with rfl | rfl
  · rcases hunseen with ⟨s, t, hs, hnone⟩
    rcases hbegun s hs.meets with ⟨outer, hb⟩
    rw [hb.entered] at hnone
    cases hnone
  · exact declares_member _ _

/-- Whatever is asked for, the member still waits. -/
theorem keep_waiting (outer : Reference) (n : Nat) :
    Calls.Keep ⟨ctx.reference n, ctx.normalize n⟩ (w.guard projects (w.Waiting outer))
      fun _ => True :=
  keep_begun (lasting_waiting outer) (fun _ h => ⟨outer, h.1⟩) n

theorem keep_served (outer : Reference) (n : Nat) :
    Calls.Keep ⟨ctx.reference n, ctx.normalize n⟩ (w.guard projects (w.Served outer))
      fun _ => True :=
  keep_begun (lasting_served outer) (fun _ h => ⟨outer, h.1⟩) n

/-- The turns of other members. -/
theorem bears_others {X : State → Prop} (hX : w.Lasting projects X) {members : List SymbolId}
    (hmembers : w.member ∉ members) : Bears ctx.program members (w.guard projects X) where
  mint := (endures hX).mint
  utility := fun s t _ _ hs => exportFree hX s _ t hs rfl rfl
  member := by
    intro s t x info ref hx hinfo hkind hs
    refine guard_alike hX hs rfl (Nat.le_refl _) (alike_insert (fun _ => rfl) ref ?_ ?_)
    · rintro rfl
      rw [w.symbol, Option.some.injEq] at hinfo
      rw [← hinfo, w.kind] at hkind
      cases hkind
    · rintro rfl
      exact hmembers hx

/-- The turn of the member: it joins the enumeration, and then its value is built. -/
theorem turns_enumMember? (outer : Reference) (node : NodeInfo) :
    Turns (w.guard projects (w.Waiting outer))
      (Calls.enumMember? ⟨ctx.reference n, ctx.normalize n⟩ ctx outer node w.member)
      fun _ => w.guard projects (w.Served outer) := by
  intro s t a s' t' hs hrun
  simp only [Calls.enumMember?, w.member_symbol, w.member_kind, if_true] at hrun
  rw [Action.mint_bind, Action.enter_bind] at hrun
  let ref : Reference := { (s.registry.mint w.memberInfo.name .enumMember).1 with
    parent := some outer, path := outer.path }
  let next : State := { s with
    registry := (s.registry.mint w.memberInfo.name .enumMember).2.insert w.member ref }
  rcases hs.meets with ⟨hb, hlt⟩
  have hbegun : w.Begun next outer := by
    refine ⟨?_, hb.path⟩
    rw [Registry.find?_insert, if_neg w.member_ne_owner.symm]
    exact hb.entered
  have hjoined : w.Joined next outer ref := by
    refine ⟨?_, rfl, rfl⟩
    rw [Registry.find?_insert, if_pos rfl]
  -- The member had not joined before, so nothing that lasts is overwritten.
  have hnext : (w.guard projects (w.Served outer)).holds next t := by
    refine guard_step hs hs.roots (fun hsane => hsane.advance_member (Nat.le_succ _) (fun _ => rfl)
      (fun outer' ref' hb' hj => ?_) fun outer' _ hparent => ?_) ⟨hbegun, ref, hjoined⟩
    · -- Whatever the member has by now is from before the enumeration had its number.
      have heq : outer' = outer := Option.some.inj (hb'.entered.symm.trans hb.entered)
      have hsome : ref'.path.isSome = true := by
        rw [hj.path]
        exact hb'.path
      have hless := hlt ref' outer' hj.entered hsome hj.parent
      rw [heq] at hless
      exact Nat.lt_irrefl _ hless
    · rw [← Option.some.inj hparent]
      exact Nat.lt_succ_of_lt (hsane.owner_lt outer hb.entered)
  have hvalue : Keeps (w.guard projects (w.Served outer))
      (Calls.memberValue? ⟨ctx.reference n, ctx.normalize n⟩ ctx w.member
        (ctx.program.declarationOf? w.memberInfo)) _ :=
    (keep_served outer n).memberValue? Ty.admits_true _ _
  rcases Action.bind_eq_ok hrun with ⟨value, s₁, t₁, hbuilt, hrest⟩
  have hs₁ := (hvalue.holds next t value s₁ t₁ hnext hbuilt).1
  exact Turns.pure (fun _ => w.guard projects (w.Served outer)) _ s₁ t₁ a s' t' hs₁ hrest

/-- The turns of all members, one of which is that of the member. -/
theorem turns_members (outer : Reference) (node : NodeInfo) :
    Turns (w.guard projects (w.Waiting outer)) (Action.collect
      (Calls.enumMember? ⟨ctx.reference n, ctx.normalize n⟩ ctx outer node)
      (ctx.program.exportsOf w.owner)) fun _ => w.guard projects (w.Served outer) := by
  rcases w.exists_split with ⟨before, after, hsplit, hbefore, hafter⟩
  rw [hsplit, Action.collect]
  refine Turns.bind ?_ fun _ => Turns.pure (fun _ => w.guard projects (w.Served outer)) _
  -- Before its turn the member waits, and after it the member has joined.
  refine Turns.mapM_split ?_ (turns_enumMember? outer node) ?_
  · have hb : Bears ctx.program before (w.guard projects (w.Waiting outer)) :=
      bears_others (lasting_waiting outer) hbefore
    exact (Keeps.mapM before fun x hx =>
      (keep_waiting outer n).enumMember? Ty.admits_true hb outer node x hx).mono fun _ _ => trivial
  · have hb : Bears ctx.program after (w.guard projects (w.Served outer)) :=
      bears_others (lasting_served outer) hafter
    exact (Keeps.mapM after fun x hx =>
      (keep_served outer n).enumMember? Ty.admits_true hb outer node x hx).mono fun _ _ => trivial

variable (w projects) in
/-- What is known once the registration of the enumeration has begun, or has failed. -/
def begunGuard : Option (Reference × ModuleHandle) → Guard
  | none => w.guard projects w.Complete
  | some (outer, _) => w.guard projects (w.Waiting outer)

/-- The enumeration is entered with a new number. What the member has by then is older. -/
theorem waiting_enter {s : State} {t : Trail} (hs : (w.guard projects w.Complete).holds s t)
    (hinside : ctx.program.isOutside s.projects w.memberNode.file = false) {outer : Reference}
    (hid : outer.id = ⟨s.registry.nextId⟩) (hpath : outer.path.isSome = true) :
    (w.guard projects (w.Waiting outer)).holds { s with
      registry := (s.registry.mint outer.name outer.kind).2.insert w.owner outer } t := by
  refine guard_step hs hs.roots (fun hsane => hsane.advance_owner hid fun _ => hinside)
    ⟨⟨?_, hpath⟩, fun ref q hr hsome hparent => ?_⟩
  · rw [Registry.find?_insert, if_pos rfl]
  · rw [Registry.find?_insert, if_neg w.member_ne_owner] at hr
    -- Numbers in use are below the next one.
    rw [hid]
    exact (guard_sane hs).parent_lt ref q hr hsome hparent

/-- What is built for an enumeration: its members, and the declaration from them. -/
theorem registerEnum_members (calls : Calls) (hreg : ctx.program.isRegistrable w.owner w.info
      w.node = true) :
    ∃ rest : List EnumMember → Action Declaration,
      (∀ K members, Keeps K (rest members) fun _ => True) ∧
      calls.registerDeclaration ctx w.owner w.info w.node =
        calls.register ctx w.owner w.info w.node .enum fun outer =>
          Action.collect (calls.enumMember? ctx outer w.node) (ctx.program.exportsOf w.owner) >>=
            rest := by
  unfold Program.isRegistrable at hreg
  simp only [w.kind] at hreg
  -- Only the node of an enumeration can be registered as one.
  cases hnode : w.node.kind with
  | enum isConst =>
      rw [hnode] at hreg
      rcases Option.isSome_iff_exists.1 hreg with ⟨ty, hty⟩
      simp only [Calls.registerDeclaration, w.kind, Calls.registerEnum, hnode, hty]
      exact ⟨_, fun K members => Keeps.get fun s _ => Keeps.pure trivial, rfl⟩
  | _ =>
      rw [hnode] at hreg
      exact absurd hreg Bool.false_ne_true

/-- When the member has joined, the enumeration is complete. -/
theorem complete_of_served {outer : Reference} {s : State} (h : w.Served outer s) :
    w.Complete s := by
  rcases h with ⟨hb, ref, hj⟩
  intro outer' hb'
  have heq : outer = outer' := Option.some.inj (hb.entered.symm.trans hb'.entered)
  exact ⟨ref, heq ▸ hj⟩

variable (w projects) in
/-- What is known once the enumeration is registered, or cannot be. -/
def registeredGuard : Option Reference → Guard
  | none => w.guard projects w.Complete
  | some outer => w.guard projects (w.Served outer)

section Registration

variable (h : Calls.Keep ⟨ctx.reference n, ctx.normalize n⟩ (w.guard projects w.Complete)
  fun _ => True)

include h

/-- The registration begins once the module of the enumeration is known. Finding it may have done
    much, but leaves the enrolment complete. -/
theorem turns_beginDeclaration?
    (hinside : ctx.program.isOutside projects w.memberNode.file = false) :
    Turns (w.guard projects w.Complete)
      (Calls.beginDeclaration? ⟨ctx.reference n, ctx.normalize n⟩ ctx w.owner w.info w.node .enum)
      (w.begunGuard projects) := by
  have howning := (endures (lasting_complete projects)).owningModule? h w.info w.node
  refine (Turns.of_keeps howning).bind fun o => ?_
  intro s t a s' t' hs hrun
  cases o with
  | none => exact Turns.pure (w.begunGuard projects) none s t a s' t' hs hrun
  | some handle =>
      simp only [Action.get_bind] at hrun
      cases hm : s.module? handle with
      | none =>
          rw [hm] at hrun
          exact Turns.pure (w.begunGuard projects) none s t a s' t' hs hrun
      | some module =>
          rw [hm] at hrun
          have hin : ctx.program.isOutside s.projects w.memberNode.file = false := by
            rw [isOutside_congr ctx.program hs.roots]
            exact hinside
          -- From here on the enumeration has begun, and the member waits to join it.
          let outer : Reference := { (s.registry.mint w.info.name .enum).1 with
            path := some module.childrenPath }
          have hnext : (w.guard projects (w.Waiting outer)).holds _ t :=
            waiting_enter hs hin rfl rfl
          exact Turns.pure (w.begunGuard projects) (some (outer, handle)) _ t a s' t' hnext hrun

/-- Registering the enumeration: it begins, all members have their turns, and it is attached. -/
theorem turns_register (hinside : ctx.program.isOutside projects w.memberNode.file = false)
    {rest : List EnumMember → Action Declaration}
    (hrest : ∀ K members, Keeps K (rest members) fun _ => True) :
    Turns (w.guard projects w.Complete)
      (Calls.register ⟨ctx.reference n, ctx.normalize n⟩ ctx w.owner w.info w.node .enum
        fun outer => Action.collect (Calls.enumMember? ⟨ctx.reference n, ctx.normalize n⟩ ctx outer
          w.node) (ctx.program.exportsOf w.owner) >>= rest)
      (w.registeredGuard projects) := by
  refine (turns_beginDeclaration? h hinside).bind fun o => ?_
  cases o with
  | none => exact Turns.pure (w.registeredGuard projects) none
  | some pair =>
      have hmembers := (turns_members (w := w) (n := n) pair.1 w.node).bind fun members =>
        Turns.of_keeps (hrest (w.guard projects (w.Served pair.1)) members)
      refine hmembers.bind fun declaration => ?_
      have hfinish : Keeps (w.guard projects (w.Served pair.1))
          (finishDeclaration ctx pair.2 pair.1 declaration) fun _ => True :=
        (endures (lasting_served pair.1)).finishDeclaration pair.2 pair.1 declaration
      exact (Turns.of_keeps hfinish).bind fun _ =>
        Turns.pure (w.registeredGuard projects) (some pair.1)

/-- The enumeration is registered, and the member with it. -/
theorem declares_owner :
    Calls.Declares ⟨ctx.reference n, ctx.normalize n⟩ ctx (w.guard projects w.Complete)
      w.owner := by
  intro info node hinfo hnode hinside
  rw [w.symbol, Option.some.injEq] at hinfo
  subst hinfo
  rw [w.declaration, Option.some.injEq] at hnode
  subst hnode
  cases hreg : ctx.program.isRegistrable w.owner w.info w.node with
  | false =>
      rw [Calls.registerDeclaration_eq_none _ ctx w.owner w.info w.node hreg]
      exact Keeps.pure_none
  | true =>
      rcases registerEnum_members ⟨ctx.reference n, ctx.normalize n⟩ hreg with ⟨rest, hrest, heq⟩
      -- The enumeration is analysed in some state that is in order, and then so is the member.
      have hmember : ctx.program.isOutside projects w.memberNode.file = false := by
        rcases hinside with ⟨s, t, hs, hin⟩
        rw [← isOutside_congr ctx.program hs.roots]
        exact (guard_sane hs).files hin
      rw [heq]
      refine ⟨fun s t a s' t' hs hrun => ?_, False.elim⟩
      have hafter := turns_register h hmember hrest s t a s' t' hs hrun
      cases a with
      | none =>
          exact ⟨hafter, fun _ => ⟨trivial, fun ref hr => absurd hr.symm (Option.some_ne_none ref)⟩⟩
      | some outer =>
          have hcomplete := guard_mono hafter complete_of_served
          exact ⟨hcomplete, fun _ => ⟨trivial, fun _ _ => ⟨s', t', hcomplete,
            Registry.contains_of_find? hafter.meets.1.entered⟩⟩⟩

end Registration

/-- Whatever is asked for, in any number of steps, leaves the enrolment complete. -/
theorem keep (w : Enrolment ctx.program) (projects : List Project) (n : Nat) :
    Calls.Keep ⟨ctx.reference n, ctx.normalize n⟩ (w.guard projects w.Complete) fun _ => True := by
  refine (endures (lasting_complete projects)).keep (fun n x ha _ _ hkeep => ?_) n
  rcases ha with rfl | rfl
  · exact declares_owner hkeep
  · exact declares_member _ _

end Enrolment

namespace Session

variable {p : Program} {w : Enrolment p} {s s' : Session}

/-- A session in which the enrolment is complete, and was in order all along. -/
def Enrols (s : Session) (w : Enrolment p) : Prop :=
  (w.guard s.state.projects w.Complete).holds s.state s.trail

theorem enrols_start (settings : Settings) (steps : Nat) (hfiles :
    p.isOutside [] w.node.file = false → p.isOutside [] w.memberNode.file = false) :
    (start p settings steps).Enrols w := by
  have hnone : ∀ x ref, (start p settings steps).state.registry.find? x ≠ some ref := by
    intro x ref h
    rw [show (start p settings steps).state.registry = {} from rfl, Registry.find?_empty] at h
    cases h
  refine ⟨rfl, fun u hu => ?_, List.pairwise_singleton _ _, fun outer hb => ?_⟩
  · rw [List.mem_singleton.1 hu]
    exact ⟨hfiles, fun outer hb => absurd hb.entered (hnone _ _),
      fun outer ho => absurd ho (hnone _ _), fun ref outer hr => absurd hr (hnone _ _)⟩
  · exact absurd hb.entered (hnone _ _)

/-- A new project has no bearing on entries, and takes nothing out of the analysed sources. -/
theorem Enrols.addProject (h : s.Enrols w) {spec : ProjectSpec} {i : Nat}
    (hadd : s.addProject spec = .ok (i, s'))
    (hfiles : p.isOutside s'.state.projects w.node.file = false →
      p.isOutside s'.state.projects w.memberNode.file = false) : s'.Enrols w := by
  have htrail : s'.trail = s.trail := by
    unfold Session.addProject at hadd
    split at hadd
    · cases hadd
    · split at hadd
      · cases hadd
      · rw [← (Prod.mk.inj (Except.ok.inj hadd)).2]
  rcases addProject_moves hadd with ⟨_, project, _, hstate⟩
  have halike : w.Alike s.state s'.state := by
    rw [hstate]
    exact ⟨rfl, rfl⟩
  have hregistry : s'.state.registry = s.state.registry := by
    rw [hstate]
  unfold Enrols
  rw [htrail]
  -- Entries are what they were, so it comes down to the files that are analysed by now.
  refine Enrolment.guard_step h rfl (fun hsane => ⟨⟨hfiles, fun outer hb => ?_, ?_, ?_⟩, ?_,
    fun outer hb _ => halike.begun hb, fun outer ref _ _ hj => halike.member ▸ hj.entered⟩)
    (halike.complete h.meets)
  · rw [hstate]
    exact (extend_append p s.state.projects project).inside _ (hsane.inside outer (halike.begun hb))
  · rw [hregistry]
    exact hsane.owner_lt
  · rw [hregistry]
    exact hsane.parent_lt
  · rw [hregistry]

/-- Every operation leaves the enrolment complete. -/
theorem perform_enrols (h : s.Enrols w) (hp : s.context.program = p) {op : Operation}
    (hrun : s.perform op = .ok s')
    (hfiles : p.isOutside s'.state.projects w.node.file = false →
      p.isOutside s'.state.projects w.memberNode.file = false) :
    s'.context.program = p ∧ s'.Enrols w := by
  subst hp
  cases hop : op.addsProject with
  | false =>
      -- Without a new project the roots stay, so the guard for them is kept.
      rcases perform_endures (Enrolment.endures (Enrolment.lasting_complete s.state.projects))
        (Enrolment.exportFree (Enrolment.lasting_complete s.state.projects))
        (w.keep s.state.projects s.context.steps) hop h hrun with ⟨hprogram, hkept⟩
      exact ⟨hprogram, rfl, hkept.sane, hkept.history, hkept.meets⟩
  | true =>
      cases op with
      | addProject spec =>
          simp only [perform] at hrun
          split at hrun
          · rename_i i s₁ hadd
            rw [← Except.ok.inj hrun] at hfiles ⊢
            exact ⟨by rw [(addProject_moves hadd).1], h.addProject hadd hfiles⟩
          · rw [← Except.ok.inj hrun]
            exact ⟨rfl, h⟩
      | _ => cases hop

/-- So does a run, if the files are analysed together after each part of it. -/
theorem performAll_enrols (h : s.Enrols w) (hp : s.context.program = p) (ops : List Operation)
    (hrun : s.performAll ops = .ok s')
    (hfiles : ∀ done rest s₁, ops = done ++ rest → s.performAll done = .ok s₁ →
      p.isOutside s₁.state.projects w.node.file = false →
      p.isOutside s₁.state.projects w.memberNode.file = false) : s'.Enrols w := by
  induction ops generalizing s with
  | nil =>
      rw [← Except.ok.inj hrun]
      exact h
  | cons op ops ih =>
      rw [performAll, List.foldlM_cons] at hrun
      rcases Outcome.bind_eq_ok.1 hrun with ⟨s₁, hop, hrun⟩
      have hcons : ∀ done, s.performAll (op :: done) = s₁.performAll done := by
        intro done
        rw [performAll, List.foldlM_cons, hop]
        rfl
      -- The first operation alone is a part of the run.
      have hfirst := hfiles [op] ops s₁ rfl (by rw [hcons]; rfl)
      rcases perform_enrols h hp hop hfirst with ⟨hp₁, h₁⟩
      refine ih h₁ hp₁ hrun fun done rest s₂ hsplit hdone => ?_
      exact hfiles (op :: done) rest s₂ (by rw [hsplit]; rfl) (by rw [hcons]; exact hdone)

/-- A member of an enumeration that is listed once, by one enumeration, in any run in which the
    member is analysed whenever the enumeration is. Between operations, and after any call that
    starts from a state in which it is so, a question for the member gives a reference with that of
    the enumeration around it, if the enumeration leads somewhere. And once it has such a reference,
    in the middle of other work too, that is the answer to all later questions. -/
theorem members_stay_enrolled (program : Program) (settings : Settings) (steps : Nat)
    (ops : List Operation) (s : Session)
    (hops : (start program settings steps).performAll ops = .ok s) (w : Enrolment program)
    (hfiles : ∀ done rest s₁, ops = done ++ rest →
      (start program settings steps).performAll done = .ok s₁ →
      program.isOutside s₁.state.projects w.node.file = false →
      program.isOutside s₁.state.projects w.memberNode.file = false) :
    (∀ outer, w.Begun s.state outer → ∃ ref, w.Joined s.state outer ref ∧
      ∀ (ctx : Context) (n : Nat) (t : Trail),
        ctx.reference (n + 1) w.member s.state t = .ok ((some ref, s.state), s.state :: t)) ∧
    (∀ u ∈ s.state :: s.trail, w.Complete u → ∀ ctx : Context, ctx.program = program →
      ∀ n x t o u' t', ctx.reference n x u t = .ok ((o, u'), t') → w.Complete u') ∧
    (s.state :: s.trail).Pairwise fun later earlier =>
      ∀ outer ref, w.Begun earlier outer → earlier.registry.find? w.member = some ref →
        ref.path.isSome = true →
        w.Joined earlier outer ref ∧ w.Begun later outer ∧ w.Joined later outer ref ∧
        ∀ (ctx : Context) (n : Nat) (t : Trail),
          ctx.reference (n + 1) w.member later t = .ok ((some ref, later), later :: t) := by
  rcases performAll_isAt (isAt_start program settings steps) ops hops with ⟨m, hat, _⟩
  have hstart := enrols_start (w := w) settings steps (hfiles [] ops _ rfl rfl)
  rcases performAll_enrols hstart rfl ops hops hfiles with ⟨_, hsane, hpairs, hcomplete⟩
  refine ⟨fun outer hb => ?_, fun u hu hc ctx hctx n x t o u' t' hrun => ?_, ?_⟩
  · rcases hcomplete outer hb with ⟨ref, hj⟩
    exact ⟨ref, hj, fun ctx n t => ctx.reference_of_find? n _ _ t ref hj.entered⟩
  · -- The guard is about the trail as well. An answer does not depend on it, so it may be empty.
    subst hctx
    rcases (ctx.blind_reference n x).exists_run hrun [] with ⟨t₁, hrun₁⟩
    have hholds : (w.guard u.projects w.Complete).holds u [] :=
      ⟨rfl, fun v hv => List.mem_singleton.1 hv ▸ hsane u hu, List.pairwise_singleton _ _, hc⟩
    exact (((w.keep u.projects n).reference x).holds u [] o u' t₁ hholds hrun₁).1.meets
  · -- The account of the earlier state says which enumeration the member has joined.
    refine (hpairs.and hat.pairwise_trail).imp_of_mem ?_
    rintro later earlier - hearlier ⟨hadvances, hkeeps⟩ outer ref hb hr hpath
    rcases hat.exists_account earlier hearlier with ⟨a, rfl⟩
    rcases a.roll w.member ref w.member_self w.isEnumMember_member hr hpath with
      ⟨owner, hlists, outer', houter, hparent, hsame⟩
    -- The member is listed by one enumeration, so what is around it is that one.
    have howner : owner = w.owner := w.only owner hlists
    subst howner
    have heq : outer' = outer := Option.some.inj (houter.symm.trans hb.entered)
    subst heq
    have hj : w.Joined a.state outer' ref := ⟨hr, hparent, hsame⟩
    have hlater : w.Begun later outer' :=
      ⟨hkeeps w.owner outer' w.owner_isPlain hb.entered, hb.path⟩
    have hlt := (hsane a.state hearlier).owner_lt outer' hb.entered
    have hmember := hadvances.joined outer' ref hlater hlt hj
    exact ⟨hj, hlater, ⟨hmember, hparent, hsame⟩,
      fun ctx n t => ctx.reference_of_find? n _ _ t ref hmember⟩

end Session

/-- An enumeration whose first member is set to something of the type of the second. -/
def Program.eager : Program where
  symbols := #[
    { info := { name := "a", kind := .sourceFile, declarations := [⟨0⟩] }, exports := [⟨1⟩] },
    { info := { name := "E", kind := .enum, declarations := [⟨1⟩] }
      exports := [⟨2⟩, ⟨3⟩], declaredType := some ⟨0⟩ },
    { info := { name := "A", kind := .enumMember, declarations := [⟨2⟩], parent := some ⟨1⟩ } },
    { info := { name := "B", kind := .enumMember, declarations := [⟨3⟩], parent := some ⟨1⟩ } }]
  nodes := #[
    { kind := .sourceFile, file := ⟨"/p/a.ts"⟩ },
    { kind := .enum false, file := ⟨"/p/a.ts"⟩ },
    { kind := .enumMember (some ⟨4⟩), file := ⟨"/p/a.ts"⟩ },
    { kind := .enumMember none, file := ⟨"/p/a.ts"⟩ },
    { kind := .expression, file := ⟨"/p/a.ts"⟩ }]
  types := #[
    { info := { form := .object, symbol := some ⟨1⟩ } },
    { info := { form := .object, symbol := some ⟨3⟩ } }]
  files := Table.insert ∅ ⟨"/p/a.ts"⟩ ⟨0⟩
  nodeTypes := Table.insert ∅ ⟨4⟩ ⟨1⟩

/-- The second member is listed once, and by this enumeration alone. -/
def Enrolment.eager : Enrolment Program.eager where
  owner := ⟨1⟩
  member := ⟨3⟩
  info := { name := "E", kind := .enum, declarations := [⟨1⟩] }
  memberInfo := { name := "B", kind := .enumMember, declarations := [⟨3⟩], parent := some ⟨1⟩ }
  node := { kind := .enum false, file := ⟨"/p/a.ts"⟩ }
  memberNode := { kind := .enumMember none, file := ⟨"/p/a.ts"⟩ }
  self := by decide +kernel
  symbol := by decide +kernel
  kind := rfl
  declaration := by decide +kernel
  member_self := by decide +kernel
  member_symbol := by decide +kernel
  member_kind := rfl
  member_declaration := by decide +kernel
  once := by decide +kernel
  only := by
    have henum : ∀ i < 4, (Program.eager.symbol? ⟨i⟩).all (fun info =>
        info.kind != .enum || i == 1) = true := by
      decide +kernel
    intro x hlists
    rcases hlists.kind with ⟨info, hinfo, hkind⟩
    have hall := henum x.index (Program.eager.mem_numbered_of_symbol? hinfo)
    rw [show Program.eager.symbol? ⟨x.index⟩ = some info from hinfo, Option.all_some, hkind] at hall
    have hindex : x.index = 1 := beq_iff_eq.1 hall
    rw [← hindex]

/-- A session in which the enumeration is asked for. -/
def Operation.eagerRun : List Operation :=
  [.addProject { name := "p", root := ⟨"/p"⟩ }, .reference ⟨1⟩]

/-- When the work is done, the second member has a reference, and it stays. -/
theorem Session.members_stay_enrolled_eager :
    ∃ s outer ref, (start .eager {} 20).performAll Operation.eagerRun = .ok s ∧
      Enrolment.eager.Begun s.state outer ∧ Enrolment.eager.Joined s.state outer ref ∧
      ∀ (ctx : Context) (n : Nat) (t : Trail),
        ctx.reference (n + 1) ⟨3⟩ s.state t = .ok ((some ref, s.state), s.state :: t) := by
  have hrun : ((start .eager {} 20).performAll Operation.eagerRun).toOption.any (fun s =>
      (s.state.registry.find? ⟨1⟩).any (·.path.isSome)) = true := by
    decide +kernel
  rcases Outcome.of_any hrun with ⟨s, hs, hrun⟩
  rcases (Option.any_eq_true _ _).1 hrun with ⟨outer, houter, hpath⟩
  have hbegun : Enrolment.eager.Begun s.state outer := ⟨houter, hpath⟩
  rcases (members_stay_enrolled .eager {} 20 Operation.eagerRun s hs .eager
    fun _ _ _ _ _ hinside => hinside).1 outer hbegun with ⟨ref, hjoined, hanswer⟩
  exact ⟨s, outer, ref, hs, hbegun, hjoined, hanswer⟩

/-- While the value of the first member is built, a question for the second gives nothing, although
    the enumeration has its reference. -/
theorem Session.later_member_missing :
    ∃ s u outer u' t, (start .eager {} 20).performAll Operation.eagerRun = .ok s ∧ u ∈ s.trail ∧
      Enrolment.eager.Begun u outer ∧
      s.context.reference 20 ⟨3⟩ u [] = .ok ((none, u'), t) := by
  have hrun : ((start .eager {} 20).performAll Operation.eagerRun).toOption.any (fun s =>
      s.trail.any fun u => (u.registry.find? ⟨1⟩).any (·.path.isSome) &&
        (s.context.reference 20 ⟨3⟩ u []).toOption.any (·.1.1.isNone)) = true := by
    decide +kernel
  rcases Outcome.of_any hrun with ⟨s, hs, hrun⟩
  rcases List.any_eq_true.1 hrun with ⟨u, hu, hrun⟩
  rw [Bool.and_eq_true] at hrun
  rcases (Option.any_eq_true _ _).1 hrun.1 with ⟨outer, houter, hpath⟩
  rcases Outcome.of_any hrun.2 with ⟨⟨⟨o, u'⟩, t⟩, hreference, hnone⟩
  have ho : o = none := Option.isNone_iff_eq_none.1 hnone
  rw [ho] at hreference
  exact ⟨s, u, outer, u', t, hs, hu, ⟨houter, hpath⟩, hreference⟩

end DocModel
