import DocModel.Proofs.Known
import DocModel.Proofs.Revisit

/-!
# Finding exports again

The exports of a file are found by asking for one symbol after another, and for modules in between.
Everything that has been asked for at rest is known from then on, so when the same exports are found
once more, every question is answered without anything new being made.

Two runs are followed side by side: one from a state at rest, and another from any later state,
possibly with more resolvers and listeners. What the two give need not be the same. If an
enumeration lists a member that is declared nowhere, then a name that had no reference in the first
run may have one in the second. But both go through the same questions, since where a name is passed
on from another file, its declaration is in that file.

## Main definitions

* `Context.Repeats`: From every later state an action has a result, and makes nothing new.
* `Context.Replays`: An action is repeated by another in this sense, once it was run.

## Theorems

* `Context.Replays.bind`, `Context.Replays.foldlM`: Runs put together.
* `Context.Replays.referenceOf`, `Context.Replays.changeGroup?`: Asking for symbols and modules.
* `Context.Replays.trackExports`: The exports of a file.
-/

namespace DocModel

namespace Context

variable {α β : Type}

/-- From every later state the action has a result as stated, and makes nothing new. -/
def Repeats (ctx : Context) (u : State) (act : Action α) (ok : α → Prop) : Prop :=
  ∀ v t, ctx.Onward u v → Action.Returns v t act fun a v' =>
    ctx.Onward v v' ∧ ctx.program.Quiet v v' ∧ ok a

/-- Once the first action was run, there is rest, and the second repeats it from then on. What the
    two give is related. -/
def Replays (ctx : Context) (u : State) (t : Trail) (act act' : Action α) (rel : α → α → Prop) :
    Prop :=
  ∀ a u' t', act u t = .ok ((a, u'), t') →
    ctx.AtRest u' t' ∧ ctx.Onward u u' ∧ ctx.Repeats u' act' (rel a)

namespace Repeats

variable {ctx : Context} {u v : State} {act : Action α} {f : α → Action β} {ok : α → Prop}
  {ok' : β → Prop}

theorem onward (h : ctx.Repeats u act ok) (ho : ctx.Onward u v) : ctx.Repeats v act ok :=
  fun w t hw => h w t (ho.trans hw)

theorem pure {a : α} (h : ok a) : ctx.Repeats u (Pure.pure a) ok :=
  fun v _ _ => .pure ⟨.refl v, .refl _ v, h⟩

theorem bind (h : ctx.Repeats u act ok) (hf : ∀ a, ok a → ctx.Repeats u (f a) ok') :
    ctx.Repeats u (act >>= f) ok' := by
  intro v t hv
  refine (h v t hv).bind fun a v₁ t₁ h₁ => ?_
  rcases h₁ with ⟨ho, hquiet, ha⟩
  refine (hf a ha v₁ t₁ (hv.trans ho)).mono fun b v₂ h₂ => ?_
  exact ⟨ho.trans h₂.1, hquiet.trans h₂.2.1, h₂.2.2⟩

end Repeats

namespace Replays

variable {ctx : Context} {u : State} {t : Trail} {act act' : Action α} {f f' : α → Action β}
  {rel : α → α → Prop} {rel' : β → β → Prop}

theorem pure {a a' : α} (hu : ctx.AtRest u t) (h : rel a a') :
    ctx.Replays u t (Pure.pure a) (Pure.pure a') rel := by
  intro b u' t' hrun
  rcases Prod.mk.inj (Except.ok.inj hrun) with ⟨hpair, rfl⟩
  rcases Prod.mk.inj hpair with ⟨rfl, rfl⟩
  exact ⟨hu, .refl u, .pure h⟩

/-- One action after another. The second of each pair may depend on what the first gave. -/
theorem bind (h : ctx.Replays u t act act' rel)
    (hf : ∀ a a' u' t', act u t = .ok ((a, u'), t') → ctx.AtRest u' t' → rel a a' →
      ctx.Replays u' t' (f a) (f' a') rel') :
    ctx.Replays u t (act >>= f) (act' >>= f') rel' := by
  intro b u₂ t₂ hrun
  rcases Action.bind_eq_ok hrun with ⟨a, u₁, t₁, hact, hrun⟩
  rcases h a u₁ t₁ hact with ⟨hrest, ho, hrepeats⟩
  -- The first action can be repeated on the spot, which gives something for the second to start on.
  rcases hrepeats u₁ t₁ (.refl u₁) with ⟨a', _, _, _, _, _, ha'⟩
  rcases hf a a' u₁ t₁ hact hrest ha' b u₂ t₂ hrun with ⟨hrest₂, ho₂, _⟩
  refine ⟨hrest₂, ho.trans ho₂, (hrepeats.onward ho₂).bind fun a' ha' => ?_⟩
  exact (hf a a' u₁ t₁ hact hrest ha' b u₂ t₂ hrun).2.2

/-- Reading the state, which is a later one the second time. -/
theorem get {f f' : State → Action β}
    (hf : ∀ v, ctx.Onward u v → ctx.Replays u t (f u) (f' v) rel') :
    ctx.Replays u t (MonadState.get >>= f) (MonadState.get >>= f') rel' := by
  intro b u' t' hrun
  rcases hf u (.refl u) b u' t' hrun with ⟨hrest, ho, _⟩
  refine ⟨hrest, ho, fun v t₁ hv => ?_⟩
  exact (hf v (ho.trans hv) b u' t' hrun).2.2 v t₁ hv

theorem ite {c c' : Prop} [Decidable c] [Decidable c'] {other other' : Action α} (hc : c' ↔ c)
    (h : ctx.Replays u t act act' rel) (hother : ctx.Replays u t other other' rel) :
    ctx.Replays u t (if c then act else other) (if c' then act' else other') rel := by
  by_cases hcase : c
  · rw [if_pos hcase, if_pos (hc.2 hcase)]
    exact h
  · rw [if_neg hcase, if_neg fun h' => hcase (hc.1 h')]
    exact hother

/-- Work on every item of a list, adding to what there is. -/
theorem foldlM (rel : β → β → Prop) {g g' : β → α → Action β} (as : List α) {b b' : β}
    (hu : ctx.AtRest u t) (hb : rel b b')
    (h : ∀ b b' a u t, a ∈ as → ctx.AtRest u t → rel b b' →
      ctx.Replays u t (g b a) (g' b' a) rel) :
    ctx.Replays u t (as.foldlM g b) (as.foldlM g' b') rel := by
  induction as generalizing b b' u t with
  | nil => exact .pure hu hb
  | cons a as ih =>
      rw [List.foldlM_cons, List.foldlM_cons]
      refine (h b b' a u t List.mem_cons_self hu hb).bind fun b₁ b₁' u₁ t₁ _ hu₁ hb₁ => ?_
      exact ih hu₁ hb₁ fun b b' a u t ha => h b b' a u t (List.mem_cons_of_mem _ ha)

end Replays

/-- A state that differs in modules alone is a later one, if changes have led to it. -/
theorem Onward.of_registry {ctx : Context} {s s' : State}
    (hc : Changes ctx.program ctx.settings.passthroughModules (fun _ => True) s s')
    (hr : s'.registry = s.registry) : ctx.Onward s s' :=
  ⟨hc, Program.exportFree_lasts s s s' [] (.refl _ s) hr hc.projects.baseDirs⟩

section Same

variable (ctx : Context) (resolvers : List Resolver) (listeners : List String)

@[simp]
theorem program_among : (ctx.among resolvers listeners).program = ctx.program := rfl

@[simp]
theorem symbolFile?_among : (ctx.among resolvers listeners).symbolFile? = ctx.symbolFile? := rfl

end Same

variable {ctx : Context} {u : State} {t : Trail} {resolvers : List Resolver}
  {listeners : List String}

/-- Whether a file is outside is known once and for all. -/
theorem Onward.isExternalFile {v : State} (h : ctx.Onward u v) (file : Path) :
    ctx.isExternalFile v file = ctx.isExternalFile u file :=
  isOutside_congr ctx.program h.lasts.baseDirs file

namespace Replays

/-- A symbol is asked for again. -/
theorem referenceOf (hhome : ctx.program.MembersAtHome) (hu : ctx.AtRest u t) (x : SymbolId) :
    ctx.Replays u t (ctx.referenceOf x) ((ctx.among resolvers listeners).referenceOf x)
      fun o o' => (ctx.program.MembersFirm → o' = o) ∧
        (ctx.program.resolveAlias x = x → ctx.program.Firm x → o'.isSome = o.isSome) := by
  intro o u' t' hrun
  have hrest := hu.referenceOf hrun
  refine ⟨hrest, reference_onward hu.grounded hrun, fun v t₁ hv => ?_⟩
  have hknown := (hu.known hhome hrun).onward hv
  rcases hknown.again resolvers listeners t₁ with ⟨o', v', t₂, hagain, hquiet, ho⟩
  have hgrounded : (ctx.among resolvers listeners).Grounded v := hv.changes.grounded hrest.grounded
  have honward := reference_onward hgrounded hagain
  exact ⟨o', v', t₂, hagain, ⟨honward.changes, honward.lasts⟩, hquiet, ho⟩

/-- The module of a file is asked for again, and is the same. -/
theorem resolveModule? (hu : ctx.AtRest u t) (file : Path) :
    ctx.Replays u t (Action.resolveModule? file) (Action.resolveModule? file)
      fun o o' => o' = o := by
  intro o u' t' hrun
  rcases From.resolveModule? (fun _ _ => True) hu.grounded hrun with ⟨hfrom, hr, _⟩
  refine ⟨hu.resolveModule? hrun, .of_registry hfrom.changes hr, fun v t₁ hv => ?_⟩
  have hagain := resolveModule?_again hu.grounded hrun hv.changes t₁
  exact ⟨o, v, t₁, hagain, .refl v, .refl _ v, rfl⟩

/-- A group is changed or opened again, if it was the first time. -/
theorem changeGroup? (hu : ctx.AtRest u t) (owner : ModuleHandle) {exports exports' : FileExports}
    (target : Path) (spaceName : Option String) {change change' : ReExport → ReExport}
    (hexports : ctx.program.MembersFirm → exports' = exports)
    (hchange : ctx.program.MembersFirm → change' = change) :
    ctx.Replays u t (ctx.changeGroup? owner exports target spaceName change)
      ((ctx.among resolvers listeners).changeGroup? owner exports' target spaceName change')
      fun o o' => (ctx.program.MembersFirm → o' = o) ∧ o'.isSome = o.isSome := by
  unfold Context.changeGroup?
  refine .get fun v hv => ?_
  refine .ite (Bool.eq_iff_iff.1 (hv.isExternalFile target)) ?_ ?_
  · exact .pure hu ⟨fun _ => rfl, rfl⟩
  · refine (Replays.resolveModule? hu target).bind fun o o' u₁ t₁ hrun hu₁ ho => ?_
    subst ho
    cases o' with
    | none => exact .pure hu₁ ⟨fun _ => rfl, rfl⟩
    | some handle =>
        rcases From.resolveModule? (fun _ _ => True) hu.grounded hrun with
          ⟨_, _, _, _, hplace⟩
        rcases hplace handle rfl with ⟨m, hm, _⟩
        refine .get fun v₁ hv₁ => ?_
        -- The module is there the second time, with the same names.
        rcases hv₁.changes.projects.moduleIn handle m hm with ⟨m₁, hm₁, hg⟩
        rw [relativeFile?_of_grow hu₁.grounded.trees hv₁.changes.projects, module?_eq, module?_eq,
          hm, hm₁]
        cases u₁.relativeFile? target with
        | none => exact .pure hu₁ ⟨fun _ => rfl, rfl⟩
        | some file =>
            refine .pure hu₁ ⟨fun hfirm => ?_, rfl⟩
            rw [hexports hfirm, hchange hfirm, hg.childrenPath]

section

variable {exports exports' : FileExports}
  (hexports : ctx.program.MembersFirm → exports' = exports)

include hexports

theorem addDirect (hhome : ctx.program.MembersAtHome) (hu : ctx.AtRest u t) (x : SymbolId)
    (name : String) :
    ctx.Replays u t (ctx.addDirect exports x name)
      ((ctx.among resolvers listeners).addDirect exports' x name)
      fun e e' => ctx.program.MembersFirm → e' = e := by
  refine (Replays.referenceOf hhome hu x).bind fun o o' u₁ t₁ _ hu₁ ho => ?_
  -- Only with members that are not declared can the answers differ.
  cases o with
  | none =>
      cases o' with
      | none => exact .pure hu₁ hexports
      | some ref' => exact .pure hu₁ fun hfirm => absurd (ho.1 hfirm) (Option.some_ne_none _)
  | some ref =>
      cases o' with
      | none => exact .pure hu₁ fun hfirm => absurd (ho.1 hfirm).symm (Option.some_ne_none _)
      | some ref' =>
          refine .pure hu₁ fun hfirm => ?_
          rw [hexports hfirm, Option.some.inj (ho.1 hfirm)]

theorem addWildcard (hu : ctx.AtRest u t) (owner : ModuleHandle) (target : Path)
    (spaceName : Option String) :
    ctx.Replays u t (ctx.addWildcard owner exports target spaceName)
      ((ctx.among resolvers listeners).addWildcard owner exports' target spaceName)
      fun e e' => ctx.program.MembersFirm → e' = e := by
  refine (Replays.changeGroup? hu owner target spaceName hexports fun _ => rfl).bind
    fun o o' u₁ t₁ _ hu₁ ho => ?_
  refine .pure hu₁ fun hfirm => ?_
  rw [hexports hfirm, ho.1 hfirm]

/-- A symbol that stands for itself, and is declared if an enumeration lists it, is passed on again
    if it was the first time. -/
theorem addPassedOn? (hhome : ctx.program.MembersAtHome) (hu : ctx.AtRest u t)
    (owner : ModuleHandle) {target : SymbolId}
    (hself : ctx.program.resolveAlias target = target) (htarget : ctx.program.Firm target)
    (file : Path) (name : String) :
    ctx.Replays u t (ctx.addPassedOn? owner exports target file name)
      ((ctx.among resolvers listeners).addPassedOn? owner exports' target file name)
      fun o o' => (ctx.program.MembersFirm → o' = o) ∧ o'.isSome = o.isSome := by
  refine (Replays.referenceOf hhome hu target).bind fun o o' u₁ t₁ _ hu₁ ho => ?_
  -- The two answers agree about whether there is a reference.
  have hsome := ho.2 hself htarget
  cases o with
  | none =>
      rw [Option.isSome_none, Option.isSome_eq_false_iff, Option.isNone_iff_eq_none] at hsome
      subst hsome
      exact .pure hu₁ ⟨fun _ => rfl, rfl⟩
  | some ref =>
      rw [Option.isSome_some, Option.isSome_iff_exists] at hsome
      rcases hsome with ⟨ref', rfl⟩
      refine Replays.changeGroup? hu₁ owner file none hexports fun hfirm => ?_
      rw [Option.some.inj (ho.1 hfirm)]

/-- A name for another symbol is exported again. -/
theorem addAlias (hhome : ctx.program.MembersAtHome) (hu : ctx.AtRest u t) (owner : ModuleHandle)
    (file : Path) (x : SymbolId) (name : String) :
    ctx.Replays u t (ctx.addAlias owner file exports x name)
      ((ctx.among resolvers listeners).addAlias owner file exports' x name)
      fun e e' => ctx.program.MembersFirm → e' = e := by
  have hdirect : ∀ u t, ctx.AtRest u t → ctx.Replays u t (ctx.addDirect exports x name)
      ((ctx.among resolvers listeners).addDirect exports' x name)
      fun e e' => ctx.program.MembersFirm → e' = e :=
    fun u t hu => addDirect hexports hhome hu x name
  unfold Context.addAlias
  simp only [program_among, symbolFile?_among]
  split
  · exact addWildcard hexports hu owner _ _
  · rename_i targetFile _ _ hfile
    refine .get fun v hv => ?_
    have hsame : (ctx.among resolvers listeners).isExternalFile v targetFile =
        ctx.isExternalFile u targetFile := hv.isExternalFile targetFile
    refine .ite (by rw [hsame]) ?_ (hdirect u t hu)
    · -- The target is declared in another file.
      have hself := ctx.program.resolveAlias_resolveAlias x
      have htarget : ctx.program.Firm (ctx.program.resolveAlias x) := by
        intro owner info _ hinfo _
        rw [Context.symbolFile?, hinfo, Option.bind_some] at hfile
        rcases Option.map_eq_some_iff.1 hfile with ⟨node, hnode, _⟩
        exact ⟨node, hnode⟩
      refine (addPassedOn? hexports hhome hu owner hself htarget _ name).bind
        fun o o' u₁ t₁ _ hu₁ ho => ?_
      cases o with
      | none =>
          have hnone := ho.2
          rw [Option.isSome_none, Option.isSome_eq_false_iff, Option.isNone_iff_eq_none] at hnone
          subst hnone
          exact hdirect u₁ t₁ hu₁
      | some changed =>
          have hsome := ho.2
          rw [Option.isSome_some, Option.isSome_iff_exists] at hsome
          rcases hsome with ⟨changed', rfl⟩
          exact .pure hu₁ fun hfirm => Option.some.inj (ho.1 hfirm)
  · exact hdirect u t hu

theorem addExport (hhome : ctx.program.MembersAtHome) (hu : ctx.AtRest u t) (owner : ModuleHandle)
    (file : Path) (x : SymbolId) :
    ctx.Replays u t (ctx.addExport owner file exports x)
      ((ctx.among resolvers listeners).addExport owner file exports' x)
      fun e e' => ctx.program.MembersFirm → e' = e := by
  unfold Context.addExport
  simp only [program_among]
  split
  · exact .pure hu hexports
  · split
    · exact addAlias hexports hhome hu owner file x _
    · exact addDirect hexports hhome hu x _

end

/-- The exports of a file are found again, and are the same if enumerations list members that are
    declared and stand for themselves. -/
theorem trackExports (hhome : ctx.program.MembersAtHome) (hu : ctx.AtRest u t)
    (owner : ModuleHandle) (file : Path) :
    ctx.Replays u t (ctx.trackExports owner file)
      ((ctx.among resolvers listeners).trackExports owner file)
      fun e e' => ctx.program.MembersFirm → e' = e := by
  unfold Context.trackExports
  simp only [program_among, symbolFile?_among]
  split
  · exact .pure hu fun _ => rfl
  · refine (Replays.foldlM (fun e e' => ctx.program.MembersFirm → e' = e) _ hu (fun _ => rfl)
      fun e e' w u t _ hu he => ?_).bind fun e e' u₁ t₁ _ hu₁ he => ?_
    · -- Exports of every name, and then the names one by one.
      split
      · exact .pure hu he
      · exact addWildcard he hu owner _ _
    · exact Replays.foldlM _ _ hu₁ he fun e e' x u t _ hu he => addExport he hhome hu owner file x

end Replays

end Context

end DocModel
