import DocModel.Proofs.Endure

/-!
# What lasts

Once a symbol has a reference, the reference need not stay what it is. A member of an enumeration
may be met before the enumeration is registered, and gets another reference when it is. A symbol
that was asked for in vain may get a reference later for the same reason.

Both come to an end. Once every enumeration that lists a member has a reference, unless it can have
none, nothing is left that could give the member another one: the member is closed. What is entered
for a closed symbol stays, and a closed symbol that can have no reference of its own never gets one.
This holds of everything that an extraction does, as long as no project is added.

## Main definitions

* `Program.Closed`: No enumeration is left that could enter the symbol.
* `Program.Absent`: The symbol has no reference and never gets one.
* `Program.Lasts`: What a later state has kept of an earlier one.
* `Program.MembersAtHome`: Members of enumerations are inside the enumerations that list them.

## Theorems

* `Program.Housed.closed`: A member that is housed is closed.
* `Program.endures_lasts`: No extraction breaks what lasts.
* `Context.keep_lasts`: So the two calls keep it, in any number of steps.
-/

namespace DocModel

namespace Program

/-- Every enumeration that lists the member has a reference, unless it can have none. -/
def Closed (p : Program) (s : State) (x : SymbolId) : Prop :=
  ∀ owner, p.Lists owner x → p.isEnumMember x = true → p.HasReference s.projects owner →
    s.registry.contains owner = true

/-- The symbol stands for itself and has no reference, and there is no way left to get one. -/
structure Absent (p : Program) (s : State) (x : SymbolId) : Prop where
  self : p.resolveAlias x = x
  find? : s.registry.find? x = none
  hopeless : ¬ p.HasReference s.projects x
  closed : p.Closed s x

/-- What a later state has kept of an earlier one: references that were entered for closed symbols,
    and the want of a reference where there was no way left to get one. -/
structure Lasts (p : Program) (s s' : State) : Prop where
  baseDirs : s'.projects.map (·.baseDir) = s.projects.map (·.baseDir)
  contains : ∀ x, s.registry.contains x = true → s'.registry.contains x = true
  entries : ∀ x ref, p.Closed s x → s.registry.find? x = some ref →
    s'.registry.find? x = some ref
  absent : ∀ x, p.Absent s x → s'.registry.find? x = none

/-- Members of enumerations are inside the enumerations that list them. -/
def MembersAtHome (p : Program) : Prop :=
  ∀ owner x info, p.Lists owner x → p.symbol? x = some info → info.kind = .enumMember →
    info.parent = some owner

variable {p : Program} {s s' s'' : State} {x : SymbolId}

/-- A member of an enumeration is a symbol of the program. -/
theorem exists_symbol?_of_isEnumMember (h : p.isEnumMember x = true) :
    ∃ info, p.symbol? x = some info ∧ info.kind = .enumMember := by
  unfold isEnumMember at h
  rcases (Option.any_eq_true_iff_get _ _).1 h with ⟨hsome, hkind⟩
  exact ⟨_, (Option.some_get hsome).symm, beq_iff_eq.1 hkind⟩

/-- Only one enumeration lists a member that is at home. -/
theorem MembersAtHome.unique (h : p.MembersAtHome) {owner owner' : SymbolId}
    (hlists : p.Lists owner x) (hlists' : p.Lists owner' x) (hmember : p.isEnumMember x = true) :
    owner = owner' := by
  rcases exists_symbol?_of_isEnumMember hmember with ⟨info, hinfo, hkind⟩
  have hparent := h owner x info hlists hinfo hkind
  rw [h owner' x info hlists' hinfo hkind, Option.some.injEq] at hparent
  exact hparent.symm

/-- A member that is housed is closed, as its enumeration is the only one that lists it. -/
theorem Housed.closed (hhome : p.MembersAtHome) (h : p.Housed s x) : p.Closed s x := by
  intro owner hlists hmember hhas
  rcases h with ⟨owner', hlists', howner'⟩ | h
  · rw [hhome.unique hlists hlists' hmember]
    exact howner'
  · rcases exists_symbol?_of_isEnumMember hmember with ⟨info, hinfo, hkind⟩
    exact h info owner hinfo (hhome owner x info hlists hinfo hkind) hhas

namespace Lasts

theorem refl (p : Program) (s : State) : p.Lasts s s :=
  ⟨rfl, fun _ h => h, fun _ _ _ h => h, fun _ h => h.find?⟩

/-- What can have a reference is the same as before. -/
theorem hasReference_iff (h : p.Lasts s s') (x : SymbolId) :
    p.HasReference s'.projects x ↔ p.HasReference s.projects x := HasReference.congr h.baseDirs x

/-- A closed symbol stays closed. -/
theorem closed (h : p.Lasts s s') (hx : p.Closed s x) : p.Closed s' x :=
  fun owner hlists hmember hhas =>
    h.contains owner (hx owner hlists hmember ((h.hasReference_iff owner).1 hhas))

/-- Where there was no way left to get a reference, there is none. -/
theorem stillAbsent (h : p.Lasts s s') (hx : p.Absent s x) : p.Absent s' x :=
  ⟨hx.self, h.absent x hx, fun hhas => hx.hopeless ((h.hasReference_iff x).1 hhas),
    h.closed hx.closed⟩

theorem trans (h : p.Lasts s s') (h' : p.Lasts s' s'') : p.Lasts s s'' where
  baseDirs := h'.baseDirs.trans h.baseDirs
  contains := fun x hx => h'.contains x (h.contains x hx)
  entries := fun x ref hclosed hx =>
    h'.entries x ref (h.closed hclosed) (h.entries x ref hclosed hx)
  absent := fun x hx => h'.absent x (h.stillAbsent hx)

/-- A symbol that had no reference at some time since had none in the beginning. -/
theorem find?_eq_none (h : p.Lasts s s') (hx : s'.registry.find? x = none) :
    s.registry.find? x = none := by
  cases hfind : s.registry.find? x with
  | none => rfl
  | some ref =>
      have hc := h.contains x (Registry.contains_of_find? hfind)
      rcases (Registry.contains_iff _ _).1 hc with ⟨ref', href'⟩
      rw [hx] at href'
      cases href'

/-- A reference may be entered where nothing stands that lasts. -/
theorem insert (h : p.Lasts s s') {r : Registry} (hr : ∀ y, r.find? y = s'.registry.find? y)
    (hopen : p.Closed s x → s.registry.find? x = none) (hpresent : ¬ p.Absent s x)
    (ref : Reference) : p.Lasts s { s' with registry := r.insert x ref } := by
  refine ⟨h.baseDirs, fun y hy => ?_, fun y ref' hclosed hy => ?_, fun y hy => ?_⟩
  · refine (Registry.contains_insert _ _ _ _).2 (Or.inr ?_)
    rcases (Registry.contains_iff _ _).1 (h.contains y hy) with ⟨ref', href'⟩
    exact Registry.contains_of_find? ((hr y).trans href')
  · rw [Registry.find?_insert]
    -- A symbol that is closed had no reference, so none is replaced.
    by_cases hyx : y = x
    · rw [hyx] at hclosed hy
      rw [hopen hclosed] at hy
      cases hy
    · rw [if_neg hyx, hr]
      exact h.entries y ref' hclosed hy
  · rw [Registry.find?_insert]
    by_cases hyx : y = x
    · -- The symbol could get a reference.
      rw [hyx] at hy
      exact absurd hy hpresent
    · rw [if_neg hyx, hr]
      exact h.absent y hy

end Lasts

/-- What is kept of a state. -/
def lastsGuard (p : Program) (s : State) : Guard := { holds := fun s' _ => p.Lasts s s' }

section

variable {s₀ : State}

/-- A symbol that had no reference at some time had none in the beginning. -/
theorem find?_of_unseen (h : (p.lastsGuard s₀).Unseen x) : s₀.registry.find? x = none := by
  rcases h with ⟨s, _, hs, hx⟩
  exact Lasts.find?_eq_none hs hx

theorem hasReference_of_ready (h : (p.lastsGuard s₀).Ready p x) :
    p.HasReference s₀.projects x := by
  rcases h.hasReference with ⟨s, _, hs, hx⟩
  exact (Lasts.hasReference_iff hs x).1 hx

/-- A symbol that is looked up for the first time had no reference, but could get one. -/
theorem Lasts.insert_ready (h : p.Lasts s₀ s) {r : Registry}
    (hr : ∀ y, r.find? y = s.registry.find? y) (hx : (p.lastsGuard s₀).Ready p x)
    (ref : Reference) : p.Lasts s₀ { s with registry := r.insert x ref } :=
  h.insert hr (fun _ => find?_of_unseen hx.unseen)
    (fun habsent => habsent.hopeless (hasReference_of_ready hx)) ref

/-- Exports have no bearing on what lasts. -/
theorem exportFree_lasts (s₀ : State) : (p.lastsGuard s₀).ExportFree := by
  intro s s' _ hs hregistry hroots
  have hs : p.Lasts s₀ s := hs
  refine ⟨hroots.trans hs.baseDirs, ?_, ?_, ?_⟩
  · rw [hregistry]
    exact hs.contains
  · rw [hregistry]
    exact hs.entries
  · rw [hregistry]
    exact hs.absent

/-- No extraction breaks what lasts. -/
theorem endures_lasts (s₀ : State) : (p.lastsGuard s₀).Endures p fun _ => False where
  note := fun _ _ hs => hs
  aside := (exportFree_lasts s₀).aside
  mint := fun _ _ _ _ hs => ⟨hs.baseDirs, hs.contains, hs.entries, hs.absent⟩
  own := fun s _ _ ref hs hx _ _ =>
    Lasts.insert_ready (r := (s.registry.mint ref.name ref.kind).2) hs (fun _ => rfl) hx ref
  outer := fun _ _ _ ref hs hx _ _ => hs.insert_ready (fun _ => rfl) hx ref
  member := by
    intro s t x owner ref hs howner _ hlists hmember
    -- The enumeration had no reference in the beginning, so the member was not closed.
    have hnone := find?_of_unseen howner.unseen
    have hopen : ¬ p.Closed s₀ x := by
      intro hclosed
      have hc := hclosed owner hlists hmember (hasReference_of_ready howner)
      rcases (Registry.contains_iff _ _).1 hc with ⟨ref', href'⟩
      rw [hnone] at href'
      cases href'
    exact hs.insert (fun _ => rfl) (fun hclosed => absurd hclosed hopen)
      (fun habsent => hopen habsent.closed) ref
  link := by
    intro s t x ref hs hne hx _
    -- What stands for another is not absent, and it had no reference.
    exact hs.insert (fun _ => rfl) (fun _ => find?_of_unseen hx)
      (fun habsent => hne habsent.self) ref

end

end Program

/-- Whatever is asked for, what lasts is kept. -/
theorem Context.keep_lasts (ctx : Context) (s₀ : State) (n : Nat) :
    Calls.Keep ⟨ctx.reference n, ctx.normalize n⟩ (ctx.program.lastsGuard s₀) fun _ => True :=
  (Program.endures_lasts s₀).keep (fun _ _ h => h.elim) n

/-- Looking up a symbol keeps what lasts. -/
theorem Context.reference_lasts {ctx : Context} {n : Nat} {x : SymbolId} {s s' : State}
    {t t' : Trail} {o : Option Reference}
    (hrun : ctx.reference n x s t = .ok ((o, s'), t')) : ctx.program.Lasts s s' :=
  (((ctx.keep_lasts s n).reference x).holds s t o s' t' (Program.Lasts.refl _ s) hrun).1

end DocModel
