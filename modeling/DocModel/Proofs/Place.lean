import DocModel.Proofs.Build

/-!
# The module of a declaration

A declaration belongs to the module of the namespace around it, or to that of its file. Either is
there or is made, so a declaration of the analysed sources always has a module. Finding it asks for
the namespace at most, and enters nothing for any symbol that stands for itself, provided that the
namespace has been asked for before.

## Main definitions

* `Placed`: What is known after the module of a file, or of a declaration in it, was asked for.
* `Filed`, `Owned`: What is known of the one module besides, and of the other.
* `Enclosed`: The namespace around a symbol has a module or has been asked for.

## Theorems

* `meets_resolveModule?`, `meets_moduleWithin?`: The module of a file, and that of a namespace.
* `Filed.owned`: When the module of a file is that of a declaration in it.
* `Calls.Sound.meets_owningModule?`: The module of a declaration.
-/

namespace DocModel

/-- What is known after the module of a file, or of a declaration in it, was asked for. -/
structure Placed (ctx : Context) (file : Path) (m : Moment ctx.program) (o : Option ModuleHandle)
    (m' : Moment ctx.program) : Prop extends Leads ctx m m' where
  found : ∀ (h : ModuleHandle), o = some h → ∃ module, moduleIn m'.state.projects h = some module
  outside : o = none → ctx.program.isOutside m.state.projects file = true
  /-- Nothing is entered for symbols that stand for themselves. -/
  quiet : ∀ (y : SymbolId), ctx.program.IsOwn y →
    m'.state.registry.find? y = m.state.registry.find? y

/-- What is known after the module of a file was asked for. -/
structure Filed (ctx : Context) (file : Path) (m : Moment ctx.program) (o : Option ModuleHandle)
    (m' : Moment ctx.program) : Prop extends Placed ctx file m o m' where
  serves : ∀ (h : ModuleHandle), o = some h → ServesFile m'.state.projects file h
  project : ∀ (h : ModuleHandle), o = some h → m'.state.projectFor? file = some h.project

/-- What is known after the module of a declaration was asked for. -/
structure Owned (ctx : Context) (info : SymbolInfo) (node : NodeInfo) (m : Moment ctx.program)
    (o : Option ModuleHandle) (m' : Moment ctx.program) : Prop
    extends Placed ctx node.file m o m' where
  home : ∀ (h : ModuleHandle), o = some h → Home ctx.program m'.state info node h
  project : ∀ (h : ModuleHandle), o = some h → ctx.program.isInNamespace info = false →
    m'.state.projectFor? node.file = some h.project

/-- The module of a file is there or is made. -/
theorem meets_resolveModule? {ctx : Context} (m : Moment ctx.program) (file : Path)
    (averted : Failure → Prop) :
    Meets (Action.resolveModule? file) m averted (Filed ctx file m) := by
  refine Meets.get ?_
  cases hi : m.state.projectFor? file with
  | none =>
      have hno : ∀ {q : ModuleHandle → Prop} (h : ModuleHandle), none = some h → q h :=
        fun _ h => by cases h
      refine Meets.pure ⟨⟨Leads.refl m, hno, fun _ => ?_, fun _ _ => rfl⟩, hno, hno⟩
      have hnone : (({ projects := m.state.projects } : State).projectFor? file).isNone = true := by
        rw [show ({ projects := m.state.projects } : State).projectFor? file = none from hi]
        rfl
      rw [Program.isOutside, hnone, Bool.or_true]
  | some i =>
      have hlt := projectFor?_lt m.state file i hi
      have hp : m.state.projects[i]? = some m.state.projects[i] := List.getElem?_eq_getElem hlt
      have hsound := m.trees.sound _ (List.getElem_mem hlt)
      -- A sound tree finds the module or makes it. It never fails.
      rcases hsound.resolveModule file with ⟨id, tree, module, hres, he, hm⟩
      rcases m.rooted.resolveModule m.trees hi hp hres he hm with ⟨hl, hserves⟩
      refine Meets.step m (a := m.state.projects[i]) (by rw [hp]; rfl) ?_
      refine Meets.step m (a := (id, tree)) (by rw [hres]; rfl) ?_
      refine Meets.step (m.enlarged i _ tree hp he hl) (a := ()) rfl (Meets.pure ?_)
      have hbefore := m.before_enlarged (l := ctx.listeners) i _ tree hp he hl
      refine ⟨⟨hbefore.leads rfl rfl, fun h hh => ⟨module, ?_⟩,
        (fun h => by cases h), fun _ _ => rfl⟩,
        fun h hh => ?_, fun h hh => ?_⟩
      · rw [← Option.some.inj hh]
        change moduleIn (withTree m.state.projects i tree) ⟨i, id⟩ = some module
        rw [moduleIn_withTree _ i tree _ hp, if_pos rfl, hm]
      · rw [← Option.some.inj hh]
        exact hserves
      · rw [← Option.some.inj hh, projectFor?_congr _ _ hbefore.projects.baseDirs, hi]

/-- The module of a file is that of a declaration in it, unless the namespace around the declaration
    has a module or may still get one. -/
theorem Filed.owned {ctx : Context} {info : SymbolInfo} {node : NodeInfo}
    {m m' : Moment ctx.program} {o : Option ModuleHandle} (h : Filed ctx node.file m o m')
    (hnone : ∀ parent, info.parent = some parent → ctx.program.isNamespace parent = true →
      m.state.namespaces.find? parent = none ∧
        (ctx.program.HasReference m.state.projects parent →
          m.state.registry.contains parent = true)) : Owned ctx info node m o m' := by
  refine ⟨h.toPlaced, fun handle ho => .file (fun parent hparent hspace => ?_) (h.serves handle ho),
    fun handle ho _ => h.project handle ho⟩
  rcases hnone parent hparent hspace with ⟨hfind, hknown⟩
  exact ⟨h.unspaced parent hknown hfind,
    fun hhas => h.contains parent (hknown (h.abides.references parent hhas))⟩

/-- The module of a declaration, asked for at a later moment. -/
theorem Owned.after {ctx : Context} {info : SymbolInfo} {node : NodeInfo}
    {m m₁ m' : Moment ctx.program} {o : Option ModuleHandle} (h : Owned ctx info node m₁ o m')
    (hl : Leads ctx m m₁)
    (hq : ∀ y, ctx.program.IsOwn y → m₁.state.registry.find? y = m.state.registry.find? y) :
    Owned ctx info node m o m' := by
  refine ⟨⟨hl.trans h.toLeads, h.found, fun ho => ?_, fun y hy => ?_⟩, h.home, h.project⟩
  · rw [← isOutside_of_grow ctx.program hl.projects]
    exact h.outside ho
  · rw [h.quiet y hy, hq y hy]

/-- The module of the namespace around a declaration is there, or that of the file takes its place.
    The namespace has a module or has been asked for. -/
theorem meets_moduleWithin? {ctx : Context} (m : Moment ctx.program) {info : SymbolInfo}
    {space : SymbolId} (hparent : info.parent = some space)
    (hspace : ctx.program.isNamespace space = true) (node : NodeInfo)
    (hknown : m.state.namespaces.find? space = none →
      ctx.program.HasReference m.state.projects space → m.state.registry.contains space = true)
    (averted : Failure → Prop) :
    Meets (Calls.moduleWithin? space node.file) m averted (Owned ctx info node m) := by
  refine Meets.get ?_
  -- The namespace has a module, or has been asked for and has none.
  cases hs : m.state.namespaces.find? space with
  | none =>
      refine (meets_resolveModule? m node.file averted).mono (fun _ he => he) fun o m' hfiled =>
        hfiled.owned fun parent hp _ => ?_
      rw [← Option.some.inj (hparent.symm.trans hp)]
      exact ⟨hs, hknown hs⟩
  | some handle =>
      refine Meets.pure ⟨⟨Leads.refl m, fun h hh => ?_, (fun h => by cases h), fun _ _ => rfl⟩,
        fun h hh => ?_, fun h hh hout => ?_⟩
      · rw [← Option.some.inj hh]
        exact m.spaces.module space handle hs
      · rw [← Option.some.inj hh]
        exact .space space hparent hspace hs
      · rw [Program.isInNamespace, hparent, Option.any_some, hspace] at hout
        exact absurd hout.symm Bool.false_ne_true

/-- The namespace around a symbol has a module or has been asked for. -/
def Enclosed (p : Program) (s : State) (info : SymbolInfo) : Prop :=
  ∀ parent, info.parent = some parent → p.isNamespace parent = true →
    s.namespaces.contains parent = true ∨ Settled p s parent

/-- The module of a declaration is there or is made. -/
theorem Calls.Sound.meets_owningModule? {calls : Calls} {ctx : Context} {n : Nat}
    (h : calls.Sound ctx n) (m : Moment ctx.program) (x : SymbolId) (info : SymbolInfo)
    (node : NodeInfo) (hx : ctx.program.symbol? (ctx.program.resolveAlias x) = some info)
    (henclosed : Enclosed ctx.program m.state info) :
    Meets (calls.owningModule? ctx info node) m (Averted ctx (RoomFor ctx (n + 1) x m) m)
      (Owned ctx info node m) := by
  unfold owningModule?
  split
  · rename_i hparent
    refine (meets_resolveModule? m node.file _).mono (fun _ he => he) fun o m' hfiled =>
      hfiled.owned fun parent hp _ => ?_
    cases hparent.symm.trans hp
  · rename_i parent hparent
    split
    · rename_i hspace
      refine Meets.get ?_
      cases hc : m.state.namespaces.contains parent with
      | true =>
          -- It has a module, so it need not be asked for.
          refine meets_moduleWithin? m hparent hspace node (fun hnone => ?_) _
          rcases (Table.contains_iff _ _).1 hc with ⟨handle, hh⟩
          rw [hnone] at hh
          cases hh
      | false =>
          -- A namespace without a module is asked for, but it has been asked for before.
          have hsettled : Settled ctx.program m.state parent := by
            rcases henclosed parent hparent hspace with h' | h'
            · rw [hc] at h'
              exact absurd h' Bool.false_ne_true
            · exact h'
          refine ((h.reference parent m).mono
            (Averted.mono fun hr => hr.outer hx hparent (Or.inl hspace)) fun _ _ ha => ha).bind
              fun o m₁ ha => ?_
          refine (meets_moduleWithin? m₁ hparent hspace node (fun _ => ha.settled.contains) _).mono
            (fun _ he => he) fun o m₂ hp => ?_
          exact hp.after ha.toLeads (ha.quiet hsettled)
    · -- What is around it is no namespace, so its file decides.
      rename_i hspace
      refine (meets_resolveModule? m node.file _).mono (fun _ he => he) fun o m' hfiled =>
        hfiled.owned fun parent' hp hspace' => ?_
      rw [← Option.some.inj (hparent.symm.trans hp)] at hspace'
      exact absurd hspace' hspace

end DocModel
