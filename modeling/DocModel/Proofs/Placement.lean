import DocModel.Proofs.Orderly
import DocModel.Proofs.Registration

/-!
# Where declarations are placed

In which module a declaration ends up can be told from the program and the projects, before anything
is extracted. A declaration in a namespace is placed in the module of the namespace, which is placed
like any other declaration and has its name behind the names of the module around it. Every other
declaration is placed in the module of its file.

An extraction may come to the innermost declaration first, and to a namespace while another is half
registered. What makes the place independent of that is that a namespace is asked for before
anything in it is placed. Either it has its module by then, or it can have none. So a declaration
goes to the module of its file only if it belongs there.

Namespaces that contain one another in a circle have no place, and nothing in them has. They have no
reference either, because asking for one has no end.

## Main definitions

* `SymbolKind.isPlaced`: What is placed in modules.
* `Program.IsSpace`: A namespace that has a module of its own.
* `PlacedAt`: The names of the module that a symbol is placed in.
* `InPlace`: Everything in a state is where it is placed.
* `Operation.asks`: Operations that may ask for a reference.

## Theorems

* `PlacedAt.unique`: A symbol is placed in one module at most.
* `Owner.placed`: The module that owns a declaration is where it is placed.
* `Change.inPlace`: Every change leaves everything where it is placed.
* `Session.places_fixed`: Places do not depend on what is asked for first, in any run.
-/

namespace DocModel

/-- Whether symbols of a kind are placed in modules. Members of enumerations are not placed by
    themselves. -/
def SymbolKind.isPlaced : SymbolKind → Bool
  | classType | interface | enum | function | binding | typeAlias | namespaceScope => true
  | _ => false

/-- A namespace of the analysed sources that stands for itself, which therefore has a module. -/
def Program.IsSpace (p : Program) (projects : List Project) (x : SymbolId) (info : SymbolInfo) :
    Prop :=
  info.kind = .namespaceScope ∧ ∃ node, Declared p projects x info node

/-- The names of the module that a symbol is placed in: those of the module of the namespace around
    it, or those of the module of its file. -/
inductive PlacedAt (p : Program) (passthrough : List String) (projects : List Project) :
    SymbolId → List String → Prop
  | space {x parent : SymbolId} {info outer : SymbolInfo} {path : List String}
      (hx : p.symbol? x = some info) (hparent : info.parent = some parent)
      (hspace : p.IsSpace projects parent outer) (h : PlacedAt p passthrough projects parent path) :
      PlacedAt p passthrough projects x (path ++ [outer.name])
  | file {x : SymbolId} {info : SymbolInfo} {node : NodeInfo} {path : List String}
      (hx : p.symbol? x = some info) (hnode : p.declarationOf? info = some node)
      (hnone : ∀ parent outer, info.parent = some parent → ¬ p.IsSpace projects parent outer)
      (hplace : placeIn passthrough projects node.file = some path) :
      PlacedAt p passthrough projects x path

section

variable {p : Program} {passthrough : List String} {projects projects' : List Project}
  {x : SymbolId} {info : SymbolInfo} {node : NodeInfo} {path path' : List String} {s s' : State}

/-- Growth changes nothing about what is declared where. -/
theorem Declared.of_grow (hg : ProjectsGrow projects projects') :
    Declared p projects' x info node ↔ Declared p projects x info node := by
  constructor
  · intro h
    exact ⟨h.resolved, h.symbol, h.declaration, by rw [← isOutside_of_grow p hg, h.inside]⟩
  · intro h
    exact ⟨h.resolved, h.symbol, h.declaration, by rw [isOutside_of_grow p hg, h.inside]⟩

/-- Nor about which namespaces have modules. -/
theorem Program.IsSpace.of_grow (hg : ProjectsGrow projects projects') :
    p.IsSpace projects' x info ↔ p.IsSpace projects x info := by
  unfold IsSpace
  simp only [Declared.of_grow hg]

/-- A namespace with a module of its own has a reference. -/
theorem Program.IsSpace.hasReference (h : p.IsSpace projects x info) :
    p.HasReference projects x := by
  rcases h with ⟨hkind, node, hx⟩
  rw [hasReference_of_self hx.resolved hx.symbol]
  refine Or.inr ⟨node, hx.declaration, Or.inr ?_⟩
  unfold isRegistrable
  rw [hkind]

theorem Program.IsSpace.isNamespace (h : p.IsSpace projects x info) :
    p.isNamespace x = true := by
  rcases h with ⟨hkind, node, hx⟩
  rw [Program.isNamespace, hx.symbol, Option.any_some, hkind]
  rfl

/-- A place depends on which namespaces have modules, and on where files belong. -/
theorem PlacedAt.congr (h : PlacedAt p passthrough projects x path)
    (hspaces : ∀ y info, p.IsSpace projects' y info ↔ p.IsSpace projects y info)
    (hfiles : ∀ file, placeIn passthrough projects' file = placeIn passthrough projects file) :
    PlacedAt p passthrough projects' x path := by
  -- The way outwards is the same, one namespace after another.
  induction h with
  | space hx hparent hspace _ ih => exact .space hx hparent ((hspaces _ _).2 hspace) ih
  | file hx hnode hnone hplace =>
      refine .file hx hnode (fun parent outer hparent hspace => ?_) ((hfiles _).trans hplace)
      exact hnone parent outer hparent ((hspaces parent outer).1 hspace)

/-- Growth places nothing anew. -/
theorem PlacedAt.of_grow (hg : ProjectsGrow projects projects') :
    PlacedAt p passthrough projects' x path ↔ PlacedAt p passthrough projects x path := by
  constructor
  · intro h
    exact h.congr (fun _ _ => (Program.IsSpace.of_grow hg).symm)
      fun file => (placeIn_of_grow passthrough hg file).symm
  · intro h
    exact h.congr (fun _ _ => Program.IsSpace.of_grow hg) (placeIn_of_grow passthrough hg)

/-- A symbol is placed in one module at most. -/
theorem PlacedAt.unique (h : PlacedAt p passthrough projects x path)
    (h' : PlacedAt p passthrough projects x path') : path = path' := by
  -- The two rules exclude one another, so both derivations end with the same one.
  induction h generalizing path' with
  | space hx hparent hspace _ ih =>
      cases h' with
      | space hx' hparent' hspace' h' =>
          rw [hx, Option.some.injEq] at hx'
          subst hx'
          rw [hparent, Option.some.injEq] at hparent'
          subst hparent'
          rcases hspace with ⟨_, _, hd⟩
          rcases hspace' with ⟨_, _, hd'⟩
          have houter := Option.some.inj (hd.symbol.symm.trans hd'.symbol)
          rw [ih h', houter]
      | file hx' _ hnone _ =>
          rw [hx, Option.some.injEq] at hx'
          subst hx'
          exact absurd hspace (hnone _ _ hparent)
  | file hx hnode hnone hplace =>
      cases h' with
      | space hx' hparent' hspace' _ =>
          rw [hx, Option.some.injEq] at hx'
          subst hx'
          exact absurd hspace' (hnone _ _ hparent')
      | file hx' hnode' _ hplace' =>
          rw [hx, Option.some.injEq] at hx'
          subst hx'
          rw [hnode, Option.some.injEq] at hnode'
          subst hnode'
          exact Option.some.inj (hplace.symm.trans hplace')

/-- The module of a namespace is the child of a module under the name of the namespace. -/
def ChildAt (projects : List Project) (path : List String) (name : String) (h : ModuleHandle) :
    Prop :=
  ∃ outer m, moduleIn projects outer = some m ∧ m.childrenPath = path ∧
    outer.project = h.project ∧ m.modules.find? name = some h.module

/-- A child stays where it is. -/
theorem ChildAt.grow {name : String} {h : ModuleHandle} (hc : ChildAt projects path name h)
    (hg : ProjectsGrow projects projects') : ChildAt projects' path name h := by
  rcases hc with ⟨outer, m, hm, hpath, hproject, hchild⟩
  rcases hg.moduleIn outer m hm with ⟨m', hm', hmg⟩
  exact ⟨outer, m', hm', hmg.childrenPath.trans hpath, hproject, hmg.modules name _ hchild⟩

/-- A child has the names of the module around it, with its own behind them. -/
theorem ChildAt.childrenPath {name : String} {h : ModuleHandle} (hc : ChildAt projects path name h)
    (ht : Trees projects) :
    ∃ inner, moduleIn projects h = some inner ∧ inner.childrenPath = path ++ [name] := by
  rcases hc with ⟨outer, m, hm, rfl, hproject, hchild⟩
  rcases Option.bind_eq_some_iff.1 hm with ⟨project, hp, hget⟩
  have hsound := ht.sound project (List.mem_of_getElem? hp)
  rcases hsound.child outer.module m name h.module hget hchild with ⟨inner, hinner, hname, hpath⟩
  refine ⟨inner, ?_, ?_⟩
  · rw [moduleIn, ← hproject, hp, Option.bind_some, hinner]
  · rw [hsound.childrenPath h.module inner hinner, hname, hpath]

variable (p passthrough)

/-- What is known of the reference of a symbol: its path is where the symbol is placed, and it says
    that something is declared unless the symbol is a namespace. -/
structure PutRight (projects : List Project) (x : SymbolId) (info : SymbolInfo) (ref : Reference) :
    Prop where
  placed : ∃ path, PlacedAt p passthrough projects x path ∧ ref.path = some path
  kind : info.kind ≠ .namespaceScope → ref.kind.isDeclaration = true

/-- Everything in a state is where it is placed. -/
structure InPlace (s : State) : Prop where
  /-- A namespace with a module is placed, and its module is there. -/
  spaces : ∀ x h, s.namespaces.find? x = some h → ∃ info path, p.IsSpace s.projects x info ∧
    PlacedAt p passthrough s.projects x path ∧ ChildAt s.projects path info.name h
  /-- A namespace with a reference has a module. -/
  entered : ∀ x info, p.IsSpace s.projects x info → s.registry.contains x = true →
    ∃ h, s.namespaces.find? x = some h
  /-- References say where their symbols are placed. -/
  references : ∀ x info node ref, Declared p s.projects x info node →
    info.kind.isPlaced = true → s.registry.find? x = some ref →
    PutRight p passthrough s.projects x info ref

variable {p passthrough}

theorem PutRight.grow {ref : Reference} (h : PutRight p passthrough projects x info ref)
    (hg : ProjectsGrow projects projects') : PutRight p passthrough projects' x info ref := by
  rcases h.placed with ⟨path, hplaced, hpath⟩
  exact ⟨⟨path, (PlacedAt.of_grow hg).2 hplaced, hpath⟩, h.kind⟩

/-- The module that owns a declaration is where the declaration is placed. -/
theorem Owner.placed {h : ModuleHandle} {m : Module} (ho : Owner p passthrough s info node h)
    (hi : InPlace p passthrough s) (ht : Trees s.projects)
    (hx : Declared p s.projects x info node) (hm : moduleIn s.projects h = some m) :
    PlacedAt p passthrough s.projects x m.childrenPath := by
  cases ho with
  | space parent hparent hspace hfind =>
      -- The namespace is placed, and its module is a child under its name.
      rcases hi.spaces parent h hfind with ⟨outer, path, houter, hplaced, hchild⟩
      rcases hchild.childrenPath ht with ⟨inner, hinner, hpath⟩
      have hmi : m = inner := Option.some.inj (hm.symm.trans hinner)
      rw [hmi, hpath]
      exact .space hx.symbol hparent houter hplaced
  | file hnone hplace =>
      rcases hplace with ⟨m', hm', hplace⟩
      have hmm : m = m' := Option.some.inj (hm.symm.trans hm')
      rw [hmm]
      -- A namespace around it would have been asked for, and would have its module.
      refine .file hx.symbol hx.declaration (fun parent outer hparent houter => ?_) hplace
      rcases hnone parent hparent houter.isNamespace with ⟨hfind, hasked⟩
      rcases hi.entered parent outer houter (hasked houter.hasReference) with ⟨h', hfind'⟩
      rw [hfind] at hfind'
      exact nomatch hfind'

namespace InPlace

/-- Growth leaves everything where it is placed. -/
theorem grow (h : InPlace p passthrough s) (hg : ProjectsGrow s.projects s'.projects)
    (hspaces : s'.namespaces = s.namespaces)
    (hregistry : ∀ x, s'.registry.find? x = s.registry.find? x) : InPlace p passthrough s' := by
  refine ⟨fun x handle hx => ?_, fun x info hx hc => ?_, fun x info node ref hx hkind hr => ?_⟩
  · rw [hspaces] at hx
    rcases h.spaces x handle hx with ⟨info, path, hspace, hplaced, hchild⟩
    exact ⟨info, path, (Program.IsSpace.of_grow hg).2 hspace, (PlacedAt.of_grow hg).2 hplaced,
      hchild.grow hg⟩
  · rcases (Registry.contains_iff _ _).1 hc with ⟨ref, href⟩
    rw [hregistry] at href
    rw [hspaces]
    exact h.entered x info ((Program.IsSpace.of_grow hg).1 hx) (Registry.contains_of_find? href)
  · rw [hregistry] at hr
    exact (h.references x info node ref ((Declared.of_grow hg).1 hx) hkind hr).grow hg

/-- A reference may be entered that says where its symbol is placed, and a module for the symbol
    with it. -/
theorem insert (h : InPlace p passthrough s) {ref : Reference}
    {spaces : Table SymbolId ModuleHandle}
    (hothers : ∀ y, y ≠ x → spaces.find? y = s.namespaces.find? y)
    (hspaces : ∀ handle, spaces.find? x = some handle → ∃ info path, p.IsSpace s.projects x info ∧
      PlacedAt p passthrough s.projects x path ∧ ChildAt s.projects path info.name handle)
    (hentered : ∀ info, p.IsSpace s.projects x info → ∃ handle, spaces.find? x = some handle)
    (href : ∀ info node, Declared p s.projects x info node →
      info.kind.isPlaced = true → PutRight p passthrough s.projects x info ref) :
    InPlace p passthrough
      { s with registry := s.registry.insert x ref, namespaces := spaces } := by
  -- What is asked about `x` is answered by the new entry, all else by the old ones.
  refine ⟨fun y handle hy => ?_, fun y info hy hc => ?_, fun y info node ref' hy hkind hr => ?_⟩
  · by_cases hyx : y = x
    · subst hyx
      exact hspaces handle hy
    · rw [hothers y hyx] at hy
      exact h.spaces y handle hy
  · by_cases hyx : y = x
    · subst hyx
      exact hentered info hy
    · rw [hothers y hyx]
      rcases (Registry.contains_insert _ _ _ _).1 hc with hc | hc
      · exact absurd hc hyx
      · exact h.entered y info hy hc
  · by_cases hyx : y = x
    · subst hyx
      rw [Registry.find?_insert, if_pos rfl, Option.some.injEq] at hr
      rw [← hr]
      exact href info node hy hkind
    · rw [Registry.find?_insert, if_neg hyx] at hr
      exact h.references y info node ref' hy hkind hr

/-- A reference may be entered that has no bearing on modules. -/
theorem insert_of_not_declared (h : InPlace p passthrough s) {ref : Reference}
    (hnone : ∀ info node, Declared p s.projects x info node →
      info.kind.isPlaced = false) :
    InPlace p passthrough { s with registry := s.registry.insert x ref } := by
  refine h.insert (fun _ _ => rfl) (h.spaces x) (fun info hspace => ?_) fun info node hx hkind => ?_
  · rcases hspace with ⟨hkind, node, hx⟩
    have hplaced := hnone info node hx
    rw [hkind] at hplaced
    exact nomatch hplaced
  · rw [hnone info node hx] at hkind
    exact nomatch hkind

end InPlace

/-- Every change leaves everything where it is placed. -/
theorem Change.inPlace {fits : Ty → Prop} (h : Change p passthrough fits s s')
    (hs : Grounded passthrough s) (hi : InPlace p passthrough s) : InPlace p passthrough s' := by
  have hgrow := h.projects
  cases h with
  | link x ref hx _ =>
      -- What stands for another is not declared itself.
      refine hi.insert_of_not_declared fun info node hd => ?_
      exact absurd hd.resolved hx
  | enter x info ref hx hcase _ =>
      refine hi.insert_of_not_declared fun info' node hd => ?_
      have hinfo := Option.some.inj (hx.symm.trans hd.symbol)
      subst hinfo
      -- What is entered here is of a sort that is not placed, or from outside.
      rcases hcase with hcase | hcase | hcase | ⟨node', hnode', hout⟩
      · rw [hcase]
        rfl
      · rw [hcase]
        rfl
      · rw [hcase]
        rfl
      · rw [hd.declaration, Option.some.injEq] at hnode'
        rw [← hnode', hd.inside] at hout
        exact absurd hout Bool.false_ne_true
  | declare x info node h m ref hx hspace howner hm hpath hkind =>
      have hplaced := howner.placed hi hs.trees hx hm
      -- The table of namespaces is what it was.
      refine hi.insert (fun _ _ => rfl) (hi.spaces x) (fun info' hspace' => ?_) ?_
      · rcases hspace' with ⟨hkind', node', hx'⟩
        have hinfo := Option.some.inj (hx.symbol.symm.trans hx'.symbol)
        rw [hinfo] at hspace
        exact absurd hkind' hspace
      · intro info' node' _ _
        exact ⟨⟨m.childrenPath, hplaced, hpath⟩, fun _ => hkind⟩
  | space x info node outer m id ref hx hspace howner hm hchild hpath =>
      have hplaced := howner.placed hi hs.trees hx hm
      -- The entry and the module come together, and the module is a child of the right one.
      refine hi.insert (fun y hy => ?_) (fun handle hfind => ?_) (fun _ _ => ?_) ?_
      · rw [Table.find?_insert, if_neg hy]
      · rw [Table.find?_insert, if_pos rfl, Option.some.injEq] at hfind
        refine ⟨info, m.childrenPath, ⟨hspace, node, hx⟩, hplaced, outer, m, hm, rfl, ?_⟩
        rw [← hfind]
        exact ⟨rfl, hchild⟩
      · exact ⟨_, by rw [Table.find?_insert, if_pos rfl]⟩
      · intro info' node' hx' _
        have hinfo := Option.some.inj (hx.symbol.symm.trans hx'.symbol)
        exact ⟨⟨m.childrenPath, hplaced, hpath⟩, fun hne => absurd (hinfo ▸ hspace) hne⟩
  | _ => exact hi.grow hgrow rfl fun _ => rfl

end

/-- Whether an operation may ask for a reference. -/
def Operation.asks : Operation → Bool
  | .reference _ | .normalize _ _ | .extract | .extractFile _ => true
  | _ => false

namespace Session

variable {s s' : Session}

/-- An operation that asks for nothing enters nothing. -/
theorem perform_quiet (hs : s.context.Grounded s.state) {op : Operation} (hop : op.asks = false)
    (hrun : s.perform op = .ok s') :
    s'.state.registry = s.state.registry ∧ s'.state.namespaces = s.state.namespaces := by
  cases op with
  | addProject spec =>
      simp only [perform] at hrun
      split at hrun
      · rename_i i s₁ hadd
        rw [← Except.ok.inj hrun]
        rcases addProject_moves hadd with ⟨_, project, _, heq⟩
        rw [heq]
        exact ⟨rfl, rfl⟩
      · rw [← Except.ok.inj hrun]
        exact ⟨rfl, rfl⟩
  | addResolver | addListener =>
      rw [← Except.ok.inj hrun]
      exact ⟨rfl, rfl⟩
  | resolveModule file =>
      rcases Outcome.map_eq_ok.1 hrun with ⟨⟨o, s₁⟩, hresolve, rfl⟩
      rcases Outcome.map_eq_ok.1 hresolve with ⟨⟨⟨o', state⟩, trail⟩, hact, heq⟩
      rcases Prod.mk.inj heq with ⟨rfl, rfl⟩
      have hfrom := Context.From.resolveModule? (fun _ _ => True) hs hact
      exact ⟨hfrom.2.1, hfrom.2.2.1⟩
  | reference | normalize | extract | extractFile => cases hop

/-- Nor does a run of such operations. -/
theorem performAll_quiet (hs : s.context.Grounded s.state) (ops : List Operation)
    (hops : ∀ op ∈ ops, op.asks = false) (hrun : s.performAll ops = .ok s') :
    s'.context.Grounded s'.state ∧ s'.state.registry = s.state.registry ∧
      s'.state.namespaces = s.state.namespaces := by
  induction ops generalizing s with
  | nil =>
      rw [← Except.ok.inj hrun]
      exact ⟨hs, rfl, rfl⟩
  | cons op ops ih =>
      rw [performAll, List.foldlM_cons] at hrun
      rcases Outcome.bind_eq_ok.1 hrun with ⟨s₁, hop, hrun⟩
      have hmoves := perform_moves (Ty.law_true _) hs hop
      rcases perform_quiet hs (hops op List.mem_cons_self) hop with ⟨hregistry, hspaces⟩
      rcases ih (hmoves.grounded hs) (fun op' h' => hops op' (List.mem_cons_of_mem _ h')) hrun with
        ⟨hs', hregistry', hspaces'⟩
      exact ⟨hs', hregistry'.trans hregistry, hspaces'.trans hspaces⟩

/-- As long as nothing is asked for, nothing is out of place, because nothing is anywhere. -/
theorem inPlace_of_quiet (program : Program) (settings : Settings) (steps : Nat)
    (ops : List Operation) (hops : ∀ op ∈ ops, op.asks = false)
    (hrun : (start program settings steps).performAll ops = .ok s) :
    s.context.Grounded s.state ∧
      InPlace s.context.program s.context.settings.passthroughModules s.state := by
  rcases performAll_quiet (grounded_start program settings steps) ops hops hrun with
    ⟨hs, hregistry, hspaces⟩
  refine ⟨hs, fun x h hx => ?_, fun x info _ hc => ?_, fun x info node ref _ _ hr => ?_⟩
  · rw [hspaces] at hx
    exact nomatch hx
  · rw [hregistry] at hc
    exact nomatch hc
  · rw [hregistry] at hr
    exact nomatch hr

/-- From then on everything stays in place, as long as no project is added. -/
theorem performAll_inPlace (hs : s.context.Grounded s.state)
    (hi : InPlace s.context.program s.context.settings.passthroughModules s.state)
    (ops : List Operation) (hops : ∀ op ∈ ops, op.addsProject = false)
    (hrun : s.performAll ops = .ok s') :
    s'.context.Grounded s'.state ∧ ProjectsGrow s.state.projects s'.state.projects ∧
      s'.context.program = s.context.program ∧ s'.context.settings = s.context.settings ∧
      InPlace s'.context.program s'.context.settings.passthroughModules s'.state := by
  induction ops generalizing s with
  | nil =>
      rw [← Except.ok.inj hrun]
      exact ⟨hs, ProjectsGrow.refl _, rfl, rfl, hi⟩
  | cons op ops ih =>
      rw [performAll, List.foldlM_cons] at hrun
      rcases Outcome.bind_eq_ok.1 hrun with ⟨s₁, hop, hrun⟩
      have hfrom := perform_from (Ty.law_true _) hs (hops op List.mem_cons_self) hop
      rcases hfrom with ⟨hprogram, hsettings, hfrom⟩
      -- What is in order and in place stays so through every change.
      have hboth := hfrom.changes.induct (fun t => s.context.Grounded t ∧
          InPlace s.context.program s.context.settings.passthroughModules t)
        (fun t t' hc ht => ⟨hc.grounded ht.1, hc.inPlace ht.1 ht.2⟩) ⟨hs, hi⟩
      have hs₁ : s₁.context.Grounded s₁.state := by
        rw [Context.Grounded, hsettings]
        exact hboth.1
      have hi₁ : InPlace s₁.context.program s₁.context.settings.passthroughModules s₁.state := by
        rw [hprogram, hsettings]
        exact hboth.2
      rcases ih hs₁ hi₁ (fun op' h' => hops op' (List.mem_cons_of_mem _ h')) hrun with
        ⟨hs', hgrow, hprogram', hsettings', hi'⟩
      exact ⟨hs', hfrom.changes.projects.trans hgrow, hprogram'.trans hprogram,
        hsettings'.trans hsettings, hi'⟩

/-- The reference of a declaration accounts for an attachment of the declaration. -/
theorem IsAt.exists_attachment {p : Program} {m : Moment p} (h : s.IsAt m) {x : SymbolId}
    {r : Reference} (hx : p.IsOwn x) (hr : s.state.registry.find? x = some r)
    (hkind : r.kind.isDeclaration = true) (hpath : r.path.isSome = true) :
    ∃ a ∈ m.attached, a.symbol = x ∧ a.reference = r := by
  have haccounts := h.accounts
  rcases List.mem_map.1 ((haccounts.mem_ids r.id).2 ⟨x, r, hr, rfl, hkind, hpath⟩) with ⟨a, ha, hid⟩
  have hfits := (haccounts.fits a ha).2.2
  -- The same number means the same symbol.
  have hidentity := m.identity
  rw [h.state] at hidentity
  have hsymbol := hidentity.own a.symbol x a.reference r (m.valid_of_mem a ha).own hx hfits hr hid
  refine ⟨a, ha, hsymbol, ?_⟩
  rw [hsymbol, hr] at hfits
  exact (Option.some.inj hfits).symm

/-- If all projects are added before the first question, then in any run that comes to an end the
    reference of a declaration or of a namespace has the names of the one module that the symbol is
    placed in, by the program and the projects as they were before anything was asked for. The
    declaration is attached to that module, and the module of the namespace is a child of it. -/
theorem places_fixed (program : Program) (settings : Settings) (steps : Nat)
    (before after : List Operation) (s₀ s : Session)
    (hquiet : ∀ op ∈ before, op.asks = false) (hclosed : ∀ op ∈ after, op.addsProject = false)
    (hbefore : (start program settings steps).performAll before = .ok s₀)
    (hafter : s₀.performAll after = .ok s) :
    ∃ log : List Attachment, s.Accounts log ∧
      ∀ x info node r, Declared program s₀.state.projects x info node →
        info.kind.isPlaced = true → s.state.registry.find? x = some r →
        ∃ path, r.path = some path ∧
          (∀ path', PlacedAt program settings.passthroughModules s₀.state.projects x path' ↔
            path' = path) ∧
          (info.kind ≠ .namespaceScope → ∃ a ∈ log, ∃ m, a.symbol = x ∧ a.reference = r ∧
            s.module? a.handle = some m ∧ m.childrenPath = path ∧
            a.declaration ∈ m.declarations) ∧
          (info.kind = .namespaceScope → ∃ outer m h inner, s.module? outer = some m ∧
            m.childrenPath = path ∧ s.state.namespaces.find? x = some h ∧
            h.project = outer.project ∧ m.modules.find? info.name = some h.module ∧
            s.module? h = some inner ∧ inner.childrenPath = path ++ [info.name]) := by
  rcases performAll_isAt (isAt_start program settings steps) before hbefore with ⟨m₀, hat₀, hlater₀⟩
  rcases performAll_isAt hat₀ after hafter with ⟨moment, hat, _⟩
  rcases inPlace_of_quiet program settings steps before hquiet hbefore with ⟨hs₀, hi₀⟩
  rcases performAll_inPlace hs₀ hi₀ after hclosed hafter with
    ⟨hs, hgrow, hprogram, hsettings, hi⟩
  rw [hprogram, hsettings, hat₀.program, hlater₀.settings] at hi
  have haccounts := hat.accounts
  refine ⟨moment.attached, haccounts, fun x info node r hx hkind hr => ?_⟩
  -- The projects have only grown since.
  have hx' := (Declared.of_grow hgrow).2 hx
  -- The reference was put right when it was entered.
  have hright := hi.references x info node r hx' hkind hr
  rcases hright.placed with ⟨path, hplaced, hpath⟩
  refine ⟨path, hpath, fun path' => ⟨fun h' => ?_, ?_⟩, fun hne => ?_, fun hspace => ?_⟩
  · exact ((PlacedAt.of_grow hgrow).2 h').unique hplaced
  · rintro rfl
    exact (PlacedAt.of_grow hgrow).1 hplaced
  · -- Only members share a reference, and a member is not placed: the reference is of `x` alone.
    have hmember : program.isEnumMember x = false := by
      rw [Program.isEnumMember_of_symbol? hx.symbol, beq_eq_false_iff_ne]
      intro hmember
      rw [hmember] at hkind
      exact nomatch hkind
    have hsome : r.path.isSome = true := by
      rw [hpath]
      rfl
    rcases hat.exists_attachment ⟨hx.resolved, hmember⟩ hr (hright.kind hne) hsome with
      ⟨a, ha, hsymbol, hreference⟩
    rcases haccounts.placed a ha with ⟨m, hm, hmpath⟩
    refine ⟨a, ha, m, hsymbol, hreference, hm, ?_, ?_⟩
    · rw [hreference, hpath] at hmpath
      exact (Option.some.inj hmpath).symm
    · refine (haccounts.declarations a.handle m hm).mem_iff.2 (List.mem_map.2 ⟨a, ?_, rfl⟩)
      exact List.mem_filter.2 ⟨ha, decide_eq_true rfl⟩
  · -- A namespace is entered together with its module.
    rcases hi.entered x info ⟨hspace, node, hx'⟩ (Registry.contains_of_find? hr) with ⟨h, hfind⟩
    rcases hi.spaces x h hfind with ⟨info', path', hspace', hplaced', hchild⟩
    have hinfo : info' = info := by
      rcases hspace' with ⟨_, node', hx''⟩
      exact Option.some.inj (hx''.symbol.symm.trans hx.symbol)
    subst hinfo
    rw [hplaced'.unique hplaced] at hchild
    rcases hchild.childrenPath hs.trees with ⟨inner, hinner, hinnerpath⟩
    rcases hchild with ⟨outer, m, hm, hmpath, hproject, hfound⟩
    exact ⟨outer, m, h, inner, hm, hmpath, hfind, hproject.symm, hfound, hinner, hinnerpath⟩

/-- In the sample, the class inside the namespace is asked for first. It is attached to the module
    of the namespace, which is where it is placed. -/
theorem places_fixed_sample :
    ∃ s₀ s r, ∃ a : Attachment, ∃ m,
      (start .sample {} 30).performAll Operation.sampleSetup = .ok s₀ ∧
      s₀.performAll [.reference ⟨2⟩] = .ok s ∧ s.state.registry.find? ⟨2⟩ = some r ∧
      r.path = some ["p", "Shapes"] ∧
      PlacedAt .sample ["src", "lib"] s₀.state.projects ⟨2⟩ ["p", "Shapes"] ∧
      s.module? a.handle = some m ∧ m.childrenPath = ["p", "Shapes"] ∧ a.symbol = ⟨2⟩ ∧
      a.declaration ∈ m.declarations := by
  have hrun : ((start .sample {} 30).performAll Operation.sampleSetup).toOption.any (fun s₀ =>
      !Program.sample.isOutside s₀.state.projects ⟨"/p/a.ts"⟩ &&
      (s₀.performAll [.reference ⟨2⟩]).toOption.any fun s =>
        (s.state.registry.find? ⟨2⟩).any fun r => r.path == some ["p", "Shapes"]) = true := by
    decide +kernel
  rcases Outcome.of_any hrun with ⟨s₀, hbefore, hrun⟩
  rw [Bool.and_eq_true, Bool.not_eq_true'] at hrun
  rcases hrun with ⟨hinside, hrun⟩
  rcases Outcome.of_any hrun with ⟨s, hafter, hrun⟩
  rcases (Option.any_eq_true _ _).1 hrun with ⟨r, hr, hpath⟩
  rw [beq_iff_eq] at hpath
  have hbox : Declared .sample s₀.state.projects ⟨2⟩
      { name := "Box", kind := .classType, declarations := [⟨2⟩], parent := some ⟨1⟩ }
      { kind := .classNode [] [] [], file := ⟨"/p/a.ts"⟩ } :=
    ⟨by decide +kernel, by decide +kernel, by decide +kernel, hinside⟩
  rcases places_fixed .sample {} 30 Operation.sampleSetup [.reference ⟨2⟩] s₀ s (by decide)
    (by decide) hbefore hafter with ⟨log, _, hplaces⟩
  rcases hplaces ⟨2⟩ _ _ r hbox rfl hr with ⟨path, hpath', hplaced, hattached, _⟩
  rw [hpath, Option.some.injEq] at hpath'
  subst hpath'
  rcases hattached nofun with ⟨a, _, m, hsymbol, _, hm, hmpath, hmem⟩
  exact ⟨s₀, s, r, a, m, hbefore, hafter, hr, hpath, (hplaced _).2 rfl, hm, hmpath, hsymbol, hmem⟩

end Session

end DocModel
