import DocModel.Proofs.Builds
import DocModel.Proofs.Directories
import DocModel.Proofs.Ledger
import Mathlib.Logic.Relation

/-!
# What an extraction can do to a state

An extraction is a long chain of small changes, and there are few sorts of them. A number goes up or
down, a reference is made, a module is made, a reference is entered for a symbol, something is put
into a module. What an extraction can never do is known once it is known of each sort of change, so
the sorts are listed here, with what holds whenever one of them happens.

Entering a reference comes in four sorts. A symbol that stands for another gets the reference of the
other. A type parameter, a member of an enumeration, a source file and anything from outside get a
reference that has no bearing on modules. A declaration gets the path of the module that owns it,
and a namespace gets a module of its own besides.

The module that owns a declaration is that of the namespace around it. If that namespace has no
module it is that of the file, but only once the namespace has been asked for: by then it has a
reference, unless it can have none.

## Main definitions

* `Grounded`: A state whose module trees are sound, and whose handles lead to modules.
* `Declared`: A symbol that stands for itself and is declared in the analysed sources.
* `Owner`: The module that owns a declaration.
* `Program.Housed`: A member whose enumeration is known, if it can be.
* `Change`, `Changes`: One change of a state, and any number of them.

## Theorems

* `Change.projects`, `Change.grounded`, `Change.contains`: What every change keeps.
* `Change.linked`: Where a symbol that stands for another gets a reference.
* `Changes.projects`, `Changes.grounded`, `Changes.contains`: What any number of changes keeps.
-/

namespace DocModel

/-- A state whose module trees are sound and agree with the names of directories, and whose
    namespaces have modules. -/
structure Grounded (passthrough : List String) (s : State) : Prop where
  trees : Trees s.projects
  located : Located passthrough s.projects
  spaces : ∀ (x : SymbolId) (h : ModuleHandle), s.namespaces.find? x = some h →
    ∃ m, moduleIn s.projects h = some m

/-- A symbol that stands for itself and is declared in the analysed sources. -/
structure Declared (p : Program) (projects : List Project) (x : SymbolId) (info : SymbolInfo)
    (node : NodeInfo) : Prop where
  resolved : p.resolveAlias x = x
  symbol : p.symbol? x = some info
  declaration : p.declarationOf? info = some node
  inside : p.isOutside projects node.file = false

/-- The module that owns a declaration: that of the namespace around it, or that of its file. -/
inductive Owner (p : Program) (passthrough : List String) (s : State) (info : SymbolInfo)
    (node : NodeInfo) (h : ModuleHandle) : Prop
  | space (parent : SymbolId) (hparent : info.parent = some parent)
      (hspace : p.isNamespace parent = true) (hfind : s.namespaces.find? parent = some h)
  | file (hnone : ∀ parent, info.parent = some parent → p.isNamespace parent = true →
        s.namespaces.find? parent = none ∧
          (p.HasReference s.projects parent → s.registry.contains parent = true))
      (hplace : ∃ m, moduleIn s.projects h = some m ∧
        placeIn passthrough s.projects node.file = some m.childrenPath)

/-- An enumeration that lists a member has a reference, or whatever the member is inside of has one
    if it can have one. -/
def Program.Housed (p : Program) (s : State) (x : SymbolId) : Prop :=
  (∃ owner, p.Lists owner x ∧ s.registry.contains owner = true) ∨
    ∀ info parent, p.symbol? x = some info → info.parent = some parent →
      p.HasReference s.projects parent → s.registry.contains parent = true

/-- A member that is housed stays so while references are added and nothing new can have one. -/
theorem Program.Housed.mono {p : Program} {s s' : State} {x : SymbolId} (h : p.Housed s x)
    (hcontains : ∀ y, s.registry.contains y = true → s'.registry.contains y = true)
    (hhas : ∀ y, p.HasReference s'.projects y → p.HasReference s.projects y) : p.Housed s' x := by
  rcases h with ⟨owner, hlists, howner⟩ | h
  · exact Or.inl ⟨owner, hlists, hcontains owner howner⟩
  · exact Or.inr fun info parent hinfo hparent hp =>
      hcontains parent (h info parent hinfo hparent (hhas parent hp))

/-- One change of a state. All types that are put into modules meet `fits`, if members of
    enumerations are inside something that has a reference. -/
inductive Change (p : Program) (passthrough : List String) (fits : Ty → Prop) (s : State) :
    State → Prop
  | depth (d : Nat) : Change p passthrough fits s { s with depth := d }
  | mint (name : String) (kind : ReferenceKind) :
      Change p passthrough fits s { s with registry := (s.registry.mint name kind).2 }
  | utility (name : String) (ref : Reference) :
      Change p passthrough fits s
        { s with stringUtilities := s.stringUtilities.insert name ref }
  | enlarge (i : Nat) (project : Project) (tree : ModuleTree)
      (hp : s.projects[i]? = some project) (he : project.modules.Enlarges tree)
      (hl : tree.Located passthrough project.baseDir) :
      Change p passthrough fits s { s with projects := withTree s.projects i tree }
  | link (x : SymbolId) (ref : Reference) (hx : p.resolveAlias x ≠ x)
      (htarget : s.registry.contains (p.resolveAlias x) = true) :
      Change p passthrough fits s { s with registry := s.registry.insert x ref }
  | enter (x : SymbolId) (info : SymbolInfo) (ref : Reference) (hx : p.symbol? x = some info)
      (hkind : info.kind = .typeParameter ∨ info.kind = .enumMember ∨ info.kind = .sourceFile ∨
        ∃ node, p.declarationOf? info = some node ∧ p.isOutside s.projects node.file = true)
      (hown : p.resolveAlias x = x ∨ info.kind = .enumMember ∧
        ∃ owner, p.Lists owner x ∧ s.registry.contains owner = true) :
      Change p passthrough fits s { s with registry := s.registry.insert x ref }
  | declare (x : SymbolId) (info : SymbolInfo) (node : NodeInfo) (h : ModuleHandle) (m : Module)
      (ref : Reference) (hx : Declared p s.projects x info node)
      (hspace : info.kind ≠ .namespaceScope) (howner : Owner p passthrough s info node h)
      (hm : moduleIn s.projects h = some m) (hpath : ref.path = some m.childrenPath)
      (hkind : ref.kind.isDeclaration = true) :
      Change p passthrough fits s { s with registry := s.registry.insert x ref }
  | space (x : SymbolId) (info : SymbolInfo) (node : NodeInfo) (outer : ModuleHandle) (m : Module)
      (id : ModuleId) (ref : Reference) (hx : Declared p s.projects x info node)
      (hspace : info.kind = .namespaceScope) (howner : Owner p passthrough s info node outer)
      (hm : moduleIn s.projects outer = some m) (hchild : m.modules.find? info.name = some id)
      (hpath : ref.path = some m.childrenPath) :
      Change p passthrough fits s
        { s with registry := s.registry.insert x ref
                 namespaces := s.namespaces.insert x ⟨outer.project, id⟩ }
  | attach (h : ModuleHandle) (project : Project) (m : Module) (d : Declaration)
      (notices : List Notice) (hp : s.projects[h.project]? = some project)
      (hm : project.modules.get? h.module = some m)
      (hd : ∀ t ∈ d.types, fits t) :
      Change p passthrough fits s
        { s with projects := withTree s.projects h.project
                    (project.modules.update h.module (·.addDeclaration d))
                 notices := notices }
  | exports (h : ModuleHandle) (project : Project) (m : Module) (file : String)
      (exports : FileExports) (hp : s.projects[h.project]? = some project)
      (hm : project.modules.get? h.module = some m) :
      Change p passthrough fits s
        { s with projects := withTree s.projects h.project (project.modules.update h.module
                    fun m => { m with exports := m.exports.insert file exports }) }

namespace Change

variable {p : Program} {passthrough : List String} {fits : Ty → Prop} {s s' : State}

/-- Projects stay what they are and their trees grow. -/
theorem projects (h : Change p passthrough fits s s') : ProjectsGrow s.projects s'.projects := by
  cases h with
  | enlarge i project tree hp he => exact grow_withTree s.projects i tree project hp he.grows
  | attach h project m d notices hp =>
      exact grow_withTree s.projects h.project _ project hp
        (ModuleTree.grows_update _ _ _ (ModuleTree.keepsPlace_addDeclaration d))
  | exports h project m file exports hp =>
      exact grow_withTree s.projects h.project _ project hp
        (ModuleTree.grows_update _ _ _ (ModuleTree.keepsPlace_exports file exports))
  | _ => exact ProjectsGrow.refl s.projects

/-- Changing what is in a module keeps trees in order. -/
theorem ground_update (hs : Grounded passthrough s) {h : ModuleHandle} {project : Project}
    (hp : s.projects[h.project]? = some project) {change : Module → Module}
    (hk : ModuleTree.KeepsPlace change) :
    Trees (withTree s.projects h.project (project.modules.update h.module change)) ∧
      Located passthrough
        (withTree s.projects h.project (project.modules.update h.module change)) := by
  have hmem := List.mem_of_getElem? hp
  have hsound := hs.trees.sound project hmem
  -- The change is inside the module, so the tree keeps its shape and its directories.
  have hgrow := ModuleTree.grows_update project.modules h.module change hk
  refine ⟨hs.trees.withTree h.project _ project hp hgrow (hsound.update h.module change hk), ?_⟩
  exact hs.located.withTree hp ((hs.located project hmem).grow hsound hgrow rfl)

/-- A change leaves a state in order. -/
theorem grounded (h : Change p passthrough fits s s') (hs : Grounded passthrough s) :
    Grounded passthrough s' := by
  have hgrow := h.projects
  -- A handle that leads to a module leads to it for ever.
  have hspaces : ∀ (x : SymbolId) (handle : ModuleHandle), s.namespaces.find? x = some handle →
      ∃ m, moduleIn s'.projects handle = some m := by
    intro x handle hx
    rcases hs.spaces x handle hx with ⟨m, hm⟩
    rcases hgrow.moduleIn handle m hm with ⟨m', hm', _⟩
    exact ⟨m', hm'⟩
  cases h with
  | enlarge i project tree hp he hl =>
      exact ⟨hs.trees.withTree i tree project hp he.grows he.sound, hs.located.withTree hp hl,
        hspaces⟩
  | space x info node outer m id ref hx hspace howner hm hchild hpath =>
      refine ⟨hs.trees, hs.located, fun y handle hy => ?_⟩
      -- The new module is a child of one that is there.
      rw [Table.find?_insert] at hy
      by_cases hyx : y = x
      · rw [if_pos hyx, Option.some.injEq] at hy
        rcases Option.bind_eq_some_iff.1 hm with ⟨project, hp, hget⟩
        have hsound := hs.trees.sound project (List.mem_of_getElem? hp)
        rcases hsound.child outer.module m info.name id hget hchild with ⟨m', hm', _⟩
        refine ⟨m', ?_⟩
        rw [← hy, moduleIn, hp, Option.bind_some, hm']
      · rw [if_neg hyx] at hy
        exact hspaces y handle hy
  | attach h project m d notices hp hm hd =>
      have hupdate := ground_update hs hp (ModuleTree.keepsPlace_addDeclaration d)
      exact ⟨hupdate.1, hupdate.2, hspaces⟩
  | exports h project m file exports hp hm =>
      have hupdate := ground_update hs hp (ModuleTree.keepsPlace_exports file exports)
      exact ⟨hupdate.1, hupdate.2, hspaces⟩
  | _ => exact ⟨hs.trees, hs.located, hspaces⟩

/-- A symbol that has a reference keeps having one. -/
theorem contains (h : Change p passthrough fits s s') {x : SymbolId}
    (hx : s.registry.contains x = true) : s'.registry.contains x = true := by
  cases h with
  | link | enter | declare | space => exact (Registry.contains_insert _ _ _ _).2 (Or.inr hx)
  | _ => exact hx

/-- A namespace that has a module keeps having one. -/
theorem containsSpace (h : Change p passthrough fits s s') {x : SymbolId}
    (hx : s.namespaces.contains x = true) : s'.namespaces.contains x = true := by
  cases h with
  | space => exact (Table.contains_insert _ _ _ _).2 (Or.inr hx)
  | _ => exact hx

/-- A symbol that stands for another, and that no enumeration lists as a member, gets a reference
    only if the other has one. -/
theorem linked (h : Change p passthrough fits s s') {x : SymbolId} (hx : p.resolveAlias x ≠ x)
    (hlisted : ∀ owner, p.Lists owner x → p.isEnumMember x = false)
    (hc : s'.registry.contains x = true) :
    s.registry.contains x = true ∨ s.registry.contains (p.resolveAlias x) = true := by
  have hinsert : ∀ {y ref}, (s.registry.insert y ref).contains x = true → y ≠ x →
      s.registry.contains x = true := by
    intro y ref hc hne
    rcases (Registry.contains_insert _ _ _ _).1 hc with rfl | hc
    · exact absurd rfl hne
    · exact hc
  -- Symbols that stand for others are entered by a link, or as listed members.
  cases h with
  | link y ref hy htarget =>
      by_cases hyx : y = x
      · rw [hyx] at htarget
        exact Or.inr htarget
      · exact Or.inl (hinsert hc hyx)
  | enter y info ref hy hkind hown =>
      refine Or.inl (hinsert hc fun hyx => ?_)
      rw [hyx] at hown
      rcases hown with hself | ⟨hmember, owner, howner, _⟩
      · exact hx hself
      · have hother := hlisted owner howner
        rw [← hyx, Program.isEnumMember_of_symbol? hy, hmember] at hother
        cases hother
  | declare y info node h m ref hy =>
      refine Or.inl (hinsert hc fun hyx => ?_)
      rw [hyx] at hy
      exact hx hy.resolved
  | space y info node outer m id ref hy =>
      refine Or.inl (hinsert hc fun hyx => ?_)
      rw [hyx] at hy
      exact hx hy.resolved
  | _ => exact Or.inl hc

end Change

/-- Any number of changes of a state. -/
def Changes (p : Program) (passthrough : List String) (fits : Ty → Prop) : State → State → Prop :=
  Relation.ReflTransGen (Change p passthrough fits)

namespace Changes

variable {p : Program} {passthrough : List String} {fits : Ty → Prop} {s s' s'' : State}

theorem refl (s : State) : Changes p passthrough fits s s := Relation.ReflTransGen.refl

theorem one (h : Change p passthrough fits s s') : Changes p passthrough fits s s' :=
  Relation.ReflTransGen.single h

theorem trans (h : Changes p passthrough fits s s') (h' : Changes p passthrough fits s' s'') :
    Changes p passthrough fits s s'' := Relation.ReflTransGen.trans h h'

/-- What holds of a state and is kept by every change holds after any number of them. -/
theorem induct (inv : State → Prop)
    (hstep : ∀ s s', Change p passthrough fits s s' → inv s → inv s')
    (h : Changes p passthrough fits s s') (hs : inv s) : inv s' := by
  induction h with
  | refl => exact hs
  | tail _ hc ih => exact hstep _ _ hc ih

/-- Projects stay what they are over any number of changes. -/
theorem projects (h : Changes p passthrough fits s s') : ProjectsGrow s.projects s'.projects :=
  h.induct (fun t => ProjectsGrow s.projects t.projects) (fun _ _ hc hg => hg.trans hc.projects)
    (ProjectsGrow.refl s.projects)

/-- Any number of changes leave a state in order. -/
theorem grounded (h : Changes p passthrough fits s s') (hs : Grounded passthrough s) :
    Grounded passthrough s' :=
  h.induct _ (fun _ _ hc hi => hc.grounded hi) hs

theorem contains (h : Changes p passthrough fits s s') {x : SymbolId}
    (hx : s.registry.contains x = true) : s'.registry.contains x = true :=
  h.induct (fun t => t.registry.contains x = true) (fun _ _ hc hi => hc.contains hi) hx

theorem containsSpace (h : Changes p passthrough fits s s') {x : SymbolId}
    (hx : s.namespaces.contains x = true) : s'.namespaces.contains x = true :=
  h.induct (fun t => t.namespaces.contains x = true) (fun _ _ hc hi => hc.containsSpace hi) hx

/-- Members that are housed stay so. -/
theorem housed (h : Changes p passthrough fits s s') {x : SymbolId} (hx : p.Housed s x) :
    p.Housed s' x :=
  hx.mono (fun _ => h.contains) fun y => (Program.HasReference.grow h.projects y).1

/-- A symbol that stands for another gets a reference only if the other has one in the end. -/
theorem linked (h : Changes p passthrough fits s s') {x : SymbolId} (hx : p.resolveAlias x ≠ x)
    (hlisted : ∀ owner, p.Lists owner x → p.isEnumMember x = false)
    (hc : s'.registry.contains x = true) :
    s.registry.contains x = true ∨ s'.registry.contains (p.resolveAlias x) = true := by
  refine h.induct (fun t => t.registry.contains x = true → s.registry.contains x = true ∨
    t.registry.contains (p.resolveAlias x) = true) (fun t t' hchange hi hc => ?_) Or.inl hc
  -- A target that has a reference keeps it, so the last change decides.
  rcases hchange.linked hx hlisted hc with hbefore | htarget
  · exact (hi hbefore).imp_right hchange.contains
  · exact Or.inr (hchange.contains htarget)

end Changes

end DocModel
