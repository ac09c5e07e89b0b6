import DocModel.Proofs.Orderly
import DocModel.Proofs.Registration

/-!
# Locations of declarations

A declaration is put where it belongs, and says where it comes from. The two are decided apart. The
module is that of the namespace around the declaration if the namespace has one, which is looked up
in a table of the session. The file is left out of the location if what is around the declaration is
a namespace, which is read off the program.

Where the table has every namespace that something stands in, the two agree: a declaration leaves
its file out exactly if it stands in the module of a namespace. But a namespace can be without a
module. It may be declared outside of the analysed sources, or not at all, while what it contains is
declared inside. What it contains is then put into the module of its file and does not say which
file that is. These are the only declarations of that sort.

## Main definitions

* `State.SpacesOnly`: All modules in the table of a state stand for namespaces.
* `Program.scattered`: Three types, inside a namespace, outside of any, and inside a namespace of
  another library.

## Theorems

* `Attachment.AtHome.file_eq_none_iff`: Which declarations leave their file out.
* `Session.performAll_spacesOnly`: Only namespaces have modules of their own.
* `Session.locations_follow_placement`: Where declarations stand, and what they say of their files.
* `Session.location_without_file`: A declaration in the module of its file does not name the file.
-/

namespace DocModel

/-- All modules in the table of a state stand for namespaces. -/
def State.SpacesOnly (p : Program) (s : State) : Prop :=
  ∀ x handle, s.namespaces.find? x = some handle → p.isNamespace x = true

/-- Only a namespace gets a module of its own. -/
theorem Change.spacesOnly {p : Program} {passthrough : List String} {fits : Ty → Prop}
    {s s' : State} (h : Change p passthrough fits s s') (hs : s.SpacesOnly p) :
    s'.SpacesOnly p := by
  cases h with
  | space x info node outer m id ref hx hspace =>
      intro y handle hy
      rw [Table.find?_insert] at hy
      -- The new entry is that of a namespace.
      by_cases hyx : y = x
      · rw [hyx, Program.isNamespace, hx.symbol, Option.any_some, hspace]
        rfl
      · rw [if_neg hyx] at hy
        exact hs y handle hy
  | _ => exact hs

/-- The module that a declaration stands in is the one in the table for what is around it, or there
    is none in the table and it is the one of its file. -/
theorem Home.cases {p : Program} {s : State} (hs : s.SpacesOnly p) {info : SymbolInfo}
    {node : NodeInfo} {h : ModuleHandle} (hh : Home p s info node h) :
    (∃ parent, info.parent = some parent ∧ s.namespaces.find? parent = some h) ∨
      (∀ parent, info.parent = some parent → s.namespaces.find? parent = none) ∧
        ServesFile s.projects node.file h := by
  cases hh with
  | space parent hparent _ hfind => exact Or.inl ⟨parent, hparent, hfind⟩
  | file hnone hserves =>
      refine Or.inr ⟨fun parent hparent => ?_, hserves⟩
      cases hfind : s.namespaces.find? parent with
      | none => rfl
      | some handle =>
          rw [(hnone parent hparent (hs parent handle hfind)).1] at hfind
          cases hfind

/-- A declaration leaves its file out if it stands in the module of a namespace, or if it is inside
    a namespace that has no module. -/
theorem Attachment.AtHome.file_eq_none_iff {p : Program} {s : State} (hs : s.SpacesOnly p)
    {a : Attachment} {info : SymbolInfo} {node : NodeInfo} (h : a.AtHome p s info node) :
    a.declaration.loc.file = none ↔
      (∃ parent, info.parent = some parent ∧ s.namespaces.find? parent = some a.handle) ∨
      ∃ parent, info.parent = some parent ∧ p.isNamespace parent = true ∧
        s.namespaces.find? parent = none := by
  -- Inside a namespace no file is named, with a module or without.
  have hinside : ∀ parent, info.parent = some parent → p.isNamespace parent = true →
      a.declaration.loc.file = none := by
    intro parent hparent hspace
    refine h.inside ?_
    rw [Program.isInNamespace, hparent, Option.any_some, hspace]
  constructor
  · intro hnone
    cases hin : p.isInNamespace info with
    | false =>
        rcases h.outside hin with ⟨_, _, _, _, hfile⟩
        rw [hnone] at hfile
        cases hfile
    | true =>
        rcases (Option.any_eq_true _ _).1 hin with ⟨parent, hparent, hspace⟩
        exact (h.home.cases hs).imp_right fun hcase =>
          ⟨parent, hparent, hspace, hcase.1 parent hparent⟩
  · rintro (⟨parent, hparent, hfind⟩ | ⟨parent, hparent, hspace, _⟩)
    · exact hinside parent hparent (hs parent a.handle hfind)
    · exact hinside parent hparent hspace

/-- A declaration that names its file gives the path below the root of the project that it is in. -/
theorem Attachment.AtHome.file_cases {p : Program} {s : State} {a : Attachment} {info : SymbolInfo}
    {node : NodeInfo} (h : a.AtHome p s info node) {project : Project}
    (hp : s.projects[a.handle.project]? = some project) :
    a.declaration.loc.file = none ∨ ∃ below, node.file.relativeTo? project.baseDir = some below ∧
      a.declaration.loc.file = some (Text.joinWith "/" below.names) := by
  cases hin : p.isInNamespace info with
  | true => exact Or.inl (h.inside hin)
  | false =>
      rcases h.outside hin with ⟨project', below, hp', hbelow, hfile⟩
      rw [← Option.some.inj (hp.symm.trans hp')] at hbelow
      exact Or.inr ⟨below, hbelow, hfile⟩

namespace Session

/-- After any run, all modules in the table stand for namespaces. -/
theorem performAll_spacesOnly (program : Program) (settings : Settings) (steps : Nat)
    (ops : List Operation) (s : Session)
    (hops : (start program settings steps).performAll ops = .ok s) :
    s.state.SpacesOnly program := by
  refine (performAll_induct (fun s => s.context.program = program ∧ s.state.SpacesOnly program)
    (fun s₁ s₂ _ hmoves hinv => ?_) (Ty.law_true _) (grounded_start program settings steps)
    ⟨rfl, fun _ _ h => absurd h (by simp only [start, Table.find?_empty, reduceCtorEq,
      not_false_eq_true])⟩ ops hops).2.2
  refine ⟨hmoves.program.trans hinv.1, ?_⟩
  rcases hmoves.state with hfrom | ⟨project, _, heq⟩
  · -- Asking changes the table one entry at a time.
    refine hfrom.changes.induct (State.SpacesOnly program) (fun t t' hc ht => ?_) hinv.2
    rw [hinv.1] at hc
    exact hc.spacesOnly ht
  · rw [heq]
    exact hinv.2

/-- After any run that comes to an end, a declaration stands in the module that the table has for
    what is around it; or the table has none, and it stands in the module that the directories of
    its file lead to. It names no file, or the path of its file below the root of that project. And
    it names none in two cases only: if it stands in the module of what is around it, and if it is
    inside a namespace for which the table has no module. -/
theorem locations_follow_placement (program : Program) (settings : Settings) (steps : Nat)
    (ops : List Operation) (s : Session)
    (hops : (start program settings steps).performAll ops = .ok s) :
    ∃ log : List Attachment, s.Accounts log ∧ ∀ a ∈ log, ∃ info node project module,
      program.symbol? a.symbol = some info ∧ program.declarationOf? info = some node ∧
      s.state.projects[a.handle.project]? = some project ∧ s.module? a.handle = some module ∧
      ((∃ parent, info.parent = some parent ∧ s.state.namespaces.find? parent = some a.handle) ∨
        (∀ parent, info.parent = some parent → s.state.namespaces.find? parent = none) ∧
          module.childrenPath = project.name ::
            moduleNames settings.passthroughModules project.baseDir node.file) ∧
      (a.declaration.loc.file = none ∨
        ∃ below, node.file.relativeTo? project.baseDir = some below ∧
          a.declaration.loc.file = some (Text.joinWith "/" below.names)) ∧
      (a.declaration.loc.file = none ↔
        (∃ parent, info.parent = some parent ∧ s.state.namespaces.find? parent = some a.handle) ∨
        ∃ parent, info.parent = some parent ∧ program.isNamespace parent = true ∧
          s.state.namespaces.find? parent = none) := by
  rcases performAll_isAt (isAt_start program settings steps) ops hops with ⟨m, hat, hlater⟩
  have hspaces := performAll_spacesOnly program settings steps ops s hops
  have hgrounded := performAll_grounded program settings steps ops s hops
  refine ⟨m.attached, hat.accounts, fun a ha => ?_⟩
  -- Nothing was attached at the start, so all of it came to its place in the run.
  rcases (hlater.homes a ha).resolve_left List.not_mem_nil with ⟨info, node, hhome⟩
  rw [hat.state] at hhome
  -- The module is there, in the project that the declaration went to.
  rcases hat.accounts.placed a ha with ⟨module, hmodule, _⟩
  rcases Option.bind_eq_some_iff.1 hmodule with ⟨project, hp, hget⟩
  refine ⟨info, node, project, module, hhome.symbol, hhome.declaration, hp, hmodule, ?_,
    hhome.file_cases hp, hhome.file_eq_none_iff hspaces⟩
  refine (hhome.home.cases hspaces).imp_right fun hcase => ⟨hcase.1, ?_⟩
  rcases hcase.2 with ⟨project', module', hp', hget', _, hpath⟩
  -- The tree passes through the directories that the settings name.
  have hpassed := (hgrounded.located project (List.mem_of_getElem? hp)).passed
  rw [hlater.settings] at hpassed
  rw [← Option.some.inj (hp.symm.trans hp')] at hget' hpath
  rw [Option.some.inj (hget.symm.trans hget'), hpath, hpassed]
  rfl

end Session

/-- Three types of one file: one inside a namespace, one outside of any, and one inside a namespace
    of another library. -/
def Program.scattered : Program where
  symbols := #[
    { info := { name := "a", kind := .sourceFile, declarations := [⟨0⟩] }
      exports := [⟨1⟩, ⟨3⟩, ⟨5⟩] },
    { info := { name := "Inner", kind := .namespaceScope, declarations := [⟨1⟩] }
      exports := [⟨2⟩] },
    { info := { name := "Held", kind := .typeAlias, declarations := [⟨2⟩], parent := some ⟨1⟩ }
      declaredType := some ⟨0⟩ },
    { info := { name := "Free", kind := .typeAlias, declarations := [⟨3⟩] }
      declaredType := some ⟨0⟩ },
    { info := { name := "Outer", kind := .namespaceScope, declarations := [⟨4⟩] }
      exports := [⟨5⟩] },
    { info := { name := "Adrift", kind := .typeAlias, declarations := [⟨5⟩], parent := some ⟨4⟩ }
      declaredType := some ⟨0⟩ }]
  nodes := #[
    { kind := .sourceFile, file := ⟨"/p/kinds/a.ts"⟩ },
    { kind := .namespaceScope, file := ⟨"/p/kinds/a.ts"⟩ },
    { kind := .typeAlias [] none, file := ⟨"/p/kinds/a.ts"⟩ },
    { kind := .typeAlias [] none, file := ⟨"/p/kinds/a.ts"⟩ },
    { kind := .namespaceScope, file := ⟨"/lib/index.d.ts"⟩ },
    { kind := .typeAlias [] none, file := ⟨"/p/kinds/a.ts"⟩ }]
  types := #[{ info := { form := .intrinsic .string } }]
  files := Table.insert ∅ ⟨"/p/kinds/a.ts"⟩ ⟨0⟩

namespace Session

/-- The exports of the scattered program are extracted. -/
def scatteredRun : Outcome Session :=
  (start .scattered {} 30).performAll [.addProject { name := "p", root := ⟨"/p"⟩ }, .extract]

/-- If the number of a declared symbol belongs to no other symbol, something is attached for it. -/
theorem Accounts.exists_of_number {s : Session} {log : List Attachment} (h : s.Accounts log)
    {x : SymbolId} {r : Reference} (hx : s.state.registry.find? x = some r)
    (hkind : r.kind.isDeclaration = true) (hpath : r.path.isSome = true)
    (halone : ∀ i < s.context.program.symbols.size, ∀ r',
      s.state.registry.find? ⟨i⟩ = some r' → r'.id = r.id → ⟨i⟩ = x) : ∃ a ∈ log, a.symbol = x := by
  -- Something is attached with this number, and it belongs to no other symbol.
  rcases List.mem_map.1 ((h.mem_ids r.id).2 ⟨x, r, hx, rfl, hkind, hpath⟩) with ⟨a, ha, hid⟩
  rcases h.inside a ha with ⟨info, _, hinfo, _⟩
  exact ⟨a, ha, halone a.symbol.index (Program.mem_numbered_of_symbol? _ hinfo) a.reference
    (h.fits a ha).2.2 hid⟩

/-- The type inside the namespace stands in the module of the namespace and names no file. The one
    outside names its file. -/
theorem locations_follow_placement_scattered :
    ∃ s log held free, scatteredRun = .ok s ∧ s.Accounts log ∧
      (held ∈ log ∧ held.symbol = ⟨2⟩ ∧ s.state.namespaces.find? ⟨1⟩ = some held.handle ∧
        held.declaration.loc.file = none) ∧
      free ∈ log ∧ free.symbol = ⟨3⟩ ∧ free.declaration.loc.file = some "kinds/a.ts" := by
  have hrun : scatteredRun.toOption.any (fun s =>
      [⟨2⟩, ⟨3⟩].all (fun x => (s.state.registry.find? x).any fun r =>
        r.kind.isDeclaration && r.path.isSome &&
        (List.range s.context.program.symbols.size).all fun i =>
          (s.state.registry.find? ⟨i⟩).all fun r' => decide (r'.id = r.id → ⟨i⟩ = x)) &&
      s.state.namespaces.contains ⟨1⟩ &&
      s.state.projects.all fun project => project.baseDir == ⟨"/p"⟩) = true := by
    decide +kernel
  rcases Outcome.of_any hrun with ⟨s, hs, hany⟩
  simp only [Bool.and_eq_true] at hany
  rcases hany with ⟨⟨hentered, hspace⟩, hbase⟩
  rcases (Table.contains_iff _ _).1 hspace with ⟨inner, hinner⟩
  rcases locations_follow_placement .scattered {} 30 _ s hs with ⟨log, hlog, hall⟩
  have hfind : ∀ x ∈ [(⟨2⟩ : SymbolId), ⟨3⟩], ∃ a ∈ log, a.symbol = x := by
    intro x hx
    rcases (Option.any_eq_true _ _).1 (List.all_eq_true.1 hentered x hx) with ⟨r, hr, hfacts⟩
    simp only [Bool.and_eq_true, List.all_eq_true, List.mem_range, Option.all_eq_true,
      decide_eq_true_eq] at hfacts
    exact hlog.exists_of_number hr hfacts.1.1 hfacts.1.2 hfacts.2
  rcases hfind ⟨2⟩ (by decide) with ⟨held, hheld, hheldx⟩
  rcases hfind ⟨3⟩ (by decide) with ⟨free, hfree, hfreex⟩
  rcases hall held hheld with ⟨info, _, _, _, hinfo, _, _, _, hplace, _, hnone⟩
  rcases hall free hfree with ⟨info', node, project, _, hinfo', hnode, hp, _, _, hfile, hnone'⟩
  have hparent : info.parent = some ⟨1⟩ := by
    have h : (Program.scattered.symbol? ⟨2⟩).bind (·.parent) = some ⟨1⟩ := rfl
    rwa [← hheldx, hinfo, Option.bind_some] at h
  have hparent' : info'.parent = none := by
    have h : (Program.scattered.symbol? ⟨3⟩).bind (·.parent) = none := rfl
    rwa [← hfreex, hinfo', Option.bind_some] at h
  have hnode' : node.file = ⟨"/p/kinds/a.ts"⟩ := by
    have h : ((Program.scattered.symbol? ⟨3⟩).bind Program.scattered.declarationOf?).map
      NodeInfo.file = some ⟨"/p/kinds/a.ts"⟩ := rfl
    rw [← hfreex, hinfo', Option.bind_some, hnode, Option.map_some] at h
    exact Option.some.inj h
  have hroot : project.baseDir = ⟨"/p"⟩ :=
    beq_iff_eq.1 (List.all_eq_true.1 hbase project (List.mem_of_getElem? hp))
  -- The namespace has a module, so the type is not left to the module of its file.
  have hhandle : s.state.namespaces.find? ⟨1⟩ = some held.handle := by
    rcases hplace with ⟨parent, hp', hfind⟩ | ⟨hno, _⟩
    · rwa [← Option.some.inj (hparent.symm.trans hp')] at hfind
    · rw [hno ⟨1⟩ hparent] at hinner
      cases hinner
  refine ⟨s, log, held, free, hs, hlog,
    ⟨hheld, hheldx, hhandle, hnone.2 (Or.inl ⟨⟨1⟩, hparent, hhandle⟩)⟩, hfree, hfreex, ?_⟩
  rcases hfile with hfile | ⟨below, hbelow, hfile⟩
  · -- Nothing is around the type, so it cannot leave its file out.
    rcases hnone'.1 hfile with ⟨parent, hp', _⟩ | ⟨parent, hp', _⟩ <;>
      cases hparent'.symm.trans hp'
  · have h : ((⟨"/p/kinds/a.ts"⟩ : Path).relativeTo? ⟨"/p"⟩).map
      (fun below => Text.joinWith "/" below.names) = some "kinds/a.ts" := by decide +kernel
    rw [← hnode', ← hroot, hbelow, Option.map_some] at h
    rw [hfile, h]

/-- The type inside the namespace of the other library stands in the module of its file, as there
    is none for the namespace. It does not name the file. -/
theorem location_without_file :
    ∃ s module declaration, scatteredRun = .ok s ∧
      (Program.scattered.symbol? ⟨5⟩).bind (·.parent) = some ⟨4⟩ ∧
      s.state.namespaces.find? ⟨4⟩ = none ∧ s.module? ⟨0, ⟨1⟩⟩ = some module ∧
      module.childrenPath = ["p", "kinds"] ∧ declaration ∈ module.declarations ∧
      declaration.name = "Adrift" ∧ declaration.loc.file = none := by
  have hrun : scatteredRun.toOption.any (fun s => s.state.namespaces.find? ⟨4⟩ == none &&
      (s.module? ⟨0, ⟨1⟩⟩).any fun module => module.childrenPath == ["p", "kinds"] &&
        module.declarations.any fun declaration =>
          declaration.name == "Adrift" && declaration.loc.file == none) = true := by
    decide +kernel
  rcases Outcome.of_any hrun with ⟨s, hs, hany⟩
  rw [Bool.and_eq_true, beq_iff_eq] at hany
  rcases (Option.any_eq_true _ _).1 hany.2 with ⟨module, hmodule, hfacts⟩
  rw [Bool.and_eq_true, beq_iff_eq, List.any_eq_true] at hfacts
  rcases hfacts with ⟨hpath, declaration, hmem, hfacts⟩
  rw [Bool.and_eq_true, beq_iff_eq, beq_iff_eq] at hfacts
  exact ⟨s, module, declaration, hs, rfl, hany.1, hmodule, hpath, hmem, hfacts⟩

end Session

end DocModel
