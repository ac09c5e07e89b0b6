import DocModel.Proofs.Orderly

/-!
# Where names that are passed on come from

A file passes on names of other files, in groups. A group has the path of a file, relative to the
root of its project, and the module of that file. Names are put into the group that has the path of
the file they are declared in, and a group is opened where there is none.

So the path of a group is right for everything in it. The module is that of the file for which the
group was opened, and the two are not the same: a path that is relative to the root of a project
does not tell the project. If files of two projects have the same path, then what comes from either
of them ends up in one group, under the module of the one that came first. Where a file is the only
one with its path, its group is all its own.

## Main definitions

* `Passed`: A name that is passed on, with the file it is declared in.
* `Context.PassesOn`: What is known of it.
* `Context.OnlyFile`: A file is the only one with its path.
* `Program.twins`: Two projects with files of the same path.

## Theorems

* `Context.forall_changeIn`: What is kept by a change to one group is kept by all.
* `Context.groups_exportsUntil`: What groups hold, as far as exports were looked at.
* `Session.groups_keep_origin`: Groups are right wherever their paths tell files apart.
* `Session.twins_share_group`: Files of two projects share a group.
-/

namespace DocModel

/-- Growth changes nothing about the paths of files. -/
theorem relativeFile?_of_grow {s s' : State} (ht : Trees s.projects)
    (hg : ProjectsGrow s.projects s'.projects) (file : Path) :
    s'.relativeFile? file = s.relativeFile? file := by
  unfold State.relativeFile?
  rw [projectFor?_congr s s' hg.baseDirs]
  cases hi : s.projectFor? file with
  | none => rfl
  | some i =>
      have hp := List.getElem?_eq_getElem (projectFor?_lt s file i hi)
      rcases hg.project i _ hp with ⟨project', hp', hgrow⟩
      rcases (ht.sound _ (List.mem_of_getElem? hp)).root with ⟨root, hroot, _⟩
      -- The root of the tree keeps its directory.
      rcases hgrow.modules.modules ModuleTree.rootId root hroot with ⟨root', hroot', hrg⟩
      have hroot'' : project'.modules.root? = some root' := hroot'
      simp only [Option.bind_eq_bind, Option.bind_some, hp, hp', ModuleTree.relativePath?, hroot,
        hroot'', hrg.baseDir]

/-- Where a file belongs depends on its components alone. -/
theorem placeIn_of_same (passthrough : List String) (projects : List Project) {file file' : Path}
    (h : file.same file' = true) :
    placeIn passthrough projects file = placeIn passthrough projects file' := by
  -- Project and directories are read off the components.
  have hcomponents : file.components = file'.components := beq_iff_eq.1 h
  unfold placeIn State.projectFor? moduleNames Path.directoriesBelow Path.startsWith
  rw [hcomponents]

/-- Whatever the action gives from a state is as stated. -/
def Yields {α : Type} (s : State) (t : Trail) (act : Action α) (ok : α → Prop) : Prop :=
  ∀ a s' t', act s t = .ok ((a, s'), t') → ok a

theorem Keeps.yields {α : Type} {K : State → Prop} {act : Action α} {ok : α → Prop} {s : State}
    (h : Keeps K act ok) (hs : K s) (t : Trail) : Yields s t act ok :=
  fun _ _ _ hrun => h.result hs hrun

/-- A name that is passed on: the symbol that stands for another, the file in which the other is
    declared, and the reference under which it is exported. -/
structure Passed where
  symbol : SymbolId
  origin : Path
  exported : ExportedReference

namespace Context

/-- The exports of a file, as far as the given symbols. -/
def exportsUntil (ctx : Context) (owner : ModuleHandle) (file : Path) (fileSymbol : SymbolId)
    (symbols : List SymbolId) : Action FileExports := do
  let exports ← (ctx.program.wildcardExports fileSymbol).foldlM (fun exports w =>
    (ctx.symbolFile? w.target).elim (pure exports) fun target =>
      ctx.addWildcard owner exports target w.spaceName) {}
  symbols.foldlM (ctx.addExport owner file) exports

/-- The exports of a file are those up to the last of its symbols. -/
theorem trackExports_eq (ctx : Context) (owner : ModuleHandle) {file : Path}
    {fileSymbol : SymbolId} (h : ctx.program.fileSymbol? file = some fileSymbol) :
    ctx.trackExports owner file =
      ctx.exportsUntil owner file fileSymbol (ctx.program.exportsOf fileSymbol) := by
  unfold trackExports exportsUntil
  simp only [h]
  congr 2
  funext exports w
  cases ctx.symbolFile? w.target <;> rfl

/-- One more symbol is looked at where those before it have led. -/
theorem exportsUntil_append_singleton (ctx : Context) (owner : ModuleHandle) (file : Path)
    (fileSymbol : SymbolId) (symbols : List SymbolId) (x : SymbolId) :
    ctx.exportsUntil owner file fileSymbol (symbols ++ [x]) =
      ctx.exportsUntil owner file fileSymbol symbols >>= fun exports =>
        ctx.addExport owner file exports x := by
  unfold exportsUntil
  simp only [List.foldlM_append, List.foldlM_cons, List.foldlM_nil, bind_assoc, bind_pure]

/-- What is known of a name that is passed on by a file: a symbol among the exports of the file
    stands for another, which is declared in another file, and the reference is what was given for
    the other when it was the turn of the symbol. -/
structure PassesOn (ctx : Context) (s : State) (t : Trail) (owner : ModuleHandle) (file : Path)
    (fileSymbol : SymbolId) (x : Passed) : Prop where
  link : ∃ info, ctx.program.symbol? x.symbol = some info ∧ info.kind = .link ∧
    x.exported = exportedAs info.name x.exported.reference
  origin : ctx.symbolFile? (ctx.program.resolveAlias x.symbol) = some x.origin
  other : x.origin.same file = false
  turn : ∃ before after exports s₁ t₁ s₂ t₂,
    ctx.program.exportsOf fileSymbol = before ++ x.symbol :: after ∧
    ctx.exportsUntil owner file fileSymbol before s t = .ok ((exports, s₁), t₁) ∧
    ctx.referenceOf (ctx.program.resolveAlias x.symbol) s₁ t₁ =
      .ok ((some x.exported.reference, s₂), t₂)

/-- A file of the analysed sources in which something is declared has the given path. -/
structure ComesFrom (ctx : Context) (s : State) (path : String) (file : Path) : Prop where
  declares : ∃ x, ctx.symbolFile? x = some file
  inside : ctx.isExternalFile s file = false
  relative : s.relativeFile? file = some path

/-- No other file of the analysed sources in which something is declared has the same path. -/
def OnlyFile (ctx : Context) (s : State) (file : Path) : Prop :=
  ∀ x other, ctx.symbolFile? x = some other → ctx.isExternalFile s other = false →
    s.relativeFile? other = s.relativeFile? file → other.same file = true

/-- What is known of a group: it was opened for a file, and everything in it was passed on from
    files with the same path. -/
structure GroupOf (ctx : Context) (s : State) (tie : Passed → Prop) (g : ReExport) : Prop where
  opened : ∃ file, ctx.ComesFrom s g.file file ∧
    placeIn ctx.settings.passthroughModules s.projects file = some g.module
  passed : ∃ log : List Passed, log.map (·.exported) = g.references ∧
    ∀ x ∈ log, tie x ∧ ctx.ComesFrom s g.file x.origin

/-- What holds of all groups holds after one of them was changed, or opened and changed, if it holds
    of the new group and the change keeps it for the path in question. -/
theorem forall_changeIn {P : ReExport → Prop} {groups : List ReExport} {fresh : ReExport}
    {change : ReExport → ReExport} (hold : ∀ g ∈ groups, P g) (hfresh : P fresh)
    (hchange : ∀ g, P g → g.file = fresh.file → P (change g)) :
    ∀ g ∈ changeIn groups fresh change, P g := by
  induction groups with
  | nil =>
      intro g hg
      rw [List.mem_singleton.1 hg]
      exact hchange fresh hfresh rfl
  | cons g' rest ih =>
      intro g hg
      unfold changeIn at hg
      split at hg
      · rename_i hkey
        rcases List.mem_cons.1 hg with rfl | hg
        · exact hchange g' (hold g' List.mem_cons_self) hkey.1
        · exact hold g (List.mem_cons_of_mem _ hg)
      · rcases List.mem_cons.1 hg with rfl | hg
        · exact hold g List.mem_cons_self
        · exact ih (fun g hg => hold g (List.mem_cons_of_mem _ hg)) g hg

section

variable {ctx : Context} {law : Nat → Ty → Prop} {s : State} (hs : ctx.Grounded s) {d : Nat}
  {tie : Passed → Prop} (hl : Ty.Law ctx.settings.maxTypeDepth law)

include hs hl

/-- Changing the group of a file keeps what is known of groups, if the change does. -/
theorem groups_changeGroup? (owner : ModuleHandle) (exports : FileExports) (target : Path)
    (spaceName : Option String) (change : ReExport → ReExport)
    (hexports : ∀ g ∈ exports.reexports, ctx.GroupOf s tie g)
    (hdeclares : ∃ x, ctx.symbolFile? x = some target)
    (hchange : ∀ g, ctx.GroupOf s tie g → ctx.ComesFrom s g.file target →
      ctx.GroupOf s tie (change g)) :
    Keeps (ctx.From law s d) (ctx.changeGroup? owner exports target spaceName change)
      fun o => ∀ e ∈ o.toList, ∀ g ∈ e.reexports, ctx.GroupOf s tie g := by
  refine .of_state fun s₁ t o s' t' h₁ hrun =>
    ⟨((explores hl hs d).changeGroup? owner exports target spaceName change).state h₁ hrun, ?_⟩
  intro e he
  rw [Option.mem_toList] at he
  subst he
  unfold changeGroup? at hrun
  rw [Action.get_bind] at hrun
  by_cases hout : ctx.isExternalFile s₁ target = true
  · rw [if_pos hout] at hrun
    exact nomatch (Action.pure_eq_ok hrun).1
  · rw [if_neg hout] at hrun
    rcases Action.bind_eq_ok hrun with ⟨o, s₂, t₂, hresolve, hrun⟩
    rcases From.resolveModule? law (h₁.grounded hs) hresolve with ⟨h₂, _, _, _, hfound⟩
    cases o with
    | none => exact nomatch (Action.pure_eq_ok hrun).1
    | some handle =>
        simp only [Action.get_bind] at hrun
        cases hrelative : s₂.relativeFile? target with
        | none =>
            simp only [hrelative] at hrun
            exact nomatch (Action.pure_eq_ok hrun).1
        | some relative =>
            cases hmodule : s₂.module? handle with
            | none =>
                simp only [hrelative, hmodule] at hrun
                exact nomatch (Action.pure_eq_ok hrun).1
            | some module =>
                simp only [hrelative, hmodule] at hrun
                rw [← Option.some.inj (Action.pure_eq_ok hrun).1]
                -- Nothing that was read depends on how far projects have grown.
                have hgrow := (h₁.after h₂).changes.projects
                rw [relativeFile?_of_grow hs.trees hgrow] at hrelative
                rcases hfound handle rfl with ⟨m, hm, hplace⟩
                have hmm : module = m := Option.some.inj (hmodule.symm.trans hm)
                rw [placeIn_of_grow _ hgrow, ← hmm] at hplace
                have hinside : ctx.isExternalFile s target = false := by
                  have hsame := isOutside_of_grow ctx.program h₁.changes.projects target
                  exact hsame.symm.trans (Bool.eq_false_iff.2 hout)
                refine forall_changeIn hexports ⟨⟨target, ⟨hdeclares, hinside, hrelative⟩, hplace⟩,
                  [], rfl, List.forall_mem_nil _⟩ fun g hg hfile => ?_
                exact hchange g hg ⟨hdeclares, hinside, by rw [hrelative, hfile]⟩

/-- A mark is put on the group of a file, and nothing is passed on. -/
theorem groups_addWildcard (owner : ModuleHandle) (exports : FileExports) (target : Path)
    (spaceName : Option String) (hexports : ∀ g ∈ exports.reexports, ctx.GroupOf s tie g)
    (hdeclares : ∃ x, ctx.symbolFile? x = some target) :
    Keeps (ctx.From law s d) (ctx.addWildcard owner exports target spaceName)
      fun e => ∀ g ∈ e.reexports, ctx.GroupOf s tie g := by
  refine (groups_changeGroup? hs hl owner exports target spaceName
    (fun g => { g with wildcard := true }) hexports hdeclares
    fun g hg _ => ⟨hg.opened, hg.passed⟩).bindState fun o ho => Keeps.pure ?_
  cases o with
  | none => exact hexports
  | some e => exact ho e (List.mem_singleton_self e)

/-- An export of the file's own is in no group. -/
theorem groups_addDirect (exports : FileExports) (x : SymbolId) (name : String)
    (hexports : ∀ g ∈ exports.reexports, ctx.GroupOf s tie g) :
    Keeps (ctx.From law s d) (ctx.addDirect exports x name)
      fun e => ∀ g ∈ e.reexports, ctx.GroupOf s tie g := by
  refine ((explores hl hs d).referenceOf x).andThen fun o => ?_
  cases o with
  | none => exact Keeps.pure hexports
  | some ref => exact Keeps.pure hexports

section

variable {owner : ModuleHandle} {file : Path} {exports : FileExports} {x : SymbolId}
  {name : String} {s₁ : State} {t : Trail}
  (hexports : ∀ g ∈ exports.reexports, ctx.GroupOf s tie g) (h₁ : ctx.From law s d s₁)

include hexports h₁

/-- A name that is passed on is put into the group of its file. -/
theorem groups_addPassedOn? {origin : Path}
    (horigin : ctx.symbolFile? (ctx.program.resolveAlias x) = some origin)
    (htie : ∀ r s₂ t₂, ctx.referenceOf (ctx.program.resolveAlias x) s₁ t =
      .ok ((some r, s₂), t₂) → tie ⟨x, origin, exportedAs name r⟩) :
    Yields s₁ t (ctx.addPassedOn? owner exports (ctx.program.resolveAlias x) origin name)
      fun o => ∀ e ∈ o.toList, ∀ g ∈ e.reexports, ctx.GroupOf s tie g := by
  intro o s' t' hrun
  unfold addPassedOn? at hrun
  rcases Action.bind_eq_ok hrun with ⟨o₁, s₂, t₂, hreference, hrun⟩
  have h₂ := ((explores hl hs d).referenceOf _).state h₁ hreference
  cases o₁ with
  | none =>
      rw [← (Action.pure_eq_ok hrun).1]
      exact List.forall_mem_nil _
  | some r =>
      refine (groups_changeGroup? hs hl owner exports origin none
        (fun g => { g with references := g.references ++ [exportedAs name r] }) hexports
        ⟨_, horigin⟩ (fun g hg hfrom => ⟨hg.opened, ?_⟩)).yields h₂ t₂ o s' t' hrun
      -- The name goes behind what the group passes on already.
      rcases hg.passed with ⟨log, hlog, hall⟩
      refine ⟨log ++ [⟨x, origin, exportedAs name r⟩], ?_, fun y hy => ?_⟩
      · rw [List.map_append, hlog]
        rfl
      · rcases List.mem_append.1 hy with hy | hy
        · exact hall y hy
        · rw [List.mem_singleton.1 hy]
          exact ⟨htie r s₂ t₂ hreference, hfrom⟩

/-- A name for something else is passed on from the file of the other, or is no part of a group. -/
theorem groups_addAlias
    (htie : ∀ origin r s₂ t₂, ctx.symbolFile? (ctx.program.resolveAlias x) = some origin →
      origin.same file = false → ctx.referenceOf (ctx.program.resolveAlias x) s₁ t =
        .ok ((some r, s₂), t₂) → tie ⟨x, origin, exportedAs name r⟩) :
    Yields s₁ t (ctx.addAlias owner file exports x name)
      fun e => ∀ g ∈ e.reexports, ctx.GroupOf s tie g := by
  unfold addAlias
  dsimp only
  split
  · rename_i origin _ horigin
    exact (groups_addWildcard hs hl owner exports origin _ hexports ⟨_, horigin⟩).yields h₁ t
  · rename_i origin _ _ horigin
    intro e s' t' hrun
    rw [Action.get_bind] at hrun
    split at hrun
    · -- The other is declared in another file of the analysed sources.
      rename_i hother
      rw [Bool.and_eq_true, Bool.not_eq_true'] at hother
      rcases Action.bind_eq_ok hrun with ⟨o, s₂, t₂, hpassed, hrun⟩
      cases o with
      | none =>
          -- Without a reference nothing is passed on. The name counts as one of the file itself.
          have h₂ := ((explores hl hs d).addPassedOn? owner exports _ origin name).state h₁ hpassed
          exact (groups_addDirect hs hl exports x name hexports).yields h₂ t₂ e s' t' hrun
      | some changed =>
          rw [← (Action.pure_eq_ok hrun).1]
          refine groups_addPassedOn? hs hl hexports h₁ horigin ?_ _ s₂ t₂ hpassed changed
            (List.mem_singleton_self changed)
          exact fun r s₃ t₃ => htie origin r s₃ t₃ horigin hother.1
    · exact (groups_addDirect hs hl exports x name hexports).yields h₁ t e s' t' hrun
  · exact (groups_addDirect hs hl exports x name hexports).yields h₁ t

/-- One export of a file, whatever it is. -/
theorem groups_addExport
    (htie : ∀ info origin r s₂ t₂, ctx.program.symbol? x = some info → info.kind = .link →
      ctx.symbolFile? (ctx.program.resolveAlias x) = some origin → origin.same file = false →
      ctx.referenceOf (ctx.program.resolveAlias x) s₁ t = .ok ((some r, s₂), t₂) →
      tie ⟨x, origin, exportedAs info.name r⟩) :
    Yields s₁ t (ctx.addExport owner file exports x)
      fun e => ∀ g ∈ e.reexports, ctx.GroupOf s tie g := by
  unfold addExport
  split
  · exact (Keeps.pure hexports).yields h₁ t
  · rename_i info hinfo
    split
    · rename_i hlink
      exact groups_addAlias hs hl hexports h₁
        fun origin r s₂ t₂ => htie info origin r s₂ t₂ hinfo hlink
    · exact (groups_addDirect hs hl exports x info.name hexports).yields h₁ t

end

/-- What groups hold, as far as exports were looked at. -/
theorem groups_exportsUntil {owner : ModuleHandle} {file : Path} {fileSymbol : SymbolId}
    {t t' : Trail} {exports : FileExports} {s' : State} (before after : List SymbolId)
    (hsplit : ctx.program.exportsOf fileSymbol = before ++ after)
    (hrun : ctx.exportsUntil owner file fileSymbol before s t = .ok ((exports, s'), t')) :
    ctx.From law s s.depth s' ∧
      ∀ g ∈ exports.reexports, ctx.GroupOf s (ctx.PassesOn s t owner file fileSymbol) g := by
  -- One symbol after another, from the left: each is looked at where those before it have led.
  induction before using List.reverseRecOn generalizing after exports s' t' with
  | nil =>
      have hwildcards : Keeps (ctx.From law s s.depth) (ctx.exportsUntil owner file fileSymbol [])
          fun e => ∀ g ∈ e.reexports,
            ctx.GroupOf s (ctx.PassesOn s t owner file fileSymbol) g := by
        refine Keeps.bindState (Keeps.foldlState _ _ ?_ fun e w _ he => ?_)
          fun e he => Keeps.pure he
        · exact List.forall_mem_nil _
        · cases hfile : ctx.symbolFile? w.target with
          | none => exact Keeps.pure he
          | some target => exact groups_addWildcard hs hl owner e target w.spaceName he ⟨_, hfile⟩
      exact ⟨hwildcards.state (From.refl s) hrun, hwildcards.result (From.refl s) hrun⟩
  | append_singleton before x ih =>
      rw [exportsUntil_append_singleton] at hrun
      rcases Action.bind_eq_ok hrun with ⟨e₁, s₁, t₁, hbefore, hlast⟩
      have hsplit' : ctx.program.exportsOf fileSymbol = before ++ x :: after := by
        rw [hsplit, List.append_assoc]
        rfl
      rcases ih (x :: after) hsplit' hbefore with ⟨h₁, hgroups⟩
      refine ⟨((explores hl hs _).addExport owner file e₁ x).state h₁ hlast, ?_⟩
      refine groups_addExport hs hl hgroups h₁ ?_ exports s' t' hlast
      intro info origin r s₂ t₂ hinfo hlink horigin hother hreference
      exact ⟨⟨info, hinfo, hlink, rfl⟩, horigin, hother, before, after, e₁, s₁, t₁, s₂, t₂, hsplit',
        hbefore, hreference⟩

end

end Context

namespace Session

/-- The module that owns a file can be asked for, and stands where the file belongs. -/
theorem IsAt.exists_module {s : Session} {m : Moment s.context.program} (h : s.IsAt m)
    (hs : s.context.Grounded s.state) {file : Path} {path : List String}
    (hinside : s.isExternalFile file = false)
    (hplace : placeIn s.context.settings.passthroughModules s.state.projects file = some path) :
    ∃ handle s' module, s.resolveModule file = .ok (some handle, s') ∧
      s'.module? handle = some module ∧ module.childrenPath = path := by
  have hreturns := (meets_resolveModule? m.noted file fun _ => True).returns fun _ => trivial
  rw [show m.noted.state = s.state from h.state,
    show m.noted.trail = s.state :: s.trail by rw [← h.trail, ← h.state]; rfl] at hreturns
  rcases hreturns with ⟨⟨⟨o, state⟩, trail⟩, hrun⟩
  rcases Context.From.resolveModule? (fun _ _ => True) hs hrun with ⟨hfrom, _, _, hout, hfound⟩
  cases o with
  | none =>
      -- Only a file from outside has no module.
      have houtside := hout rfl
      rw [show s.context.program.isOutside s.state.projects file = false from hinside] at houtside
      exact nomatch houtside
  | some handle =>
      rcases hfound handle rfl with ⟨module, hmodule, hat⟩
      rw [placeIn_of_grow _ hfrom.changes.projects, hplace, Option.some.injEq] at hat
      refine ⟨handle, { s with state, trail }, module, ?_, hmodule, hat.symm⟩
      rw [resolveModule, run, hrun]
      rfl

/-- After any run, when the exports of a file are looked at: everything in a group was passed on
    from a file with the path of the group. If that file is the only one with its path, then
    everything in the group comes from it, and the module of the group is the one that owns it. -/
theorem groups_keep_origin (program : Program) (settings : Settings) (steps : Nat)
    (ops : List Operation) (s s' : Session) (owner : ModuleHandle) (file : Path)
    (exports : FileExports) (hops : (start program settings steps).performAll ops = .ok s)
    (hrun : s.run (s.context.trackExports owner file) = .ok (exports, s')) :
    ∀ g ∈ exports.reexports, ∃ fileSymbol, ∃ log : List Passed,
      program.fileSymbol? file = some fileSymbol ∧ log.map (·.exported) = g.references ∧
      ∀ x ∈ log,
        s.context.PassesOn s.state (s.state :: s.trail) owner file fileSymbol x ∧
        s.isExternalFile x.origin = false ∧ s.state.relativeFile? x.origin = some g.file ∧
        (s.context.OnlyFile s.state x.origin →
          (∀ y ∈ log, y.origin.same x.origin = true) ∧
          ∃ handle s'' module, s'.resolveModule x.origin = .ok (some handle, s'') ∧
            s''.module? handle = some module ∧ module.childrenPath = g.module) := by
  rcases performAll_isAt (isAt_start program settings steps) ops hops with ⟨m, hat, _⟩
  have hs := performAll_grounded program settings steps ops s hops
  have hprogram := hat.program
  subst hprogram
  rcases run_isAt hat (s.context.gives_trackExports owner file) hrun with ⟨m', hat', _⟩
  rcases Outcome.map_eq_ok.1 hrun with ⟨⟨⟨exports', state⟩, trail⟩, hact, heq⟩
  rcases Prod.mk.inj heq with ⟨rfl, rfl⟩
  intro g hg
  cases hsymbol : s.context.program.fileSymbol? file with
  | none =>
      -- A file that the program does not have exports nothing.
      unfold Context.trackExports at hact
      simp only [hsymbol] at hact
      rw [← (Action.pure_eq_ok hact).1] at hg
      exact absurd hg List.not_mem_nil
  | some fileSymbol =>
      rw [s.context.trackExports_eq owner hsymbol] at hact
      rcases Context.groups_exportsUntil hs (Ty.law_true _) _ [] (List.append_nil _).symm hact with
        ⟨hfrom, hgroups⟩
      rcases (hgroups g hg).opened with ⟨first, hfirst, hplace⟩
      rcases (hgroups g hg).passed with ⟨log, hlog, hall⟩
      refine ⟨fileSymbol, log, rfl, hlog, fun x hx => ?_⟩
      rcases hall x hx with ⟨hpasses, horigin⟩
      refine ⟨hpasses, horigin.inside, horigin.relative, fun honly => ?_⟩
      -- Whatever has the path of the group is the file in question.
      have hsame : ∀ other, s.context.ComesFrom s.state g.file other →
          other.same x.origin = true := by
        intro other hother
        rcases hother.declares with ⟨y, hy⟩
        exact honly y other hy hother.inside (hother.relative.trans horigin.relative.symm)
      refine ⟨fun y hy => hsame y.origin (hall y hy).2, ?_⟩
      have hgrow := hfrom.changes.projects
      refine hat'.exists_module (hfrom.grounded hs) ?_ ?_
      · -- Looking at the exports has left the file where it was.
        have hkept := isOutside_of_grow s.context.program hgrow x.origin
        exact hkept.trans horigin.inside
      · rw [placeIn_of_grow _ hgrow, ← placeIn_of_same _ _ (hsame first hfirst), hplace]

end Session

/-- A file that passes on a name of its own project and one of another, from files with the same
    path. -/
def Program.twins : Program where
  symbols := #[
    { info := { name := "index", kind := .sourceFile, declarations := [⟨0⟩] }
      exports := [⟨5⟩, ⟨6⟩] },
    { info := { name := "x", kind := .sourceFile, declarations := [⟨1⟩] }, exports := [⟨3⟩] },
    { info := { name := "x", kind := .sourceFile, declarations := [⟨2⟩] }, exports := [⟨4⟩] },
    { info := { name := "A", kind := .typeAlias, declarations := [⟨3⟩] }
      declaredType := some ⟨0⟩ },
    { info := { name := "B", kind := .typeAlias, declarations := [⟨4⟩] }
      declaredType := some ⟨0⟩ },
    { info := { name := "A", kind := .link, declarations := [⟨5⟩] }, aliased := some ⟨3⟩ },
    { info := { name := "B", kind := .link, declarations := [⟨6⟩] }, aliased := some ⟨4⟩ }]
  nodes := #[
    { kind := .sourceFile, file := ⟨"/a/index.ts"⟩ },
    { kind := .sourceFile, file := ⟨"/a/x.ts"⟩ },
    { kind := .sourceFile, file := ⟨"/b/x.ts"⟩ },
    { kind := .typeAlias [] none, file := ⟨"/a/x.ts"⟩ },
    { kind := .typeAlias [] none, file := ⟨"/b/x.ts"⟩ },
    { kind := .other, file := ⟨"/a/index.ts"⟩ },
    { kind := .other, file := ⟨"/a/index.ts"⟩ }]
  types := #[{ info := { form := .intrinsic .string } }]
  files := ((Table.insert ∅ ⟨"/a/index.ts"⟩ ⟨0⟩).insert ⟨"/a/x.ts"⟩ ⟨1⟩).insert ⟨"/b/x.ts"⟩ ⟨2⟩

/-- With the project of the first name alone, the file of that name is the only one with its path,
    and the group has its module. -/
theorem Session.groups_keep_origin_twins :
    ∃ s exports s' g, ∃ x : Passed, ∃ handle s'' module,
      (start .twins {} 9).performAll [.addProject { name := "a", root := ⟨"/a"⟩ }] = .ok s ∧
      s.run (s.context.trackExports ⟨0, ⟨0⟩⟩ ⟨"/a/index.ts"⟩) = .ok (exports, s') ∧
      g ∈ exports.reexports ∧ x.exported ∈ g.references ∧ x.origin = ⟨"/a/x.ts"⟩ ∧
      s.context.OnlyFile s.state x.origin ∧
      s'.resolveModule x.origin = .ok (some handle, s'') ∧ s''.module? handle = some module ∧
      module.childrenPath = g.module := by
  have hrun : ((start .twins {} 9).performAll
        [.addProject { name := "a", root := ⟨"/a"⟩ }]).toOption.any
      (fun s => s.context.program.symbols.size == 7 &&
        ((List.range 7).all fun i => (s.context.symbolFile? ⟨i⟩).all fun f =>
          s.isExternalFile f || s.state.relativeFile? f != some "x.ts" || f == ⟨"/a/x.ts"⟩) &&
        (s.run (s.context.trackExports ⟨0, ⟨0⟩⟩ ⟨"/a/index.ts"⟩)).toOption.any fun r =>
          r.1.reexports.any fun g => g.file == "x.ts" && !g.references.isEmpty) = true := by
    decide +kernel
  rcases Outcome.of_any hrun with ⟨s, hs, hrun⟩
  rw [Bool.and_eq_true, Bool.and_eq_true, beq_iff_eq] at hrun
  rcases hrun with ⟨⟨hsize, hfiles⟩, hrun⟩
  rcases Outcome.of_any hrun with ⟨⟨exports, s'⟩, htrack, hrun⟩
  rcases List.any_eq_true.1 hrun with ⟨g, hg, hgroup⟩
  rw [Bool.and_eq_true, beq_iff_eq, Bool.not_eq_true'] at hgroup
  rcases hgroup with ⟨hfile, hsome⟩
  -- Of the files of the project, one has the path.
  have hunique : ∀ y f, s.context.symbolFile? y = some f → s.isExternalFile f = false →
      s.state.relativeFile? f = some "x.ts" → f = ⟨"/a/x.ts"⟩ := by
    intro y f hy hin hrelative
    rcases Option.map_eq_some_iff.1 hy with ⟨node, hnode, _⟩
    rcases Option.bind_eq_some_iff.1 hnode with ⟨info, hinfo, _⟩
    have hlt := s.context.program.mem_numbered_of_symbol? hinfo
    have hall := List.all_eq_true.1 hfiles y.index (List.mem_range.2 (hsize ▸ hlt))
    rw [show s.context.symbolFile? ⟨y.index⟩ = some f from hy, Option.all_some, hin,
      hrelative] at hall
    simpa only [Bool.false_or, bne_self_eq_false, beq_iff_eq] using hall
  rcases groups_keep_origin .twins {} 9 _ s s' _ _ exports hs htrack g hg with
    ⟨fileSymbol, log, _, hlog, hall⟩
  -- The group is not empty.
  have hne : log ≠ [] := by
    rintro rfl
    rw [← hlog] at hsome
    exact nomatch hsome
  rcases List.exists_mem_of_ne_nil log hne with ⟨x, hx⟩
  rcases hall x hx with ⟨hpasses, hin, hrelative, hclaim⟩
  rw [hfile] at hrelative
  have horigin := hunique _ x.origin hpasses.origin hin hrelative
  have honly : s.context.OnlyFile s.state x.origin := by
    intro y other hy hother hpath
    rw [hunique y other hy hother (hpath.trans hrelative), horigin]
    exact beq_self_eq_true _
  rcases (hclaim honly).2 with ⟨handle, s'', module, hresolve, hmodule, hpath⟩
  refine ⟨s, exports, s', g, x, handle, s'', module, hs, htrack, hg, ?_, horigin, honly, hresolve,
    hmodule, hpath⟩
  rw [← hlog]
  exact List.mem_map.2 ⟨x, hx, rfl⟩

/-- With both projects, the two names are in one group, under the module of the first, although the
    file of the second belongs to the module of another project. -/
theorem Session.twins_share_group :
    ∃ s exports s' g, (start .twins {} 9).performAll
        [.addProject { name := "a", root := ⟨"/a"⟩ }, .addProject { name := "b", root := ⟨"/b"⟩ }] =
        .ok s ∧
      s.run (s.context.trackExports ⟨0, ⟨0⟩⟩ ⟨"/a/index.ts"⟩) = .ok (exports, s') ∧
      g ∈ exports.reexports ∧ g.module = ["a"] ∧
      (g.references.map fun e => some e.reference) =
        [s'.state.registry.find? ⟨3⟩, s'.state.registry.find? ⟨4⟩] ∧
      s.context.symbolFile? ⟨3⟩ = some ⟨"/a/x.ts"⟩ ∧ s.context.symbolFile? ⟨4⟩ = some ⟨"/b/x.ts"⟩ ∧
      ((s'.resolveModule ⟨"/b/x.ts"⟩).toOption.bind fun r =>
        (r.1.bind r.2.module?).map (·.childrenPath)) = some ["b"] := by
  have hrun : ((start .twins {} 9).performAll
        [.addProject { name := "a", root := ⟨"/a"⟩ },
          .addProject { name := "b", root := ⟨"/b"⟩ }]).toOption.any
      (fun s => s.context.symbolFile? ⟨3⟩ == some ⟨"/a/x.ts"⟩ &&
        s.context.symbolFile? ⟨4⟩ == some ⟨"/b/x.ts"⟩ &&
        (s.run (s.context.trackExports ⟨0, ⟨0⟩⟩ ⟨"/a/index.ts"⟩)).toOption.any fun r =>
          r.1.reexports.any fun g => g.module == ["a"] &&
            (g.references.map fun e => some e.reference) ==
              [r.2.state.registry.find? ⟨3⟩, r.2.state.registry.find? ⟨4⟩] &&
            ((r.2.resolveModule ⟨"/b/x.ts"⟩).toOption.bind fun q =>
              (q.1.bind q.2.module?).map (·.childrenPath)) == some ["b"]) = true := by
    decide +kernel
  rcases Outcome.of_any hrun with ⟨s, hs, hrun⟩
  rw [Bool.and_eq_true, Bool.and_eq_true, beq_iff_eq, beq_iff_eq] at hrun
  rcases hrun with ⟨⟨hfirst, hsecond⟩, hrun⟩
  rcases Outcome.of_any hrun with ⟨⟨exports, s'⟩, htrack, hrun⟩
  rcases List.any_eq_true.1 hrun with ⟨g, hg, hgroup⟩
  simp only [Bool.and_eq_true, beq_iff_eq] at hgroup
  rcases hgroup with ⟨⟨hmodule, hreferences⟩, hother⟩
  exact ⟨s, exports, s', g, hs, htrack, hg, hmodule, hreferences, hfirst, hsecond, hother⟩

end DocModel
