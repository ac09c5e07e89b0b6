import DocModel.Proofs.Extracted

/-!
# Extracting twice

An extraction goes through the files of a program one by one. Nothing is worked on when the next one
comes up, so that every file is known once it is done, and stays known whatever is done to the
session afterwards, as long as no project is added. If everything is extracted again, each of the
files is, and nothing is made.

## Main definitions

* `Context.takes`, `Context.visit`: Whether a file is extracted, and its turn.
* `Context.Done`: Everything has been extracted.

## Theorems

* `Context.AtRest.forM_visit`: Files that had their turn are known.
* `Context.Done.extract`: Where everything has been extracted, it is extracted again.
* `Session.performAll_atRest`: Between operations nothing is worked on.
* `Session.performAll_done`: A run that adds no project keeps what has been extracted.
* `Session.extract_again`: Extracting everything again makes nothing.
-/

namespace DocModel

namespace Context

variable {ctx : Context} {resolvers : List Resolver} {listeners : List String} {s s' u : State}
  {t t' : Trail} {file : Path}

/-- Whether a file is extracted when its turn comes. -/
def takes (ctx : Context) (s : State) (file : Path) : Bool :=
  !(ctx.isExternalFile s file || ctx.isExcluded s file)

/-- The turn of a file. -/
def visit (ctx : Context) (file : Path) : Action Unit :=
  MonadState.get >>= fun s =>
    if ctx.isExternalFile s file || ctx.isExcluded s file then pure () else ctx.extractFile file

/-- Extracting everything gives every source file its turn. -/
theorem extract_eq (ctx : Context) : ctx.extract = ctx.program.sourceFiles.forM ctx.visit := rfl

theorem visit_of_not_takes (h : ctx.takes s file = false) (t : Trail) :
    ctx.visit file s t = .ok (((), s), t) := by
  have hcase : (ctx.isExternalFile s file || ctx.isExcluded s file) = true := by
    rw [takes, Bool.not_eq_false'] at h
    exact h
  rw [visit, Action.get_bind, if_pos hcase]
  rfl

/-- A file that is taken is extracted in its turn. -/
theorem visit_of_takes (h : ctx.takes s file = true) (t : Trail) :
    ctx.visit file s t = ctx.extractFile file s t := by
  have hcase : ¬ (ctx.isExternalFile s file || ctx.isExcluded s file) = true := by
    rw [takes, Bool.not_eq_true'] at h
    rw [h]
    exact Bool.false_ne_true
  rw [visit, Action.get_bind, if_neg hcase]

/-- Which files are extracted is known once and for all. -/
theorem Onward.takes (h : ctx.Onward s u) (file : Path) : ctx.takes u file = ctx.takes s file := by
  -- Projects keep their roots, and what is left out is told by paths below a root.
  have hroot : ∀ i : Nat, (u.projects[i]?).map Project.baseDir =
      (s.projects[i]?).map Project.baseDir := by
    intro i
    rw [← List.getElem?_map, ← List.getElem?_map, h.lasts.baseDirs]
  have hexcluded : ctx.isExcluded u file = ctx.isExcluded s file := by
    unfold isExcluded
    rw [projectFor?_congr s u h.lasts.baseDirs]
    cases s.projectFor? file with
    | none => rfl
    | some i => simp only [Option.bind_some, hroot]
  rw [Context.takes, Context.takes, h.isExternalFile, hexcluded]

/-- What is kept by extracting a file is kept by its turn. -/
theorem keeps_visit {K : Guard} (h : Keeps K (ctx.extractFile file) fun _ => True) :
    Keeps K (ctx.visit file) fun _ => True := by
  refine Keeps.get fun s _ => ?_
  split
  · exact Keeps.pure trivial
  · exact h

/-- Extracting a file leads from rest to rest. -/
theorem AtRest.extractFile {a : Unit} (h : ctx.AtRest s t)
    (hrun : ctx.extractFile file s t = .ok ((a, s'), t')) : ctx.AtRest s' t' := by
  have hexplores := explores (Ty.law_true ctx.settings.maxTypeDepth) h.grounded s.depth
  exact h.of_gives (ctx.gives_extractFile file)
    ((hexplores.extractFile file).state (.refl s) hrun) hrun

/-- The turn of a file leads from rest to rest, and the file is known then. -/
theorem AtRest.visit {a : Unit} (h : ctx.AtRest s t) (hhome : ctx.program.MembersAtHome)
    (hrun : ctx.visit file s t = .ok ((a, s'), t')) :
    ctx.AtRest s' t' ∧ ctx.Onward s s' ∧ (ctx.takes s file = true → ctx.Extracted file s') := by
  have honward := (keeps_visit ((explores_onward h.grounded).extractFile file)).state (.refl s) hrun
  cases htakes : ctx.takes s file with
  | false =>
      rw [visit_of_not_takes htakes] at hrun
      rcases Prod.mk.inj (Except.ok.inj hrun) with ⟨hpair, rfl⟩
      rcases Prod.mk.inj hpair with ⟨rfl, rfl⟩
      exact ⟨h, honward, nofun⟩
  | true =>
      rw [visit_of_takes htakes] at hrun
      exact ⟨h.extractFile hrun, honward, fun _ => h.extracted hhome hrun⟩

/-- Files that had their turn are known. -/
theorem AtRest.forM_visit {a : Unit} {files : List Path} (h : ctx.AtRest s t)
    (hhome : ctx.program.MembersAtHome)
    (hrun : files.forM ctx.visit s t = .ok ((a, s'), t')) :
    ctx.Onward s s' ∧ ∀ file ∈ files, ctx.takes s file = true → ctx.Extracted file s' := by
  -- Once a file is known it stays known, so the invariant runs along the files that had their turn.
  induction files generalizing s t with
  | nil =>
      rcases Action.pure_eq_ok hrun with ⟨_, rfl⟩
      exact ⟨.refl s, List.forall_mem_nil _⟩
  | cons first files ih =>
      rcases Action.bind_eq_ok hrun with ⟨_, s₁, t₁, hfirst, hrest⟩
      rcases h.visit hhome hfirst with ⟨h₁, ho₁, hextracted⟩
      rcases ih h₁ hrest with ⟨ho, hfiles⟩
      refine ⟨ho₁.trans ho, fun file hfile htakes => ?_⟩
      rcases List.mem_cons.1 hfile with rfl | hfile
      · -- The others come after it and leave it known.
        have hother : ∀ other, Keeps (fun s => ctx.Grounded s ∧ ctx.Extracted file s)
            ((ctx.among ctx.resolvers ctx.listeners).extractFile other) fun _ => True :=
          fun other => keeps_extracted file other
        have hkeeps : Keeps (fun s => ctx.Grounded s ∧ ctx.Extracted file s)
            (files.forM ctx.visit) fun _ => True :=
          Keeps.forM files fun other _ => keeps_visit (hother other)
        exact (hkeeps.state ⟨h₁.grounded, hextracted htakes⟩ hrest).2
      · exact hfiles file hfile (by rw [ho₁.takes, htakes])

/-- Files that are known are extracted once more, and nothing is made. -/
theorem forM_visit_again {files : List Path} (hs : ctx.Grounded s)
    (hfiles : ∀ file ∈ files, ctx.takes s file = true → ctx.Extracted file s) (t : Trail) :
    Action.Returns s t (files.forM (ctx.among resolvers listeners).visit) fun _ s' =>
      ctx.program.Calm s s' := by
  induction files generalizing s t with
  | nil => exact .pure (.refl _ s)
  | cons first files ih =>
      -- The first file is passed over, or it is known and nothing is made.
      have hturn : ∃ s₁ t₁, (ctx.among resolvers listeners).visit first s t =
          .ok (((), s₁), t₁) ∧ ctx.program.Calm s s₁ := by
        cases htakes : ctx.takes s first with
        | false =>
            have hskip : (ctx.among resolvers listeners).takes s first = false := htakes
            exact ⟨s, t, visit_of_not_takes hskip t, .refl _ s⟩
        | true =>
            have htake : (ctx.among resolvers listeners).takes s first = true := htakes
            rcases (hfiles first List.mem_cons_self htakes).again hs t with
              ⟨_, s₁, t₁, hrun, hcalm⟩
            exact ⟨s₁, t₁, (visit_of_takes htake t).trans hrun, hcalm⟩
      rcases hturn with ⟨s₁, t₁, hrun, hcalm⟩
      have hamong : (ctx.among resolvers listeners).Grounded s := hs
      have ho := onward_among.1 ((keeps_visit
        ((explores_onward hamong).extractFile first)).state (.refl s) hrun)
      -- After that the other files are still known.
      have hrest : ∀ file ∈ files, ctx.takes s₁ file = true → ctx.Extracted file s₁ := by
        intro file hfile htakes
        rw [ho.takes] at htakes
        have hknown := hfiles file (List.mem_cons_of_mem _ hfile) htakes
        exact ((keeps_visit (keeps_extracted file first)).state ⟨hs, hknown⟩ hrun).2
      rcases ih (ho.changes.grounded hs) hrest t₁ with ⟨_, s₂, t₂, hrun₂, hcalm₂⟩
      refine ⟨(), s₂, t₂, ?_, hcalm.trans hcalm₂⟩
      change ((ctx.among resolvers listeners).visit first >>= fun _ => files.forM _) s t = _
      rw [Action.bind_apply, hrun]
      exact hrun₂

/-- Everything that is extracted in a state has been, at some time since. -/
structure Done (ctx : Context) (u s : State) : Prop where
  onward : ctx.Onward u s
  extracted : ∀ file ∈ ctx.program.sourceFiles, ctx.takes u file = true → ctx.Extracted file s

/-- What keeps single files known keeps everything known. -/
theorem keeps_done {α : Type} {act : Action α} (hu : ctx.Grounded u)
    (honward : Keeps (ctx.Onward u) act fun _ => True)
    (hfile : ∀ file, Keeps (fun s => ctx.Grounded s ∧ ctx.Extracted file s) act fun _ => True) :
    Keeps (ctx.Done u) act fun _ => True := by
  refine .of_state fun s t a s' t' h hrun => ⟨⟨honward.state h.onward hrun, ?_⟩, trivial⟩
  intro file hmem htakes
  -- The state the file is known in is in order, as it follows one that is.
  have hs := h.onward.changes.grounded hu
  exact ((hfile file).state ⟨hs, h.extracted file hmem htakes⟩ hrun).2

/-- Where everything has been extracted, it is extracted again, and nothing is made. -/
theorem Done.extract (h : ctx.Done u s) (hu : ctx.Grounded u) (t : Trail) :
    Action.Returns s t (ctx.among resolvers listeners).extract fun _ s' =>
      ctx.program.Calm s s' := by
  rw [extract_eq]
  refine forM_visit_again (h.onward.changes.grounded hu) (fun file hmem htakes => ?_) t
  rw [h.onward.takes] at htakes
  exact h.extracted file hmem htakes

end Context

namespace Session

variable {s s' : Session} {ctx : Context} {u : State}

/-- Resolvers and listeners are all that changes of what a session reads. -/
theorem perform_context {op : Operation} (hrun : s.perform op = .ok s') :
    ∃ resolvers listeners, s'.context = s.context.among resolvers listeners := by
  have hsame : s'.context = s.context →
      ∃ resolvers listeners, s'.context = s.context.among resolvers listeners :=
    fun h => ⟨s.context.resolvers, s.context.listeners, h⟩
  -- Actions change the state and the trail, and nothing that is read.
  have hacts : ∀ {α : Type} {act : Action α} {o : Outcome (α × Session)}, s.run act = o →
      o.map (·.2) = .ok s' → s'.context = s.context := by
    intro α act o ho hmap
    rcases Outcome.map_eq_ok.1 hmap with ⟨⟨a, s₁⟩, hsome, rfl⟩
    rcases Outcome.map_eq_ok.1 (ho.trans hsome) with ⟨_, _, heq⟩
    rw [← (Prod.mk.inj heq).2]
  cases op with
  | addProject spec =>
      simp only [perform] at hrun
      split at hrun
      · rename_i hadd
        rw [← Except.ok.inj hrun]
        exact ⟨s.context.resolvers, s.context.listeners, (addProject_moves hadd).1⟩
      · exact hsame (by rw [← Except.ok.inj hrun])
  | addResolver resolver =>
      rw [← Except.ok.inj hrun]
      exact ⟨s.context.resolvers ++ [resolver], s.context.listeners, rfl⟩
  | addListener listener =>
      rw [← Except.ok.inj hrun]
      exact ⟨s.context.resolvers, s.context.listeners ++ [listener], rfl⟩
  | reference | normalize | extract | extractFile | resolveModule => exact hsame (hacts rfl hrun)

/-- An operation that adds no project keeps what has been extracted. -/
theorem perform_done {resolvers : List Resolver} {listeners : List String} {op : Operation}
    (hu : ctx.Grounded u) (hcontext : s.context = ctx.among resolvers listeners)
    (h : ctx.Done u s.state) (hop : op.addsProject = false) (hrun : s.perform op = .ok s') :
    ctx.Done u s'.state := by
  have hamong : (ctx.among resolvers listeners).Grounded u := hu
  -- Who resolves links and who listens has no bearing on what follows a state.
  have honward : ∀ {α : Type} {act : Action α},
      Keeps ((ctx.among resolvers listeners).Onward u) act (fun _ => True) →
      Keeps (ctx.Onward u) act fun _ => True := fun hkeeps =>
    .of_state fun s t a s' t' h hrun =>
      ⟨Context.onward_among.1 (hkeeps.state (Context.onward_among.2 h) hrun), trivial⟩
  have hexplores := Context.explores_onward hamong
  have hknown : ∀ file, (ctx.among resolvers listeners).Tracks
      fun s => ctx.Grounded s ∧ ctx.Extracted file s := fun file => Context.tracks_extracted file
  -- Each of the three kinds of work keeps the order of states and keeps every file known.
  have htracks : s.context.Tracks (ctx.Done u) := by
    rw [hcontext]
    exact ⟨fun x => Context.keeps_done hu (honward (hexplores.referenceOf x))
        fun file => (hknown file).referenceOf x,
      fun other => Context.keeps_done hu (honward (hexplores.resolveModule? other))
        fun file => (hknown file).resolveModule? other⟩
  have hfiles : ∀ file, Keeps (ctx.Done u) (s.context.extractFile file) fun _ => True := by
    rw [hcontext]
    exact fun other => Context.keeps_done hu (honward (hexplores.extractFile other))
      fun file => Context.keeps_extracted file other
  have htypes : ∀ ty node, Keeps (ctx.Done u) (s.context.typeOf ty node) fun _ => True := by
    rw [hcontext]
    exact fun ty node => Context.keeps_done hu
      (honward (Context.keeps_onward_typeOf hamong ty node))
      fun file => Context.keeps_extracted_typeOf file ty node
  exact (perform_keep htracks hfiles htypes hop h h hrun).2.2

/-- Projects are never taken away. -/
theorem length_projects_le (hs : s.context.Grounded s.state) (ops : List Operation)
    (hops : s.performAll ops = .ok s') :
    s.state.projects.length ≤ s'.state.projects.length := by
  refine (performAll_induct (fun s₁ => s.state.projects.length ≤ s₁.state.projects.length)
    (fun s₁ s₂ _ hmoves hle => ?_) (Ty.law_true _) hs (Nat.le_refl _) ops hops).2
  -- Questions change projects in place, and only a new project makes the list longer.
  rcases hmoves.state with hfrom | ⟨project, _, heq⟩
  · rw [hfrom.changes.projects.length]
    exact hle
  · rw [heq, List.length_append]
    exact Nat.le_add_right_of_le hle

/-- A run that leaves as many projects as there were keeps what has been extracted. -/
theorem performAll_done {resolvers : List Resolver} {listeners : List String}
    (ops : List Operation) (hu : ctx.Grounded u)
    (hcontext : s.context = ctx.among resolvers listeners) (h : ctx.Done u s.state)
    (hops : s.performAll ops = .ok s')
    (hlength : s'.state.projects.length = s.state.projects.length) :
    (∃ resolvers listeners, s'.context = ctx.among resolvers listeners) ∧
      ctx.Done u s'.state := by
  induction ops generalizing s resolvers listeners with
  | nil =>
      rw [← Except.ok.inj hops]
      exact ⟨⟨resolvers, listeners, hcontext⟩, h⟩
  | cons op ops ih =>
      rw [performAll, List.foldlM_cons] at hops
      rcases Outcome.bind_eq_ok.1 hops with ⟨s₁, hop, hops⟩
      have hs : s.context.Grounded s.state := by
        rw [hcontext]
        exact h.onward.changes.grounded hu
      have hmoves : Moves (fun _ _ => True) s s₁ := perform_moves (Ty.law_true _) hs hop
      -- Whatever comes later, the projects there are by now will still be there.
      have hle := length_projects_le (hmoves.grounded hs) ops hops
      rcases perform_context hop with ⟨resolvers₁, listeners₁, hcontext₁⟩
      rw [hcontext] at hcontext₁
      have hdone : ctx.Done u s₁.state ∧
          s₁.state.projects.length = s.state.projects.length := by
        cases hadds : op.addsProject with
        | false =>
            have hfrom := (perform_from (Ty.law_true _) hs hadds hop).2.2
            exact ⟨perform_done hu hcontext h hadds hop, hfrom.changes.projects.length⟩
        | true =>
            cases op with
            | addProject spec =>
                simp only [perform] at hop
                split at hop
                · -- A project that is added stays, and there would be more than there are.
                  rename_i hadd
                  rw [← Except.ok.inj hop] at hle
                  rcases (addProject_moves hadd).2 with ⟨project, _, heq⟩
                  rw [heq, List.length_append, List.length_singleton, hlength] at hle
                  exact absurd hle (Nat.not_succ_le_self _)
                · rw [← Except.ok.inj hop]
                  exact ⟨h, rfl⟩
            | _ => cases hadds
      exact ih hcontext₁ hdone.1 hops (hlength.trans hdone.2.symm)

/-- Between operations nothing is worked on, and nothing is if the state is put on the trail. -/
theorem performAll_atRest (program : Program) (settings : Settings) (steps : Nat)
    (ops : List Operation) (hops : (start program settings steps).performAll ops = .ok s) :
    s.context.program = program ∧ s.context.AtRest s.state (s.state :: s.trail) := by
  rcases performAll_isAt (isAt_start program settings steps) ops hops with ⟨m, hat, _⟩
  have hprogram := hat.program
  -- That members are housed is no part of a moment, so it is carried through the run by itself.
  have hhoused := performAll_induct (fun s => s.context.program = program ∧
    ∀ x, program.resolveAlias x = x → program.isEnumMember x = true →
      s.state.registry.contains x = true → program.Housed s.state x)
    (fun s₁ s₂ _ hmoves hinv => ?_) (Ty.law_true _) (grounded_start program settings steps)
    ⟨rfl, fun x _ _ hx => ?_⟩ ops hops
  · refine ⟨hprogram, hhoused.1, ?_, ?_⟩
    · rw [hprogram]
      exact hhoused.2.2
    · subst hprogram
      refine ⟨m.noted, hat.state, ?_, hat.opened⟩
      rw [← hat.trail, ← hat.state]
      rfl
  · refine ⟨hmoves.program.trans hinv.1, fun x hself hmember hx => ?_⟩
    -- A question houses the members that it enters; a new project leaves entries alone.
    rcases hmoves.state with hfrom | ⟨project, _, heq⟩
    · rw [← hinv.1] at hself hmember ⊢
      rcases hfrom.housed x hself hmember hx with hx | hhoused
      · have hbefore :=
          hinv.2 x (by rw [← hinv.1]; exact hself) (by rw [← hinv.1]; exact hmember) hx
        rw [← hinv.1] at hbefore
        exact hfrom.changes.housed hbefore
      · exact hhoused
    · rw [heq] at hx ⊢
      exact (hinv.2 x hself hmember hx).mono (fun _ hy => hy) fun _ hy => hy.of_append
  · cases hx

/-- If everything was extracted once, and no project was added since, everything is extracted again,
    and nothing is made: nobody is told of a declaration, no declaration is attached, there are the
    same modules, no number is given out, and what was entered is entered. Where enumerations list
    members that are declared and stand for themselves, and files are told apart by their projects
    and paths, nothing is entered either, and what modules export is what it was. -/
theorem extract_again (program : Program) (settings : Settings) (steps : Nat)
    (before after : List Operation) (s₀ s₁ s : Session) (hhome : program.MembersAtHome)
    (hbefore : (start program settings steps).performAll before = .ok s₀)
    (hextract : s₀.extract = .ok s₁) (hafter : s₁.performAll after = .ok s)
    (hprojects : s.state.projects.length = s₁.state.projects.length) :
    ∃ s', s.extract = .ok s' ∧
      s'.state.notices = s.state.notices ∧
      s'.state.projects.map (·.withoutExports) = s.state.projects.map (·.withoutExports) ∧
      s'.state.registry.nextId = s.state.registry.nextId ∧
      (∀ x ref, s.state.registry.find? x = some ref → s'.state.registry.find? x = some ref) ∧
      (program.MembersFirm → program.FilesApart s.state →
        s'.state = { s.state with depth := s'.state.depth }) := by
  rcases performAll_atRest program settings steps before hbefore with ⟨hprogram, hrest⟩
  subst hprogram
  rcases Outcome.map_eq_ok.1 hextract with ⟨⟨_, _⟩, hrun, rfl⟩
  rcases Outcome.map_eq_ok.1 hrun with ⟨⟨⟨_, state⟩, trail⟩, hact, heq⟩
  rcases Prod.mk.inj heq with ⟨rfl, rfl⟩
  -- The first extraction leaves every file known, and the operations after it keep that.
  rw [Context.extract_eq] at hact
  rcases hrest.forM_visit hhome hact with ⟨honward, hfiles⟩
  have hsame : ({ s₀ with state, trail } : Session).context =
      s₀.context.among s₀.context.resolvers s₀.context.listeners := rfl
  rcases performAll_done after hrest.grounded hsame ⟨honward, hfiles⟩ hafter hprojects with
    ⟨⟨resolvers, listeners, hcontext⟩, hdone⟩
  -- All files are known by now, whoever resolves links or listens.
  have hreturns : Action.Returns s.state (s.state :: s.trail)
      (s₀.context.among resolvers listeners).extract fun _ s' =>
        s₀.context.program.Calm s.state s' := hdone.extract hrest.grounded _
  rcases hreturns with ⟨_, state', trail', hagain, hcalm⟩
  refine ⟨{ s with state := state', trail := trail' }, ?_, hcalm.notices, hcalm.modules,
    hcalm.nextId, hcalm.entries, hcalm.still⟩
  rw [extract, run, hcontext, hagain]
  rfl

end Session

/-- Whether members of enumerations are at home is checked symbol by symbol. -/
theorem Program.membersAtHome_of_all {p : Program}
    (h : ∀ i < p.symbols.size, (p.symbol? ⟨i⟩).all (fun info => info.kind != .enum ||
      (p.exportsOf ⟨i⟩).all fun x => (p.symbol? x).all fun member =>
        member.kind != .enumMember || member.parent == some ⟨i⟩) = true) : p.MembersAtHome := by
  intro owner x member hlists hmember hkind
  rcases hlists.kind with ⟨info, hinfo, henum⟩
  have hall := h owner.index (p.mem_numbered_of_symbol? hinfo)
  rw [show p.symbol? ⟨owner.index⟩ = some info from hinfo, Option.all_some, henum] at hall
  have hlisted := List.all_eq_true.1 hall x hlists.mem
  rw [hmember, Option.all_some, hkind] at hlisted
  exact beq_iff_eq.1 hlisted

theorem Program.membersAtHome_sample : Program.sample.MembersAtHome :=
  membersAtHome_of_all (by decide +kernel)

theorem Program.membersFirm_sample : Program.sample.MembersFirm := by
  have hmembers : ∀ i < 8, (Program.sample.symbol? ⟨i⟩).all (fun info =>
      info.kind != .enumMember || Program.sample.resolveAlias ⟨i⟩ == ⟨i⟩ &&
        (Program.sample.declarationOf? info).isSome) = true := by
    decide +kernel
  intro owner x info _ hinfo hkind
  have hall := hmembers x.index (Program.sample.mem_numbered_of_symbol? hinfo)
  rw [show Program.sample.symbol? ⟨x.index⟩ = some info from hinfo, Option.all_some, hkind,
    show (SymbolKind.enumMember != .enumMember) = false from rfl, Bool.false_or, Bool.and_eq_true,
    beq_iff_eq] at hall
  exact ⟨hall.1, Option.isSome_iff_exists.1 hall.2⟩

/-- The sample has one file. -/
theorem Program.filesApart_sample (s : State) : Program.sample.FilesApart s := by
  -- The table of files has one entry, so any two files that are found have its components.
  have hfile : ∀ file, (Program.sample.fileSymbol? file).isSome = true →
      file.components = (⟨"/p/a.ts"⟩ : Path).components := by
    intro file hsome
    by_contra hne
    have hother : compare file (⟨"/p/a.ts"⟩ : Path) ≠ .eq :=
      fun hcompare => hne (Std.LawfulEqCmp.eq_of_compare
        (show compare file.components (⟨"/p/a.ts"⟩ : Path).components = .eq from hcompare))
    rw [fileSymbol?, show Program.sample.files = Table.insert ∅ ⟨"/p/a.ts"⟩ ⟨0⟩ from rfl,
      Table.find?_insert_of_ne _ _ hother] at hsome
    cases hsome
  intro file other _ hsome hsome' _ _ _
  exact beq_iff_eq.2 ((hfile other hsome').trans (hfile file hsome).symm)

/-- The sample is extracted, then someone else starts to listen and the file is extracted by itself,
    and then everything is extracted again. -/
theorem Session.extract_again_sample :
    ∃ s₀ s₁ s s', (start .sample {} 30).performAll Operation.sampleSetup = .ok s₀ ∧
      s₀.extract = .ok s₁ ∧
      s₁.performAll [.addListener "late", .extractFile ⟨"/p/a.ts"⟩] = .ok s ∧
      s.extract = .ok s' ∧ s.state.notices.length = 2 ∧
      s'.state = { s.state with depth := s'.state.depth } := by
  have hrun : ((start .sample {} 30).performAll Operation.sampleSetup).toOption.any (fun s₀ =>
      s₀.extract.toOption.any fun s₁ =>
        (s₁.performAll [.addListener "late", .extractFile ⟨"/p/a.ts"⟩]).toOption.any fun s =>
          s.state.projects.length == s₁.state.projects.length &&
            s.state.notices.length == 2) = true := by
    decide +kernel
  rcases Outcome.of_any hrun with ⟨s₀, hbefore, hrun⟩
  rcases Outcome.of_any hrun with ⟨s₁, hextract, hrun⟩
  rcases Outcome.of_any hrun with ⟨s, hafter, hrun⟩
  rw [Bool.and_eq_true, beq_iff_eq, beq_iff_eq] at hrun
  rcases extract_again .sample {} 30 _ _ s₀ s₁ s Program.membersAtHome_sample hbefore hextract
    hafter hrun.1 with ⟨s', hagain, _, _, _, _, hstill⟩
  exact ⟨s₀, s₁, s, s', hbefore, hextract, hafter, hagain, hrun.2,
    hstill Program.membersFirm_sample (Program.filesApart_sample _)⟩

/-- A file that exports a member of an enumeration before the enumeration. The member is declared
    nowhere. -/
def Program.undeclared : Program where
  symbols := #[
    { info := { name := "a", kind := .sourceFile, declarations := [⟨0⟩] }, exports := [⟨2⟩, ⟨1⟩] },
    { info := { name := "E", kind := .enum, declarations := [⟨1⟩] }
      exports := [⟨2⟩], declaredType := some ⟨0⟩ },
    { info := { name := "A", kind := .enumMember, parent := some ⟨1⟩ } }]
  nodes := #[
    { kind := .sourceFile, file := ⟨"/p/a.ts"⟩ },
    { kind := .enum false, file := ⟨"/p/a.ts"⟩ }]
  types := #[{ info := { form := .object, symbol := some ⟨1⟩ } }]
  files := Table.insert ∅ ⟨"/p/a.ts"⟩ ⟨0⟩

/-- The names that a module exports for a file. -/
def Session.exportedNames (s : Session) (handle : ModuleHandle) (path : String) : List String :=
  (((s.module? handle).bind (·.exports.find? path)).map (·.exports.map (·.exportedName))).getD []

/-- The member has no reference when the file is extracted for the first time, and gets one when the
    enumeration comes up. So the file exports more when it is extracted again. -/
theorem Session.late_member_exported :
    Program.undeclared.MembersAtHome ∧ ∃ s₀ s₁ s₂,
      (start .undeclared {} 20).performAll [.addProject { name := "p", root := ⟨"/p"⟩ }] =
        .ok s₀ ∧
      s₀.extract = .ok s₁ ∧ s₁.extract = .ok s₂ ∧
      s₁.exportedNames ⟨0, ⟨0⟩⟩ "a.ts" = ["E"] ∧ s₂.exportedNames ⟨0, ⟨0⟩⟩ "a.ts" = ["A", "E"] := by
  refine ⟨Program.membersAtHome_of_all (by decide +kernel), ?_⟩
  have hrun : ((start .undeclared {} 20).performAll
      [.addProject { name := "p", root := ⟨"/p"⟩ }]).toOption.any (fun s₀ =>
        s₀.extract.toOption.any fun s₁ => s₁.extract.toOption.any fun s₂ =>
          s₁.exportedNames ⟨0, ⟨0⟩⟩ "a.ts" == ["E"] &&
          s₂.exportedNames ⟨0, ⟨0⟩⟩ "a.ts" == ["A", "E"]) = true := by
    decide +kernel
  rcases Outcome.of_any hrun with ⟨s₀, hbefore, hrun⟩
  rcases Outcome.of_any hrun with ⟨s₁, hextract, hrun⟩
  rcases Outcome.of_any hrun with ⟨s₂, hagain, hrun⟩
  rw [Bool.and_eq_true, beq_iff_eq, beq_iff_eq] at hrun
  exact ⟨s₀, s₁, s₂, hbefore, hextract, hagain, hrun.1, hrun.2⟩

end DocModel
