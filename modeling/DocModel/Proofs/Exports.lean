import DocModel.Proofs.Resolve
import DocModel.Session.Exports

/-!
# Exports mention what was made

The exports of a file are references that were asked for, on their own or in groups. Entering them
in a module changes nothing else about it. An extraction of files therefore leads from one moment to
another like any other work.

## Theorems

* `Context.gives_addExport`: One export.
* `Context.gives_extractFile`: The exports of a file.
* `Context.gives_extract`: All files.
-/

namespace DocModel

/-- Every group after a change was there before, or is one that was changed. -/
theorem Context.mem_changeIn {groups : List ReExport} {fresh g : ReExport}
    {change : ReExport → ReExport} (h : g ∈ changeIn groups fresh change) :
    g ∈ groups ∨ ∃ g', (g' ∈ groups ∨ g' = fresh) ∧ g = change g' := by
  induction groups with
  | nil => exact Or.inr ⟨fresh, Or.inr rfl, List.mem_singleton.1 h⟩
  | cons g' rest ih =>
      -- The group in front is the one that is changed, or the change goes on behind it.
      unfold changeIn at h
      split at h
      · rcases List.mem_cons.1 h with rfl | h
        · exact Or.inr ⟨g', Or.inl List.mem_cons_self, rfl⟩
        · exact Or.inl (List.mem_cons_of_mem _ h)
      · rcases List.mem_cons.1 h with rfl | h
        · exact Or.inl List.mem_cons_self
        · rcases ih h with h | ⟨g'', hg, rfl⟩
          · exact Or.inl (List.mem_cons_of_mem _ h)
          · exact Or.inr ⟨g'', hg.imp_left (List.mem_cons_of_mem _), rfl⟩

/-- A change to one group adds to what is mentioned only what it adds to the group. -/
theorem FileExports.mentions_changeIn (exports : FileExports) {fresh : ReExport}
    {change : ReExport → ReExport} {known : List Reference} (hfresh : fresh.references = [])
    (hexports : ∀ r ∈ exports.mentions, r ∈ known)
    (hchange : ∀ g, ∀ e ∈ (change g).references, e ∈ g.references ∨ e.reference ∈ known) :
    ∀ r ∈ ({ exports with
      reexports := Context.changeIn exports.reexports fresh change } : FileExports).mentions,
      r ∈ known := by
  intro r hr
  -- What was mentioned in a group was known.
  have hold : ∀ g ∈ exports.reexports, ∀ e ∈ g.references, e.reference ∈ known := by
    intro g hg e he
    exact hexports _ (List.mem_append_right _
      (List.mem_flatMap.2 ⟨g, hg, List.mem_map.2 ⟨e, he, rfl⟩⟩))
  rcases List.mem_append.1 hr with hr | hr
  · exact hexports r (List.mem_append_left _ hr)
  · rcases List.mem_flatMap.1 hr with ⟨g, hg, hr⟩
    rcases List.mem_map.1 hr with ⟨e, he, rfl⟩
    rcases Context.mem_changeIn hg with hg | ⟨g', hg', rfl⟩
    · exact hold g hg e he
    · -- What the change kept was in the group; a new group holds nothing.
      rcases hchange g' e he with he | he
      · rcases hg' with hg' | rfl
        · exact hold g' hg' e he
        · rw [hfresh] at he
          exact absurd he List.not_mem_nil
      · exact he

namespace Context

variable (ctx : Context) {opened : List Entry} {known : List Reference}

theorem gives_referenceOf (x : SymbolId) :
    Gives ctx ctx.steps opened known (ctx.referenceOf x) (·.toList) fun _ => True :=
  (ctx.sound ctx.steps).gives_reference x opened known

theorem gives_typeOf (ty : TypeId) (node : Option NodeId) :
    Gives ctx ctx.steps opened known (ctx.typeOf ty node) Ty.mentions fun _ => True :=
  (ctx.sound ctx.steps).normalize ty node none opened known

/-- Making the module of a file mentions nothing. -/
theorem gives_resolveModule? (file : Path) :
    Gives ctx ctx.steps opened known (Action.resolveModule? file) (fun _ => []) fun _ => True :=
  fun m _ _ => (meets_resolveModule? m file _).mono (fun _ he => he)
    fun _ _ hp => ⟨hp.toLeads, List.forall_mem_nil _, trivial⟩

theorem gives_changeGroup? (owner : ModuleHandle) (exports : FileExports) (target : Path)
    (spaceName : Option String) (change : ReExport → ReExport)
    (hexports : ∀ r ∈ exports.mentions, r ∈ known)
    (hchange : ∀ g, ∀ e ∈ (change g).references, e ∈ g.references ∨ e.reference ∈ known) :
    Gives ctx ctx.steps opened known (ctx.changeGroup? owner exports target spaceName change)
      (·.toList.flatMap FileExports.mentions) fun _ => True := by
  unfold changeGroup?
  refine Gives.get fun s => ?_
  split
  · exact Gives.pure (List.forall_mem_nil _) trivial
  · refine (ctx.gives_resolveModule? target).bind fun o _ => ?_
    cases o with
    | none => exact Gives.pure (List.forall_mem_nil _) trivial
    | some handle =>
        refine Gives.get fun s => ?_
        split
        · refine Gives.pure (fun r hr => ?_) trivial
          rw [Option.toList_some, List.flatMap_cons, List.flatMap_nil, List.append_nil] at hr
          exact exports.mentions_changeIn rfl hexports hchange r hr
        · exact Gives.pure (List.forall_mem_nil _) trivial

variable (owner : ModuleHandle) (file : Path) (exports : FileExports)

theorem gives_addDirect (x : SymbolId) (name : String)
    (hexports : ∀ r ∈ exports.mentions, r ∈ known) :
    Gives ctx ctx.steps opened known (ctx.addDirect exports x name) FileExports.mentions
      fun _ => True := by
  refine (ctx.gives_referenceOf x).bind fun o _ => ?_
  cases o with
  | none => exact Gives.pure (fun r hr => List.mem_append_right _ (hexports r hr)) trivial
  | some ref =>
      refine Gives.pure (fun r hr => ?_) trivial
      have hold := hexports r
      simp only [FileExports.mentions, List.map_append, List.map_cons, List.map_nil, exportedAs,
        List.mem_append, List.mem_singleton, Option.toList_some] at hr hold ⊢
      tauto

theorem gives_addWildcard (target : Path) (spaceName : Option String)
    (hexports : ∀ r ∈ exports.mentions, r ∈ known) :
    Gives ctx ctx.steps opened known (ctx.addWildcard owner exports target spaceName)
      FileExports.mentions fun _ => True := by
  -- A mark adds nothing to what the group mentions.
  refine (ctx.gives_changeGroup? owner exports target spaceName
    (fun g => { g with wildcard := true }) hexports fun _ _ he => Or.inl he).bind fun o _ => ?_
  refine Gives.pure (fun r hr => ?_) trivial
  cases o with
  | none => exact List.mem_append_right _ (hexports r hr)
  | some changed =>
      rw [Option.toList_some, List.flatMap_cons, List.flatMap_nil, List.append_nil]
      exact List.mem_append_left _ hr

theorem gives_addPassedOn? (target : SymbolId) (targetFile : Path) (name : String)
    (hexports : ∀ r ∈ exports.mentions, r ∈ known) :
    Gives ctx ctx.steps opened known (ctx.addPassedOn? owner exports target targetFile name)
      (·.toList.flatMap FileExports.mentions) fun _ => True := by
  refine (ctx.gives_referenceOf target).bind fun o _ => ?_
  cases o with
  | none => exact Gives.pure (List.forall_mem_nil _) trivial
  | some ref =>
      refine ctx.gives_changeGroup? owner exports targetFile none _
        (fun r hr => List.mem_append_right _ (hexports r hr)) fun g e he => ?_
      -- One entry is added at the end of the group.
      rcases List.mem_append.1 he with he | he
      · exact Or.inl he
      · rw [List.mem_singleton.1 he]
        exact Or.inr (List.mem_append_left _ (List.mem_singleton_self ref))

theorem gives_addAlias (x : SymbolId) (name : String)
    (hexports : ∀ r ∈ exports.mentions, r ∈ known) :
    Gives ctx ctx.steps opened known (ctx.addAlias owner file exports x name) FileExports.mentions
      fun _ => True := by
  unfold addAlias
  dsimp only
  split
  · exact ctx.gives_addWildcard owner exports _ _ hexports
  · refine Gives.get fun s => ?_
    split
    · refine (ctx.gives_addPassedOn? owner exports _ _ name hexports).bind fun o _ => ?_
      cases o with
      | none =>
          -- What was asked for in between is known from now on.
          exact ctx.gives_addDirect exports x name
            fun r hr => List.mem_append_right _ (hexports r hr)
      | some changed =>
          refine Gives.pure (fun r hr => ?_) trivial
          rw [Option.toList_some, List.flatMap_cons, List.flatMap_nil, List.append_nil]
          exact List.mem_append_left _ hr
    · exact ctx.gives_addDirect exports x name hexports
  · exact ctx.gives_addDirect exports x name hexports

/-- One export. -/
theorem gives_addExport (x : SymbolId) (hexports : ∀ r ∈ exports.mentions, r ∈ known) :
    Gives ctx ctx.steps opened known (ctx.addExport owner file exports x) FileExports.mentions
      fun _ => True := by
  unfold addExport
  split
  · exact Gives.pure hexports trivial
  · split
    · exact ctx.gives_addAlias owner file exports x _ hexports
    · exact ctx.gives_addDirect exports x _ hexports

theorem gives_trackExports :
    Gives ctx ctx.steps opened known (ctx.trackExports owner file) FileExports.mentions
      fun _ => True := by
  unfold trackExports
  have hempty : ∀ r ∈ ({} : FileExports).mentions, r ∈ known := List.forall_mem_nil _
  split
  · exact Gives.pure hempty trivial
  · refine Gives.bind (Gives.foldlM _ _ hempty fun b w _ known' hb => ?_) fun exports _ => ?_
    · split
      · exact Gives.pure hb trivial
      · exact ctx.gives_addWildcard owner b _ _ hb
    · -- The exports go on from where the files have left them.
      exact Gives.foldlM _ exports (fun r hr => List.mem_append_left _ hr)
        fun b x _ known' hb => ctx.gives_addExport owner file b x hb

/-- The exports of a file, entered in its module. -/
theorem gives_extractFile :
    Gives ctx ctx.steps opened known (ctx.extractFile file) (fun _ => []) fun _ => True := by
  intro m ho hm
  have hnone : ∀ m' : Moment ctx.program, ∀ r ∈ ([] : List Reference), m'.made r :=
    fun _ _ hr => absurd hr List.not_mem_nil
  refine (meets_resolveModule? m file _).bind fun o m₁ hplaced => ?_
  cases o with
  | none => exact Meets.pure ⟨hplaced.toLeads, hnone _, trivial⟩
  | some owner =>
      have htrack := ctx.gives_trackExports owner file m₁ (hplaced.opened.trans ho)
        fun r hr => hplaced.made r (hm r hr)
      refine (htrack.mono (Averted.before hplaced.toBefore fun hroom =>
        hroom.leads hplaced.toLeads) fun _ _ h => h).bind ?_
      rintro exports m₂ ⟨hl, hmade, _⟩
      have hlead := hplaced.toLeads.trans hl
      split
      · exact Meets.pure ⟨hlead, hnone _, trivial⟩
      · refine Meets.get ?_
        split
        · exact Meets.pure ⟨hlead, hnone _, trivial⟩
        · -- The module was found before the exports were, and is still there.
          rename_i relative _
          rcases hplaced.found owner rfl with ⟨module, hmodule⟩
          rcases hl.projects.moduleIn owner module hmodule with ⟨module', hmodule', _⟩
          rcases Option.bind_eq_some_iff.1 hmodule' with ⟨project, hp, hget⟩
          have hbefore : Moment.Before ctx.listeners m₂
              (m₂.withExports owner project module' hp hget relative exports hmade) :=
            m₂.before_withExports owner project module' hp hget relative exports hmade
          refine Meets.of_eq (a := ()) _ ?_
            ⟨hlead.trans (hbefore.leads rfl rfl), hnone _, trivial⟩
          change Except.ok (((), m₂.state.updateTree owner.project _), m₂.trail) = _
          rw [updateTree_eq m₂.state owner.project project hp]
          rfl

/-- The exports of all files, entered in their modules. -/
theorem gives_extract :
    Gives ctx ctx.steps opened known ctx.extract (fun _ => []) fun _ => True := by
  unfold extract
  refine Gives.forM _ fun file _ known => Gives.get fun s => ?_
  split
  · exact Gives.pure (List.forall_mem_nil _) trivial
  · exact ctx.gives_extractFile file

end Context

end DocModel
