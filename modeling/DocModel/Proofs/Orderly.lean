import DocModel.Proofs.Explore
import DocModel.Proofs.Lookup
import DocModel.Proofs.Operations

/-!
# Sessions are chains of changes

Extracting files asks for references and makes modules on the way, and in the end puts the exports
of a file into its module. It is a chain of changes like the rest. So every operation of a session
adds a project or is a chain of changes.

A session begins with a state in order, and every operation leaves one. What has to be shown of all
sessions is therefore shown of the projects that are added, and of single changes.

## Main definitions

* `Operation.addsProject`, `NewProject`: Adding a project, and what is known of it.
* `Session.Moves`: What an operation does to a session.

## Theorems

* `Context.explores`: Extracting files.
* `Session.perform_keep`: An operation that adds no project keeps what asking keeps.
* `Session.perform_from`: Such an operation is a chain of changes.
* `Session.perform_moves`: Any operation.
* `Session.performAll_induct`: What every move keeps, a run keeps.
* `Session.performAll_grounded`: States are in order after any run.
-/

namespace DocModel

namespace Context

/-- Exports are put into a module if the module is there. Otherwise nothing is done. -/
theorem From.exports {ctx : Context} {law : Nat → Ty → Prop} {s s' : State} {d : Nat}
    (h : ctx.From law s d s') (owner : ModuleHandle) (relative : String) (exports : FileExports) :
    ctx.From law s d (s'.updateTree owner.project (·.update owner.module fun m =>
      { m with exports := m.exports.insert relative exports })) := by
  cases hp : s'.projects[owner.project]? with
  | none =>
      rw [State.updateTree, List.modify_eq_self (List.getElem?_eq_none_iff.1 hp)]
      exact h
  | some project =>
      rw [updateTree_eq s' owner.project project hp]
      cases hm : project.modules.get? owner.module with
      | none =>
          rw [ModuleTree.update_of_get?_eq_none hm, withTree_self hp]
          exact h
      | some m => exact h.step (.exports owner project m relative exports hp hm) rfl

/-- Extracting files is a chain of changes. -/
theorem explores {ctx : Context} {law : Nat → Ty → Prop}
    (hl : Ty.Law ctx.settings.maxTypeDepth law) {s : State} (hs : ctx.Grounded s) (d : Nat) :
    ctx.Explores (ctx.From law s d) where
  referenceOf := fun x => From.keeps (((ctx.orderly hl ctx.steps).keep hs d).reference x)
  resolveModule? := fun _ => .of_state fun _ _ _ _ _ h₁ hrun =>
    ⟨h₁.after (From.resolveModule? law (h₁.grounded hs) hrun).1, trivial⟩
  exports := fun _ _ owner relative exports h₁ => From.exports h₁ owner relative exports

end Context

/-- Whether an operation adds a project. -/
def Operation.addsProject : Operation → Bool
  | .addProject _ => true
  | _ => false

/-- A project that is new to a list, with nothing in its tree but the root. -/
structure NewProject (passthrough : List String) (projects : List Project) (project : Project) :
    Prop where
  name : project.name ∉ projects.map (·.name)
  modules : project.modules = ModuleTree.make project.name project.baseDir passthrough

/-- A new project leaves a state in order. -/
theorem NewProject.grounded {passthrough : List String} {s : State} {project : Project}
    (h : NewProject passthrough s.projects project) (hs : Grounded passthrough s) :
    Grounded passthrough { s with projects := s.projects ++ [project] } := by
  refine ⟨hs.trees.append project h.name ?_ fun m hm => ?_, fun q hq => ?_, fun x handle hx => ?_⟩
  · rw [h.modules]
    exact ModuleTree.sound_make _ _ _
  · rw [h.modules] at hm
    rw [(ModuleTree.eq_root_of_get?_make hm).2]
    rfl
  · rcases List.mem_append.1 hq with hq | hq
    · exact hs.located q hq
    · rw [List.mem_singleton.1 hq, h.modules]
      exact ModuleTree.located_make _ _ _
  · -- Numbers of projects do not change when one is added at the end.
    rcases hs.spaces x handle hx with ⟨m, hm⟩
    rcases (extend_append {} s.projects project).module handle m hm with ⟨m', hm', _⟩
    exact ⟨m', hm'⟩

namespace Session

/-- What an operation does to a session: it adds a project, or it is a chain of changes. -/
structure Moves (law : Nat → Ty → Prop) (s s' : Session) : Prop where
  program : s'.context.program = s.context.program
  settings : s'.context.settings = s.context.settings
  state : s.context.From law s.state s.state.depth s'.state ∨
    ∃ project, NewProject s.context.settings.passthroughModules s.state.projects project ∧
      s'.state = { s.state with projects := s.state.projects ++ [project] }

section

variable {law : Nat → Ty → Prop} {s s' : Session}

/-- An operation that adds no project keeps what asking keeps. The state it starts from is put on
    the trail. -/
theorem perform_keep {K : Guard} (htracks : s.context.Tracks K)
    (hfiles : ∀ file, Keeps K (s.context.extractFile file) fun _ => True)
    (htypes : ∀ ty node, Keeps K (s.context.typeOf ty node) fun _ => True) {op : Operation}
    (hop : op.addsProject = false) (hs : K.holds s.state s.trail)
    (hnoted : K.holds s.state (s.state :: s.trail)) (hrun : s.perform op = .ok s') :
    s'.context.program = s.context.program ∧ s'.context.settings = s.context.settings ∧
      K.holds s'.state s'.trail := by
  -- An action starts with the state put on the trail.
  have hacts : ∀ {α : Type} {act : Action α} {o : Outcome (α × Session)}, s.run act = o →
      o.map (·.2) = .ok s' → Keeps K act (fun _ => True) →
      s'.context.program = s.context.program ∧ s'.context.settings = s.context.settings ∧
        K.holds s'.state s'.trail := by
    intro α act o ho hmap hact
    rcases Outcome.map_eq_ok.1 hmap with ⟨⟨a, s₁⟩, hsome, rfl⟩
    rcases Outcome.map_eq_ok.1 (ho.trans hsome) with ⟨⟨⟨a', state⟩, trail⟩, hr, heq⟩
    rcases Prod.mk.inj heq with ⟨_, rfl⟩
    exact ⟨rfl, rfl, (hact.holds _ _ _ _ _ hnoted hr).1⟩
  -- Adding listeners and resolvers leaves the state alone, and the rest are actions.
  cases op with
  | addProject spec => cases hop
  | addResolver resolver =>
      rw [← Except.ok.inj hrun]
      exact ⟨rfl, rfl, hs⟩
  | addListener listener =>
      rw [← Except.ok.inj hrun]
      exact ⟨rfl, rfl, hs⟩
  | reference x => exact hacts rfl hrun (htracks.referenceOf x)
  | normalize ty node => exact hacts rfl hrun (htypes ty node)
  | extract => exact hacts rfl hrun (Context.keeps_extract hfiles)
  | extractFile file => exact hacts rfl hrun (hfiles file)
  | resolveModule file => exact hacts rfl hrun (htracks.resolveModule? file)

/-- What a project adds. -/
theorem addProject_moves {spec : ProjectSpec} {i : Nat} (hadd : s.addProject spec = .ok (i, s')) :
    s'.context = s.context ∧
    ∃ project, NewProject s.context.settings.passthroughModules s.state.projects project ∧
      s'.state = { s.state with projects := s.state.projects ++ [project] } := by
  unfold addProject at hadd
  split at hadd
  · exact nomatch hadd
  · split at hadd
    · exact nomatch hadd
    · -- The session has checked the name.
      rename_i hname
      rcases Prod.mk.inj (Except.ok.inj hadd) with ⟨_, rfl⟩
      refine ⟨rfl, _, ⟨fun hmem => ?_, rfl⟩, rfl⟩
      rcases List.mem_map.1 hmem with ⟨project, hp, heq⟩
      exact hname (List.any_eq_true.2 ⟨project, hp, beq_iff_eq.2 heq⟩)

/-- An operation that adds no project is a chain of changes. -/
theorem perform_from (hl : Ty.Law s.context.settings.maxTypeDepth law)
    (hs : s.context.Grounded s.state) {op : Operation} (hop : op.addsProject = false)
    (hrun : s.perform op = .ok s') :
    s'.context.program = s.context.program ∧ s'.context.settings = s.context.settings ∧
      s.context.From law s.state s.state.depth s'.state := by
  have hkeep := (s.context.orderly hl s.context.steps).keep hs s.state.depth
  have hexplores := Context.explores hl hs s.state.depth
  exact perform_keep hexplores.toTracks hexplores.extractFile
    (fun ty node => Context.From.keeps (hkeep.normalize ty node none)) hop (.refl s.state)
    (.refl s.state) hrun

/-- Whatever is done, it moves the session. -/
theorem perform_moves (hl : Ty.Law s.context.settings.maxTypeDepth law)
    (hs : s.context.Grounded s.state) {op : Operation} (hrun : s.perform op = .ok s') :
    Moves law s s' := by
  cases hop : op.addsProject with
  | false =>
      rcases perform_from hl hs hop hrun with ⟨hprogram, hsettings, hfrom⟩
      exact ⟨hprogram, hsettings, Or.inl hfrom⟩
  | true =>
      cases op with
      | addProject spec =>
          simp only [perform] at hrun
          split at hrun
          · rename_i i s₁ hadd
            rw [← Except.ok.inj hrun]
            rcases addProject_moves hadd with ⟨hcontext, hstate⟩
            exact ⟨by rw [hcontext], by rw [hcontext], Or.inr hstate⟩
          · rw [← Except.ok.inj hrun]
            exact ⟨rfl, rfl, Or.inl (.refl s.state)⟩
      | _ => cases hop

/-- A move leaves a session in order. -/
theorem Moves.grounded (h : Moves law s s') (hs : s.context.Grounded s.state) :
    s'.context.Grounded s'.state := by
  rw [Context.Grounded, h.settings]
  rcases h.state with hfrom | ⟨project, hnew, heq⟩
  · exact hfrom.grounded hs
  · rw [heq]
    exact hnew.grounded hs

end

/-- What holds of a session in order, and is kept by every move, holds after a run. -/
theorem performAll_induct {law : Nat → Ty → Prop} {s s' : Session} (inv : Session → Prop)
    (hmove : ∀ s s', s.context.Grounded s.state → Moves law s s' → inv s → inv s')
    (hl : Ty.Law s.context.settings.maxTypeDepth law) (hs : s.context.Grounded s.state)
    (hinv : inv s) (ops : List Operation) (hops : s.performAll ops = .ok s') :
    s'.context.Grounded s'.state ∧ inv s' := by
  induction ops generalizing s with
  | nil =>
      rw [← Except.ok.inj hops]
      exact ⟨hs, hinv⟩
  | cons op ops ih =>
      rw [performAll, List.foldlM_cons] at hops
      rcases Outcome.bind_eq_ok.1 hops with ⟨s₁, hop, hops⟩
      -- The settings stay, and so does what is laid down about types.
      have hmoves := perform_moves hl hs hop
      refine ih ?_ (hmoves.grounded hs) (hmove s s₁ hs hmoves hinv) hops
      rw [hmoves.settings]
      exact hl

/-- A session starts in order. -/
theorem grounded_start (program : Program) (settings : Settings) (steps : Nat) :
    (start program settings steps).context.Grounded (start program settings steps).state := by
  refine ⟨⟨List.nodup_nil, ?_, ?_⟩, ?_, fun x h hx => ?_⟩
  · exact List.forall_mem_nil _
  · exact List.forall_mem_nil _
  · exact List.forall_mem_nil _
  · exact nomatch hx

/-- After any run, the state of a session is in order. -/
theorem performAll_grounded (program : Program) (settings : Settings) (steps : Nat)
    (ops : List Operation) (s : Session)
    (hops : (start program settings steps).performAll ops = .ok s) :
    s.context.Grounded s.state :=
  (performAll_induct (fun _ => True) (fun _ _ _ _ _ => trivial) (Ty.law_true _)
    (grounded_start program settings steps) trivial ops hops).1

end Session

end DocModel
