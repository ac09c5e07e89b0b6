import DocModel.Proofs.Operations

/-!
# Documentation is closed under its references

A reference with a path promises a reader that what it refers to can be found in the same
documentation: a declaration of its kind and name in the module at the path, a member of an
enumeration in that module, or a module below it.

The promise is made early. A reference is entered before its declaration is built, and in the
meantime it may get into other declarations, which may be attached first. So the promise cannot be
kept at every moment; what holds at every moment is that the declaration is open or attached.
Between operations nothing is open, and then the promise is kept.

## Main definitions

* `Documentation.moduleAt?`: The module at a path, in the project that the path starts with.
* `Documentation.Resolves`: What a reference refers to is in the documentation.

## Theorems

* `Trees.moduleAt?_childrenPath`: The names of a module lead to it.
* `Moment.resolves_declaration`, `Moment.resolves_member`: What was attached is found.
* `Session.occurring_resolves`: Every reference with a path resolves, after any run.
-/

namespace DocModel

/-- The module at a path of names, in the project that the first of them names. -/
def Documentation.moduleAt? (d : Documentation) (path : List String) : Option Module := do
  let name ← path.head?
  let project ← d.projects.find? (·.name == name)
  let id ← project.modules.find? path
  project.modules.get? id

/-- What a reference with the given path refers to is in the documentation. -/
def Documentation.Resolves (d : Documentation) (r : Reference) (path : List String) : Prop :=
  match r.kind with
  | .enumMember => ∃ outer, r.parent = some outer ∧ outer.kind = .enum ∧ outer.path = some path ∧
      ∃ m, d.moduleAt? path = some m ∧ ∃ body ∈ m.enums, body.name = outer.name ∧
        ∃ member ∈ body.members, member.name = r.name
  | .module => ∃ m, d.moduleAt? (path ++ [r.name]) = some m ∧ m.path = path ∧ m.name = r.name
  | kind => ∃ m, d.moduleAt? path = some m ∧
      ∃ decl ∈ m.declarations, decl.kind = kind ∧ decl.name = r.name

/-- No two projects share a name, so a project is the one that its name finds. -/
theorem Trees.find?_name {projects : List Project} (h : Trees projects) (project : Project)
    (hp : project ∈ projects) : projects.find? (·.name == project.name) = some project := by
  cases hf : projects.find? (·.name == project.name) with
  | none => exact absurd (beq_iff_eq.2 rfl) (List.find?_eq_none.1 hf project hp)
  | some found =>
      -- The search stops at the first project of the name, and there is only one.
      have hname : found.name = project.name := by simpa only [beq_iff_eq] using List.find?_some hf
      rw [List.inj_on_of_nodup_map h.names (List.mem_of_find?_eq_some hf) hp hname]

/-- The first name finds the project, and all of them find the module in it. -/
theorem Trees.moduleAt?_of_find? {projects : List Project} (h : Trees projects)
    (project : Project) (hp : project ∈ projects) (path : List String) (id : ModuleId)
    (hhead : path.head? = some project.name) (hf : project.modules.find? path = some id) :
    Documentation.moduleAt? ⟨projects⟩ path = project.modules.get? id := by
  simp only [Documentation.moduleAt?, Option.bind_eq_bind, hhead, Option.bind_some,
    h.find?_name project hp, hf]

/-- The names of a module lead to it. -/
theorem Trees.moduleAt?_childrenPath {projects : List Project} (h : Trees projects)
    (handle : ModuleHandle) (m : Module) (hm : moduleIn projects handle = some m) :
    Documentation.moduleAt? ⟨projects⟩ m.childrenPath = some m := by
  rcases Option.bind_eq_some_iff.1 hm with ⟨project, hp, hm⟩
  rcases h.finds handle.project project hp handle.module m hm with ⟨hhead, hf⟩
  rw [h.moduleAt?_of_find? project (List.mem_of_getElem? hp) m.childrenPath handle.module hhead hf,
    hm]

/-- Names that lead to a module lead to one that stands there. -/
theorem Trees.exists_moduleAt? {projects : List Project} (h : Trees projects) {path : List String}
    {name : String} (hf : FindsModule projects (path ++ [name])) :
    ∃ m, Documentation.moduleAt? ⟨projects⟩ (path ++ [name]) = some m ∧ m.path = path ∧
      m.name = name := by
  rcases hf with ⟨project, hp, hhead, id, hf⟩
  rcases (h.sound project hp).get?_of_find? _ id hf with ⟨m, hm, hplace⟩
  refine ⟨m, by rw [h.moduleAt?_of_find? project hp _ id hhead hf, hm], ?_⟩
  rw [(h.sound project hp).childrenPath id m hm] at hplace
  -- A path of names ends in the name of the module, and the rest is its path.
  rcases List.append_inj' hplace rfl with ⟨hpath, hname⟩
  exact ⟨hpath, List.head_eq_of_cons_eq hname⟩

namespace Moment

variable {p : Program} (m : Moment p)

/-- An attached declaration is found where its reference says. -/
theorem exists_declaration (a : Attachment) (ha : a ∈ m.attached) (path : List String)
    (hpath : a.reference.path = some path) :
    ∃ module, Documentation.moduleAt? ⟨m.state.projects⟩ path = some module ∧
      a.declaration ∈ module.declarations := by
  -- What was attached has an entry, and the entry says which module it is placed in.
  have hmem : a.toEntry ∈ m.opened ++ m.attached.map (·.toEntry) :=
    List.mem_append_right _ (List.mem_map.2 ⟨a, ha, rfl⟩)
  rcases (m.entries.valid a.toEntry hmem).placed with ⟨module, hmodule, hplace⟩
  rw [hpath, Option.some.injEq] at hplace
  refine ⟨module, ?_, ?_⟩
  · rw [hplace]
    exact m.trees.moduleAt?_childrenPath a.handle module hmodule
  · refine (m.content.declarations_perm a.handle module hmodule).mem_iff.2 ?_
    exact List.mem_map.2 ⟨a, List.mem_filter.2 ⟨ha, decide_eq_true rfl⟩, rfl⟩

/-- The reference of an attached declaration resolves to it. -/
theorem resolves_declaration (r : Reference) (path : List String) (hpath : r.path = some path)
    (hkind : r.kind.isDeclaration = true)
    (h : ∃ e ∈ m.attached.map (·.toEntry), e.reference = r) :
    Documentation.Resolves ⟨m.state.projects⟩ r path := by
  rcases h with ⟨e, he, rfl⟩
  rcases List.mem_map.1 he with ⟨a, ha, rfl⟩
  rcases m.exists_declaration a ha path hpath with ⟨module, hmodule, hd⟩
  have hfits := m.content.fits a ha
  unfold Documentation.Resolves
  -- The two kinds that are treated apart are not those of declarations.
  split
  · rename_i hk
    rw [hk] at hkind
    exact absurd hkind Bool.false_ne_true
  · rename_i hk
    rw [hk] at hkind
    exact absurd hkind Bool.false_ne_true
  · exact ⟨module, hmodule, a.declaration, hd, hfits.kind, hfits.name⟩

/-- The reference of a member resolves to the enumeration that lists it. -/
theorem resolves_member (r : Reference) (path : List String) (hkind : r.kind = .enumMember)
    (h : ∃ e ∈ m.attached.map (·.toEntry), r.parent = some e.reference ∧
      e.reference.kind = .enum ∧ e.reference.path = some path ∧
      r.name ∈ p.memberNames e.symbol) :
    Documentation.Resolves ⟨m.state.projects⟩ r path := by
  rcases h with ⟨e, he, hparent, hek, hep, hname⟩
  rcases List.mem_map.1 he with ⟨a, ha, rfl⟩
  rcases m.exists_declaration a ha path hep with ⟨module, hmodule, hd⟩
  have hfits := m.content.fits a ha
  -- A declaration whose reference is that of an enumeration is one.
  rcases hdecl : a.declaration with body | body | body | body | body | body
  case enum =>
    have hmembers := hfits.members body hdecl
    have hbody : body ∈ module.enums := by
      rw [hdecl] at hd
      simpa only [Module.declarations, List.mem_append, List.mem_map, reduceCtorEq, and_false,
        exists_false, Declaration.enum.injEq, exists_eq_right, false_or, or_false] using hd
    rw [← hmembers] at hname
    rcases List.mem_map.1 hname with ⟨member, hmember, hname⟩
    have hbodyName : body.name = a.reference.name := by
      rw [← hfits.name, hdecl]
      rfl
    rw [Documentation.Resolves, hkind]
    exact ⟨a.reference, hparent, hek, hep, module, hmodule, body, hbody, hbodyName, member,
      hmember, hname⟩
  all_goals
    have hk := hfits.kind
    rw [hdecl, hek] at hk
    exact absurd hk (by simp only [Declaration.kind, reduceCtorEq, not_false_eq_true])

end Moment

/-- After any run that comes to an end, every reference with a path that occurs in the registry or
    in the documentation refers to something in the documentation. -/
theorem Session.occurring_resolves (program : Program) (settings : Settings) (steps : Nat)
    (ops : List Operation) (s : Session)
    (hops : (start program settings steps).performAll ops = .ok s) (r : Reference)
    (path : List String) (hr : s.Occurs r) (hpath : r.path = some path) :
    s.finish.Resolves r path := by
  rcases performAll_isAt (isAt_start program settings steps) ops hops with ⟨m, hat, _⟩
  have hdoc := hat.documented hr hpath
  have hfinish : s.finish = ⟨m.state.projects⟩ := by
    rw [hat.state]
    rfl
  rw [hfinish]
  -- A reference with a path is that of a declaration, of a member, or of a module.
  rcases hdoc.kind with hk | hk | hk
  · exact m.resolves_declaration r path hpath hk (hdoc.declaration hk)
  · exact m.resolves_member r path hk (hdoc.member hk)
  · rw [Documentation.Resolves, hk]
    exact m.trees.exists_moduleAt? (hdoc.module hk)

/-- In the sample, a member of an enumeration is mentioned by a class that is attached before the
    enumeration is. -/
theorem Session.occurring_resolves_sample :
    ∃ s r path, (start .sample {} 30).performAll (Operation.sampleSetup ++ [.extract]) = .ok s ∧
      s.Occurs r ∧ r.kind = .enumMember ∧ r.path = some path ∧ s.finish.Resolves r path := by
  have hrun : ((start .sample {} 30).performAll (Operation.sampleSetup ++ [.extract])).toOption.any
      (fun s => s.finish.mentions.any fun r => r.kind == .enumMember && r.path.isSome) = true := by
    decide +kernel
  rcases Outcome.of_any hrun with ⟨s, hs, hany⟩
  rcases List.any_eq_true.1 hany with ⟨r, hr, hkind⟩
  rw [Bool.and_eq_true, beq_iff_eq] at hkind
  rcases Option.isSome_iff_exists.1 hkind.2 with ⟨path, hpath⟩
  exact ⟨s, r, path, hs, Or.inr hr, hkind.1, hpath,
    occurring_resolves .sample {} 30 _ s hs r path (Or.inr hr) hpath⟩

end DocModel
