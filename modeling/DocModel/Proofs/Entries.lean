import DocModel.Proofs.Ledger

/-!
# Registered declarations

A declaration goes through three stages. Its reference is entered; then it is built, and while that
lasts it is open; then it is attached to its module. A reference may be mentioned by others from the
first stage on, so it can stand in documentation at a time when what it refers to does not. `Entry`
is what is known from the first stage on, and `Attachment` what is known at the end.

Modules hold nothing but attachments: what is in a module is what was attached to it, in that order.
So a statement about what documentation contains is one about the list of attachments.

## Main definitions

* `Entry`, `Attachment`: A declaration that is open or attached, and one that is attached.
* `Declaration.Fits`: A declaration is what its reference says.
* `IsDocumented`: What a reference with a path refers to is open or attached.
* `Entry.Valid`, `Entries`: Entries are registered once, where their references say.
* `gather`, `Content`: What is in modules is what was attached to them.

## Theorems

* `IsDocumented.mono`, `Entry.Valid.mono`: Neither is lost when projects and registries grow.
* `Entries.cons`: A new entry.
* `Content.declarations_perm`: The declarations of a module are those that were attached to it.
* `Content.attach`, `Content.enterExports`: Attaching a declaration, and entering exports.
-/

namespace DocModel

/-- A declaration whose reference has been entered. -/
structure Entry where
  symbol : SymbolId
  reference : Reference
  /-- The module that it belongs to. -/
  handle : ModuleHandle

/-- A declaration that has been attached. -/
structure Attachment extends Entry where
  declaration : Declaration
  /-- The module as it was before. -/
  module : Module
  /-- Who was told. -/
  listeners : List String

/-- What listeners are told about a declaration, in order. -/
def Attachment.notices (a : Attachment) : List Notice :=
  a.listeners.map fun listener => ⟨listener, a.declaration, a.reference, a.module⟩

/-- The kind of the references to a declaration. -/
def Declaration.kind : Declaration → ReferenceKind
  | classType _ => .classType
  | interface _ => .interface
  | enum _ => .enum
  | function _ => .function
  | constant _ => .constant
  | typeAlias _ => .typeAlias

/-- A declaration is what its reference says: it has the name and the kind, and an enumeration has
    the members that its symbol has. -/
structure Declaration.Fits (p : Program) (x : SymbolId) (ref : Reference) (d : Declaration) :
    Prop where
  name : d.name = ref.name
  kind : d.kind = ref.kind
  members : ∀ (body : EnumDeclaration), d = .enum body →
    body.members.map (·.name) = p.memberNames x

/-- What a reference with a path refers to is open, attached, or a module. -/
structure IsDocumented (p : Program) (projects : List Project) (entries : List Entry)
    (ref : Reference) (path : List String) : Prop where
  /-- Only these kinds of references have a path. -/
  kind : ref.kind.isDeclaration = true ∨ ref.kind = .enumMember ∨ ref.kind = .module
  declaration : ref.kind.isDeclaration = true → ∃ e ∈ entries, e.reference = ref
  member : ref.kind = .enumMember → ∃ e ∈ entries, ref.parent = some e.reference ∧
    e.reference.kind = .enum ∧ e.reference.path = some path ∧ ref.name ∈ p.memberNames e.symbol
  module : ref.kind = .module → FindsModule projects (path ++ [ref.name])

/-- What is documented stays so, as projects grow and entries are added. -/
theorem IsDocumented.mono {p : Program} {projects projects' : List Project}
    {entries entries' : List Entry} {ref : Reference} {path : List String}
    (h : IsDocumented p projects entries ref path) (hp : ProjectsExtend p projects projects')
    (he : ∀ e ∈ entries, e ∈ entries') : IsDocumented p projects' entries' ref path := by
  refine ⟨h.kind, fun hk => ?_, fun hk => ?_, fun hk => hp.finds _ (h.module hk)⟩
  · rcases h.declaration hk with ⟨e, hmem, hr⟩
    exact ⟨e, he e hmem, hr⟩
  · rcases h.member hk with ⟨e, hmem, hr⟩
    exact ⟨e, he e hmem, hr⟩

/-- A reference to a module leads to it. -/
theorem IsDocumented.of_module {p : Program} {projects : List Project} {entries : List Entry}
    {ref : Reference} {path : List String} (hk : ref.kind = .module)
    (hf : FindsModule projects (path ++ [ref.name])) :
    IsDocumented p projects entries ref path := by
  refine ⟨Or.inr (Or.inr hk), fun hd => ?_, fun hm => ?_, fun _ => hf⟩
  · rw [hk] at hd
    exact absurd hd Bool.false_ne_true
  · rw [hk] at hm
    cases hm

/-- An entry is registered, belongs to the analysed sources and to the module its reference names.
-/
structure Entry.Valid (p : Program) (projects : List Project) (r : Registry) (e : Entry) :
    Prop where
  entered : r.find? e.symbol = some e.reference
  own : p.IsOwn e.symbol
  kind : e.reference.kind.isDeclaration = true
  declared : ∃ info node, p.symbol? e.symbol = some info ∧ info.name = e.reference.name ∧
    p.declarationOf? info = some node ∧ p.isOutside projects node.file = false
  placed : ∃ m, moduleIn projects e.handle = some m ∧ e.reference.path = some m.childrenPath

/-- A valid entry stays valid. -/
theorem Entry.Valid.mono {p : Program} {projects projects' : List Project} {r r' : Registry}
    {e : Entry} (h : e.Valid p projects r) (hp : ProjectsExtend p projects projects')
    (hr : r.Keeps p r') : e.Valid p projects' r' := by
  refine ⟨hr _ _ h.own.isPlain h.entered, h.own, h.kind, ?_, ?_⟩
  · rcases h.declared with ⟨info, node, hinfo, hname, hnode, hfile⟩
    exact ⟨info, node, hinfo, hname, hnode, hp.inside _ hfile⟩
  · rcases h.placed with ⟨m, hm, hpath⟩
    rcases hp.module e.handle m hm with ⟨m', hm', hg⟩
    exact ⟨m', hm', by rw [hpath, hg.childrenPath]⟩

/-- Every entry is valid, and no symbol has two. -/
structure Entries (p : Program) (projects : List Project) (r : Registry) (entries : List Entry) :
    Prop where
  valid : ∀ e ∈ entries, e.Valid p projects r
  nodup : (entries.map (·.symbol)).Nodup

namespace Entries

variable {p : Program} {projects projects' : List Project} {r r' : Registry}
  {entries entries' : List Entry}

theorem mono (h : Entries p projects r entries) (hp : ProjectsExtend p projects projects')
    (hr : r.Keeps p r') : Entries p projects' r' entries :=
  ⟨fun e he => (h.valid e he).mono hp hr, h.nodup⟩

theorem perm (h : Entries p projects r entries) (hp : entries.Perm entries') :
    Entries p projects r entries' :=
  ⟨fun e he => h.valid e (hp.mem_iff.2 he), (hp.map _).nodup_iff.1 h.nodup⟩

/-- A new entry, for a symbol that had no reference. -/
theorem cons (h : Entries p projects r entries) (hr : r.Keeps p r') (e : Entry)
    (hnone : r.find? e.symbol = none) (he : e.Valid p projects r') :
    Entries p projects r' (e :: entries) := by
  refine ⟨fun e' he' => ?_, ?_⟩
  · rcases List.mem_cons.1 he' with rfl | he'
    · exact he
    · exact (h.valid e' he').mono ((ProjectsGrow.refl projects).extend p) hr
  · -- The symbol of the entry is not among those of the others.
    rw [List.map_cons, List.nodup_cons]
    refine ⟨fun hmem => ?_, h.nodup⟩
    rcases List.mem_map.1 hmem with ⟨e', he', hsym⟩
    -- A symbol with an entry has a reference, and this one had none.
    have hentered := (h.valid e' he').entered
    rw [hsym, hnone] at hentered
    cases hentered

end Entries

/-- A module without its place and its exports. -/
def Module.declared (m : Module) : Module := { m.content with exports := ∅ }

/-- What is declared in a module of one of the projects. -/
def declaredIn (projects : List Project) (h : ModuleHandle) : Module :=
  { contentIn projects h with exports := ∅ }

/-- What attachments put into a module. -/
def gather (attached : List Attachment) (h : ModuleHandle) : Module :=
  ((attached.filter (·.handle = h)).map (·.declaration)).foldl Module.addDeclaration Module.blank

/-- One more attachment adds to its own module, and to no other. -/
theorem gather_append (attached : List Attachment) (a : Attachment) (h : ModuleHandle) :
    gather (attached ++ [a]) h =
      if a.handle = h then (gather attached h).addDeclaration a.declaration
      else gather attached h := by
  unfold gather
  rw [List.filter_append, List.map_append, List.foldl_append]
  -- The attachment passes the filter of its own module only.
  by_cases hh : a.handle = h
  · have ha : [a].filter (·.handle = h) = [a] :=
      List.filter_cons_of_pos (by simp only [hh, decide_true])
    rw [if_pos hh, ha]
    rfl
  · have ha : [a].filter (·.handle = h) = [] :=
      List.filter_cons_of_neg (by
        simp only [hh, decide_false, Bool.false_eq_true, not_false_eq_true])
    rw [if_neg hh, ha]
    rfl

/-- Adding a declaration has nothing to do with place and exports. -/
theorem declared_addDeclaration (m : Module) (d : Declaration) :
    (m.addDeclaration d).declared = m.declared.addDeclaration d := by
  cases d <;> rfl

/-- Appending a declaration to the list of its sort adds it to the declarations, somewhere. -/
theorem declarations_addDeclaration (m : Module) (d : Declaration) :
    (m.addDeclaration d).declarations.Perm (d :: m.declarations) := by
  rw [List.perm_iff_count]
  intro e
  cases d <;>
    simp only [Module.addDeclaration, Module.declarations, List.map_append, List.map_cons,
      List.map_nil, List.count_append, List.count_cons, List.count_nil] <;>
    omega

/-- The declarations of what was gathered are those that were attached. -/
theorem declarations_gather (attached : List Attachment) (h : ModuleHandle) :
    (gather attached h).declarations.Perm
      ((attached.filter (·.handle = h)).map (·.declaration)) := by
  -- The fold may start from any module.
  have hfold : ∀ (ds : List Declaration) (m : Module),
      (ds.foldl Module.addDeclaration m).declarations.Perm (ds ++ m.declarations) := by
    intro ds
    induction ds with
    | nil => exact fun m => List.Perm.refl _
    | cons d ds ih =>
        intro m
        refine (ih (m.addDeclaration d)).trans ?_
        refine ((declarations_addDeclaration m d).append_left ds).trans ?_
        exact List.perm_middle
  have hgather := hfold ((attached.filter (·.handle = h)).map (·.declaration)) Module.blank
  rwa [show Module.blank.declarations = [] from rfl, List.append_nil] at hgather

/-- What is in modules is what was attached to them, and what it mentions was made. -/
structure Content (p : Program) (projects : List Project) (made : Reference → Prop)
    (attached : List Attachment) : Prop where
  gathered : ∀ (h : ModuleHandle), declaredIn projects h = gather attached h
  exports : ∀ (h : ModuleHandle) (e : String × FileExports),
    e ∈ (contentIn projects h).exports.entries → ∀ ref ∈ e.2.mentions, made ref
  mentions : ∀ a ∈ attached, ∀ ref ∈ a.declaration.mentions, made ref
  fits : ∀ a ∈ attached, a.declaration.Fits p a.symbol a.reference
  /-- A listener sees the module with what was attached to it before. -/
  told : ∀ (before after : List Attachment) (a : Attachment), attached = before ++ a :: after →
    a.module.declared = gather before a.handle ∧ a.reference.path = some a.module.childrenPath

namespace Content

variable {p : Program} {projects projects' : List Project} {made made' : Reference → Prop}
  {attached : List Attachment}

/-- What is in modules stays as it was while their content does, and what was made stays made. -/
theorem mono (h : Content p projects made attached)
    (hc : ∀ (h : ModuleHandle), contentIn projects' h = contentIn projects h)
    (hm : ∀ (ref : Reference), made ref → made' ref) : Content p projects' made' attached := by
  refine ⟨fun handle => ?_, fun handle e he ref hr => ?_, fun a ha ref hr => ?_, h.fits, h.told⟩
  · unfold declaredIn
    rw [hc]
    exact h.gathered handle
  · rw [hc] at he
    exact hm ref (h.exports handle e he ref hr)
  · exact hm ref (h.mentions a ha ref hr)

/-- The declarations of an attachment's module. -/
theorem declared_eq (h : Content p projects made attached) (handle : ModuleHandle) (m : Module)
    (hm : moduleIn projects handle = some m) : m.declared = gather attached handle := by
  rw [← h.gathered handle, declaredIn, contentIn, hm]
  rfl

/-- The declarations of a module are those that were attached to it. -/
theorem declarations_perm (h : Content p projects made attached) (handle : ModuleHandle)
    (m : Module) (hm : moduleIn projects handle = some m) :
    m.declarations.Perm ((attached.filter (·.handle = handle)).map (·.declaration)) := by
  have hgather := declarations_gather attached handle
  rw [← h.declared_eq handle m hm] at hgather
  exact hgather

/-- A declaration of a module was attached to it. -/
theorem exists_attachment (h : Content p projects made attached) (handle : ModuleHandle)
    (m : Module) (hm : moduleIn projects handle = some m) (d : Declaration)
    (hd : d ∈ m.declarations) : ∃ a ∈ attached, a.handle = handle ∧ a.declaration = d := by
  rcases List.mem_map.1 ((h.declarations_perm handle m hm).mem_iff.1 hd) with ⟨a, ha, heq⟩
  rcases List.mem_filter.1 ha with ⟨ha, hhandle⟩
  exact ⟨a, ha, of_decide_eq_true hhandle, heq⟩

/-- Attaching a declaration that mentions nothing but what was made. -/
theorem attach (h : Content p projects made attached) (a : Attachment) (project : Project)
    (hp : projects[a.handle.project]? = some project)
    (hm : project.modules.get? a.handle.module = some a.module)
    (hpath : a.reference.path = some a.module.childrenPath)
    (hmentions : ∀ ref ∈ a.declaration.mentions, made ref)
    (hfits : a.declaration.Fits p a.symbol a.reference) :
    Content p (withTree projects a.handle.project
      (project.modules.update a.handle.module (·.addDeclaration a.declaration))) made
      (attached ++ [a]) := by
  have hmodule : moduleIn projects a.handle = some a.module := by
    rw [moduleIn, hp, Option.bind_some, hm]
  have hcontent := fun h' => contentIn_update projects a.handle h' project hp a.module hm
    (·.addDeclaration a.declaration)
  refine ⟨fun h' => ?_, fun h' e he ref hr => ?_, fun a' ha ref hr => ?_, fun a' ha => ?_,
    fun before after a' heq => ?_⟩
  · -- The declaration goes to the module of the attachment, and other modules stay as they are.
    rw [declaredIn, hcontent, gather_append]
    by_cases hh : h' = a.handle
    · rw [if_pos hh, if_pos hh.symm, hh, ← h.declared_eq a.handle a.module hmodule,
        ← declared_addDeclaration]
      rfl
    · rw [if_neg hh, if_neg (fun hc => hh hc.symm)]
      exact h.gathered h'
  · -- A declaration leaves the exports of its module as they are.
    refine h.exports h' e ?_ ref hr
    rw [hcontent] at he
    by_cases hh : h' = a.handle
    · rw [if_pos hh] at he
      rw [hh, contentIn, hmodule]
      cases hd : a.declaration <;> rw [hd] at he <;> exact he
    · rw [if_neg hh] at he
      exact he
  · rcases List.mem_append.1 ha with ha | ha
    · exact h.mentions a' ha ref hr
    · rw [List.mem_singleton.1 ha] at hr
      exact hmentions ref hr
  · rcases List.mem_append.1 ha with ha | ha
    · exact h.fits a' ha
    · rw [List.mem_singleton.1 ha]
      exact hfits
  · -- Either the new attachment is looked at, or it is the last of those behind.
    rcases List.eq_nil_or_concat after with rfl | ⟨after', b, rfl⟩
    · rcases List.append_inj' heq rfl with ⟨rfl, ha⟩
      rw [← List.head_eq_of_cons_eq ha]
      exact ⟨h.declared_eq a.handle a.module hmodule, hpath⟩
    · rw [List.concat_eq_append, ← List.cons_append, ← List.append_assoc] at heq
      exact h.told before after' a' (List.append_inj' heq rfl).1

/-- Entering the exports of a file, which mention nothing but what was made. -/
theorem enterExports (h : Content p projects made attached) (handle : ModuleHandle)
    (project : Project) (hp : projects[handle.project]? = some project) (m : Module)
    (hm : project.modules.get? handle.module = some m) (file : String) (exports : FileExports)
    (hmentions : ∀ ref ∈ exports.mentions, made ref) :
    Content p (withTree projects handle.project (project.modules.update handle.module
      fun m => { m with exports := m.exports.insert file exports })) made attached := by
  have hmodule : moduleIn projects handle = some m := by
    rw [moduleIn, hp, Option.bind_some, hm]
  have hcontent := fun h' => contentIn_update projects handle h' project hp m hm
    (fun m => { m with exports := m.exports.insert file exports })
  refine ⟨fun h' => ?_, fun h' e he ref hr => ?_, h.mentions, h.fits, h.told⟩
  · -- Exports are not among what is declared.
    rw [declaredIn, hcontent]
    by_cases hh : h' = handle
    · rw [if_pos hh, hh]
      exact h.declared_eq handle m hmodule
    · rw [if_neg hh]
      exact h.gathered h'
  · rw [hcontent] at he
    by_cases hh : h' = handle
    · rw [if_pos hh] at he
      -- The exports of a file are old ones or those that are entered.
      rcases Table.mem_insert_cases he with he | ⟨_, he⟩
      · refine h.exports handle e ?_ ref hr
        rw [contentIn, hmodule]
        exact he
      · rw [he] at hr
        exact hmentions ref hr
    · rw [if_neg hh] at he
      exact h.exports h' e he ref hr

end Content

end DocModel
