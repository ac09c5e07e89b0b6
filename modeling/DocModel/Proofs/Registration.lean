import DocModel.Proofs.Operations

/-!
# Declarations are registered once

However often a declaration is reached, and by whatever routes, it is attached once, and whoever
listens is told of it once. There is a list of attachments that accounts for everything: for what
modules hold, for the references in the registry that say something is declared, and for what
listeners have been told. In that list every declaration stands once.

The list is in the order in which declarations were attached, which is the order in which listeners
were told of them. A declaration is attached after listeners were told, so the module that they see
holds what stands before it in the list, and not the declaration itself.

## Main definitions

* `Session.Accounts`: A list of attachments accounts for what a session has registered.

## Theorems

* `Moment.nodup_ids`: No two attached declarations have references with the same number.
* `Session.IsAt.accounts`: The attachments of a moment account for everything.
* `Attachment.filter_notices`: Who listens under a name of its own is told of a declaration once.
* `Session.registers_once`: Registration happens once, in any run.
-/

namespace DocModel

/-- A list of attachments accounts for what a session has registered. -/
structure Session.Accounts (s : Session) (log : List Attachment) : Prop where
  /-- The module of a declaration is there, at the path of the reference. -/
  placed : ∀ a ∈ log, ∃ module, s.module? a.handle = some module ∧
    a.reference.path = some module.childrenPath
  /-- Modules hold what was attached to them, in that order. -/
  content : ∀ handle module, s.module? handle = some module → module.declared = gather log handle
  /-- Modules hold nothing else, and nothing more often than it was attached. -/
  declarations : ∀ handle module, s.module? handle = some module →
    module.declarations.Perm ((log.filter (·.handle = handle)).map (·.declaration))
  /-- A declaration is what its reference says, and the reference is that of its symbol. -/
  fits : ∀ a ∈ log, a.declaration.name = a.reference.name ∧
    a.declaration.kind = a.reference.kind ∧ s.state.registry.find? a.symbol = some a.reference
  /-- References have numbers of their own. -/
  nodup : (log.map (·.reference.id)).Nodup
  /-- They are the references in the registry that say something is declared. -/
  mem_ids : ∀ id, id ∈ log.map (·.reference.id) ↔ ∃ x r, s.state.registry.find? x = some r ∧
    r.id = id ∧ r.kind.isDeclaration = true ∧ r.path.isSome = true
  /-- What is attached is first declared in the analysed sources. -/
  inside : ∀ a ∈ log, ∃ info node, s.context.program.symbol? a.symbol = some info ∧
    s.context.program.declarationOf? info = some node ∧ s.isExternalFile node.file = false
  /-- Listeners were told of each declaration in turn. -/
  notices : s.state.notices = log.flatMap (·.notices)
  /-- The module that they saw holds what was attached to it before. -/
  seen : ∀ earlier a later, log = earlier ++ a :: later →
    a.reference.path = some a.module.childrenPath ∧
    a.module.declared = gather earlier a.handle ∧
    a.module.declarationCount + 1 = ((earlier ++ [a]).filter (·.handle = a.handle)).length

namespace Moment

variable {p : Program} (m : Moment p)

/-- What was attached is still entered as it was then. -/
theorem valid_of_mem (a : Attachment) (ha : a ∈ m.attached) :
    a.toEntry.Valid p m.state.projects m.state.registry :=
  m.entries.valid a.toEntry (List.mem_append_right _ (List.mem_map.2 ⟨a, ha, rfl⟩))

/-- No symbol has two attached declarations. -/
theorem nodup_symbols : (m.attached.map (·.symbol)).Nodup := by
  have hnodup := m.entries.nodup
  rw [List.map_append, List.map_map] at hnodup
  exact (List.nodup_append.1 hnodup).2.1

/-- No two attached declarations have references with the same number. -/
theorem nodup_ids : (m.attached.map (·.reference.id)).Nodup := by
  refine List.Nodup.map_on (fun a ha b hb hid => ?_) m.nodup_symbols.of_map
  have hva := m.valid_of_mem a ha
  have hvb := m.valid_of_mem b hb
  -- The same number means the same symbol, and no symbol has two declarations.
  have hsymbol := m.identity.own a.symbol b.symbol a.reference b.reference hva.own hvb.own
    hva.entered hvb.entered hid
  exact List.inj_on_of_nodup_map m.nodup_symbols ha hb hsymbol

/-- How many declarations a listener sees. -/
theorem declarationCount_seen (earlier later : List Attachment) (a : Attachment)
    (h : m.attached = earlier ++ a :: later) :
    a.module.declarationCount + 1 =
      ((earlier ++ [a]).filter (·.handle = a.handle)).length := by
  have hperm := declarations_gather earlier a.handle
  rw [← (m.content.told earlier later a h).1] at hperm
  have hcount : a.module.declarationCount =
      (earlier.filter (·.handle = a.handle)).length := by
    have hlength := hperm.length_eq
    rw [List.length_map] at hlength
    rw [← Module.length_declarations]
    exact hlength
  -- The declaration itself is the one that is missing from the count.
  have hlast : [a].filter (·.handle = a.handle) = [a] :=
    List.filter_cons_of_pos (decide_eq_true rfl)
  rw [List.filter_append, List.length_append, hlast, hcount, List.length_singleton]

end Moment

/-- The attachments of a moment account for everything. -/
theorem Session.IsAt.accounts {p : Program} {s : Session} {m : Moment p} (h : s.IsAt m) :
    s.Accounts m.attached := by
  rcases h with ⟨rfl, hstate, htrail, hopened⟩
  have hmodule : ∀ handle, s.module? handle = moduleIn m.state.projects handle := by
    intro handle
    rw [hstate]
    rfl
  refine ⟨fun a ha => ?_, fun handle module hm => ?_, fun handle module hm => ?_, fun a ha => ?_,
    m.nodup_ids, fun id => ⟨fun hid => ?_, fun hid => ?_⟩, fun a ha => ?_, ?_,
    fun earlier a later heq => ?_⟩
  · rw [hmodule]
    exact (m.valid_of_mem a ha).placed
  · rw [hmodule] at hm
    exact m.content.declared_eq handle module hm
  · rw [hmodule] at hm
    exact m.content.declarations_perm handle module hm
  · have hfits := m.content.fits a ha
    rw [← hstate]
    exact ⟨hfits.name, hfits.kind, (m.valid_of_mem a ha).entered⟩
  · rcases List.mem_map.1 hid with ⟨a, ha, rfl⟩
    have hvalid := m.valid_of_mem a ha
    rcases hvalid.placed with ⟨module, _, hpath⟩
    rw [← hstate]
    exact ⟨a.symbol, a.reference, hvalid.entered, rfl, hvalid.kind, by rw [hpath]; rfl⟩
  · -- Nothing is open, so what a reference in the registry says is declared was attached.
    rcases hid with ⟨x, r, hr, rfl, hkind, hpath⟩
    rcases Option.isSome_iff_exists.1 hpath with ⟨path, hpath⟩
    rw [← hstate] at hr
    have hdoc := m.documented r path (m.ledger.registry x r hr) hpath
    rw [hopened, List.nil_append] at hdoc
    rcases hdoc.declaration hkind with ⟨e, he, rfl⟩
    rcases List.mem_map.1 he with ⟨a, ha, rfl⟩
    exact List.mem_map.2 ⟨a, ha, rfl⟩
  · rcases (m.valid_of_mem a ha).declared with ⟨info, node, hinfo, _, hnode, hfile⟩
    rw [hstate] at hfile
    exact ⟨info, node, hinfo, hnode, hfile⟩
  · rw [← hstate]
    exact m.notices
  · have htold := m.content.told earlier later a heq
    exact ⟨htold.2, htold.1, m.declarationCount_seen earlier later a heq⟩

/-- Who listens under a name of its own is told of a declaration once. -/
theorem Attachment.filter_notices (a : Attachment) (listener : String)
    (h : a.listeners.count listener = 1) :
    a.notices.filter (·.listener = listener) =
      [⟨listener, a.declaration, a.reference, a.module⟩] := by
  have hfilter : a.listeners.filter (· = listener) = [listener] := by
    rw [List.filter_eq, h]
    rfl
  unfold notices
  rw [List.filter_map, show ((fun n : Notice => decide (n.listener = listener)) ∘ fun l =>
    (⟨l, a.declaration, a.reference, a.module⟩ : Notice)) = fun l => decide (l = listener) from rfl,
    hfilter]
  rfl

namespace Session

/-- Nothing was attached if modules hold nothing. -/
theorem Accounts.eq_nil {s : Session} {log : List Attachment} (h : s.Accounts log)
    (hnone : ∀ handle module, s.module? handle = some module → module.declarations = []) :
    log = [] := by
  cases log with
  | nil => rfl
  | cons a rest =>
      rcases h.placed a List.mem_cons_self with ⟨module, hmodule, _⟩
      have hperm := h.declarations a.handle module hmodule
      rw [hnone a.handle module hmodule, List.nil_perm, List.map_eq_nil_iff] at hperm
      have hmem : a ∈ (a :: rest).filter (·.handle = a.handle) :=
        List.mem_filter.2 ⟨List.mem_cons_self, decide_eq_true rfl⟩
      rw [hperm] at hmem
      exact absurd hmem List.not_mem_nil

/-- Who listens to all attachments under a name of its own is told of each once, in their order. -/
theorem Accounts.filter_notices {s : Session} {log : List Attachment} (h : s.Accounts log)
    (listener : String) (honce : ∀ a ∈ log, a.listeners.count listener = 1) :
    s.state.notices.filter (·.listener = listener) =
      log.map fun a => ⟨listener, a.declaration, a.reference, a.module⟩ := by
  rw [h.notices, List.filter_flatMap, List.map_eq_flatMap]
  exact List.flatMap_congr fun a ha => a.filter_notices listener (honce a ha)

/-- In any run that comes to an end there is a list of attachments that accounts for everything:
    each declaration was attached once, for a symbol that is declared in the analysed sources. Those
    who listened when no module held anything yet were told of each, once and in order. -/
theorem registers_once (program : Program) (settings : Settings) (steps : Nat)
    (before after : List Operation) (s₀ s : Session)
    (hbefore : (start program settings steps).performAll before = .ok s₀)
    (hnone : ∀ handle module, s₀.module? handle = some module → module.declarations = [])
    (hafter : s₀.performAll after = .ok s) :
    ∃ log : List Attachment, s.Accounts log ∧
      (∀ a ∈ log, s₀.context.listeners <+: a.listeners) ∧
      ∀ listener ∈ s₀.context.listeners, s.context.listeners.count listener = 1 →
        s.state.notices.filter (·.listener = listener) =
          log.map fun a => ⟨listener, a.declaration, a.reference, a.module⟩ := by
  rcases performAll_isAt (isAt_start program settings steps) before hbefore with ⟨m₀, hat₀, _⟩
  rcases performAll_isAt hat₀ after hafter with ⟨m, hat, hlater⟩
  rcases hlater.attached with ⟨more, hmore, hlisteners⟩
  -- Whoever listened at first listened to every attachment, because all of them came later.
  rw [hat₀.accounts.eq_nil hnone, List.nil_append] at hmore
  have haccounts := hat.accounts
  rw [hmore] at haccounts
  refine ⟨more, haccounts, fun a ha => (hlisteners a ha).1, fun listener hl hcount => ?_⟩
  refine haccounts.filter_notices listener fun a ha => ?_
  -- At least once because it listened from the start, at most once because of its name.
  have hle := (hlisteners a ha).2.sublist.count_le listener
  have hpos := List.count_pos_iff.2 ((hlisteners a ha).1.subset hl)
  omega

/-- In the sample, the class is reached while it is built, under another name, and once more after
    that. Two declarations are attached, and the listener is told of two. -/
theorem registers_once_sample :
    ∃ s₀ s log, (start .sample {} 30).performAll Operation.sampleSetup = .ok s₀ ∧
      s₀.performAll [.extract, .reference ⟨2⟩, .extract] = .ok s ∧ s.Accounts log ∧
      log.length = 2 ∧ s.state.notices.filter (·.listener = "log") =
        log.map fun a => ⟨"log", a.declaration, a.reference, a.module⟩ := by
  have hrun : ((start .sample {} 30).performAll Operation.sampleSetup).toOption.any (fun s₀ =>
      (s₀.state.projects.all fun project =>
        project.modules.modules.toList.all fun module => module.declarations.isEmpty) &&
      s₀.context.listeners == ["log"] &&
      (s₀.performAll [.extract, .reference ⟨2⟩, .extract]).toOption.any fun s =>
        s.context.listeners == ["log"] &&
        (s.state.notices.filter (·.listener = "log")).length == 2) = true := by
    decide +kernel
  -- The run starts with a listener and empty modules.
  rcases Outcome.of_any hrun with ⟨s₀, hbefore, hs₀⟩
  rw [Bool.and_eq_true, Bool.and_eq_true, beq_iff_eq] at hs₀
  rcases hs₀ with ⟨⟨hempty, hlistener⟩, hs⟩
  rcases Outcome.of_any hs with ⟨s, hafter, hs⟩
  rw [Bool.and_eq_true, beq_iff_eq, beq_iff_eq] at hs
  have hnone : ∀ handle module, s₀.module? handle = some module → module.declarations = [] := by
    intro handle module hm
    rcases Option.bind_eq_some_iff.1 hm with ⟨project, hp, hm⟩
    have hmodules := List.all_eq_true.1 hempty project (List.mem_of_getElem? hp)
    refine List.isEmpty_iff.1 (List.all_eq_true.1 hmodules module ?_)
    exact Array.mem_toList_iff.2 (Array.mem_of_getElem? hm)
  rcases registers_once .sample {} 30 _ _ s₀ s hbefore hnone hafter with ⟨log, hlog, _, htold⟩
  have hone := htold "log" (by rw [hlistener]; exact List.mem_singleton_self _)
    (by rw [hs.1]; rfl)
  refine ⟨s₀, s, log, hbefore, hafter, hlog, ?_, hone⟩
  rw [← hs.2, hone, List.length_map]

end Session

end DocModel
