import DocModel.Proofs.Alias
import DocModel.Proofs.Projects
import DocModel.Session.Register

/-!
# Which symbols have references

What can be said of a symbol before an extraction has begun, from the program and the projects
alone.

Asking for a symbol gives no reference if the symbol leads nowhere, or if it is declared in the
analysed sources by something that cannot be registered. That does not depend on what happened
before, with one exception: a member of an enumeration has no reference until the enumeration has
come to it. Members are therefore left out of `HasReference`, and kept apart throughout.

## Main definitions

* `Program.isEnumMember`, `Program.IsPlain`, `Program.IsOwn`: Members of enumerations, symbols that
  have nothing to do with any, and symbols that have a reference of their own.
* `Program.Lists`: An enumeration has a symbol among its exports.
* `Program.memberNames`: The names of the members of an enumeration.
* `Program.isRegistrable`: Whether the declaration of a symbol can be registered.
* `Program.HasReference`: Asking for the symbol always gives a reference.
* `Program.Referable`: Asking for the symbol gives a reference from now on.
* `Program.MembersEnclosed`: Every member of the analysed sources is inside something that gives a
  reference from now on.

## Theorems

* `Program.IsPlain.own`: What a plain symbol stands for has a reference of its own.
* `Program.HasReference.grow`: Growth of the projects has no bearing on it.
* `Program.Referable.mono`, `Program.MembersEnclosed.mono`: What is so in a state is so in later
  ones.
-/

namespace DocModel

namespace Program

variable (p : Program)

/-- Whether a symbol is a member of an enumeration. -/
def isEnumMember (x : SymbolId) : Bool := (p.symbol? x).any (·.kind == .enumMember)

/-- Neither the symbol nor what it stands for is a member of an enumeration. -/
def IsPlain (x : SymbolId) : Prop :=
  p.isEnumMember x = false ∧ p.isEnumMember (p.resolveAlias x) = false

/-- The symbol stands for itself, and is no member of an enumeration. -/
def IsOwn (x : SymbolId) : Prop := p.resolveAlias x = x ∧ p.isEnumMember x = false

variable {p}

theorem IsOwn.isPlain {x : SymbolId} (h : p.IsOwn x) : p.IsPlain x := ⟨h.2, by rw [h.1]; exact h.2⟩

/-- What a plain symbol stands for has a reference of its own. -/
theorem IsPlain.own {x : SymbolId} (h : p.IsPlain x) : p.IsOwn (p.resolveAlias x) :=
  ⟨p.resolveAlias_resolveAlias x, h.2⟩

theorem isEnumMember_of_symbol? {x : SymbolId} {info : SymbolInfo} (h : p.symbol? x = some info) :
    p.isEnumMember x = (info.kind == .enumMember) := by
  rw [isEnumMember, h]
  rfl

variable (p)

/-- An enumeration that stands for itself has a symbol among its exports. -/
structure Lists (owner x : SymbolId) : Prop where
  self : p.resolveAlias owner = owner
  kind : ∃ info, p.symbol? owner = some info ∧ info.kind = .enum
  mem : x ∈ p.exportsOf owner

variable {p} in
theorem Lists.own {owner x : SymbolId} (h : p.Lists owner x) : p.IsOwn owner := by
  rcases h.kind with ⟨info, hinfo, hkind⟩
  refine ⟨h.self, ?_⟩
  rw [isEnumMember_of_symbol? hinfo, hkind]
  rfl

/-- The name of a member of an enumeration. -/
def memberName? (x : SymbolId) : Option String :=
  (p.symbol? x).bind fun info => if info.kind = .enumMember then some info.name else none

/-- The names of the members of an enumeration. -/
def memberNames (x : SymbolId) : List String := (p.exportsOf x).filterMap p.memberName?

/-- Whether the declaration of a symbol of the analysed sources can be registered: the node that
    declares it is of the symbol's own sort, and the type that is needed is there. A member of an
    enumeration is not registered by itself. -/
def isRegistrable (x : SymbolId) (info : SymbolInfo) (node : NodeInfo) : Bool :=
  match info.kind, node.kind with
  | .classType, .classNode .. => (p.declaredType? x).isSome
  | .interface, .interface .. => (p.declaredType? x).isSome
  | .enum, .enum _ => (p.declaredType? x).isSome
  | .typeAlias, .typeAlias .. => (p.declaredType? x).isSome
  | .function, .function => (p.valueType? x).any fun ty => !(p.callSignatures ty).isEmpty
  | .binding, .binding .. => (p.valueType? x).isSome
  | .namespaceScope, _ => true
  | .sourceFile, _ => true
  | _, _ => false

/-- Asking for a symbol always gives a reference: the symbol leads to a type parameter, to a
    declaration from outside, or to one of the analysed sources that can be registered. -/
def HasReference (projects : List Project) (x : SymbolId) : Prop :=
  ∃ info, p.symbol? (p.resolveAlias x) = some info ∧
    (info.kind = .typeParameter ∨ ∃ node, p.declarationOf? info = some node ∧
      (p.isOutside projects node.file = true ∨
        p.isRegistrable (p.resolveAlias x) info node = true))

/-- Asking for a symbol gives a reference from now on: it always does, or the symbol or what it
    stands for has been entered. -/
def Referable (s : State) (x : SymbolId) : Prop :=
  p.HasReference s.projects x ∨ s.registry.contains x = true ∨
    s.registry.contains (p.resolveAlias x) = true

/-- Every member of an enumeration that is declared in the analysed sources is inside something that
    gives a reference from now on. It may be inside a member of another enumeration only if that
    member has been entered: asked for while its enumeration is built, it may have no reference
    yet. -/
def MembersEnclosed (s : State) : Prop :=
  ∀ x info node, p.symbol? x = some info → info.kind = .enumMember →
    p.declarationOf? info = some node → p.isOutside s.projects node.file = false →
    ∃ parent, info.parent = some parent ∧ p.Referable s parent

variable {p}

/-- For a symbol that stands for itself it is its own declaration that counts. -/
theorem hasReference_of_self {x : SymbolId} {info : SymbolInfo} (hself : p.resolveAlias x = x)
    (hx : p.symbol? x = some info) (projects : List Project) :
    p.HasReference projects x ↔ info.kind = .typeParameter ∨
      ∃ node, p.declarationOf? info = some node ∧
        (p.isOutside projects node.file = true ∨ p.isRegistrable x info node = true) := by
  unfold HasReference
  rw [hself, hx]
  simp only [Option.some.injEq, exists_eq_left']

theorem HasReference.congr {ps ps' : List Project}
    (h : ps'.map (·.baseDir) = ps.map (·.baseDir)) (x : SymbolId) :
    p.HasReference ps' x ↔ p.HasReference ps x := by
  unfold HasReference
  simp only [isOutside_congr p h]

theorem HasReference.grow {ps ps' : List Project} (hg : ProjectsGrow ps ps') (x : SymbolId) :
    p.HasReference ps' x ↔ p.HasReference ps x := HasReference.congr hg.baseDirs x

/-- What has a reference among more projects has one among fewer. -/
theorem HasReference.of_append {projects : List Project} {project : Project}
    {x : SymbolId} (h : p.HasReference (projects ++ [project]) x) : p.HasReference projects x := by
  rcases h with ⟨info, hinfo, hkind | ⟨node, hnode, hcase⟩⟩
  · exact ⟨info, hinfo, Or.inl hkind⟩
  · refine ⟨info, hinfo, Or.inr ⟨node, hnode, hcase.imp_left fun hout => ?_⟩⟩
    -- A file that is inside stays inside when a project is added.
    by_contra hin
    rw [(extend_append p projects project).inside node.file (Bool.eq_false_iff.2 hin)] at hout
    exact Bool.false_ne_true hout

/-- What gives a reference from now on does so later. -/
theorem Referable.mono {s s' : State} {x : SymbolId} (h : p.Referable s x)
    (hg : ProjectsGrow s.projects s'.projects)
    (hc : ∀ y, s.registry.contains y = true → s'.registry.contains y = true) :
    p.Referable s' x :=
  h.imp (HasReference.grow hg x).2 (Or.imp (hc x) (hc _))

/-- Members that are enclosed stay so as long as no project is added. -/
theorem MembersEnclosed.mono {s s' : State} (h : p.MembersEnclosed s)
    (hg : ProjectsGrow s.projects s'.projects)
    (hc : ∀ y, s.registry.contains y = true → s'.registry.contains y = true) :
    p.MembersEnclosed s' := by
  intro x info node hinfo hkind hnode hin
  -- No file has moved outside or inside.
  rw [isOutside_of_grow p hg] at hin
  rcases h x info node hinfo hkind hnode hin with ⟨parent, hparent, hreferable⟩
  exact ⟨parent, hparent, hreferable.mono hg hc⟩

theorem isRegistrable_ne_enumMember {x : SymbolId} {info : SymbolInfo} {node : NodeInfo}
    (h : p.isRegistrable x info node = true) : info.kind ≠ .enumMember := by
  intro hk
  unfold isRegistrable at h
  rw [hk] at h
  exact absurd h (by simp only [Bool.false_eq_true, not_false_eq_true])

end Program

end DocModel
