import DocModel.Program.Build
import DocModel.Program.Query
import DocModel.Proofs.Paths
import DocModel.Proofs.Table
import Mathlib.Data.List.Nodup

/-!
# Programs under construction

A program is built by one operation after the other, and what an operation gives back is used in
later ones. Nothing is ever taken out of a table, and an entry that is there is filled in but not
replaced. So whatever a number stood for, it stands for later: `Continues` says what of a symbol may
change, and `Grows` says it of a whole program.

Some operations rely on what others have left. Asking for a file or an intrinsic type a second time
gives back the number from the table of files or of intrinsic types, and that is the right one only
if these tables are. `Consistent` says that they are. An operation is made of a few moves, and each
move lets a program grow and keeps it consistent; both are carried together, as `Advances`.

Numbers that point nowhere are no exception. Filling in an entry that is not there does nothing, and
a node that was to declare a symbol which is not there stays in its table, without a use.

## Main definitions

* `Program.Edit`, `Program.Edit.perform`, `Program.built`: Operations and what is built by them.
* `Program.Grows`: All numbers stand for what they stood for.
* `Program.IsFileSymbol`: The symbol that stands for a file.
* `Program.Consistent`: The tables that are asked before something is added.
* `Program.Edit.Denotes`: What the number that an operation gives back stands for.

## Theorems

* `Program.advances_updateSymbol`, `Program.advances_updateType`: Filling in an entry.
* `Program.addFile_cases`, `Program.intrinsicType_cases`, `Program.addDeclaration_cases`: What the
  operations do that look before they add.
* `Program.Edit.advances_perform`, `Program.advances_performAll`: One operation, and a sequence of
  them.
* `Program.Edit.denotes_perform`: The number is right when it is given back.
* `Program.edits_lasting`: It is right ever after, and the tables are consistent.
-/

namespace DocModel

/-- What of a symbol may change: declarations may be added at the end. -/
structure SymbolInfo.Continues (old new : SymbolInfo) : Prop where
  name : new.name = old.name
  kind : new.kind = old.kind
  parent : new.parent = old.parent
  declarations : old.declarations <+: new.declarations

/-- The record with one more declaration. -/
def SymbolRecord.withDeclaration (r : SymbolRecord) (n : NodeId) : SymbolRecord :=
  { r with info := { r.info with declarations := r.info.declarations ++ [n] } }

namespace Program

/-- The operations that build a program. -/
inductive Edit where
  | addFile (file : Path)
  | addNode (node : NodeInfo)
  | addSymbol (info : SymbolInfo)
  | addType (info : TypeInfo)
  | declare (parent : Option SymbolId) (name : String) (kind : SymbolKind) (node : NodeInfo)
  | addDeclaration (symbol : SymbolId) (node : NodeInfo)
  | addExport (container symbol : SymbolId)
  | addWildcardExport (file : SymbolId) (entry : WildcardExport)
  | setDeclaredType (symbol : SymbolId) (ty : TypeId)
  | setValueType (symbol : SymbolId) (ty : TypeId)
  | setAliased (symbol target : SymbolId)
  | setNodeType (node : NodeId) (ty : TypeId)
  | markDefaultLibrary (file : Path)
  | intrinsicType (kind : Intrinsic)
  | setTypeText (ty : TypeId) (text : String)
  | addProperty (ty : TypeId) (property : SymbolId)
  | addCallSignature (ty : TypeId) (signature : SignatureInfo)
  | addConstructSignature (ty : TypeId) (signature : SignatureInfo)
  | setTypeArguments (ty : TypeId) (arguments : List TypeId)
  | setIndexType (ty : TypeId) (kind : IndexKind) (value : TypeId)

/-- A number that an operation gives back. -/
inductive Handle where
  | symbol (s : SymbolId)
  | node (n : NodeId)
  | type (t : TypeId)
  deriving DecidableEq

/-- Whether a number is in use. -/
def knows (p : Program) : Handle → Bool
  | .symbol s => (p.symbol? s).isSome
  | .node n => (p.node? n).isSome
  | .type t => (p.typeInfo? t).isSome

namespace Edit

/-- Performs an operation. -/
def perform (p : Program) : Edit → Option Handle × Program
  | addFile file => (p.addFile file).map (some ∘ .symbol) id
  | addNode node => (p.addNode node).map (some ∘ .node) id
  | addSymbol info => (p.addSymbol info).map (some ∘ .symbol) id
  | addType info => (p.addType info).map (some ∘ .type) id
  | declare parent name kind node => (p.declare parent name kind node).map (some ∘ .symbol) id
  | addDeclaration symbol node => (p.addDeclaration symbol node).map (·.map .node) id
  | addExport container symbol => (none, p.addExport container symbol)
  | addWildcardExport file entry => (none, p.addWildcardExport file entry)
  | setDeclaredType symbol ty => (none, p.setDeclaredType symbol ty)
  | setValueType symbol ty => (none, p.setValueType symbol ty)
  | setAliased symbol target => (none, p.setAliased symbol target)
  | setNodeType node ty => (none, p.setNodeType node ty)
  | markDefaultLibrary file => (none, p.markDefaultLibrary file)
  | intrinsicType kind => (p.intrinsicType kind).map (some ∘ .type) id
  | setTypeText ty text => (none, p.setTypeText ty text)
  | addProperty ty property => (none, p.addProperty ty property)
  | addCallSignature ty signature => (none, p.addCallSignature ty signature)
  | addConstructSignature ty signature => (none, p.addConstructSignature ty signature)
  | setTypeArguments ty arguments => (none, p.setTypeArguments ty arguments)
  | setIndexType ty kind value => (none, p.setIndexType ty kind value)

end Edit

/-- The program after more operations. -/
def performAll (p : Program) (edits : List Edit) : Program :=
  edits.foldl (fun p edit => (edit.perform p).2) p

/-- The program that is built by the given operations, from nothing. -/
def built (edits : List Edit) : Program := performAll {} edits

/-- All numbers stand for what they stood for, and are still found where they were. -/
structure Grows (p q : Program) : Prop where
  symbols : ∀ s info, p.symbol? s = some info → ∃ now, q.symbol? s = some now ∧ info.Continues now
  nodes : ∀ n node, p.node? n = some node → q.node? n = some node
  types : ∀ t info, p.typeInfo? t = some info → q.typeInfo? t = some info
  files : ∀ file s, p.fileSymbol? file = some s → q.fileSymbol? file = some s
  intrinsics : ∀ kind t, p.intrinsic? kind = some t → q.intrinsic? kind = some t

/-- The symbol is that of a source file: its first declaration is a node for the file. -/
def IsFileSymbol (p : Program) (file : Path) (s : SymbolId) : Prop :=
  ∃ spelling n info, spelling.same file = true ∧
    p.node? n = some { kind := .sourceFile, file := spelling } ∧ p.symbol? s = some info ∧
    SymbolInfo.Continues
      { name := file.fileStem?.getD "", kind := .sourceFile, declarations := [n] } info

/-- The tables that are asked before something is added are right. -/
structure Consistent (p : Program) : Prop where
  files : ∀ e ∈ p.files.entries, p.IsFileSymbol e.1 e.2
  /-- There is one entry at most for each intrinsic type. -/
  kinds : (p.intrinsics.map (·.1)).Nodup
  intrinsics : ∀ e ∈ p.intrinsics, p.typeInfo? e.2 = some { form := .intrinsic e.1 }
  exports : ∀ s, (p.exportsOf s).Nodup

/-- What the number that an operation gives back stands for. -/
inductive Edit.Denotes (p : Program) : Edit → Handle → Prop where
  | addFile {file : Path} {s : SymbolId} (hfile : p.IsFileSymbol file s)
      (hfind : p.fileSymbol? file = some s) : Denotes p (.addFile file) (.symbol s)
  | addNode {node : NodeInfo} {n : NodeId} (hnode : p.node? n = some node) :
      Denotes p (.addNode node) (.node n)
  | addSymbol {info now : SymbolInfo} {s : SymbolId} (hsymbol : p.symbol? s = some now)
      (hcontinues : info.Continues now) : Denotes p (.addSymbol info) (.symbol s)
  | addType {info : TypeInfo} {t : TypeId} (htype : p.typeInfo? t = some info) :
      Denotes p (.addType info) (.type t)
  | declare {parent : Option SymbolId} {name : String} {kind : SymbolKind} {node : NodeInfo}
      {n : NodeId} {now : SymbolInfo} {s : SymbolId}
      (hnode : p.node? n = some { node with name := some (node.name.getD name) })
      (hsymbol : p.symbol? s = some now)
      (hcontinues : SymbolInfo.Continues { name, kind, declarations := [n], parent } now) :
      Denotes p (.declare parent name kind node) (.symbol s)
  | addDeclaration {symbol : SymbolId} {node : NodeInfo} {n : NodeId} {info : SymbolInfo}
      (hnode : p.node? n = some node) (hsymbol : p.symbol? symbol = some info)
      (hdeclares : n ∈ info.declarations) : Denotes p (.addDeclaration symbol node) (.node n)
  | intrinsicType {kind : Intrinsic} {t : TypeId}
      (htype : p.typeInfo? t = some { form := .intrinsic kind })
      (hfind : p.intrinsic? kind = some t) : Denotes p (.intrinsicType kind) (.type t)

end Program

namespace SymbolInfo.Continues

variable {a b c : SymbolInfo}

theorem refl (a : SymbolInfo) : a.Continues a := ⟨rfl, rfl, rfl, List.prefix_refl _⟩

theorem trans (h : a.Continues b) (h' : b.Continues c) : a.Continues c where
  name := h'.name.trans h.name
  kind := h'.kind.trans h.kind
  parent := h'.parent.trans h.parent
  declarations := h.declarations.trans h'.declarations

end SymbolInfo.Continues

namespace Program

variable {p q q' : Program}

theorem Grows.refl (p : Program) : p.Grows p where
  symbols := fun _ info h => ⟨info, h, .refl info⟩
  nodes := fun _ _ h => h
  types := fun _ _ h => h
  files := fun _ _ h => h
  intrinsics := fun _ _ h => h

theorem Grows.trans (h : p.Grows q) (h' : q.Grows q') : p.Grows q' where
  symbols := fun s info hs => by
    rcases h.symbols s info hs with ⟨now, hnow, hcontinues⟩
    rcases h'.symbols s now hnow with ⟨later, hlater, hcontinues'⟩
    exact ⟨later, hlater, hcontinues.trans hcontinues'⟩
  nodes := fun n node hn => h'.nodes n node (h.nodes n node hn)
  types := fun t info ht => h'.types t info (h.types t info ht)
  files := fun file s hs => h'.files file s (h.files file s hs)
  intrinsics := fun kind t ht => h'.intrinsics kind t (h.intrinsics kind t ht)

/-- The symbol of a file stays that of the file. -/
theorem IsFileSymbol.grows {file : Path} {s : SymbolId} (h : p.IsFileSymbol file s)
    (hg : p.Grows q) : q.IsFileSymbol file s := by
  rcases h with ⟨spelling, n, info, hsame, hnode, hsymbol, hcontinues⟩
  rcases hg.symbols s info hsymbol with ⟨now, hnow, hcontinues'⟩
  exact ⟨spelling, n, now, hsame, hg.nodes n _ hnode, hnow, hcontinues.trans hcontinues'⟩

/-- Whatever an operation has made stays what it is. -/
theorem Edit.Denotes.grows {edit : Edit} {handle : Handle} (h : edit.Denotes p handle)
    (hg : p.Grows q) : edit.Denotes q handle := by
  -- Nodes and types stay as they are, and symbols get declarations at most.
  cases h with
  | addFile hfile hfind => exact .addFile (hfile.grows hg) (hg.files _ _ hfind)
  | addNode hnode => exact .addNode (hg.nodes _ _ hnode)
  | addSymbol hsymbol hcontinues =>
      rcases hg.symbols _ _ hsymbol with ⟨later, hlater, hcontinues'⟩
      exact .addSymbol hlater (hcontinues.trans hcontinues')
  | addType htype => exact .addType (hg.types _ _ htype)
  | declare hnode hsymbol hcontinues =>
      rcases hg.symbols _ _ hsymbol with ⟨later, hlater, hcontinues'⟩
      exact .declare (hg.nodes _ _ hnode) hlater (hcontinues.trans hcontinues')
  | addDeclaration hnode hsymbol hdeclares =>
      rcases hg.symbols _ _ hsymbol with ⟨later, hlater, hcontinues⟩
      exact .addDeclaration (hg.nodes _ _ hnode) hlater (hcontinues.declarations.subset hdeclares)
  | intrinsicType htype hfind =>
      exact .intrinsicType (hg.types _ _ htype) (hg.intrinsics _ _ hfind)

/-- A program may become another one: it grows, and stays consistent. -/
structure Advances (p q : Program) : Prop where
  grows : p.Grows q
  keeps : p.Consistent → q.Consistent

theorem Advances.refl (p : Program) : p.Advances p := ⟨.refl p, id⟩

theorem Advances.trans (h : p.Advances q) (h' : q.Advances q') : p.Advances q' :=
  ⟨h.grows.trans h'.grows, h'.keeps ∘ h.keeps⟩

/-- Nothing is exported twice if no record says so. -/
theorem nodup_exportsOf (h : ∀ (i : Nat) r, p.symbols[i]? = some r → r.exports.Nodup)
    (s : SymbolId) : (p.exportsOf s).Nodup := by
  rw [exportsOf, symbolRecord?]
  cases hr : p.symbols[s.index]? with
  | none => exact List.nodup_nil
  | some r => exact h s.index r hr

/-- In a consistent program no record exports something twice. -/
theorem nodup_exports (h : p.Consistent) {i : Nat} {r : SymbolRecord}
    (hr : p.symbols[i]? = some r) : r.exports.Nodup := by
  have hexports := h.exports ⟨i⟩
  rw [exportsOf, symbolRecord?, hr] at hexports
  exact hexports

/-- Only the tables of symbols, nodes and types have to be looked at if the others are the same. -/
theorem advances_of_tables
    (hsymbols : ∀ s info, p.symbol? s = some info →
      ∃ now, q.symbol? s = some now ∧ info.Continues now)
    (hnodes : ∀ n node, p.node? n = some node → q.node? n = some node)
    (htypes : ∀ t info, p.typeInfo? t = some info → q.typeInfo? t = some info)
    (hfiles : q.files = p.files) (hintrinsics : q.intrinsics = p.intrinsics)
    (hexports : p.Consistent → ∀ (i : Nat) r, q.symbols[i]? = some r → r.exports.Nodup) :
    p.Advances q := by
  have hg : p.Grows q :=
    { symbols := hsymbols
      nodes := hnodes
      types := htypes
      files := fun file s h => by rwa [fileSymbol?, hfiles]
      intrinsics := fun kind t h => by rwa [intrinsic?, hintrinsics] }
  -- The other tables point to the same numbers, which stand for what they stood for.
  refine ⟨hg, fun h => ⟨fun e he => ?_, ?_, fun e he => ?_, nodup_exportsOf (hexports h)⟩⟩
  · rw [hfiles] at he
    exact (h.files e he).grows hg
  · rw [hintrinsics]
    exact h.kinds
  · rw [hintrinsics] at he
    exact htypes _ _ (h.intrinsics e he)

/-- What is added comes last, and moves nothing. -/
theorem getElem?_push_of_some {α : Type} {xs : Array α} {i : Nat} {a : α} (h : xs[i]? = some a)
    (x : α) : (xs.push x)[i]? = some a := by
  have hlt : i < xs.size := (Array.getElem?_eq_some_iff.1 h).1
  rw [Array.getElem?_push, if_neg (Nat.ne_of_lt hlt), h]

theorem advances_addNode (p : Program) (node : NodeInfo) : p.Advances (p.addNode node).2 := by
  have hsame := Grows.refl p
  refine advances_of_tables hsame.symbols (fun n old h => ?_) hsame.types rfl rfl
    fun h i r => nodup_exports h
  exact getElem?_push_of_some h node

theorem advances_addSymbol (p : Program) (info : SymbolInfo) :
    p.Advances (p.addSymbol info).2 := by
  have hsame := Grows.refl p
  refine advances_of_tables (fun s old h => ⟨old, ?_, .refl old⟩) hsame.nodes hsame.types rfl rfl
    fun h i r hr => ?_
  · rcases Option.map_eq_some_iff.1 h with ⟨r, hr, hinfo⟩
    exact Option.map_eq_some_iff.2 ⟨r, getElem?_push_of_some hr _, hinfo⟩
  · -- The new symbol exports nothing.
    rw [addSymbol, Array.getElem?_push] at hr
    split at hr
    · rw [← Option.some.inj hr]
      exact List.nodup_nil
    · exact nodup_exports h hr

theorem advances_addType (p : Program) (info : TypeInfo) : p.Advances (p.addType info).2 := by
  have hsame := Grows.refl p
  refine advances_of_tables hsame.symbols hsame.nodes (fun t old h => ?_) rfl rfl
    fun h i r => nodup_exports h
  rcases Option.map_eq_some_iff.1 h with ⟨r, hr, hinfo⟩
  exact Option.map_eq_some_iff.2 ⟨r, getElem?_push_of_some hr _, hinfo⟩

/-- Filling in what hangs on a symbol. -/
theorem advances_updateSymbol (p : Program) (s : SymbolId) (change : SymbolRecord → SymbolRecord)
    (hinfo : ∀ r : SymbolRecord, r.info.Continues (change r).info)
    (hexports : ∀ r : SymbolRecord, r.exports.Nodup → (change r).exports.Nodup) :
    p.Advances (p.updateSymbol s change) := by
  have hsame := Grows.refl p
  refine advances_of_tables (fun x old h => ?_) hsame.nodes hsame.types rfl rfl fun h i r hr => ?_
  · -- The record may be the one that is filled in, or another.
    rcases Option.map_eq_some_iff.1 h with ⟨r, hr, rfl⟩
    rw [symbolRecord?] at hr
    rw [symbol?, symbolRecord?, updateSymbol, Array.getElem?_modify, hr]
    split
    · exact ⟨(change r).info, rfl, hinfo r⟩
    · exact ⟨r.info, rfl, .refl _⟩
  · rw [updateSymbol, Array.getElem?_modify] at hr
    split at hr
    · rcases Option.map_eq_some_iff.1 hr with ⟨old, hold, rfl⟩
      exact hexports old (nodup_exports h hold)
    · exact nodup_exports h hr

/-- Filling in what hangs on a type. -/
theorem advances_updateType (p : Program) (t : TypeId) (change : TypeRecord → TypeRecord)
    (hinfo : ∀ r, (change r).info = r.info) : p.Advances (p.updateType t change) := by
  have hsame := Grows.refl p
  refine advances_of_tables hsame.symbols hsame.nodes (fun x old h => ?_) rfl rfl
    fun h i r => nodup_exports h
  rcases Option.map_eq_some_iff.1 h with ⟨r, hr, rfl⟩
  rw [typeRecord?] at hr
  rw [typeInfo?, typeRecord?, updateType, Array.getElem?_modify, hr]
  split
  · exact congrArg some (hinfo r)
  · rfl

theorem symbol?_updateSymbol_self (p : Program) (s : SymbolId)
    (change : SymbolRecord → SymbolRecord) :
    (p.updateSymbol s change).symbol? s = (p.symbolRecord? s).map fun r => (change r).info := by
  rw [symbol?, symbolRecord?, updateSymbol, Array.getElem?_modify, if_pos rfl]
  exact Option.map_map _ _ _

theorem symbol?_addSymbol (p : Program) (info : SymbolInfo) :
    (p.addSymbol info).2.symbol? (p.addSymbol info).1 = some info := by
  rw [symbol?, symbolRecord?, addSymbol, Array.getElem?_push_size, Option.map_some]

theorem node?_addNode (p : Program) (node : NodeInfo) :
    (p.addNode node).2.node? (p.addNode node).1 = some node := by
  rw [node?, addNode, Array.getElem?_push_size]

theorem typeInfo?_addType (p : Program) (info : TypeInfo) :
    (p.addType info).2.typeInfo? (p.addType info).1 = some info := by
  rw [typeInfo?, typeRecord?, addType, Array.getElem?_push_size, Option.map_some]

/-- The symbol of a file is that of the file under any spelling. -/
theorem IsFileSymbol.respell {file other : Path} {s : SymbolId} (h : p.IsFileSymbol file s)
    (hc : file.components = other.components) : p.IsFileSymbol other s := by
  rcases h with ⟨spelling, n, info, hsame, hnode, hsymbol, hcontinues⟩
  -- The name comes from the last component, which both spellings have.
  have hstem : file.fileStem? = other.fileStem? := by
    rw [Path.fileStem?, Path.fileStem?, Path.fileName?, Path.fileName?, hc]
  rw [Path.same, hc] at hsame
  rw [hstem] at hcontinues
  exact ⟨spelling, n, info, hsame, hnode, hsymbol, hcontinues⟩

/-- Entering the symbol of a file into the table of files. -/
theorem advances_insertFile {file : Path} {s : SymbolId} (hnew : p.fileSymbol? file = none)
    (hfile : p.IsFileSymbol file s) :
    p.Advances { p with files := p.files.insert file s } where
  grows :=
    { Grows.refl p with
      files := fun other x hx => Table.find?_insert_of_find? p.files file other s x hnew hx }
  keeps := fun h =>
    { files := fun e he => by
        rcases Table.mem_insert_cases he with he | ⟨hkey, hvalue⟩
        · exact h.files e he
        · -- The entry may have the file under another spelling.
          rw [hvalue]
          exact hfile.respell (Path.components_eq_of_compare hkey)
      kinds := h.kinds
      intrinsics := h.intrinsics
      exports := h.exports }

/-- Entering an intrinsic type into the table of intrinsic types. -/
theorem advances_addIntrinsic {kind : Intrinsic} {t : TypeId} (hnew : p.intrinsic? kind = none)
    (htype : p.typeInfo? t = some { form := .intrinsic kind }) :
    p.Advances { p with intrinsics := p.intrinsics ++ [(kind, t)] } where
  grows :=
    { Grows.refl p with
      intrinsics := fun other x hx => by
        rcases Option.map_eq_some_iff.1 hx with ⟨e, he, rfl⟩
        rw [intrinsic?, List.find?_append, he, Option.some_or, Option.map_some] }
  keeps := fun h =>
    { files := h.files
      kinds := by
        -- An entry for this kind would have been found.
        rw [List.map_append]
        refine h.kinds.append (List.nodup_singleton _) (List.disjoint_singleton.2 fun hk => ?_)
        rcases List.mem_map.1 hk with ⟨e, he, heq⟩
        exact List.find?_eq_none.1 (Option.map_eq_none_iff.1 hnew) e he (beq_iff_eq.2 heq)
      intrinsics := fun e he => by
        rcases List.mem_append.1 he with he | he
        · exact h.intrinsics e he
        · rw [List.mem_singleton.1 he]
          exact htype
      exports := h.exports }

/-- An intrinsic type that was not there is found once it is entered. -/
theorem intrinsic?_append_self {kind : Intrinsic} (hnew : p.intrinsic? kind = none) (t : TypeId) :
    intrinsic? { p with intrinsics := p.intrinsics ++ [(kind, t)] } kind = some t := by
  have hself : [(kind, t)].find? (·.1 == kind) = some (kind, t) :=
    List.find?_cons_of_pos (beq_self_eq_true kind)
  rw [intrinsic?, List.find?_append, Option.map_eq_none_iff.1 hnew, Option.none_or, hself,
    Option.map_some]

/-- The number of a new symbol was not in use. -/
theorem knows_fst_addSymbol (p : Program) (info : SymbolInfo) :
    p.knows (.symbol (p.addSymbol info).1) = false := by
  rw [knows, symbol?, symbolRecord?, addSymbol, Array.getElem?_size]
  rfl

theorem knows_fst_addNode (p : Program) (node : NodeInfo) :
    p.knows (.node (p.addNode node).1) = false := by
  rw [knows, node?, addNode, Array.getElem?_size]
  rfl

theorem knows_fst_addType (p : Program) (info : TypeInfo) :
    p.knows (.type (p.addType info).1) = false := by
  rw [knows, typeInfo?, typeRecord?, addType, Array.getElem?_size]
  rfl

/-- Adding a node and then a symbol. -/
theorem addSymbol_addNode (p : Program) (node : NodeInfo) (info : SymbolInfo) {s : SymbolId}
    (hadd : (p.addNode node).2.addSymbol info = (s, q)) :
    p.knows (.symbol s) = false ∧ p.Advances q ∧ q.node? (p.addNode node).1 = some node ∧
      q.symbol? s = some info := by
  have hnew := knows_fst_addSymbol (p.addNode node).2 info
  have hsymbol := symbol?_addSymbol (p.addNode node).2 info
  have hadvances := advances_addSymbol (p.addNode node).2 info
  rw [hadd] at hnew hsymbol hadvances
  exact ⟨hnew, (advances_addNode p node).trans hadvances,
    hadvances.grows.nodes _ _ (node?_addNode p node), hsymbol⟩

/-- A file is in the table already, or a symbol for it is added and entered. -/
theorem addFile_cases (p : Program) (file : Path) :
    (∃ s, p.fileSymbol? file = some s ∧ p.addFile file = (s, p)) ∨
    ∃ s q, p.knows (.symbol s) = false ∧ p.Advances q ∧ q.fileSymbol? file = none ∧
      q.IsFileSymbol file s ∧
      p.addFile file = (s, { q with files := q.files.insert file s }) := by
  unfold addFile
  split
  · rename_i s hfind
    exact Or.inl ⟨s, hfind, rfl⟩
  · rename_i hfind
    -- The node for the file is added first, and the symbol is declared by it.
    rcases addSymbol_addNode p { kind := .sourceFile, file }
      { name := file.fileStem?.getD "", kind := .sourceFile, declarations := [⟨p.nodes.size⟩] } rfl
      with ⟨hnew, hadvances, hnode, hsymbol⟩
    exact Or.inr ⟨_, _, hnew, hadvances, hfind,
      ⟨file, _, _, beq_self_eq_true _, hnode, hsymbol, .refl _⟩, rfl⟩

/-- An intrinsic type is in the table already, or it is added and entered. -/
theorem intrinsicType_cases (p : Program) (kind : Intrinsic) :
    (∃ t, p.intrinsic? kind = some t ∧ (kind, t) ∈ p.intrinsics ∧
      p.intrinsicType kind = (t, p)) ∨
    ∃ t q, p.knows (.type t) = false ∧ p.Advances q ∧ q.intrinsic? kind = none ∧
      q.typeInfo? t = some { form := .intrinsic kind } ∧
      p.intrinsicType kind = (t, { q with intrinsics := q.intrinsics ++ [(kind, t)] }) := by
  unfold intrinsicType
  split
  · rename_i k t hfind
    -- The kind of the entry that is found is the one asked for.
    have hfound := List.find?_some hfind
    rw [beq_iff_eq] at hfound
    exact Or.inl ⟨t, by rw [intrinsic?, hfind, Option.map_some],
      hfound ▸ List.mem_of_find?_eq_some hfind, rfl⟩
  · rename_i hfind
    have hnone : p.intrinsic? kind = none := by rw [intrinsic?, hfind, Option.map_none]
    exact Or.inr ⟨_, _, knows_fst_addType p _, advances_addType p _, hnone,
      typeInfo?_addType p _, rfl⟩

/-- A declaration is added to a symbol that is there, and else its node has no use. -/
theorem addDeclaration_cases (p : Program) (s : SymbolId) (node : NodeInfo) :
    p.addDeclaration s node = (none, (p.addNode node).2) ∨
    ∃ n info q, p.knows (.node n) = false ∧ p.Advances q ∧ q.node? n = some node ∧
      q.symbol? s = some info ∧ n ∈ info.declarations ∧
      p.addDeclaration s node = (some n, q) := by
  by_cases hs : s.index < (p.addNode node).2.symbols.size
  · -- The node goes behind the declarations that are there.
    have hadvances := advances_updateSymbol (p.addNode node).2 s
      (·.withDeclaration (p.addNode node).1) (fun r => ⟨rfl, rfl, rfl, List.prefix_append _ _⟩)
      fun r h => h
    have hsymbol := symbol?_updateSymbol_self (p.addNode node).2 s
      (·.withDeclaration (p.addNode node).1)
    rw [symbolRecord?, Array.getElem?_eq_getElem hs, Option.map_some] at hsymbol
    exact Or.inr ⟨_, _, _, knows_fst_addNode p node, (advances_addNode p node).trans hadvances,
      hadvances.grows.nodes _ _ (node?_addNode p node), hsymbol,
      List.mem_append_right _ (List.mem_singleton_self _), if_pos hs⟩
  · exact Or.inl (if_neg hs)

theorem advances_addFile (p : Program) (file : Path) : p.Advances (p.addFile file).2 := by
  rcases addFile_cases p file with ⟨s, _, heq⟩ | ⟨s, q, _, hadvances, hnew, hfile, heq⟩
  · rw [heq]
    exact .refl p
  · rw [heq]
    exact hadvances.trans (advances_insertFile hnew hfile)

theorem advances_intrinsicType (p : Program) (kind : Intrinsic) :
    p.Advances (p.intrinsicType kind).2 := by
  rcases intrinsicType_cases p kind with ⟨t, _, _, heq⟩ | ⟨t, q, _, hadvances, hnew, htype, heq⟩
  · rw [heq]
    exact .refl p
  · rw [heq]
    exact hadvances.trans (advances_addIntrinsic hnew htype)

theorem advances_addDeclaration (p : Program) (s : SymbolId) (node : NodeInfo) :
    p.Advances (p.addDeclaration s node).2 := by
  rcases addDeclaration_cases p s node with heq | ⟨n, info, q, _, hadvances, _, _, _, heq⟩
  · rw [heq]
    exact advances_addNode p node
  · rw [heq]
    exact hadvances

/-- An operation lets a program grow and keeps it consistent. -/
theorem Edit.advances_perform (p : Program) (edit : Edit) : p.Advances (edit.perform p).2 := by
  cases edit with
  | addFile file => exact advances_addFile p file
  | addNode node => exact advances_addNode p node
  | addSymbol info => exact advances_addSymbol p info
  | addType info => exact advances_addType p info
  | declare parent name kind node => exact (addSymbol_addNode p _ _ rfl).2.1
  | addDeclaration symbol node => exact advances_addDeclaration p symbol node
  | intrinsicType kind => exact advances_intrinsicType p kind
  | addExport container symbol =>
      -- What is exported already is not exported again.
      refine advances_updateSymbol p container _ (fun r => ?_) fun r h => ?_
      · split <;> exact .refl _
      · split
        · exact h
        · rename_i hnew
          exact h.append (List.nodup_singleton _) (List.disjoint_singleton.2 hnew)
  | addWildcardExport symbol | setDeclaredType symbol | setValueType symbol | setAliased symbol =>
      exact advances_updateSymbol p symbol _ (fun r => .refl _) fun r h => h
  | setNodeType | markDefaultLibrary =>
      -- Neither table is one that numbers are looked up in.
      have hsame := Grows.refl p
      exact advances_of_tables hsame.symbols hsame.nodes hsame.types rfl rfl
        fun h i r => nodup_exports h
  | setTypeText ty | addProperty ty | addCallSignature ty | addConstructSignature ty
  | setTypeArguments ty => exact advances_updateType p ty _ fun r => rfl
  | setIndexType ty kind value =>
      refine advances_updateType p ty _ fun r => ?_
      cases kind <;> rfl

theorem advances_performAll (p : Program) (edits : List Edit) :
    p.Advances (p.performAll edits) := by
  -- From the program that the first operation leaves.
  induction edits generalizing p with
  | nil => exact .refl p
  | cons edit edits ih => exact (edit.advances_perform p).trans (ih _)

theorem built_append (edits later : List Edit) :
    built (edits ++ later) = (built edits).performAll later := List.foldl_append

/-- Whatever is built from nothing is consistent. -/
theorem consistent_built (edits : List Edit) : (built edits).Consistent := by
  refine (advances_performAll {} edits).keeps ⟨nofun, List.nodup_nil, nofun, ?_⟩
  exact nodup_exportsOf fun i r hr => absurd hr (by simp)

/-- A file that is in the table under some spelling is not added again. -/
theorem addFile_of_mem {e : Path × SymbolId} (he : e ∈ p.files.entries) {file : Path}
    (hsame : file.same e.1 = true) : p.addFile file = (e.2, p) := by
  have hfind : p.files.find? file = some e.2 :=
    Table.find?_of_mem he (Path.compare_of_components_eq (beq_iff_eq.1 hsame))
  rw [addFile, hfind]

/-- What the table of files has is the symbol of the file. -/
theorem Consistent.isFileSymbol (hp : p.Consistent) {file : Path} {s : SymbolId}
    (h : p.fileSymbol? file = some s) : p.IsFileSymbol file s := by
  rcases Table.exists_mem_of_find? h with ⟨e, he, hkey, rfl⟩
  exact (hp.files e he).respell (Path.components_eq_of_compare hkey).symm

/-- The number that is given back stands for what was asked for. If it was in use before, then
    nothing has changed. -/
theorem Edit.denotes_perform (hp : p.Consistent) {edit : Edit} {handle : Handle}
    (h : (edit.perform p).1 = some handle) :
    edit.Denotes (edit.perform p).2 handle ∧
      (p.knows handle = true → (edit.perform p).2 = p) := by
  -- Only a file or an intrinsic type that is there already is given back again.
  have hfresh : p.knows handle = false → p.knows handle = true → (edit.perform p).2 = p :=
    fun hnew hold => absurd (hnew.symm.trans hold) Bool.false_ne_true
  cases edit with
  | addFile file =>
      rw [perform] at h hfresh ⊢
      rcases addFile_cases p file with ⟨s, hfind, heq⟩ | ⟨s, q, hnew, _, hnone, hfile, heq⟩
      · rw [heq] at h ⊢
        cases h
        -- The number is taken from the table.
        exact ⟨.addFile (hp.isFileSymbol hfind) hfind, fun _ => rfl⟩
      · rw [heq] at h hfresh ⊢
        cases h
        exact ⟨.addFile (hfile.grows (advances_insertFile hnone hfile).grows)
          (Table.find?_insert_self _ _ _), hfresh hnew⟩
  | addNode node =>
      cases h
      exact ⟨.addNode (node?_addNode p node), hfresh (knows_fst_addNode p node)⟩
  | addSymbol info =>
      cases h
      exact ⟨.addSymbol (symbol?_addSymbol p info) (.refl _), hfresh (knows_fst_addSymbol p info)⟩
  | addType info =>
      cases h
      exact ⟨.addType (typeInfo?_addType p info), hfresh (knows_fst_addType p info)⟩
  | declare parent name kind node =>
      cases h
      rcases addSymbol_addNode p { node with name := some (node.name.getD name) }
        { name, kind, declarations := [⟨p.nodes.size⟩], parent } rfl
        with ⟨hnew, _, hnode, hsymbol⟩
      exact ⟨.declare hnode hsymbol (.refl _), hfresh hnew⟩
  | addDeclaration symbol node =>
      rw [perform] at h hfresh ⊢
      rcases addDeclaration_cases p symbol node with
        heq | ⟨n, info, q, hnew, _, hnode, hsymbol, hdeclares, heq⟩
      · rw [heq] at h
        cases h
      · rw [heq] at h hfresh ⊢
        cases h
        exact ⟨.addDeclaration hnode hsymbol hdeclares, hfresh hnew⟩
  | intrinsicType kind =>
      rw [perform] at h hfresh ⊢
      rcases intrinsicType_cases p kind with
        ⟨t, hfind, hmem, heq⟩ | ⟨t, q, hnew, _, hnone, htype, heq⟩
      · rw [heq] at h ⊢
        cases h
        exact ⟨.intrinsicType (hp.intrinsics _ hmem) hfind, fun _ => rfl⟩
      · rw [heq] at h hfresh ⊢
        cases h
        exact ⟨.intrinsicType htype (intrinsic?_append_self hnone t), hfresh hnew⟩
  | _ => cases h

/-- Whatever a program is built by, and in whatever order: every number that was given back stands
    for the same thing ever after, the tables of files, of intrinsic types and of exports are
    consistent, and a file under another spelling is the file that is there. -/
theorem edits_lasting (edits : List Edit) :
    (∀ (edit : Edit) (handle : Handle), (edit.perform (built edits)).1 = some handle →
      ((built edits).knows handle = true → (edit.perform (built edits)).2 = built edits) ∧
      ∀ later, edit.Denotes (built (edits ++ edit :: later)) handle) ∧
    (∀ later, (built edits).Grows (built (edits ++ later))) ∧
    (built edits).Consistent ∧
    ∀ e ∈ (built edits).files.entries, ∀ file : Path, file.same e.1 = true →
      (built edits).addFile file = (e.2, built edits) := by
  have hp := consistent_built edits
  refine ⟨fun edit handle h => ?_, fun later => ?_, hp, fun e he file hsame =>
    addFile_of_mem he hsame⟩
  · -- The number is right when it is given back, and the program only grows after that.
    rcases edit.denotes_perform hp h with ⟨hdenotes, hold⟩
    refine ⟨hold, fun later => ?_⟩
    rw [built_append]
    exact hdenotes.grows (advances_performAll _ later).grows
  · rw [built_append]
    exact (advances_performAll _ later).grows

/-- A file is asked for under other spellings, after it was exported from itself twice and a symbol
    that is not there was given a declaration. -/
theorem edits_lasting_respelled :
    let edits : List Edit := [.addFile ⟨"/lib/a.ts"⟩, .addExport ⟨0⟩ ⟨0⟩, .addExport ⟨0⟩ ⟨0⟩,
      .addDeclaration ⟨7⟩ { kind := .sourceFile, file := ⟨"/lib/b.ts"⟩ }]
    (∀ later, Edit.Denotes (built (edits ++ .addFile ⟨"/lib/./a.ts"⟩ :: later))
      (.addFile ⟨"/lib/./a.ts"⟩) (.symbol ⟨0⟩)) ∧
    (built edits).addFile ⟨"/lib//a.ts"⟩ = (⟨0⟩, built edits) := by
  intro edits
  have hentries : (built edits).files.entries = [(⟨"/lib/a.ts"⟩, ⟨0⟩)] := rfl
  have hmem : (⟨"/lib/a.ts"⟩, ⟨0⟩) ∈ (built edits).files.entries := by
    rw [hentries]
    exact List.mem_singleton_self _
  have hgiven : ((Edit.addFile ⟨"/lib/./a.ts"⟩).perform (built edits)).1 = some (.symbol ⟨0⟩) := by
    decide +kernel
  rcases edits_lasting edits with ⟨hlasting, _, _, hfiles⟩
  exact ⟨(hlasting _ _ hgiven).2, hfiles _ hmem ⟨"/lib//a.ts"⟩ (by decide +kernel)⟩

end Program

end DocModel
