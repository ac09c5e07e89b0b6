import DocModel.Documentation
import DocModel.Proofs.Builds
import DocModel.Proofs.ReadType
import DocModel.Proofs.Table

/-!
# Documentation comes back from JSON

Every declaration opens with a heading, and its fields stand among those of its sort. A reader takes
each by its key, so the heading is read from any fields that agree with its own on its own keys.
Declarations stand with the name of their sort in front, which makes them tagged values, or in the
list of their sort in a module, where there is no such name; both are read by the same reader.

Tables are objects, with their keys in ascending order and no key twice, so nothing is written over
when they are read. A tree is written without the directories it remembers and without the names of
those it passes through, and all else comes back.

## Main definitions

* `Declaration.numbers`, `Module.numbers`, `Documentation.numbers` and the like: The numbers in a
  value.
* `ModuleTree.written`, `Project.written`, `Documentation.written`: What of a value is written.

## Theorems

* `Declaration.ofJson?_toJson`: Declarations are read back.
* `Module.ofJson?_toJson`: Modules are read back.
* `Documentation.read_back`: Everything that is written is read back.
-/

namespace DocModel

open Json

/-- The numbers in the members of a declaration, besides those of its types. -/
def Declaration.memberNumbers : Declaration → List Nat
  | .classType d => d.members.numbers
  | .interface d => d.members.numbers
  | .enum d => d.members.flatMap (·.loc.numbers)
  | _ => []

/-- The numbers in a declaration. -/
def Declaration.numbers (d : Declaration) : List Nat :=
  d.loc.numbers ++ d.memberNumbers ++ d.types.flatMap Ty.numbers

/-- The numbers in the exports of a file. -/
def FileExports.numbers (e : FileExports) : List Nat := e.mentions.flatMap Reference.numbers

/-- The numbers in a module. -/
def Module.numbers (m : Module) : List Nat :=
  m.namespaceInfo.toList.flatMap (·.loc.numbers) ++ m.modules.entries.map (·.2.index) ++
    m.declarations.flatMap (·.numbers) ++ m.exports.entries.flatMap (·.2.numbers)

/-- The numbers in a module tree, as far as it is written. -/
def ModuleTree.numbers (t : ModuleTree) : List Nat := t.modules.toList.flatMap (·.numbers)

/-- The numbers in documentation. -/
def Documentation.numbers (d : Documentation) : List Nat := d.projects.flatMap (·.modules.numbers)

/-- A tree without what is not written: the names of directories that are passed through, and the
    directories that were resolved. -/
def ModuleTree.written (t : ModuleTree) : ModuleTree :=
  { t with passthrough := [], directories := ∅ }

/-- A project whose tree is as it is written. -/
def Project.written (p : Project) : Project := { p with modules := p.modules.written }

/-- Documentation whose trees are as they are written. -/
def Documentation.written (d : Documentation) : Documentation :=
  { projects := d.projects.map (·.written) }

/-- A heading is read from fields that agree with its own on the keys of headings. -/
theorem Heading.ofFields?_of_under {fs : Fields} {h : Heading} (hwords : Words h.loc.numbers)
    (hname : Fields.under fs "name" = Fields.under h.toFields "name")
    (hloc : Fields.under fs "loc" = Fields.under h.toFields "loc")
    (hdoc : Fields.under fs "jsdoc" = Fields.under h.toFields "jsdoc")
    (hexported : Fields.under fs "is_exported" = Fields.under h.toFields "is_exported") :
    ofFields? fs = some h := by
  have hname : fs.required? "name" text? = some h.name :=
    Fields.required?_of_under (by simp [hname, toFields]) (text?_string _)
  have hloc : fs.required? "loc" Loc.ofJson? = some h.loc :=
    Fields.required?_of_under (by simp [hloc, toFields]) (h.loc.ofJson?_toJson hwords)
  have hdoc : fs.optional? "jsdoc" DocComment.ofJson? = some h.doc :=
    Fields.optional?_of_present (by simp [hdoc, toFields]) (fun d _ => d.ofJson?_toJson)
      DocComment.toJson_ne_null
  have hexported : fs.default? "is_exported" false bool? = some h.isExported :=
    Fields.default?_of_flag (by simp [hexported, toFields])
  rw [ofFields?, hname, hloc, hdoc, hexported]
  rfl

/-- Type parameters are read from the field that they were written to. -/
theorem typeParametersOf?_of_under (reading : Reading) {fs : Fields} {ps : List (TypeParameter Ty)}
    (hwords : ∀ t ∈ ps.flatMap (·.parts), Words t.numbers)
    (hfs : Fields.under fs "type_parameters" = typeParameterFields ps) :
    typeParametersOf? reading fs = some ps := by
  have hread : ∀ p ∈ ps, TypeParameter.ofJson? (Ty.ofJson? reading) (p.map Ty.toJson).toJson =
      some p := by
    intro p hp
    refine p.ofJson?_toJson Ty.toJson_ne_null fun t ht => t.ofJson?_toJson reading ?_
    exact hwords t (List.mem_flatMap_of_mem hp ht)
  exact Fields.default?_of_nonempty hfs hread

section

variable {lead : Fields} (reading : Reading) (hlead : lead.Leads)

include hlead

/-- A class is read back. -/
theorem ClassDeclaration.ofFields?_toFields (d : ClassDeclaration)
    (hwords : Words (Declaration.classType d).numbers) :
    ofFields? reading (lead ++ d.toFields) = some d := by
  simp only [Declaration.numbers, Declaration.memberNumbers, Declaration.types, words_append,
    words_flatMap, List.forall_mem_append] at hwords
  -- Numbers stand in the place, in the members and in the types.
  rcases hwords with ⟨⟨hloc, hmembers⟩, ⟨⟨htypes, hbases⟩, hinterfaces⟩, hparts⟩
  generalize hfs : lead ++ d.toFields = fs
  simp only [toFields, Heading.toFields, typeParameterFields] at hfs
  -- The name of the sort and the fields of classes have other keys than a heading.
  have hheading : Heading.ofFields? fs = some d.toHeading := by
    apply Heading.ofFields?_of_under (h := d.toHeading) hloc <;>
      simp [← hfs, Heading.toFields, hlead _]
  have hparameters : typeParametersOf? reading fs = some d.typeParameters := by
    apply typeParametersOf?_of_under reading htypes
    simp [← hfs, typeParameterFields, hlead _]
  have hdefault : fs.default? "is_default" false bool? = some d.isDefault :=
    Fields.default?_of_flag (by simp [← hfs, hlead _])
  have habstract : fs.default? "is_abstract" false bool? = some d.isAbstract :=
    Fields.default?_of_flag (by simp [← hfs, hlead _])
  have hbases : fs.default? "extends" [] (listOf? (Ty.ofJson? reading)) = some d.bases :=
    Fields.default?_of_nonempty (by simp [← hfs, hlead _])
      fun t ht => t.ofJson?_toJson reading (hbases t ht)
  have hinterfaces : fs.default? "implements" [] (listOf? (Ty.ofJson? reading)) =
      some d.interfaces :=
    Fields.default?_of_nonempty (by simp [← hfs, hlead _])
      fun t ht => t.ofJson?_toJson reading (hinterfaces t ht)
  have hobject : fs.required? "members" (ObjectLiteral.ofJson? reading (Ty.ofJson? reading)) =
      some d.members :=
    Fields.required?_of_under (by simp [← hfs, hlead _])
      (d.members.ofJson?_toJson Ty.toJson_ne_null reading hmembers
        fun t ht => t.ofJson?_toJson reading (hparts t ht))
  rw [ofFields?, hheading, hdefault, habstract, hparameters, hbases, hinterfaces, hobject]
  rfl

/-- An interface is read back. -/
theorem InterfaceDeclaration.ofFields?_toFields (d : InterfaceDeclaration)
    (hwords : Words (Declaration.interface d).numbers) :
    ofFields? reading (lead ++ d.toFields) = some d := by
  simp only [Declaration.numbers, Declaration.memberNumbers, Declaration.types, words_append,
    words_flatMap, List.forall_mem_append] at hwords
  rcases hwords with ⟨⟨hloc, hmembers⟩, ⟨htypes, hbases⟩, hparts⟩
  generalize hfs : lead ++ d.toFields = fs
  simp only [toFields, Heading.toFields, typeParameterFields] at hfs
  have hheading : Heading.ofFields? fs = some d.toHeading := by
    apply Heading.ofFields?_of_under (h := d.toHeading) hloc <;>
      simp [← hfs, Heading.toFields, hlead _]
  have hparameters : typeParametersOf? reading fs = some d.typeParameters := by
    apply typeParametersOf?_of_under reading htypes
    simp [← hfs, typeParameterFields, hlead _]
  have hdefault : fs.default? "is_default" false bool? = some d.isDefault :=
    Fields.default?_of_flag (by simp [← hfs, hlead _])
  have hbases : fs.default? "extends" [] (listOf? (Ty.ofJson? reading)) = some d.bases :=
    Fields.default?_of_nonempty (by simp [← hfs, hlead _])
      fun t ht => t.ofJson?_toJson reading (hbases t ht)
  have hobject : fs.required? "members" (ObjectLiteral.ofJson? reading (Ty.ofJson? reading)) =
      some d.members :=
    Fields.required?_of_under (by simp [← hfs, hlead _])
      (d.members.ofJson?_toJson Ty.toJson_ne_null reading hmembers
        fun t ht => t.ofJson?_toJson reading (hparts t ht))
  rw [ofFields?, hheading, hdefault, hparameters, hbases, hobject]
  rfl

omit hlead in
/-- A member of an enumeration is read back. -/
theorem EnumMember.ofJson?_toJson (m : EnumMember) (hloc : Words m.loc.numbers)
    (hwords : ∀ t ∈ m.initializer.toList, Words t.numbers) :
    ofJson? reading m.toJson = some m := by
  rw [ofJson?, toJson]
  refine read_object fun fs hfs => ?_
  have hname : fs.required? "name" text? = some m.name :=
    Fields.required?_of_under (by simp [hfs]) (text?_string _)
  have hvalue : fs.optional? "initializer" (Ty.ofJson? reading) = some m.initializer :=
    Fields.optional?_of_present (by simp [hfs])
      (fun t ht => t.ofJson?_toJson reading (hwords t (Option.mem_toList.2 ht))) Ty.toJson_ne_null
  have hloc : fs.required? "loc" Loc.ofJson? = some m.loc :=
    Fields.required?_of_under (by simp [hfs]) (m.loc.ofJson?_toJson hloc)
  have hdoc : fs.optional? "jsdoc" DocComment.ofJson? = some m.doc :=
    Fields.optional?_of_present (by simp [hfs]) (fun d _ => d.ofJson?_toJson)
      DocComment.toJson_ne_null
  rw [hname, hvalue, hloc, hdoc]
  rfl

/-- An enumeration is read back. -/
theorem EnumDeclaration.ofFields?_toFields (d : EnumDeclaration)
    (hwords : Words (Declaration.enum d).numbers) :
    ofFields? reading (lead ++ d.toFields) = some d := by
  simp only [Declaration.numbers, Declaration.memberNumbers, Declaration.types, words_append,
    words_flatMap, List.forall_mem_flatMap] at hwords
  rcases hwords with ⟨⟨hloc, hlocs⟩, htypes⟩
  generalize hfs : lead ++ d.toFields = fs
  simp only [toFields, Heading.toFields] at hfs
  have hheading : Heading.ofFields? fs = some d.toHeading := by
    apply Heading.ofFields?_of_under (h := d.toHeading) hloc <;>
      simp [← hfs, Heading.toFields, hlead _]
  have hconst : fs.default? "is_const" false bool? = some d.isConst :=
    Fields.default?_of_flag (by simp [← hfs, hlead _])
  have hmembers : fs.required? "members" (listOf? (EnumMember.ofJson? reading)) =
      some d.members :=
    Fields.required?_of_under (by simp [← hfs, hlead _])
      (listOf?_array fun m hm => m.ofJson?_toJson reading (hlocs m hm) (htypes m hm))
  rw [ofFields?, hheading, hconst, hmembers]
  rfl

/-- A function is read back. -/
theorem FunctionDeclaration.ofFields?_toFields (d : FunctionDeclaration)
    (hwords : Words (Declaration.function d).numbers) :
    ofFields? reading (lead ++ d.toFields) = some d := by
  simp only [Declaration.numbers, Declaration.memberNumbers, Declaration.types, words_append,
    words_flatMap, List.forall_mem_flatMap] at hwords
  rcases hwords with ⟨⟨hloc, _⟩, htypes⟩
  generalize hfs : lead ++ d.toFields = fs
  simp only [toFields, Heading.toFields] at hfs
  have hheading : Heading.ofFields? fs = some d.toHeading := by
    apply Heading.ofFields?_of_under (h := d.toHeading) hloc <;>
      simp [← hfs, Heading.toFields, hlead _]
  have hdefault : fs.default? "is_default" false bool? = some d.isDefault :=
    Fields.default?_of_flag (by simp [← hfs, hlead _])
  have hasync : fs.default? "is_async" false bool? = some d.isAsync :=
    Fields.default?_of_flag (by simp [← hfs, hlead _])
  have hsignatures : fs.required? "signatures"
      (listOf? (Signature.ofJson? (Ty.ofJson? reading))) = some d.signatures :=
    Fields.required?_of_under (by simp [← hfs, hlead _])
      (listOf?_array fun s hs => s.ofJson?_toJson Ty.toJson_ne_null
        fun t ht => t.ofJson?_toJson reading (htypes s hs t ht))
  rw [ofFields?, hheading, hdefault, hasync, hsignatures]
  rfl

/-- A constant is read back. -/
theorem ConstantDeclaration.ofFields?_toFields (d : ConstantDeclaration)
    (hwords : Words (Declaration.constant d).numbers) :
    ofFields? reading (lead ++ d.toFields) = some d := by
  simp only [Declaration.numbers, Declaration.memberNumbers, Declaration.types, words_append,
    words_flatMap] at hwords
  rcases hwords with ⟨⟨hloc, _⟩, htypes⟩
  generalize hfs : lead ++ d.toFields = fs
  simp only [toFields, Heading.toFields] at hfs
  have hheading : Heading.ofFields? fs = some d.toHeading := by
    apply Heading.ofFields?_of_under (h := d.toHeading) hloc <;>
      simp [← hfs, Heading.toFields, hlead _]
  have hty : fs.optional? "ty" (Ty.ofJson? reading) = some d.ty :=
    Fields.optional?_of_present (by simp [← hfs, hlead _])
      (fun t ht => t.ofJson?_toJson reading (htypes t (Option.mem_toList.2 ht))) Ty.toJson_ne_null
  have hcontent : fs.optional? "content" text? = some d.content :=
    Fields.optional?_of_text (by simp [← hfs, hlead _])
  rw [ofFields?, hheading, hty, hcontent]
  rfl

/-- A named type is read back. -/
theorem AliasDeclaration.ofFields?_toFields (d : AliasDeclaration)
    (hwords : Words (Declaration.typeAlias d).numbers) :
    ofFields? reading (lead ++ d.toFields) = some d := by
  simp only [Declaration.numbers, Declaration.memberNumbers, Declaration.types, words_append,
    words_flatMap, List.forall_mem_append, List.forall_mem_singleton] at hwords
  rcases hwords with ⟨⟨hloc, _⟩, htypes, hvalue⟩
  generalize hfs : lead ++ d.toFields = fs
  simp only [toFields, Heading.toFields, typeParameterFields] at hfs
  have hheading : Heading.ofFields? fs = some d.toHeading := by
    apply Heading.ofFields?_of_under (h := d.toHeading) hloc <;>
      simp [← hfs, Heading.toFields, hlead _]
  have hparameters : typeParametersOf? reading fs = some d.typeParameters := by
    apply typeParametersOf?_of_under reading htypes
    simp [← hfs, typeParameterFields, hlead _]
  have hvalue : fs.required? "value" (Ty.ofJson? reading) = some d.value :=
    Fields.required?_of_under (by simp [← hfs, hlead _])
      (d.value.ofJson?_toJson reading hvalue)
  rw [ofFields?, hheading, hparameters, hvalue]
  rfl

end

namespace Declaration

/-- No sort has a field that could be taken for its name. -/
theorem under_kind (d : Declaration) : Fields.under d.toFields "kind" = [] := by
  cases d <;>
    simp [toFields, ClassDeclaration.toFields, InterfaceDeclaration.toFields,
      EnumDeclaration.toFields, FunctionDeclaration.toFields, ConstantDeclaration.toFields,
      AliasDeclaration.toFields, Heading.toFields, typeParameterFields]

/-- A declaration is read back. -/
theorem ofJson?_toJson (d : Declaration) (hwords : Words d.numbers) :
    ofJson? d.toJson = some d := by
  -- The name in front tells the sort of the fields behind it.
  have hsort : ofJson? d.toJson =
      ofFields? (always "kind" (string d.kindName) ++ d.toFields) d.kindName := by
    have hkind : Fields.required? (always "kind" (string d.kindName) ++ d.toFields) "kind" text? =
        some d.kindName := by
      refine Fields.required?_of_under (j := string d.kindName) ?_ (text?_string _)
      rw [Fields.under_append, under_kind, List.append_nil, Fields.under_always, if_pos rfl]
    rw [ofJson?, toJson, fields?_object, Option.bind_eq_bind, Option.bind_some, hkind]
    rfl
  rw [hsort]
  -- Each sort has its own name, and its own fields behind it.
  cases d with
  | classType body =>
      have hbody := body.ofFields?_toFields .lenient (Fields.leads_kind (string "class")) hwords
      simp only [ofFields?, toFields, kindName, hbody, Option.map_some]
  | interface body =>
      have hbody := body.ofFields?_toFields .lenient (Fields.leads_kind (string "interface")) hwords
      simp only [ofFields?, toFields, kindName, hbody, Option.map_some]
  | enum body =>
      have hbody := body.ofFields?_toFields .lenient (Fields.leads_kind (string "enum")) hwords
      simp only [ofFields?, toFields, kindName, hbody, Option.map_some]
  | function body =>
      have hbody := body.ofFields?_toFields .lenient (Fields.leads_kind (string "function")) hwords
      simp only [ofFields?, toFields, kindName, hbody, Option.map_some]
  | constant body =>
      have hbody := body.ofFields?_toFields .lenient (Fields.leads_kind (string "constant")) hwords
      simp only [ofFields?, toFields, kindName, hbody, Option.map_some]
  | typeAlias body =>
      have hbody := body.ofFields?_toFields .lenient (Fields.leads_kind (string "type_alias"))
        hwords
      simp only [ofFields?, toFields, kindName, hbody, Option.map_some]

end Declaration

/-- An exported name is read back. -/
theorem ExportedReference.ofJson?_toJson (e : ExportedReference)
    (hwords : Words e.reference.numbers) : ofJson? e.toJson = some e := by
  rw [ofJson?, toJson]
  refine read_object fun fs hfs => ?_
  have hreference : fs.required? "reference" (Reference.ofJson? .strict) = some e.reference :=
    Fields.required?_of_under (by simp [hfs]) (e.reference.ofJson?_toJson .strict hwords)
  have hrenamed : fs.optional? "alias" text? = some e.renamed :=
    Fields.optional?_of_text (by simp [hfs])
  rw [hreference, hrenamed]
  rfl

/-- What is passed on from a file is read back. -/
theorem ReExport.ofJson?_toJson (r : ReExport)
    (hwords : ∀ e ∈ r.references, Words e.reference.numbers) : ofJson? r.toJson = some r := by
  rw [ofJson?, toJson]
  refine read_object fun fs hfs => ?_
  have hmodule : fs.required? "module" (listOf? text?) = some r.module :=
    Fields.required?_of_under (by simp [hfs]) (listOf?_ofStrings _)
  have hfile : fs.required? "file" text? = some r.file :=
    Fields.required?_of_under (by simp [hfs]) (text?_string _)
  have hspace : fs.optional? "namespace" text? = some r.spaceName :=
    Fields.optional?_of_text (by simp [hfs])
  have hsame : fs.default? "same_module" false bool? = some r.sameModule :=
    Fields.default?_of_flag (by simp [hfs])
  have hwildcard : fs.default? "wildcard" false bool? = some r.wildcard :=
    Fields.default?_of_flag (by simp [hfs])
  have hreferences : fs.default? "references" [] (listOf? ExportedReference.ofJson?) =
      some r.references :=
    Fields.default?_of_nonempty (by simp [hfs]) fun e he => e.ofJson?_toJson (hwords e he)
  rw [hmodule, hfile, hspace, hsame, hwildcard, hreferences]
  rfl

/-- The exports of a file are read back. -/
theorem FileExports.ofJson?_toJson (e : FileExports) (hwords : Words e.numbers) :
    ofJson? e.toJson = some e := by
  simp only [numbers, mentions, words_flatMap, List.forall_mem_append, List.forall_mem_map,
    List.forall_mem_flatMap] at hwords
  rw [ofJson?, toJson]
  refine read_object fun fs hfs => ?_
  have hexports : fs.default? "exports" [] (listOf? ExportedReference.ofJson?) =
      some e.exports :=
    Fields.default?_of_nonempty (by simp [hfs]) fun x hx => x.ofJson?_toJson (hwords.1 x hx)
  have hreexports : fs.default? "reexports" [] (listOf? ReExport.ofJson?) = some e.reexports :=
    Fields.default?_of_nonempty (by simp [hfs]) fun g hg => g.ofJson?_toJson (hwords.2 g hg)
  rw [hexports, hreexports]
  rfl

/-- A table is read back, if its keys and its values are. -/
theorem Table.ofJson?_toJson {κ ν : Type} [Ord κ] [Std.TransOrd κ] {key : Key → Option κ}
    {text : κ → String} {read : Json → Option ν} {write : ν → Json} (t : Table κ ν)
    (hkeys : ∀ e ∈ t.entries, key (text e.1) = some e.1)
    (h : ∀ e ∈ t.entries, read (write e.2) = some e.2) :
    ofJson? key read (t.toJson text write) = some t := by
  simp only [ofJson?, toJson, fields?_object, Option.bind_eq_bind, Option.bind_some]
  -- The entries come back in order, and entering them gives the same table.
  rw [mapM_map]
  · simp only [Option.bind_some, Option.pure_def, ofList_entries]
  · intro e he
    rw [hkeys e he, h e he]
    rfl

theorem NamespaceInfo.ofJson?_toJson (n : NamespaceInfo) (hwords : Words n.loc.numbers) :
    ofJson? n.toJson = some n := by
  rw [ofJson?, toJson]
  refine read_object fun fs hfs => ?_
  have hloc : fs.required? "loc" Loc.ofJson? = some n.loc :=
    Fields.required?_of_under (by simp [hfs]) (n.loc.ofJson?_toJson hwords)
  have hdoc : fs.optional? "jsdoc" DocComment.ofJson? = some n.doc :=
    Fields.optional?_of_present (by simp [hfs]) (fun d _ => d.ofJson?_toJson)
      DocComment.toJson_ne_null
  rw [hloc, hdoc]
  rfl

theorem NamespaceInfo.toJson_ne_null (n : NamespaceInfo) : n.toJson ≠ null := by simp [toJson]

namespace Module

/-- A list of records is read back, if the fields of each are. -/
theorem default?_recordsOf? {α : Type} {read : Fields → Option α} {write : α → Fields}
    {fs : Fields} {key : String} {as : List α}
    (hfs : Fields.under fs key = always key (array (as.map fun a => object (write a))))
    (h : ∀ a ∈ as, read ([] ++ write a) = some a) :
    fs.default? key [] (recordsOf? read) = some as :=
  Fields.default?_of_under hfs (listOf?_array h)

/-- A module is read back. -/
theorem ofJson?_toJson (m : Module) (hwords : Words m.numbers) : ofJson? m.toJson = some m := by
  simp only [numbers, declarations, words_append, words_flatMap, List.forall_mem_append,
    List.forall_mem_map] at hwords
  rcases hwords with ⟨⟨⟨hspace, hmodules⟩, hdeclarations⟩, hexports⟩
  rcases hdeclarations with ⟨⟨⟨⟨⟨hclasses, hinterfaces⟩, henums⟩, htypes⟩, hfunctions⟩, hconstants⟩
  rw [ofJson?, toJson]
  refine read_object fun fs hfs => ?_
  -- Each field is read by itself, and then they are put together.
  have hname : fs.required? "name" text? = some m.name :=
    Fields.required?_of_under (by simp [hfs]) (text?_string _)
  have hpath : fs.required? "path" (listOf? text?) = some m.path :=
    Fields.required?_of_under (by simp [hfs]) (listOf?_ofStrings _)
  have hchildren : fs.required? "children_path" (listOf? text?) = some m.childrenPath :=
    Fields.required?_of_under (by simp [hfs]) (listOf?_ofStrings _)
  have hbase : fs.required? "base_dir" text? = some m.baseDir.text :=
    Fields.required?_of_under (by simp [hfs]) (text?_string _)
  have hspace : fs.optional? "namespace" NamespaceInfo.ofJson? = some m.namespaceInfo :=
    Fields.optional?_of_present (by simp [hfs])
      (fun n hn => n.ofJson?_toJson (hspace n (Option.mem_toList.2 hn)))
      NamespaceInfo.toJson_ne_null
  have hmodules : fs.default? "modules" ∅
      (Table.ofJson? (some ·.text) (Option.map ModuleId.mk ·.word?)) = some m.modules := by
    -- Children are written as numbers.
    have hindex : ∀ e ∈ m.modules.entries,
        Option.map ModuleId.mk (ofNat e.2.index).word? = some e.2 := by
      intro e he
      rw [word?_ofNat (hmodules _ (List.mem_map_of_mem he)), Option.map_some]
    have hread : Table.ofJson? (some ·.text) (Option.map ModuleId.mk ·.word?)
        (m.modules.toJson id (ofNat ·.index)) = some m.modules :=
      m.modules.ofJson?_toJson (fun _ _ => rfl) hindex
    exact Fields.default?_of_under (by simp [hfs]) hread
  -- Declarations stand in the list of their sort without its name.
  have hclasses : fs.default? "classes" [] (recordsOf? (ClassDeclaration.ofFields? .strict)) =
      some m.classes :=
    default?_recordsOf? (by simp [hfs]) fun d hd =>
      d.ofFields?_toFields .strict Fields.leads_nil (hclasses d hd)
  have hinterfaces :
      fs.default? "interfaces" [] (recordsOf? (InterfaceDeclaration.ofFields? .strict)) =
        some m.interfaces :=
    default?_recordsOf? (by simp [hfs]) fun d hd =>
      d.ofFields?_toFields .strict Fields.leads_nil (hinterfaces d hd)
  have henums : fs.default? "enums" [] (recordsOf? (EnumDeclaration.ofFields? .strict)) =
      some m.enums :=
    default?_recordsOf? (by simp [hfs]) fun d hd =>
      d.ofFields?_toFields .strict Fields.leads_nil (henums d hd)
  have htypes : fs.default? "types" [] (recordsOf? (AliasDeclaration.ofFields? .strict)) =
      some m.types :=
    default?_recordsOf? (by simp [hfs]) fun d hd =>
      d.ofFields?_toFields .strict Fields.leads_nil (htypes d hd)
  have hfunctions :
      fs.default? "functions" [] (recordsOf? (FunctionDeclaration.ofFields? .strict)) =
        some m.functions :=
    default?_recordsOf? (by simp [hfs]) fun d hd =>
      d.ofFields?_toFields .strict Fields.leads_nil (hfunctions d hd)
  have hconstants :
      fs.default? "constants" [] (recordsOf? (ConstantDeclaration.ofFields? .strict)) =
        some m.constants :=
    default?_recordsOf? (by simp [hfs]) fun d hd =>
      d.ofFields?_toFields .strict Fields.leads_nil (hconstants d hd)
  have hexports : fs.default? "exports" ∅ (Table.ofJson? (some ·.text) FileExports.ofJson?) =
      some m.exports := by
    have hread : Table.ofJson? (some ·.text) FileExports.ofJson? (m.exports.toJson id (·.toJson)) =
        some m.exports :=
      m.exports.ofJson?_toJson (fun _ _ => rfl) fun e he => e.2.ofJson?_toJson (hexports e he)
    exact Fields.default?_of_under (by simp [hfs]) hread
  rw [hname, hpath, hchildren, hbase, hspace, hmodules, hclasses, hinterfaces, henums, htypes,
    hfunctions, hconstants, hexports]
  rfl

end Module

/-- The metadata of a package is read back. -/
theorem PackageMetadata.ofJson?_toJson (m : PackageMetadata) : ofJson? m.toJson = some m := by
  rw [ofJson?, toJson]
  refine read_object fun fs hfs => ?_
  have hname : fs.optional? "name" text? = some m.name :=
    Fields.optional?_of_text (by simp [hfs])
  have hversion : fs.optional? "version" text? = some m.version :=
    Fields.optional?_of_text (by simp [hfs])
  have hdescription : fs.optional? "description" text? = some m.description :=
    Fields.optional?_of_text (by simp [hfs])
  have hhomepage : fs.optional? "homepage" text? = some m.homepage :=
    Fields.optional?_of_text (by simp [hfs])
  have hrepository : fs.optional? "repository" text? = some m.repository :=
    Fields.optional?_of_text (by simp [hfs])
  have hhints : fs.default? "entry_hints" [] (listOf? text?) = some m.entryHints :=
    Fields.default?_of_nonempty (by simp [hfs]) fun hint _ => text?_string hint
  rw [hname, hversion, hdescription, hhomepage, hrepository, hhints]
  rfl

/-- A tree is read back as it was written. -/
theorem ModuleTree.ofJson?_toJson (t : ModuleTree) (hwords : Words t.numbers) :
    ofJson? t.toJson = some t.written := by
  rw [numbers, words_flatMap] at hwords
  rw [ofJson?, toJson]
  refine read_object fun fs hfs => ?_
  have hmodules : fs.required? "modules" (listOf? Module.ofJson?) = some t.modules.toList :=
    Fields.required?_of_under (by simp [hfs])
      (listOf?_array fun m hm => m.ofJson?_toJson (hwords m hm))
  rw [hmodules]
  rfl

/-- A project is read back as it was written. -/
theorem Project.ofJson?_toJson (p : Project) (hwords : Words p.modules.numbers) :
    ofJson? p.toJson = some p.written := by
  rw [ofJson?, toJson]
  refine read_object fun fs hfs => ?_
  have hname : fs.required? "name" text? = some p.name :=
    Fields.required?_of_under (by simp [hfs]) (text?_string _)
  have hbase : fs.required? "base_dir" text? = some p.baseDir.text :=
    Fields.required?_of_under (by simp [hfs]) (text?_string _)
  have hentry : fs.optional? "entry" text? = some p.entry :=
    Fields.optional?_of_text (by simp [hfs])
  have hmetadata : fs.default? "metadata" {} PackageMetadata.ofJson? = some p.metadata :=
    Fields.default?_of_under (by simp [hfs]) p.metadata.ofJson?_toJson
  have hmodules : fs.required? "modules" ModuleTree.ofJson? = some p.modules.written :=
    Fields.required?_of_under (by simp [hfs]) (p.modules.ofJson?_toJson hwords)
  rw [hname, hbase, hentry, hmetadata, hmodules]
  rfl

/-- What is not written makes no difference in writing. -/
theorem Project.toJson_written (p : Project) : p.written.toJson = p.toJson := rfl

namespace Documentation

/-- Documentation is read back as it was written. -/
theorem ofJson?_toJson (d : Documentation) (hwords : Words d.numbers) :
    ofJson? d.toJson = some d.written := by
  rw [numbers, words_flatMap] at hwords
  -- What is left out of the trees is not written anyway.
  have hsame : d.toJson = d.written.toJson := by
    rw [toJson, toJson, written, List.map_map]
    rfl
  have hread : ∀ p ∈ d.written.projects, Project.ofJson? p.toJson = some p := by
    intro p hp
    rcases List.mem_map.1 hp with ⟨q, hq, rfl⟩
    rw [Project.toJson_written]
    exact q.ofJson?_toJson (hwords q hq)
  rw [hsame, ofJson?, toJson]
  refine read_object fun fs hfs => ?_
  have hprojects : fs.required? "projects" (listOf? Project.ofJson?) = some d.written.projects :=
    Fields.required?_of_under (by simp [hfs]) (listOf?_array hread)
  rw [hprojects]
  rfl

/-- Everything that is written is read back, and comes back as it was: references, types, members,
    signatures, declarations, modules and exports as they are, projects and documentation up to what
    a tree remembers and the names it passes through. Numbers have 32 bits. -/
theorem read_back :
    (∀ (reading : Reading) (r : Reference), Words r.numbers →
      Reference.ofJson? reading r.toJson = some r) ∧
    (∀ (reading : Reading) (t : Ty), Words t.numbers → Ty.ofJson? reading t.toJson = some t) ∧
    (∀ (reading : Reading) (o : ObjectLiteral Ty),
      Words (o.numbers ++ o.parts.flatMap Ty.numbers) →
        ObjectLiteral.ofJson? reading (Ty.ofJson? reading) (o.map Ty.toJson).toJson = some o) ∧
    (∀ (reading : Reading) (s : Signature Ty), Words (s.parts.flatMap Ty.numbers) →
      Signature.ofJson? (Ty.ofJson? reading) (s.map Ty.toJson).toJson = some s) ∧
    (∀ d : Declaration, Words d.numbers → Declaration.ofJson? d.toJson = some d) ∧
    (∀ m : Module, Words m.numbers → Module.ofJson? m.toJson = some m) ∧
    (∀ e : FileExports, Words e.numbers → FileExports.ofJson? e.toJson = some e) ∧
    (∀ p : Project, Words p.modules.numbers → Project.ofJson? p.toJson = some p.written) ∧
    (∀ d : Documentation, Words d.numbers → ofJson? d.toJson = some d.written) := by
  refine ⟨Reference.ofJson?_toJson, Ty.ofJson?_toJson, ?_, ?_, Declaration.ofJson?_toJson,
    Module.ofJson?_toJson, FileExports.ofJson?_toJson, Project.ofJson?_toJson, ofJson?_toJson⟩
  · -- Members, whose types are read by the same reader.
    intro reading o hwords
    rw [words_append, words_flatMap] at hwords
    exact o.ofJson?_toJson Ty.toJson_ne_null reading hwords.1
      fun t ht => t.ofJson?_toJson reading (hwords.2 t ht)
  · intro reading s hwords
    rw [words_flatMap] at hwords
    exact s.ofJson?_toJson Ty.toJson_ne_null
      fun t ht => t.ofJson?_toJson reading (hwords t ht)

/-- Documentation with an enumeration and a method in a module below the root, names that are
    exported and passed on, and a tree that remembers a directory. -/
def specimen : Documentation :=
  let place : Loc := { line := 3, character := 4294967295, file := some "src/shapes.ts" }
  let shape : Reference :=
    { id := ⟨0⟩, name := "Shape", kind := .enum, path := some ["kit", "shapes"], parent := none,
      link := none }
  let round : Reference :=
    { id := ⟨1⟩, name := "Round", kind := .enumMember, path := some ["kit", "shapes"],
      parent := some shape, link := none }
  let draw : Signature Ty :=
    { typeParameters := [{ name := "T", constraint := some (.of (.reference shape [] false)),
                           default := none }]
      parameters := [{ name := "at", ty := none, isRest := true, isOptional := false,
                       defaultValue := none }]
      returnType := .of (.union [.of (.reference round [] false), .of (.verbatim "never")])
      doc := none }
  let members : ObjectLiteral Ty :=
    { methods := [{ name := "draw", signatures := [draw], isOptional := true, flags := {},
                    loc := some place, doc := none }] }
  let kit : Module :=
    { Module.make "kit" [] ⟨"/kit"⟩ with
      modules := Table.ofList [("shapes", ⟨1⟩)]
      exports := Table.ofList [("index.ts",
        { exports := [{ reference := shape, renamed := some "Form" }]
          reexports := [{ module := ["kit", "shapes"], file := "src/shapes.ts",
                          wildcard := true }] })] }
  let shapes : Module :=
    { Module.make "shapes" ["kit"] ⟨"/kit/src/shapes"⟩ with
      interfaces := [{ name := "Circle", loc := place, doc := none, isExported := true,
                       isDefault := false, typeParameters := [], bases := [], members }]
      enums := [{ name := "Shape", loc := place, doc := none, isExported := true, isConst := true,
                  members := [{ name := "Round", initializer := none, loc := place,
                                doc := none }] }] }
  { projects := [{ name := "kit", baseDir := ⟨"/kit"⟩, entry := none, metadata := {}
                   modules := { modules := #[kit, shapes], passthrough := ["src"]
                                directories := Table.ofList [(⟨"/kit/src/shapes"⟩, ⟨1⟩)] } }] }

/-- The numbers are within bounds, and something is left out in writing. -/
theorem read_back_specimen :
    Words specimen.numbers ∧ ofJson? specimen.toJson = some specimen.written ∧
      specimen.written ≠ specimen := by
  have hwords : Words specimen.numbers := by decide +kernel
  have hread := read_back.2.2.2.2.2.2.2.2 specimen hwords
  exact ⟨hwords, hread, by decide +kernel⟩

end Documentation

end DocModel
