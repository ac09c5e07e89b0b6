import DocModel.Program.Json
import DocModel.Proofs.ReadBack

/-!
# Programs come back from JSON

A program is written table by table, and every field of an entry is written, null where there is
nothing. A kind of node or a form of type with content is an object with its name as the only key.
Such an object could be taken for a name that stands alone only if nothing were behind it, and there
always is something (`NodeKind.ofJson?_formWith`, `TypeForm.ofJson?_tagged`).

Files are keyed by their paths, and nodes by the digits of their numbers. Two paths of a table
differ in their components, so they differ as texts, and the digits of a number stand for no other.

## Main definitions

* `SymbolRecord.numbers`, `Program.numbers` and the like: The numbers in a table.

## Theorems

* `NodeId.ofKey?_toKey`: The number of a node is read back from its key.
* `NodeKind.ofJson?_toJson`, `TypeForm.ofJson?_toJson`: Kinds and forms are read back.
* `Program.ofJson?_toJson`: A program is read back.
-/

namespace DocModel

open Json

@[simp]
theorem words_map {α : Type} (f : α → Nat) (as : List α) :
    Words (as.map f) ↔ ∀ a ∈ as, f a < twoTo 32 := by
  simp only [Words, List.forall_mem_map]

namespace Json

variable {α : Type} {read : Json → Option α} {write : α → Json}

/-- A list that is always written is read back, if its items are. -/
theorem listOf?_arrayOf {as : List α} (h : ∀ a ∈ as, read (write a) = some a) :
    listOf? read (arrayOf write as) = some as := listOf?_array h

/-- An option that is always written is read back, if its value is and is not written as null. -/
theorem optionally_orNull {o : Option α} (hread : ∀ a ∈ o.toList, read (write a) = some a)
    (hnull : ∀ a, write a ≠ null) : Fields.optionally read (some (orNull write o)) = some o := by
  cases o with
  | none => rfl
  | some a =>
      have hsome := Fields.optionally_map (o := some a)
        (fun b hb => hread b (by simp [hb])) hnull
      exact hsome

theorem optionally_text (o : Option String) :
    Fields.optionally text? (some (orNull string o)) = some o :=
  optionally_orNull (fun _ _ => rfl) fun _ => Json.noConfusion

theorem bool?_bool (b : Bool) : bool? (bool b) = some b := rfl

@[simp]
theorem ofNat_ne_null (n : Nat) : ofNat n ≠ null := Json.noConfusion

/-- A form with content is no name that stands alone. -/
theorem variant?_formWith (name : String) (fs : Fields) :
    variant? .strict (formWith name fs) = none := by
  cases fs <;> rfl

end Json

section Identifiers

theorem SymbolId.ofJson?_toJson {s : SymbolId} (h : s.index < twoTo 32) :
    ofJson? s.toJson = some s := by
  rw [ofJson?, toJson, word?_ofNat h, Option.map_some]

theorem NodeId.ofJson?_toJson {n : NodeId} (h : n.index < twoTo 32) :
    ofJson? n.toJson = some n := by
  rw [ofJson?, toJson, word?_ofNat h, Option.map_some]

theorem TypeId.ofJson?_toJson {t : TypeId} (h : t.index < twoTo 32) :
    ofJson? t.toJson = some t := by
  rw [ofJson?, toJson, word?_ofNat h, Option.map_some]

variable {ss : List SymbolId} {ns : List NodeId} {ts : List TypeId} {s : Option SymbolId}
  {n : Option NodeId} {t : Option TypeId}

theorem SymbolId.listOf?_arrayOf (h : ∀ s ∈ ss, s.index < twoTo 32) :
    listOf? ofJson? (arrayOf toJson ss) = some ss :=
  Json.listOf?_arrayOf fun s hs => ofJson?_toJson (h s hs)

theorem NodeId.listOf?_arrayOf (h : ∀ n ∈ ns, n.index < twoTo 32) :
    listOf? ofJson? (arrayOf toJson ns) = some ns :=
  Json.listOf?_arrayOf fun n hn => ofJson?_toJson (h n hn)

theorem TypeId.listOf?_arrayOf (h : ∀ t ∈ ts, t.index < twoTo 32) :
    listOf? ofJson? (arrayOf toJson ts) = some ts :=
  Json.listOf?_arrayOf fun t ht => ofJson?_toJson (h t ht)

theorem SymbolId.optionally_orNull (h : ∀ a ∈ s.toList, a.index < twoTo 32) :
    Fields.optionally ofJson? (some (orNull toJson s)) = some s :=
  Json.optionally_orNull (fun a ha => ofJson?_toJson (h a ha)) fun a => ofNat_ne_null a.index

theorem NodeId.optionally_orNull (h : ∀ a ∈ n.toList, a.index < twoTo 32) :
    Fields.optionally ofJson? (some (orNull toJson n)) = some n :=
  Json.optionally_orNull (fun a ha => ofJson?_toJson (h a ha)) fun a => ofNat_ne_null a.index

theorem TypeId.optionally_orNull (h : ∀ a ∈ t.toList, a.index < twoTo 32) :
    Fields.optionally ofJson? (some (orNull toJson t)) = some t :=
  Json.optionally_orNull (fun a ha => ofJson?_toJson (h a ha)) fun a => ofNat_ne_null a.index

end Identifiers

/-- The digits of a number stand for it. -/
theorem Json.decimalNumber_toDigits (n : Nat) : decimalNumber (Nat.toDigits 10 n) = n := by
  -- Both take one digit after another, from the left.
  have hfold : ∀ cs : List Char, decimalNumber cs = Nat.ofDigitChars 10 cs 0 := by
    intro cs
    rw [decimalNumber, Nat.ofDigitChars_eq_foldl]
    exact congrArg (fun f => List.foldl f 0 cs) (by funext n c; rw [Nat.mul_comm])
  rw [hfold, Nat.ofDigitChars_ten_toDigits]

/-- The number of a node is read back from its key. -/
theorem NodeId.ofKey?_toKey {n : NodeId} (h : n.index < twoTo 32) : ofKey? n.toKey = some n := by
  -- A key consists of digits.
  have hdigits : (Nat.toDigits 10 n.index).all Char.isDigit = true :=
    List.all_eq_true.2 fun _ hc => Nat.isDigit_of_mem_toDigits (by decide) (by decide) hc
  simp [ofKey?, toKey, decimalNumber_toDigits, hdigits, h]

@[simp]
theorem SymbolKind.ofJson?_toJson (k : SymbolKind) : ofJson? k.toJson = some k := by
  simp [ofJson?, toJson, ofText?_text]

@[simp]
theorem Intrinsic.ofJson?_toJson (k : Intrinsic) : ofJson? k.toJson = some k := by
  simp [ofJson?, toJson, ofKeyword?_keyword]

/-- The numbers in a symbol. -/
def SymbolInfo.numbers (s : SymbolInfo) : List Nat :=
  s.declarations.map (·.index) ++ s.parent.toList.map (·.index)

/-- A symbol is read back. -/
theorem SymbolInfo.ofJson?_toJson (s : SymbolInfo) (hwords : Words s.numbers) :
    ofJson? s.toJson = some s := by
  simp only [numbers, words_append, words_map] at hwords
  rw [ofJson?, toJson]
  refine read_object fun fs hfs => ?_
  have hname : fs.required? "name" text? = some s.name :=
    Fields.required?_of_under (by simp [hfs]) (text?_string _)
  have hkind : fs.required? "kind" SymbolKind.ofJson? = some s.kind :=
    Fields.required?_of_under (by simp [hfs]) s.kind.ofJson?_toJson
  have hdeclarations : fs.default? "declarations" [] (listOf? NodeId.ofJson?) =
      some s.declarations :=
    Fields.default?_of_under (by simp [hfs]) (NodeId.listOf?_arrayOf hwords.1)
  have hparent : fs.optional? "parent" SymbolId.ofJson? = some s.parent :=
    Fields.optional?_of_under (by simp [hfs]) (SymbolId.optionally_orNull hwords.2)
  rw [hname, hkind, hdeclarations, hparent]
  rfl

/-- Modifiers are read back. -/
theorem Modifiers.ofJson?_toJson (m : Modifiers) : ofJson? m.toJson = some m := by
  rw [ofJson?, toJson]
  refine read_object fun fs hfs => ?_
  have hexported : fs.default? "is_exported" false bool? = some m.isExported :=
    Fields.default?_of_under (by simp [hfs]) (bool?_bool _)
  have hdefault : fs.default? "is_default" false bool? = some m.isDefault :=
    Fields.default?_of_under (by simp [hfs]) (bool?_bool _)
  have hpublic : fs.default? "is_public" false bool? = some m.isPublic :=
    Fields.default?_of_under (by simp [hfs]) (bool?_bool _)
  have hprivate : fs.default? "is_private" false bool? = some m.isPrivate :=
    Fields.default?_of_under (by simp [hfs]) (bool?_bool _)
  have hprotected : fs.default? "is_protected" false bool? = some m.isProtected :=
    Fields.default?_of_under (by simp [hfs]) (bool?_bool _)
  have hstatic : fs.default? "is_static" false bool? = some m.isStatic :=
    Fields.default?_of_under (by simp [hfs]) (bool?_bool _)
  have habstract : fs.default? "is_abstract" false bool? = some m.isAbstract :=
    Fields.default?_of_under (by simp [hfs]) (bool?_bool _)
  have hreadonly : fs.default? "is_readonly" false bool? = some m.isReadonly :=
    Fields.default?_of_under (by simp [hfs]) (bool?_bool _)
  have hasync : fs.default? "is_async" false bool? = some m.isAsync :=
    Fields.default?_of_under (by simp [hfs]) (bool?_bool _)
  have hoptional : fs.default? "is_optional" false bool? = some m.isOptional :=
    Fields.default?_of_under (by simp [hfs]) (bool?_bool _)
  rw [hexported, hdefault, hpublic, hprivate, hprotected, hstatic, habstract, hreadonly, hasync,
    hoptional]
  rfl

namespace NodeKind

/-- The numbers in a kind of node. -/
def numbers : NodeKind → List Nat
  | classNode typeParameters bases interfaces =>
    typeParameters.map (·.index) ++ bases.map (·.index) ++ interfaces.map (·.index)
  | interface typeParameters bases => typeParameters.map (·.index) ++ bases.map (·.index)
  | enumMember initializer => initializer.toList.map (·.index)
  | binding initializer written =>
    initializer.toList.map (·.index) ++ written.toList.map (·.index)
  | typeAlias typeParameters value =>
    typeParameters.map (·.index) ++ value.toList.map (·.index)
  | typeParameter constraint fallback _ =>
    constraint.toList.map (·.index) ++ fallback.toList.map (·.index)
  | typeReference target arguments =>
    target.toList.map (·.index) ++ arguments.map (·.index)
  | parameter _ initializer written =>
    initializer.toList.map (·.index) ++ written.toList.map (·.index)
  | property written => written.toList.map (·.index)
  | _ => []

/-- A kind with content is read from its fields. They are kept as a variable. -/
theorem ofJson?_formWith {name : String} {gs : Fields} {k : NodeKind}
    (h : ∀ fs, fs = gs → ofFields? fs name = some k) : ofJson? (formWith name gs) = some k := by
  rw [ofJson?, variant?_formWith]
  exact h gs rfl

/-- A list of nodes is read back from its field. -/
theorem nodesOf?_of_under {fs : Fields} {key : String} {ns : List NodeId}
    (hfs : fs.under key = nodesField key ns) (hwords : ∀ n ∈ ns, n.index < twoTo 32) :
    nodesOf? fs key = some ns :=
  Fields.default?_of_under hfs (NodeId.listOf?_arrayOf hwords)

/-- A node that may be missing is read back from its field. -/
theorem nodeOf?_of_under {fs : Fields} {key : String} {n : Option NodeId}
    (hfs : fs.under key = nodeField key n) (hwords : ∀ a ∈ n.toList, a.index < twoTo 32) :
    nodeOf? fs key = some n :=
  Fields.optional?_of_under hfs (NodeId.optionally_orNull hwords)

/-! ### Kinds with several fields -/

theorem ofJson?_classNode (typeParameters bases interfaces : List NodeId)
    (hwords : Words (classNode typeParameters bases interfaces).numbers) :
    ofJson? (classNode typeParameters bases interfaces).toJson =
      some (classNode typeParameters bases interfaces) := by
  unfold numbers at hwords
  simp only [words_append, words_map] at hwords
  refine ofJson?_formWith fun fs hfs => ?_
  have hparameters : nodesOf? fs "type_parameters" = some typeParameters :=
    nodesOf?_of_under (by simp [hfs, nodesField]) hwords.1.1
  have hbases : nodesOf? fs "extends" = some bases :=
    nodesOf?_of_under (by simp [hfs, nodesField]) hwords.1.2
  have hinterfaces : nodesOf? fs "implements" = some interfaces :=
    nodesOf?_of_under (by simp [hfs, nodesField]) hwords.2
  unfold ofFields?
  rw [hparameters, hbases, hinterfaces]
  rfl

theorem ofJson?_interface (typeParameters bases : List NodeId)
    (hwords : Words (interface typeParameters bases).numbers) :
    ofJson? (interface typeParameters bases).toJson = some (interface typeParameters bases) := by
  unfold numbers at hwords
  simp only [words_append, words_map] at hwords
  refine ofJson?_formWith fun fs hfs => ?_
  have hparameters : nodesOf? fs "type_parameters" = some typeParameters :=
    nodesOf?_of_under (by simp [hfs, nodesField]) hwords.1
  have hbases : nodesOf? fs "extends" = some bases :=
    nodesOf?_of_under (by simp [hfs, nodesField]) hwords.2
  unfold ofFields?
  rw [hparameters, hbases]
  rfl

theorem ofJson?_binding (initializer written : Option NodeId)
    (hwords : Words (binding initializer written).numbers) :
    ofJson? (binding initializer written).toJson = some (binding initializer written) := by
  unfold numbers at hwords
  simp only [words_append, words_map] at hwords
  refine ofJson?_formWith fun fs hfs => ?_
  have hinitializer : nodeOf? fs "initializer" = some initializer :=
    nodeOf?_of_under (by simp [hfs, nodeField]) hwords.1
  have hwritten : nodeOf? fs "type_annotation" = some written :=
    nodeOf?_of_under (by simp [hfs, nodeField]) hwords.2
  unfold ofFields?
  rw [hinitializer, hwritten]
  rfl

theorem ofJson?_typeAlias (typeParameters : List NodeId) (value : Option NodeId)
    (hwords : Words (typeAlias typeParameters value).numbers) :
    ofJson? (typeAlias typeParameters value).toJson = some (typeAlias typeParameters value) := by
  unfold numbers at hwords
  simp only [words_append, words_map] at hwords
  refine ofJson?_formWith fun fs hfs => ?_
  have hparameters : nodesOf? fs "type_parameters" = some typeParameters :=
    nodesOf?_of_under (by simp [hfs, nodesField, nodeField]) hwords.1
  have hvalue : nodeOf? fs "value" = some value :=
    nodeOf?_of_under (by simp [hfs, nodesField, nodeField]) hwords.2
  unfold ofFields?
  rw [hparameters, hvalue]
  rfl

theorem ofJson?_typeParameter (constraint fallback : Option NodeId) (inInfer : Bool)
    (hwords : Words (typeParameter constraint fallback inInfer).numbers) :
    ofJson? (typeParameter constraint fallback inInfer).toJson =
      some (typeParameter constraint fallback inInfer) := by
  unfold numbers at hwords
  simp only [words_append, words_map] at hwords
  refine ofJson?_formWith fun fs hfs => ?_
  have hconstraint : nodeOf? fs "constraint" = some constraint :=
    nodeOf?_of_under (by simp [hfs, nodeField]) hwords.1
  have hfallback : nodeOf? fs "default" = some fallback :=
    nodeOf?_of_under (by simp [hfs, nodeField]) hwords.2
  have hinfer : fs.default? "in_infer" false bool? = some inInfer :=
    Fields.default?_of_under (by simp [hfs, nodeField]) (bool?_bool _)
  unfold ofFields?
  rw [hconstraint, hfallback, hinfer]
  rfl

theorem ofJson?_typeReference (target : Option SymbolId) (arguments : List NodeId)
    (hwords : Words (typeReference target arguments).numbers) :
    ofJson? (typeReference target arguments).toJson = some (typeReference target arguments) := by
  unfold numbers at hwords
  simp only [words_append, words_map] at hwords
  refine ofJson?_formWith fun fs hfs => ?_
  have htarget : fs.optional? "target" SymbolId.ofJson? = some target :=
    Fields.optional?_of_under (by simp [hfs, nodesField]) (SymbolId.optionally_orNull hwords.1)
  have harguments : nodesOf? fs "type_arguments" = some arguments :=
    nodesOf?_of_under (by simp [hfs, nodesField]) hwords.2
  unfold ofFields?
  rw [htarget, harguments]
  rfl

theorem ofJson?_parameter (isRest : Bool) (initializer written : Option NodeId)
    (hwords : Words (parameter isRest initializer written).numbers) :
    ofJson? (parameter isRest initializer written).toJson =
      some (parameter isRest initializer written) := by
  unfold numbers at hwords
  simp only [words_append, words_map] at hwords
  refine ofJson?_formWith fun fs hfs => ?_
  have hrest : fs.default? "is_rest" false bool? = some isRest :=
    Fields.default?_of_under (by simp [hfs, nodeField]) (bool?_bool _)
  have hinitializer : nodeOf? fs "initializer" = some initializer :=
    nodeOf?_of_under (by simp [hfs, nodeField]) hwords.1
  have hwritten : nodeOf? fs "type_annotation" = some written :=
    nodeOf?_of_under (by simp [hfs, nodeField]) hwords.2
  unfold ofFields?
  rw [hrest, hinitializer, hwritten]
  rfl

/-- A kind of node is read back. -/
theorem ofJson?_toJson (k : NodeKind) (hwords : Words k.numbers) : ofJson? k.toJson = some k := by
  -- The fields of a sort are numbers, alone or in lists. Each is read back by itself, and then the
  -- record as a whole. Sorts without fields are read back by evaluation.
  cases k with
  | classNode typeParameters bases interfaces => exact ofJson?_classNode _ _ _ hwords
  | interface typeParameters bases => exact ofJson?_interface _ _ hwords
  | enum isConst =>
      refine ofJson?_formWith fun fs hfs => ?_
      have hconst : fs.default? "is_const" false bool? = some isConst :=
        Fields.default?_of_under (by simp [hfs]) (bool?_bool _)
      unfold ofFields?
      rw [hconst]
      rfl
  | enumMember initializer =>
      simp only [numbers, words_map] at hwords
      refine ofJson?_formWith fun fs hfs => ?_
      have hinitializer : nodeOf? fs "initializer" = some initializer :=
        nodeOf?_of_under (by simp [hfs, nodeField]) hwords
      unfold ofFields?
      rw [hinitializer]
      rfl
  | binding initializer written => exact ofJson?_binding _ _ hwords
  | typeAlias typeParameters value => exact ofJson?_typeAlias _ _ hwords
  | typeParameter constraint fallback inInfer => exact ofJson?_typeParameter _ _ _ hwords
  | typeReference target arguments => exact ofJson?_typeReference _ _ hwords
  | parameter isRest initializer written => exact ofJson?_parameter _ _ _ hwords
  | property written =>
      simp only [numbers, words_map] at hwords
      refine ofJson?_formWith fun fs hfs => ?_
      have hwritten : nodeOf? fs "type_annotation" = some written :=
        nodeOf?_of_under (by simp [hfs, nodeField]) hwords
      unfold ofFields?
      rw [hwritten]
      rfl
  | sourceFile | function | namespaceScope | method | getAccessor | setAccessor | constructor
  | expression | typeNode | other => rfl

end NodeKind

/-- The numbers in a node. -/
def NodeInfo.numbers (n : NodeInfo) : List Nat := n.kind.numbers ++ [n.line, n.character]

/-- A node is read back. -/
theorem NodeInfo.ofJson?_toJson (n : NodeInfo) (hwords : Words n.numbers) :
    ofJson? n.toJson = some n := by
  simp only [numbers, words_append, words_cons] at hwords
  rw [ofJson?, toJson]
  refine read_object fun fs hfs => ?_
  -- Each field is read by itself, and then they are put together.
  have hkind : fs.required? "kind" NodeKind.ofJson? = some n.kind :=
    Fields.required?_of_under (by simp [hfs]) (n.kind.ofJson?_toJson hwords.1)
  have hfile : fs.required? "file" text? = some n.file.text :=
    Fields.required?_of_under (by simp [hfs]) (text?_string _)
  have hname : fs.optional? "name" text? = some n.name :=
    Fields.optional?_of_under (by simp [hfs]) (optionally_text _)
  have hline : fs.default? "line" 0 word? = some n.line :=
    Fields.default?_of_under (by simp [hfs]) (word?_ofNat hwords.2.1)
  have hcharacter : fs.default? "character" 0 word? = some n.character :=
    Fields.default?_of_under (by simp [hfs]) (word?_ofNat hwords.2.2.1)
  have hmodifiers : fs.default? "modifiers" {} Modifiers.ofJson? = some n.modifiers :=
    Fields.default?_of_under (by simp [hfs]) n.modifiers.ofJson?_toJson
  have htext : fs.optional? "text" text? = some n.text :=
    Fields.optional?_of_under (by simp [hfs]) (optionally_text _)
  have hdoc : fs.optional? "doc_comment" text? = some n.docComment :=
    Fields.optional?_of_under (by simp [hfs]) (optionally_text _)
  rw [hkind, hfile, hname, hline, hcharacter, hmodifiers, htext, hdoc]
  rfl

/-- A member of a tuple is read back. -/
theorem TupleMember.ofJson?_toJson (m : TupleMember) (hword : m.ty.index < twoTo 32) :
    ofJson? m.toJson = some m := by
  rw [ofJson?, toJson]
  refine read_object fun fs hfs => ?_
  have hty : fs.required? "ty" TypeId.ofJson? = some m.ty :=
    Fields.required?_of_under (by simp [hfs]) (TypeId.ofJson?_toJson hword)
  have hname : fs.optional? "name" text? = some m.name :=
    Fields.optional?_of_under (by simp [hfs]) (optionally_text _)
  have hoptional : fs.default? "optional" false bool? = some m.optional :=
    Fields.default?_of_under (by simp [hfs]) (bool?_bool _)
  have hrest : fs.default? "rest" false bool? = some m.rest :=
    Fields.default?_of_under (by simp [hfs]) (bool?_bool _)
  rw [hty, hname, hoptional, hrest]
  rfl

namespace TypeForm

/-- The numbers in a form of type. -/
def numbers : TypeForm → List Nat
  | union members => members.map (·.index)
  | intersection members => members.map (·.index)
  | array element => [element.index]
  | tuple members => members.map (·.ty.index)
  | mapped key constraint value nameType _ _ =>
    [key.index] ++ constraint.toList.map (·.index) ++ value.toList.map (·.index) ++
      nameType.toList.map (·.index)
  | conditional check bound whenTrue whenFalse =>
    [check.index, bound.index, whenTrue.index, whenFalse.index]
  | indexedAccess container index => [container.index, index.index]
  | keyOf target => [target.index]
  | operator _ target => [target.index]
  | template _ types => types.map (·.index)
  | stringMapping _ target => [target.index]
  | _ => []

/-- A form with content is read from its content. -/
theorem ofJson?_tagged (name : String) {content : Json} (hcontent : content ≠ null) :
    ofJson? (.object [(name, content)]) = ofContent? content name := by
  -- An object is a name that stands alone only with null behind it.
  have hvariant : variant? .strict (.object [((name : Key), content)]) = none := by
    cases content with
    | null => exact absurd rfl hcontent
    | object fs => exact variant?_formWith name fs
    | _ => rfl
  rw [ofJson?, hvariant]
  rfl

/-- A form with fields is read from them. They are kept as a variable. -/
theorem ofJson?_formWith {name : String} {gs : Fields} {f : TypeForm}
    (hname : name ∈ ["Mapped", "Conditional", "IndexedAccess", "Operator", "TemplateLiteral",
      "StringMapping"])
    (h : ∀ fs, fs = gs → ofFields? fs name = some f) : ofJson? (formWith name gs) = some f := by
  -- None of these names is the name of a form with a single content.
  have hcontent : ofContent? (.object gs) name = ofFields? gs name := by
    simp only [List.mem_cons, List.not_mem_nil, or_false] at hname
    rcases hname with rfl | rfl | rfl | rfl | rfl | rfl <;> simp [ofContent?]
  rw [formWith, ofJson?_tagged _ Json.noConfusion, hcontent]
  exact h gs rfl

/-- A type is read back from its field. -/
theorem required?_of_typeField {fs : Fields} {key : String} {t : TypeId}
    (hfs : fs.under key = typeField key t) (hword : t.index < twoTo 32) :
    fs.required? key TypeId.ofJson? = some t :=
  Fields.required?_of_under hfs (TypeId.ofJson?_toJson hword)

/-- A type that may be missing is read back from its field. -/
theorem optional?_of_optionalField {fs : Fields} {key : String} {t : Option TypeId}
    (hfs : fs.under key = optionalField key t) (hwords : ∀ a ∈ t.toList, a.index < twoTo 32) :
    fs.optional? key TypeId.ofJson? = some t :=
  Fields.optional?_of_under hfs (TypeId.optionally_orNull hwords)

/-- A modifier that may be missing is read back from its field. -/
theorem optional?_of_modifier {fs : Fields} {key : String} {m : Option MappedModifier}
    (hfs : fs.under key = always key (orNull MappedModifier.toJson m)) :
    fs.optional? key (MappedModifier.ofJson? .strict) = some m :=
  Fields.optional?_of_under hfs
    (optionally_orNull (fun a _ => a.ofJson?_toJson .strict) MappedModifier.toJson_ne_null)

/-! ### Forms with several fields -/

theorem ofJson?_mapped (key : TypeId) (constraint value nameType : Option TypeId)
    (readonly optional : Option MappedModifier)
    (hwords : Words (mapped key constraint value nameType readonly optional).numbers) :
    ofJson? (mapped key constraint value nameType readonly optional).toJson =
      some (mapped key constraint value nameType readonly optional) := by
  simp only [numbers, words_append, words_cons, words_map] at hwords
  refine ofJson?_formWith (by simp) fun fs hfs => ?_
  have hkey : fs.required? "type_parameter" TypeId.ofJson? = some key :=
    required?_of_typeField (by simp [hfs, typeField, optionalField]) hwords.1.1.1.1
  have hconstraint : fs.optional? "constraint" TypeId.ofJson? = some constraint :=
    optional?_of_optionalField (by simp [hfs, typeField, optionalField]) hwords.1.1.2
  have hvalue : fs.optional? "template" TypeId.ofJson? = some value :=
    optional?_of_optionalField (by simp [hfs, typeField, optionalField]) hwords.1.2
  have hnameType : fs.optional? "name_type" TypeId.ofJson? = some nameType :=
    optional?_of_optionalField (by simp [hfs, typeField, optionalField]) hwords.2
  have hreadonly : fs.optional? "readonly" (MappedModifier.ofJson? .strict) = some readonly :=
    optional?_of_modifier (by simp [hfs, typeField, optionalField])
  have hoptional : fs.optional? "optional" (MappedModifier.ofJson? .strict) = some optional :=
    optional?_of_modifier (by simp [hfs, typeField, optionalField])
  unfold ofFields?
  rw [hkey, hconstraint, hvalue, hnameType, hreadonly, hoptional]
  rfl

theorem ofJson?_conditional (check bound whenTrue whenFalse : TypeId)
    (hwords : Words (conditional check bound whenTrue whenFalse).numbers) :
    ofJson? (conditional check bound whenTrue whenFalse).toJson =
      some (conditional check bound whenTrue whenFalse) := by
  simp only [numbers, words_cons] at hwords
  refine ofJson?_formWith (by simp) fun fs hfs => ?_
  have hcheck : fs.required? "check" TypeId.ofJson? = some check :=
    required?_of_typeField (by simp [hfs, typeField]) hwords.1
  have hbound : fs.required? "extends" TypeId.ofJson? = some bound :=
    required?_of_typeField (by simp [hfs, typeField]) hwords.2.1
  have htrue : fs.required? "true_type" TypeId.ofJson? = some whenTrue :=
    required?_of_typeField (by simp [hfs, typeField]) hwords.2.2.1
  have hfalse : fs.required? "false_type" TypeId.ofJson? = some whenFalse :=
    required?_of_typeField (by simp [hfs, typeField]) hwords.2.2.2.1
  unfold ofFields?
  rw [hcheck, hbound, htrue, hfalse]
  rfl

theorem ofJson?_indexedAccess (container index : TypeId)
    (hwords : Words (indexedAccess container index).numbers) :
    ofJson? (indexedAccess container index).toJson = some (indexedAccess container index) := by
  simp only [numbers, words_cons] at hwords
  refine ofJson?_formWith (by simp) fun fs hfs => ?_
  have hcontainer : fs.required? "object" TypeId.ofJson? = some container :=
    required?_of_typeField (by simp [hfs, typeField]) hwords.1
  have hindex : fs.required? "index" TypeId.ofJson? = some index :=
    required?_of_typeField (by simp [hfs, typeField]) hwords.2.1
  unfold ofFields?
  rw [hcontainer, hindex]
  rfl

theorem ofJson?_operator (op : TypeOperator) (target : TypeId)
    (hwords : Words (operator op target).numbers) :
    ofJson? (operator op target).toJson = some (operator op target) := by
  simp only [numbers, words_cons] at hwords
  refine ofJson?_formWith (by simp) fun fs hfs => ?_
  have hop : fs.required? "operator" (TypeOperator.ofJson? .strict) = some op :=
    Fields.required?_of_under (by simp [hfs, typeField]) (op.ofJson?_toJson .strict)
  have htarget : fs.required? "target" TypeId.ofJson? = some target :=
    required?_of_typeField (by simp [hfs, typeField]) hwords.1
  unfold ofFields?
  rw [hop, htarget]
  rfl

theorem ofJson?_template (texts : List String) (types : List TypeId)
    (hwords : Words (template texts types).numbers) :
    ofJson? (template texts types).toJson = some (template texts types) := by
  refine ofJson?_formWith (by simp) fun fs hfs => ?_
  have htexts : fs.required? "texts" (listOf? text?) = some texts :=
    Fields.required?_of_under (by simp [hfs]) (listOf?_ofStrings _)
  have htypes : fs.required? "types" (listOf? TypeId.ofJson?) = some types :=
    Fields.required?_of_under (by simp [hfs])
      (TypeId.listOf?_arrayOf ((words_map _ _).1 hwords))
  unfold ofFields?
  rw [htexts, htypes]
  rfl

theorem ofJson?_stringMapping (name : String) (target : TypeId)
    (hwords : Words (stringMapping name target).numbers) :
    ofJson? (stringMapping name target).toJson = some (stringMapping name target) := by
  simp only [numbers, words_cons] at hwords
  refine ofJson?_formWith (by simp) fun fs hfs => ?_
  have hname : fs.required? "name" text? = some name :=
    Fields.required?_of_under (by simp [hfs, typeField]) (text?_string _)
  have htarget : fs.required? "target" TypeId.ofJson? = some target :=
    required?_of_typeField (by simp [hfs, typeField]) hwords.1
  unfold ofFields?
  rw [hname, htarget]
  rfl

/-- A form of type is read back. -/
theorem ofJson?_toJson (f : TypeForm) (hwords : Words f.numbers) : ofJson? f.toJson = some f := by
  -- A form is written under its name: as the name alone, with one content, or with fields.
  cases f with
  | intrinsic kind =>
      rw [toJson, ofJson?_tagged _ Json.noConfusion]
      simp only [ofContent?, Intrinsic.ofJson?_toJson, Option.map_some]
  -- Literals hold no numbers of types.
  | stringLiteral value => rfl
  | numberLiteral value => rfl
  | bigintLiteral digits => rfl
  | union members =>
      have hmembers := TypeId.listOf?_arrayOf ((words_map _ _).1 hwords)
      rw [toJson, ofJson?_tagged _ Json.noConfusion]
      simp only [ofContent?, hmembers, Option.map_some]
  | intersection members =>
      have hmembers := TypeId.listOf?_arrayOf ((words_map _ _).1 hwords)
      rw [toJson, ofJson?_tagged _ Json.noConfusion]
      simp only [ofContent?, hmembers, Option.map_some]
  | array element =>
      simp only [numbers, words_cons] at hwords
      have helement := TypeId.ofJson?_toJson hwords.1
      rw [toJson, ofJson?_tagged _ Json.noConfusion]
      simp only [ofContent?, helement, Option.map_some]
  | tuple members =>
      simp only [numbers, words_map] at hwords
      have hmembers : listOf? TupleMember.ofJson? (arrayOf TupleMember.toJson members) =
          some members := listOf?_arrayOf fun m hm => m.ofJson?_toJson (hwords m hm)
      rw [toJson, ofJson?_tagged _ Json.noConfusion]
      simp only [ofContent?, hmembers, Option.map_some]
  | mapped key constraint value nameType readonly optional =>
      exact ofJson?_mapped _ _ _ _ _ _ hwords
  | conditional check bound whenTrue whenFalse => exact ofJson?_conditional _ _ _ _ hwords
  | indexedAccess container index => exact ofJson?_indexedAccess _ _ hwords
  | keyOf target =>
      simp only [numbers, words_cons] at hwords
      have htarget := TypeId.ofJson?_toJson hwords.1
      rw [toJson, ofJson?_tagged _ Json.noConfusion]
      simp only [ofContent?, htarget, Option.map_some]
  | operator op target => exact ofJson?_operator _ _ hwords
  | template texts types => exact ofJson?_template _ _ hwords
  | stringMapping name target => exact ofJson?_stringMapping _ _ hwords
  | object | typeParameter | unrecognized => rfl

end TypeForm

/-- The numbers in a named type with its arguments. -/
def AliasInstance.numbers (a : AliasInstance) : List Nat :=
  [a.symbol.index] ++ a.arguments.map (·.index)

/-- A named type with its arguments is read back. -/
theorem AliasInstance.ofJson?_toJson (a : AliasInstance) (hwords : Words a.numbers) :
    ofJson? a.toJson = some a := by
  simp only [numbers, words_append, words_cons, words_map] at hwords
  rw [ofJson?, toJson]
  refine read_object fun fs hfs => ?_
  have hsymbol : fs.required? "symbol" SymbolId.ofJson? = some a.symbol :=
    Fields.required?_of_under (by simp [hfs]) (SymbolId.ofJson?_toJson hwords.1.1)
  have harguments : fs.default? "type_arguments" [] (listOf? TypeId.ofJson?) =
      some a.arguments :=
    Fields.default?_of_under (by simp [hfs]) (TypeId.listOf?_arrayOf hwords.2)
  rw [hsymbol, harguments]
  rfl

/-- The numbers in a type. -/
def TypeInfo.numbers (t : TypeInfo) : List Nat :=
  t.form.numbers ++ t.symbol.toList.map (·.index) ++ t.writtenAs.toList.flatMap (·.numbers)

/-- A type is read back. -/
theorem TypeInfo.ofJson?_toJson (t : TypeInfo) (hwords : Words t.numbers) :
    ofJson? t.toJson = some t := by
  simp only [numbers, words_append, words_map, words_flatMap] at hwords
  rw [ofJson?, toJson]
  refine read_object fun fs hfs => ?_
  have hform : fs.required? "shape" TypeForm.ofJson? = some t.form :=
    Fields.required?_of_under (by simp [hfs]) (t.form.ofJson?_toJson hwords.1.1)
  have hsymbol : fs.optional? "symbol" SymbolId.ofJson? = some t.symbol :=
    Fields.optional?_of_under (by simp [hfs]) (SymbolId.optionally_orNull hwords.1.2)
  have hwritten : fs.optional? "alias" AliasInstance.ofJson? = some t.writtenAs :=
    Fields.optional?_of_under (by simp [hfs])
      (optionally_orNull (fun a ha => a.ofJson?_toJson (hwords.2 a ha)) fun _ => Json.noConfusion)
  rw [hform, hsymbol, hwritten]
  rfl

/-- The numbers in a signature. -/
def SignatureInfo.numbers (s : SignatureInfo) : List Nat :=
  s.declaration.toList.map (·.index) ++ s.typeParameters.map (·.index) ++
    s.parameters.map (·.index) ++ [s.returnType.index]

/-- A signature is read back. -/
theorem SignatureInfo.ofJson?_toJson (s : SignatureInfo) (hwords : Words s.numbers) :
    ofJson? s.toJson = some s := by
  simp only [numbers, words_append, words_cons, words_map] at hwords
  rw [ofJson?, toJson]
  refine read_object fun fs hfs => ?_
  have hdeclaration : fs.optional? "declaration" NodeId.ofJson? = some s.declaration :=
    Fields.optional?_of_under (by simp [hfs]) (NodeId.optionally_orNull hwords.1.1.1)
  have htypes : fs.default? "type_parameters" [] (listOf? TypeId.ofJson?) =
      some s.typeParameters :=
    Fields.default?_of_under (by simp [hfs]) (TypeId.listOf?_arrayOf hwords.1.1.2)
  have hparameters : fs.default? "parameters" [] (listOf? SymbolId.ofJson?) =
      some s.parameters :=
    Fields.default?_of_under (by simp [hfs]) (SymbolId.listOf?_arrayOf hwords.1.2)
  have hreturn : fs.required? "return_type" TypeId.ofJson? = some s.returnType :=
    Fields.required?_of_under (by simp [hfs]) (TypeId.ofJson?_toJson hwords.2.1)
  rw [hdeclaration, htypes, hparameters, hreturn]
  rfl

/-- An export of every name is read back. -/
theorem WildcardExport.ofJson?_toJson (w : WildcardExport) (hword : w.target.index < twoTo 32) :
    ofJson? w.toJson = some w := by
  rw [ofJson?, toJson]
  refine read_object fun fs hfs => ?_
  have htarget : fs.required? "target" SymbolId.ofJson? = some w.target :=
    Fields.required?_of_under (by simp [hfs]) (SymbolId.ofJson?_toJson hword)
  have hname : fs.optional? "namespace" text? = some w.spaceName :=
    Fields.optional?_of_under (by simp [hfs]) (optionally_text _)
  rw [htarget, hname]
  rfl

/-- The numbers in the record of a symbol. -/
def SymbolRecord.numbers (r : SymbolRecord) : List Nat :=
  r.info.numbers ++ r.aliased.toList.map (·.index) ++ r.exports.map (·.index) ++
    r.wildcardExports.map (·.target.index) ++ r.declaredType.toList.map (·.index) ++
    r.valueType.toList.map (·.index)

/-- The record of a symbol is read back. -/
theorem SymbolRecord.ofJson?_toJson (r : SymbolRecord) (hwords : Words r.numbers) :
    ofJson? r.toJson = some r := by
  simp only [numbers, words_append, words_map] at hwords
  -- The numbers come field by field.
  rcases hwords with ⟨⟨⟨⟨⟨hinfo, haliased⟩, hexports⟩, hwildcards⟩, hdeclared⟩, hvalue⟩
  rw [ofJson?, toJson]
  refine read_object fun fs hfs => ?_
  have hinfo : fs.required? "info" SymbolInfo.ofJson? = some r.info :=
    Fields.required?_of_under (by simp [hfs]) (r.info.ofJson?_toJson hinfo)
  have haliased : fs.optional? "aliased" SymbolId.ofJson? = some r.aliased :=
    Fields.optional?_of_under (by simp [hfs]) (SymbolId.optionally_orNull haliased)
  have hexports : fs.default? "exports" [] (listOf? SymbolId.ofJson?) = some r.exports :=
    Fields.default?_of_under (by simp [hfs]) (SymbolId.listOf?_arrayOf hexports)
  have hwildcards : fs.default? "wildcard_exports" [] (listOf? WildcardExport.ofJson?) =
      some r.wildcardExports :=
    Fields.default?_of_under (by simp [hfs])
      (listOf?_arrayOf fun w hw => w.ofJson?_toJson (hwildcards w hw))
  have hdeclared : fs.optional? "declared_type" TypeId.ofJson? = some r.declaredType :=
    Fields.optional?_of_under (by simp [hfs]) (TypeId.optionally_orNull hdeclared)
  have hvalue : fs.optional? "value_type" TypeId.ofJson? = some r.valueType :=
    Fields.optional?_of_under (by simp [hfs]) (TypeId.optionally_orNull hvalue)
  rw [hinfo, haliased, hexports, hwildcards, hdeclared, hvalue]
  rfl

/-- The numbers in the record of a type. -/
def TypeRecord.numbers (r : TypeRecord) : List Nat :=
  r.info.numbers ++ r.arguments.map (·.index) ++ r.callSignatures.flatMap (·.numbers) ++
    r.constructSignatures.flatMap (·.numbers) ++ r.properties.map (·.index) ++
    r.stringIndex.toList.map (·.index) ++ r.numberIndex.toList.map (·.index)

/-- The record of a type is read back. -/
theorem TypeRecord.ofJson?_toJson (r : TypeRecord) (hwords : Words r.numbers) :
    ofJson? r.toJson = some r := by
  simp only [numbers, words_append, words_map, words_flatMap] at hwords
  rcases hwords with
    ⟨⟨⟨⟨⟨⟨hinfo, harguments⟩, hcalls⟩, hconstructs⟩, hproperties⟩, hstrings⟩, hnumbers⟩
  rw [ofJson?, toJson]
  refine read_object fun fs hfs => ?_
  have hinfo : fs.required? "info" TypeInfo.ofJson? = some r.info :=
    Fields.required?_of_under (by simp [hfs]) (r.info.ofJson?_toJson hinfo)
  have htext : fs.optional? "text" text? = some r.text :=
    Fields.optional?_of_under (by simp [hfs]) (optionally_text _)
  have harguments : fs.default? "type_arguments" [] (listOf? TypeId.ofJson?) =
      some r.arguments :=
    Fields.default?_of_under (by simp [hfs]) (TypeId.listOf?_arrayOf harguments)
  have hcalls : fs.default? "call_signatures" [] (listOf? SignatureInfo.ofJson?) =
      some r.callSignatures :=
    Fields.default?_of_under (by simp [hfs])
      (listOf?_arrayOf fun s hs => s.ofJson?_toJson (hcalls s hs))
  have hconstructs : fs.default? "construct_signatures" [] (listOf? SignatureInfo.ofJson?) =
      some r.constructSignatures :=
    Fields.default?_of_under (by simp [hfs])
      (listOf?_arrayOf fun s hs => s.ofJson?_toJson (hconstructs s hs))
  have hproperties : fs.default? "properties" [] (listOf? SymbolId.ofJson?) =
      some r.properties :=
    Fields.default?_of_under (by simp [hfs]) (SymbolId.listOf?_arrayOf hproperties)
  have hstrings : fs.optional? "string_index" TypeId.ofJson? = some r.stringIndex :=
    Fields.optional?_of_under (by simp [hfs]) (TypeId.optionally_orNull hstrings)
  have hnumbers : fs.optional? "number_index" TypeId.ofJson? = some r.numberIndex :=
    Fields.optional?_of_under (by simp [hfs]) (TypeId.optionally_orNull hnumbers)
  rw [hinfo, htext, harguments, hcalls, hconstructs, hproperties, hstrings, hnumbers]
  rfl

namespace Program

/-- The numbers in a program. -/
def numbers (p : Program) : List Nat :=
  p.symbols.toList.flatMap (·.numbers) ++ p.nodes.toList.flatMap (·.numbers) ++
    p.types.toList.flatMap (·.numbers) ++ p.files.entries.map (·.2.index) ++
    p.intrinsics.map (·.2.index) ++ p.nodeTypes.entries.flatMap fun e => [e.1.index, e.2.index]

theorem intrinsicOfJson?_intrinsicToJson (e : Intrinsic × TypeId) (hword : e.2.index < twoTo 32) :
    intrinsicOfJson? (intrinsicToJson e) = some e := by
  have hty := TypeId.ofJson?_toJson hword
  simp only [intrinsicOfJson?, intrinsicToJson, Intrinsic.ofJson?_toJson, hty, Option.bind_eq_bind,
    Option.bind_some, Option.pure_def]

/-- A set of paths is read back, in the same spelling. -/
theorem pathsOfJson?_ofStrings (t : Table Path Unit) :
    pathsOfJson? (ofStrings (t.keys.map (·.text))) = some t := by
  -- A set is a table without values.
  have hentries : (t.keys.map (·.text)).map (fun text => ((⟨text⟩ : Path), ())) = t.entries := by
    rw [Table.keys, List.map_map, List.map_map]
    exact List.map_id _
  rw [pathsOfJson?, listOf?_ofStrings, Option.map_some, hentries, Table.ofList_entries]

/-- A program is read back. -/
theorem ofJson?_toJson (p : Program) (hwords : Words p.numbers) : ofJson? p.toJson = some p := by
  simp only [numbers, words_append, words_map, words_flatMap, words_cons] at hwords
  -- Each table has its own numbers.
  rcases hwords with ⟨⟨⟨⟨⟨hsymbols, hnodes⟩, htypes⟩, hfiles⟩, hintrinsics⟩, hnodeTypes⟩
  rw [ofJson?, toJson]
  refine read_object fun fs hfs => ?_
  have hsymbols : fs.default? "symbols" [] (listOf? SymbolRecord.ofJson?) =
      some p.symbols.toList :=
    Fields.default?_of_under (by simp [hfs])
      (listOf?_arrayOf fun r hr => r.ofJson?_toJson (hsymbols r hr))
  have hnodes : fs.default? "nodes" [] (listOf? NodeInfo.ofJson?) = some p.nodes.toList :=
    Fields.default?_of_under (by simp [hfs])
      (listOf?_arrayOf fun n hn => n.ofJson?_toJson (hnodes n hn))
  have htypes : fs.default? "types" [] (listOf? TypeRecord.ofJson?) = some p.types.toList :=
    Fields.default?_of_under (by simp [hfs])
      (listOf?_arrayOf fun r hr => r.ofJson?_toJson (htypes r hr))
  have hfiles : fs.default? "files" ∅ (Table.ofJson? (some ⟨·.text⟩) SymbolId.ofJson?) =
      some p.files := by
    have hread : Table.ofJson? (some ⟨·.text⟩) SymbolId.ofJson?
        (p.files.toJson Path.text SymbolId.toJson) = some p.files :=
      p.files.ofJson?_toJson (fun _ _ => rfl) fun e he => SymbolId.ofJson?_toJson (hfiles e he)
    exact Fields.default?_of_under (by simp [hfs]) hread
  have hlibrary : fs.default? "default_library" ∅ pathsOfJson? = some p.defaultLibrary :=
    Fields.default?_of_under (by simp [hfs]) (pathsOfJson?_ofStrings p.defaultLibrary)
  have hintrinsics : fs.default? "intrinsics" [] (listOf? intrinsicOfJson?) =
      some p.intrinsics :=
    Fields.default?_of_under (by simp [hfs])
      (listOf?_arrayOf fun e he => intrinsicOfJson?_intrinsicToJson e (hintrinsics e he))
  -- The keys of this table are numbers too.
  have hnodeTypes : fs.default? "node_types" ∅ (Table.ofJson? NodeId.ofKey? TypeId.ofJson?) =
      some p.nodeTypes := by
    have hread : Table.ofJson? NodeId.ofKey? TypeId.ofJson?
        (p.nodeTypes.toJson NodeId.toKey TypeId.toJson) = some p.nodeTypes :=
      p.nodeTypes.ofJson?_toJson (fun e he => NodeId.ofKey?_toKey (hnodeTypes e he).1)
        fun e he => TypeId.ofJson?_toJson (hnodeTypes e he).2.1
    exact Fields.default?_of_under (by simp [hfs]) hread
  rw [hsymbols, hnodes, htypes, hfiles, hlibrary, hintrinsics, hnodeTypes]
  rfl

end Program

end DocModel
