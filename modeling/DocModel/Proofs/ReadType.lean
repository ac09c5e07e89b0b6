import DocModel.Proofs.Fields
import DocModel.Proofs.Mentions
import DocModel.Ty.Json

/-!
# Types come back from JSON

A type is written layer by layer, and each layer is an object with the name of its form in front.
The parts of a layer are values inside it. So a type is read back if every layer is, given a reader
that reads back its parts; and the depth of the whole value is enough of a bound for the parts,
since they are nested less deeply.

The records that layers are made of are used for members of classes and for signatures of functions
as well. There the name of a form may stand in front of the fields or may not, which the readers do
not see (`Json.Fields.Leads`).

Numbers are written as they are, and a reader takes numbers of 32 bits.

## Main definitions

* `Words`: All are numbers of 32 bits.
* `Reference.numbers`, `ObjectLiteral.numbers`, `Ty.numbers`: The numbers in a value.
* `Json.Fields.Leads`: Fields that hold nothing but the name of a form.

## Theorems

* `Reference.ofJson?_toJson`: References are read back.
* `Ty.Shape.ofJson?_toJson`: A layer is read back, if its parts are.
* `Ty.Shape.depth_lt`: The parts of a layer are nested less deeply.
* `Ty.ofJson?_toJson`: Types are read back.
-/

namespace DocModel

open Json

/-- All are numbers of 32 bits. -/
def Words (ns : List Nat) : Prop := ∀ n ∈ ns, n < twoTo 32

instance (ns : List Nat) : Decidable (Words ns) :=
  inferInstanceAs (Decidable (∀ n ∈ ns, n < twoTo 32))

@[simp]
theorem words_append (ns ms : List Nat) : Words (ns ++ ms) ↔ Words ns ∧ Words ms :=
  List.forall_mem_append

@[simp]
theorem words_cons (n : Nat) (ns : List Nat) : Words (n :: ns) ↔ n < twoTo 32 ∧ Words ns :=
  List.forall_mem_cons

@[simp]
theorem words_flatMap {α : Type} (f : α → List Nat) (as : List α) :
    Words (as.flatMap f) ↔ ∀ a ∈ as, Words (f a) := by
  simp only [Words, List.forall_mem_flatMap]

/-- Fields that hold nothing but the name of a form. -/
def Json.Fields.Leads (lead : Fields) : Prop := ∀ key, key ≠ "kind" → Fields.under lead key = []

theorem Json.Fields.leads_nil : Fields.Leads [] := fun _ _ => rfl

theorem Json.Fields.leads_kind (j : Json) : Fields.Leads (always "kind" j) := by
  intro key hkey
  rw [Fields.under_always, if_neg (Ne.symm hkey)]

/-- The numbers in a location. -/
def Loc.numbers (l : Loc) : List Nat := [l.line, l.character]

theorem Loc.toJson_ne_null (l : Loc) : l.toJson ≠ null := by simp [toJson]

/-- A location is read back. -/
theorem Loc.ofJson?_toJson (l : Loc) (h : Words l.numbers) : ofJson? l.toJson = some l := by
  simp only [numbers, words_cons] at h
  rw [ofJson?, toJson]
  refine read_object fun fs hfs => ?_
  have hline : fs.required? "line" word? = some l.line :=
    Fields.required?_of_under (by simp [hfs]) (word?_ofNat h.1)
  have hcharacter : fs.required? "character" word? = some l.character :=
    Fields.required?_of_under (by simp [hfs]) (word?_ofNat h.2.1)
  have hfile : fs.optional? "file" text? = some l.file := Fields.optional?_of_text (by simp [hfs])
  rw [hline, hcharacter, hfile]
  rfl

/-- A tag is read back. -/
theorem DocTag.ofJson?_toJson (t : DocTag) : ofJson? t.toJson = some t := by
  rw [ofJson?, toJson]
  refine read_object fun fs hfs => ?_
  have hname : fs.required? "name" text? = some t.name :=
    Fields.required?_of_under (by simp [hfs]) (text?_string _)
  have hargument : fs.optional? "arg" text? = some t.argument :=
    Fields.optional?_of_text (by simp [hfs])
  have hcomment : fs.optional? "comment" text? = some t.comment :=
    Fields.optional?_of_text (by simp [hfs])
  have htype : fs.optional? "type" text? = some t.type := Fields.optional?_of_text (by simp [hfs])
  rw [hname, hargument, hcomment, htype]
  rfl

/-- A comment is read back. -/
theorem DocComment.ofJson?_toJson (d : DocComment) : ofJson? d.toJson = some d := by
  rw [ofJson?, toJson]
  refine read_object fun fs hfs => ?_
  have hparagraphs : fs.default? "comment" [] (listOf? text?) = some d.paragraphs :=
    Fields.default?_of_nonempty (by simp [hfs]) fun p _ => text?_string p
  have htags : fs.default? "tags" [] (listOf? DocTag.ofJson?) = some d.tags :=
    Fields.default?_of_nonempty (by simp [hfs]) fun t _ => t.ofJson?_toJson
  rw [hparagraphs, htags]
  rfl

@[simp]
theorem DocComment.toJson_ne_null (d : DocComment) : d.toJson ≠ null := by simp [toJson]

@[simp]
theorem ReferenceKind.ofJson?_toJson (reading : Reading) (k : ReferenceKind) :
    ofJson? reading k.toJson = some k := by
  simp [ofJson?, toJson, ofText?_text]

namespace Reference

/-- The numbers of a reference and of those around it. -/
def numbers (r : Reference) : List Nat := r.chain.map (·.id.index)

/-- How a reference is written, with those around it. -/
theorem toJson_eq (r : Reference) :
    r.toJson = object (
      always "id" (ofNat r.id.index) ++ always "name" (string r.name) ++
      always "kind" r.kind.toJson ++ present "path" (r.path.map ofStrings) ++
      present "parent" (r.parent.map toJson) ++ present "link" (r.link.map string)) := by
  rcases r with ⟨id, name, kind, path, parent, link⟩
  cases parent <;> rfl

theorem toJson_ne_null (r : Reference) : r.toJson ≠ null := by
  rw [toJson_eq]
  exact Json.noConfusion

/-- A reference is read back, with a bound that its nesting allows. -/
theorem read?_toJson (reading : Reading) (n : Nat) (r : Reference) (hdepth : r.toJson.depth ≤ n)
    (hwords : Words r.numbers) : read? reading n r.toJson = some r := by
  -- The reference around another is nested less deeply, so the bound that is left is enough.
  induction n generalizing r with
  | zero =>
      rw [toJson_eq, depth] at hdepth
      omega
  | succ n ih =>
      -- The first number is that of the reference itself.
      have hid : r.id.index < twoTo 32 :=
        hwords _ (List.mem_map.2 ⟨r, mem_chain r, rfl⟩)
      have hparent : ∀ p, r.parent = some p → read? reading n p.toJson = some p := by
        intro p hp
        have hwords' : Words p.numbers := by
          rw [numbers, chain_some r p hp, List.map_cons, words_cons] at hwords
          exact hwords.2
        refine ih p ?_ hwords'
        have hlt : p.toJson.depth < r.toJson.depth := by
          rw [toJson_eq r]
          refine Fields.Holds.depth_lt ?_
          simp only [Fields.holds_append]
          exact Or.inl (Or.inr (Fields.holds_present (by rw [hp]; rfl)))
        omega
      rw [toJson_eq, read?]
      refine read_object fun fs hfs => ?_
      have hid : fs.required? "id" word? = some r.id.index :=
        Fields.required?_of_under (by simp [hfs]) (word?_ofNat hid)
      have hname : fs.required? "name" text? = some r.name :=
        Fields.required?_of_under (by simp [hfs]) (text?_string _)
      have hkind : fs.required? "kind" (ReferenceKind.ofJson? reading) = some r.kind :=
        Fields.required?_of_under (by simp [hfs]) (r.kind.ofJson?_toJson reading)
      have hpath : fs.optional? "path" (listOf? text?) = some r.path :=
        Fields.optional?_of_present (by simp [hfs]) (fun ss _ => listOf?_ofStrings ss)
          fun _ => Json.noConfusion
      have hparent : fs.optional? "parent" (read? reading n) = some r.parent :=
        Fields.optional?_of_present (by simp [hfs]) hparent toJson_ne_null
      have hlink : fs.optional? "link" text? = some r.link :=
        Fields.optional?_of_text (by simp [hfs])
      rw [hid, hname, hkind, hpath, hparent, hlink]
      cases r
      rfl

/-- References are read back. -/
theorem ofJson?_toJson (reading : Reading) (r : Reference) (hwords : Words r.numbers) :
    ofJson? reading r.toJson = some r :=
  read?_toJson reading _ r (Nat.le_refl _) hwords

end Reference

@[simp]
theorem PrimitiveKind.ofJson?_toJson (reading : Reading) (k : PrimitiveKind) :
    ofJson? reading k.toJson = some k := by
  simp [ofJson?, toJson, ofKeyword?_keyword]

@[simp]
theorem TypeOperator.ofJson?_toJson (reading : Reading) (o : TypeOperator) :
    ofJson? reading o.toJson = some o := by
  simp [ofJson?, toJson, ofKeyword?_keyword]

@[simp]
theorem MappedModifier.ofJson?_toJson (reading : Reading) (m : MappedModifier) :
    ofJson? reading m.toJson = some m := by
  simp [ofJson?, toJson, ofText?_text]

@[simp]
theorem MappedModifier.toJson_ne_null (m : MappedModifier) : m.toJson ≠ null := by simp [toJson]

@[simp]
theorem AccessorKind.ofJson?_toJson (reading : Reading) (a : AccessorKind) :
    ofJson? reading a.toJson = some a := by
  simp [ofJson?, toJson, ofText?_text]

@[simp]
theorem AccessorKind.toJson_ne_null (a : AccessorKind) : a.toJson ≠ null := by simp [toJson]

namespace MemberFlags

theorem ofJson?_toJson (f : MemberFlags) : ofJson? f.toJson = some f := by
  rw [ofJson?, toJson]
  refine read_object fun fs hfs => ?_
  have hprivate : fs.default? "is_private" false bool? = some f.isPrivate :=
    Fields.default?_of_flag (by simp [hfs])
  have hprotected : fs.default? "is_protected" false bool? = some f.isProtected :=
    Fields.default?_of_flag (by simp [hfs])
  have hstatic : fs.default? "is_static" false bool? = some f.isStatic :=
    Fields.default?_of_flag (by simp [hfs])
  have habstract : fs.default? "is_abstract" false bool? = some f.isAbstract :=
    Fields.default?_of_flag (by simp [hfs])
  rw [hprivate, hprotected, hstatic, habstract]
  rfl

@[simp]
theorem under_field (f : MemberFlags) (key : String) :
    Fields.under f.field key = if "flags" = key then f.field else [] := by
  unfold field
  -- There is no field if no flag is set.
  split
  · simp
  · exact Fields.under_always "flags" key _

/-- Flags are read back; where none is set they are left out. -/
theorem default?_of_field {fs : Fields} {f : MemberFlags} (hfs : fs.under "flags" = f.field) :
    fs.default? "flags" {} ofJson? = some f := by
  rw [Fields.default?_eq, hfs, field]
  -- With none set there is no field, and the reader puts in the empty flags.
  by_cases h : f.isEmpty = true
  · rw [if_pos h]
    rcases f with ⟨isPrivate, isProtected, isStatic, isAbstract⟩
    cases isPrivate <;> cases isProtected <;> cases isStatic <;> cases isAbstract <;>
      first | rfl | exact absurd h (by decide)
  · rw [if_neg h]
    exact ofJson?_toJson f

end MemberFlags

/-- The numbers in the location of a property. -/
def Property.numbers {τ : Type} (p : Property τ) : List Nat := p.loc.toList.flatMap Loc.numbers

/-- The numbers in the location of a method. -/
def Method.numbers {τ : Type} (m : Method τ) : List Nat := m.loc.toList.flatMap Loc.numbers

/-- The numbers in members, besides those of their types. -/
def ObjectLiteral.numbers {τ : Type} (o : ObjectLiteral τ) : List Nat :=
  o.properties.flatMap (·.numbers) ++ o.methods.flatMap (·.numbers)

/-- The numbers in a layer, besides those of its parts. -/
def Ty.Shape.numbers {τ : Type} : Shape τ → List Nat
  | reference target _ _ => target.numbers
  | object body => body.numbers
  | _ => []

/-- The numbers in a type. -/
def Ty.numbers (t : Ty) : List Nat := t.fold fun s => s.numbers ++ s.parts.flatten

section

variable {τ : Type} {read : Json → Option τ} {write : τ → Json} {lead : Fields}

/-- An element of a tuple is read back, if its type is. -/
theorem TupleElement.ofJson?_toJson (e : TupleElement τ) (h : read (write e.ty) = some e.ty) :
    ofJson? read (e.map write).toJson = some e := by
  rw [ofJson?, toJson]
  refine read_object fun fs hfs => ?_
  have hty : fs.required? "ty" read = some e.ty := Fields.required?_of_under (by simp [hfs, map]) h
  have hname : fs.optional? "name" text? = some e.name :=
    Fields.optional?_of_text (by simp [hfs, map])
  have hoptional : fs.default? "optional" false bool? = some e.optional :=
    Fields.default?_of_flag (by simp [hfs, map])
  have hspread : fs.default? "spread" false bool? = some e.spread :=
    Fields.default?_of_flag (by simp [hfs, map])
  rw [hty, hname, hoptional, hspread]
  rfl

theorem TemplateSpan.ofJson?_toJson (s : TemplateSpan τ) (h : read (write s.ty) = some s.ty) :
    ofJson? read (s.map write).toJson = some s := by
  rw [ofJson?, toJson]
  refine read_object fun fs hfs => ?_
  have hty : fs.required? "ty" read = some s.ty := Fields.required?_of_under (by simp [hfs, map]) h
  have htext : fs.required? "text" text? = some s.text :=
    Fields.required?_of_under (by simp [hfs, map]) (text?_string _)
  rw [hty, htext]
  rfl

theorem IndexSignature.ofJson?_toJson (i : IndexSignature τ)
    (h : ∀ t ∈ i.parts, read (write t) = some t) :
    ofJson? read (i.map write).toJson = some i := by
  rw [ofJson?, toJson]
  refine read_object fun fs hfs => ?_
  have hkey : fs.required? "key" read = some i.key :=
    Fields.required?_of_under (by simp [hfs, map]) (h _ (by simp [parts]))
  have hty : fs.required? "ty" read = some i.ty :=
    Fields.required?_of_under (by simp [hfs, map]) (h _ (by simp [parts]))
  rw [hkey, hty]
  rfl

variable (hnull : ∀ t, write t ≠ null)

include hnull

/-- A mapped type is read back, also behind the name of a form. -/
theorem MappedType.ofFields?_toFields (hlead : lead.Leads) (m : MappedType τ)
    (h : ∀ t ∈ m.parts, read (write t) = some t) :
    ofFields? read (lead ++ (m.map write).toFields) = some m := by
  generalize hfs : lead ++ (m.map write).toFields = fs
  have hparameter : fs.required? "type_parameter" text? = some m.typeParameter :=
    Fields.required?_of_under (by simp [← hfs, toFields, map, hlead _]) (text?_string _)
  have hconstraint : fs.optional? "constraint" read = some m.constraint :=
    Fields.optional?_of_present (by simp [← hfs, toFields, map, hlead _])
      (fun t ht => h t (by simp [parts, ht])) hnull
  have hty : fs.optional? "ty" read = some m.ty :=
    Fields.optional?_of_present (by simp [← hfs, toFields, map, hlead _])
      (fun t ht => h t (by simp [parts, ht])) hnull
  have hname : fs.optional? "name_type" read = some m.nameType :=
    Fields.optional?_of_present (by simp [← hfs, toFields, map, hlead _])
      (fun t ht => h t (by simp [parts, ht])) hnull
  have hreadonly : fs.optional? "readonly" (MappedModifier.ofJson? .lenient) = some m.readonly :=
    Fields.optional?_of_present (by simp [← hfs, toFields, map, hlead _])
      (fun k _ => k.ofJson?_toJson .lenient) MappedModifier.toJson_ne_null
  have hoptional : fs.optional? "optional" (MappedModifier.ofJson? .lenient) = some m.optional :=
    Fields.optional?_of_present (by simp [← hfs, toFields, map, hlead _])
      (fun k _ => k.ofJson?_toJson .lenient) MappedModifier.toJson_ne_null
  rw [ofFields?, hparameter, hconstraint, hty, hname, hreadonly, hoptional]
  rfl

theorem TypeParameter.ofJson?_toJson (p : TypeParameter τ)
    (h : ∀ t ∈ p.parts, read (write t) = some t) :
    ofJson? read (p.map write).toJson = some p := by
  rw [ofJson?, toJson]
  refine read_object fun fs hfs => ?_
  have hname : fs.required? "name" text? = some p.name :=
    Fields.required?_of_under (by simp [hfs, map]) (text?_string _)
  have hconstraint : fs.optional? "constraint" read = some p.constraint :=
    Fields.optional?_of_present (by simp [hfs, map]) (fun t ht => h t (by simp [parts, ht])) hnull
  have hdefault : fs.optional? "default" read = some p.default :=
    Fields.optional?_of_present (by simp [hfs, map]) (fun t ht => h t (by simp [parts, ht])) hnull
  rw [hname, hconstraint, hdefault]
  rfl

theorem Parameter.ofJson?_toJson (p : Parameter τ) (h : ∀ t ∈ p.parts, read (write t) = some t) :
    ofJson? read (p.map write).toJson = some p := by
  rw [ofJson?, toJson]
  refine read_object fun fs hfs => ?_
  have hname : fs.required? "name" text? = some p.name :=
    Fields.required?_of_under (by simp [hfs, map]) (text?_string _)
  have hty : fs.optional? "ty" read = some p.ty :=
    Fields.optional?_of_present (by simp [hfs, map]) (fun t ht => h t (by simp [parts, ht])) hnull
  have hrest : fs.default? "is_rest" false bool? = some p.isRest :=
    Fields.default?_of_flag (by simp [hfs, map])
  have hoptional : fs.default? "is_optional" false bool? = some p.isOptional :=
    Fields.default?_of_flag (by simp [hfs, map])
  have hvalue : fs.optional? "default_value" text? = some p.defaultValue :=
    Fields.optional?_of_text (by simp [hfs, map])
  rw [hname, hty, hrest, hoptional, hvalue]
  rfl

/-- A signature is read back, also behind the name of a form. -/
theorem Signature.ofFields?_toFields (hlead : lead.Leads) (s : Signature τ)
    (h : ∀ t ∈ s.parts, read (write t) = some t) :
    ofFields? read (lead ++ (s.map write).toFields) = some s := by
  simp only [parts, List.forall_mem_append, List.forall_mem_flatMap,
    List.forall_mem_singleton] at h
  -- The parts are the types of the type parameters, of the parameters and of the result.
  rcases h with ⟨⟨htypes, hparameters⟩, hreturn⟩
  generalize hfs : lead ++ (s.map write).toFields = fs
  have htypes : fs.default? "type_parameters" [] (listOf? (TypeParameter.ofJson? read)) =
      some s.typeParameters :=
    Fields.default?_of_nonempty (by simp [← hfs, toFields, map, hlead _, Function.comp_def])
      fun p hp => p.ofJson?_toJson hnull (htypes p hp)
  have hparameters : fs.default? "parameters" [] (listOf? (Parameter.ofJson? read)) =
      some s.parameters :=
    Fields.default?_of_under (by simp [← hfs, toFields, map, hlead _, Function.comp_def])
      (listOf?_array fun p hp => p.ofJson?_toJson hnull (hparameters p hp))
  have hreturn : fs.required? "return_type" read = some s.returnType :=
    Fields.required?_of_under (by simp [← hfs, toFields, map, hlead _]) hreturn
  have hdoc : fs.optional? "jsdoc" DocComment.ofJson? = some s.doc :=
    Fields.optional?_of_present (by simp [← hfs, toFields, map, hlead _])
      (fun d _ => d.ofJson?_toJson) DocComment.toJson_ne_null
  rw [ofFields?, htypes, hparameters, hreturn, hdoc]
  rfl

theorem Signature.ofJson?_toJson (s : Signature τ) (h : ∀ t ∈ s.parts, read (write t) = some t) :
    ofJson? read (s.map write).toJson = some s :=
  s.ofFields?_toFields hnull Fields.leads_nil h

/-- A property is read back, if its type is. -/
theorem Property.ofJson?_toJson (reading : Reading) (p : Property τ) (hwords : Words p.numbers)
    (h : ∀ t ∈ p.parts, read (write t) = some t) :
    ofJson? reading read (p.map write).toJson = some p := by
  rw [ofJson?, toJson]
  refine read_object fun fs hfs => ?_
  have hname : fs.required? "name" text? = some p.name :=
    Fields.required?_of_under (by simp [hfs, map]) (text?_string _)
  have hty : fs.optional? "ty" read = some p.ty :=
    Fields.optional?_of_present (by simp [hfs, map]) (fun t ht => h t (by simp [parts, ht])) hnull
  have hoptional : fs.default? "is_optional" false bool? = some p.isOptional :=
    Fields.default?_of_flag (by simp [hfs, map])
  have hreadonly : fs.default? "is_readonly" false bool? = some p.isReadonly :=
    Fields.default?_of_flag (by simp [hfs, map])
  have haccessor : fs.optional? "accessor" (AccessorKind.ofJson? reading) = some p.accessor :=
    Fields.optional?_of_present (by simp [hfs, map]) (fun a _ => a.ofJson?_toJson reading)
      AccessorKind.toJson_ne_null
  have hflags : fs.default? "flags" {} MemberFlags.ofJson? = some p.flags :=
    MemberFlags.default?_of_field (by simp [hfs, map])
  have hloc : fs.optional? "loc" Loc.ofJson? = some p.loc :=
    Fields.optional?_of_present (by simp [hfs, map])
      (fun l hl => l.ofJson?_toJson ((words_flatMap _ _).1 hwords l (by simp [hl])))
      Loc.toJson_ne_null
  have hdoc : fs.optional? "jsdoc" DocComment.ofJson? = some p.doc :=
    Fields.optional?_of_present (by simp [hfs, map]) (fun d _ => d.ofJson?_toJson)
      DocComment.toJson_ne_null
  rw [hname, hty, hoptional, hreadonly, haccessor, hflags, hloc, hdoc]
  rfl

/-- A method is read back, if the types in its signatures are. -/
theorem Method.ofJson?_toJson (m : Method τ) (hwords : Words m.numbers)
    (h : ∀ t ∈ m.parts, read (write t) = some t) :
    ofJson? read (m.map write).toJson = some m := by
  rw [parts, List.forall_mem_flatMap] at h
  rw [ofJson?, toJson]
  refine read_object fun fs hfs => ?_
  have hname : fs.required? "name" text? = some m.name :=
    Fields.required?_of_under (by simp [hfs, map]) (text?_string _)
  have hsignatures : fs.required? "signatures" (listOf? (Signature.ofJson? read)) =
      some m.signatures :=
    Fields.required?_of_under (by simp [hfs, map, Function.comp_def])
      (listOf?_array fun s hs => s.ofJson?_toJson hnull (h s hs))
  have hoptional : fs.default? "is_optional" false bool? = some m.isOptional :=
    Fields.default?_of_flag (by simp [hfs, map])
  have hflags : fs.default? "flags" {} MemberFlags.ofJson? = some m.flags :=
    MemberFlags.default?_of_field (by simp [hfs, map])
  have hloc : fs.optional? "loc" Loc.ofJson? = some m.loc :=
    Fields.optional?_of_present (by simp [hfs, map])
      (fun l hl => l.ofJson?_toJson ((words_flatMap _ _).1 hwords l (by simp [hl])))
      Loc.toJson_ne_null
  have hdoc : fs.optional? "jsdoc" DocComment.ofJson? = some m.doc :=
    Fields.optional?_of_present (by simp [hfs, map]) (fun d _ => d.ofJson?_toJson)
      DocComment.toJson_ne_null
  rw [hname, hsignatures, hoptional, hflags, hloc, hdoc]
  rfl

/-- Members are read back, also behind the name of a form. -/
theorem ObjectLiteral.ofFields?_toFields (reading : Reading) (hlead : lead.Leads)
    (o : ObjectLiteral τ) (hwords : Words o.numbers)
    (h : ∀ t ∈ o.parts, read (write t) = some t) :
    ofFields? reading read (lead ++ (o.map write).toFields) = some o := by
  rw [numbers, words_append, words_flatMap, words_flatMap] at hwords
  simp only [parts, List.forall_mem_append, List.forall_mem_flatMap] at h
  -- The parts come from the five sorts of members in turn.
  rcases h with ⟨⟨⟨⟨hproperties, hmethods⟩, hindexes⟩, hcalls⟩, hconstructs⟩
  generalize hfs : lead ++ (o.map write).toFields = fs
  have hproperties : fs.default? "properties" [] (listOf? (Property.ofJson? reading read)) =
      some o.properties :=
    Fields.default?_of_nonempty (by simp [← hfs, toFields, map, hlead _, Function.comp_def])
      fun p hp => p.ofJson?_toJson hnull reading (hwords.1 p hp) (hproperties p hp)
  have hmethods : fs.default? "methods" [] (listOf? (Method.ofJson? read)) = some o.methods :=
    Fields.default?_of_nonempty (by simp [← hfs, toFields, map, hlead _, Function.comp_def])
      fun m hm => m.ofJson?_toJson hnull (hwords.2 m hm) (hmethods m hm)
  have hindexes : fs.default? "index_signatures" [] (listOf? (IndexSignature.ofJson? read)) =
      some o.indexSignatures :=
    Fields.default?_of_nonempty (by simp [← hfs, toFields, map, hlead _, Function.comp_def])
      fun i hi => i.ofJson?_toJson (hindexes i hi)
  have hcalls : fs.default? "call_signatures" [] (listOf? (Signature.ofJson? read)) =
      some o.callSignatures :=
    Fields.default?_of_nonempty (by simp [← hfs, toFields, map, hlead _, Function.comp_def])
      fun s hs => s.ofJson?_toJson hnull (hcalls s hs)
  have hconstructs : fs.default? "construct_signatures" [] (listOf? (Signature.ofJson? read)) =
      some o.constructSignatures :=
    Fields.default?_of_nonempty (by simp [← hfs, toFields, map, hlead _, Function.comp_def])
      fun s hs => s.ofJson?_toJson hnull (hconstructs s hs)
  rw [ofFields?, hproperties, hmethods, hindexes, hcalls, hconstructs]
  rfl

theorem ObjectLiteral.ofJson?_toJson (reading : Reading) (o : ObjectLiteral τ)
    (hwords : Words o.numbers) (h : ∀ t ∈ o.parts, read (write t) = some t) :
    ofJson? reading read (o.map write).toJson = some o :=
  o.ofFields?_toFields hnull reading Fields.leads_nil hwords h

omit hnull in
/-- No layer has a field that could be taken for the name of its form. -/
theorem Ty.Shape.under_kind (s : Shape Json) : Fields.under s.toFields "kind" = [] := by
  cases s <;> simp [toFields, ObjectLiteral.toFields, Signature.toFields, MappedType.toFields]

omit hnull in
/-- The name in front tells the form of the fields behind it. -/
theorem Ty.Shape.ofJson?_eq (reading : Reading) (s : Shape Json) :
    ofJson? reading read s.toJson =
      ofFields? read (always "kind" (string s.kindName) ++ s.toFields) s.kindName := by
  -- The first field with that key is the one in front.
  have hkind : Fields.required? (always "kind" (string s.kindName) ++ s.toFields) "kind"
      (tag? reading kindNames) = some s.kindName := by
    refine Fields.required?_of_under (j := string s.kindName) ?_ (tag?_string reading _ _)
    rw [Fields.under_append, under_kind, List.append_nil, Fields.under_always, if_pos rfl]
  rw [ofJson?, toJson, fields?_object, Option.bind_eq_bind, Option.bind_some, hkind]
  rfl

/-! ### Layers

The name of the form leads, and then there are the fields. What is around the parts is read back by
looking up each field, and the parts come back by assumption. -/

namespace Ty.Shape

section Forms

variable (hlead : lead.Leads)

include hlead

omit hnull in
theorem ofFields?_reference {target : Reference} {arguments : List τ} {isInfer : Bool}
    (hwords : Words target.numbers) (h : ∀ t ∈ arguments, read (write t) = some t) :
    ofFields? read (lead ++ (map write (.reference target arguments isInfer)).toFields)
      "reference" = some (.reference target arguments isInfer) := by
  generalize hfs : lead ++ (map write (.reference target arguments isInfer)).toFields = fs
  have htarget : fs.required? "reference" (Reference.ofJson? .lenient) = some target :=
    Fields.required?_of_under (by simp [← hfs, toFields, map, hlead _])
      (target.ofJson?_toJson .lenient hwords)
  have harguments : fs.default? "type_arguments" [] (listOf? read) = some arguments :=
    Fields.default?_of_nonempty (by simp [← hfs, toFields, map, hlead _]) h
  have hinfer : fs.default? "is_infer" false bool? = some isInfer :=
    Fields.default?_of_flag (by simp [← hfs, toFields, map, hlead _])
  unfold ofFields?
  rw [htarget, harguments, hinfer]
  rfl

omit hnull in
theorem ofFields?_primitive {kind : PrimitiveKind} {literal : Option String} :
    ofFields? read (lead ++ (map write (.primitive kind literal)).toFields) "primitive" =
      some (.primitive kind literal) := by
  generalize hfs : lead ++ (map write (.primitive kind literal)).toFields = fs
  have hkind : fs.required? "primitive" (PrimitiveKind.ofJson? .lenient) = some kind :=
    Fields.required?_of_under (by simp [← hfs, toFields, map, hlead _])
      (kind.ofJson?_toJson .lenient)
  have hliteral : fs.optional? "literal" text? = some literal :=
    Fields.optional?_of_text (by simp [← hfs, toFields, map, hlead _])
  unfold ofFields?
  rw [hkind, hliteral]
  rfl

omit hnull in
theorem ofFields?_conditional {check bound whenTrue whenFalse : τ}
    (h : ∀ t ∈ [check, bound, whenTrue, whenFalse], read (write t) = some t) :
    ofFields? read (lead ++ (map write (.conditional check bound whenTrue whenFalse)).toFields)
      "conditional" = some (.conditional check bound whenTrue whenFalse) := by
  generalize hfs :
    lead ++ (map write (.conditional check bound whenTrue whenFalse)).toFields = fs
  simp only [List.forall_mem_cons] at h
  have hcheck : fs.required? "check" read = some check :=
    Fields.required?_of_under (by simp [← hfs, toFields, map, hlead _]) h.1
  have hbound : fs.required? "extends" read = some bound :=
    Fields.required?_of_under (by simp [← hfs, toFields, map, hlead _]) h.2.1
  have htrue : fs.required? "true_type" read = some whenTrue :=
    Fields.required?_of_under (by simp [← hfs, toFields, map, hlead _]) h.2.2.1
  have hfalse : fs.required? "false_type" read = some whenFalse :=
    Fields.required?_of_under (by simp [← hfs, toFields, map, hlead _]) h.2.2.2.1
  unfold ofFields?
  rw [hcheck, hbound, htrue, hfalse]
  rfl

omit hnull in
theorem ofFields?_indexAccess {container index : τ}
    (h : ∀ t ∈ [container, index], read (write t) = some t) :
    ofFields? read (lead ++ (map write (.indexAccess container index)).toFields) "index_access" =
      some (.indexAccess container index) := by
  generalize hfs : lead ++ (map write (.indexAccess container index)).toFields = fs
  simp only [List.forall_mem_cons] at h
  have hcontainer : fs.required? "object" read = some container :=
    Fields.required?_of_under (by simp [← hfs, toFields, map, hlead _]) h.1
  have hindex : fs.required? "index" read = some index :=
    Fields.required?_of_under (by simp [← hfs, toFields, map, hlead _]) h.2.1
  unfold ofFields?
  rw [hcontainer, hindex]
  rfl

omit hnull in
theorem ofFields?_operator {op : TypeOperator} {target : τ}
    (h : read (write target) = some target) :
    ofFields? read (lead ++ (map write (.operator op target)).toFields) "operator" =
      some (.operator op target) := by
  generalize hfs : lead ++ (map write (.operator op target)).toFields = fs
  have hop : fs.required? "operator" (TypeOperator.ofJson? .lenient) = some op :=
    Fields.required?_of_under (by simp [← hfs, toFields, map, hlead _])
      (op.ofJson?_toJson .lenient)
  have htarget : fs.required? "target" read = some target :=
    Fields.required?_of_under (by simp [← hfs, toFields, map, hlead _]) h
  unfold ofFields?
  rw [hop, htarget]
  rfl

omit hnull in
theorem ofFields?_template {head : String} {spans : List (TemplateSpan τ)}
    (h : ∀ s ∈ spans, read (write s.ty) = some s.ty) :
    ofFields? read (lead ++ (map write (.template head spans)).toFields) "template_literal" =
      some (.template head spans) := by
  generalize hfs : lead ++ (map write (.template head spans)).toFields = fs
  have hhead : fs.required? "head" text? = some head :=
    Fields.required?_of_under (by simp [← hfs, toFields, map, hlead _]) (text?_string _)
  have hspans : fs.required? "spans" (listOf? (TemplateSpan.ofJson? read)) = some spans :=
    Fields.required?_of_under (by simp [← hfs, toFields, map, hlead _, Function.comp_def])
      (listOf?_array fun s hs => s.ofJson?_toJson (h s hs))
  unfold ofFields?
  rw [hhead, hspans]
  rfl

end Forms

/-- A layer is read back, if its parts are. -/
theorem ofJson?_toJson (reading : Reading) (s : Shape τ) (hwords : Words s.numbers)
    (h : ∀ t ∈ s.parts, read (write t) = some t) :
    ofJson? reading read (s.map write).toJson = some s := by
  rw [ofJson?_eq]
  -- Nothing but the name stands in front of the fields.
  have hlead := Fields.leads_kind (string (s.map write).kindName)
  generalize hfs : always "kind" (string (s.map write).kindName) ++ (s.map write).toFields = fs
  cases s with
  | reference target arguments isInfer =>
      rw [← hfs]
      exact ofFields?_reference hlead hwords h
  | primitive kind literal =>
      rw [← hfs]
      exact ofFields?_primitive hlead
  | conditional check bound whenTrue whenFalse =>
      rw [← hfs]
      exact ofFields?_conditional hlead h
  | indexAccess container index =>
      rw [← hfs]
      exact ofFields?_indexAccess hlead h
  | operator op target =>
      rw [← hfs]
      exact ofFields?_operator hlead (h target (List.mem_singleton_self _))
  | template head spans =>
      rw [← hfs]
      exact ofFields?_template hlead fun s hs => h s.ty (List.mem_map_of_mem hs)
  | object body =>
      have hbody : ObjectLiteral.ofFields? .lenient read fs = some body := by
        rw [← hfs]
        exact body.ofFields?_toFields hnull .lenient hlead hwords h
      rw [map, kindName, ofFields?, hbody, Option.map_some]
  | function signature =>
      have hsignature : Signature.ofFields? read fs = some signature := by
        rw [← hfs]
        exact signature.ofFields?_toFields hnull hlead h
      rw [map, kindName, ofFields?, hsignature, Option.map_some]
  | mapped body =>
      have hbody : MappedType.ofFields? read fs = some body := by
        rw [← hfs]
        exact body.ofFields?_toFields hnull hlead h
      rw [map, kindName, ofFields?, hbody, Option.map_some]
  -- These have a single field besides the name of the form.
  | union members =>
      have hmembers : fs.required? "types" (listOf? read) = some members :=
        Fields.required?_of_under (by simp [← hfs, toFields, map]) (listOf?_array h)
      rw [map, kindName, ofFields?, hmembers, Option.map_some]
  | intersection members =>
      have hmembers : fs.required? "types" (listOf? read) = some members :=
        Fields.required?_of_under (by simp [← hfs, toFields, map]) (listOf?_array h)
      rw [map, kindName, ofFields?, hmembers, Option.map_some]
  | tuple elements =>
      have helements : fs.required? "elements" (listOf? (TupleElement.ofJson? read)) =
          some elements :=
        Fields.required?_of_under (by simp [← hfs, toFields, map, Function.comp_def])
          (listOf?_array fun e he => e.ofJson?_toJson (h e.ty (List.mem_map_of_mem he)))
      rw [map, kindName, ofFields?, helements, Option.map_some]
  | array element =>
      have helement : fs.required? "element" read = some element :=
        Fields.required?_of_under (by simp [← hfs, toFields, map])
          (h element (List.mem_singleton_self _))
      rw [map, kindName, ofFields?, helement, Option.map_some]
  | verbatim text =>
      have htext : fs.required? "text" text? = some text :=
        Fields.required?_of_under (by simp [← hfs, toFields, map]) (text?_string _)
      rw [map, kindName, ofFields?, htext, Option.map_some]

end Ty.Shape

end

theorem TupleElement.depth_lt (e : TupleElement Json) : e.ty.depth < e.toJson.depth := by
  refine Fields.Holds.depth_lt ?_
  simp

theorem TemplateSpan.depth_lt (s : TemplateSpan Json) : s.ty.depth < s.toJson.depth := by
  refine Fields.Holds.depth_lt ?_
  simp

theorem TypeParameter.depth_lt (p : TypeParameter Json) {j : Json} (h : j ∈ p.parts) :
    j.depth < p.toJson.depth := by
  simp only [parts, List.mem_append, Option.mem_toList] at h
  refine Fields.Holds.depth_lt ?_
  rcases h with h | h <;> simp [Fields.holds_present h]

theorem Parameter.depth_lt (p : Parameter Json) {j : Json} (h : j ∈ p.parts) :
    j.depth < p.toJson.depth := by
  rw [parts, Option.mem_toList] at h
  refine Fields.Holds.depth_lt ?_
  simp [Fields.holds_present h]

theorem MappedType.holds (m : MappedType Json) {j : Json} (h : j ∈ m.parts) :
    m.toFields.Holds j := by
  simp only [parts, List.mem_append, Option.mem_toList] at h
  rcases h with (h | h) | h <;> simp [toFields, Fields.holds_present h]

/-- The parts of a signature stand in its fields. -/
theorem Signature.holds (s : Signature Json) {j : Json} (h : j ∈ s.parts) :
    s.toFields.Holds j := by
  simp only [parts, List.mem_append, List.mem_singleton] at h
  simp only [toFields, Fields.holds_append, Fields.holds_always]
  -- Type parameters may be left out, parameters and the result may not.
  rcases h with (h | h) | h
  · exact Or.inl (Or.inl (Or.inl (Fields.holds_records (fun p _ j => p.depth_lt) h)))
  · exact Or.inl (Or.inl (Or.inr (Nat.le_of_lt (depth_lt_records (fun p _ j => p.depth_lt) h))))
  · exact Or.inl (Or.inr (Nat.le_of_eq (by rw [h])))

theorem Signature.depth_lt (s : Signature Json) {j : Json} (h : j ∈ s.parts) :
    j.depth < s.toJson.depth :=
  (s.holds h).depth_lt

theorem Property.depth_lt (p : Property Json) {j : Json} (h : j ∈ p.parts) :
    j.depth < p.toJson.depth := by
  rw [parts, Option.mem_toList] at h
  refine Fields.Holds.depth_lt ?_
  simp [Fields.holds_present h]

theorem Method.depth_lt (m : Method Json) {j : Json} (h : j ∈ m.parts) :
    j.depth < m.toJson.depth := by
  have hlt := depth_lt_records (fun s _ j => Signature.depth_lt s) h
  refine Fields.Holds.depth_lt ?_
  simp [Nat.le_of_lt hlt]

theorem IndexSignature.depth_lt (i : IndexSignature Json) {j : Json} (h : j ∈ i.parts) :
    j.depth < i.toJson.depth := by
  simp only [parts, List.mem_cons, List.not_mem_nil, or_false] at h
  refine Fields.Holds.depth_lt ?_
  rcases h with rfl | rfl <;> simp

/-- The parts of members stand in their fields. -/
theorem ObjectLiteral.holds (o : ObjectLiteral Json) {j : Json} (h : j ∈ o.parts) :
    o.toFields.Holds j := by
  simp only [parts, List.mem_append] at h
  simp only [toFields, Fields.holds_append]
  rcases h with (((h | h) | h) | h) | h
  · exact Or.inl (Or.inl (Or.inl (Or.inl (Fields.holds_records (fun p _ j => p.depth_lt) h))))
  · exact Or.inl (Or.inl (Or.inl (Or.inr (Fields.holds_records (fun m _ j => m.depth_lt) h))))
  · exact Or.inl (Or.inl (Or.inr (Fields.holds_records (fun i _ j => i.depth_lt) h)))
  · exact Or.inl (Or.inr (Fields.holds_records (fun s _ j => s.depth_lt) h))
  · exact Or.inr (Fields.holds_records (fun s _ j => s.depth_lt) h)

/-- The parts of a layer are nested less deeply than the layer. -/
theorem Ty.Shape.depth_lt (s : Shape Json) {j : Json} (h : j ∈ s.parts) :
    j.depth < s.toJson.depth := by
  -- A part stands in a field behind the one that names the layer.
  refine Fields.Holds.depth_lt ((Fields.holds_append _ _ _).2 (Or.inr ?_))
  cases s with
  | reference target arguments isInfer =>
      have harguments : Fields.Holds (nonempty "type_arguments" arguments) j :=
        Fields.holds_nonempty (List.ne_nil_of_mem h) (Nat.le_of_lt (depth_lt_array h))
      simp [toFields, harguments]
  | primitive kind literal => exact absurd h List.not_mem_nil
  | union members =>
      have hlt : j.depth < (Json.array members).depth := depth_lt_array h
      simp [toFields, Nat.le_of_lt hlt]
  | intersection members =>
      have hlt : j.depth < (Json.array members).depth := depth_lt_array h
      simp [toFields, Nat.le_of_lt hlt]
  | tuple elements =>
      rcases List.mem_map.1 h with ⟨e, he, rfl⟩
      have hitem : e.toJson.depth < (Json.array (elements.map (·.toJson))).depth :=
        depth_lt_array (List.mem_map_of_mem he)
      have hlt := Nat.lt_trans e.depth_lt hitem
      simp [toFields, Nat.le_of_lt hlt]
  | array element =>
      rw [List.mem_singleton.1 h]
      simp [toFields]
  | object body => exact body.holds h
  | function signature => exact signature.holds h
  | mapped body => exact body.holds h
  | conditional check bound whenTrue whenFalse =>
      simp only [parts, List.mem_cons, List.not_mem_nil, or_false] at h
      rcases h with rfl | rfl | rfl | rfl <;> simp [toFields]
  | indexAccess container index =>
      simp only [parts, List.mem_cons, List.not_mem_nil, or_false] at h
      rcases h with rfl | rfl <;> simp [toFields]
  | operator op target =>
      rw [List.mem_singleton.1 h]
      simp [toFields]
  | template head spans =>
      rcases List.mem_map.1 h with ⟨s, hs, rfl⟩
      have hitem : s.toJson.depth < (Json.array (spans.map (·.toJson))).depth :=
        depth_lt_array (List.mem_map_of_mem hs)
      have hlt := Nat.lt_trans s.depth_lt hitem
      simp [toFields, Nat.le_of_lt hlt]
  | verbatim text => exact absurd h List.not_mem_nil

namespace Ty

/-- A type is written layer by layer. -/
theorem toJson_of (s : Shape Ty) : (of s).toJson = (s.map toJson).toJson :=
  fold_of Shape.toJson s

theorem toJson_ne_null (t : Ty) : t.toJson ≠ null := by
  rcases t with ⟨s⟩
  exact Json.noConfusion

/-- The numbers of a layer do not depend on its parts. -/
theorem Shape.numbers_map {τ σ : Type} (f : τ → σ) (s : Shape τ) :
    (s.map f).numbers = s.numbers := by
  cases s with
  | object body =>
      have hproperty : ∀ p : Property τ, (p.map f).numbers = p.numbers := fun _ => rfl
      have hmethod : ∀ m : Method τ, (m.map f).numbers = m.numbers := fun _ => rfl
      simp [map, numbers, ObjectLiteral.numbers, ObjectLiteral.map, List.flatMap_map, hproperty,
        hmethod]
  | _ => rfl

/-- The numbers of a type are those of its outermost layer and of its parts. -/
theorem numbers_of (s : Shape Ty) : (of s).numbers = s.numbers ++ s.parts.flatMap numbers := by
  rw [numbers, fold_of, Shape.numbers_map, Shape.parts_map, List.flatMap_def]
  rfl

/-- A type is read back, with a bound that its nesting allows. -/
theorem read?_toJson (t : Ty) : ∀ (reading : Reading) (n : Nat), t.toJson.depth ≤ n →
    Words t.numbers → read? reading n t.toJson = some t := by
  induction t using induction with
  | step s ih =>
      intro reading n hdepth hwords
      rw [toJson_of] at hdepth ⊢
      rw [numbers_of, words_append, words_flatMap] at hwords
      cases n with
      | zero => exact absurd hdepth (Nat.not_le_of_lt (Nat.zero_lt_succ _))
      | succ n =>
          -- The parts stand deeper in the value than the layer, so one bound less is enough.
          have hparts : ∀ t ∈ s.parts, read? .lenient n t.toJson = some t := by
            intro t ht
            have hmem : t.toJson ∈ (s.map toJson).parts := by
              rw [Shape.parts_map]
              exact List.mem_map_of_mem ht
            have hlt := Shape.depth_lt _ hmem
            exact ih t ht .lenient n (by omega) (hwords.2 t ht)
          rw [read?, s.ofJson?_toJson toJson_ne_null reading hwords.1 hparts]
          rfl

/-- Types are read back. -/
theorem ofJson?_toJson (reading : Reading) (t : Ty) (hwords : Words t.numbers) :
    ofJson? reading t.toJson = some t :=
  t.read?_toJson reading _ (Nat.le_refl _) hwords

end Ty

end DocModel
