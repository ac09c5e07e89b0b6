import DocModel.Proofs.Snapshot

/-!
# Programs that were read

What is read has numbers of 32 bits, whatever value it is read from, since readers take no others.
So what was read is written and read again without loss, also where the value that it was read from
was laid out in another way: with fields left out, in another order, or with two spellings of one
path.

A number that is not finite has no place in a JSON text. Such numbers come from literals alone, and
a program without them is written as a value in which every number has its place.

## Main definitions

* `Json.Yields`: A property of whatever a reader gives.
* `Json.isProper`: Every number in the value can stand in a text.
* `Program.isFinite`: All literals of numbers are finite.

## Theorems

* `Program.yields`: What is read has numbers of 32 bits.
* `Program.isProper_toJson`: Which programs are written as proper values.
* `Program.snapshot_stable`: Writing and reading lose nothing.
-/

namespace DocModel

open Json

namespace Json

variable {α : Type}

/-- Whatever a reader gives has a property. -/
def Yields (read : Json → Option α) (P : α → Prop) : Prop := ∀ j a, read j = some a → P a

namespace Yields

variable {read : Json → Option α} {P : α → Prop} {fs : Fields} {key : String}

/-- What is read from a field that has to be there. -/
theorem required? (h : Yields read P) {a : α} (ha : fs.required? key read = some a) : P a := by
  rw [Fields.required?_eq] at ha
  rcases Option.bind_eq_some_iff.1 ha with ⟨j, _, hj⟩
  exact h j a hj

/-- What is read from a field that may be missing. -/
theorem optional? (h : Yields read P) {o : Option α} (ho : fs.optional? key read = some o) :
    ∀ a ∈ o.toList, P a := by
  intro a ha
  rw [Option.mem_toList] at ha
  rw [Fields.optional?_eq] at ho
  rcases Option.bind_eq_some_iff.1 ho with ⟨o', _, hread⟩
  -- A field that is missing or null gives nothing.
  cases o' with
  | none =>
      rw [← Option.some.inj hread] at ha
      cases ha
  | some j =>
      cases j with
      | null =>
          rw [← Option.some.inj hread] at ha
          cases ha
      | _ =>
          rcases Option.map_eq_some_iff.1 hread with ⟨b, hb, rfl⟩
          rw [Option.some.injEq] at ha
          exact ha ▸ h _ b hb

/-- What is read from a field with a default. -/
theorem default? (h : Yields read P) {fallback a : α} (hfallback : P fallback)
    (ha : fs.default? key fallback read = some a) : P a := by
  rw [Fields.default?_eq] at ha
  rcases Option.bind_eq_some_iff.1 ha with ⟨o, _, hread⟩
  -- A field that is missing gives the default.
  cases o with
  | none => exact Option.some.inj hread ▸ hfallback
  | some j => exact h j a hread

theorem mapM {β γ : Type} {f : β → Option γ} {Q : γ → Prop} (h : ∀ b c, f b = some c → Q c)
    {bs : List β} {cs : List γ} (hcs : bs.mapM f = some cs) : ∀ c ∈ cs, Q c := by
  induction bs generalizing cs with
  | nil =>
      rw [← Option.some.inj hcs]
      exact List.forall_mem_nil _
  | cons b bs ih =>
      simp only [List.mapM_cons, Option.bind_eq_bind, Option.bind_eq_some_iff, Option.pure_def,
        Option.some.injEq] at hcs
      rcases hcs with ⟨c, hc, cs', hcs', rfl⟩
      exact List.forall_mem_cons.2 ⟨h b c hc, ih hcs'⟩

theorem listOf? (h : Yields read P) : Yields (listOf? read) fun as => ∀ a ∈ as, P a := by
  intro j as hj
  cases j with
  | array items => exact Yields.mapM (fun b c hc => h b c hc) hj
  | _ => cases hj

/-- A list that may be missing. -/
theorem list? (h : Yields read P) {as : List α}
    (ha : fs.default? key [] (Json.listOf? read) = some as) : ∀ a ∈ as, P a :=
  h.listOf?.default? (List.forall_mem_nil _) ha

end Yields

/-- A reader of numbers takes those of 32 bits. -/
theorem yields_word? : Yields word? fun n => n < twoTo 32 := by
  intro j n h
  unfold word? at h
  -- The value is a whole number, and within the bounds.
  split at h
  · split at h
    · rename_i i hbound
      rw [Bool.and_eq_true, decide_eq_true_eq, decide_eq_true_eq] at hbound
      rw [← Option.some.inj h]
      omega
    · cases h
  · cases h

end Json

theorem SymbolId.yields : Yields ofJson? fun s : SymbolId => s.index < twoTo 32 := by
  intro j s h
  rcases Option.map_eq_some_iff.1 h with ⟨n, hn, rfl⟩
  exact yields_word? j n hn

theorem NodeId.yields : Yields ofJson? fun n : NodeId => n.index < twoTo 32 := by
  intro j s h
  rcases Option.map_eq_some_iff.1 h with ⟨n, hn, rfl⟩
  exact yields_word? j n hn

theorem TypeId.yields : Yields ofJson? fun t : TypeId => t.index < twoTo 32 := by
  intro j s h
  rcases Option.map_eq_some_iff.1 h with ⟨n, hn, rfl⟩
  exact yields_word? j n hn

theorem NodeId.lt_of_ofKey? {key : Key} {n : NodeId} (h : ofKey? key = some n) :
    n.index < twoTo 32 := by
  simp only [ofKey?, Option.ite_none_right_eq_some, Bool.and_eq_true, decide_eq_true_eq,
    Option.some.injEq] at h
  rw [← h.2]
  exact h.1.1.2

/-- The numbers of a symbol are read as such. -/
theorem SymbolInfo.yields : Yields ofJson? fun s => Words s.numbers := by
  intro j s h
  simp only [ofJson?, Option.bind_eq_bind, Option.bind_eq_some_iff, Option.pure_def,
    Option.some.injEq] at h
  rcases h with ⟨fs, _, name, _, kind, _, declarations, hdeclarations, parent, hparent, rfl⟩
  simp only [numbers, words_append, words_map]
  exact ⟨NodeId.yields.list? hdeclarations, SymbolId.yields.optional? hparent⟩

namespace NodeKind

/-- Whatever form is read from fields has numbers of 32 bits. -/
theorem words_of_ofFields? {fs : Fields} {name : String} {k : NodeKind}
    (h : ofFields? fs name = some k) : Words k.numbers := by
  -- Each field holds numbers that were read as words; the rest holds none.
  have hnodes : ∀ {key ns}, nodesOf? fs key = some ns → ∀ n ∈ ns, n.index < twoTo 32 :=
    fun hns => NodeId.yields.list? hns
  have hnode : ∀ {key n}, nodeOf? fs key = some n → ∀ a ∈ n.toList, a.index < twoTo 32 :=
    fun hn => NodeId.yields.optional? hn
  unfold ofFields? at h
  split at h <;>
    simp only [Option.bind_eq_bind, Option.bind_eq_some_iff, Option.map_eq_some_iff,
      Option.pure_def, Option.some.injEq, reduceCtorEq] at h
  · rcases h with ⟨typeParameters, hparameters, bases, hbases, interfaces, hinterfaces, rfl⟩
    simp only [numbers, words_append, words_map]
    exact ⟨⟨hnodes hparameters, hnodes hbases⟩, hnodes hinterfaces⟩
  · rcases h with ⟨typeParameters, hparameters, bases, hbases, rfl⟩
    simp only [numbers, words_append, words_map]
    exact ⟨hnodes hparameters, hnodes hbases⟩
  · rcases h with ⟨isConst, _, rfl⟩
    exact List.forall_mem_nil _
  · rcases h with ⟨initializer, hinitializer, rfl⟩
    simp only [numbers, words_map]
    exact hnode hinitializer
  · rcases h with ⟨initializer, hinitializer, written, hwritten, rfl⟩
    simp only [numbers, words_append, words_map]
    exact ⟨hnode hinitializer, hnode hwritten⟩
  · rcases h with ⟨typeParameters, hparameters, value, hvalue, rfl⟩
    simp only [numbers, words_append, words_map]
    exact ⟨hnodes hparameters, hnode hvalue⟩
  · rcases h with ⟨constraint, hconstraint, fallback, hfallback, inInfer, _, rfl⟩
    simp only [numbers, words_append, words_map]
    exact ⟨hnode hconstraint, hnode hfallback⟩
  · rcases h with ⟨target, htarget, arguments, harguments, rfl⟩
    simp only [numbers, words_append, words_map]
    exact ⟨SymbolId.yields.optional? htarget, hnodes harguments⟩
  · rcases h with ⟨isRest, _, initializer, hinitializer, written, hwritten, rfl⟩
    simp only [numbers, words_append, words_map]
    exact ⟨hnode hinitializer, hnode hwritten⟩
  · rcases h with ⟨written, hwritten, rfl⟩
    simp only [numbers, words_map]
    exact hnode hwritten

/-- A kind that is named alone has no numbers. -/
theorem numbers_of_named? {name : String} {k : NodeKind} (h : named? plain name = some k) :
    k.numbers = [] := by
  have hplain : ∀ e ∈ plain, e.2.numbers = [] := by decide
  rcases Option.map_eq_some_iff.1 h with ⟨e, he, rfl⟩
  exact hplain e (List.mem_of_find?_eq_some he)

theorem yields : Yields ofJson? fun k => Words k.numbers := by
  intro j k h
  unfold ofJson? at h
  -- The kind is named alone, or the name stands in front of a content.
  split at h
  · rename_i kind hkind
    rcases Option.bind_eq_some_iff.1 hkind with ⟨name, _, hname⟩
    rw [← Option.some.inj h, numbers_of_named? hname]
    exact List.forall_mem_nil _
  · simp only [Option.bind_eq_bind, Option.bind_eq_some_iff] at h
    rcases h with ⟨⟨name, content⟩, _, fs, _, hfs⟩
    exact words_of_ofFields? hfs

end NodeKind

theorem NodeInfo.yields : Yields ofJson? fun n => Words n.numbers := by
  intro j n h
  simp only [ofJson?, Option.bind_eq_bind, Option.bind_eq_some_iff, Option.pure_def,
    Option.some.injEq] at h
  rcases h with ⟨fs, _, kind, hkind, file, _, name, _, line, hline, character, hcharacter,
    modifiers, _, text, _, docComment, _, rfl⟩
  have hzero : 0 < twoTo 32 := by decide
  simp only [numbers, words_append, words_cons]
  exact ⟨NodeKind.yields.required? hkind, yields_word?.default? hzero hline,
    yields_word?.default? hzero hcharacter, List.forall_mem_nil _⟩

theorem TupleMember.yields : Yields ofJson? fun m => m.ty.index < twoTo 32 := by
  intro j m h
  simp only [ofJson?, Option.bind_eq_bind, Option.bind_eq_some_iff, Option.pure_def,
    Option.some.injEq] at h
  rcases h with ⟨fs, _, ty, hty, name, _, optional, _, rest, _, rfl⟩
  exact TypeId.yields.required? hty

namespace TypeForm

theorem words_of_ofFields? {fs : Fields} {name : String} {f : TypeForm}
    (h : ofFields? fs name = some f) : Words f.numbers := by
  have hnil : Words [] := List.forall_mem_nil _
  have htype : ∀ {key t}, fs.required? key TypeId.ofJson? = some t → t.index < twoTo 32 :=
    fun ht => TypeId.yields.required? ht
  have hoptional : ∀ {key t}, fs.optional? key TypeId.ofJson? = some t →
      ∀ a ∈ t.toList, a.index < twoTo 32 := fun ht => TypeId.yields.optional? ht
  -- One form after another, in the order of the reader.
  unfold ofFields? at h
  split at h <;>
    simp only [Option.bind_eq_bind, Option.bind_eq_some_iff, Option.pure_def, Option.some.injEq,
      reduceCtorEq] at h
  · rcases h with ⟨key, hkey, constraint, hconstraint, value, hvalue, nameType, hnameType,
      readonly, _, optional, _, rfl⟩
    simp only [numbers, words_append, words_cons, words_map]
    exact ⟨⟨⟨⟨htype hkey, hnil⟩, hoptional hconstraint⟩, hoptional hvalue⟩, hoptional hnameType⟩
  · rcases h with ⟨check, hcheck, bound, hbound, whenTrue, htrue, whenFalse, hfalse, rfl⟩
    simp only [numbers, words_cons]
    exact ⟨htype hcheck, htype hbound, htype htrue, htype hfalse, hnil⟩
  · rcases h with ⟨container, hcontainer, index, hindex, rfl⟩
    simp only [numbers, words_cons]
    exact ⟨htype hcontainer, htype hindex, hnil⟩
  · rcases h with ⟨op, _, target, htarget, rfl⟩
    simp only [numbers, words_cons]
    exact ⟨htype htarget, hnil⟩
  · rcases h with ⟨texts, _, types, htypes, rfl⟩
    simp only [numbers, words_map]
    exact TypeId.yields.listOf?.required? htypes
  · rcases h with ⟨name, _, target, htarget, rfl⟩
    simp only [numbers, words_cons]
    exact ⟨htype htarget, hnil⟩

/-- Whatever form is read from a content has numbers of 32 bits. -/
theorem words_of_ofContent? {content : Json} {name : String} {f : TypeForm}
    (h : ofContent? content name = some f) : Words f.numbers := by
  have hnil : Words [] := List.forall_mem_nil _
  -- Intrinsic types and literals hold no numbers of other types.
  unfold ofContent? at h
  split at h <;> simp only [Option.map_eq_some_iff, Option.bind_eq_some_iff] at h
  · rcases h with ⟨kind, _, rfl⟩
    exact hnil
  · rcases h with ⟨value, _, rfl⟩
    exact hnil
  · rcases h with ⟨value, _, rfl⟩
    exact hnil
  · rcases h with ⟨digits, _, rfl⟩
    exact hnil
  · rcases h with ⟨members, hmembers, rfl⟩
    exact (words_map _ _).2 (TypeId.yields.listOf? _ _ hmembers)
  · rcases h with ⟨members, hmembers, rfl⟩
    exact (words_map _ _).2 (TypeId.yields.listOf? _ _ hmembers)
  · rcases h with ⟨element, helement, rfl⟩
    exact (words_cons _ _).2 ⟨TypeId.yields _ _ helement, hnil⟩
  · rcases h with ⟨members, hmembers, rfl⟩
    exact (words_map _ _).2 (TupleMember.yields.listOf? _ _ hmembers)
  · rcases h with ⟨target, htarget, rfl⟩
    exact (words_cons _ _).2 ⟨TypeId.yields _ _ htarget, hnil⟩
  · rcases h with ⟨fs, _, hfs⟩
    exact words_of_ofFields? hfs

/-- A form that is named alone has no numbers. -/
theorem numbers_of_named? {name : String} {f : TypeForm} (h : named? plain name = some f) :
    f.numbers = [] := by
  have hplain : ∀ e ∈ plain, e.2.numbers = [] := by decide
  rcases Option.map_eq_some_iff.1 h with ⟨e, he, rfl⟩
  exact hplain e (List.mem_of_find?_eq_some he)

theorem yields : Yields ofJson? fun f => Words f.numbers := by
  intro j f h
  unfold ofJson? at h
  split at h
  · rename_i form hform
    rcases Option.bind_eq_some_iff.1 hform with ⟨name, _, hname⟩
    rw [← Option.some.inj h, numbers_of_named? hname]
    exact List.forall_mem_nil _
  · rcases Option.bind_eq_some_iff.1 h with ⟨⟨name, content⟩, _, hcontent⟩
    exact words_of_ofContent? hcontent

end TypeForm

theorem AliasInstance.yields : Yields ofJson? fun a => Words a.numbers := by
  intro j a h
  simp only [ofJson?, Option.bind_eq_bind, Option.bind_eq_some_iff, Option.pure_def,
    Option.some.injEq] at h
  rcases h with ⟨fs, _, symbol, hsymbol, arguments, harguments, rfl⟩
  simp only [numbers, words_append, words_cons, words_map]
  exact ⟨⟨SymbolId.yields.required? hsymbol, List.forall_mem_nil _⟩,
    TypeId.yields.list? harguments⟩

theorem TypeInfo.yields : Yields ofJson? fun t => Words t.numbers := by
  intro j t h
  simp only [ofJson?, Option.bind_eq_bind, Option.bind_eq_some_iff, Option.pure_def,
    Option.some.injEq] at h
  rcases h with ⟨fs, _, form, hform, symbol, hsymbol, writtenAs, hwritten, rfl⟩
  simp only [numbers, words_append, words_map, words_flatMap]
  exact ⟨⟨TypeForm.yields.required? hform, SymbolId.yields.optional? hsymbol⟩,
    AliasInstance.yields.optional? hwritten⟩

theorem SignatureInfo.yields : Yields ofJson? fun s => Words s.numbers := by
  intro j s h
  simp only [ofJson?, Option.bind_eq_bind, Option.bind_eq_some_iff, Option.pure_def,
    Option.some.injEq] at h
  rcases h with ⟨fs, _, declaration, hdeclaration, typeParameters, htypes, parameters, hparameters,
    returnType, hreturn, rfl⟩
  simp only [numbers, words_append, words_cons, words_map]
  exact ⟨⟨⟨NodeId.yields.optional? hdeclaration, TypeId.yields.list? htypes⟩,
    SymbolId.yields.list? hparameters⟩, TypeId.yields.required? hreturn,
    List.forall_mem_nil _⟩

theorem WildcardExport.yields : Yields ofJson? fun w => w.target.index < twoTo 32 := by
  intro j w h
  simp only [ofJson?, Option.bind_eq_bind, Option.bind_eq_some_iff, Option.pure_def,
    Option.some.injEq] at h
  rcases h with ⟨fs, _, target, htarget, spaceName, _, rfl⟩
  exact SymbolId.yields.required? htarget

theorem SymbolRecord.yields : Yields ofJson? fun r => Words r.numbers := by
  intro j r h
  simp only [ofJson?, Option.bind_eq_bind, Option.bind_eq_some_iff, Option.pure_def,
    Option.some.injEq] at h
  rcases h with ⟨fs, _, info, hinfo, aliased, haliased, exports, hexports, wildcardExports,
    hwildcards, declaredType, hdeclared, valueType, hvalue, rfl⟩
  simp only [numbers, words_append, words_map]
  exact ⟨⟨⟨⟨⟨SymbolInfo.yields.required? hinfo, SymbolId.yields.optional? haliased⟩,
    SymbolId.yields.list? hexports⟩, WildcardExport.yields.list? hwildcards⟩,
    TypeId.yields.optional? hdeclared⟩, TypeId.yields.optional? hvalue⟩

theorem TypeRecord.yields : Yields ofJson? fun r => Words r.numbers := by
  intro j r h
  simp only [ofJson?, Option.bind_eq_bind, Option.bind_eq_some_iff, Option.pure_def,
    Option.some.injEq] at h
  rcases h with ⟨fs, _, info, hinfo, text, _, arguments, harguments, callSignatures, hcalls,
    constructSignatures, hconstructs, properties, hproperties, stringIndex, hstrings, numberIndex,
    hnumbers, rfl⟩
  simp only [numbers, words_append, words_map, words_flatMap]
  exact ⟨⟨⟨⟨⟨⟨TypeInfo.yields.required? hinfo, TypeId.yields.list? harguments⟩,
    SignatureInfo.yields.list? hcalls⟩, SignatureInfo.yields.list? hconstructs⟩,
    SymbolId.yields.list? hproperties⟩, TypeId.yields.optional? hstrings⟩,
    TypeId.yields.optional? hnumbers⟩

namespace Table

variable {κ ν : Type} [Ord κ] {P : κ → Prop} {Q : ν → Prop}

/-- A write under a key that is there keeps the spelling of the key, so keys and values of an entry
    may come from different writes. -/
theorem forall_mem_insertEntry {k : κ} {v : ν} {es : List (κ × ν)} (hk : P k) (hv : Q v)
    (h : ∀ e ∈ es, P e.1 ∧ Q e.2) : ∀ e ∈ insertEntry k v es, P e.1 ∧ Q e.2 := by
  induction es with
  | nil => exact List.forall_mem_singleton.2 ⟨hk, hv⟩
  | cons e rest ih =>
      rcases List.forall_mem_cons.1 h with ⟨hfirst, hrest⟩
      simp only [insertEntry]
      -- The key goes in front, is there already, or belongs further back.
      split
      · exact List.forall_mem_cons.2 ⟨⟨hk, hv⟩, h⟩
      · exact List.forall_mem_cons.2 ⟨⟨hfirst.1, hv⟩, hrest⟩
      · exact List.forall_mem_cons.2 ⟨hfirst, ih hrest⟩

variable [Std.TransOrd κ]

/-- A table that is made from entries holds what those entries hold. -/
theorem forall_mem_ofList {es : List (κ × ν)} (h : ∀ e ∈ es, P e.1 ∧ Q e.2) :
    ∀ e ∈ (ofList es).entries, P e.1 ∧ Q e.2 := by
  -- The entries are inserted one by one, into a table that has the property.
  have hfold : ∀ (es : List (κ × ν)) (t : Table κ ν), (∀ e ∈ es, P e.1 ∧ Q e.2) →
      (∀ e ∈ t.entries, P e.1 ∧ Q e.2) →
      ∀ e ∈ (es.foldl (fun t e => t.insert e.1 e.2) t).entries, P e.1 ∧ Q e.2 := by
    intro es
    induction es with
    | nil => exact fun t _ ht => ht
    | cons e es ih =>
        intro t hes ht
        rcases List.forall_mem_cons.1 hes with ⟨hfirst, hrest⟩
        exact ih _ hrest (forall_mem_insertEntry hfirst.1 hfirst.2 ht)
  exact hfold es empty h (List.forall_mem_nil _)

theorem yields {key : Key → Option κ} {value : Json → Option ν}
    (hkey : ∀ k a, key k = some a → P a) (hvalue : Yields value Q) :
    Yields (ofJson? key value) fun t => ∀ e ∈ t.entries, P e.1 ∧ Q e.2 := by
  intro j t h
  simp only [ofJson?, Option.bind_eq_bind, Option.bind_eq_some_iff, Option.pure_def,
    Option.some.injEq] at h
  rcases h with ⟨fs, _, entries, hentries, rfl⟩
  refine forall_mem_ofList (Yields.mapM (fun field e he => ?_) hentries)
  simp only [Option.bind_eq_some_iff, Option.some.injEq] at he
  rcases he with ⟨a, ha, b, hb, rfl⟩
  exact ⟨hkey _ a ha, hvalue _ b hb⟩

end Table

namespace Program

/-- An intrinsic type is read as a number of 32 bits. -/
theorem intrinsic_yields : Yields intrinsicOfJson? fun e => e.2.index < twoTo 32 := by
  intro j e h
  unfold intrinsicOfJson? at h
  split at h
  · simp only [Option.bind_eq_bind, Option.bind_eq_some_iff, Option.pure_def,
      Option.some.injEq] at h
    rcases h with ⟨kind, _, ty, hty, rfl⟩
    exact TypeId.yields _ ty hty
  · cases h

/-- What is read has numbers of 32 bits. -/
theorem yields : Yields ofJson? fun p => Words p.numbers := by
  intro j p h
  simp only [ofJson?, Option.bind_eq_bind, Option.bind_eq_some_iff, Option.pure_def,
    Option.some.injEq] at h
  rcases h with ⟨fs, _, symbols, hsymbols, nodes, hnodes, types, htypes, files, hfiles,
    defaultLibrary, _, intrinsics, hintrinsics, nodeTypes, hnodeTypes, rfl⟩
  have hfiles : ∀ e ∈ files.entries, True ∧ e.2.index < twoTo 32 :=
    (Table.yields (fun _ _ _ => trivial) SymbolId.yields).default?
      (List.forall_mem_nil _) hfiles
  have hnodeTypes : ∀ e ∈ nodeTypes.entries, e.1.index < twoTo 32 ∧ e.2.index < twoTo 32 :=
    (Table.yields (fun _ _ => NodeId.lt_of_ofKey?) TypeId.yields).default?
      (List.forall_mem_nil _) hnodeTypes
  simp only [numbers, words_append, words_map, words_flatMap, words_cons]
  exact ⟨⟨⟨⟨⟨SymbolRecord.yields.list? hsymbols, NodeInfo.yields.list? hnodes⟩,
    TypeRecord.yields.list? htypes⟩, fun e he => (hfiles e he).2⟩,
    intrinsic_yields.list? hintrinsics⟩, fun e he =>
      ⟨(hnodeTypes e he).1, (hnodeTypes e he).2, List.forall_mem_nil _⟩⟩

end Program

namespace Json

mutual

/-- Whether every number in a value can stand in a text, and nothing denotes nothing. -/
def isProper : Json → Bool
  | number (.real x) => x.isFinite
  | unreadable => false
  | array items => isProperItems items
  | object fields => isProperFields fields
  | _ => true

/-- Whether all items are proper. -/
def isProperItems : List Json → Bool
  | [] => true
  | j :: js => isProper j && isProperItems js

/-- Whether the values of all fields are proper. -/
def isProperFields : List (Key × Json) → Bool
  | [] => true
  | (_, j) :: fs => isProper j && isProperFields fs

end

@[simp]
theorem isProper_string (s : String) : isProper (string s) = true := by
  rw [isProper] <;> simp

@[simp]
theorem isProper_bool (b : Bool) : isProper (bool b) = true := by
  rw [isProper] <;> simp

@[simp]
theorem isProper_ofNat (n : Nat) : isProper (ofNat n) = true := by
  rw [ofNat, isProper] <;> simp

@[simp]
theorem isProper_null : isProper null = true := by
  rw [isProper] <;> simp

@[simp]
theorem isProper_object (fs : Fields) : isProper (object fs) = fs.all (·.2.isProper) := by
  have hfields : isProperFields fs = fs.all (·.2.isProper) := by
    induction fs with
    | nil => rfl
    | cons e fs ih => rw [isProperFields, ih, List.all_cons]
  rw [isProper, hfields]

@[simp]
theorem isProper_array (js : List Json) : isProper (array js) = js.all isProper := by
  have hitems : isProperItems js = js.all isProper := by
    induction js with
    | nil => rfl
    | cons j js ih => rw [isProperItems, ih, List.all_cons]
  rw [isProper, hitems]

variable {α : Type} {write : α → Json}

@[simp]
theorem isProper_real (x : Binary64) : isProper (number (.real x)) = x.isFinite := by rw [isProper]

@[simp]
theorem isProper_arrayOf (h : ∀ a, (write a).isProper = true) (as : List α) :
    isProper (arrayOf write as) = true := by
  simp [arrayOf, h]

@[simp]
theorem isProper_orNull (h : ∀ a, (write a).isProper = true) (o : Option α) :
    isProper (orNull write o) = true := by
  cases o with
  | none => exact isProper_null
  | some a => exact h a

@[simp]
theorem isProper_ofStrings (ss : List String) : isProper (ofStrings ss) = true := by
  simp [ofStrings]

@[simp]
theorem all_always (key : String) (j : Json) :
    (always key j).all (·.2.isProper) = j.isProper := by
  simp [always]

/-- A table is written as a proper value if its values are. -/
@[simp]
theorem isProper_toJson_table {κ ν : Type} [Ord κ] (t : Table κ ν) (key : κ → String)
    {value : ν → Json} (h : ∀ v, (value v).isProper = true) :
    isProper (t.toJson key value) = true := by
  simp [Table.toJson, h]

end Json

@[simp]
theorem SymbolId.isProper_toJson (s : SymbolId) : s.toJson.isProper = true := isProper_ofNat _

@[simp]
theorem NodeId.isProper_toJson (n : NodeId) : n.toJson.isProper = true := isProper_ofNat _

@[simp]
theorem TypeId.isProper_toJson (t : TypeId) : t.toJson.isProper = true := isProper_ofNat _

@[simp]
theorem SymbolInfo.isProper_toJson (s : SymbolInfo) : s.toJson.isProper = true := by
  simp [toJson, SymbolKind.toJson]

@[simp]
theorem NodeKind.isProper_toJson (k : NodeKind) : k.toJson.isProper = true := by
  cases k <;> simp [toJson, formWith, nodesField, nodeField]

@[simp]
theorem NodeInfo.isProper_toJson (n : NodeInfo) : n.toJson.isProper = true := by
  simp [toJson, Modifiers.toJson]

@[simp]
theorem SymbolRecord.isProper_toJson (r : SymbolRecord) : r.toJson.isProper = true := by
  simp [toJson, WildcardExport.toJson]

/-- A literal of a number has to be finite. -/
def TypeForm.isFinite : TypeForm → Bool
  | numberLiteral x => x.isFinite
  | _ => true

@[simp]
theorem TypeForm.isProper_toJson (f : TypeForm) : f.toJson.isProper = f.isFinite := by
  cases f <;> simp [toJson, isFinite, formWith, typeField, optionalField, Intrinsic.toJson,
    TupleMember.toJson, MappedModifier.toJson, TypeOperator.toJson]

@[simp]
theorem AliasInstance.isProper_toJson (a : AliasInstance) : a.toJson.isProper = true := by
  simp [toJson]

@[simp]
theorem SignatureInfo.isProper_toJson (s : SignatureInfo) : s.toJson.isProper = true := by
  simp [toJson]

@[simp]
theorem TypeRecord.isProper_toJson (r : TypeRecord) :
    r.toJson.isProper = r.info.form.isFinite := by
  simp [toJson, TypeInfo.toJson]

namespace Program

/-- All literals of numbers are finite. -/
def isFinite (p : Program) : Bool := p.types.toList.all (·.info.form.isFinite)

/-- A program is written as a proper value if its literals of numbers are finite, and only then. -/
theorem isProper_toJson (p : Program) : p.toJson.isProper = p.isFinite := by
  have htypes : (arrayOf TypeRecord.toJson p.types.toList).isProper = p.isFinite := by
    rw [arrayOf, isProper_array, List.all_map, isFinite]
    exact congrArg p.types.toList.all (funext TypeRecord.isProper_toJson)
  simp [toJson, intrinsicToJson, Intrinsic.toJson, htypes]

/-- A program with numbers of 32 bits, whose literals of numbers are finite, is written as a proper
    value, and the same tables are read from it. Whatever program is read from a value has such
    numbers, and is itself read again from what is written for it. -/
theorem snapshot_stable :
    (∀ p : Program, Words p.numbers → p.isFinite = true →
      p.toJson.isProper = true ∧ ofJson? p.toJson = some p) ∧
    (∀ (j : Json) (p : Program), ofJson? j = some p →
      Words p.numbers ∧ ofJson? p.toJson = some p) := by
  refine ⟨fun p hwords hfinite => ⟨?_, p.ofJson?_toJson hwords⟩, fun j p hj => ?_⟩
  · rw [isProper_toJson, hfinite]
  · have hwords := yields j p hj
    exact ⟨hwords, p.ofJson?_toJson hwords⟩

/-- A program with kinds and forms of many sorts, and the greatest number that a node can have. -/
def varied : Program where
  symbols := #[
    { info := { name := "f", kind := .function, declarations := [⟨0⟩], parent := some ⟨7⟩ }
      wildcardExports := [{ target := ⟨1⟩, spaceName := some "ns" }], valueType := some ⟨2⟩ }]
  nodes := #[
    { kind := .parameter true none (some ⟨1⟩), file := ⟨"/p//a.ts"⟩, line := 3
      modifiers := { isOptional := true }, docComment := some "/** x */" },
    { kind := .typeReference (some ⟨0⟩) [⟨0⟩, ⟨1⟩], file := ⟨"/p/a.ts"⟩ },
    { kind := .method, file := ⟨"/p/a.ts"⟩ }]
  types := #[
    { info := { form := .numberLiteral (Binary64.ofDecimal true 15 (-1)) } },
    { info := { form := .tuple [{ ty := ⟨0⟩, name := some "first", rest := true }]
                writtenAs := some { symbol := ⟨0⟩, arguments := [⟨0⟩] } } },
    { info := { form := .mapped ⟨0⟩ none (some ⟨1⟩) none (some .remove) none }
      callSignatures := [{ parameters := [⟨0⟩], returnType := ⟨0⟩ }] },
    { info := { form := .template ["a", "b"] [⟨1⟩] }, text := some "?" }]
  files := Table.insert ∅ ⟨"/p//a.ts"⟩ ⟨0⟩
  defaultLibrary := Table.insert ∅ ⟨"/lib/./es5.d.ts"⟩ ()
  intrinsics := [(.string, ⟨0⟩)]
  nodeTypes := (Table.insert ∅ ⟨4294967295⟩ ⟨1⟩).insert ⟨0⟩ ⟨2⟩

/-- A value in which most fields are left out, and a file comes twice, in two spellings. -/
def respelled : Json :=
  object [
    ("files", object [("/p/a.ts", ofNat 0), ("/p//a.ts", ofNat 1)]),
    ("symbols", array [object [
      ("info", object [("kind", string "enum"), ("name", string "E")])]])]

/-- A program of many sorts, and one that is read from a value in another spelling. -/
theorem snapshot_stable_varied :
    Words varied.numbers ∧ varied.isFinite = true ∧ ofJson? varied.toJson = some varied ∧
      ∃ p, ofJson? respelled = some p ∧ p.files.entries = [(⟨"/p/a.ts"⟩, ⟨1⟩)] ∧
        ofJson? p.toJson = some p := by
  have hwords : Words varied.numbers := by decide +kernel
  have hfinite : varied.isFinite = true := by decide +kernel
  -- The later of the two entries for the file stays, under the earlier spelling.
  have hread : (ofJson? respelled).any
      (fun p => p.files.entries == [(⟨"/p/a.ts"⟩, ⟨1⟩)]) = true := by
    decide +kernel
  rcases (Option.any_eq_true _ _).1 hread with ⟨p, hp, hfiles⟩
  exact ⟨hwords, hfinite, (snapshot_stable.1 varied hwords hfinite).2, p, hp,
    beq_iff_eq.1 hfiles, (snapshot_stable.2 respelled p hp).2⟩

end Program

end DocModel
