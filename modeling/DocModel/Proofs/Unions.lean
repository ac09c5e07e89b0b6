import DocModel.Proofs.Places
import DocModel.Proofs.Stored

/-!
# Unions in normal form

A union is made by opening up the unions among its members, by leaving out repetitions and by
putting `boolean` in place of its two literals. Only one level of unions is opened up. That is
enough if the members of a union are in normal form already, and so it has to be known of all the
ways in which a type can come about that they lead to normal forms: names, texts, the parts of
objects and signatures, and whatever is put around other types.

## Main definitions

* `Ty.NormalUnion`: Members of a union in normal form.
* `Ty.UnionsNormal`: All unions in a type are in normal form.

## Theorems

* `Ty.nodup_mergeBooleans`, `Ty.not_both_mergeBooleans`: What merging the boolean literals leaves.
* `Ty.normal_of_mem_members`: What is opened up is in normal form, and no union.
* `Ty.layers_unionsNormal`: Every layer inherits normal forms.
* `Session.unions_normal`: All unions are in normal form, in every run.
-/

namespace DocModel

namespace Ty

/-- Members of a union in normal form: at least two, no two of them equal, none of them a union, and
    not both boolean literals. -/
structure NormalUnion (ms : List Ty) : Prop where
  two : 2 ≤ ms.length
  nodup : ms.Nodup
  flat : ∀ m ∈ ms, m.shape.isUnion = false
  booleans : ¬ (boolTrue ∈ ms ∧ boolFalse ∈ ms)

/-- All unions in a type are in normal form, wherever they stand. -/
def UnionsNormal (t : Ty) : Prop :=
  ∀ place ms, t.partAt? place = some (of (.union ms)) → NormalUnion ms

variable {s : Shape Ty} {t u : Ty} {ts : List Ty}

/-- Unions of a type are the type itself, or unions of its parts. -/
theorem unionsNormal_of (hself : ∀ ms, s = .union ms → NormalUnion ms)
    (hparts : ∀ t ∈ s.parts, t.UnionsNormal) : (of s).UnionsNormal := by
  intro place ms hplace
  -- The union is the type itself, or stands in a part.
  cases place with
  | nil =>
      rw [partAt?, Option.some.injEq, of.injEq] at hplace
      exact hself ms hplace
  | cons i place =>
      rw [partAt?] at hplace
      rcases Option.bind_eq_some_iff.1 hplace with ⟨part, hpart, hplace⟩
      exact hparts part (List.mem_of_getElem? hpart) place ms hplace

theorem UnionsNormal.part (h : (of s).UnionsNormal) (ht : t ∈ s.parts) : t.UnionsNormal := by
  rcases List.mem_iff_getElem?.1 ht with ⟨i, hi⟩
  intro place ms hplace
  refine h (i :: place) ms ?_
  rw [partAt?, shape, hi]
  exact hplace

/-- What is opened up is in normal form, and no union. -/
theorem normal_of_mem_members (h : t.UnionsNormal) (hu : u ∈ t.members) :
    u.UnionsNormal ∧ u.shape.isUnion = false := by
  rcases t with ⟨s⟩
  cases s with
  | union ms => exact ⟨h.part hu, (h [] ms rfl).flat u hu⟩
  | _ =>
      rw [show u = _ from List.mem_singleton.1 hu]
      exact ⟨h, rfl⟩

/-- A literal has a first place in a list exactly if it is there. -/
theorem findIdx?_literal_isSome : (ts.findIdx? (· == t)).isSome = true ↔ t ∈ ts := by
  rw [List.findIdx?_isSome, List.any_beq']
  exact List.contains_iff_mem

theorem mergeBooleans_of_not_both (h : ¬ (boolTrue ∈ ts ∧ boolFalse ∈ ts)) :
    mergeBooleans ts = ts := by
  unfold mergeBooleans
  split
  · rename_i i j hi hj
    refine absurd ⟨findIdx?_literal_isSome.1 ?_, findIdx?_literal_isSome.1 ?_⟩ h
    · rw [hi]
      rfl
    · rw [hj]
      rfl
  · rfl

/-- Both literals are left out, and `boolean` stands somewhere if it is not there already. -/
theorem perm_mergeBooleans (h : boolTrue ∈ ts ∧ boolFalse ∈ ts) :
    (mergeBooleans ts).Perm
      (addNew (ts.filter fun t => t != boolTrue && t != boolFalse) boolean) := by
  rcases Option.isSome_iff_exists.1 (findIdx?_literal_isSome.2 h.1) with ⟨i, hi⟩
  rcases Option.isSome_iff_exists.1 (findIdx?_literal_isSome.2 h.2) with ⟨j, hj⟩
  simp only [mergeBooleans, addNew, hi, hj]
  -- It is there already, or is put in where the first literal stood.
  split
  · exact .refl _
  · refine List.perm_middle.trans ?_
    rw [List.take_append_drop]
    exact (List.perm_append_singleton _ _).symm

theorem nodup_mergeBooleans (h : ts.Nodup) : (mergeBooleans ts).Nodup := by
  by_cases hboth : boolTrue ∈ ts ∧ boolFalse ∈ ts
  · rw [(perm_mergeBooleans hboth).nodup_iff]
    exact nodup_addNew boolean (h.filter _)
  · rw [mergeBooleans_of_not_both hboth]
    exact h

theorem not_both_mergeBooleans (ts : List Ty) :
    ¬ (boolTrue ∈ mergeBooleans ts ∧ boolFalse ∈ mergeBooleans ts) := by
  by_cases hboth : boolTrue ∈ ts ∧ boolFalse ∈ ts
  · -- The literal is in neither of the two places from which members come.
    rintro ⟨htrue, _⟩
    rw [(perm_mergeBooleans hboth).mem_iff, mem_addNew] at htrue
    rcases htrue with htrue | htrue
    · simp at htrue
    · exact absurd htrue (by decide)
  · rw [mergeBooleans_of_not_both hboth]
    exact hboth

/-- A union of types in normal form is in normal form, and if it comes down to one type, that is in
    normal form too. -/
theorem unionsNormal_union (h : ∀ t ∈ ts, t.UnionsNormal) : (union ts).UnionsNormal := by
  -- Members come from unions in normal form, or are `boolean`.
  have hmembers : ∀ u ∈ mergeBooleans (distinct (ts.flatMap members)),
      u.UnionsNormal ∧ u.shape.isUnion = false := by
    intro u hu
    rcases mem_mergeBooleans hu with hu | rfl
    · rcases List.mem_flatMap.1 (mem_distinct.1 hu) with ⟨t, ht, hu⟩
      exact normal_of_mem_members (h t ht) hu
    · exact ⟨unionsNormal_of nofun nofun, rfl⟩
  have hnodup := nodup_mergeBooleans (nodup_distinct (ts.flatMap members))
  have hboth := not_both_mergeBooleans (distinct (ts.flatMap members))
  unfold union
  generalize mergeBooleans (distinct (ts.flatMap members)) = ms at hmembers hnodup hboth
  -- None, one, or a union of two or more.
  match ms with
  | [] => exact unionsNormal_of nofun nofun
  | [t] => exact (hmembers t (List.mem_singleton_self t)).1
  | t :: u :: us =>
      refine unionsNormal_of (fun ms hms => ?_) fun v hv => (hmembers v hv).1
      rw [← Shape.union.inj hms]
      exact ⟨Nat.le_add_left 2 us.length, hnodup, fun v hv => (hmembers v hv).2, hboth⟩

/-- Every layer inherits normal forms from the types in it. -/
theorem layers_unionsNormal : Layers UnionsNormal UnionsNormal where
  verbatim := fun _ => unionsNormal_of nofun nofun
  primitive := fun _ _ => unionsNormal_of nofun nofun
  layer := fun s hs hparts => by
    refine unionsNormal_of (fun ms hms => ?_) hparts
    -- Unions are not made by putting a layer around types.
    rw [hms] at hs
    cases hs
  union := fun ts hts => unionsNormal_union hts

end Ty

/-- All unions are in normal form, wherever they stand: in the types of the documentation after any
    run, and in those that are asked for then. -/
theorem Session.unions_normal (program : Program) (settings : Settings) (steps : Nat)
    (ops : List Operation) (s : Session)
    (hops : (start program settings steps).performAll ops = .ok s) :
    (∀ project ∈ s.finish.projects, ∀ m ∈ project.modules.modules, ∀ d ∈ m.declarations,
      ∀ t ∈ d.types, t.UnionsNormal) ∧
    ∀ ty node t s', s.normalize ty node = .ok (t, s') → t.UnionsNormal := by
  rcases types_obey program settings steps ops s (Ty.layers_unionsNormal.law _) hops with
    ⟨hstored, hgiven, _⟩
  exact ⟨hstored, hgiven⟩

/-- A file with a type alias for lists of a union, in which a string stands twice, another union
    once, and both boolean literals. -/
def Program.flags : Program where
  symbols := #[
    { info := { name := "a", kind := .sourceFile, declarations := [⟨0⟩] }, exports := [⟨1⟩] },
    { info := { name := "Flags", kind := .typeAlias, declarations := [⟨1⟩] }
      declaredType := some ⟨0⟩ }]
  nodes := #[
    { kind := .sourceFile, file := ⟨"/p/a.ts"⟩ },
    { kind := .typeAlias [] none, file := ⟨"/p/a.ts"⟩ }]
  types := #[
    { info := { form := .array ⟨1⟩ } },
    { info := { form := .union [⟨4⟩, ⟨2⟩, ⟨3⟩, ⟨5⟩] } },
    { info := { form := .intrinsic .string } },
    { info := { form := .union [⟨2⟩, ⟨6⟩] } },
    { info := { form := .intrinsic .true } },
    { info := { form := .intrinsic .false } },
    { info := { form := .intrinsic .number } }]
  files := Table.insert ∅ ⟨"/p/a.ts"⟩ ⟨0⟩

/-- The union is documented with three members. -/
theorem Session.unions_normal_flags :
    ∃ s project m d t, (start .flags {} 9).performAll
        [.addProject { name := "p", root := ⟨"/p"⟩ }, .extract] = .ok s ∧
      project ∈ s.finish.projects ∧ m ∈ project.modules.modules ∧ d ∈ m.declarations ∧
      t ∈ d.types ∧ t.partAt? [0] = some (.of (.union
        [Ty.boolean, Ty.ofPrimitive .string, Ty.ofPrimitive .number])) ∧ t.UnionsNormal := by
  have hrun : ((start .flags {} 9).performAll
      [.addProject { name := "p", root := ⟨"/p"⟩ }, .extract]).toOption.any (fun s =>
        s.finish.projects.any fun project => project.modules.modules.toList.any fun m =>
          m.declarations.any fun d => d.types.any fun t => t.partAt? [0] == some (.of (.union
            [Ty.boolean, Ty.ofPrimitive .string, Ty.ofPrimitive .number]))) = true := by
    decide +kernel
  -- The run finds the type, and the theorem applies to it.
  rcases Outcome.of_any hrun with ⟨s, hs, hany⟩
  simp only [List.any_eq_true, beq_iff_eq, Array.mem_toList_iff] at hany
  rcases hany with ⟨project, hp, m, hm, d, hd, t, ht, hplace⟩
  have hnormal := (unions_normal .flags {} 9 _ s hs).1 project hp m hm d hd t ht
  exact ⟨s, project, m, d, t, hs, hp, hm, hd, ht, hplace, hnormal⟩

end DocModel
