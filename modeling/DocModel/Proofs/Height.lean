import DocModel.Proofs.Stored

/-!
# The depth limit bounds the height of types

Types of a program may contain themselves. What is built from them is a finite tree all the same,
and the settings say how high it can be: below the limit a type is built from its parts one level
further in, and at the limit it is a text. A type at a depth is therefore as high as what is left up
to the limit, and one more for the text.

Registering a declaration in the middle of a type starts from depth zero again, but what is built
then does not become a part of the type. It becomes a declaration, whose types are as high as types
can be from depth zero.

Putting together a union needs a closer look. Members that are unions are opened up, which takes a
level away, and a union of one member is that member.

## Main definitions

* `Ty.height`: How many layers a type has at most, one inside another.
* `Program.circular`: A program with a type that contains itself.

## Theorems

* `Ty.height_union_le`: A union is no higher than a layer around its members.
* `Ty.law_height`: What the depth leaves for the height.
* `Session.types_within_limit`: No type is higher than the limit allows, in any run.
-/

namespace DocModel

namespace Ty

/-- How many layers a type has at most, one inside another. -/
def height : Ty → Nat := fold fun s => 1 + s.parts.foldr max 0

/-- The greatest of some numbers is within a bound if all of them are. -/
theorem foldr_max_le_iff (ns : List Nat) (n : Nat) : ns.foldr max 0 ≤ n ↔ ∀ m ∈ ns, m ≤ n := by
  induction ns with
  | nil => simp
  | cons m ns ih => simp [ih]

theorem height_of (s : Shape Ty) : (of s).height = 1 + (s.parts.map height).foldr max 0 := by
  rw [height, fold_of, Shape.parts_map]

/-- A layer around parts is one higher than the highest of them. -/
theorem height_of_le_iff (s : Shape Ty) (n : Nat) :
    (of s).height ≤ n + 1 ↔ ∀ t ∈ s.parts, t.height ≤ n := by
  rw [height_of, Nat.add_comm, Nat.add_le_add_iff_right, foldr_max_le_iff]
  simp only [List.mem_map, forall_exists_index, and_imp, forall_apply_eq_imp_iff₂]

/-- A layer without parts is as low as a type can be. -/
theorem height_of_eq_one {s : Shape Ty} (h : s.parts = []) : (of s).height = 1 := by
  rw [height_of, h]
  rfl

/-- Opening up a union takes a level away. -/
theorem height_members_le {t u : Ty} (h : u ∈ t.members) : u.height ≤ t.height := by
  rcases t with ⟨s⟩
  unfold members at h
  split at h
  · rename_i ms hshape
    rw [show s = .union ms from hshape]
    -- A union is at least one layer high.
    have hle : (of (.union ms)).height ≤ (of (.union ms)).height - 1 + 1 := by omega
    have hparts := (height_of_le_iff (.union ms) _).1 hle u h
    omega
  · rw [List.mem_singleton.1 h]

/-- One member is that type, and more are a layer around them. -/
theorem height_ofMembers_le {ts : List Ty} {n : Nat} (hn : 1 ≤ n) (h : ∀ t ∈ ts, t.height ≤ n) :
    (ofMembers ts).height ≤ n + 1 := by
  match ts with
  | [] =>
      have hnever : (ofPrimitive .never).height = 1 := height_of_eq_one rfl
      rw [ofMembers, hnever]
      omega
  | [t] =>
      have ht := h t (List.mem_singleton_self t)
      rw [ofMembers]
      omega
  | t :: u :: ts => exact (height_of_le_iff (.union (t :: u :: ts)) n).2 h

/-- A union is no higher than a layer around its members. -/
theorem height_union_le {ts : List Ty} {n : Nat} (hn : 1 ≤ n) (h : ∀ t ∈ ts, t.height ≤ n) :
    (union ts).height ≤ n + 1 := by
  refine height_ofMembers_le hn fun t ht => ?_
  rcases mem_mergeBooleans ht with ht | rfl
  · rcases List.mem_flatMap.1 (mem_distinct.1 ht) with ⟨u, hu, htu⟩
    exact Nat.le_trans (height_members_le htu) (h u hu)
  · -- The two boolean literals have become one type without parts.
    have hboolean : boolean.height = 1 := height_of_eq_one rfl
    omega

/-- What the depth leaves for the height: the levels up to the limit, and a text at the end. -/
theorem law_height (limit : Nat) : Law limit fun d t => t.height ≤ limit - d + 1 := by
  have hadmits : ∀ n, Admits fun t => t.height ≤ n + 1 := by
    intro n
    refine ⟨fun text => ?_, fun kind literal => ?_⟩
    · rw [verbatim, height_of_eq_one rfl]
      omega
    · rw [height_of_eq_one rfl]
      omega
  refine ⟨fun d => hadmits (limit - d), fun d hd => ?_⟩
  -- One level further in there is one less.
  have hlevel : limit - (d + 1) + 1 = limit - d := by omega
  refine { hadmits (limit - (d + 1)) with layer := fun s _ hparts => ?_, union := fun ts hts => ?_ }
  · rw [hlevel] at hparts
    exact (height_of_le_iff s _).2 hparts
  · rw [hlevel] at hts
    exact height_union_le (by omega) hts

end Ty

namespace Session

/-- No type is higher than the limit allows: not those in the documentation after any run, nor those
    that are asked for then. A type that is asked for at a depth, in the middle of whatever work, is
    as high as what is left up to the limit, and one more. -/
theorem types_within_limit (program : Program) (settings : Settings) (steps : Nat)
    (ops : List Operation) (s : Session)
    (hops : (start program settings steps).performAll ops = .ok s) :
    (∀ project ∈ s.finish.projects, ∀ m ∈ project.modules.modules, ∀ d ∈ m.declarations,
      ∀ t ∈ d.types, t.height ≤ settings.maxTypeDepth + 1) ∧
    (∀ ty node t s', s.normalize ty node = .ok (t, s') →
      t.height ≤ settings.maxTypeDepth + 1) ∧
    ∀ state, s.context.Grounded state → state.depth ≤ settings.maxTypeDepth →
      ∀ n ty node expanding trail t state' trail',
        s.context.normalize n ty node expanding state trail = .ok ((t, state'), trail') →
        t.height ≤ settings.maxTypeDepth - state.depth + 1 := by
  rcases types_obey program settings steps ops s (Ty.law_height settings.maxTypeDepth) hops with
    ⟨hstored, hgiven, hasked⟩
  exact ⟨hstored, hgiven, fun state hstate _ => hasked state hstate⟩

end Session

/-- A file with a type alias for lists of itself. -/
def Program.circular : Program where
  symbols := #[
    { info := { name := "a", kind := .sourceFile, declarations := [⟨0⟩] }, exports := [⟨1⟩] },
    { info := { name := "Lists", kind := .typeAlias, declarations := [⟨1⟩] }
      declaredType := some ⟨0⟩ }]
  nodes := #[
    { kind := .sourceFile, file := ⟨"/p/a.ts"⟩ },
    { kind := .typeAlias [] none, file := ⟨"/p/a.ts"⟩ }]
  types := #[{ info := { form := .array ⟨0⟩ } }]
  files := Table.insert ∅ ⟨"/p/a.ts"⟩ ⟨0⟩

/-- With a limit of two, lists of themselves are documented as lists of lists of a text, which is as
    high as the limit allows. -/
theorem Session.types_within_limit_circular :
    ∃ s project m d t, (start .circular { maxTypeDepth := 2 } 9).performAll
        [.addProject { name := "p", root := ⟨"/p"⟩ }, .extract] = .ok s ∧
      project ∈ s.finish.projects ∧ m ∈ project.modules.modules ∧ d ∈ m.declarations ∧
      t ∈ d.types ∧ t.height = 3 ∧ t.height ≤ 2 + 1 := by
  have hrun : ((start .circular { maxTypeDepth := 2 } 9).performAll
      [.addProject { name := "p", root := ⟨"/p"⟩ }, .extract]).toOption.any (fun s =>
        s.finish.projects.any fun project => project.modules.modules.toList.any fun m =>
          m.declarations.any fun d => d.types.any fun t => t.height == 3) = true := by
    decide +kernel
  -- The run finds the type, and the theorem bounds it.
  rcases Outcome.of_any hrun with ⟨s, hs, hany⟩
  simp only [List.any_eq_true, beq_iff_eq, Array.mem_toList_iff] at hany
  rcases hany with ⟨project, hp, m, hm, d, hd, t, ht, hheight⟩
  have hle := (types_within_limit .circular { maxTypeDepth := 2 } 9 _ s hs).1
  exact ⟨s, project, m, d, t, hs, hp, hm, hd, ht, hheight, hle project hp m hm d hd t ht⟩

end DocModel
