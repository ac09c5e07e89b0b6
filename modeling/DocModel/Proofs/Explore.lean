import DocModel.Proofs.Keeps
import DocModel.Session.Exports

/-!
# What extracting files keeps

Extracting a file asks for references, makes modules on the way, and in the end puts the exports of
the file into its module. Nothing else is done to the state, so a guard that is kept by these three
is kept by the extraction of any number of files.

## Main definitions

* `Context.Tracks`: A guard that finding the exports of a file cannot break.
* `Context.Explores`: A guard that extracting files cannot break.

## Theorems

* `Context.Tracks.trackExports`: The exports of a file.
* `Context.Explores.extractFile`, `Context.Explores.extract`: Extracting files.
-/

namespace DocModel

namespace Context

/-- A guard that is kept by asking for references and by making modules. -/
structure Tracks (ctx : Context) (K : Guard) : Prop where
  referenceOf : ∀ x, Keeps K (ctx.referenceOf x) fun _ => True
  resolveModule? : ∀ file, Keeps K (Action.resolveModule? file) fun _ => True

/-- A guard that is also kept by putting exports into modules. -/
structure Explores (ctx : Context) (K : Guard) : Prop extends ctx.Tracks K where
  exports : ∀ s t (owner : ModuleHandle) relative exports, K.holds s t →
    K.holds (s.updateTree owner.project (·.update owner.module fun m =>
      { m with exports := m.exports.insert relative exports })) t

namespace Tracks

variable {ctx : Context} {K : Guard} (h : ctx.Tracks K)

include h

/-- Finding the group of a file makes the module of the file at most. -/
theorem changeGroup? (owner : ModuleHandle) (exports : FileExports) (target : Path)
    (spaceName : Option String) (change : ReExport → ReExport) :
    Keeps K (ctx.changeGroup? owner exports target spaceName change) fun _ => True := by
  unfold Context.changeGroup?
  refine Keeps.get fun s₁ _ => ?_
  split
  · exact Keeps.pure trivial
  · refine (h.resolveModule? target).andThen fun o => ?_
    cases o with
    | none => exact Keeps.pure trivial
    | some handle =>
        refine Keeps.get fun s₂ _ => ?_
        split
        · exact Keeps.pure trivial
        · exact Keeps.pure trivial

theorem addDirect (exports : FileExports) (x : SymbolId) (name : String) :
    Keeps K (ctx.addDirect exports x name) fun _ => True := by
  refine (h.referenceOf x).andThen fun o => ?_
  cases o with
  | none => exact Keeps.pure trivial
  | some ref => exact Keeps.pure trivial

theorem addWildcard (owner : ModuleHandle) (exports : FileExports) (target : Path)
    (spaceName : Option String) :
    Keeps K (ctx.addWildcard owner exports target spaceName) fun _ => True :=
  (h.changeGroup? owner exports target spaceName _).andThen fun _ => Keeps.pure trivial

theorem addPassedOn? (owner : ModuleHandle) (exports : FileExports) (target : SymbolId)
    (file : Path) (name : String) :
    Keeps K (ctx.addPassedOn? owner exports target file name) fun _ => True := by
  refine (h.referenceOf target).andThen fun o => ?_
  cases o with
  | none => exact Keeps.pure trivial
  | some ref => exact h.changeGroup? owner exports file none _

/-- A name for something else is one of these three. -/
theorem addAlias (owner : ModuleHandle) (file : Path) (exports : FileExports) (x : SymbolId)
    (name : String) : Keeps K (ctx.addAlias owner file exports x name) fun _ => True := by
  -- Three of the ways end with the name itself.
  have hdirect := h.addDirect exports x name
  unfold Context.addAlias
  dsimp only
  split
  · exact h.addWildcard owner exports _ _
  · refine Keeps.get fun s₁ _ => ?_
    split
    · refine (h.addPassedOn? owner exports _ _ name).andThen fun o => ?_
      cases o with
      | none => exact hdirect
      | some changed => exact Keeps.pure trivial
    · exact hdirect
  · exact hdirect

theorem addExport (owner : ModuleHandle) (file : Path) (exports : FileExports) (x : SymbolId) :
    Keeps K (ctx.addExport owner file exports x) fun _ => True := by
  unfold Context.addExport
  split
  · exact Keeps.pure trivial
  · split
    · exact h.addAlias owner file exports x _
    · exact h.addDirect exports x _

/-- All exports of a file: whole files first, then one symbol after another. -/
theorem trackExports (owner : ModuleHandle) (file : Path) :
    Keeps K (ctx.trackExports owner file) fun _ => True := by
  unfold Context.trackExports
  split
  · exact Keeps.pure trivial
  · refine Keeps.andThen (Keeps.foldlM_true _ _ fun exports w _ => ?_) fun exports => ?_
    · split
      · exact Keeps.pure trivial
      · exact h.addWildcard owner exports _ _
    · exact Keeps.foldlM_true _ _ fun exports x _ => h.addExport owner file exports x

end Tracks

/-- What is kept by extracting one file is kept by extracting all. -/
theorem keeps_extract {ctx : Context} {K : Guard}
    (h : ∀ file, Keeps K (ctx.extractFile file) fun _ => True) :
    Keeps K ctx.extract fun _ => True := by
  unfold Context.extract
  refine Keeps.forM _ fun file _ => Keeps.get fun s₁ _ => ?_
  split
  · exact Keeps.pure trivial
  · exact h file

namespace Explores

variable {ctx : Context} {K : Guard} (h : ctx.Explores K)

include h

/-- The exports of a file are put into its module, if it has both. -/
theorem extractFile (file : Path) : Keeps K (ctx.extractFile file) fun _ => True := by
  refine (h.resolveModule? file).andThen fun o => ?_
  cases o with
  | none => exact Keeps.pure trivial
  | some owner =>
      refine (h.trackExports owner file).andThen fun exports => ?_
      split
      · exact Keeps.pure trivial
      · refine Keeps.get fun s _ => ?_
        split
        · exact Keeps.pure trivial
        · exact Keeps.update fun s t hs => h.exports s t owner _ exports hs

theorem extract : Keeps K ctx.extract fun _ => True := keeps_extract h.extractFile

end Explores

end Context

end DocModel
