import DocModel.Number.Layout
import DocModel.Program.Query
import DocModel.Text.Escaped
import DocModel.Text.Search

/-!
# Texts of a program's types

A checker may leave the text of a type behind. Where it did not, a text is put together from the
form of the type, a few levels deep; what lies deeper is left out.

## Main definitions

* `Program.typeText`: The text of a type.
-/

namespace DocModel.Program

open Text

/-- The text of a type by its form, given the texts of the types in it. -/
def formText (p : Program) (part : TypeId → String) (info : TypeInfo) : String :=
  match info.form with
  | .intrinsic kind => kind.keyword
  | .stringLiteral value => escape value
  | .numberLiteral value => value.plain
  | .bigintLiteral digits => digits ++ "n"
  | .union members => joinWith " | " (members.map part)
  | .intersection members => joinWith " & " (members.map part)
  | .array element => part element ++ "[]"
  | .tuple members => "[" ++ joinWith ", " (members.map (part ·.ty)) ++ "]"
  | .keyOf target => "keyof " ++ part target
  | _ => ((info.symbol.bind p.symbol?).map (·.name)).getD "unknown"

/-- The text of a type, with `n` levels of types in it. -/
def typeTextTo (p : Program) (n : Nat) (ty : TypeId) : String :=
  match p.typeRecord? ty with
  | none => "unknown"
  | some r =>
    match r.text with
    | some text => text
    | none =>
      match n with
      | 0 => "..."
      | n + 1 => p.formText (p.typeTextTo n) r.info

/-- How many levels of a type are put into its text. -/
def textLevels : Nat := 9

/-- The text of a type. -/
def typeText (p : Program) (ty : TypeId) : String := p.typeTextTo textLevels ty

end DocModel.Program
