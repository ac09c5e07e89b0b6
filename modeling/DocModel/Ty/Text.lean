import DocModel.Text.Search
import DocModel.Ty.Basic

/-!
# Texts of types

A type as it would be written in a program. The text of a layer is put together from the texts of
its parts; the only thing that it needs to know about a part besides is whether an array of it takes
parentheses.

## Main definitions

* `Ty.Rendered`: A text, and whether an array of it takes parentheses.
* `Signature.text`, `ObjectLiteral.text`, `MappedType.text`, `TupleElement.text`: Texts of records
  whose types are texts.
* `Ty.text`: The text of a type.
-/

namespace DocModel

open Text

/-- A text behind a mark, where there is one. -/
def markedBy (mark : String) : Option String → String
  | some text => mark ++ text
  | none => ""

/-- A mark where it is called for. -/
def markedIf (condition : Bool) (mark : String) : String := if condition then mark else ""

/-- A type parameter with its bound. -/
def TypeParameter.text (p : TypeParameter String) : String :=
  p.name ++ markedBy " extends " p.constraint

/-- A parameter with its marks and its type. -/
def Parameter.text (p : Parameter String) : String :=
  markedIf p.isRest "..." ++ p.name ++ markedIf p.isOptional "?" ++ markedBy ": " p.ty

/-- A signature; `arrow` stands before its result. -/
def Signature.text (arrow : String) (s : Signature String) : String :=
  let typeParameters := joinWith ", " (s.typeParameters.map (·.text))
  markedIf (!s.typeParameters.isEmpty) ("<" ++ typeParameters ++ ">") ++
    "(" ++ joinWith ", " (s.parameters.map (·.text)) ++ ")" ++ arrow ++ s.returnType

/-- A property with its marks and its type. -/
def Property.text (p : Property String) : String :=
  markedIf p.isReadonly "readonly " ++ p.name ++ markedIf p.isOptional "?" ++ markedBy ": " p.ty

/-- The overloads of a method. -/
def Method.texts (m : Method String) : List String :=
  m.signatures.map fun s => m.name ++ s.text ": "

/-- An index signature. -/
def IndexSignature.text (i : IndexSignature String) : String :=
  "[key: " ++ i.key ++ "]: " ++ i.ty

/-- The members of an object type between braces. -/
def ObjectLiteral.text (o : ObjectLiteral String) : String :=
  let members :=
    o.properties.map (·.text) ++ o.methods.flatMap (·.texts) ++ o.indexSignatures.map (·.text) ++
      o.callSignatures.map (·.text ": ") ++ o.constructSignatures.map ("new " ++ ·.text ": ")
  if o.isEmpty then "\x7b\x7d" else "\x7b " ++ joinWith "; " members ++ " \x7d"

/-- An element of a tuple. -/
def TupleElement.text (e : TupleElement String) : String :=
  markedIf e.spread "..." ++
    match e.name with
    | some name => name ++ markedIf e.optional "?" ++ ": " ++ e.ty
    | none => e.ty ++ markedIf e.optional "?"

/-- A mapped type. -/
def MappedType.text (m : MappedType String) : String :=
  "\x7b " ++ markedBy "" (m.readonly.map (·.sign ++ "readonly ")) ++
    "[" ++ m.typeParameter ++ " in " ++ m.constraint.getD "unknown" ++
    markedBy " as " m.nameType ++ "]" ++ markedBy "" (m.optional.map (·.sign ++ "?")) ++
    ": " ++ m.ty.getD "unknown" ++ " \x7d"

/-- A hole of a template and the text behind it. -/
def TemplateSpan.written (s : TemplateSpan String) : String := "$\x7b" ++ s.ty ++ "\x7d" ++ s.text

namespace Ty

/-- The text of a part. -/
structure Rendered where
  /-- The text itself. -/
  text : String
  /-- Whether an array of it takes parentheses. -/
  isLoose : Bool

/-- Whether an array of a type with this layer takes parentheses. -/
def Shape.isLoose {τ : Type} : Shape τ → Bool
  | union _ | intersection _ | function _ => true
  | _ => false

/-- The text of a layer whose parts are texts. -/
def Shape.text : Shape String → String
  | reference target arguments isInfer =>
    markedIf isInfer "infer " ++ target.text ++
      markedIf (!arguments.isEmpty) ("<" ++ joinWith ", " arguments ++ ">")
  | primitive kind literal => literal.getD kind.keyword
  | union members => joinWith " | " members
  | intersection members => joinWith " & " members
  | tuple elements => "[" ++ joinWith ", " (elements.map (·.text)) ++ "]"
  | array element => element ++ "[]"
  | object body => body.text
  | function signature => signature.text " => "
  | mapped body => body.text
  | conditional check bound whenTrue whenFalse =>
    check ++ " extends " ++ bound ++ " ? " ++ whenTrue ++ " : " ++ whenFalse
  | indexAccess container index => container ++ "[" ++ index ++ "]"
  | operator op target => op.keyword ++ " " ++ target
  | template head spans => "`" ++ head ++ String.join (spans.map (·.written)) ++ "`"
  | verbatim text => text

/-- The text of a layer whose parts have been rendered. -/
def Shape.render (s : Shape Rendered) : Rendered :=
  { text :=
      match s with
      | array element =>
        if element.isLoose then "(" ++ element.text ++ ")[]" else element.text ++ "[]"
      | s => (s.map (·.text)).text
    isLoose := s.isLoose }

/-- The text of a type. -/
def text (t : Ty) : String := (t.fold Shape.render).text

end Ty

end DocModel
