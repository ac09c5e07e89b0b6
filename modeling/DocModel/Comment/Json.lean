import DocModel.Comment.Basic
import DocModel.Json.Fields

/-!
# Documentation comments as JSON

## Main definitions

* `DocTag.toJson`, `DocTag.ofJson?`: Writing and reading tags.
* `DocComment.toJson`, `DocComment.ofJson?`: Writing and reading comments.
-/

namespace DocModel

open Json

namespace DocTag

/-- A tag as an object. -/
def toJson (t : DocTag) : Json :=
  object (
    always "name" (string t.name) ++
    present "arg" (t.argument.map string) ++
    present "comment" (t.comment.map string) ++
    present "type" (t.type.map string))

/-- Reads a tag. -/
def ofJson? (j : Json) : Option DocTag := do
  let fs ← j.fields?
  let name ← fs.required? "name" text?
  let argument ← fs.optional? "arg" text?
  let comment ← fs.optional? "comment" text?
  let type ← fs.optional? "type" text?
  return { name, argument, comment, type }

end DocTag

namespace DocComment

/-- A comment as an object. -/
def toJson (d : DocComment) : Json :=
  object (
    nonempty "comment" (d.paragraphs.map string) ++
    nonempty "tags" (d.tags.map DocTag.toJson))

/-- Reads a comment. -/
def ofJson? (j : Json) : Option DocComment := do
  let fs ← j.fields?
  let paragraphs ← fs.default? "comment" [] (listOf? text?)
  let tags ← fs.default? "tags" [] (listOf? DocTag.ofJson?)
  return { paragraphs, tags }

end DocComment

end DocModel
