/-!
# Documentation comments

A documentation comment is free text in paragraphs, followed by tags in the order they were written.
A tag may carry the type it speaks of, the name it speaks of and a text.

## Main definitions

* `DocTag`, `DocComment`: A tag and a whole comment.
* `DocComment.tag?`, `DocComment.parameter?`: Looking a tag up.
-/

namespace DocModel

/-- One tag of a documentation comment. -/
structure DocTag where
  /-- The word after the at sign. -/
  name : String
  /-- The name that the tag documents. -/
  argument : Option String := none
  /-- The text of the tag. -/
  comment : Option String := none
  /-- The type between braces. -/
  type : Option String := none
deriving DecidableEq, Inhabited

/-- A documentation comment taken apart. -/
structure DocComment where
  /-- The paragraphs before the first tag. -/
  paragraphs : List String := []
  /-- The tags, in the order of the source. -/
  tags : List DocTag := []
deriving DecidableEq, Inhabited

namespace DocComment

/-- The first tag with the given name. -/
def tag? (d : DocComment) (name : String) : Option DocTag := d.tags.find? (·.name == name)

/-- Whether the comment marks its declaration as deprecated. -/
def isDeprecated (d : DocComment) : Bool := (d.tag? "deprecated").isSome

/-- The names of the tags that document a parameter. -/
def parameterTags : List String := ["param", "arg", "argument"]

/-- The first tag that documents the given parameter. -/
def parameter? (d : DocComment) (parameter : String) : Option DocTag :=
  d.tags.find? fun t => parameterTags.contains t.name && t.argument == some parameter

/-- Whether the comment has neither text nor tags. -/
def isEmpty (d : DocComment) : Bool := d.paragraphs.isEmpty && d.tags.isEmpty

end DocComment

end DocModel
