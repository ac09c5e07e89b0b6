import DocModel.External.Link

/-!
# Settings

What can be set for an extraction.

## Main definitions

* `Settings`: The settings, with what holds where nothing is set.
* `Settings.isExcluded`: Whether a path is left out.
* `Settings.resolvers`: The resolvers that the settings ask for.
-/

namespace DocModel

/-- What can be set for an extraction. -/
structure Settings where
  /-- Names of directories that have no module of their own. -/
  passthroughModules : List String := ["src", "lib"]
  /-- How many characters of a constant's value are kept. -/
  maxConstantTextLength : Nat := 96
  /-- The nesting depth from which on types are only given as texts. -/
  maxTypeDepth : Nat := 64
  /-- Stretches of text that mark a path as not part of the sources. -/
  exclude : List String := ["node_modules", ".git"]
  /-- Whether the library of the language is linked to its reference pages. -/
  builtinLinks : Bool := true
  /-- How the documentation of packages is linked. -/
  externals : List LinkTemplate := []
deriving DecidableEq, Inhabited

namespace Settings

/-- Whether a path is left out. -/
def isExcluded (s : Settings) (p : Path) : Bool := s.exclude.any (Text.contains p.text)

/-- The resolvers that the settings ask for: the templates in order, then the reference pages. -/
def resolvers (s : Settings) : List Resolver :=
  s.externals.map (·.resolver) ++ if s.builtinLinks then [builtinResolver] else []

end Settings

end DocModel
