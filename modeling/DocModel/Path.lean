/-!
# File paths

A path is kept as it was written, and compared by its components: repeated slashes, a slash at the
end and `.` segments other than a leading one name nothing, while `..` is a component of its own and
is never resolved. Two spellings with the same components are the same place, and a prefix is a
prefix of components, not of characters.

Cutting a path gives back a piece of its text. The text is taken apart into a lead (the root, a
leading `.`, or nothing) and the segments between slashes; segments that name nothing are *idle*.

## Main definitions

* `Path`, `Path.Component`: A path as written, and its components.
* `Path.same`, `Path.startsWith`: Equality and prefix by components.
* `Path.parent?`, `Path.fileName?`, `Path.fileStem?`: The usual parts.
* `Path.relativeTo?`: What is left below a base.
* `Path.join`, `Path.withFileName`: Putting paths together.
* `Path.names`: The plain names among the components.

## Theorems

* `Path.joinSegments_segments`: Cutting a text at its slashes loses nothing.
-/

namespace DocModel

/-- A path, as it was written. -/
structure Path where
  /-- The written form. -/
  text : String
deriving DecidableEq, Inhabited

namespace Path

/-- One step of a path. -/
inductive Component where
  /-- The leading slash of an absolute path. -/
  | root
  /-- A leading `.`. -/
  | here
  /-- A `..` segment. -/
  | up
  /-- A plain name. -/
  | name (text : String)
deriving DecidableEq

namespace Component

/-- The place of the sort of a component in the order of paths. -/
def rank : Component → Nat
  | root => 0
  | here => 1
  | up => 2
  | name _ => 3

/-- The plain name of a component, empty for the others. -/
def label : Component → String
  | name text => text
  | _ => ""

instance : Ord Component := ⟨compareLex (compareOn rank) (compareOn label)⟩

instance : Std.TransOrd Component :=
  inferInstanceAs (Std.TransCmp (compareLex (compareOn rank) (compareOn label)))

end Component

/-- What a path starts with. -/
inductive Lead where
  /-- A slash: the path is absolute. -/
  | root
  /-- A `.` segment. -/
  | here
  /-- Nothing of its own. -/
  | bare
deriving DecidableEq

/-- The segments between slashes, empty ones included. -/
def segments : List Char → List (List Char)
  | [] => [[]]
  | c :: cs =>
    if c = '/' then [] :: segments cs
    else
      match segments cs with
      | [] => [[c]]
      | s :: ss => (c :: s) :: ss

/-- The text with the given segments between slashes. -/
def joinSegments : List (List Char) → List Char
  | [] => []
  | [s] => s
  | s :: t :: rest => s ++ '/' :: joinSegments (t :: rest)

theorem segments_ne_nil (cs : List Char) : segments cs ≠ [] := by
  cases cs with
  | nil => simp [segments]
  | cons c cs =>
    simp only [segments]
    split
    · simp
    · split <;> simp

@[simp]
theorem joinSegments_segments (cs : List Char) : joinSegments (segments cs) = cs := by
  induction cs with
  | nil => rfl
  | cons c cs ih =>
    simp only [segments]
    obtain ⟨s, ss, h⟩ := List.exists_cons_of_ne_nil (segments_ne_nil cs)
    rw [h] at ih ⊢
    split
    · simp_all [joinSegments]
    · cases ss <;> simp_all [joinSegments]

/-- Whether a segment names nothing. -/
def isIdle (segment : List Char) : Bool := segment.isEmpty || segment == ['.']

/-- The component that a segment stands for. -/
def component? (segment : List Char) : Option Component :=
  if isIdle segment then none
  else if segment == ['.', '.'] then some .up
  else some (.name (String.ofList segment))

/-- Drops the idle segments at the end. -/
def dropIdleEnd (ss : List (List Char)) : List (List Char) :=
  (ss.reverse.dropWhile isIdle).reverse

/-- Takes a text apart into its lead and the segments after it. -/
def takeApart (cs : List Char) : Lead × List (List Char) :=
  match cs with
  | '/' :: rest => (.root, segments rest)
  | _ =>
    match segments cs with
    | ['.'] :: rest => (.here, rest)
    | ss => (.bare, ss)

/-- The text with a lead and the segments after it. -/
def putTogether : Lead → List (List Char) → Path
  | .root, ss => ⟨String.ofList ('/' :: joinSegments ss)⟩
  | .here, ss => ⟨String.ofList (joinSegments (['.'] :: ss))⟩
  | .bare, ss => ⟨String.ofList (joinSegments ss)⟩

/-- The component of a lead. -/
def Lead.components : Lead → List Component
  | .root => [.root]
  | .here => [.here]
  | .bare => []

/-- The components of a path, from the left. -/
def components (p : Path) : List Component :=
  let (lead, ss) := takeApart p.text.toList
  lead.components ++ ss.filterMap component?

instance : Ord Path := ⟨compareOn components⟩

instance : Std.TransOrd Path := inferInstanceAs (Std.TransCmp (compareOn components))

/-- Whether two paths have the same components. -/
def same (p q : Path) : Bool := p.components == q.components

/-- Whether the components of `base` come first in `p`. -/
def startsWith (p base : Path) : Bool := base.components.isPrefixOf p.components

/-- The plain names among the components. -/
def names (p : Path) : List String :=
  p.components.filterMap fun
    | .name text => some text
    | _ => none

/-- Whether a plain name is among the components. -/
def hasName (p : Path) (name : String) : Bool := p.components.contains (.name name)

/-- The last component, where it is a plain name. -/
def fileName? (p : Path) : Option String :=
  match p.components.getLast? with
  | some (.name text) => some text
  | _ => none

/-- The file name up to its last dot. A dot at the very start does not count. -/
def fileStem? (p : Path) : Option String :=
  p.fileName?.map fun name =>
    let cs := name.toList.reverse
    let ext := cs.takeWhile (· != '.')
    match cs.drop ext.length with
    | '.' :: stem => if stem.isEmpty then name else String.ofList stem.reverse
    | _ => name

/-- The path without its last component; a path that is empty or the root has none. -/
def parent? (p : Path) : Option Path :=
  let (lead, ss) := takeApart p.text.toList
  match dropIdleEnd ss with
  | [] => if lead = .here then some ⟨""⟩ else none
  | named => some (putTogether lead (dropIdleEnd named.dropLast))

/-- Drops segments up to and with the first `n` that name something. -/
def dropNamed : Nat → List (List Char) → List (List Char)
  | 0, ss => ss
  | _ + 1, [] => []
  | n + 1, s :: ss => if isIdle s then dropNamed (n + 1) ss else dropNamed n ss

/-- What is left of `p` below `base`, as written, without idle segments at the ends. -/
def relativeTo? (p base : Path) : Option Path :=
  if p.startsWith base then
    let (lead, ss) := takeApart p.text.toList
    match base.components.length with
    | 0 => some (putTogether lead (dropIdleEnd ss))
    | n + 1 =>
      let below := dropNamed (if lead = .bare then n + 1 else n) ss
      some (putTogether .bare (dropIdleEnd (below.dropWhile isIdle)))
  else none

/-- Whether the path starts at the root. -/
def isAbsolute (p : Path) : Bool := p.text.toList.head? == some '/'

/-- `p` followed by `q`; an absolute `q` takes the place of `p`. -/
def join (p q : Path) : Path :=
  if q.isAbsolute then q
  else
    match p.text.toList.getLast? with
    | none => q
    | some '/' => ⟨p.text ++ q.text⟩
    | some _ => ⟨p.text ++ "/" ++ q.text⟩

/-- The path with its last plain name replaced, or with `name` put behind it if it ends otherwise.
-/
def withFileName (p : Path) (name : String) : Path :=
  match p.fileName? with
  | some _ => (p.parent?.getD p).join ⟨name⟩
  | none => p.join ⟨name⟩

/-- The path without any `./` at its start. -/
def dropHere (p : Path) : Path :=
  let rec drop : List Char → List Char
    | '.' :: '/' :: cs => drop cs
    | cs => cs
  ⟨String.ofList (drop p.text.toList)⟩

end Path

end DocModel
