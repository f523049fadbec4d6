import LinkCheck.FileTree.Path

/-!
# Places in a file tree

A path leads from place to place, one segment at a time. It may lead out of the tree, where nothing has
a name that is known.

## Main definitions

- `Place` — a place in the tree, or outside of it
- `Place.go?` — the place one segment further
- `Place.along?` — the places along a path
-/

namespace LinkCheck

/-- A place in a file tree, by the names that lead there from its root, or outside of the tree. -/
inductive Place where
  | inside (names : List String)
  | outside
deriving DecidableEq, Inhabited, Repr

namespace Place

/-- Where a path starts: at the root of the tree, or at the root of the file system if it is
absolute. -/
def start (path : String) : Place :=
  if Path.isAbsolute path then outside else inside []

/-- The place above. What is above the root of the tree is outside of it. -/
def up : Place → Place
  | inside [] | outside => outside
  | inside names => inside names.dropLast

/-- The place of an entry with a name. -/
def down? (name : String) : Place → Option Place
  | inside names => some (inside (names ++ [name]))
  | outside => none

/-- The place one segment further: the same place, the one above, or an entry. -/
def go? (place : Place) (segment : String) : Option Place :=
  if segment = ".." then some place.up
  else if Path.isStep segment then place.down? segment
  else some place

/-- The places that segments lead to, one after the other. -/
def steps? : Place → List String → Option (List Place)
  | _, [] => some []
  | place, segment :: segments => do
    let next ← place.go? segment
    let others ← next.steps? segments
    return next :: others

/-- The places along a path, whether or not there is anything. -/
def along? (path : String) : Option (List Place) :=
  (start path).steps? (Path.segments path)

/-- The names that lead to a place in the tree other than the root. -/
def entry? : Place → Option (List String)
  | inside [] | outside => none
  | inside names => some names

end Place

end LinkCheck
