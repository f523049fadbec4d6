/-!
# Paths

A path is a text with slashes between its segments.

## Main definitions

- `Path.segments` — what stands between the slashes
- `Path.join` — a path below another
- `Path.fileName?`, `Path.fileStem?`, `Path.extension?` — parts of the last name
-/

namespace LinkCheck.Path

/-- Splits characters at every slash. -/
def splitSlashes : List Char → List (List Char)
  | [] => [[]]
  | c :: rest =>
    if c = '/' then [] :: splitSlashes rest
    else
      match splitSlashes rest with
      | [] => [[c]]
      | segment :: segments => (c :: segment) :: segments

/-- What stands between the slashes of a path. Two slashes in a row have an empty segment between
them. -/
def segments (path : String) : List String :=
  (splitSlashes path.toList).map String.ofList

/-- Whether a path starts at the root of the file system. -/
def isAbsolute (path : String) : Bool :=
  path.toList.head? = some '/'

/-- Whether a segment leads to another place than the one before it. -/
def isStep (segment : String) : Bool :=
  segment ≠ "" && segment ≠ "."

/-- The names along a path, without the segments that stay in place. -/
def names (path : String) : List String :=
  (segments path).filter isStep

/-- The path of `name` below `base`. An absolute name stands for itself. -/
def join (base name : String) : String :=
  if isAbsolute name || base.isEmpty then name
  else if base.toList.getLast? = some '/' then base ++ name
  else base ++ "/" ++ name

/-- The last name along a path, unless that leads upwards. -/
def fileName? (path : String) : Option String :=
  (names path).getLast?.filter (· ≠ "..")

/-- A file name before and after its last dot. A dot in front of all else does not count. -/
def splitName (name : String) : String × Option String :=
  let reversed := name.toList.reverse
  let front := (reversed.dropWhile (· ≠ '.')).drop 1
  if front.isEmpty then (name, none)
  else
    (String.ofList front.reverse, some (String.ofList (reversed.takeWhile (· ≠ '.')).reverse))

/-- The last name along a path without its extension. -/
def fileStem? (path : String) : Option String :=
  (fileName? path).map fun name => (splitName name).1

/-- What follows the last dot of the last name along a path. -/
def extension? (path : String) : Option String :=
  (fileName? path).bind fun name => (splitName name).2

/-- Whether a path has an extension, written in capital or small letters. -/
def hasExtension (path extension : String) : Bool :=
  (extension? path).any fun found => found.toLower = extension

end LinkCheck.Path
