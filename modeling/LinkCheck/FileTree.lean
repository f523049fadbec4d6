import LinkCheck.Archive.Reader
import LinkCheck.FileTree.Place
import LinkCheck.ReadError
import LinkCheck.Sorting
import LinkCheck.Table

/-!
# File trees

Plugins and classpath entries are read from a tree of files. A file has a number of its own, so that
one that is held open can be told from another that is written to the same path later: it keeps its
bytes when its path is deleted, and has new ones when its path is written to.

## Main definitions

- `Node`, `FileTree` — files and directories by the names along their paths, and bytes of files
- `FileTree.resolve`, `FileTree.node` — the place that a path leads to, and what is there
- `FileTree.read` — the bytes of a file
- `FileTree.list`, `FileTree.filesBelow` — the entries of a directory, and all files below it
- `FileTree.add`, `FileTree.delete` — changes
- `FileTree.ofEntries` — the tree of some entries

## Design notes

A path can only be followed through what is there. Where something is written, every directory along
the path is made, also one that the path leaves again.
-/

namespace LinkCheck

/-- A directory, or a file with a number. -/
inductive Node where
  | directory
  | file (number : Nat)
deriving DecidableEq, Inhabited, Repr

namespace Node

/-- Whether a node is a directory. -/
def isDirectory : Node → Bool
  | directory => true
  | file _ => false

/-- Whether a node is a file. -/
def isFile (node : Node) : Bool :=
  !node.isDirectory

end Node

/-- Files and directories by the names that lead to them. The root directory has no names and is
always there. -/
structure FileTree where
  nodes : Table (List String) Node := {}
  /-- The bytes of each file by its number, also of files that no path leads to any more. -/
  contents : List (List UInt8) := []
  /-- How archives among the files are read. -/
  reader : ArchiveReader := .zip
deriving Inhabited

namespace FileTree

/-- What stands at a place. There is always something outside of the tree. -/
def nodeAt? (tree : FileTree) (place : Place) : Option Node :=
  match place.entry? with
  | none => some .directory
  | some names => tree.nodes.get? names

/-- The most bytes that a name may have. -/
def nameLimit : Nat := 255

/-- The most bytes that a path may have. -/
def pathLimit : Nat := 4095

/-- Goes one segment further from a place. Only directories can be gone through. -/
def step (tree : FileTree) (place : Place) (segment : String) : Except StorageFault Place :=
  match tree.nodeAt? place with
  | none => .error .noSuchFile
  | some (.file _) => .error .notADirectory
  | some .directory =>
    if nameLimit < segment.utf8ByteSize then .error .nameTooLong
    else
      match (place.go? segment).filter fun next => (tree.nodeAt? next).isSome with
      | some next => .ok next
      | none => .error .noSuchFile

/-- The place that a path leads to. What no path can be is refused before any directory is looked
at. -/
def resolve (tree : FileTree) (path : String) : Except StorageFault Place :=
  if '\x00' ∈ path.toList then .error .nulInPath
  else if pathLimit < path.utf8ByteSize then .error .nameTooLong
  else if path.isEmpty then .error .noSuchFile
  else (Path.segments path).foldlM tree.step (.start path)

/-- What a path leads to. -/
def node (tree : FileTree) (path : String) : Except StorageFault Node := do
  let place ← tree.resolve path
  match tree.nodeAt? place with
  | some node => return node
  | none => throw .noSuchFile

/-- Whether a path leads to a directory. -/
def isDirectory (tree : FileTree) (path : String) : Bool :=
  match tree.node path with
  | .ok node => node.isDirectory
  | .error _ => false

/-- Whether a path leads to a file. -/
def isFile (tree : FileTree) (path : String) : Bool :=
  match tree.node path with
  | .ok node => node.isFile
  | .error _ => false

/-- The bytes of the file with a number. -/
def bytes (tree : FileTree) (number : Nat) : List UInt8 :=
  (tree.contents[number]?).getD []

/-- The bytes of the file that a path leads to. -/
def read (tree : FileTree) (path : String) : Except StorageFault (List UInt8) := do
  match ← tree.node path with
  | .directory => throw .isADirectory
  | .file number => return tree.bytes number

/-- The place of a directory that a path leads to. -/
def directoryAt (tree : FileTree) (path : String) : Except StorageFault Place := do
  let place ← tree.resolve path
  match tree.nodeAt? place with
  | some .directory => return place
  | some (.file _) => throw .notADirectory
  | none => throw .noSuchFile

/-- The entries of the directory that a path leads to, sorted by name. All that is known outside of the
tree is that there is a directory. -/
def list (tree : FileTree) (path : String) : Except StorageFault (List (String × Node)) := do
  match ← tree.directoryAt path with
  | .outside => return [("", .directory)]
  | .inside place =>
    let entries := tree.nodes.entries.filterMap fun (names, node) =>
      match place.isPrefixOf? names with
      | some [name] => some (name, node)
      | _ => none
    return sortBy (fun first second => decide (first.1 ≤ second.1)) entries

/-- The files below the directory that a path leads to, by the names that lead to them from there.
They are sorted by these names, so that each directory is gone through at its own place. A directory
whose own path gets too long cannot be gone through. -/
def filesBelow (tree : FileTree) (path : String) :
    Except StorageFault (List (List String)) := do
  match ← tree.directoryAt path with
  | .outside => return []
  | .inside place =>
    let files := tree.nodes.entries.filterMap fun (names, node) =>
      if node.isFile then place.isPrefixOf? names else none
    let reached := files.filter fun names =>
      (names.dropLast.foldl Path.join path).utf8ByteSize ≤ pathLimit
    return sortBy (fun first second => (compare first second).isLE) reached

/-- Makes sure that there is a directory at each of the given places. -/
def makeDirectories (tree : FileTree) (places : List Place) : FileTree :=
  { tree with
    nodes := (places.filterMap Place.entry?).foldl
      (fun nodes names => nodes.insertNew names .directory) tree.nodes }

/-- Makes a directory and those above it. -/
def makeDirectory (tree : FileTree) (path : String) : FileTree :=
  tree.makeDirectories ((Place.along? path).getD [])

/-- Writes a file, and makes the directories above it. A file that is already there stays the same
file. -/
def write (tree : FileTree) (path : String) (bytes : List UInt8) : FileTree :=
  let places := (Place.along? path).getD []
  let made := tree.makeDirectories places.dropLast
  match places.getLast?.bind Place.entry? with
  | none => made
  | some names =>
    match made.nodes.get? names with
    | some (.file number) => { made with contents := made.contents.set number bytes }
    | _ =>
      { made with
        nodes := made.nodes.insert names (.file made.contents.length)
        contents := made.contents ++ [bytes] }

/-- Adds an entry: a directory if its path ends with a slash, and else a file. -/
def add (tree : FileTree) (path : String) (bytes : List UInt8) : FileTree :=
  if path.toList.getLast? = some '/' then tree.makeDirectory path else tree.write path bytes

/-- Deletes a file, or a directory with everything below it. -/
def delete (tree : FileTree) (path : String) : FileTree :=
  match ((Place.along? path).getD []).getLast? with
  | some (.inside place) =>
    { tree with nodes := tree.nodes.filterKeys fun names => !place.isPrefixOf names }
  | _ => tree

/-- The tree of some entries. -/
def ofEntries (entries : List (String × List UInt8)) : FileTree :=
  entries.foldl (fun tree (path, bytes) => tree.add path bytes) {}

end FileTree

end LinkCheck
