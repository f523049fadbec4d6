import LinkCheck.ClassDefinition.OfClassFile
import LinkCheck.FileTree.OpenedArchive
import LinkCheck.RecencyCache
import LinkCheck.Table

/-!
# Sources of classes

Classes come from archives and directories, and sources are laid over each other into larger ones.
What a source remembers between two lookups is kept apart from it, on a shelf, under the number that
the source got when it was made. So a source can be part of several others and still remembers once.

## Main definitions

- `define` — the class that some bytes hold under a name
- `ReadArchive`, `IndexedArchive` — archives read at once, and archives read on demand
- `ClassSource` — archives, directories, and what is made of them
- `Shelf`, `Shelved` — the files and all that sources remember, and computations with it

## Design notes

A union keeps, with each child, the names that this child answers for: those it had when the union was
made, apart from those of earlier children.
-/

namespace LinkCheck

/-- A class that was read, or why it could not be. -/
abbrev ReadResult := Except ReadError ClassDefinition

/-- The answer to a lookup: nothing, a class, or a class that cannot be read. -/
abbrev FindResult := Except ReadError (Option ClassDefinition)

/-- The class that some bytes hold, if it is the one with this name. -/
def define (name : ClassName) (bytes : List UInt8) : ReadResult := do
  let definition ← ClassDefinition.parse bytes
  if definition.name = name then return definition
  else throw (.nameMismatch name definition.name)

/-- Whether an entry with this path describes a plugin. -/
def isPluginDescriptor (path : String) : Bool :=
  path.toList.dropWhile (· = '/') = "META-INF/plugin.xml".toList

/-- An archive all of whose classes have been read. -/
structure ReadArchive where
  moniker : String
  classes : Table ClassName ReadResult
  hasDescriptor : Bool

/-- An archive whose classes are read on demand. -/
structure IndexedArchive where
  path : String
  /-- The path of the entry that holds each class. -/
  entries : Table ClassName String
  hasDescriptor : Bool
  /-- How many read classes are kept. -/
  capacity : Nat

/-- A directory of class files, with one directory for each package. -/
structure ClassDirectory where
  root : String
  /-- How many read classes are kept. -/
  capacity : Nat

/-- A source of classes. Its number tells it apart from all others. -/
inductive ClassSource where
  | empty (id : Nat)
  | read (id : Nat) (archive : ReadArchive)
  | indexed (id : Nat) (archive : IndexedArchive)
  | directory (id : Nat) (classFiles : ClassDirectory)
  /-- Sources one behind the other, each with the names it answers for. -/
  | union (id : Nat) (moniker : String) (children : List (List ClassName × ClassSource))
  /-- A source whose answers are remembered. -/
  | caching (id : Nat) (inner : ClassSource)

namespace ClassSource

/-- The number of a source. -/
def id : ClassSource → Nat
  | empty id | read id _ | indexed id _ | directory id _ | union id _ _ | caching id _ => id

/-- Whether two sources are one and the same. -/
def same (first second : ClassSource) : Bool :=
  first.id = second.id

/-- What a source is called in messages. -/
def moniker : ClassSource → String
  | empty _ => "<empty>"
  | read _ archive => archive.moniker
  | indexed _ archive => archive.path
  | directory _ classFiles => classFiles.root
  | union _ moniker _ => moniker
  | caching _ inner => inner.moniker

end ClassSource

/-- What an archive that is read on demand remembers. -/
structure ArchiveState where
  /-- The archive, from when it was opened until it is closed. -/
  opened : Option OpenedArchive := none
  cache : RecencyCache ClassName ReadResult

/-- What a directory remembers. -/
structure DirectoryState where
  /-- The classes in the directories that have been listed, by package. -/
  listings : Table String (List String) := {}
  /-- All names, once the directory has been gone through. -/
  names : Option (List ClassName) := none
  cache : RecencyCache ClassName ReadResult

/-- The files, and all that sources remember. -/
structure Shelf where
  files : FileTree := {}
  /-- The number of the next source. -/
  nextId : Nat := 0
  archives : Table Nat ArchiveState := {}
  directories : Table Nat DirectoryState := {}
  memos : Table Nat (Table ClassName FindResult) := {}

/-- Computations with a shelf. -/
abbrev Shelved := StateM Shelf

namespace Shelf

/-- What the archive with a number remembers. -/
def archiveState (shelf : Shelf) (id : Nat) (archive : IndexedArchive) : ArchiveState :=
  (shelf.archives.get? id).getD { cache := .ofCapacity archive.capacity }

/-- What the directory with a number remembers. -/
def directoryState (shelf : Shelf) (id : Nat) (directory : ClassDirectory) : DirectoryState :=
  (shelf.directories.get? id).getD { cache := .ofCapacity directory.capacity }

/-- The answers that the caching source with a number remembers. -/
def memo (shelf : Shelf) (id : Nat) : Table ClassName FindResult :=
  (shelf.memos.get? id).getD {}

/-- Puts down what an archive remembers. -/
def setArchive (shelf : Shelf) (id : Nat) (state : ArchiveState) : Shelf :=
  { shelf with archives := shelf.archives.insert id state }

/-- Puts down what a directory remembers. -/
def setDirectory (shelf : Shelf) (id : Nat) (state : DirectoryState) : Shelf :=
  { shelf with directories := shelf.directories.insert id state }

/-- Puts down an answer of a caching source. -/
def addMemo (shelf : Shelf) (id : Nat) (name : ClassName) (answer : FindResult) : Shelf :=
  { shelf with memos := shelf.memos.insert id ((shelf.memo id).insert name answer) }

/-- A number that no source has yet. -/
def freshId : Shelved Nat := do
  let shelf ← get
  set { shelf with nextId := shelf.nextId + 1 }
  return shelf.nextId

end Shelf

end LinkCheck
