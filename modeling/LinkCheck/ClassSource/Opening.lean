import LinkCheck.ClassSource.Lookup

/-!
# Opening sources

## Main definitions

- `OpenError` — why a source cannot be made
- `ClassSource.inMemory`, `ClassSource.ofBytes` — sources of classes that are at hand
- `ClassSource.openEager`, `ClassSource.openIndexed`, `ClassSource.openDirectory` — sources of classes
  in files
- `ClassSource.unionOf`, `ClassSource.cached` — sources made of others
-/

namespace LinkCheck

/-- Why a source cannot be made. -/
inductive OpenError where
  | unreadable (path : String) (fault : StorageFault)
  | badArchive (moniker : String) (fault : ArchiveFault)
  | unsupportedLayout (path : String)
deriving DecidableEq, Inhabited, Repr

/-- The text of an opening error. -/
def OpenError.message : OpenError → String
  | unreadable path fault => s!"cannot read {path}: {fault.message}"
  | badArchive moniker fault => s!"cannot open archive {moniker}: {fault.message}"
  | unsupportedLayout path => s!"{path} is neither a class archive nor a plugin directory"

/-- Computations with a shelf that make sources, and may fail. -/
abbrev Opening := ExceptT OpenError Shelved

namespace ReadArchive

/-- Reads all classes among some entries. Of several entries for the same class the first counts. -/
def ofEntries (moniker : String) (entries : List (String × List UInt8)) : ReadArchive where
  moniker := moniker
  classes := .ofListNew <| entries.filterMap fun (path, bytes) =>
    (ClassName.ofEntryPath? path).map fun name => (name, define name bytes)
  hasDescriptor := entries.any fun entry => isPluginDescriptor entry.1

/-- Reads all classes of the archive that some bytes are. -/
def ofBytes (reader : ArchiveReader) (moniker : String) (bytes : List UInt8) :
    Except OpenError ReadArchive :=
  match reader.readAll bytes with
  | .error fault => .error (.badArchive moniker fault)
  | .ok entries =>
    .ok (ofEntries moniker (entries.filter fun entry => entry.1.toList.getLast? ≠ some '/'))

end ReadArchive

namespace IndexedArchive

/-- Notes which entry of an archive holds which class. Of several entries for the same class the
first counts. -/
def ofArchive (path : String) (capacity : Nat) (archive : Archive) : IndexedArchive where
  path := path
  entries := .ofListNew <| archive.keys.filterMap fun entry =>
    (ClassName.ofEntryPath? entry).map fun name => (name, entry)
  hasDescriptor := archive.keys.any isPluginDescriptor
  capacity := capacity

/-- Notes which classes the archive at a path holds. -/
def ofFile (files : FileTree) (path : String) (capacity : Nat) :
    Except OpenError IndexedArchive :=
  match files.node path with
  | .error fault => .error (.unreadable path fault)
  | .ok node =>
    match files.openArchive node with
    | .error fault => .error (.badArchive path fault)
    | .ok opened => .ok (ofArchive path capacity opened.archive)

end IndexedArchive

namespace ClassSource

/-- A source without classes. -/
def makeEmpty : Shelved ClassSource :=
  return empty (← Shelf.freshId)

/-- The source of an archive that has been read. -/
def ofRead (archive : ReadArchive) : Shelved ClassSource :=
  return read (← Shelf.freshId) archive

/-- The source of an archive that is read on demand. -/
def ofIndexed (archive : IndexedArchive) : Shelved ClassSource :=
  return indexed (← Shelf.freshId) archive

/-- A source of the classes among some entries. -/
def inMemory (moniker : String) (entries : List (String × List UInt8)) : Shelved ClassSource :=
  ofRead (.ofEntries moniker entries)

/-- A source of the classes in an archive that is at hand. -/
def ofBytes (moniker : String) (bytes : List UInt8) : Opening ClassSource := do
  ofRead (← ReadArchive.ofBytes (← get).files.reader moniker bytes)

/-- A source of the classes in the archive at a path, which is read at once. -/
def openEager (path : String) : Opening ClassSource := do
  match (← get).files.read path with
  | .error fault => throw (.unreadable path fault)
  | .ok bytes => ofBytes path bytes

/-- A source of the classes in the archive at a path, which is read on demand. -/
def openIndexed (path : String) (capacity : Nat) : Opening ClassSource := do
  ofIndexed (← IndexedArchive.ofFile (← get).files path capacity)

/-- A source of the class files below a directory. -/
def openDirectory (path : String) (capacity : Nat) : Opening ClassSource := do
  if (← get).files.isDirectory path then
    return directory (← Shelf.freshId) { root := path, capacity }
  else throw (.unsupportedLayout path)

/-- Gives each source the names that no source before it has. -/
def shareNames (taken : List ClassName) :
    List (List ClassName × ClassSource) → List (List ClassName × ClassSource)
  | [] => []
  | (names, child) :: children =>
    let owned := names.filter (· ∉ taken)
    (owned, child) :: shareNames (taken ++ owned) children

/-- What a union of some sources is called. -/
def unionMoniker (children : List ClassSource) : String :=
  "union[" ++ ", ".intercalate (children.map moniker) ++ "]"

/-- A source with its names. -/
def withNames (source : ClassSource) : Shelved (List ClassName × ClassSource) :=
  return (← source.names, source)

/-- Lays sources one behind the other, so that the first one with a name answers for it. Empty sources
are left out, and a single source stays what it is. -/
def unionOf (sources : List ClassSource) : Shelved ClassSource := do
  let occupied ← sources.filterM fun source => return !(← source.isEmpty)
  match occupied with
  | [] => makeEmpty
  | [source] => return source
  | children =>
    let named ← children.mapM withNames
    return union (← Shelf.freshId) (unionMoniker children) (shareNames [] named)

/-- A source that remembers all answers of another. -/
def cached (source : ClassSource) : Shelved ClassSource :=
  return caching (← Shelf.freshId) source

end ClassSource

end LinkCheck
