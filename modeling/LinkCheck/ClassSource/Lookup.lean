import LinkCheck.ClassSource

/-!
# Looking up classes

## Main definitions

- `ClassSource.find` — the class with a name
- `ClassSource.contains`, `ClassSource.names`, `ClassSource.isEmpty` — which classes there are
- `ClassSource.locate` — the archive or directory that holds a class
- `ClassSource.close` — gives up what is held open
-/

namespace LinkCheck

namespace ReadArchive

/-- The class with a name. -/
def find (archive : ReadArchive) (name : ClassName) : FindResult :=
  match archive.classes.get? name with
  | none => .ok none
  | some result => some <$> result

end ReadArchive

namespace IndexedArchive

/-- The opened archive, which is opened now if it is closed. -/
def openNow (archive : IndexedArchive) (files : FileTree) (state : ArchiveState) :
    Except StorageFault OpenedArchive :=
  match state.opened with
  | some opened => .ok opened
  | none => do
    let node ← files.node archive.path
    (files.openArchive node).mapError .archive

/-- Reads the class with a name from an entry of an archive. Gives also the archive as it is held open
from then on. -/
def readEntry (archive : IndexedArchive) (files : FileTree) (state : ArchiveState)
    (name : ClassName) (entry : String) : ReadResult × Option OpenedArchive :=
  match archive.openNow files state with
  | .error fault => (.error (.storage fault), none)
  | .ok opened =>
    match opened.readEntry files entry with
    | (.error fault, opened) => (.error (.storage (.archive fault)), some opened)
    | (.ok bytes, opened) => (define name bytes, some opened)

/-- The class with a name: as it is remembered, or read from the archive and then remembered. -/
def find (archive : IndexedArchive) (id : Nat) (name : ClassName) : Shelved FindResult := do
  match archive.entries.get? name with
  | none => return .ok none
  | some entry =>
    let shelf ← get
    let state := shelf.archiveState id archive
    match state.cache.get name with
    | (some result, cache) =>
      set (shelf.setArchive id { state with cache })
      return some <$> result
    | (none, cache) =>
      let (result, opened) := archive.readEntry shelf.files state name entry
      set (shelf.setArchive id { opened, cache := cache.insert name result })
      return some <$> result

/-- Gives up the opened archive. -/
def close (archive : IndexedArchive) (id : Nat) : Shelved Unit :=
  modify fun shelf =>
    shelf.setArchive id { shelf.archiveState id archive with opened := none }

end IndexedArchive

namespace ClassDirectory

/-- The classes in the directory of a package: the names of its class files without the
extension. -/
def classesIn (directory : ClassDirectory) (files : FileTree) (package : String) : List String :=
  let segments := (Path.segments package).filter (· ≠ "")
  match files.list (segments.foldl Path.join directory.root) with
  | .error _ => []
  | .ok entries => entries.filterMap fun (name, node) =>
    if node.isFile then (".class".toList.isSuffixOf? name.toList).map String.ofList else none

/-- The classes in the directory of a package, listed on first demand. -/
def listing (directory : ClassDirectory) (id : Nat) (package : String) :
    Shelved (List String) := do
  let shelf ← get
  let state := shelf.directoryState id directory
  match state.listings.get? package with
  | some listing => return listing
  | none =>
    let listing := directory.classesIn shelf.files package
    let listings := state.listings.insert package listing
    set (shelf.setDirectory id { state with listings })
    return listing

/-- All classes below the root, in the order of their files. -/
def walk (directory : ClassDirectory) (files : FileTree) : List ClassName :=
  match files.filesBelow directory.root with
  | .error _ => []
  | .ok found =>
    (found.filterMap fun names => ClassName.ofEntryPath? ("/".intercalate names)).eraseDups

/-- All classes below the root, found on first demand. -/
def names (directory : ClassDirectory) (id : Nat) : Shelved (List ClassName) := do
  let shelf ← get
  let state := shelf.directoryState id directory
  match state.names with
  | some names => return names
  | none =>
    let names := directory.walk shelf.files
    set (shelf.setDirectory id { state with names := some names })
    return names

/-- Whether there is a class with a name. Until all names have been asked for, only the directory of
its package is looked at. -/
def contains (directory : ClassDirectory) (id : Nat) (name : ClassName) : Shelved Bool := do
  let shelf ← get
  match (shelf.directoryState id directory).names with
  | some names => return name ∈ names
  | none =>
    if name.isArray then return false
    else return name.simpleName ∈ (← directory.listing id name.package)

/-- Reads the class with a name from its file. -/
def readFile (directory : ClassDirectory) (files : FileTree) (name : ClassName) : ReadResult :=
  match files.read (Path.join directory.root name.entryPath) with
  | .error fault => .error (.storage fault)
  | .ok bytes => define name bytes

/-- The class with a name: as it is remembered, or read from its file and then remembered. -/
def find (directory : ClassDirectory) (id : Nat) (name : ClassName) : Shelved FindResult := do
  if ← directory.contains id name then
    let shelf ← get
    let state := shelf.directoryState id directory
    match state.cache.get name with
    | (some result, cache) =>
      set (shelf.setDirectory id { state with cache })
      return some <$> result
    | (none, cache) =>
      let result := directory.readFile shelf.files name
      set (shelf.setDirectory id { state with cache := cache.insert name result })
      return some <$> result
  else return .ok none

/-- Whether there is nothing in the directory. Until all names have been asked for, any entry of the
root counts. -/
def isEmpty (directory : ClassDirectory) (id : Nat) : Shelved Bool := do
  let shelf ← get
  match (shelf.directoryState id directory).names with
  | some names => return names.isEmpty
  | none =>
    match shelf.files.list directory.root with
    | .ok entries => return entries.isEmpty
    | .error _ => return true

/-- Gives up the classes that are remembered. -/
def close (directory : ClassDirectory) (id : Nat) : Shelved Unit :=
  modify fun shelf =>
    let state := shelf.directoryState id directory
    shelf.setDirectory id { state with cache := state.cache.clear }

end ClassDirectory

namespace ClassSource

mutual

/-- The class with a name. In a union the child that answers for the name is asked. -/
def find (name : ClassName) : ClassSource → Shelved FindResult
  | empty _ => return .ok none
  | read _ archive => return archive.find name
  | indexed id archive => archive.find id name
  | directory id classFiles => classFiles.find id name
  | union _ _ children => findOwned name children
  | caching id inner => do
    match ((← get).memo id).get? name with
    | some answer => return answer
    | none =>
      let answer ← inner.find name
      modify (·.addMemo id name answer)
      return answer

/-- The class with a name, from the first child that answers for it. -/
def findOwned (name : ClassName) : List (List ClassName × ClassSource) → Shelved FindResult
  | [] => return .ok none
  | (owned, child) :: children =>
    if name ∈ owned then child.find name else findOwned name children

end

/-- Whether there is a class with a name. -/
def contains (name : ClassName) : ClassSource → Shelved Bool
  | empty _ => return false
  | read _ archive => return archive.classes.contains name
  | indexed _ archive => return archive.entries.contains name
  | directory id classFiles => classFiles.contains id name
  | union _ _ children => return children.any fun child => name ∈ child.1
  | caching _ inner => inner.contains name

/-- The names of all classes. -/
def names : ClassSource → Shelved (List ClassName)
  | empty _ => return []
  | read _ archive => return archive.classes.keys
  | indexed _ archive => return archive.entries.keys
  | directory id classFiles => classFiles.names id
  | union _ _ children => return children.flatMap Prod.fst
  | caching _ inner => inner.names

/-- Whether there are no classes. -/
def isEmpty : ClassSource → Shelved Bool
  | directory id classFiles => classFiles.isEmpty id
  | caching _ inner => inner.isEmpty
  | source => return (← source.names).isEmpty

mutual

/-- The archive or directory that holds the class with a name. -/
def locate (name : ClassName) : ClassSource → Shelved (Option ClassSource)
  | empty _ => return none
  | read id archive => return if archive.classes.contains name then some (read id archive) else none
  | indexed id archive =>
    return if archive.entries.contains name then some (indexed id archive) else none
  | directory id classFiles => do
    return if ← classFiles.contains id name then some (directory id classFiles) else none
  | union _ _ children => locateOwned name children
  | caching _ inner => inner.locate name

/-- The archive or directory that holds the class with a name, in the first child that answers for
it. -/
def locateOwned (name : ClassName) :
    List (List ClassName × ClassSource) → Shelved (Option ClassSource)
  | [] => return none
  | (owned, child) :: children =>
    if name ∈ owned then child.locate name else locateOwned name children

end

mutual

/-- Gives up what the parts of a source hold open. Answers that a caching source remembers stay. -/
def close : ClassSource → Shelved Unit
  | empty _ | read _ _ => return ()
  | indexed id archive => archive.close id
  | directory id classFiles => classFiles.close id
  | union _ _ children => closeAll children
  | caching _ inner => inner.close

/-- Gives up what the children of a union hold open. -/
def closeAll : List (List ClassName × ClassSource) → Shelved Unit
  | [] => return ()
  | (_, child) :: children => do
    child.close
    closeAll children

end

end ClassSource

end LinkCheck
