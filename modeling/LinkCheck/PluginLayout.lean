import LinkCheck.ClassSource.Opening

/-!
# Plugins and classpath entries on disk

A plugin is a directory with archives in `lib` and perhaps class files in `classes`, or a zip archive
with such a directory in it, or a single jar. Archives that hold a plugin descriptor hold the plugin's
own classes and the others are libraries; if there is no descriptor at all, every archive counts as
the plugin's own.

## Main definitions

- `PluginClasspath` — a plugin's own classes and its libraries
- `PluginClasspath.open` — those of the plugin at a path
- `ClassSource.openEntry` — the source for a classpath entry at a path
-/

namespace LinkCheck

/-- What a plugin contributes to the classpath. -/
structure PluginClasspath where
  classes : ClassSource
  libraries : ClassSource

/-- The jars in a directory, sorted by name. -/
def jarsIn (files : FileTree) (path : String) : List String :=
  match files.list path with
  | .error _ => []
  | .ok entries => entries.filterMap fun (name, node) =>
    if node.isFile && Path.hasExtension name "jar" then some (Path.join path name) else none

namespace PluginLayout

/-- Tells archives with the plugin's own classes from libraries. -/
def splitByDescriptor {α : Type} (hasDescriptor : α → Bool) (archives : List α) :
    List α × List α :=
  if archives.any hasDescriptor then archives.partition hasDescriptor else (archives, [])

/-- The classpath of a plugin with class files of its own and some archives. -/
def assemble {α : Type} (hasDescriptor : α → Bool) (toSource : α → Shelved ClassSource)
    (classFiles : Option ClassSource) (archives : List α) : Shelved PluginClasspath := do
  let (own, bundled) := splitByDescriptor hasDescriptor archives
  let ownSources ← own.mapM toSource
  let bundledSources ← bundled.mapM toSource
  let classes ← ClassSource.unionOf (classFiles.toList ++ ownSources)
  let libraries ← ClassSource.unionOf bundledSources
  return { classes, libraries }

/-- Makes a result part of an opening. -/
def liftExcept {α : Type} : Except OpenError α → Opening α
  | .ok value => return value
  | .error failure => throw failure

/-- The classpath of a plugin in a directory. -/
def openDirectory (path : String) (capacity : Nat) : Opening PluginClasspath := do
  let files := (← get).files
  let classesPath := Path.join path "classes"
  let classFiles ←
    if files.isDirectory classesPath then some <$> ClassSource.openDirectory classesPath capacity
    else pure none
  let jars := jarsIn files (Path.join path "lib")
  if jars.isEmpty && classFiles.isNone then
    throw (.unsupportedLayout path)
  let archives ← jars.mapM fun jar => liftExcept (IndexedArchive.ofFile files jar capacity)
  assemble IndexedArchive.hasDescriptor ClassSource.ofIndexed classFiles archives

/-- The path of an entry below a directory, which may stand at the root of the archive or one
directory deeper. -/
def below? (directory entry : String) : Option String :=
  let start := (directory ++ "/").toList
  let deeper := (entry.toList.dropWhile (· ≠ '/')).drop 1
  match start.isPrefixOf? entry.toList with
  | some rest => some (String.ofList rest)
  | none => (start.isPrefixOf? deeper).map String.ofList

/-- Whether an entry of a plugin archive is a jar directly in `lib`. -/
def isNestedJar (entry : String) : Bool :=
  (below? "lib" entry).any fun rest =>
    '/' ∉ rest.toList && ".jar".toList.isSuffixOf rest.toList

/-- The path below `classes` of an entry that is a class file there. -/
def classFile? (entry : String) : Option String :=
  (below? "classes" entry).filter fun rest => ".class".toList.isSuffixOf rest.toList

/-- Whether an entry of a plugin archive is read. -/
def isRead (entry : String) : Bool :=
  isNestedJar entry || (classFile? entry).isSome

/-- Reads those entries of a plugin archive that are read at all. The headers of the others must be in
order as well. -/
def readEntries (reader : ArchiveReader) (path : String) (bytes : List UInt8) :
    List (String × Slot) → Except OpenError (List (String × List UInt8))
  | [] => .ok []
  | (name, slot) :: slots => do
    let start ← (reader.enter slot bytes).mapError (.badArchive path)
    if isRead name then
      let data ← (reader.read slot start bytes).mapError fun fault =>
        .unreadable path (.archive fault)
      return (name, data) :: (← readEntries reader path bytes slots)
    else readEntries reader path bytes slots

/-- The classpath of a plugin in a zip archive. -/
def openZip (path : String) : Opening PluginClasspath := do
  let files := (← get).files
  match files.node path with
  | .error fault => throw (.unreadable path fault)
  | .ok node =>
    match files.openArchive node with
    | .error fault => throw (.badArchive path fault)
    | .ok opened =>
      let entries ← liftExcept
        (readEntries files.reader path (files.bytes opened.file) opened.archive.entries)
      let nested := entries.filter fun entry => isNestedJar entry.1
      let classEntries := entries.filterMap fun (entry, bytes) =>
        if isNestedJar entry then none else (classFile? entry).map (·, bytes)
      if nested.isEmpty && classEntries.isEmpty then
        throw (.unsupportedLayout path)
      let named := nested.map fun (entry, bytes) => (path ++ "!/" ++ entry, bytes)
      let ordered := sortBy (fun first second => decide (first.1 ≤ second.1)) named
      let archives ← ordered.mapM fun (moniker, bytes) =>
        liftExcept (ReadArchive.ofBytes files.reader moniker bytes)
      let classFiles ←
        if classEntries.isEmpty then pure none
        else some <$> ClassSource.inMemory (path ++ "!/classes") classEntries
      assemble ReadArchive.hasDescriptor ClassSource.ofRead classFiles archives

end PluginLayout

/-- The classpath of the plugin at a path. -/
def PluginClasspath.open (path : String) (capacity : Nat) : Opening PluginClasspath := do
  if (← get).files.isDirectory path then PluginLayout.openDirectory path capacity
  else if Path.hasExtension path "zip" then PluginLayout.openZip path
  else if Path.hasExtension path "jar" then
    let classes ← ClassSource.openIndexed path capacity
    let libraries ← ClassSource.makeEmpty
    return { classes, libraries }
  else throw (.unsupportedLayout path)

/-- A classpath without classes. -/
def PluginClasspath.makeEmpty : Shelved PluginClasspath := do
  return { classes := ← ClassSource.makeEmpty, libraries := ← ClassSource.makeEmpty }

/-- The source for a classpath entry at a path: an archive, a directory with archives in `lib`, or a
directory of class files. -/
def ClassSource.openEntry (path : String) (capacity : Nat) : Opening ClassSource := do
  let files := (← get).files
  if files.isFile path && (Path.hasExtension path "jar" || Path.hasExtension path "zip") then
    openIndexed path capacity
  else if files.isDirectory path then
    match jarsIn files (Path.join path "lib") with
    | [] => openDirectory path capacity
    | jars => unionOf (← jars.mapM (openIndexed · capacity))
  else throw (.unsupportedLayout path)

end LinkCheck
