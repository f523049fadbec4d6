import LinkCheck.FileTree

/-!
# Archives in files

## Main definitions

- `OpenedArchive` — an archive that is held open
- `FileTree.openArchive` — opens an archive
- `OpenedArchive.readEntry` — the data of an entry
- `FileTree.ofArchiveBytes` — the files that an archive holds

## Design notes

What the directory of an archive tells is noted when the archive is opened, and where the data of an
entry start when the entry is first read. Headers and data are read from what the file holds then. If
the file has been written to since, they may not be where they should be any more.
-/

namespace LinkCheck

/-- An archive that is held open, with the number of its file. -/
structure OpenedArchive where
  file : Nat
  archive : Archive
  /-- Where the data start of the entries whose headers have been read. -/
  starts : Table String Nat := {}

/-- Opens the archive that a file holds. -/
def FileTree.openArchive (tree : FileTree) : Node → Except ArchiveFault OpenedArchive
  | .directory => .error .unreadable
  | .file number => (tree.reader.index (tree.bytes number)).map ({ file := number, archive := · })

namespace OpenedArchive

/-- Where the data of an entry start: as it is remembered, or as its header tells. -/
def startOf (opened : OpenedArchive) (files : FileTree) (entry : String) (slot : Slot) :
    Except ArchiveFault Nat :=
  match opened.starts.get? entry with
  | some start => .ok start
  | none => files.reader.findStart slot (files.bytes opened.file)

/-- The data of an entry. Where they start is remembered from then on. -/
def readEntry (opened : OpenedArchive) (files : FileTree) (entry : String) :
    Except ArchiveFault (List UInt8) × OpenedArchive :=
  match opened.archive.get? entry with
  | none => (.error .noSuchEntry, opened)
  | some slot =>
    match opened.startOf files entry slot with
    | .error fault => (.error fault, opened)
    | .ok start =>
      (files.reader.checkMethod slot >>= fun () =>
        files.reader.read slot start (files.bytes opened.file),
        { opened with starts := opened.starts.insert entry start })

end OpenedArchive

/-- The tree of files that an archive holds, or an empty one if there is no archive to read. -/
def FileTree.ofArchiveBytes (bytes : List UInt8) : FileTree :=
  match ArchiveReader.zip.readAll bytes with
  | .ok entries => .ofEntries entries
  | .error _ => {}

end LinkCheck
