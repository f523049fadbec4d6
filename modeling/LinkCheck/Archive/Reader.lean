import LinkCheck.Archive

/-!
# Readers of archives

How an archive is laid out, and how its data are compressed, is known to a reader. All that others ask of
it is which entries there are and what each of them holds.

## Main definitions

- `ArchiveReader` — what can be asked of a reader
- `ArchiveReader.enter` — where the data of an entry start that can be read
- `ArchiveReader.readAll` — the data of all entries
- `ArchiveReader.zip` — the reader of zip archives

## Design notes

The reader of zip archives undoes one way of compression. Data that are compressed in the other ways that
have a name count as corrupt, which a reader that can undo them would not say.
-/

namespace LinkCheck

/-- What can be asked of a reader of archives. -/
structure ArchiveReader where
  /-- The archive that some bytes are. -/
  index : List UInt8 → Except ArchiveFault Archive
  /-- Where the data of an entry start. -/
  findStart : Slot → List UInt8 → Except ArchiveFault Nat
  /-- Checks that it is known how to read the data of an entry. -/
  checkMethod : Slot → Except ArchiveFault Unit
  /-- The data of an entry that start at a place in the bytes of its archive. -/
  read : Slot → Nat → List UInt8 → Except ArchiveFault (List UInt8)
  /-- An archive has one slot for each name. -/
  nodup_keys : ∀ {bytes archive}, index bytes = .ok archive → archive.keys.Nodup

namespace ArchiveReader

/-- Where the data of an entry start that can be read. -/
def enter (reader : ArchiveReader) (slot : Slot) (bytes : List UInt8) : Except ArchiveFault Nat := do
  let start ← reader.findStart slot bytes
  reader.checkMethod slot
  return start

/-- The data of all entries of an archive in the given bytes. What is wrong with data in detail is not
told. -/
def contents (reader : ArchiveReader) (archive : Archive) (bytes : List UInt8) :
    Except ArchiveFault (List (String × List UInt8)) :=
  archive.entries.mapM fun (name, slot) => do
    let start ← reader.enter slot bytes
    let data ← (reader.read slot start bytes).mapError fun _ => .unreadable
    return (name, data)

/-- The data of all entries of the archive that some bytes are. -/
def readAll (reader : ArchiveReader) (bytes : List UInt8) :
    Except ArchiveFault (List (String × List UInt8)) := do
  reader.contents (← reader.index bytes) bytes

/-- The reader of zip archives. -/
def zip : ArchiveReader where
  index := Archive.ofBytes
  findStart := Slot.findStart
  checkMethod := Slot.checkMethod
  read := Slot.read
  nodup_keys := Archive.nodup_keys_of_ofBytes

instance : Inhabited ArchiveReader := ⟨zip⟩

end ArchiveReader

end LinkCheck
