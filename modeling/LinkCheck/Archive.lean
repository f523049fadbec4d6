import LinkCheck.Archive.EndRecord
import LinkCheck.Archive.ExtraField
import LinkCheck.Archive.Inflate
import LinkCheck.Table

/-!
# Archives

A zip archive has its directory behind the entries, and behind the directory a record that tells where
it is. What is known of an opened archive is what its directory tells: where the header of each entry
stands, and how many data there are. The headers and the data themselves are read later.

## Main definitions

- `Slot` — what the directory of an archive tells of an entry
- `Slot.findStart` — where the data of an entry start
- `Slot.read` — what these data are
- `Archive` — the slots of an archive by the names of its entries
- `Archive.ofBytes` — the archive that some bytes are

## Design notes

The record behind the directory is searched from the end. One that leads to no directory is passed
over, because bytes that look like such a record can stand in a comment or in the data.
-/

namespace LinkCheck

/-- What the directory of an archive tells of an entry. -/
structure Slot where
  /-- Where the header of the entry starts. -/
  header : Nat
  /-- How many bytes the data take. -/
  size : Nat
  /-- The checksum that the data must have. -/
  sum : UInt32
  method : Method := .stored
  /-- Whether the entry is marked as encrypted. -/
  isLocked : Bool := false
  /-- Whether the directory tells how the entry is encrypted. -/
  hasCipher : Bool := false
deriving DecidableEq, Inhabited, Repr

namespace Slot

/-- Where the data of an entry start. Its header tells it by the length of the texts in it, and is not
looked at if the entry is encrypted. -/
def findStart (slot : Slot) (bytes : List UInt8) : Except ArchiveFault Nat :=
  let header := bytes.drop slot.header
  if slot.isLocked then .error .passwordRequired
  else if !RecordKind.entryHeader.fits header then .error .unreadable
  else if !RecordKind.entryHeader.signs header then .error .noEntryHeader
  else .ok (slot.header + 30 + Record.field header 26 2 + Record.field header 28 2)

/-- Checks that it is known how to read the data of an entry. -/
def checkMethod (slot : Slot) : Except ArchiveFault Unit :=
  if slot.method = .unknown then .error .unknownMethod
  else if slot.hasCipher then .error .wrongPassword
  else .ok ()

/-- Undoes the compression of some data. Only one way of compression can be undone. -/
def unpack? (slot : Slot) (data : List UInt8) : Option (List UInt8) :=
  match slot.method with
  | .stored => some data
  | .deflated => inflate? data
  | _ => none

/-- The data of an entry that start at a place in the bytes of its archive. -/
def read (slot : Slot) (start : Nat) (bytes : List UInt8) : Except ArchiveFault (List UInt8) :=
  match slot.unpack? ((bytes.drop start).take slot.size) with
  | none => .error (.corruptData slot.method)
  | some data => if checksum data = slot.sum then .ok data else .error .badChecksum

/-- The slot that a record of the directory describes, if all places are moved by some bytes. No place
is beyond what eight bytes can tell. -/
def ofRecord? (shift : Nat) (record : EntryRecord) : Option Slot :=
  if record.header + shift ≤ 0xFFFFFFFFFFFFFFFF then
    some
      { header := record.header + shift
        size := record.size
        sum := record.sum
        method := .ofNumber record.method
        isLocked := record.isLocked
        hasCipher := record.hasCipher }
  else none

end Slot

/-- The slots of an archive by the names of its entries. Where a name occurs again, its last slot
counts. -/
abbrev Archive := Table String Slot

namespace Archive

/-- Reads a number of records of a directory. -/
def readRecords? (shift : Nat) : Nat → List UInt8 → Option (List (String × Slot))
  | 0, _ => some []
  | count + 1, bytes => do
    let (record, extra, rest) ← EntryRecord.read? bytes
    let record ← record.withExtra? extra
    let slot ← Slot.ofRecord? shift record
    let others ← readRecords? shift count rest
    return (record.name, slot) :: others

/-- Reads the directory at a place. -/
def readDirectory? (bytes : List UInt8) (place : DirectoryPlace) : Option Archive :=
  if place.isSound then
    (readRecords? place.shift place.count (bytes.drop place.start)).map .ofList
  else none

/-- The archive that ends with one of the records at these offsets: the first one that leads to a
directory. What was wrong with the others is told if there is none. A record that is not whole counts
only if nothing was wrong before it, and one that tells no place counts in any case; where a place is
told but no directory can be read there, all that was wrong before is forgotten. -/
def endingAt (bytes : List UInt8) (fault : Option ArchiveFault) :
    List Nat → Except ArchiveFault Archive
  | [] => .error (fault.getD .noEndRecord)
  | offset :: earlier =>
    match EndRecord.readAt bytes offset with
    | .error found => endingAt bytes (fault <|> some found) earlier
    | .ok record =>
      match record.directoryPlace bytes with
      | .error found => endingAt bytes (some found) earlier
      | .ok place =>
        match readDirectory? bytes place with
        | some archive => .ok archive
        | none => endingAt bytes none earlier

/-- The archive that some bytes are. -/
def ofBytes (bytes : List UInt8) : Except ArchiveFault Archive :=
  endingAt bytes none (Record.offsetsFrom .endRecord [] 0 bytes)

theorem nodup_keys_of_endingAt {bytes : List UInt8} {archive : Archive}
    {fault : Option ArchiveFault} {offsets : List Nat}
    (h : endingAt bytes fault offsets = .ok archive) : archive.keys.Nodup := by
  induction offsets generalizing fault with
  | nil => cases h
  | cons offset offsets ih =>
    unfold endingAt at h
    split at h
    · exact ih h
    · split at h
      · exact ih h
      · split at h
        · next found hfound =>
          cases h
          unfold readDirectory? at hfound
          split at hfound
          · obtain ⟨records, -, rfl⟩ := Option.map_eq_some_iff.1 hfound
            exact Table.nodup_keys_ofList records
          · cases hfound
        · exact ih h

/-- An archive has one slot for each name. -/
theorem nodup_keys_of_ofBytes {bytes : List UInt8} {archive : Archive}
    (h : ofBytes bytes = .ok archive) : archive.keys.Nodup :=
  nodup_keys_of_endingAt h

end Archive

end LinkCheck
