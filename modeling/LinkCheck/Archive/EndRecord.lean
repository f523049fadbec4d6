import LinkCheck.Archive.Fault
import LinkCheck.Archive.Record

/-!
# Where the directory of an archive is

An archive ends with a record that tells where its directory is and how many entries that describes.
Numbers that do not fit there stand in a wide record in front of it, and between the two a locator tells
where the wide record is. Other bytes may stand in front of an archive; then all places in it are moved
by as much, and how much that is shows where a record is found that was told to be elsewhere.

## Main definitions

- `EndRecord`, `EndRecord.readAt` — what the last record of an archive tells
- `Locator`, `WideEndRecord` — what the records for larger numbers tell
- `EndRecord.directoryPlace` — the place of the directory

## Design notes

A record can contradict itself and still tell a place. `DirectoryPlace.isSound` is false then, and no
directory is read there.
-/

namespace LinkCheck

/-- Where the directory of an archive is. -/
structure DirectoryPlace where
  start : Nat
  /-- By how many bytes in front of the archive all places are moved. -/
  shift : Nat
  /-- How many entries the directory describes. -/
  count : Nat
  /-- Whether what tells this place does not contradict itself. -/
  isSound : Bool
deriving DecidableEq, Repr

/-- What the last record of an archive tells. -/
structure EndRecord where
  /-- Where the record starts. -/
  offset : Nat
  disk : Nat
  /-- The disk where the directory starts. -/
  directoryDisk : Nat
  /-- How many entries the directory has on this disk. -/
  countOnDisk : Nat
  count : Nat
  directoryStart : Nat
deriving DecidableEq, Repr

/-- What a locator tells. -/
structure Locator where
  /-- Where the locator starts. -/
  offset : Nat
  /-- The disk where the wide record is. -/
  disk : Nat
  recordStart : Nat
  disks : Nat
deriving DecidableEq, Repr

/-- What a wide record tells. -/
structure WideEndRecord where
  /-- Where the record starts. -/
  offset : Nat
  /-- How many bytes follow after the one that this is told in. -/
  length : Nat
  disk : Nat
  /-- The disk where the directory starts. -/
  directoryDisk : Nat
  /-- How many entries the directory has on this disk. -/
  countOnDisk : Nat
  count : Nat
  directoryStart : Nat
deriving DecidableEq, Repr

/-- The locator in front of a record at an offset. -/
def Locator.before? (bytes : List UInt8) (offset : Nat) : Option Locator :=
  let record := bytes.drop (offset - 20)
  if 20 ≤ offset && RecordKind.locator.signs record then
    some
      { offset := offset - 20
        disk := Record.field record 4 4
        recordStart := Record.field record 8 8
        disks := Record.field record 16 4 }
  else none

namespace WideEndRecord

/-- The wide record at an offset. -/
def readAt (bytes : List UInt8) (offset : Nat) : Except ArchiveFault WideEndRecord :=
  let record := bytes.drop offset
  if RecordKind.wideEndRecord.fits record then
    .ok
      { offset
        length := Record.field record 4 8
        disk := Record.field record 16 4
        directoryDisk := Record.field record 20 4
        countOnDisk := Record.field record 24 8
        count := Record.field record 32 8
        directoryStart := Record.field record 48 8 }
  else .error .unreadable

/-- Checks that a wide record reaches to its locator, and that there is room for the directory in front
of it. -/
def check (record : WideEndRecord) (locator : Locator) : Except ArchiveFault Unit :=
  if record.length < 44 then .error .wideRecordTooShort
  else if locator.offset < record.offset + 12 + record.length then .error .wideRecordTooLong
  else if record.directoryDisk ≠ locator.disk then .error .wideRecordOnOtherDisk
  else if locator.offset ≠ record.offset + 12 + record.length then .error .wideRecordApart
  else if record.offset < 46 * record.count + record.directoryStart then .error .wideRecordTooEarly
  else .ok ()

/-- The place of the directory that a wide record tells. -/
def place (record : WideEndRecord) (locator : Locator) : DirectoryPlace :=
  let shift := record.offset - locator.recordStart
  { start := record.directoryStart + shift
    shift
    count := record.count
    isSound := record.disk = record.directoryDisk && record.countOnDisk ≤ record.count }

/-- The place that the first fitting one of the wide records at these offsets tells. If there is none
then `fault` is what is wrong. -/
def firstPlace (bytes : List UInt8) (locator : Locator) (fault : ArchiveFault) :
    List Nat → Except ArchiveFault DirectoryPlace
  | [] => .error fault
  | offset :: later =>
    match readAt bytes offset with
    | .error found => firstPlace bytes locator found later
    | .ok record =>
      match record.check locator with
      | .error found => firstPlace bytes locator found later
      | .ok () => .ok (record.place locator)

end WideEndRecord

/-- The place of the directory that the wide record of a locator tells. It is searched from where the
locator tells it to be. -/
def Locator.directoryPlace (locator : Locator) (bytes : List UInt8) :
    Except ArchiveFault DirectoryPlace :=
  if locator.offset ≤ locator.recordStart then .error .wideRecordBehindLocator
  else if 1 < locator.disks then .error .severalDisks
  else
    let between := (bytes.drop locator.recordStart).take (locator.offset - locator.recordStart)
    WideEndRecord.firstPlace bytes locator .noWideRecord
      (Record.offsetsFrom .wideEndRecord [] locator.recordStart between).reverse

namespace EndRecord

/-- The record at an offset. -/
def readAt (bytes : List UInt8) (offset : Nat) : Except ArchiveFault EndRecord :=
  let record := bytes.drop offset
  if !RecordKind.endRecord.fits record then .error .unreadable
  else if record.length < 22 + Record.field record 20 2 then .error .longComment
  else
    .ok
      { offset
        disk := Record.field record 4 2
        directoryDisk := Record.field record 6 2
        countOnDisk := Record.field record 8 2
        count := Record.field record 10 2
        directoryStart := Record.field record 16 4 }

/-- Whether a number of the record may stand in a wide record because it is too large. -/
def mayOverflow (record : EndRecord) : Bool :=
  record.count = 0xFFFF || record.directoryStart = 0xFFFFFFFF

/-- The place of the directory that the record itself tells. If there are entries then the first record
of the directory shows by how much all places are moved. -/
def ownPlace (record : EndRecord) (bytes : List UInt8) : Except ArchiveFault DirectoryPlace :=
  let told := record.directoryStart
  let startingAt (start : Nat) : DirectoryPlace :=
    { start
      shift := start - told
      count := record.countOnDisk
      isSound := record.disk = record.directoryDisk }
  if record.count = 0 then .ok (startingAt (max told record.offset))
  else if record.offset ≤ told then .error .directoryBehindEnd
  else
    let between := (bytes.drop told).take (record.offset - told)
    match Record.firstOffset? .directoryRecord told between with
    | none => .error .noDirectory
    | some start => .ok (startingAt start)

/-- The place of the directory. -/
def directoryPlace (record : EndRecord) (bytes : List UInt8) : Except ArchiveFault DirectoryPlace :=
  if record.mayOverflow then
    match Locator.before? bytes record.offset with
    | some locator => locator.directoryPlace bytes
    | none => record.ownPlace bytes
  else record.ownPlace bytes

end EndRecord

end LinkCheck
