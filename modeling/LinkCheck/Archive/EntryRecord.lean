import LinkCheck.Archive.EntryName
import LinkCheck.Archive.Record

/-!
# What the directory tells of an entry

## Main definitions

- `EntryRecord` — what a record of the directory tells
- `EntryRecord.read?` — the record at the front of some bytes, its extra bytes, and what follows

## Design notes

The extra bytes of a record may tell more. `EntryRecord.read?` leaves them aside.
-/

namespace LinkCheck

/-- What a record of the directory tells of an entry. -/
structure EntryRecord where
  /-- The bytes of the name. -/
  spelling : List UInt8
  name : String
  comment : String
  /-- The number of the way in which the data are compressed. -/
  method : Nat
  /-- Whether the entry is marked as encrypted. -/
  isLocked : Bool
  /-- Whether the record tells how the entry is encrypted. -/
  hasCipher : Bool
  /-- The checksum that the data must have. -/
  sum : UInt32
  /-- How many bytes the data take in the archive. -/
  size : Nat
  /-- How many bytes the data have. -/
  fullSize : Nat
  /-- Where the header of the entry starts. -/
  header : Nat
deriving DecidableEq, Repr

namespace EntryRecord

/-- The text that some bytes spell, by the flag that tells how. -/
def text (isUtf8 : Bool) (bytes : List UInt8) : String :=
  if isUtf8 then EntryName.ofUtf8 bytes else EntryName.ofCodePage bytes

/-- Reads a record of the directory, whose texts must all be there. Gives also its extra bytes and what
follows. -/
def read? (bytes : List UInt8) : Option (EntryRecord × List UInt8 × List UInt8) :=
  let nameSize := Record.field bytes 28 2
  let extraSize := Record.field bytes 30 2
  let commentSize := Record.field bytes 32 2
  let texts := bytes.drop 46
  let flags := Record.field bytes 8 2
  let isUtf8 := flags / 0x800 % 2 = 1
  let size := nameSize + extraSize + commentSize
  if RecordKind.directoryRecord.signs bytes && RecordKind.directoryRecord.fits bytes &&
      size ≤ (texts.take size).length then
    let name := texts.take nameSize
    let comment := (texts.drop (nameSize + extraSize)).take commentSize
    let record :=
      { spelling := name
        name := text isUtf8 name
        comment := text isUtf8 comment
        method := Record.field bytes 10 2
        isLocked := flags % 2 = 1
        hasCipher := false
        sum := .ofNat (Record.field bytes 16 4)
        size := Record.field bytes 20 4
        fullSize := Record.field bytes 24 4
        header := Record.field bytes 42 4 }
    some (record, (texts.drop nameSize).take extraSize, texts.drop size)
  else none

end EntryRecord

end LinkCheck
