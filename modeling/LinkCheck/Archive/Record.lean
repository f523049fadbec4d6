/-!
# Records of an archive

An archive is made of records. Each starts with two letters and two more bytes that tell its kind, and
has numbers at fixed places, the lowest byte first.

## Main definitions

- `RecordKind`, `RecordKind.signature` — the kinds of records and how they start
- `Record.number`, `Record.spell` — the number that bytes spell, and the bytes that spell a number
- `Record.field` — a number in a record
- `Record.offsetsFrom`, `Record.firstOffset?` — where records of a kind start
-/

namespace LinkCheck

/-- The kinds of records. -/
inductive RecordKind where
  /-- The record in front of the data of an entry. -/
  | entryHeader
  /-- The record in the directory that describes an entry. -/
  | directoryRecord
  /-- The record behind the directory, with larger numbers than an end record can hold. -/
  | wideEndRecord
  /-- The record that tells where the wide end record is. -/
  | locator
  /-- The last record of an archive. -/
  | endRecord
deriving DecidableEq, Repr

/-- How records of a kind start. -/
def RecordKind.signature : RecordKind → List UInt8
  | entryHeader => [0x50, 0x4B, 0x03, 0x04]
  | directoryRecord => [0x50, 0x4B, 0x01, 0x02]
  | wideEndRecord => [0x50, 0x4B, 0x06, 0x06]
  | locator => [0x50, 0x4B, 0x06, 0x07]
  | endRecord => [0x50, 0x4B, 0x05, 0x06]

/-- How many bytes each record of a kind has, apart from the texts in it. -/
def RecordKind.size : RecordKind → Nat
  | entryHeader => 30
  | directoryRecord => 46
  | wideEndRecord => 56
  | locator => 20
  | endRecord => 22

/-- Whether bytes start with the signature of a kind. -/
def RecordKind.signs (kind : RecordKind) (bytes : List UInt8) : Bool :=
  kind.signature.isPrefixOf bytes

/-- Whether bytes are enough for a record of a kind, though its texts may be cut short. -/
def RecordKind.fits (kind : RecordKind) (bytes : List UInt8) : Bool :=
  kind.size ≤ (bytes.take kind.size).length

namespace Record

/-- The number that bytes spell, the lowest byte first. -/
def number (bytes : List UInt8) : Nat :=
  bytes.foldr (fun byte value => byte.toNat + 256 * value) 0

/-- The bytes that spell a number, the lowest byte first. -/
def spell : Nat → Nat → List UInt8
  | 0, _ => []
  | width + 1, value => .ofNat value :: spell width (value / 256)

/-- The number in `width` bytes at a place of a record. -/
def field (record : List UInt8) (place width : Nat) : Nat :=
  number ((record.drop place).take width)

/-- Where the records of a kind may start, the last one first. The bytes stand at an offset, and
`found` holds the places before them. -/
def offsetsFrom (kind : RecordKind) (found : List Nat) (offset : Nat) : List UInt8 → List Nat
  | [] => found
  | byte :: rest =>
    offsetsFrom kind (if kind.signs (byte :: rest) then offset :: found else found) (offset + 1) rest

/-- Where the first record of a kind may start in bytes that stand at an offset. -/
def firstOffset? (kind : RecordKind) (offset : Nat) : List UInt8 → Option Nat
  | [] => none
  | byte :: rest =>
    if kind.signs (byte :: rest) then some offset else firstOffset? kind (offset + 1) rest

end Record

end LinkCheck
