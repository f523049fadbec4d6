import LinkCheck.Archive.Checksum
import LinkCheck.Archive.EntryRecord

/-!
# Extra fields of an entry

The extra bytes of a directory record are a row of fields. Each starts with its kind and its length and
may replace what the record tells: larger numbers, a name or comment in UTF-8, the way in which the
data are compressed under a cipher. Fields of other kinds are passed over.

## Main definitions

- `ExtraField.Outcome` — how reading a field ends
- `ExtraField.apply` — what a record tells once a field has been read
- `EntryRecord.withExtra?` — what a record tells once all its extra bytes have been read

## Design notes

Fields are not kept apart: one with a wrong length may take bytes of those behind it. If the bytes end
within a field, what was read of it counts and the rest is left. A field that is at odds with itself or
with the record makes the record useless.
-/

namespace LinkCheck

namespace ExtraField

/-- How reading a field ends. -/
inductive Outcome where
  | more (rest : List UInt8)
  /-- The bytes end within the field. -/
  | cutShort
  /-- The field makes no sense. -/
  | refused
deriving DecidableEq, Repr

/-- The next `count` bytes and the rest. -/
def take? (count : Nat) (bytes : List UInt8) : Option (List UInt8 × List UInt8) :=
  let taken := bytes.take count
  if taken.length = count then some (taken, bytes.drop count) else none

/-- Passes over a number of bytes. -/
def skip (count : Nat) (bytes : List UInt8) : Outcome :=
  match take? count bytes with
  | some (_, rest) => .more rest
  | none => .cutShort

/-- The value in place of one that does not fit in four bytes: eight bytes, where these are given. -/
def wide? (isGiven : Bool) (value : Nat) (bytes : List UInt8) : Option (Nat × List UInt8) :=
  if isGiven then (take? 8 bytes).map fun (number, rest) => (Record.number number, rest)
  else some (value, bytes)

/-- The number that a record has in place of one that does not fit in four bytes. -/
def overflow : Nat := 0xFFFFFFFF

/-- Reads the numbers that do not fit in four bytes. A field that is long enough for all has all. -/
def applyWide (record : EntryRecord) (length : Nat) (bytes : List UInt8) : EntryRecord × Outcome :=
  let hasAll : Bool := 24 ≤ length
  match wide? (hasAll || record.fullSize = overflow) record.fullSize bytes with
  | none => (record, .cutShort)
  | some (fullSize, bytes₁) =>
    let sized := { record with fullSize }
    match wide? (hasAll || record.size = overflow) record.size bytes₁ with
    | none => (sized, .cutShort)
    | some (size, bytes₂) =>
      let packed := { sized with size }
      match wide? (hasAll || record.header = overflow) record.header bytes₂ with
      | none => (packed, .cutShort)
      | some (header, rest) =>
        let used := bytes.length - rest.length
        ({ packed with header }, if length < used then .refused else skip (length - used) rest)

/-- Reads a text in UTF-8 in place of one with the checksum that the field tells. -/
def unicode (spelling : List UInt8) (length : Nat) (bytes : List UInt8) :
    Option (List UInt8 × String) × Outcome :=
  match take? 5 bytes with
  | none => (none, .cutShort)
  | some (head, rest) =>
    if length < 5 then (none, .refused)
    else
      match take? (length - 5) rest with
      | none => (none, .cutShort)
      | some (content, rest) =>
        if Record.field head 1 4 ≠ (checksum spelling).toNat then (none, .refused)
        else
          match EntryName.ofUtf8? content with
          | none => (none, .refused)
          | some text => (some (content, text), .more rest)

/-- Reads a name in UTF-8. -/
def applyName (record : EntryRecord) (length : Nat) (bytes : List UInt8) : EntryRecord × Outcome :=
  match unicode record.spelling length bytes with
  | (some (spelling, name), outcome) => ({ record with spelling, name }, outcome)
  | (none, outcome) => (record, outcome)

/-- Reads a comment in UTF-8. -/
def applyComment (record : EntryRecord) (length : Nat) (bytes : List UInt8) :
    EntryRecord × Outcome :=
  match unicode record.comment.toUTF8.data.toList length bytes with
  | (some (_, comment), outcome) => ({ record with comment }, outcome)
  | (none, outcome) => (record, outcome)

/-- Passes over up to three times, as the flags in front of them tell which there are. A field of five
bytes has the first of them whatever the flags tell. -/
def skipTimes (length : Nat) : List UInt8 → Outcome
  | [] => .cutShort
  | flags :: bytes =>
    let isSet (place : Nat) : Bool := flags.toNat.testBit place
    if length ≠ 5 && length ≠ 1 + 4 * (List.range 8).countP isSet then .refused
    else if length = 5 then skip 4 bytes
    else skip (4 * (List.range 3).countP isSet) bytes

/-- Passes over three times in a block with a mark and a length of its own. -/
def skipTimeBlock (length : Nat) (bytes : List UInt8) : Outcome :=
  if length ≠ 32 then .refused
  else
    match take? 6 bytes with
    | none => .cutShort
    | some (head, bytes₁) =>
      if Record.field head 4 2 ≠ 1 then .refused
      else
        match take? 2 bytes₁ with
        | none => .cutShort
        | some (size, bytes₂) => if Record.number size ≠ 24 then .refused else skip 24 bytes₂

/-- Reads how an entry is encrypted, and how its data are compressed below that. -/
def applyCipher (record : EntryRecord) (length : Nat) (bytes : List UInt8) :
    EntryRecord × Outcome :=
  if length ≠ 7 then (record, .refused)
  else
    match take? 7 bytes with
    | none => (record, .cutShort)
    | some (field, rest) =>
      if Record.field field 2 2 = 0x4541 && Record.field field 0 2 ∈ [1, 2] &&
          Record.field field 4 1 ∈ [1, 2, 3] then
        ({ record with method := Record.field field 5 2, hasCipher := true }, .more rest)
      else (record, .refused)

/-- What a record tells once a field of some kind and length has been read. -/
def apply (kind : Nat) (record : EntryRecord) (length : Nat) (bytes : List UInt8) :
    EntryRecord × Outcome :=
  match kind with
  | 0x0001 => applyWide record length bytes
  | 0x000A => (record, skipTimeBlock length bytes)
  | 0x5455 => (record, skipTimes length bytes)
  | 0x6375 => applyComment record length bytes
  | 0x7075 => applyName record length bytes
  | 0x9901 => applyCipher record length bytes
  | _ => (record, skip length bytes)

/-- What a record tells once at most `limit` fields have been read. -/
def applyAll? : Nat → EntryRecord → List UInt8 → Option EntryRecord
  | 0, record, _ => some record
  | limit + 1, record, bytes =>
    match take? 4 bytes with
    | none => some record
    | some (head, rest) =>
      match apply (Record.field head 0 2) record (Record.field head 2 2) rest with
      | (next, .more rest) => applyAll? limit next rest
      | (next, .cutShort) => some next
      | (_, .refused) => none

end ExtraField

/-- What a record tells once its extra bytes have been read. One with the number for ciphers in place of
a method must tell the cipher there. -/
def EntryRecord.withExtra? (record : EntryRecord) (extra : List UInt8) : Option EntryRecord := do
  let found ← ExtraField.applyAll? extra.length record extra
  guard (found.method ≠ 99 || found.hasCipher)
  return found

end LinkCheck
