import LinkCheck.Archive

/-!
# Packing archives

## Main definitions

- `Archive.pack` — the bytes of an archive with some entries, stored without compression
-/

namespace LinkCheck.Archive

/-- What the header of an entry and its record in the directory both tell: flags, size, checksum and
the length of the name. Names beyond ASCII are marked as UTF-8. -/
def summary (name data : List UInt8) : List UInt8 :=
  let flags := if name.any (0x80 ≤ ·) then 0x800 else 0
  Record.spell 2 20 ++ Record.spell 2 flags ++ Record.spell 4 0 ++ Record.spell 2 0x21 ++
    Record.spell 4 (checksum data).toNat ++ Record.spell 4 data.length ++
    Record.spell 4 data.length ++ Record.spell 2 name.length ++ Record.spell 2 0

/-- An entry: a header, the name and the data. -/
def packEntry (name data : List UInt8) : List UInt8 :=
  RecordKind.entryHeader.signature ++ summary name data ++ name ++ data

/-- The record in the directory for the entry whose header stands at an offset. -/
def packRecord (name data : List UInt8) (offset : Nat) : List UInt8 :=
  RecordKind.directoryRecord.signature ++ Record.spell 2 20 ++ summary name data ++
    Record.spell 10 0 ++ Record.spell 4 offset ++ name

/-- The entries and the directory of an archive, where the first entry stands at an offset. -/
def packFrom (offset : Nat) : List (String × List UInt8) → List UInt8 × List UInt8
  | [] => ([], [])
  | (name, data) :: rest =>
    let spelled := name.toUTF8.data.toList
    let entry := packEntry spelled data
    let (entries, directory) := packFrom (offset + entry.length) rest
    (entry ++ entries, packRecord spelled data offset ++ directory)

/-- The bytes of an archive with these entries. -/
def pack (entries : List (String × List UInt8)) : List UInt8 :=
  let (body, directory) := packFrom 0 entries
  body ++ directory ++ RecordKind.endRecord.signature ++ Record.spell 4 0 ++
    Record.spell 2 entries.length ++ Record.spell 2 entries.length ++
    Record.spell 4 directory.length ++ Record.spell 4 body.length ++ Record.spell 2 0

end LinkCheck.Archive
