import LinkCheck.Archive.Method

/-!
# What is wrong with archives

## Main definitions

- `ArchiveFault` — why an archive cannot be opened, or an entry of it not be read
- `ArchiveFault.message` — the text of such a fault
-/

namespace LinkCheck

/-- Why an archive cannot be opened, or an entry of it not be read. A record is called wide if its
numbers have eight bytes. -/
inductive ArchiveFault where
  /-- There are no bytes, or not enough, where some are to be read. -/
  | unreadable
  /-- There is no record that tells where the directory is. -/
  | noEndRecord
  /-- The comment in that record is longer than what follows. -/
  | longComment
  /-- The directory is told to be behind that record. -/
  | directoryBehindEnd
  /-- Where the directory is told to be there is none. -/
  | noDirectory
  /-- The wide record is told to be behind its locator. -/
  | wideRecordBehindLocator
  /-- The archive is told to be spread over several disks. -/
  | severalDisks
  /-- There is no wide record although there is a locator for one. -/
  | noWideRecord
  /-- The wide record is told to be smaller than one can be. -/
  | wideRecordTooShort
  /-- The wide record is told to reach into its locator. -/
  | wideRecordTooLong
  /-- The wide record and its locator name different disks. -/
  | wideRecordOnOtherDisk
  /-- There are other bytes between the wide record and its locator. -/
  | wideRecordApart
  /-- There is not enough room for the directory in front of the wide record. -/
  | wideRecordTooEarly
  /-- There is no entry with the name. -/
  | noSuchEntry
  /-- The entry is encrypted. -/
  | passwordRequired
  /-- The entry is told to be encrypted in one place and not in another. -/
  | wrongPassword
  /-- Where the header of the entry is told to be there is none. -/
  | noEntryHeader
  /-- The entry is compressed in an unknown way. -/
  | unknownMethod
  /-- The data of the entry cannot be decompressed. -/
  | corruptData (method : Method)
  /-- The data of the entry do not have the checksum that they should have. -/
  | badChecksum
deriving DecidableEq, Inhabited, Repr

namespace ArchiveFault

/-- The text for what is not laid out as an archive. -/
def invalid (text : String) : String :=
  "invalid Zip archive: " ++ text

/-- The text for what an archive may hold but is not read. -/
def unsupported (text : String) : String :=
  "unsupported Zip archive: " ++ text

/-- The text of an archive fault. -/
def message : ArchiveFault → String
  | unreadable => "i/o error"
  | noEndRecord => invalid "Could not find EOCD"
  | longComment => invalid "EOCD comment exceeds file boundary"
  | directoryBehindEnd => invalid "Invalid CDFH offset in EOCD"
  | noDirectory => invalid "No CDFH found"
  | wideRecordBehindLocator => invalid "Invalid EOCD64 Locator CD offset"
  | severalDisks => invalid "Multi-disk ZIP files are not supported"
  | noWideRecord => invalid "Could not find EOCD64"
  | wideRecordTooShort => invalid "Low EOCD64 record size"
  | wideRecordTooLong => invalid "EOCD64 extends beyond EOCD64 locator"
  | wideRecordOnOtherDisk => invalid "Invalid EOCD64: inconsistency with Locator data"
  | wideRecordApart => invalid "Invalid EOCD64: inconsistent length"
  | wideRecordTooEarly => invalid "Invalid EOCD64: inconsistent number of files"
  | noSuchEntry => "specified file not found in archive"
  | passwordRequired => unsupported "Password required to decrypt file"
  | wrongPassword => "provided password is incorrect"
  | noEntryHeader => invalid "Invalid local file header"
  | unknownMethod => unsupported "Compression method not supported"
  | corruptData method => method.complaint
  | badChecksum => "Invalid checksum"

end ArchiveFault

end LinkCheck
