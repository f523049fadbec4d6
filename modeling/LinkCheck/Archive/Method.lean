/-!
# Ways of compression

## Main definitions

- `Method` — how the data of an entry are compressed
- `Method.ofNumber` — the way that has a number in an archive
- `Method.complaint` — what is said of data that cannot be decompressed
-/

namespace LinkCheck

/-- How the data of an entry are compressed. -/
inductive Method where
  | stored
  | deflated
  | deflated64
  | bzip2
  | lzma
  | zstandard
  | xz
  /-- A way that has no name here. -/
  | unknown
deriving DecidableEq, Inhabited, Repr

namespace Method

/-- The way of compression that has a number. -/
def ofNumber : Nat → Method
  | 0 => stored
  | 8 => deflated
  | 9 => deflated64
  | 12 => bzip2
  | 14 => lzma
  | 93 => zstandard
  | 95 => xz
  | _ => unknown

/-- What is said of data that cannot be decompressed. -/
def complaint : Method → String
  | stored | unknown => "i/o error"
  | deflated => "corrupt deflate stream"
  | deflated64 => "invalid deflate64"
  | bzip2 => "bzip2: bz2 header missing"
  | lzma => "Invalid LZMA header"
  | zstandard => "Unknown frame descriptor"
  | xz => "Invalid XZ header"

end Method

end LinkCheck
