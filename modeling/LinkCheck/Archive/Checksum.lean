/-!
# Checksums

An archive keeps for each entry the remainder of its bytes, read as a polynomial over two elements, so
that changed bytes are noticed. The lowest bit of each byte comes first, and the first and the last
remainder are taken with all bits flipped.

## Main definitions

- `checksum` — the remainder of some bytes
-/

namespace LinkCheck

namespace Checksum

/-- Divides by one power: the lowest bit tells whether the divisor is taken off. -/
def shift (remainder : UInt32) : UInt32 :=
  if remainder &&& 1 = 1 then (remainder >>> 1) ^^^ 0xEDB88320 else remainder >>> 1

/-- The remainder after one more byte. -/
def feed (remainder : UInt32) (byte : UInt8) : UInt32 :=
  Nat.repeat shift 8 (remainder ^^^ byte.toUInt32)

end Checksum

/-- The remainder of some bytes. -/
def checksum (bytes : List UInt8) : UInt32 :=
  bytes.foldl Checksum.feed 0xFFFFFFFF ^^^ 0xFFFFFFFF

end LinkCheck
