import LinkCheck.ReadError

/-!
# Reading bytes from the left

Class files and their attributes are read from the front. A reader that fails remembers how many
bytes were left, from which the offset of the fault follows once the whole length is known.

## Main definitions

- `ByteReader` — a reader of some prefix of the bytes
- `ByteReader.take`, `ByteReader.u1`, `ByteReader.u2`, `ByteReader.u4`, `ByteReader.u8` — raw bytes
  and numbers of one, two, four and eight bytes, the highest byte first
- `ByteReader.counted`, `ByteReader.table` — repetition, by a count given or read
- `ByteReader.runOn` — reading from given bytes, with faults turned into errors
-/

namespace LinkCheck

/-- A fault together with the number of bytes that were left where it was noticed. -/
structure ReadFault where
  fault : LayoutFault
  left : Nat
deriving DecidableEq, Repr

/-- The error of a fault in a slice of `total` bytes. A read that starts at the end of the slice finds
it truncated. -/
def ReadFault.toError (total : Nat) (failure : ReadFault) : ReadError :=
  if failure.fault = .eof ∧ failure.left = 0 then .truncated
  else .malformed failure.fault (total - failure.left)

/-- The number that bytes spell, the highest byte first. -/
def bigEndian (bytes : List UInt8) : Nat :=
  bytes.foldl (fun value byte => 256 * value + byte.toNat) 0

/-- Reads a value from the front of the bytes, or fails. -/
abbrev ByteReader (α : Type) := StateT (List UInt8) (Except ReadFault) α

namespace ByteReader

variable {α : Type}

/-- Fails with `fault` at the current place. -/
def fail (fault : LayoutFault) : ByteReader α := fun bytes =>
  .error ⟨fault, bytes.length⟩

/-- Reads `count` bytes. -/
def take (count : Nat) : ByteReader (List UInt8) := fun bytes =>
  let front := bytes.take count
  if front.length = count then .ok (front, bytes.drop count) else fail .eof bytes

/-- Reads a number of one byte. -/
def u1 : ByteReader UInt8 := do
  return .ofNat (bigEndian (← take 1))

/-- Reads a number of two bytes. -/
def u2 : ByteReader UInt16 := do
  return .ofNat (bigEndian (← take 2))

/-- Reads a number of four bytes. -/
def u4 : ByteReader UInt32 := do
  return .ofNat (bigEndian (← take 4))

/-- Reads a number of eight bytes. -/
def u8 : ByteReader UInt64 := do
  return .ofNat (bigEndian (← take 8))

/-- Succeeds where no bytes are left. -/
def finish : ByteReader Unit := fun bytes =>
  if bytes.isEmpty then .ok ((), []) else fail .eof bytes

/-- Reads with `reader` a number of times. -/
def counted (reader : ByteReader α) : Nat → ByteReader (List α)
  | 0 => return []
  | count + 1 => do
    let value ← reader
    let values ← counted reader count
    return value :: values

/-- Reads a count of two bytes and then as many values. -/
def table (reader : ByteReader α) : ByteReader (List α) := do
  let count ← u2
  counted reader count.toNat

/-- The value that `reader` reads from the front of `bytes`. -/
def runOn (reader : ByteReader α) (bytes : List UInt8) : Except ReadError α :=
  match reader bytes with
  | .ok (value, _) => .ok value
  | .error failure => .error (failure.toError bytes.length)

end ByteReader

end LinkCheck
