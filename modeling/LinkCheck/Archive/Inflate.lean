/-!
# Decompression

Compressed data are a row of bits, the lowest bit of each byte first, in blocks. A block holds bytes as
they are, or codes for bytes and for copies of what came before. Codes with the same number of bits
follow each other in the order of what they stand for, so that these numbers tell the whole code. A
block uses a fixed code or tells its own.

## Main definitions

- `Inflate.Code`, `Inflate.Code.next` — codes, and reading what the next one stands for
- `Inflate.Token`, `Inflate.token` — what a compressed block is made of
- `inflate?` — the bytes that are compressed in others

## Design notes

Data that end too early give the bytes up to there: the checksum tells whether something is missing.
Only data that cannot be the start of anything are refused.
-/

namespace LinkCheck

namespace Inflate

/-- Why reading stops. -/
inductive Stop where
  /-- There are no more bits. -/
  | ended
  /-- No data go on like this. -/
  | corrupt
deriving DecidableEq, Repr

/-- The bits of some bytes. -/
def bitsOf (bytes : List UInt8) : List Bool :=
  bytes.flatMap fun byte => (List.range 8).map byte.toNat.testBit

/-- The number in the next `width` bits, the lowest one first. -/
def number : Nat → List Bool → Except Stop (Nat × List Bool)
  | 0, bits => .ok (0, bits)
  | _ + 1, [] => .error .ended
  | width + 1, bit :: bits => do
    let (value, rest) ← number width bits
    return (bit.toNat + 2 * value, rest)

/-- A code for symbols, which are numbers. -/
structure Code where
  /-- How many symbols have a code of one bit, of two bits, and so on. -/
  counts : List Nat
  /-- The symbols in the order of their codes. -/
  symbols : List Nat
deriving Repr

namespace Code

/-- How many codes are free once as many have been given as the counts tell, or `none` if there are not
so many. -/
def free? (counts : List Nat) : Option Nat :=
  counts.foldlM (fun free count => if count ≤ 2 * free then some (2 * free - count) else none) 1

/-- The code in which each symbol has as many bits as the list tells at its place, or none if that is
zero. Every row of bits must have a meaning, unless there is at most one symbol, of one bit, and
`mayBeSparse` is set. -/
def ofLengths (mayBeSparse : Bool) (lengths : List Nat) : Except Stop Code :=
  let longest := lengths.foldl max 0
  let widths := (List.range (max 1 longest)).map (· + 1)
  let counts := widths.map lengths.count
  let symbols := widths.flatMap fun width =>
    lengths.zipIdx.filterMap fun (length, symbol) => if length = width then some symbol else none
  match free? counts with
  | none => .error .corrupt
  | some free =>
    if free = 0 || longest = 0 || (longest = 1 && mayBeSparse) then .ok { counts, symbols }
    else .error .corrupt

/-- Reads a code bit by bit. The value tells how many codes of the present width come before it among
those that are left. -/
def walk : List Nat → List Nat → Nat → List Bool → Except Stop (Nat × List Bool)
  | [], _, _, _ => .error .corrupt
  | _ :: _, _, _, [] => .error .ended
  | count :: counts, symbols, value, bit :: bits =>
    let next := 2 * value + bit.toNat
    match (symbols.take count)[next]? with
    | some symbol => .ok (symbol, bits)
    | none => walk counts (symbols.drop count) (next - count) bits

/-- The symbol that the next code stands for. -/
def next (code : Code) (bits : List Bool) : Except Stop (Nat × List Bool) :=
  walk code.counts code.symbols 0 bits

/-- The fixed code for bytes, ends and lengths. -/
def fixed : Except Stop Code :=
  ofLengths true (.replicate 144 8 ++ .replicate 112 9 ++ .replicate 24 7 ++ .replicate 8 8)

/-- The fixed code for distances. -/
def fixedDistances : Except Stop Code :=
  ofLengths true (.replicate 32 5)

end Code

/-- For the symbols from 257 on, the least length and how many bits tell how much is added. -/
def lengthTable : List (Nat × Nat) :=
  [(3, 0), (4, 0), (5, 0), (6, 0), (7, 0), (8, 0), (9, 0), (10, 0), (11, 1), (13, 1), (15, 1), (17, 1),
    (19, 2), (23, 2), (27, 2), (31, 2), (35, 3), (43, 3), (51, 3), (59, 3), (67, 4), (83, 4), (99, 4),
    (115, 4), (131, 5), (163, 5), (195, 5), (227, 5), (258, 0)]

/-- For each symbol, the least distance and how many bits tell how much is added. -/
def distanceTable : List (Nat × Nat) :=
  [(1, 0), (2, 0), (3, 0), (4, 0), (5, 1), (7, 1), (9, 2), (13, 2), (17, 3), (25, 3), (33, 4), (49, 4),
    (65, 5), (97, 5), (129, 6), (193, 6), (257, 7), (385, 7), (513, 8), (769, 8), (1025, 9), (1537, 9),
    (2049, 10), (3073, 10), (4097, 11), (6145, 11), (8193, 12), (12289, 12), (16385, 13), (24577, 13)]

/-- The number that a symbol stands for by a table. -/
def scaled (table : List (Nat × Nat)) (symbol : Nat) (bits : List Bool) :
    Except Stop (Nat × List Bool) :=
  match table[symbol]? with
  | none => .error .corrupt
  | some (least, width) => do
    let (more, rest) ← number width bits
    return (least + more, rest)

/-- What a compressed block is made of. -/
inductive Token where
  | byte (value : UInt8)
  /-- As many bytes again as the length tells, from the distance back. -/
  | copy (length distance : Nat)
  /-- The end of the block. -/
  | done
deriving DecidableEq, Repr

/-- Reads what comes next in a block. -/
def token (literals distances : Code) (bits : List Bool) : Except Stop (Token × List Bool) := do
  let (symbol, bits) ← literals.next bits
  if symbol < 256 then return (.byte (.ofNat symbol), bits)
  else if symbol = 256 then return (.done, bits)
  else
    let (length, bits) ← scaled lengthTable (symbol - 257) bits
    let (far, bits) ← distances.next bits
    let (distance, bits) ← scaled distanceTable far bits
    return (.copy length distance, bits)

/-- Adds bytes that are already there once more, each from the distance back. -/
def copyBack (distance : Nat) : Nat → Array UInt8 → Array UInt8
  | 0, out => out
  | length + 1, out =>
    copyBack distance length (out.push ((out[out.size - distance]?).getD 0))

/-- Reads a compressed block, in at most `limit` steps. -/
def compressed (literals distances : Code) :
    Nat → Array UInt8 → List Bool → Array UInt8 × Except Stop (List Bool)
  | 0, out, _ => (out, .error .ended)
  | limit + 1, out, bits =>
    match token literals distances bits with
    | .error stop => (out, .error stop)
    | .ok (.done, rest) => (out, .ok rest)
    | .ok (.byte value, rest) => compressed literals distances limit (out.push value) rest
    | .ok (.copy length distance, rest) =>
      if out.size < distance then (out, .error .corrupt)
      else compressed literals distances limit (copyBack distance length out) rest

/-- Reads a number of bytes as they are. -/
def plainBytes : Nat → Array UInt8 → List Bool → Array UInt8 × Except Stop (List Bool)
  | 0, out, bits => (out, .ok bits)
  | count + 1, out, bits =>
    match number 8 bits with
    | .error stop => (out, .error stop)
    | .ok (value, rest) => plainBytes count (out.push (.ofNat value)) rest

/-- Reads a block of bytes as they are. It starts with the next whole byte, and tells its length twice,
the second time with all bits flipped. -/
def plain (out : Array UInt8) (bits : List Bool) : Array UInt8 × Except Stop (List Bool) :=
  match number 32 (bits.drop (bits.length % 8)) with
  | .error stop => (out, .error stop)
  | .ok (head, rest) =>
    if head % 0x10000 + head / 0x10000 = 0xFFFF then plainBytes (head % 0x10000) out rest
    else (out, .error .corrupt)

/-- The order in which a block tells the widths of the code that its other codes are told in. -/
def widthOrder : List Nat :=
  [16, 17, 18, 0, 8, 7, 9, 6, 10, 5, 11, 4, 12, 3, 13, 2, 14, 1, 15]

/-- Reads a number of widths of three bits each. -/
def shortWidths : Nat → List Bool → Except Stop (List Nat × List Bool)
  | 0, bits => .ok ([], bits)
  | count + 1, bits => do
    let (width, rest) ← number 3 bits
    let (widths, rest) ← shortWidths count rest
    return (width :: widths, rest)

/-- Reads the widths that come next: one, or the same one several times. -/
def widthRun (code : Code) (last : Option Nat) (bits : List Bool) :
    Except Stop (List Nat × List Bool) := do
  let (symbol, bits) ← code.next bits
  match symbol with
  | 16 =>
    let (more, bits) ← number 2 bits
    match last with
    | none => throw .corrupt
    | some width => return (.replicate (3 + more) width, bits)
  | 17 =>
    let (more, bits) ← number 3 bits
    return (.replicate (3 + more) 0, bits)
  | 18 =>
    let (more, bits) ← number 7 bits
    return (.replicate (11 + more) 0, bits)
  | width => return ([width], bits)

/-- Reads a number of widths, in at most `limit` steps, behind those that are already known. -/
def widths (code : Code) (count : Nat) :
    Nat → List Nat → List Bool → Except Stop (List Nat × List Bool)
  | 0, known, bits => .ok (known, bits)
  | limit + 1, known, bits =>
    if known.length = count then .ok (known, bits)
    else
      match widthRun code known.getLast? bits with
      | .error stop => .error stop
      | .ok (run, rest) =>
        if count < known.length + run.length then .error .corrupt
        else widths code count limit (known ++ run) rest

/-- Reads the codes that a block tells. There must be a code for the end of the block. -/
def ownCodes (bits : List Bool) : Except Stop (Code × Code × List Bool) := do
  let (literalCount, bits) ← number 5 bits
  let (distanceCount, bits) ← number 5 bits
  let (widthCount, bits) ← number 4 bits
  if 286 < literalCount + 257 || 30 < distanceCount + 1 then throw .corrupt
  let (short, bits) ← shortWidths (widthCount + 4) bits
  let known := widthOrder.zip short
  let widthCode ← Code.ofLengths false ((List.range 19).map fun symbol => (known.lookup symbol).getD 0)
  let count := literalCount + 257 + (distanceCount + 1)
  let (all, bits) ← widths widthCode count count [] bits
  let (literalWidths, distanceWidths) := all.splitAt (literalCount + 257)
  if (literalWidths[256]?).getD 0 = 0 then throw .corrupt
  let literals ← Code.ofLengths true literalWidths
  let distances ← Code.ofLengths true distanceWidths
  return (literals, distances, bits)

/-- The codes of a block with fixed codes. -/
def fixedCodes (bits : List Bool) : Except Stop (Code × Code × List Bool) :=
  return (← Code.fixed, ← Code.fixedDistances, bits)

/-- Reads a compressed block once its codes are known. -/
def withCodes (out : Array UInt8) :
    Except Stop (Code × Code × List Bool) → Array UInt8 × Except Stop (List Bool)
  | .error stop => (out, .error stop)
  | .ok (literals, distances, bits) => compressed literals distances bits.length out bits

/-- Reads a block of some kind. -/
def block (kind : Nat) (out : Array UInt8) (bits : List Bool) :
    Array UInt8 × Except Stop (List Bool) :=
  match kind with
  | 0 => plain out bits
  | 1 => withCodes out (fixedCodes bits)
  | 2 => withCodes out (ownCodes bits)
  | _ => (out, .error .corrupt)

/-- Reads all blocks up to the one that is marked as the last, in at most `limit` steps. -/
def blocks : Nat → Array UInt8 → List Bool → Option (Array UInt8)
  | 0, out, _ => some out
  | limit + 1, out, bits =>
    match number 3 bits with
    | .error _ => some out
    | .ok (head, rest) =>
      match block (head / 2) out rest with
      | (_, .error .corrupt) => none
      | (found, .error .ended) => some found
      | (found, .ok rest) => if head % 2 = 1 then some found else blocks limit found rest

end Inflate

/-- The bytes that are compressed in others, as far as these go. -/
def inflate? (bytes : List UInt8) : Option (List UInt8) :=
  let bits := Inflate.bitsOf bytes
  (Inflate.blocks bits.length #[] bits).map Array.toList

end LinkCheck
