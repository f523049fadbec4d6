/-!
# The text of Utf8 constants

Text in a class file is spelled in modified UTF-8: the character U+0000 takes the two bytes `C0 80`,
and characters beyond U+FFFF are two surrogates of three bytes each. Plain UTF-8 is accepted as well,
as long as it has no U+0000.

## Main definitions

- `Utf8Text.unit?` — one encoded number from the front of the bytes
- `Utf8Text.plainChar?`, `Utf8Text.modifiedChar?` — one character in either spelling
- `Utf8Text.decode?` — the text of some bytes
-/

namespace LinkCheck.Utf8Text

/-- A number encoded in one to four bytes, with the count of these bytes. -/
structure Unit where
  value : Nat
  width : Nat
deriving DecidableEq, Repr

/-- The six bits that a continuation byte carries. -/
def continuation? (byte : UInt8) : Option Nat :=
  if 0x80 ≤ byte ∧ byte < 0xC0 then some (byte.toNat - 0x80) else none

/-- Adds the bits of the next `count` continuation bytes to a number. -/
def continue? : Nat → Nat → List UInt8 → Option (Nat × List UInt8)
  | 0, value, bytes => some (value, bytes)
  | _ + 1, _, [] => none
  | count + 1, value, byte :: bytes => do
    let bits ← continuation? byte
    continue? count (64 * value + bits) bytes

/-- The number encoded at the front of the bytes, and the rest. The leading byte tells the width. -/
def unit? : List UInt8 → Option (Unit × List UInt8)
  | [] => none
  | lead :: bytes =>
    if lead < 0x80 then some (⟨lead.toNat, 1⟩, bytes)
    else if lead < 0xC0 then none
    else if lead < 0xE0 then wide 2 (lead.toNat - 0xC0) bytes
    else if lead < 0xF0 then wide 3 (lead.toNat - 0xE0) bytes
    else if lead < 0xF8 then wide 4 (lead.toNat - 0xF0) bytes
    else none
where
  wide (width value : Nat) (bytes : List UInt8) : Option (Unit × List UInt8) :=
    (continue? (width - 1) value bytes).map fun (value, rest) => (⟨value, width⟩, rest)

/-- The least number that needs a given width. -/
def leastOfWidth : Nat → Nat
  | 2 => 0x80
  | 3 => 0x800
  | 4 => 0x10000
  | _ => 0

/-- Whether a number is encoded in no more bytes than it needs. -/
def Unit.isShortest (unit : Unit) : Bool :=
  leastOfWidth unit.width ≤ unit.value

/-- The character with a code point, unless that is a surrogate or out of range. -/
def char? (value : Nat) : Option Char :=
  if h : value.isValidChar then some (Char.ofNatAux value h) else none

/-- Reads a character other than U+0000 in UTF-8. -/
def plainChar? (bytes : List UInt8) : Option (Char × List UInt8) := do
  let (unit, rest) ← unit? bytes
  guard (unit.isShortest && unit.value ≠ 0)
  let c ← char? unit.value
  return (c, rest)

/-- Whether a number is the first half of a surrogate pair. -/
def isHighSurrogate (value : Nat) : Bool :=
  0xD800 ≤ value && value < 0xDC00

/-- Whether a number is the second half of a surrogate pair. -/
def isLowSurrogate (value : Nat) : Bool :=
  0xDC00 ≤ value && value < 0xE000

/-- The code point that a surrogate pair stands for. -/
def ofSurrogates (high low : Nat) : Nat :=
  0x10000 + (high - 0xD800) * 0x400 + (low - 0xDC00)

/-- Whether a number of at most three bytes may stand in modified UTF-8: zero takes two bytes, and all
others the fewest. -/
def Unit.isModified (unit : Unit) : Bool :=
  if unit.value = 0 then unit.width = 2 else unit.isShortest && unit.width ≤ 3

/-- Reads a character in modified UTF-8. -/
def modifiedChar? (bytes : List UInt8) : Option (Char × List UInt8) := do
  let (unit, rest) ← unit? bytes
  guard unit.isModified
  if isHighSurrogate unit.value then
    let (second, rest) ← unit? rest
    guard (second.width = 3 && isLowSurrogate second.value)
    let c ← char? (ofSurrogates unit.value second.value)
    return (c, rest)
  else
    let c ← char? unit.value
    return (c, rest)

/-- Reads all bytes with `step`, in at most `limit` steps. -/
def chars? (step : List UInt8 → Option (Char × List UInt8)) : Nat → List UInt8 → Option (List Char)
  | _, [] => some []
  | 0, _ :: _ => none
  | limit + 1, bytes@(_ :: _) => do
    let (c, rest) ← step bytes
    let others ← chars? step limit rest
    return c :: others

/-- The text that `step` reads from all the bytes. Each character takes at least one byte, so the
number of bytes bounds the number of steps. -/
def decodeWith? (step : List UInt8 → Option (Char × List UInt8)) (bytes : List UInt8) :
    Option String :=
  (chars? step bytes.length bytes).map String.ofList

/-- The text of some bytes, read as UTF-8 without U+0000 or else as modified UTF-8 throughout. -/
def decode? (bytes : List UInt8) : Option String :=
  decodeWith? plainChar? bytes <|> decodeWith? modifiedChar? bytes

end LinkCheck.Utf8Text
