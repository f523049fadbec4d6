import LinkCheck.ClassFile.Utf8Text

/-!
# Names of archive entries

The name of an entry is a row of bytes. A flag tells whether it is spelled in UTF-8. If not, each byte
stands for a character of code page 437.

## Main definitions

- `EntryName.ofUtf8` — the text of UTF-8 bytes, with a replacement character where they are damaged
- `EntryName.ofUtf8?` — the text of UTF-8 bytes that are not damaged
- `EntryName.ofCodePage` — the text of bytes in code page 437
-/

namespace LinkCheck.EntryName

/-- Reads a character in UTF-8. -/
def character? (bytes : List UInt8) : Option (Char × List UInt8) := do
  let (unit, rest) ← Utf8Text.unit? bytes
  guard unit.isShortest
  let c ← Utf8Text.char? unit.value
  return (c, rest)

/-- How many bytes a character with this leading byte has, and what its second byte may be. -/
def shape (lead : UInt8) : Nat × UInt8 × UInt8 :=
  if lead < 0xC2 then (1, 0, 0)
  else if lead < 0xE0 then (2, 0x80, 0xBF)
  else if lead = 0xE0 then (3, 0xA0, 0xBF)
  else if lead = 0xED then (3, 0x80, 0x9F)
  else if lead < 0xF0 then (3, 0x80, 0xBF)
  else if lead = 0xF0 then (4, 0x90, 0xBF)
  else if lead < 0xF4 then (4, 0x80, 0xBF)
  else if lead = 0xF4 then (4, 0x80, 0x8F)
  else (1, 0, 0)

/-- How many of the first bytes, at least one, could be the start of a character but are none. -/
def damagedLength : List UInt8 → Nat
  | [] => 1
  | [_] => 1
  | lead :: second :: rest =>
    let (width, least, most) := shape lead
    if width ≤ 2 || second < least || most < second then 1
    else 2 + ((rest.take (width - 3)).takeWhile fun byte => 0x80 ≤ byte && byte < 0xC0).length

/-- The characters of some bytes, read in at most `limit` steps. -/
def characters : Nat → List UInt8 → List Char
  | _, [] => []
  | 0, _ :: _ => []
  | limit + 1, bytes@(_ :: _) =>
    match character? bytes with
    | some (c, rest) => c :: characters limit rest
    | none => '\uFFFD' :: characters limit (bytes.drop (damagedLength bytes))

/-- The text of some bytes in UTF-8. A character that is broken off is read as one replacement
character. -/
def ofUtf8 (bytes : List UInt8) : String :=
  String.ofList (characters bytes.length bytes)

/-- The text of some bytes if they are UTF-8 throughout. -/
def ofUtf8? (bytes : List UInt8) : Option String :=
  Utf8Text.decodeWith? character? bytes

/-- The characters of code page 437 beyond ASCII. -/
def codePage : String :=
  "ÇüéâäàåçêëèïîìÄÅÉæÆôöòûùÿÖÜ¢£¥₧ƒ" ++
  "áíóúñÑªº¿⌐¬½¼¡«»░▒▓│┤╡╢╖╕╣║╗╝╜╛┐" ++
  "└┴┬├─┼╞╟╚╔╩╦╠═╬╧╨╤╥╙╘╒╓╫╪┘┌█▄▌▐▀" ++
  "αßΓπΣσµτΦΘΩδ∞φε∩≡±≥≤⌠⌡÷≈°∙·√ⁿ²■\u00a0"

/-- The text of some bytes in code page 437. -/
def ofCodePage (bytes : List UInt8) : String :=
  String.ofList <| bytes.map fun byte =>
    if byte < 0x80 then Char.ofNat byte.toNat else (codePage.toList[byte.toNat - 0x80]?).getD ' '

end LinkCheck.EntryName
