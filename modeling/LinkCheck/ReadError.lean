import LinkCheck.Archive.Fault
import LinkCheck.ClassName

/-!
# Why a class cannot be read

Every way in which reading a class can fail is a constructor, and the wording stands in one function.

## Main definitions

- `LayoutFault` — what is wrong with the bytes of a class file or attribute
- `ConstantKind` — what a constant was expected to be
- `BytecodeFault` — what is wrong with the instructions of a method
- `StorageFault` — why a file or archive gives no bytes
- `ReadError`, `ReadError.message` — why a class cannot be read
-/

namespace LinkCheck

/-- What is wrong with the bytes of a class file or attribute. -/
inductive LayoutFault where
  /-- The magic number or the tag of a constant is not a known one. -/
  | tag
  /-- A value is there but not allowed. -/
  | verify
  /-- The bytes end too early or too late. -/
  | eof
deriving DecidableEq, Inhabited, Repr

/-- The word for a fault. -/
def LayoutFault.describe : LayoutFault → String
  | tag => "Tag"
  | verify => "Verify"
  | eof => "Eof"

/-- What the constant at an index was expected to be. -/
inductive ConstantKind where
  | utf8
  | classInfo
  | nameAndType
  | member
  | loadable
  | invokeDynamic
deriving DecidableEq, Inhabited, Repr

/-- The words for an expected constant. -/
def ConstantKind.describe : ConstantKind → String
  | utf8 => "Utf8"
  | classInfo => "Class"
  | nameAndType => "NameAndType"
  | member => "Fieldref or Methodref"
  | loadable => "loadable constant"
  | invokeDynamic => "InvokeDynamic"

/-- What is wrong with the instructions of a method. Positions count bytes from the start of the
code. -/
inductive BytecodeFault where
  | unknownOpcode (opcode : UInt8) (position : Nat)
  | truncatedSwitch (position : Nat)
  | descendingTable (position : Nat)
  | negativePairCount (position : Nat)
  | bareWide (position : Nat)
  | overrun (position : Nat)
  | missingBootstrap
deriving DecidableEq, Inhabited, Repr

/-- A byte as two hexadecimal digits. -/
def hexByte (byte : UInt8) : String :=
  String.ofList [Nat.digitChar (byte.toNat / 16), Nat.digitChar (byte.toNat % 16)]

/-- The text of a bytecode fault. -/
def BytecodeFault.message : BytecodeFault → String
  | unknownOpcode opcode position => s!"unknown opcode 0x{hexByte opcode} at {position}"
  | truncatedSwitch position => s!"switch table truncated at {position}"
  | descendingTable position => s!"tableswitch at {position} has high < low"
  | negativePairCount position => s!"lookupswitch at {position} has negative size"
  | bareWide position => s!"wide at {position} has no operand"
  | overrun position => s!"instruction at {position} runs past the end of code"
  | missingBootstrap => "invokedynamic without bootstrap method"

/-- Why a file or archive gives no bytes. -/
inductive StorageFault where
  | noSuchFile
  | notADirectory
  | isADirectory
  /-- A path or a name in it has too many bytes. -/
  | nameTooLong
  /-- A path has the character U+0000 in it. -/
  | nulInPath
  /-- There is a file, but something is wrong with the archive that it should be. -/
  | archive (fault : ArchiveFault)
deriving DecidableEq, Inhabited, Repr

/-- The text of a storage fault. -/
def StorageFault.message : StorageFault → String
  | noSuchFile => "No such file or directory (os error 2)"
  | notADirectory => "Not a directory (os error 20)"
  | isADirectory => "Is a directory (os error 21)"
  | nameTooLong => "File name too long (os error 36)"
  | nulInPath => "file name contained an unexpected NUL byte"
  | archive fault => fault.message

/-- Why a class that is there cannot be read. -/
inductive ReadError where
  /-- The bytes do not follow the layout. The offset counts from the start of the class file or of
  the attribute that was being read. -/
  | malformed (fault : LayoutFault) (offset : Nat)
  /-- The bytes end where a value should start. -/
  | truncated
  /-- The constant at an index is missing or of another kind. -/
  | constantPool (index : UInt16) (expected : ConstantKind)
  | descriptor (text : String)
  | bytecode (method : String) (fault : BytecodeFault)
  /-- The class file holds another class than the one its place promises. -/
  | nameMismatch (expected found : ClassName)
  | storage (fault : StorageFault)
deriving DecidableEq, Inhabited, Repr

/-- The text of a reading error. -/
def ReadError.message : ReadError → String
  | malformed fault offset => s!"malformed class file: {fault.describe} at offset {offset}"
  | truncated => "class file is truncated"
  | constantPool index expected =>
    s!"invalid constant pool reference #{index.toNat}: expected {expected.describe}"
  | descriptor text => s!"invalid descriptor `{text}`"
  | bytecode method fault => s!"malformed bytecode in {method}: {fault.message}"
  | nameMismatch expected found =>
    s!"class file declares {found.dotted} but was looked up as {expected.dotted}"
  | storage fault => s!"cannot read class bytes: {fault.message}"

end LinkCheck
