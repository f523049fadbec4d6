import LinkCheck.ClassFile
import LinkCheck.ClassFile.ByteReader
import LinkCheck.ClassFile.Utf8Text

/-!
# The layout of class files

## Main definitions

- `ClassFile.read` — the class file that some bytes hold
- `ClassFile.constantReader`, `ClassFile.poolReader` — the constant pool
- `CodeBody`, `BootstrapMethod` — what the attributes with code and with bootstrap methods hold
- `ClassFile.codeReader`, `ClassFile.bootstrapReader`, `ClassFile.localTypeReader` — the layout of
  attributes
-/

namespace LinkCheck

namespace ClassFile

open ByteReader

/-- Reads a Utf8 constant: the number of its bytes, and then bytes that spell a text. -/
def utf8Reader : ByteReader Constant := do
  let length ← u2
  let bytes ← take length.toNat
  match Utf8Text.decode? bytes with
  | some text => return .utf8 text
  | none => fail .verify

/-- Reads a constant: its tag and then what the tag asks for. -/
def constantReader : ByteReader Constant := do
  match ← u1 with
  | 1 => utf8Reader
  | 3 => return .integer (← u4)
  | 4 => return .float (← u4)
  | 5 => return .long (← u8)
  | 6 => return .double (← u8)
  | 7 => return .classInfo (← u2)
  | 8 => return .string (← u2)
  | 9 => return .fieldRef (← u2) (← u2)
  | 10 => return .methodRef (← u2) (← u2)
  | 11 => return .interfaceMethodRef (← u2) (← u2)
  | 12 => return .nameAndType (← u2) (← u2)
  | 15 => return .methodHandle (← u1) (← u2)
  | 16 => return .methodType (← u2)
  | 17 => return .dynamic (← u2) (← u2)
  | 18 => return .invokeDynamic (← u2) (← u2)
  | 19 => return .module (← u2)
  | 20 => return .package (← u2)
  | _ => fail .tag

/-- Reads constants until they take at least the given number of slots. An eight-byte number in the
last slot brings one slot more. -/
def constantsReader : Nat → ByteReader (List Constant)
  | 0 => return []
  | 1 => return (← constantReader).slots
  | slots + 2 => do
    let constant ← constantReader
    match constant.slots with
    | [_] => return constant :: (← constantsReader (slots + 1))
    | taken => return taken ++ (← constantsReader slots)

/-- Reads the constant pool. The count in front of it is one more than the number of slots. -/
def poolReader : ByteReader (List Constant) := do
  let count ← u2
  if count = 0 then fail .verify else constantsReader (count.toNat - 1)

/-- Reads an attribute: its name, the number of its bytes, and these bytes. -/
def attributeReader : ByteReader Attribute := do
  let nameIndex ← u2
  let length ← u4
  let info ← take length.toNat
  return { nameIndex, info }

/-- Reads a field or method. -/
def memberReader : ByteReader MemberInfo := do
  let bits ← u2
  let nameIndex ← u2
  let descriptorIndex ← u2
  let attributes ← table attributeReader
  return { flags := ⟨bits⟩, nameIndex, descriptorIndex, attributes }

/-- The four bytes at the start of every class file. -/
def magic : List UInt8 := [0xCA, 0xFE, 0xBA, 0xBE]

/-- Reads the magic number. -/
def magicReader : ByteReader Unit := fun bytes =>
  if bytes.take 4 = magic then .ok ((), bytes.drop 4) else fail .tag bytes

/-- Reads a class file up to the end of the bytes. -/
def reader : ByteReader ClassFile := do
  magicReader
  let minorVersion ← u2
  let majorVersion ← u2
  let constants ← poolReader
  let bits ← u2
  let thisClass ← u2
  let superClass ← u2
  let interfaces ← table u2
  let fields ← table memberReader
  let methods ← table memberReader
  let attributes ← table attributeReader
  finish
  return {
    minorVersion, majorVersion, constants, flags := ⟨bits⟩, thisClass, superClass, interfaces,
    fields, methods, attributes }

/-- The class file that the bytes hold. -/
def read (bytes : List UInt8) : Except ReadError ClassFile :=
  reader.runOn bytes

end ClassFile

/-- What the code of a method consists of. -/
structure CodeBody where
  bytes : List UInt8
  /-- The class each exception handler catches, zero for all. -/
  catchTypes : List UInt16
  attributes : List Attribute
deriving DecidableEq, Inhabited, Repr

/-- A method that links a dynamic call, with its static arguments. -/
structure BootstrapMethod where
  handle : UInt16
  arguments : List UInt16
deriving DecidableEq, Inhabited, Repr

namespace ClassFile

open ByteReader

/-- Reads an exception handler. -/
def handlerReader : ByteReader UInt16 := do
  let _start ← u2
  let _stop ← u2
  let _handler ← u2
  u2

/-- Reads the code of a method. Bytes behind its attributes are left alone. -/
def codeReader : ByteReader CodeBody := do
  let _maxStack ← u2
  let _maxLocals ← u2
  let length ← u4
  let bytes ← take length.toNat
  let catchTypes ← table handlerReader
  let attributes ← table attributeReader
  return { bytes, catchTypes, attributes }

/-- Reads a bootstrap method. -/
def bootstrapMethodReader : ByteReader BootstrapMethod := do
  let handle ← u2
  let arguments ← table u2
  return { handle, arguments }

/-- Reads the bootstrap methods of a class. -/
def bootstrapReader : ByteReader (List BootstrapMethod) :=
  table bootstrapMethodReader

/-- Reads the index of a local variable's descriptor. -/
def localVariableReader : ByteReader UInt16 := do
  let _start ← u2
  let _length ← u2
  let _name ← u2
  let descriptor ← u2
  let _slot ← u2
  return descriptor

/-- Reads the descriptors of a method's local variables. -/
def localTypeReader : ByteReader (List UInt16) :=
  table localVariableReader

end ClassFile

end LinkCheck
