import LinkCheck.AccessFlags
import LinkCheck.ReadError
import LinkCheck.Reference

/-!
# Class files

The parts of a class file as they are laid out. Names and types are indices into the constant pool.

## Main definitions

- `Constant` — one slot of the constant pool
- `Attribute`, `MemberInfo`, `ClassFile` — the parts of a class file
- `ClassFile.constant?` — the constant at an index
- `ClassFile.utf8`, `ClassFile.classNameText`, `ClassFile.memberRef` — what constants stand for
-/

namespace LinkCheck

/-- One slot of the constant pool. Numbers are kept as bit patterns. -/
inductive Constant where
  | utf8 (text : String)
  | integer (bits : UInt32)
  | float (bits : UInt32)
  | long (bits : UInt64)
  | double (bits : UInt64)
  | classInfo (nameIndex : UInt16)
  | string (textIndex : UInt16)
  | fieldRef (classIndex nameAndTypeIndex : UInt16)
  | methodRef (classIndex nameAndTypeIndex : UInt16)
  | interfaceMethodRef (classIndex nameAndTypeIndex : UInt16)
  | nameAndType (nameIndex descriptorIndex : UInt16)
  | methodHandle (kind : UInt8) (memberIndex : UInt16)
  | methodType (descriptorIndex : UInt16)
  | dynamic (bootstrapIndex nameAndTypeIndex : UInt16)
  | invokeDynamic (bootstrapIndex nameAndTypeIndex : UInt16)
  | module (nameIndex : UInt16)
  | package (nameIndex : UInt16)
  /-- The slot after a long or double, which holds nothing. -/
  | secondSlot
deriving DecidableEq, Inhabited, Repr

/-- The slots that a constant takes: eight-byte numbers take two. -/
def Constant.slots : Constant → List Constant
  | constant@(long _) | constant@(double _) => [constant, secondSlot]
  | constant => [constant]

/-- A named piece of further data. -/
structure Attribute where
  nameIndex : UInt16
  info : List UInt8
deriving DecidableEq, Inhabited, Repr

/-- A field or method. -/
structure MemberInfo where
  flags : AccessFlags
  nameIndex : UInt16
  descriptorIndex : UInt16
  attributes : List Attribute
deriving DecidableEq, Inhabited, Repr

/-- A class file as it is laid out. -/
structure ClassFile where
  minorVersion : UInt16
  majorVersion : UInt16
  /-- The slots of the constant pool, of which the first has index one. -/
  constants : List Constant
  flags : AccessFlags
  thisClass : UInt16
  /-- Zero where there is no superclass. -/
  superClass : UInt16
  interfaces : List UInt16
  fields : List MemberInfo
  methods : List MemberInfo
  attributes : List Attribute
deriving DecidableEq, Inhabited, Repr

namespace ClassFile

/-- The constant at an index. There is none at index zero. -/
def constant? (file : ClassFile) (index : UInt16) : Option Constant :=
  if index = 0 then none else file.constants[index.toNat - 1]?

/-- The text at an index. -/
def utf8 (file : ClassFile) (index : UInt16) : Except ReadError String :=
  match file.constant? index with
  | some (.utf8 text) => .ok text
  | _ => .error (.constantPool index .utf8)

/-- The name, as written, of the class at an index. -/
def classNameText (file : ClassFile) (index : UInt16) : Except ReadError String :=
  match file.constant? index with
  | some (.classInfo nameIndex) => file.utf8 nameIndex
  | _ => .error (.constantPool index .classInfo)

/-- The class at an index. -/
def className (file : ClassFile) (index : UInt16) : Except ReadError ClassName :=
  return .ofText (← file.classNameText index)

/-- The name and the descriptor at an index. -/
def nameAndType (file : ClassFile) (index : UInt16) : Except ReadError (String × String) :=
  match file.constant? index with
  | some (.nameAndType nameIndex descriptorIndex) => do
    let name ← file.utf8 nameIndex
    let descriptor ← file.utf8 descriptorIndex
    return (name, descriptor)
  | _ => .error (.constantPool index .nameAndType)

/-- The member at an index, and whether the constant says that it belongs to an interface. -/
def memberRef (file : ClassFile) (index : UInt16) : Except ReadError (MemberRef × Bool) :=
  match file.constant? index with
  | some (.fieldRef classIndex typeIndex) => ofParts classIndex typeIndex false
  | some (.methodRef classIndex typeIndex) => ofParts classIndex typeIndex false
  | some (.interfaceMethodRef classIndex typeIndex) => ofParts classIndex typeIndex true
  | _ => .error (.constantPool index .member)
where
  ofParts (classIndex typeIndex : UInt16) (ofInterface : Bool) :
      Except ReadError (MemberRef × Bool) := do
    let (name, descriptor) ← file.nameAndType typeIndex
    let owner ← file.className classIndex
    return ({ owner, name, descriptor }, ofInterface)

/-- The name of an attribute. -/
def attributeName (file : ClassFile) (attr : Attribute) : Except ReadError String :=
  file.utf8 attr.nameIndex

end ClassFile

end LinkCheck
