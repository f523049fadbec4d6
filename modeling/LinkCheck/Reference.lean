import LinkCheck.ClassName

/-!
# Symbolic references

Method bodies name classes, methods and fields that have to be found when the code is linked.

## Main definitions

- `MemberRef` — a field or method by owner, name and descriptor
- `Invocation`, `FieldInstruction`, `TypeUsage` — the kinds of instruction that refer to a member or
  a type
- `Reference` — one reference made from a method body
-/

namespace LinkCheck

/-- A field or method by the class it is looked up in, its name and its descriptor. -/
structure MemberRef where
  owner : ClassName
  name : String
  descriptor : String
deriving DecidableEq, Inhabited, Repr

namespace MemberRef

/-- The form shown in messages: `owner.name` with a method's descriptor right behind it and a
field's after a colon. -/
def describe (member : MemberRef) : String :=
  let qualified := member.owner.dotted ++ "." ++ member.name
  if member.descriptor.toList.head? = some '(' then qualified ++ member.descriptor
  else qualified ++ " : " ++ member.descriptor

/-- References are ordered by owner, then name, then descriptor. -/
instance : Ord MemberRef where
  compare first second :=
    (compare first.owner second.owner).then
      ((compare first.name second.name).then (compare first.descriptor second.descriptor))

end MemberRef

/-- The ways to call a method. -/
inductive Invocation where
  | virtual
  | special
  | static
  | interface
deriving DecidableEq, Inhabited, Repr

namespace Invocation

/-- The word for a way to call. -/
def describe : Invocation → String
  | virtual => "virtual"
  | special => "special"
  | static => "static"
  | interface => "interface"

/-- The mnemonic of the instruction. -/
def mnemonic (invocation : Invocation) : String :=
  "invoke" ++ invocation.describe

end Invocation

/-- The ways to read or write a field. -/
inductive FieldInstruction where
  | getStatic
  | putStatic
  | getField
  | putField
deriving DecidableEq, Inhabited, Repr

namespace FieldInstruction

/-- The mnemonic of the instruction. -/
def mnemonic : FieldInstruction → String
  | getStatic => "getstatic"
  | putStatic => "putstatic"
  | getField => "getfield"
  | putField => "putfield"

/-- Whether the instruction is for fields of a class. -/
def isStatic : FieldInstruction → Bool
  | getStatic | putStatic => true
  | getField | putField => false

/-- Whether the instruction writes. -/
def isPut : FieldInstruction → Bool
  | putStatic | putField => true
  | getStatic | getField => false

end FieldInstruction

/-- What a method body uses a type for. -/
inductive TypeUsage where
  | instantiation
  | cast
  | typeTest
  | newArray
  | multiNewArray
  | classLiteral
  | handler
  | localVariable
deriving DecidableEq, Inhabited, Repr

namespace TypeUsage

/-- Whether the use resolves a class constant when it is linked. The types of local variables are
mere debugging data. -/
def resolvesConstant : TypeUsage → Bool
  | localVariable => false
  | _ => true

end TypeUsage

/-- One reference made from a method body. -/
inductive Reference where
  | type (name : ClassName) (usage : TypeUsage)
  /-- `interfaceConstant` tells whether the constant names a method of an interface. -/
  | method (member : MemberRef) (invocation : Invocation) (interfaceConstant : Bool)
  | field (member : MemberRef) (instruction : FieldInstruction)
deriving DecidableEq, Inhabited, Repr

end LinkCheck
