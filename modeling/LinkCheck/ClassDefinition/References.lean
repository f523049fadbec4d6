import LinkCheck.Bytecode
import LinkCheck.ClassFile.Layout
import LinkCheck.Descriptor

/-!
# The references of a method body

Some instructions name constants that have to be resolved when the code is linked. The references of
a body are those of its instructions, then the classes its handlers catch, then the types of its local
variables.

## Main definitions

- `Bytecode.Operand`, `Bytecode.Instruction.operand?` — the constant an instruction asks for
- `ClassFile.loadableReference?` — what a loadable constant refers to
- `ClassFile.codeReferences` — all that a body refers to
-/

namespace LinkCheck

namespace Bytecode

/-- The constant an instruction asks for, by its index. -/
inductive Operand where
  | type (usage : TypeUsage) (index : UInt16)
  | loadable (index : UInt16)
  | field (instruction : FieldInstruction) (index : UInt16)
  | method (invocation : Invocation) (index : UInt16)
  | dynamicCall (index : UInt16)
deriving DecidableEq, Inhabited, Repr

/-- The constant that linking an instruction resolves. -/
def Instruction.operand? (instruction : Instruction) : Option Operand :=
  let index := instruction.index
  match instruction.opcode with
  | 0x12 => some (.loadable instruction.shortIndex)
  | 0x13 => some (.loadable index)
  | 0xB2 => some (.field .getStatic index)
  | 0xB3 => some (.field .putStatic index)
  | 0xB4 => some (.field .getField index)
  | 0xB5 => some (.field .putField index)
  | 0xB6 => some (.method .virtual index)
  | 0xB7 => some (.method .special index)
  | 0xB8 => some (.method .static index)
  | 0xB9 => some (.method .interface index)
  | 0xBA => some (.dynamicCall index)
  | 0xBB => some (.type .instantiation index)
  | 0xBD => some (.type .newArray index)
  | 0xC0 => some (.type .cast index)
  | 0xC1 => some (.type .typeTest index)
  | 0xC5 => some (.type .multiNewArray index)
  | _ => none

end Bytecode

/-- The reference to a type as written: to the element class of an array, and to nothing for an array
of primitives. -/
def typeReference? (name : String) (usage : TypeUsage) : Option Reference :=
  (ClassName.ofText name).elementClass?.map (.type · usage)

/-- What a method handle of some kind refers to. -/
def handleReference? (kind : UInt8) (member : MemberRef) (ofInterface : Bool) : Option Reference :=
  match kind with
  | 1 => some (.field member .getField)
  | 2 => some (.field member .getStatic)
  | 3 => some (.field member .putField)
  | 4 => some (.field member .putStatic)
  | 5 => some (.method member .virtual ofInterface)
  | 6 => some (.method member .static ofInterface)
  | 7 => some (.method member .special ofInterface)
  | 8 => some (.method member .special ofInterface)
  | 9 => some (.method member .interface ofInterface)
  | _ => none

namespace ClassFile

open Bytecode

/-- What a constant that code can load refers to. Only classes and method handles refer to
anything. -/
def loadableReference? (file : ClassFile) (index : UInt16) :
    Except ReadError (Option Reference) :=
  match file.constant? index with
  | none => .error (.constantPool index .loadable)
  | some (.classInfo nameIndex) => do
    return typeReference? (← file.utf8 nameIndex) .classLiteral
  | some (.methodHandle kind memberIndex) => do
    let (member, ofInterface) ← file.memberRef memberIndex
    return handleReference? kind member ofInterface
  | some _ => .ok none

/-- What a dynamic call refers to: the handle of its bootstrap method and then each argument. -/
def dynamicReferences (file : ClassFile) (bootstraps : List BootstrapMethod) (method : String)
    (index : UInt16) : Except ReadError (List Reference) :=
  match file.constant? index with
  | some (.invokeDynamic bootstrapIndex _) =>
    match bootstraps[bootstrapIndex.toNat]? with
    | none => .error (.bytecode method .missingBootstrap)
    | some bootstrap => do
      let references ← (bootstrap.handle :: bootstrap.arguments).mapM file.loadableReference?
      return references.filterMap id
  | _ => .error (.constantPool index .invokeDynamic)

/-- What an instruction refers to. -/
def instructionReferences (file : ClassFile) (bootstraps : List BootstrapMethod) (method : String)
    (instruction : Instruction) : Except ReadError (List Reference) :=
  match instruction.operand? with
  | none => .ok []
  | some (.type usage index) => do
    return (typeReference? (← file.classNameText index) usage).toList
  | some (.loadable index) => do
    return (← file.loadableReference? index).toList
  | some (.field fieldInstruction index) => do
    let (member, _) ← file.memberRef index
    return [.field member fieldInstruction]
  | some (.method invocation index) => do
    let (member, ofInterface) ← file.memberRef index
    return [.method member invocation ofInterface]
  | some (.dynamicCall index) => file.dynamicReferences bootstraps method index

/-- The class that a handler catches. The index zero stands for everything. -/
def handlerReference? (file : ClassFile) (index : UInt16) : Except ReadError (Option Reference) :=
  if index = 0 then .ok none
  else do return typeReference? (← file.classNameText index) .handler

/-- The class that the type of a local variable names. -/
def localVariableClass? (file : ClassFile) (index : UInt16) :
    Except ReadError (Option ClassName) := do
  let descriptor ← file.utf8 index
  match FieldType.parse? descriptor with
  | some type => return type.elementClass?
  | none => throw (.descriptor descriptor)

/-- The classes that the types of local variables name. -/
def localVariableClasses (file : ClassFile) (attr : Attribute) :
    Except ReadError (List ClassName) := do
  let indices ← localTypeReader.runOn attr.info
  let classes ← indices.mapM file.localVariableClass?
  return classes.filterMap id

/-- What an attribute of a body refers to. A table of local variables is for debugging only, so a
broken one is left out. -/
def codeAttributeReferences (file : ClassFile) (attr : Attribute) :
    Except ReadError (List Reference) := do
  if (← file.attributeName attr) = "LocalVariableTable" then
    match file.localVariableClasses attr with
    | .ok classes => return classes.map (.type · .localVariable)
    | .error _ => return []
  else return []

/-- All that a body refers to, in order and with repetitions. -/
def codeReferences (file : ClassFile) (bootstraps : List BootstrapMethod) (method : String)
    (body : CodeBody) : Except ReadError (List Reference) := do
  let listing := scan body.bytes
  let ofInstructions ← listing.instructions.mapM (file.instructionReferences bootstraps method)
  if let some fault := listing.fault then
    throw (.bytecode method fault)
  let ofHandlers ← body.catchTypes.mapM file.handlerReference?
  let ofAttributes ← body.attributes.mapM file.codeAttributeReferences
  return ofInstructions.flatten ++ ofHandlers.filterMap id ++ ofAttributes.flatten

end ClassFile

end LinkCheck
