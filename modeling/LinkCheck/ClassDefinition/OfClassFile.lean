import LinkCheck.ClassDefinition
import LinkCheck.ClassDefinition.References
import LinkCheck.Signature

/-!
# The definition that a class file holds

## Main definitions

- `ClassFile.definition` — the definition that a class file holds
- `ClassDefinition.parse` — the definition that some bytes hold

## Design notes

The attributes of a class or method are read one by one, each into the part of the definition that it
contributes, and the parts are put together afterwards. Of several attributes for the same part the
last one counts, but code and declared exceptions add up.
-/

namespace LinkCheck

/-- What an attribute contributes to a class. -/
inductive ClassPart where
  | nestHost (name : ClassName)
  | signature (classes : List ClassName)
  | bootstraps (methods : List BootstrapMethod)
  | other

/-- What an attribute contributes to a method. -/
inductive MethodPart where
  | code (references : List Reference)
  | exceptions (names : List ClassName)
  | signature (classes : List ClassName)
  | other

namespace ClassPart

/-- The host of the nest, if the part tells it. -/
def nestHost? : ClassPart → Option ClassName
  | nestHost name => some name
  | _ => none

/-- The classes of the generic signature, if the part tells them. -/
def signature? : ClassPart → Option (List ClassName)
  | signature classes => some classes
  | _ => none

/-- The bootstrap methods, if the part tells them. -/
def bootstraps? : ClassPart → Option (List BootstrapMethod)
  | bootstraps methods => some methods
  | _ => none

end ClassPart

namespace MethodPart

/-- The references that the part contributes. -/
def references : MethodPart → List Reference
  | code references => references
  | _ => []

/-- The exceptions that the part declares. -/
def exceptionNames : MethodPart → List ClassName
  | exceptions names => names
  | _ => []

/-- The classes of the generic signature, if the part tells them. -/
def signature? : MethodPart → Option (List ClassName)
  | signature classes => some classes
  | _ => none

end MethodPart

namespace ClassFile

open ByteReader

/-- The classes that a generic signature mentions. One that is unreadable or malformed mentions
none. -/
def signatureClasses (file : ClassFile) (classes? : String → Option (List ClassName))
    (attr : Attribute) : List ClassName :=
  match u2.runOn attr.info >>= file.utf8 with
  | .ok text => (classes? text).getD []
  | .error _ => []

/-- What an attribute contributes to the class. -/
def classPart (file : ClassFile) (attr : Attribute) : Except ReadError ClassPart := do
  match ← file.attributeName attr with
  | "NestHost" => return .nestHost (← file.className (← u2.runOn attr.info))
  | "Signature" =>
    let classes? text := (ClassSignature.parse? text).map ClassSignature.classes
    return .signature (file.signatureClasses classes? attr)
  | "BootstrapMethods" => return .bootstraps (← bootstrapReader.runOn attr.info)
  | _ => return .other

/-- The classes of the generic signature that an attribute of a field gives, if it is one. -/
def fieldSignature? (file : ClassFile) (attr : Attribute) :
    Except ReadError (Option (List ClassName)) := do
  if (← file.attributeName attr) = "Signature" then
    let classes? text := (ReferenceType.parse? text).map ReferenceType.classes
    return some (file.signatureClasses classes? attr)
  else return none

/-- The last value in a list of optional ones. -/
def lastGiven {α : Type} (values : List (Option α)) : Option α :=
  (values.filterMap id).getLast?

/-- The definition of a field. -/
def field (file : ClassFile) (info : MemberInfo) : Except ReadError FieldDefinition := do
  let name ← file.utf8 info.nameIndex
  let descriptor ← file.utf8 info.descriptorIndex
  match FieldType.parse? descriptor with
  | none => throw (.descriptor descriptor)
  | some type =>
    let signatures ← info.attributes.mapM file.fieldSignature?
    return {
      name, descriptor, type
      flags := info.flags
      signatureClasses := (lastGiven signatures).getD [] }

/-- What an attribute contributes to a method. -/
def methodPart (file : ClassFile) (bootstraps : List BootstrapMethod) (method : String)
    (attr : Attribute) : Except ReadError MethodPart := do
  match ← file.attributeName attr with
  | "Code" =>
    let body ← codeReader.runOn attr.info
    return .code (← file.codeReferences bootstraps method body)
  | "Exceptions" =>
    let indices ← (table u2).runOn attr.info
    return .exceptions (← indices.mapM file.className)
  | "Signature" =>
    let classes? text := (MethodSignature.parse? text).map MethodSignature.classes
    return .signature (file.signatureClasses classes? attr)
  | _ => return .other

/-- The definition of a method. -/
def method (file : ClassFile) (bootstraps : List BootstrapMethod) (info : MemberInfo) :
    Except ReadError MethodDefinition := do
  let name ← file.utf8 info.nameIndex
  let descriptor ← file.utf8 info.descriptorIndex
  match MethodDescriptor.parse? descriptor with
  | none => throw (.descriptor descriptor)
  | some type =>
    let parts ← info.attributes.mapM (file.methodPart bootstraps (name ++ descriptor))
    return {
      name, descriptor, type
      flags := info.flags
      exceptions := parts.flatMap MethodPart.exceptionNames
      signatureClasses := (lastGiven (parts.map MethodPart.signature?)).getD []
      references := (parts.flatMap MethodPart.references).eraseDups }

/-- The definition that a class file holds. -/
def definition (file : ClassFile) : Except ReadError ClassDefinition := do
  let name ← file.className file.thisClass
  let superName ←
    if file.superClass = 0 then pure none else some <$> file.className file.superClass
  let interfaces ← file.interfaces.mapM file.className
  let parts ← file.attributes.mapM file.classPart
  let bootstraps := (lastGiven (parts.map ClassPart.bootstraps?)).getD []
  let fields ← file.fields.mapM file.field
  let methods ← file.methods.mapM (file.method bootstraps)
  return {
    name, superName, interfaces, fields, methods
    flags := file.flags
    declaredNestHost := lastGiven (parts.map ClassPart.nestHost?)
    signatureClasses := (lastGiven (parts.map ClassPart.signature?)).getD []
    majorVersion := file.majorVersion
    minorVersion := file.minorVersion }

end ClassFile

/-- The definition that the bytes of a class file hold. -/
def ClassDefinition.parse (bytes : List UInt8) : Except ReadError ClassDefinition := do
  (← ClassFile.read bytes).definition

end LinkCheck
