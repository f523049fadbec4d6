import LinkCheck.Inquiry.Hierarchy
import LinkCheck.Verification

/-!
# Verification as an inquiry

The classes of a plugin are checked one by one, and for each class the others are asked for that linking
it needs. What sources remember is handed from one question to the next.

## Main definitions

- `Inquiry.referenceProblems` — the problems of one reference made from a class
- `Inquiry.definitionFindings` — all that is found in a class
- `ClassSource.verifyAgainst` — all that is found in the classes of a source
-/

namespace LinkCheck

namespace Inquiry

open LinkContext

variable {names : List ClassName}

/-- Loads a class and goes on with it, or reports that it cannot be loaded. -/
def withClass (options : Options) (name : ClassName) (missing : ClassName → Problem)
    (next : ClassDefinition → Inquiry names (List Problem)) : Inquiry names (List Problem) := do
  match ← load name with
  | .ok found => next found.definition
  | .error unresolved => return options.unresolvedProblems missing unresolved

/-- The problems of a type that is merely named. -/
def typeProblems (options : Options) (name : ClassName) : Inquiry names (List Problem) :=
  withClass options name .classNotFound fun _ => return []

/-- The problems of a reference to a type. -/
def typeReferenceProblems (options : Options) (accessor : ClassDefinition) (name : ClassName)
    (usage : TypeUsage) : Inquiry names (List Problem) :=
  match name.elementClass? with
  | none => return []
  | some element =>
    withClass options element .classNotFound fun target => return usageProblems accessor usage target

/-- The problems of the owner of a member, followed by those of the member. -/
def withOwner (options : Options) (accessor : ClassDefinition) (owner : ClassName)
    (next : ClassDefinition → Inquiry names (List Problem)) : Inquiry names (List Problem) :=
  if owner.isArray then
    match owner.elementClass? with
    | none => return []
    | some element => typeProblems options element
  else
    withClass options owner .classNotFound fun definition => do
      return accessProblems accessor definition ++ (← next definition)

/-- The problems of calling a method that was found. -/
def resolvedMethodProblems (accessor : ClassDefinition) (invocation : Invocation)
    (resolved : ResolvedMethod) : Inquiry names (List Problem) := do
  let visibility := resolved.method.visibility
  let accessible ← mayAccessMember accessor resolved.declaring visibility
  return invocationProblems invocation resolved ++
    (if accessible then [] else [.illegalMethodAccess resolved.member visibility])

/-- Looks for a method where its owner tells. -/
def resolveMethod (owner : ClassDefinition) (member : MemberRef) :
    Inquiry names (Resolution ResolvedMethod) :=
  if owner.isInterface then resolveInterfaceMethod owner member.name member.descriptor
  else resolveClassMethod owner member.name member.descriptor

/-- The problems of a reference to a method. -/
def methodReferenceProblems (options : Options) (accessor : ClassDefinition) (member : MemberRef)
    (invocation : Invocation) (interfaceConstant : Bool) : Inquiry names (List Problem) :=
  withOwner options accessor member.owner fun owner =>
    if interfaceConstant ≠ owner.isInterface then
      return [.incompatibleClassChange owner.name (changeOf owner)]
    else do
      match ← resolveMethod owner member with
      | .found resolved => resolvedMethodProblems accessor invocation resolved
      | .notFound => return [.methodNotFound member invocation]
      | .incomplete unresolved => return options.unresolvedProblems .classNotFound unresolved

/-- The problems of using a field that was found. -/
def resolvedFieldProblems (accessor : ClassDefinition) (instruction : FieldInstruction)
    (resolved : ResolvedField) : Inquiry names (List Problem) := do
  let visibility := resolved.field.visibility
  let accessible ← mayAccessMember accessor resolved.declaring visibility
  return fieldKindProblems instruction resolved ++ finalFieldProblems accessor instruction resolved ++
    (if accessible then [] else [.illegalFieldAccess resolved.member visibility])

/-- The problems of a reference to a field. -/
def fieldReferenceProblems (options : Options) (accessor : ClassDefinition) (member : MemberRef)
    (instruction : FieldInstruction) : Inquiry names (List Problem) :=
  withOwner options accessor member.owner fun owner => do
    match ← resolveField owner member.name member.descriptor with
    | .found resolved => resolvedFieldProblems accessor instruction resolved
    | .notFound => return [.fieldNotFound member instruction]
    | .incomplete unresolved => return options.unresolvedProblems .classNotFound unresolved

/-- The problems of a reference that a class makes. -/
def referenceProblems (options : Options) (accessor : ClassDefinition) :
    Reference → Inquiry names (List Problem)
  | .type name usage => typeReferenceProblems options accessor name usage
  | .method member invocation interfaceConstant =>
    methodReferenceProblems options accessor member invocation interfaceConstant
  | .field member instruction => fieldReferenceProblems options accessor member instruction

/-- The problems with the superclass of a class. -/
def superclassProblems (options : Options) (definition : ClassDefinition) :
    Inquiry names (List Problem) :=
  match definition.superName with
  | none => return []
  | some superName =>
    withClass options superName (.superClassNotFound definition.name) fun superclass =>
      return inheritanceProblems definition superclass

/-- The problems with an interface that a class names. -/
def interfaceProblems (options : Options) (definition : ClassDefinition) (name : ClassName) :
    Inquiry names (List Problem) :=
  withClass options name (.interfaceNotFound definition.name) fun interface =>
    return implementationProblems definition interface

/-- The problems with the classes that a generic signature mentions, where these are checked. -/
def signatureProblems (options : Options) (classes : List ClassName) :
    Inquiry names (List Problem) :=
  if options.checkGenericSignatures then
    collect (typeProblems options) (classes.filterMap ClassName.elementClass?)
  else return []

/-- The problems with the type of a field. -/
def fieldProblems (options : Options) (member : MemberRef) (field : FieldDefinition) :
    Inquiry names (List Problem) := do
  let unknown ← match field.type.elementClass? with
    | none => pure []
    | some name => withClass options name (.unknownTypeField member) fun _ => return []
  return unknown ++ (← signatureProblems options field.signatureClasses)

/-- The problem of overriding a final method, which is seen only if all superclasses can be loaded. -/
def finalOverrideProblems (definition : ClassDefinition) (method : MethodDefinition) :
    Inquiry names (List Problem) :=
  if method.isStatic || method.isPrivate || method.isInitializer then return []
  else do
    match (← classChain definition).complete with
    | .error _ => return []
    | .ok chain => return overridingProblems definition method chain.tail

/-- The problems of a method. -/
def methodProblems (options : Options) (definition : ClassDefinition) (method : MethodDefinition) :
    Inquiry names (List Problem) := do
  let types ← collect (typeProblems options) method.signatureTypes
  let signature ← signatureProblems options method.signatureClasses
  let overriding ← finalOverrideProblems definition method
  let references ← collect (referenceProblems options definition) method.references
  return types ++ signature ++ overriding ++ references

/-- The methods that a concrete class inherits and has no body for. Interfaces are asked for only if all
superclasses can be loaded. -/
def abstractMethodProblems (definition : ClassDefinition) : Inquiry names (List Problem) :=
  if definition.isAbstract || definition.isInterface then return []
  else do
    match (← classChain definition).complete with
    | .error _ => return []
    | .ok chain =>
      match ← superinterfaces definition with
      | .error _ => return []
      | .ok interfaces => return unimplementedProblems definition chain interfaces

/-- All that is found in a class. -/
def definitionFindings (options : Options) (definition : ClassDefinition) (name : ClassName) :
    Inquiry names (List Finding) := do
  let member (memberName descriptor : String) : MemberRef :=
    { owner := definition.name, name := memberName, descriptor }
  let ofClass := foundAt (.ofClass name)
  let superclass ← superclassProblems options definition
  let interfaces ← collect (interfaceProblems options definition) definition.interfaces
  let signature ← signatureProblems options definition.signatureClasses
  let fields ← collect (fun field => do
    let ref := member field.name field.descriptor
    return foundAt (.field ref) (← fieldProblems options ref field)) definition.fields
  let methods ← collect (fun method => do
    let ref := member method.name method.descriptor
    return foundAt (.method ref) (← methodProblems options definition method)) definition.methods
  let unimplemented ←
    if options.checkMethodImplementation then abstractMethodProblems definition else pure []
  return ofClass superclass ++ ofClass interfaces ++ ofClass signature ++ fields ++ methods ++
    ofClass unimplemented

end Inquiry

namespace ClassSource

/-- All that is found in the class of this name that a plugin holds. -/
def classFindings (plugin classpath : ClassSource) (options : Options) (name : ClassName) :
    Shelved (List Finding) := do
  match ← plugin.find name with
  | .ok none => return []
  | .error error => return [(.failedToReadClass name error.message, .ofClass name)]
  | .ok (some definition) =>
    let names ← classpath.names
    let findings : Inquiry names _ := Inquiry.definitionFindings options definition name
    findings.through classpath

/-- All that is found in the classes of a plugin when they are linked against a source, which should
hold these classes too. Classes are gone through in the order of their names. -/
def verifyAgainst (plugin classpath : ClassSource) (options : Options) : Shelved ProblemSet := do
  let names ← plugin.names
  let findings ← (sorted names).mapM (plugin.classFindings classpath options)
  return .ofFindings findings.flatten

end ClassSource

end LinkCheck
