import LinkCheck.Hierarchy.Access
import LinkCheck.Hierarchy.Resolution
import LinkCheck.Options
import LinkCheck.Problem

/-!
# Checking references

## Main definitions

- `Options.unresolvedProblems` — what a class that cannot be loaded is reported as
- `LinkContext` — the classpath and the options of a check
- `LinkContext.referenceProblems` — the problems of one reference made from a class
-/

namespace LinkCheck

/-- The problem of a class that cannot be loaded. An unreadable class is always reported, and a missing
one unless its package is ignored. -/
def Options.unresolvedProblems (options : Options) (missing : ClassName → Problem)
    (unresolved : Unresolved) : List Problem :=
  match unresolved.error with
  | some error => [.failedToReadClass unresolved.name error.message]
  | none => if options.ignores unresolved.name.text then [] else [missing unresolved.name]

/-- What a check is made against. -/
structure LinkContext where
  classpath : Classpath
  options : Options

namespace LinkContext

/-- Loads a class and goes on with it, or reports that it cannot be loaded. -/
def withClass (context : LinkContext) (name : ClassName) (missing : ClassName → Problem)
    (next : ClassDefinition → List Problem) : List Problem :=
  match context.classpath.load name with
  | .ok definition => next definition
  | .error unresolved => context.options.unresolvedProblems missing unresolved

/-- The problems of a type that is merely named. -/
def typeProblems (context : LinkContext) (name : ClassName) : List Problem :=
  context.withClass name .classNotFound fun _ => []

/-- The problem of a class that refers to one it may not see. -/
def accessProblems (accessor target : ClassDefinition) : List Problem :=
  if accessor.mayAccess target then [] else [.illegalClassAccess target.name .packageAccess]

/-- The problem of creating instances of an interface or an abstract class. -/
def instantiationProblems (target : ClassDefinition) : List Problem :=
  if target.isInterface then [.interfaceInstantiation target.name]
  else if target.isAbstract then [.abstractClassInstantiation target.name]
  else []

/-- The problems of using a class in some way. -/
def usageProblems (accessor : ClassDefinition) (usage : TypeUsage) (target : ClassDefinition) :
    List Problem :=
  (if usage.resolvesConstant then accessProblems accessor target else []) ++
    (if usage = .instantiation then instantiationProblems target else [])

/-- The problems of a reference to a type. -/
def typeReferenceProblems (context : LinkContext) (accessor : ClassDefinition) (name : ClassName)
    (usage : TypeUsage) : List Problem :=
  match name.elementClass? with
  | none => []
  | some element => context.withClass element .classNotFound (usageProblems accessor usage)

/-- The problems of the owner of a member, followed by those of the member. Of an array only the
element class matters, since its members are those of the root class. -/
def withOwner (context : LinkContext) (accessor : ClassDefinition) (owner : ClassName)
    (next : ClassDefinition → List Problem) : List Problem :=
  if owner.isArray then
    match owner.elementClass? with
    | none => []
    | some element => context.typeProblems element
  else
    context.withClass owner .classNotFound fun definition =>
      accessProblems accessor definition ++ next definition

/-- The problem of calling a method in a way that it does not allow. -/
def invocationProblems (invocation : Invocation) (resolved : ResolvedMethod) : List Problem :=
  let method := resolved.method
  match invocation with
  | .static => if method.isStatic then [] else [.invokeStaticOnInstanceMethod resolved.member]
  | .virtual => ifStatic method.isStatic []
  | .special =>
    ifStatic method.isStatic
      (if method.isAbstract then [.abstractMethodInvocation resolved.member] else [])
  | .interface =>
    ifStatic method.isStatic
      (if method.isPrivate then [.invokeInterfaceOnPrivateMethod resolved.member] else [])
where
  ifStatic (isStatic : Bool) (otherwise : List Problem) : List Problem :=
    if isStatic then [.invokeInstanceOnStaticMethod resolved.member invocation] else otherwise

/-- The problems of calling a method that was found. -/
def resolvedMethodProblems (context : LinkContext) (accessor : ClassDefinition)
    (invocation : Invocation) (resolved : ResolvedMethod) : List Problem :=
  let visibility := resolved.method.visibility
  invocationProblems invocation resolved ++
    (if context.classpath.mayAccessMember accessor resolved.declaring visibility then []
      else [.illegalMethodAccess resolved.member visibility])

/-- Looks for a method where its owner tells. -/
def resolveMethod (context : LinkContext) (owner : ClassDefinition) (member : MemberRef) :
    Resolution ResolvedMethod :=
  if owner.isInterface then
    context.classpath.resolveInterfaceMethod owner member.name member.descriptor
  else context.classpath.resolveClassMethod owner member.name member.descriptor

/-- The change of a class between what a constant expects and what is found. -/
def changeOf (owner : ClassDefinition) : ClassChange :=
  if owner.isInterface then .classToInterface else .interfaceToClass

/-- The problems of a reference to a method. -/
def methodReferenceProblems (context : LinkContext) (accessor : ClassDefinition)
    (member : MemberRef) (invocation : Invocation) (interfaceConstant : Bool) : List Problem :=
  context.withOwner accessor member.owner fun owner =>
    if interfaceConstant ≠ owner.isInterface then
      [.incompatibleClassChange owner.name (changeOf owner)]
    else
      match context.resolveMethod owner member with
      | .found resolved => context.resolvedMethodProblems accessor invocation resolved
      | .notFound => [.methodNotFound member invocation]
      | .incomplete unresolved => context.options.unresolvedProblems .classNotFound unresolved

/-- The problem of accessing a field as one of a class or of an instance when it is the other. -/
def fieldKindProblems (instruction : FieldInstruction) (resolved : ResolvedField) : List Problem :=
  match instruction.isStatic, resolved.field.isStatic with
  | true, false => [.staticAccessOfInstanceField resolved.member instruction]
  | false, true => [.instanceAccessOfStaticField resolved.member instruction]
  | _, _ => []

/-- The problem of writing a final field outside of the class that declares it. -/
def finalFieldProblems (accessor : ClassDefinition) (instruction : FieldInstruction)
    (resolved : ResolvedField) : List Problem :=
  if instruction.isPut && resolved.field.isFinal && resolved.declaring.name ≠ accessor.name then
    [.changeFinalField resolved.member]
  else []

/-- The problems of using a field that was found. -/
def resolvedFieldProblems (context : LinkContext) (accessor : ClassDefinition)
    (instruction : FieldInstruction) (resolved : ResolvedField) : List Problem :=
  let visibility := resolved.field.visibility
  fieldKindProblems instruction resolved ++ finalFieldProblems accessor instruction resolved ++
    (if context.classpath.mayAccessMember accessor resolved.declaring visibility then []
      else [.illegalFieldAccess resolved.member visibility])

/-- The problems of a reference to a field. -/
def fieldReferenceProblems (context : LinkContext) (accessor : ClassDefinition)
    (member : MemberRef) (instruction : FieldInstruction) : List Problem :=
  context.withOwner accessor member.owner fun owner =>
    match context.classpath.resolveField owner member.name member.descriptor with
    | .found resolved => context.resolvedFieldProblems accessor instruction resolved
    | .notFound => [.fieldNotFound member instruction]
    | .incomplete unresolved => context.options.unresolvedProblems .classNotFound unresolved

/-- The problems of a reference that a class makes. -/
def referenceProblems (context : LinkContext) (accessor : ClassDefinition) :
    Reference → List Problem
  | .type name usage => context.typeReferenceProblems accessor name usage
  | .method member invocation interfaceConstant =>
    context.methodReferenceProblems accessor member invocation interfaceConstant
  | .field member instruction => context.fieldReferenceProblems accessor member instruction

end LinkContext

end LinkCheck
