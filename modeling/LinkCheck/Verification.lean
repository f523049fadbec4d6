import LinkCheck.Problem.ProblemSet
import LinkCheck.Sorting
import LinkCheck.Verification.References

/-!
# Verification

Every class of a plugin is checked the way it would be linked: its supertypes, the types of its fields
and methods, what its methods override and refer to, and whether it implements what it has to.

## Main definitions

- `LinkContext.classFindings` — all that is found in a class
- `LinkContext.finalOverrideProblems`, `LinkContext.abstractMethodProblems` — the checks on overriding
- `verify` — all that is found in the classes of a plugin, in the order of their names
-/

namespace LinkCheck

namespace LinkContext

/-- The problems of inheriting from a class. -/
def inheritanceProblems (definition superclass : ClassDefinition) : List Problem :=
  (if superclass.isInterface then [.incompatibleClassChange superclass.name .classToInterface]
    else if superclass.isFinal then [.inheritFromFinalClass definition.name superclass.name]
    else []) ++
    accessProblems definition superclass

/-- The problems with the superclass of a class. -/
def superclassProblems (context : LinkContext) (definition : ClassDefinition) : List Problem :=
  match definition.superName with
  | none => []
  | some superName =>
    context.withClass superName (.superClassNotFound definition.name)
      (inheritanceProblems definition)

/-- The problems of implementing an interface. -/
def implementationProblems (definition interface : ClassDefinition) : List Problem :=
  (if interface.isInterface then []
    else [.incompatibleClassChange interface.name .interfaceToClass]) ++
    accessProblems definition interface

/-- The problems with an interface that a class names. -/
def interfaceProblems (context : LinkContext) (definition : ClassDefinition) (name : ClassName) :
    List Problem :=
  context.withClass name (.interfaceNotFound definition.name) (implementationProblems definition)

/-- The problems with the classes that a generic signature mentions, where these are checked. -/
def signatureProblems (context : LinkContext) (classes : List ClassName) : List Problem :=
  if context.options.checkGenericSignatures then
    (classes.filterMap ClassName.elementClass?).flatMap context.typeProblems
  else []

/-- The problems with the type of a field. -/
def fieldProblems (context : LinkContext) (member : MemberRef) (field : FieldDefinition) :
    List Problem :=
  (match field.type.elementClass? with
    | none => []
    | some name => context.withClass name (.unknownTypeField member) fun _ => []) ++
    context.signatureProblems field.signatureClasses

/-- Whether a class can override a method that `declaring` declares. -/
def canOverride (definition : ClassDefinition) (resolved : ResolvedMethod) : Bool :=
  match resolved.method.visibility with
  | .privateAccess => false
  | .packageAccess => resolved.declaring.name.samePackage definition.name
  | .protectedAccess | .publicAccess => true

/-- The nearest of some superclasses' methods that a method of a class overrides. -/
def overridden? (definition : ClassDefinition) (method : MethodDefinition)
    (superclasses : List ClassDefinition) : Option ResolvedMethod :=
  superclasses.findSome? fun superclass =>
    (superclass.declaredMethod? method.name method.descriptor).filter (canOverride definition)

/-- The problem of overriding a final method of some superclasses. Only the nearest method that can be
overridden counts. -/
def overridingProblems (definition : ClassDefinition) (method : MethodDefinition)
    (superclasses : List ClassDefinition) : List Problem :=
  match overridden? definition method superclasses with
  | none => []
  | some resolved =>
    if resolved.method.isFinal && !resolved.method.isStatic then
      [.overridingFinalMethod resolved.member definition.name]
    else []

/-- The problem of overriding a final method, which is seen only if all superclasses can be loaded. -/
def finalOverrideProblems (context : LinkContext) (definition : ClassDefinition)
    (method : MethodDefinition) : List Problem :=
  if method.isStatic || method.isPrivate || method.isInitializer then []
  else
    match (context.classpath.classChain definition).complete with
    | .error _ => []
    | .ok chain => overridingProblems definition method chain.tail

/-- The problems of a method. -/
def methodProblems (context : LinkContext) (definition : ClassDefinition)
    (method : MethodDefinition) : List Problem :=
  method.signatureTypes.flatMap context.typeProblems ++
    context.signatureProblems method.signatureClasses ++
    context.finalOverrideProblems definition method ++
    method.references.flatMap (context.referenceProblems definition)

/-- The methods that a class leaves to others to implement. -/
def abstractMethods (definition : ClassDefinition) : List MemberRef :=
  (definition.methods.filter fun method => method.isAbstract && method.isInheritable).map
    fun method => (ResolvedMethod.mk definition method).member

/-- The first of the members with each name and descriptor. -/
def distinctMembers (members : List MemberRef) : List MemberRef :=
  members.eraseDupsBy fun first second =>
    first.name = second.name && first.descriptor = second.descriptor

/-- Whether a class with these superclasses and interfaces has a body for a method. The nearest class
that declares the method decides, and the interfaces only if there is none. -/
def isImplemented (chain interfaces : List ClassDefinition) (member : MemberRef) : Bool :=
  let declared (definition : ClassDefinition) :=
    (definition.findMethod? member.name member.descriptor).filter (·.isInheritable)
  match chain.findSome? declared with
  | some method => !method.isAbstract
  | none => interfaces.any fun interface => (declared interface).any (!·.isAbstract)

/-- The methods that a class with these superclasses and interfaces has no body for. -/
def unimplementedProblems (definition : ClassDefinition) (chain interfaces : List ClassDefinition) :
    List Problem :=
  let required := distinctMembers ((chain ++ interfaces).flatMap abstractMethods)
  (required.filter fun member => !isImplemented chain interfaces member).map
    (.methodNotImplemented · definition.name)

/-- The methods that a concrete class inherits and has no body for. Nothing is said about a class with
a supertype that cannot be loaded. -/
def abstractMethodProblems (context : LinkContext) (definition : ClassDefinition) : List Problem :=
  if definition.isAbstract || definition.isInterface then []
  else
    match (context.classpath.classChain definition).complete,
        context.classpath.superinterfaces definition with
    | .ok chain, .ok interfaces => unimplementedProblems definition chain interfaces
    | _, _ => []

/-- Places problems at a location. -/
def foundAt (location : Location) (problems : List Problem) : List Finding :=
  problems.map (·, location)

/-- All that is found in a class. -/
def definitionFindings (context : LinkContext) (definition : ClassDefinition) (name : ClassName) :
    List Finding :=
  let member (memberName descriptor : String) : MemberRef :=
    { owner := definition.name, name := memberName, descriptor }
  let ofClass := foundAt (.ofClass name)
  ofClass (context.superclassProblems definition) ++
    ofClass (definition.interfaces.flatMap (context.interfaceProblems definition)) ++
    ofClass (context.signatureProblems definition.signatureClasses) ++
    definition.fields.flatMap (fun field =>
      let ref := member field.name field.descriptor
      foundAt (.field ref) (context.fieldProblems ref field)) ++
    definition.methods.flatMap (fun method =>
      foundAt (.method (member method.name method.descriptor))
        (context.methodProblems definition method)) ++
    (if context.options.checkMethodImplementation then
      ofClass (context.abstractMethodProblems definition)
    else [])

/-- All that is found in the class of this name that a plugin holds. -/
def classFindings (context : LinkContext) (plugin : Classpath) (name : ClassName) : List Finding :=
  match plugin.find name with
  | .ok none => []
  | .error error => [(.failedToReadClass name error.message, .ofClass name)]
  | .ok (some definition) => context.definitionFindings definition name

end LinkContext

/-- All that is found in the classes of a plugin when they are linked against a classpath, which
should hold these classes too. Classes are gone through in the order of their names. -/
def verify (plugin classpath : Classpath) (options : Options) : ProblemSet :=
  .ofFindings ((sorted plugin.names).flatMap (LinkContext.classFindings ⟨classpath, options⟩ plugin))

end LinkCheck
