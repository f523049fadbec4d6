import LinkCheck.Hierarchy

/-!
# Resolving members

A reference to a member names the class in which the search starts. Methods are looked for in the
superclasses and then in the superinterfaces, fields in the superinterfaces and then in the
superclasses.

## Main definitions

- `Resolution` — the outcome of a search
- `ResolvedMethod`, `ResolvedField` — a member with the class that declares it
- `Classpath.resolveClassMethod`, `Classpath.resolveInterfaceMethod`, `Classpath.resolveField`
-/

namespace LinkCheck

/-- The outcome of a search for a member. -/
inductive Resolution (α : Type) where
  | found (member : α)
  | notFound
  /-- A class that had to be searched cannot be loaded. -/
  | incomplete (unresolved : Unresolved)
deriving DecidableEq, Inhabited, Repr

/-- A method with the class that declares it. -/
structure ResolvedMethod where
  declaring : ClassDefinition
  method : MethodDefinition
deriving DecidableEq, Inhabited, Repr

/-- A field with the class that declares it. -/
structure ResolvedField where
  declaring : ClassDefinition
  field : FieldDefinition
deriving DecidableEq, Inhabited, Repr

namespace ResolvedMethod

/-- The method by its declaring class, name and descriptor. -/
def member (resolved : ResolvedMethod) : MemberRef :=
  { owner := resolved.declaring.name, name := resolved.method.name,
    descriptor := resolved.method.descriptor }

end ResolvedMethod

namespace ResolvedField

/-- The field by its declaring class, name and descriptor. -/
def member (resolved : ResolvedField) : MemberRef :=
  { owner := resolved.declaring.name, name := resolved.field.name,
    descriptor := resolved.field.descriptor }

end ResolvedField

namespace Resolution

variable {α : Type}

/-- A member if there is one. -/
def ofOption : Option α → Resolution α
  | some member => found member
  | none => notFound

end Resolution

namespace ClassDefinition

/-- The method that a class declares with this name and descriptor. -/
def declaredMethod? (definition : ClassDefinition) (name descriptor : String) :
    Option ResolvedMethod :=
  (definition.findMethod? name descriptor).map fun method => ⟨definition, method⟩

/-- The classes whose native methods may be called with any descriptor. -/
def isPolymorphicOwner (definition : ClassDefinition) : Bool :=
  definition.name.text = "java/lang/invoke/MethodHandle" ||
    definition.name.text = "java/lang/invoke/VarHandle"

/-- The method of this name that may be called with any descriptor: the only one of its name, native,
and with a variable number of arguments. -/
def polymorphicMethod? (definition : ClassDefinition) (name : String) : Option ResolvedMethod :=
  if definition.isPolymorphicOwner then
    match definition.methods.filter (·.name = name) with
    | [method] =>
      if method.flags.isNative && method.flags.isVarargs &&
          "([Ljava/lang/Object;)".toList.isPrefixOf method.descriptor.toList then
        some ⟨definition, method⟩
      else none
    | _ => none
  else none

end ClassDefinition

/-- Whether a method can be inherited from an interface. -/
def MethodDefinition.isInheritable (method : MethodDefinition) : Bool :=
  !method.isPrivate && !method.isStatic

namespace Classpath

/-- The method among some interfaces: the first with a body, or else the first one. -/
def interfaceMethod? (interfaces : List ClassDefinition) (name descriptor : String) :
    Option ResolvedMethod :=
  let candidates := interfaces.filterMap fun interface =>
    (interface.declaredMethod? name descriptor).filter (·.method.isInheritable)
  candidates.find? (!·.method.isAbstract) <|> candidates.head?

/-- Looks for a method in the superinterfaces of a class. -/
def resolveSuperinterfaceMethod (classpath : Classpath) (owner : ClassDefinition)
    (name descriptor : String) : Resolution ResolvedMethod :=
  match classpath.superinterfaces owner with
  | .error unresolved => .incomplete unresolved
  | .ok interfaces => .ofOption (interfaceMethod? interfaces name descriptor)

/-- Whether methods of this name are initialisers, which are not inherited. -/
def isInitializerName (name : String) : Bool :=
  name = "<init>" || name = "<clinit>"

/-- Looks for a method that a reference expects in a class. -/
def resolveClassMethod (classpath : Classpath) (owner : ClassDefinition)
    (name descriptor : String) : Resolution ResolvedMethod :=
  if isInitializerName name then .ofOption (owner.declaredMethod? name descriptor)
  else
    match owner.polymorphicMethod? name with
    | some resolved => .found resolved
    | none =>
      match (classpath.classChain owner).complete with
      | .error unresolved => .incomplete unresolved
      | .ok chain =>
        let inChain := chain.findSome? fun definition =>
          definition.declaredMethod? name descriptor <|> definition.polymorphicMethod? name
        match inChain with
        | some resolved => .found resolved
        | none => classpath.resolveSuperinterfaceMethod owner name descriptor

/-- The public instance method that all interfaces have from the root class. -/
def objectMethod? (root : ClassDefinition) (name descriptor : String) : Option ResolvedMethod :=
  (root.declaredMethod? name descriptor).filter fun resolved =>
    resolved.method.visibility = .publicAccess && !resolved.method.isStatic

/-- Looks for a method that a reference expects in an interface. -/
def resolveInterfaceMethod (classpath : Classpath) (owner : ClassDefinition)
    (name descriptor : String) : Resolution ResolvedMethod :=
  match owner.declaredMethod? name descriptor with
  | some resolved => .found resolved
  | none =>
    match classpath.load .object with
    | .error unresolved => .incomplete unresolved
    | .ok root =>
      match objectMethod? root name descriptor with
      | some resolved => .found resolved
      | none => classpath.resolveSuperinterfaceMethod owner name descriptor

/-- Looks for a field. A class that cannot be loaded matters only if the field is not found
before. -/
def resolveField (classpath : Classpath) (owner : ClassDefinition) (name descriptor : String) :
    Resolution ResolvedField :=
  let trail := classpath.fieldTrail owner
  let declared := trail.loaded.findSome? fun definition =>
    (definition.findField? name descriptor).map fun field => ResolvedField.mk definition field
  match declared, trail.stopped with
  | some resolved, _ => .found resolved
  | none, some unresolved => .incomplete unresolved
  | none, none => .notFound

end Classpath

end LinkCheck
