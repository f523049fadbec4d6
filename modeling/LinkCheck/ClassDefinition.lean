import LinkCheck.AccessFlags
import LinkCheck.Descriptor
import LinkCheck.Reference

/-!
# Class definitions

What linking needs to know of a class: its supertypes, its members, and the references that its
methods make.

## Main definitions

- `FieldDefinition`, `MethodDefinition`, `ClassDefinition`
- `ClassDefinition.findField?`, `ClassDefinition.findMethod?` — members by name and descriptor
- `ClassDefinition.nestHost` — the class whose nest a class belongs to
-/

namespace LinkCheck

/-- A field of a class. -/
structure FieldDefinition where
  name : String
  /-- The descriptor as written. -/
  descriptor : String
  type : FieldType
  flags : AccessFlags
  /-- The classes that the generic signature mentions. -/
  signatureClasses : List ClassName
deriving DecidableEq, Inhabited, Repr

/-- A method of a class. -/
structure MethodDefinition where
  name : String
  /-- The descriptor as written. -/
  descriptor : String
  type : MethodDescriptor
  flags : AccessFlags
  /-- The exceptions the method declares. -/
  exceptions : List ClassName
  /-- The classes that the generic signature mentions. -/
  signatureClasses : List ClassName
  /-- What the body refers to, each reference once and in order of appearance. -/
  references : List Reference
deriving DecidableEq, Inhabited, Repr

/-- A class. -/
structure ClassDefinition where
  name : ClassName
  /-- Only the root class has no superclass. -/
  superName : Option ClassName
  interfaces : List ClassName
  flags : AccessFlags
  fields : List FieldDefinition
  methods : List MethodDefinition
  /-- The host of the nest, if the class file names one. -/
  declaredNestHost : Option ClassName
  /-- The classes that the generic signature mentions. -/
  signatureClasses : List ClassName
  majorVersion : UInt16
  minorVersion : UInt16
deriving DecidableEq, Inhabited, Repr

namespace FieldDefinition

/-- Whether the field belongs to the class and not to its instances. -/
def isStatic (field : FieldDefinition) : Bool := field.flags.isStatic

/-- Whether the field may be written only once. -/
def isFinal (field : FieldDefinition) : Bool := field.flags.isFinal

/-- The access level of the field. -/
def visibility (field : FieldDefinition) : Visibility := field.flags.memberVisibility

end FieldDefinition

namespace MethodDefinition

/-- Whether the method belongs to the class and not to its instances. -/
def isStatic (method : MethodDefinition) : Bool := method.flags.isStatic

/-- Whether the flags call the method private. -/
def isPrivate (method : MethodDefinition) : Bool := method.flags.isPrivate

/-- Whether the method has no body. -/
def isAbstract (method : MethodDefinition) : Bool := method.flags.isAbstract

/-- Whether the method may not be overridden. -/
def isFinal (method : MethodDefinition) : Bool := method.flags.isFinal

/-- Whether the method initialises an instance or the class. -/
def isInitializer (method : MethodDefinition) : Bool :=
  method.name = "<init>" || method.name = "<clinit>"

/-- The access level of the method. -/
def visibility (method : MethodDefinition) : Visibility := method.flags.memberVisibility

/-- The classes that the parameters, the result and the declared exceptions name. -/
def signatureTypes (method : MethodDefinition) : List ClassName :=
  method.type.referencedClasses ++ method.exceptions

end MethodDefinition

namespace ClassDefinition

/-- Whether the class is an interface. -/
def isInterface (definition : ClassDefinition) : Bool := definition.flags.isInterface

/-- Whether the class cannot have instances of its own. -/
def isAbstract (definition : ClassDefinition) : Bool := definition.flags.isAbstract

/-- Whether the class cannot be extended. -/
def isFinal (definition : ClassDefinition) : Bool := definition.flags.isFinal

/-- The access level of the class. -/
def visibility (definition : ClassDefinition) : Visibility := definition.flags.classVisibility

/-- The host of the nest that the class belongs to: itself, unless it names another. -/
def nestHost (definition : ClassDefinition) : ClassName :=
  definition.declaredNestHost.getD definition.name

/-- The first method with this name and descriptor. -/
def findMethod? (definition : ClassDefinition) (name descriptor : String) :
    Option MethodDefinition :=
  definition.methods.find? fun method => method.name = name && method.descriptor = descriptor

/-- The first field with this name and descriptor. -/
def findField? (definition : ClassDefinition) (name descriptor : String) :
    Option FieldDefinition :=
  definition.fields.find? fun field => field.name = name && field.descriptor = descriptor

end ClassDefinition

end LinkCheck
