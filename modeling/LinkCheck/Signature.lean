import LinkCheck.Descriptor

/-!
# Generic signatures

Classes, methods and fields that use generics carry a signature beside their descriptor. Signatures
are read into trees, and what the checks need of a tree is the list of classes it mentions.

## Main definitions

- `ReferenceType`, `ClassType`, `JavaType`, `TypeArgument` — the types a signature is made of
- `TypeParameter`, `ClassSignature`, `MethodSignature` — declarations
- `ReferenceType.classes`, `ClassSignature.classes`, `MethodSignature.classes` — the classes a
  signature mentions, in the order of its text
- `ReferenceType.parse?`, `ClassSignature.parse?`, `MethodSignature.parse?` — the tree of a text

## Design notes

An inner class is written after its enclosing class, `Lcom/example/Outer<TT;>.Inner;`, and each of
the two may have type arguments. `ClassType` therefore grows to the right: `inner` adds one more
name to a class type that is already there. The binary name joins the names by `$`.

The readers of nested types recurse on a depth that starts above the number of characters and goes
down where a character has been read.
-/

namespace LinkCheck

/-- Whether a wildcard is bounded from above or from below. -/
inductive Variance where
  | extending
  | superOf
deriving DecidableEq, Repr

mutual

/-- A class type with the type arguments of each class it is nested in. -/
inductive ClassType where
  | outer (name : String) (arguments : List TypeArgument)
  | inner (enclosing : ClassType) (name : String) (arguments : List TypeArgument)

/-- A class type, a type variable or an array. -/
inductive ReferenceType where
  | ofClass (type : ClassType)
  | typeVariable (name : String)
  | array (element : JavaType)

/-- A primitive or a reference type. -/
inductive JavaType where
  | base (type : BaseType)
  | reference (type : ReferenceType)

/-- An argument in angle brackets: the unbounded wildcard, or a type that may be a wildcard's
bound. -/
inductive TypeArgument where
  | wildcard
  | bounded (variance : Option Variance) (bound : ReferenceType)

end

/-- The binary name of a class type: inner names are joined by a dollar sign. -/
def ClassType.binaryName : ClassType → String
  | .outer name _ => name
  | .inner enclosing name _ => enclosing.binaryName ++ "$" ++ name

mutual

/-- The classes that the type arguments of a class type mention, those of the enclosing class
first. -/
def ClassType.argumentClasses : ClassType → List ClassName
  | .outer _ arguments => TypeArgument.listClasses arguments
  | .inner enclosing _ arguments =>
    enclosing.argumentClasses ++ TypeArgument.listClasses arguments

/-- The classes a reference type mentions, a class type itself before its arguments. -/
def ReferenceType.classes : ReferenceType → List ClassName
  | .ofClass type => .ofText type.binaryName :: type.argumentClasses
  | .typeVariable _ => []
  | .array element => element.classes

/-- The classes a type mentions. -/
def JavaType.classes : JavaType → List ClassName
  | .base _ => []
  | .reference type => type.classes

/-- The classes a type argument mentions. -/
def TypeArgument.classes : TypeArgument → List ClassName
  | .wildcard => []
  | .bounded _ bound => bound.classes

/-- The classes a list of type arguments mentions, in its order. -/
def TypeArgument.listClasses : List TypeArgument → List ClassName
  | [] => []
  | argument :: arguments => argument.classes ++ TypeArgument.listClasses arguments

end

/-- A class type mentions itself and what its arguments mention. -/
def ClassType.classes (type : ClassType) : List ClassName :=
  .ofText type.binaryName :: type.argumentClasses

/-- A declared type variable with its bounds. The class bound may be missing where interface bounds
follow. -/
structure TypeParameter where
  name : String
  classBound : Option ReferenceType
  interfaceBounds : List ReferenceType

/-- The classes that the bounds of a type parameter mention. -/
def TypeParameter.classes (parameter : TypeParameter) : List ClassName :=
  (parameter.classBound.toList ++ parameter.interfaceBounds).flatMap ReferenceType.classes

/-- The generic declaration of a class. -/
structure ClassSignature where
  parameters : List TypeParameter
  superclass : ClassType
  interfaces : List ClassType

/-- The classes a class signature mentions. -/
def ClassSignature.classes (signature : ClassSignature) : List ClassName :=
  signature.parameters.flatMap TypeParameter.classes ++ signature.superclass.classes ++
    signature.interfaces.flatMap ClassType.classes

/-- What a method may throw: a class or a type variable. -/
inductive ThrowsType where
  | ofClass (type : ClassType)
  | typeVariable (name : String)

/-- The classes a throws clause mentions. -/
def ThrowsType.classes : ThrowsType → List ClassName
  | .ofClass type => type.classes
  | .typeVariable _ => []

/-- The generic declaration of a method. -/
structure MethodSignature where
  parameters : List TypeParameter
  arguments : List JavaType
  /-- A method without a result has none. -/
  result : Option JavaType
  throwsTypes : List ThrowsType

/-- The classes a method signature mentions. -/
def MethodSignature.classes (signature : MethodSignature) : List ClassName :=
  signature.parameters.flatMap TypeParameter.classes ++
    (signature.arguments ++ signature.result.toList).flatMap JavaType.classes ++
    signature.throwsTypes.flatMap ThrowsType.classes

namespace Signature

/-- Characters that may stand in an identifier. -/
def isIdentifierChar (c : Char) : Bool :=
  c ∉ ['.', ';', '[', '/', '<', '>', ':']

/-- Characters that may stand in the name of an outermost class, its package included. -/
def isClassNameChar (c : Char) : Bool :=
  c ∉ ['<', ';', '.']

/-- Reads a non-empty identifier. -/
def identifier : TextReader String :=
  TextReader.takeWhile1 isIdentifierChar

/-- Reads a type variable, `T` with its name and a semicolon. -/
def typeVariable : TextReader String := do
  TextReader.token 'T'
  let name ← identifier
  TextReader.token ';'
  return name

/-- Reads the sign in front of a bounded wildcard. -/
def variance : TextReader Variance
  | '+' :: rest => some (.extending, rest)
  | '-' :: rest => some (.superOf, rest)
  | _ => none

/-- Adds inner names with their arguments to a class type. -/
def nest (outermost : ClassType) (names : List (String × List TypeArgument)) : ClassType :=
  names.foldl (fun enclosing (name, arguments) => .inner enclosing name arguments) outermost

mutual

/-- Reads a class type: `L`, the outermost name and the inner names after dots, each with its type
arguments, and a semicolon. -/
def classType : Nat → TextReader ClassType
  | 0 => failure
  | depth + 1 => do
    TextReader.token 'L'
    let name ← TextReader.takeWhile1 isClassNameChar
    let arguments ← TextReader.optional (typeArguments depth)
    let names ← TextReader.many do
      TextReader.token '.'
      let inner ← identifier
      let innerArguments ← TextReader.optional (typeArguments depth)
      return (inner, innerArguments.getD [])
    TextReader.token ';'
    return nest (.outer name (arguments.getD [])) names

/-- Reads one or more type arguments in angle brackets. -/
def typeArguments : Nat → TextReader (List TypeArgument)
  | 0 => failure
  | depth + 1 => do
    TextReader.token '<'
    let arguments ← TextReader.many1 (typeArgument depth)
    TextReader.token '>'
    return arguments

/-- Reads one type argument. -/
def typeArgument : Nat → TextReader TypeArgument
  | 0 => failure
  | depth + 1 =>
    (do TextReader.token '*'; return .wildcard) <|>
    (do
      let sign ← TextReader.optional variance
      let bound ← referenceType depth
      return .bounded sign bound)

/-- Reads a class type, a type variable or an array. -/
def referenceType : Nat → TextReader ReferenceType
  | 0 => failure
  | depth + 1 =>
    (do return .ofClass (← classType depth)) <|>
    (do return .typeVariable (← typeVariable)) <|>
    (do TextReader.token '['; return .array (← javaType depth))

/-- Reads a reference type or a primitive letter. -/
def javaType : Nat → TextReader JavaType
  | 0 => failure
  | depth + 1 =>
    (do return .reference (← referenceType depth)) <|>
    (do return .base (← BaseType.reader))

end

/-- A depth that no type in a text of this length exceeds: between two characters that are read, the
depth goes down at most four times. -/
def depthFor (text : String) : Nat :=
  4 * text.length + 4

/-- Reads a type parameter with its bounds. Where no type follows the first colon, the class bound is
missing. -/
def typeParameter (depth : Nat) : TextReader TypeParameter := do
  let name ← identifier
  TextReader.token ':'
  let classBound ← TextReader.optional (referenceType depth)
  let interfaceBounds ← TextReader.many do
    TextReader.token ':'
    referenceType depth
  return { name, classBound, interfaceBounds }

/-- Reads one or more type parameters in angle brackets. -/
def typeParameters (depth : Nat) : TextReader (List TypeParameter) := do
  TextReader.token '<'
  let parameters ← TextReader.many1 (typeParameter depth)
  TextReader.token '>'
  return parameters

/-- Reads the signature of a class. -/
def classSignature (depth : Nat) : TextReader ClassSignature := do
  let parameters ← TextReader.optional (typeParameters depth)
  let superclass ← classType depth
  let interfaces ← TextReader.many (classType depth)
  return { parameters := parameters.getD [], superclass, interfaces }

/-- Reads a result type, where `V` stands for none. -/
def resultType (depth : Nat) : TextReader (Option JavaType) :=
  (do return some (← javaType depth)) <|> (do TextReader.token 'V'; return none)

/-- Reads one entry of a throws clause. -/
def throwsType (depth : Nat) : TextReader ThrowsType := do
  TextReader.token '^'
  (do return .ofClass (← classType depth)) <|> (do return .typeVariable (← typeVariable))

/-- Reads the signature of a method. -/
def methodSignature (depth : Nat) : TextReader MethodSignature := do
  let parameters ← TextReader.optional (typeParameters depth)
  TextReader.token '('
  let arguments ← TextReader.many (javaType depth)
  TextReader.token ')'
  let result ← resultType depth
  let throwsTypes ← TextReader.many (throwsType depth)
  return { parameters := parameters.getD [], arguments, result, throwsTypes }

end Signature

/-- The reference type that a field's signature states. -/
def ReferenceType.parse? (text : String) : Option ReferenceType :=
  TextReader.parse? (Signature.referenceType (Signature.depthFor text)) text

/-- The signature of a class with this text. -/
def ClassSignature.parse? (text : String) : Option ClassSignature :=
  TextReader.parse? (Signature.classSignature (Signature.depthFor text)) text

/-- The signature of a method with this text. -/
def MethodSignature.parse? (text : String) : Option MethodSignature :=
  TextReader.parse? (Signature.methodSignature (Signature.depthFor text)) text

end LinkCheck
