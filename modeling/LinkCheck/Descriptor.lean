import LinkCheck.ClassName
import LinkCheck.TextReader

/-!
# Type descriptors

A descriptor is the compact text of a field's type or of a method's parameter and return types.

## Main definitions

- `BaseType`, `FieldType`, `MethodDescriptor` — types as descriptors tell them
- `FieldType.render`, `MethodDescriptor.render` — the text of a descriptor
- `FieldType.parse?`, `MethodDescriptor.parse?` — the descriptor of a text
- `FieldType.elementClass?`, `ClassName.elementClass?` — the class that remains without its array
  dimensions
-/

namespace LinkCheck

/-- The primitive types. -/
inductive BaseType where
  | byte
  | char
  | double
  | float
  | int
  | long
  | short
  | boolean
deriving DecidableEq, Inhabited, Repr

namespace BaseType

/-- The letter that stands for a primitive type. -/
def code : BaseType → Char
  | byte => 'B'
  | char => 'C'
  | double => 'D'
  | float => 'F'
  | int => 'I'
  | long => 'J'
  | short => 'S'
  | boolean => 'Z'

/-- The primitive type a letter stands for. -/
def ofCode? : Char → Option BaseType
  | 'B' => some byte
  | 'C' => some char
  | 'D' => some double
  | 'F' => some float
  | 'I' => some int
  | 'J' => some long
  | 'S' => some short
  | 'Z' => some boolean
  | _ => none

/-- Reads one of the eight letters. -/
def reader : TextReader BaseType
  | [] => none
  | c :: rest => (ofCode? c).map (·, rest)

end BaseType

/-- The type of a field, a parameter or a result. -/
inductive FieldType where
  | base (type : BaseType)
  | object (name : String)
  | array (element : FieldType)
deriving DecidableEq, Inhabited, Repr

namespace FieldType

/-- The descriptor of a type. -/
def render : FieldType → String
  | base type => type.code.toString
  | object name => "L" ++ name ++ ";"
  | array element => "[" ++ element.render

/-- Reads one type: a primitive letter, `L` with a class name up to the next semicolon, or `[` with
the type of the elements. -/
def reader : TextReader FieldType
  | [] => none
  | 'L' :: rest =>
    match rest.dropWhile (· ≠ ';') with
    | [] => none
    | _ :: others => some (object (String.ofList (rest.takeWhile (· ≠ ';'))), others)
  | '[' :: rest => (reader rest).map fun (element, others) => (array element, others)
  | c :: rest => (BaseType.ofCode? c).map fun type => (base type, rest)

/-- The type with this descriptor. -/
def parse? (text : String) : Option FieldType :=
  TextReader.parse? reader text

/-- The class a type names once its array dimensions are taken off. -/
def elementClass? : FieldType → Option ClassName
  | base _ => none
  | object name => some (.ofText name)
  | array element => element.elementClass?

end FieldType

/-- The class of an array's elements, and of any other name the class itself. Arrays of primitives
and array names that are no descriptor have none. -/
def ClassName.elementClass? (name : ClassName) : Option ClassName :=
  if name.isArray then (FieldType.parse? name.text).bind FieldType.elementClass? else some name

/-- Reads the result of a method, where `V` stands for none. -/
def returnReader : TextReader (Option FieldType)
  | 'V' :: rest => some (none, rest)
  | input => (FieldType.reader input).map fun (type, rest) => (some type, rest)

/-- The parameters and the result of a method. -/
structure MethodDescriptor where
  parameters : List FieldType
  /-- A method without a result has none. -/
  result : Option FieldType
deriving DecidableEq, Inhabited, Repr

namespace MethodDescriptor

/-- The descriptor of a result. -/
def renderResult : Option FieldType → String
  | none => "V"
  | some type => type.render

/-- The text of a method descriptor. -/
def render (descriptor : MethodDescriptor) : String :=
  "(" ++ String.join (descriptor.parameters.map FieldType.render) ++ ")" ++
    renderResult descriptor.result

/-- Reads the parameters between parentheses and then the result. -/
def reader : TextReader MethodDescriptor := do
  TextReader.token '('
  let parameters ← TextReader.many FieldType.reader
  TextReader.token ')'
  let result ← returnReader
  return { parameters, result }

/-- The method descriptor of a text. -/
def parse? (text : String) : Option MethodDescriptor :=
  TextReader.parse? reader text

/-- The classes that the parameters and then the result name. -/
def referencedClasses (descriptor : MethodDescriptor) : List ClassName :=
  (descriptor.parameters ++ descriptor.result.toList).filterMap FieldType.elementClass?

end MethodDescriptor

end LinkCheck
