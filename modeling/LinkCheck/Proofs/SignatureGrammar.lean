import LinkCheck.Signature

/-!
# The grammar of generic signatures

The forms that signatures have, with the text of each and the classes that it mentions. Names are sequences
of characters other than those that divide the parts of a signature.

## Main definitions

- `Grammar.Identifier` — a name
- `Grammar.ClassForm`, `Grammar.Reference`, `Grammar.AnyType`, `Grammar.Argument` — the forms of types
- `Grammar.Parameter`, `Grammar.ClassDeclaration`, `Grammar.MethodDeclaration` — the forms of declarations
- `Grammar.Reference.chars`, `Grammar.ClassDeclaration.chars`, `Grammar.MethodDeclaration.chars` — their text
- `Grammar.Reference.mentions`, `Grammar.ClassDeclaration.mentions`, `Grammar.MethodDeclaration.mentions` —
  the classes that they mention, in the order of the text

## Design notes

A class type lists its package, its outermost class and its inner classes apart. Its binary name has all of
them, and stands before the classes that the type arguments mention.
-/

namespace LinkCheck.Grammar

/-- The characters that divide the parts of a signature. -/
def dividers : List Char := ['.', ';', '[', '/', '<', '>', ':']

/-- A name: at least one character, and none that divides. -/
structure Identifier where
  chars : List Char
  nonempty : chars ≠ []
  undivided : ∀ c ∈ chars, c ∉ dividers

mutual

/-- The name of a class with its type arguments. -/
inductive SimpleClass where
  | mk (name : Identifier) (arguments : List Argument)

/-- A class type: its package, its outermost class and the inner classes. -/
inductive ClassForm where
  | mk (package : List Identifier) (outermost : SimpleClass) (inner : List SimpleClass)

/-- A class type, a type variable or an array. -/
inductive Reference where
  | ofClass (form : ClassForm)
  | typeVariable (name : Identifier)
  | array (element : AnyType)

/-- A primitive or a reference type. -/
inductive AnyType where
  | base (type : BaseType)
  | reference (form : Reference)

/-- A type argument: the unbounded wildcard, or a type that may be a wildcard's bound. -/
inductive Argument where
  | wildcard
  | bounded (variance : Option Variance) (bound : Reference)

end

/-- A text in angle brackets, unless there are no items for it. -/
def bracketed {α : Type} (items : List α) (text : List Char) : List Char :=
  if items.isEmpty then [] else '<' :: (text ++ ['>'])

/-- The sign in front of a wildcard's bound. -/
def signChars : Option Variance → List Char
  | none => []
  | some .extending => ['+']
  | some .superOf => ['-']

/-- A package, with a slash after each of its segments. -/
def packageChars (package : List Identifier) : List Char :=
  package.flatMap fun segment => segment.chars ++ ['/']

mutual

/-- The text of a class with its type arguments. -/
def SimpleClass.chars : SimpleClass → List Char
  | .mk name arguments => name.chars ++ bracketed arguments (Argument.listChars arguments)

/-- The text of inner classes, with a dot before each. -/
def SimpleClass.listChars : List SimpleClass → List Char
  | [] => []
  | form :: forms => '.' :: (form.chars ++ SimpleClass.listChars forms)

/-- The text of a class type. -/
def ClassForm.chars : ClassForm → List Char
  | .mk package outermost inner =>
    'L' :: (packageChars package ++ outermost.chars ++ SimpleClass.listChars inner ++ [';'])

/-- The text of a reference type. -/
def Reference.chars : Reference → List Char
  | .ofClass form => form.chars
  | .typeVariable name => 'T' :: (name.chars ++ [';'])
  | .array element => '[' :: element.chars

/-- The text of a type. -/
def AnyType.chars : AnyType → List Char
  | .base type => [type.code]
  | .reference form => form.chars

/-- The text of a type argument. -/
def Argument.chars : Argument → List Char
  | .wildcard => ['*']
  | .bounded variance bound => signChars variance ++ bound.chars

/-- The text of type arguments, one after the other. -/
def Argument.listChars : List Argument → List Char
  | [] => []
  | argument :: arguments => argument.chars ++ Argument.listChars arguments

end

@[simp]
theorem bracketed_nil {α : Type} (text : List Char) : bracketed ([] : List α) text = [] :=
  rfl

@[simp]
theorem bracketed_cons {α : Type} (item : α) (items : List α) (text : List Char) :
    bracketed (item :: items) text = '<' :: (text ++ ['>']) :=
  rfl

theorem ClassForm.chars_ne_nil (form : ClassForm) : form.chars ≠ [] := by
  cases form
  rw [ClassForm.chars]
  exact List.cons_ne_nil _ _

theorem Reference.chars_ne_nil (form : Reference) : form.chars ≠ [] := by
  cases form with
  | ofClass form =>
    rw [Reference.chars]
    exact form.chars_ne_nil
  | typeVariable name =>
    rw [Reference.chars]
    exact List.cons_ne_nil _ _
  | array element =>
    rw [Reference.chars]
    exact List.cons_ne_nil _ _

theorem AnyType.chars_ne_nil (form : AnyType) : form.chars ≠ [] := by
  cases form with
  | base type =>
    rw [AnyType.chars]
    exact List.cons_ne_nil _ _
  | reference form =>
    rw [AnyType.chars]
    exact form.chars_ne_nil

theorem Argument.chars_ne_nil (argument : Argument) : argument.chars ≠ [] := by
  cases argument with
  | wildcard =>
    rw [Argument.chars]
    exact List.cons_ne_nil _ _
  | bounded variance bound =>
    rw [Argument.chars]
    exact List.append_ne_nil_of_right_ne_nil _ bound.chars_ne_nil

/-- The name of a class without its type arguments. -/
def SimpleClass.name : SimpleClass → Identifier
  | .mk name _ => name

/-- The names of inner classes, with a dollar sign before each. -/
def innerChars (inner : List SimpleClass) : List Char :=
  inner.flatMap fun form => '$' :: form.name.chars

/-- The binary name of a class. -/
def binaryChars (package : List Identifier) (outermost : Identifier) (inner : List SimpleClass) :
    List Char :=
  packageChars package ++ outermost.chars ++ innerChars inner

mutual

/-- The classes that the type arguments of a class mention. -/
def SimpleClass.mentions : SimpleClass → List ClassName
  | .mk _ arguments => Argument.listMentions arguments

/-- The classes that the type arguments of inner classes mention. -/
def SimpleClass.listMentions : List SimpleClass → List ClassName
  | [] => []
  | form :: forms => form.mentions ++ SimpleClass.listMentions forms

/-- A class type mentions itself by its binary name, and then what its type arguments mention. -/
def ClassForm.mentions : ClassForm → List ClassName
  | .mk package outermost inner =>
    ⟨String.ofList (binaryChars package outermost.name inner)⟩ ::
      (outermost.mentions ++ SimpleClass.listMentions inner)

/-- The classes that a reference type mentions. -/
def Reference.mentions : Reference → List ClassName
  | .ofClass form => form.mentions
  | .typeVariable _ => []
  | .array element => element.mentions

/-- The classes that a type mentions. -/
def AnyType.mentions : AnyType → List ClassName
  | .base _ => []
  | .reference form => form.mentions

/-- The classes that a type argument mentions. -/
def Argument.mentions : Argument → List ClassName
  | .wildcard => []
  | .bounded _ bound => bound.mentions

/-- The classes that type arguments mention, in their order. -/
def Argument.listMentions : List Argument → List ClassName
  | [] => []
  | argument :: arguments => argument.mentions ++ Argument.listMentions arguments

end

/-- Of the characters that divide, only slashes stand in a binary name. -/
theorem not_mem_binaryChars {c : Char} (h : c ∈ dividers) (hslash : c ≠ '/') (package : List Identifier)
    (outermost : Identifier) (inner : List SimpleClass) : c ∉ binaryChars package outermost inner := by
  have hdollar : c ≠ '$' := fun heq => absurd (heq ▸ h) (by decide)
  have hname (name : Identifier) : c ∉ name.chars := fun hmem => name.undivided c hmem h
  simp only [binaryChars, packageChars, innerChars, List.mem_append, List.mem_flatMap, List.mem_cons,
    List.not_mem_nil, or_false]
  rintro ((⟨segment, -, hmem⟩ | hmem) | ⟨form, -, hmem⟩)
  · exact hmem.elim (hname segment) hslash
  · exact hname outermost hmem
  · exact hmem.elim hdollar (hname form.name)

/-- A declared type variable. It may have no class bound, and any number of interface bounds. -/
structure Parameter where
  name : Identifier
  classBound : Option Reference
  interfaceBounds : List Reference

namespace Parameter

/-- The text of a type parameter: a colon stands before the class bound, also where there is none, and
before each interface bound. -/
def chars (parameter : Parameter) : List Char :=
  parameter.name.chars ++ ':' :: (parameter.classBound.toList.flatMap Reference.chars ++
    parameter.interfaceBounds.flatMap fun bound => ':' :: bound.chars)

/-- The classes that the bounds mention. -/
def mentions (parameter : Parameter) : List ClassName :=
  parameter.classBound.toList.flatMap Reference.mentions ++
    parameter.interfaceBounds.flatMap Reference.mentions

/-- The text of type parameters in angle brackets. -/
def listChars (parameters : List Parameter) : List Char :=
  bracketed parameters (parameters.flatMap chars)

end Parameter

/-- The generic declaration of a class. -/
structure ClassDeclaration where
  parameters : List Parameter
  superclass : ClassForm
  interfaces : List ClassForm

namespace ClassDeclaration

/-- What stands after the type parameters of a class. -/
def supertypeChars (declaration : ClassDeclaration) : List Char :=
  declaration.superclass.chars ++ declaration.interfaces.flatMap ClassForm.chars

/-- The signature of a class. -/
def chars (declaration : ClassDeclaration) : List Char :=
  Parameter.listChars declaration.parameters ++ declaration.supertypeChars

/-- The classes that the signature of a class mentions. -/
def mentions (declaration : ClassDeclaration) : List ClassName :=
  declaration.parameters.flatMap Parameter.mentions ++
    (declaration.superclass.mentions ++ declaration.interfaces.flatMap ClassForm.mentions)

end ClassDeclaration

/-- What a method may throw. -/
inductive Thrown where
  | ofClass (form : ClassForm)
  | typeVariable (name : Identifier)

namespace Thrown

/-- The text of a throws clause. -/
def chars : Thrown → List Char
  | ofClass form => '^' :: form.chars
  | typeVariable name => '^' :: 'T' :: (name.chars ++ [';'])

/-- The classes that a throws clause mentions. -/
def mentions : Thrown → List ClassName
  | ofClass form => form.mentions
  | typeVariable _ => []

end Thrown

/-- The generic declaration of a method. -/
structure MethodDeclaration where
  parameters : List Parameter
  arguments : List AnyType
  /-- A method without a result has none. -/
  result : Option AnyType
  throwables : List Thrown

namespace MethodDeclaration

/-- The text of a result. -/
def resultChars : Option AnyType → List Char
  | none => ['V']
  | some form => form.chars

/-- What stands after the type parameters of a method. -/
def typeChars (declaration : MethodDeclaration) : List Char :=
  '(' :: (declaration.arguments.flatMap AnyType.chars ++
    ')' :: (resultChars declaration.result ++ declaration.throwables.flatMap Thrown.chars))

/-- The signature of a method. -/
def chars (declaration : MethodDeclaration) : List Char :=
  Parameter.listChars declaration.parameters ++ declaration.typeChars

/-- The classes that the signature of a method mentions. -/
def mentions (declaration : MethodDeclaration) : List ClassName :=
  declaration.parameters.flatMap Parameter.mentions ++
    (declaration.arguments.flatMap AnyType.mentions ++
      (declaration.result.toList.flatMap AnyType.mentions ++
        declaration.throwables.flatMap Thrown.mentions))

end MethodDeclaration

end LinkCheck.Grammar
