/-!
# Class names

A class is known by its binary name, with slashes between the package segments. Names written with
dots are brought to that form when they enter the library; array names such as `[Lcom.example.Item;`
are kept as written.

## Main definitions

- `ClassName` — a binary class name
- `ClassName.ofText` — the name a text stands for
- `ClassName.ofEntryPath?` — the class that an archive entry or file holds
- `ClassName.package`, `ClassName.simpleName` — the name before and after its last slash
-/

namespace LinkCheck

/-- A class by its binary name, as in `java/lang/Object`. -/
structure ClassName where
  /-- The name with slashes between its segments. -/
  text : String
deriving DecidableEq, Inhabited, Repr

namespace ClassName

/-- Replaces every occurrence of one character by another. -/
def replaceChar (old new : Char) (text : String) : String :=
  text.map fun c => if c = old then new else c

/-- Array names start with an opening bracket. -/
def isArrayText (text : String) : Bool :=
  text.toList.head? == some '['

/-- The class a text names: dots become slashes, except in array names. -/
def ofText (text : String) : ClassName :=
  if isArrayText text then ⟨text⟩ else ⟨replaceChar '.' '/' text⟩

/-- The root of the class hierarchy. -/
def object : ClassName := ⟨"java/lang/Object"⟩

/-- Descriptor classes of a module or a package hold no code that can be linked to. -/
def isDescriptorName (simple : List Char) : Bool :=
  simple = "module-info".toList || simple = "package-info".toList

/-- The class held by the archive entry or file at `path`. Entries that are no class files have none,
nor have the descriptors of modules and packages, nor what stands below `META-INF`, where archives
keep their variants for other releases. -/
def ofEntryPath? (path : String) : Option ClassName := do
  let stem ← ".class".toList.isSuffixOf? path.toList
  let stem := if stem.head? = some '/' then stem.tail else stem
  let simple := (stem.reverse.takeWhile fun c => c ≠ '/' && c ≠ '\\').reverse
  guard !(stem.isEmpty || isDescriptorName simple || "META-INF/".toList.isPrefixOf stem)
  return ofText (replaceChar '\\' '/' (String.ofList stem))

/-- Path of the entry that holds the class. -/
def entryPath (name : ClassName) : String :=
  name.text ++ ".class"

/-- What stands before the last slash, and nothing if there is no slash. -/
def package (name : ClassName) : String :=
  String.ofList ((name.text.toList.reverse.dropWhile (· ≠ '/')).drop 1).reverse

/-- What stands after the last slash. -/
def simpleName (name : ClassName) : String :=
  String.ofList (name.text.toList.reverse.takeWhile (· ≠ '/')).reverse

/-- The name with dots, the form in which messages show it. -/
def dotted (name : ClassName) : String :=
  replaceChar '/' '.' name.text

/-- Whether two classes share their run-time package. -/
def samePackage (first second : ClassName) : Bool :=
  first.package = second.package

/-- Whether the name denotes an array type. -/
def isArray (name : ClassName) : Bool :=
  isArrayText name.text

/-- Whether the name is that of the root class. -/
def isObject (name : ClassName) : Bool :=
  name = object

/-- Names are ordered by the code points of their binary form. -/
instance : Ord ClassName where
  compare first second := compare first.text second.text

end ClassName

end LinkCheck
