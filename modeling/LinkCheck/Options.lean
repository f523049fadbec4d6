import LinkCheck.ClassName

/-!
# Options

What a caller may choose about a check.

## Main definitions

- `CyclePolicy` — what a cycle among plugin dependencies leads to
- `Options` — all choices, each with its default
- `Options.ignores` — whether unresolved classes of a package go unreported
-/

namespace LinkCheck

/-- What the dependency closure does when it meets a cycle. -/
inductive CyclePolicy where
  /-- Give up and name the whole cycle. -/
  | failFast
  /-- Mark every plugin on the cycle and go on without the dependency that closes it. -/
  | degrade
deriving DecidableEq, Inhabited, Repr

/-- The choices of one session. -/
structure Options where
  cyclePolicy : CyclePolicy := .degrade
  /-- How many read classes a lazy archive or a directory keeps. -/
  parsedClassCacheCapacity : Nat := 1024
  /-- Packages whose unresolved classes are not reported, with dots or slashes. -/
  ignoredPackages : List String := []
  /-- Whether classes that only generic signatures name are reported. -/
  checkGenericSignatures : Bool := false
  /-- Whether concrete classes are checked for abstract methods left without an implementation. -/
  checkMethodImplementation : Bool := true
deriving DecidableEq, Inhabited, Repr

namespace Options

/-- The segments of an ignored package as a slashed path without trailing slashes. -/
def packagePath (package : String) : List Char :=
  ((ClassName.replaceChar '.' '/' package).toList.reverse.dropWhile (· = '/')).reverse

/-- Whether a class with this binary name stands in the package or below it. The empty package
covers nothing. -/
def covers (package className : String) : Bool :=
  let path := packagePath package
  !path.isEmpty && (path ++ ['/']).isPrefixOf className.toList

/-- Whether unresolved classes of this name go unreported. -/
def ignores (options : Options) (className : String) : Bool :=
  options.ignoredPackages.any (covers · className)

end Options

end LinkCheck
