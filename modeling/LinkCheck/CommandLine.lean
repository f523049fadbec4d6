import LinkCheck.Session

/-!
# The command line

`verify PLUGIN [CLASSPATH ...]` checks a plugin against a classpath and prints what is found.

## Main definitions

- `Arguments`, `Arguments.parse?` — what the arguments ask for
- `CommandLine.run` — runs the command on a tree of files
-/

namespace LinkCheck

/-- What the arguments ask for. -/
structure Arguments where
  plugin : String
  classpath : List String
  options : Options
deriving DecidableEq, Inhabited, Repr

namespace CommandLine

/-- Options that take a value. -/
inductive ValueOption where
  | cyclePolicy
  | ignorePackage
  | classCache
deriving DecidableEq, Repr

/-- Options that take none. -/
inductive Flag where
  | checkGenericSignatures
  | skipMethodImplementation
deriving DecidableEq, Repr

/-- The options there are. -/
inductive Switch where
  | valued (option : ValueOption)
  | flag (option : Flag)
deriving DecidableEq, Repr

/-- The option with a name. -/
def Switch.ofName? : String → Option Switch
  | "cycle-policy" => some (valued .cyclePolicy)
  | "ignore-package" => some (valued .ignorePackage)
  | "class-cache" => some (valued .classCache)
  | "check-generic-signatures" => some (flag .checkGenericSignatures)
  | "skip-method-implementation" => some (flag .skipMethodImplementation)
  | _ => none

/-- What an argument is by its form. -/
inductive Word where
  | plain
  /-- Two dashes, after which there are no more options. -/
  | endOfOptions
  /-- Two dashes and a name, perhaps with a value behind an equals sign. -/
  | long (name : String) (value : Option String)
  /-- One dash and something behind it. -/
  | short
deriving DecidableEq, Repr

/-- Splits an option at its first equals sign. -/
def splitOption (characters : List Char) : Word :=
  let name := String.ofList (characters.takeWhile (· ≠ '='))
  match characters.dropWhile (· ≠ '=') with
  | [] => .long name none
  | _ :: value => .long name (some (String.ofList value))

/-- Tells what an argument is. A single dash is a plain one. -/
def Word.of (argument : String) : Word :=
  match argument.toList with
  | ['-', '-'] => .endOfOptions
  | '-' :: '-' :: characters => splitOption characters
  | '-' :: _ :: _ => .short
  | _ => .plain

/-- What has been given so far. -/
structure Given where
  paths : List String := []
  cyclePolicy : Option CyclePolicy := none
  ignoredPackages : List String := []
  classCache : Option Nat := none
  checkGenericSignatures : Bool := false
  skipMethodImplementation : Bool := false
deriving DecidableEq, Inhabited, Repr

/-- The cycle policy with a name. -/
def cyclePolicy? : String → Option CyclePolicy
  | "fail-fast" => some .failFast
  | "degrade" => some .degrade
  | _ => none

/-- A number in decimal digits, below the limit of sixty-four bits. A plus sign may stand in front. -/
def size? (text : String) : Option Nat :=
  let digits := if text.toList.head? = some '+' then text.toList.tail else text.toList
  if digits.isEmpty || !digits.all Char.isDigit then none
  else
    let value := digits.foldl (fun value digit => 10 * value + (digit.toNat - '0'.toNat)) 0
    if value < 0x10000000000000000 then some value else none

namespace Given

/-- Notes an option with its value. Only packages can be given more than once. -/
def setValue (given : Given) (option : ValueOption) (value : String) : Option Given :=
  match option with
  | .ignorePackage => some { given with ignoredPackages := given.ignoredPackages ++ [value] }
  | .cyclePolicy => do
    guard given.cyclePolicy.isNone
    let policy ← cyclePolicy? value
    return { given with cyclePolicy := some policy }
  | .classCache => do
    guard given.classCache.isNone
    let size ← size? value
    return { given with classCache := some size }

/-- Notes an option without a value, which can be given once. -/
def setFlag (given : Given) : Flag → Option Given
  | .checkGenericSignatures =>
    if given.checkGenericSignatures then none else some { given with checkGenericSignatures := true }
  | .skipMethodImplementation =>
    if given.skipMethodImplementation then none
    else some { given with skipMethodImplementation := true }

/-- Notes a path. -/
def addPath (given : Given) (path : String) : Given :=
  { given with paths := given.paths ++ [path] }

/-- The options that have been given, the others by default. -/
def options (given : Given) : Options :=
  { cyclePolicy := given.cyclePolicy.getD .degrade
    parsedClassCacheCapacity := given.classCache.getD ({} : Options).parsedClassCacheCapacity
    ignoredPackages := given.ignoredPackages
    checkGenericSignatures := given.checkGenericSignatures
    checkMethodImplementation := !given.skipMethodImplementation }

end Given

/-- Reads the arguments one after the other. An option without a value behind an equals sign takes the
next argument, if that is a plain one. -/
def readWords (given : Given) : List String → Option Given
  | [] => some given
  | argument :: rest =>
    match Word.of argument with
    | .plain => readWords (given.addPath argument) rest
    | .endOfOptions => some (rest.foldl Given.addPath given)
    | .short => none
    | .long name value =>
      match Switch.ofName? name, value with
      | none, _ => none
      | some (.flag _), some _ => none
      | some (.flag option), none =>
        match given.setFlag option with
        | none => none
        | some given => readWords given rest
      | some (.valued option), some value =>
        match given.setValue option value with
        | none => none
        | some given => readWords given rest
      | some (.valued option), none =>
        match rest with
        | [] => none
        | next :: others =>
          if Word.of next = .plain then
            match given.setValue option next with
            | none => none
            | some given => readWords given others
          else none

end CommandLine

namespace Arguments

/-- What a list of arguments asks for, if it makes sense. The first path is that of the plugin, and no
path may be empty. -/
def parse? (arguments : List String) : Option Arguments := do
  let given ← CommandLine.readWords {} arguments
  guard (given.paths.all (· ≠ ""))
  match given.paths with
  | [] => none
  | plugin :: classpath => return { plugin, classpath, options := given.options }

/-- The id of the plugin: the name of its file without the extension. -/
def pluginId (arguments : Arguments) : String :=
  (Path.fileStem? arguments.plugin).getD "plugin"

end Arguments

namespace CommandLine

/-- What a run leaves behind: an exit code, and what it printed, line by line. -/
structure Outcome where
  exitCode : Nat
  output : List String
deriving DecidableEq, Inhabited, Repr

/-- The source for a classpath entry, unless it cannot be opened. -/
def entrySource? (capacity : Nat) (path : String) : Shelved (Option ClassSource) := do
  return (← (ClassSource.openEntry path capacity).run).toOption

/-- The lines that tell the problems of a set, each followed by its locations. -/
def report (problems : ProblemSet) : List String :=
  problems.entries.flatMap fun (problem, locations) =>
    problem.description :: locations.map fun location => "    at " ++ location.describe

/-- Checks what the arguments ask for. Classpath entries that cannot be opened are left out. -/
def check (arguments : Arguments) : Shelved (Except VerificationError ProblemSet) := do
  let options := arguments.options
  let entries ← arguments.classpath.mapM (entrySource? options.parsedClassCacheCapacity)
  let classes ← ClassSource.unionOf (entries.filterMap id)
  let target : Target :=
    { platform := { ident := 0, version := "cli", classes }
      runtime := ← ClassSource.makeEmpty
      external := ← ClassSource.makeEmpty }
  let checking : Session.Checking ProblemSet := do
    let plugin ← Session.loadPlugin arguments.pluginId "local" arguments.plugin
    Session.verifyOrReport plugin target
  let (result, _) ← checking.run.run { options }
  return result

/-- What a result is reported as. -/
def outcome : Except VerificationError ProblemSet → Outcome
  | .error failure => ⟨1, (failure.problem?.map Problem.description).toList⟩
  | .ok problems => ⟨if problems.isEmpty then 0 else 1, report problems⟩

/-- Runs the command on a tree of files. Arguments that make no sense give the exit code two. -/
def run (files : FileTree) (arguments : List String) : Outcome :=
  match Arguments.parse? arguments with
  | none => ⟨2, []⟩
  | some parsed => outcome ((check parsed).run { files }).1

end CommandLine

end LinkCheck
