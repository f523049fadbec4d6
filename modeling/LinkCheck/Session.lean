import LinkCheck.Closure
import LinkCheck.Inquiry.Verification

/-!
# Verification sessions

A session checks plugins against targets and keeps the closures it computes. The closures of a
platform are kept under its version; another platform of the same version takes their place.

## Main definitions

- `Target` — what a plugin is checked against
- `VerificationError`, `VerificationError.problem?` — why a plugin cannot be checked
- `Session` — options, catalog, and what is kept
- `Session.loadPlugin` — the plugin at a path
- `Session.linked` — what is found once the closure of a plugin is known
- `Session.verify`, `Session.verifyOrReport`, `Session.verifyAll` — the checks
-/

namespace LinkCheck

/-- What a plugin is checked against: a platform, the runtime library, and further classes. -/
structure Target where
  platform : Platform
  runtime : ClassSource
  external : ClassSource

/-- Why a plugin cannot be checked. -/
inductive VerificationError where
  | closure (failure : ClosureError)
  | unreadablePlugin (plugin : String) (failure : OpenError)
  | cancelled
deriving DecidableEq, Inhabited, Repr

namespace VerificationError

/-- The text of a verification error. -/
def message : VerificationError → String
  | closure failure => failure.message
  | unreadablePlugin plugin failure =>
    s!"plugin {plugin} has no readable classes: {failure.message}"
  | cancelled => "verification cancelled"

/-- The problem that an error amounts to. Being cancelled is none. -/
def problem? : VerificationError → Option Problem
  | closure (.cyclicDependency cycle) => some (.cyclicDependency cycle)
  | unreadablePlugin _ failure => some (.unreadablePluginClasses failure.message)
  | cancelled => none

end VerificationError

/-- The closures computed for a platform. -/
structure PlatformClosures where
  platform : Platform
  state : ClosureState := {}

/-- A session with what it keeps. -/
structure Session where
  options : Options := {}
  catalog : Catalog := .empty
  /-- The closures computed so far, by the version of the platform. -/
  closures : Table String PlatformClosures := {}
  isCancelled : Bool := false

namespace Session

/-- Computations in a session. -/
abbrev InSession := StateT Session Shelved

/-- Computations in a session that may fail. -/
abbrev Checking := ExceptT VerificationError InSession

/-- Asks the session to stop. -/
def cancel (session : Session) : Session :=
  { session with isCancelled := true }

/-- The plugin at a path. -/
def loadPlugin (id version path : String) : Checking Plugin := do
  let capacity := (← getThe Session).options.parsedClassCacheCapacity
  match ← ((PluginClasspath.open path capacity).run : Shelved _) with
  | .ok classpath => return .ofClasspath id version classpath
  | .error failure => throw (.unreadablePlugin id failure)

/-- What has been computed for a platform, which is nothing if the last platform of its version was
another one. -/
def closuresOf (session : Session) (platform : Platform) : ClosureState :=
  match session.closures.get? platform.version with
  | some known => if known.platform.ident = platform.ident then known.state else {}
  | none => {}

/-- Where the dependencies of plugins on a platform are looked up. -/
def graphOf (session : Session) (platform : Platform) : DependencyGraph :=
  { platform, catalog := session.catalog, policy := session.options.cyclePolicy }

/-- Keeps what has been computed for a platform. The session is cancelled if the catalog was asked for
the plugin at which it stops. -/
def keepClosures (session : Session) (platform : Platform) (state : ClosureState) : Session :=
  { session with
    closures := session.closures.insert platform.version { platform, state }
    isCancelled := session.isCancelled || session.catalog.stopsAt.any (· ∈ state.asked) }

/-- The closure of a plugin on a platform. -/
def closure (plugin : Plugin) (platform : Platform) : Checking Closure := do
  let session ← getThe Session
  let resolving := (session.graphOf platform).resolve plugin
  let (result, state) ← (resolving.run.run (session.closuresOf platform) : Shelved _)
  modifyThe Session (·.keepClosures platform state)
  match result with
  | .ok closure => return closure
  | .error failure => throw (.closure failure)

/-- The sources that a plugin is linked against, in the order in which they are searched. -/
def layers (plugin : Plugin) (closure : Closure) (target : Target) : List ClassSource :=
  [plugin.classes, plugin.libraries, closure.source, target.platform.classes, target.runtime,
    target.external]

/-- Records the dependencies that a plugin needs and that were not found. -/
def addMissing (plugin : Plugin) (missing : List Dependency) (problems : ProblemSet) :
    ProblemSet :=
  missing.foldl
    (fun problems dependency => problems.add (.missingDependency dependency.id) (.plugin plugin.id))
    problems

/-- What is found when a plugin with a closure is linked against a target. -/
def linked (plugin : Plugin) (closure : Closure) (target : Target) (options : Options) :
    Shelved ProblemSet := do
  let effective ← ClassSource.cached (← ClassSource.unionOf (layers plugin closure target))
  let problems ← plugin.classes.verifyAgainst effective options
  effective.close
  return problems

/-- All that is found in a plugin when it is linked against a target. -/
def verify (plugin : Plugin) (target : Target) : Checking ProblemSet := do
  let closure ← closure plugin target.platform
  let options := (← getThe Session).options
  let problems ← (linked plugin closure target options : Shelved ProblemSet)
  return addMissing plugin closure.missing problems

/-- All that is found in a plugin, where a failure counts as a problem of the plugin. -/
def verifyOrReport (plugin : Plugin) (target : Target) : InSession ProblemSet := do
  match ← (verify plugin target).run with
  | .ok problems => return problems
  | .error failure =>
    return failure.problem?.elim {} fun problem => ProblemSet.add {} problem (.plugin plugin.id)

/-- Fails if the session has been cancelled. -/
def checkCancelled : Checking Unit := do
  if (← getThe Session).isCancelled then throw .cancelled

/-- All that is found in a plugin when it is linked against several targets. What is found while the
session is being cancelled does not count. -/
def verifyAll (plugin : Plugin) (targets : List Target) : Checking ProblemSet :=
  targets.foldlM
    (fun merged target => do
      checkCancelled
      let problems ← verifyOrReport plugin target
      checkCancelled
      return merged.merge problems)
    {}

end Session

end LinkCheck
