import LinkCheck.Options
import LinkCheck.Plugin
import LinkCheck.Problem

/-!
# Dependency closures

A plugin sees the classes of all plugins that it depends on, directly or through others. The closures
of plugins on one platform are computed once and kept.

## Main definitions

- `DependencyGraph`, `DependencyGraph.direct` — which plugins a plugin directly depends on
- `Descriptor`, `ClosureState` — what is known about the closures of plugins
- `DependencyGraph.expand` — the transitive dependencies of a plugin, along a path of plugins
- `DependencyGraph.transitive`, `DependencyGraph.resolve` — the closure of a plugin

## Design notes

The path of an expansion holds the plugins that are being expanded, and the plugins that may still be
entered are handed down beside it. A plugin that may not be entered is on the path, so it closes a
cycle. Where cycles are tolerated, the dependencies found for the plugins on the cycle may be
incomplete; they are given back but not kept.
-/

namespace LinkCheck

/-- Why a closure cannot be computed. -/
inductive ClosureError where
  /-- Plugins that depend on each other in a circle. The last id is the first one again. -/
  | cyclicDependency (cycle : List String)
deriving DecidableEq, Inhabited, Repr

/-- The text of a closure error. -/
def ClosureError.message : ClosureError → String
  | cyclicDependency cycle => Problem.describeCycle cycle

/-- Where the dependencies of plugins are looked up. -/
structure DependencyGraph where
  platform : Platform
  catalog : Catalog := .empty
  policy : CyclePolicy := .degrade

/-- The direct dependencies of a plugin. -/
structure DirectDependencies where
  found : List Plugin
  /-- What was not found and is not optional. -/
  missing : List Dependency
  /-- The ids for which the catalog was asked. -/
  asked : List String

namespace DependencyGraph

/-- The plugin with an id, bundled with the platform or else from the catalog. -/
def pluginById? (graph : DependencyGraph) (id : String) : Option Plugin :=
  graph.platform.pluginById? id <|> graph.catalog.find? graph.platform.version id

/-- The direct dependencies of a plugin, those on modules first. Modules are provided by bundled
plugins only. -/
def direct (graph : DependencyGraph) (plugin : Plugin) : DirectDependencies where
  found :=
    plugin.moduleDependencies.filterMap graph.platform.pluginByModule? ++
      plugin.dependencies.filterMap fun dependency => graph.pluginById? dependency.id
  missing :=
    (plugin.moduleDependencies.filter fun module =>
        (graph.platform.pluginByModule? module).isNone).map
      (fun module => { id := module, isOptional := false }) ++
      plugin.dependencies.filter fun dependency =>
        (graph.pluginById? dependency.id).isNone && !dependency.isOptional
  asked :=
    (plugin.dependencies.map Dependency.id).filter fun id =>
      (graph.platform.pluginById? id).isNone

/-- The keys of all plugins that can be met from a plugin, its own included. -/
def keysFrom (graph : DependencyGraph) (plugin : Plugin) : List PluginKey :=
  plugin.key :: (graph.platform.plugins ++ graph.catalog.offers.map Offer.plugin).map Plugin.key

end DependencyGraph

/-- How far the transitive dependencies of a plugin are known. -/
inductive Transitive where
  | absent
  | inProgress
  | done (dependencies : List Plugin)

/-- What is known about a plugin. -/
structure Descriptor where
  transitive : Transitive := .absent
  /-- Whether the plugin was met on a cycle. -/
  cyclic : Bool := false
  /-- What the plugin needs and was not found when it was last expanded. -/
  missing : List Dependency := []
  /-- The classes that the plugin sees, once they have been asked for. -/
  source : Option ClassSource := none

/-- What is known about all plugins. -/
structure ClosureState where
  descriptors : Table PluginKey Descriptor := {}
  /-- How often a plugin was expanded. -/
  visits : Nat := 0
  /-- The ids for which the catalog was asked. -/
  asked : List String := []

namespace ClosureState

/-- What is known about a plugin. -/
def descriptor (state : ClosureState) (key : PluginKey) : Descriptor :=
  (state.descriptors.get? key).getD {}

/-- Changes what is known about a plugin. -/
def update (state : ClosureState) (key : PluginKey) (change : Descriptor → Descriptor) :
    ClosureState :=
  { state with descriptors := state.descriptors.insert key (change (state.descriptor key)) }

/-- Notes that the expansion of a plugin begins. -/
def enter (state : ClosureState) (key : PluginKey) (direct : DirectDependencies) : ClosureState :=
  { state.update key fun known => { known with transitive := .inProgress } with
    visits := state.visits + 1
    asked := state.asked ++ direct.asked }

/-- Notes that the expansion of a plugin ends. Its dependencies are kept unless a cycle was met
meanwhile. -/
def leave (state : ClosureState) (key : PluginKey) (dependencies : List Plugin)
    (missing : List Dependency) : ClosureState :=
  state.update key fun known =>
    match known.transitive with
    | .inProgress => { known with missing, transitive := .done dependencies }
    | _ => { known with missing }

/-- Notes that plugins are on a cycle. -/
def markCycle (state : ClosureState) (members : List PluginKey) : ClosureState :=
  members.foldl (fun state key =>
    state.update key fun known => { known with cyclic := true, transitive := .absent }) state

/-- Keeps the dependencies of the plugin with which an expansion began, which are complete even if it
is on a cycle. -/
def settle (state : ClosureState) (key : PluginKey) (dependencies : List Plugin) : ClosureState :=
  state.update key fun known =>
    match known.transitive with
    | .done _ => known
    | _ => { known with transitive := .done dependencies }

/-- What is known about a plugin once an expansion has been given up. -/
def givenUp (known : Descriptor) : Descriptor :=
  match known.transitive with
  | .inProgress => { known with transitive := .absent }
  | _ => known

/-- Forgets the expansions that were given up. -/
def giveUp (state : ClosureState) : ClosureState :=
  { state with
    descriptors := ⟨state.descriptors.entries.map fun (key, known) => (key, givenUp known)⟩ }

/-- Whether a plugin was met on a cycle. -/
def isCyclic (state : ClosureState) (key : PluginKey) : Bool :=
  (state.descriptor key).cyclic

/-- What a plugin needs and was not found when it was last expanded. -/
def missing (state : ClosureState) (key : PluginKey) : List Dependency :=
  (state.descriptor key).missing

end ClosureState

/-- Computations that learn about closures, and may fail. -/
abbrev Expansion := ExceptT ClosureError (StateM ClosureState)

namespace DependencyGraph

/-- Adds a plugin if none with its key is there. -/
def addPlugin (collected : List Plugin) (plugin : Plugin) : List Plugin :=
  if plugin.key ∈ collected.map Plugin.key then collected else collected ++ [plugin]

/-- Adds all plugins other than the one with a key. -/
def addOthers (key : PluginKey) (collected plugins : List Plugin) : List Plugin :=
  (plugins.filter (·.key ≠ key)).foldl addPlugin collected

/-- The keys other than one. -/
def without (key : PluginKey) (keys : List PluginKey) : List PluginKey :=
  keys.filter (· ≠ key)

/-- Fewer keys are left once one of them is taken away. -/
theorem length_without_lt {key : PluginKey} {keys : List PluginKey} (member : key ∈ keys) :
    (without key keys).length < keys.length :=
  List.length_filter_lt_length_iff_exists.2 ⟨key, member, by simp⟩

/-- Meets a plugin that is on the path already. -/
def closeCycle (graph : DependencyGraph) (path : List PluginKey) (key : PluginKey) :
    Expansion (List Plugin) := do
  let members := path.dropWhile (· ≠ key)
  match graph.policy with
  | .failFast => throw (.cyclicDependency ((members ++ [key]).map PluginKey.id))
  | .degrade =>
    modify (·.markCycle members)
    return []

/-- The transitive dependencies of a plugin that is reached along a path, in the order in which they
are met. Only the plugins in `available` may be entered. -/
def expand (graph : DependencyGraph) (path available : List PluginKey) (plugin : Plugin) :
    Expansion (List Plugin) := do
  if _member : plugin.key ∈ available then
    match ((← get).descriptor plugin.key).transitive with
    | .done dependencies => return dependencies
    | _ =>
      let direct := graph.direct plugin
      modify (·.enter plugin.key direct)
      let dependencies ← direct.found.foldlM
        (fun collected dependency => do
          if dependency.key = plugin.key ∨ dependency.key ∈ collected.map Plugin.key then
            return collected
          else
            let transitive ← graph.expand (path ++ [plugin.key])
              (without plugin.key available) dependency
            return addOthers plugin.key (collected ++ [dependency]) transitive)
        []
      modify (·.leave plugin.key dependencies direct.missing)
      return dependencies
  else graph.closeCycle path plugin.key
termination_by available.length
decreasing_by exact length_without_lt _member

/-- The transitive dependencies of a plugin, each once and without the plugin itself. -/
def transitive (graph : DependencyGraph) (plugin : Plugin) : Expansion (List Plugin) := do
  try
    let dependencies ← graph.expand [] (graph.keysFrom plugin) plugin
    modify (·.settle plugin.key dependencies)
    return dependencies
  catch failure =>
    modify ClosureState.giveUp
    throw failure

end DependencyGraph

/-- The closure of a plugin on a platform. -/
structure Closure where
  /-- The transitive dependencies, each once. -/
  dependencies : List Plugin
  /-- What the plugin itself needs and was not found. -/
  missing : List Dependency
  cyclic : Bool
  /-- The classes of the plugin, of the platform, and of each dependency with its libraries. -/
  source : ClassSource

namespace DependencyGraph

/-- The sources that a plugin with these dependencies sees, in the order in which they are
searched. -/
def layers (graph : DependencyGraph) (plugin : Plugin) (dependencies : List Plugin) :
    List ClassSource :=
  plugin.classes :: graph.platform.classes ::
    dependencies.flatMap fun dependency => [dependency.classes, dependency.libraries]

/-- Computations that learn about closures and make sources, and may fail. -/
abbrev Resolving := ExceptT ClosureError (StateT ClosureState Shelved)

/-- An expansion among computations that make sources. -/
def resolving {α : Type} (expansion : Expansion α) : Resolving α :=
  fun state => pure (expansion.run.run state)

/-- The source that a plugin with these dependencies sees, made when it is first asked for. -/
def sourceOf (graph : DependencyGraph) (plugin : Plugin) (dependencies : List Plugin) :
    Resolving ClassSource := do
  match ((← getThe ClosureState).descriptor plugin.key).source with
  | some source => return source
  | none =>
    let source ← (ClassSource.unionOf (graph.layers plugin dependencies) : Shelved ClassSource)
    modifyThe ClosureState (·.update plugin.key fun known => { known with source := some source })
    return source

/-- The closure of a plugin. -/
def resolve (graph : DependencyGraph) (plugin : Plugin) : Resolving Closure := do
  let dependencies ← resolving (graph.transitive plugin)
  let source ← graph.sourceOf plugin dependencies
  let known := (← getThe ClosureState).descriptor plugin.key
  return { dependencies, missing := known.missing, cyclic := known.cyclic, source }

end DependencyGraph

end LinkCheck
