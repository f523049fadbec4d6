import LinkCheck.PluginLayout

/-!
# Plugins, platforms and catalogs

## Main definitions

- `PluginKey`, `Plugin` — a plugin by id and version, and what it declares
- `Platform` — the host of plugins, with the plugins it brings along
- `Catalog` — plugins that can be had from elsewhere
-/

namespace LinkCheck

/-- A plugin by its id and version. -/
structure PluginKey where
  id : String
  version : String
deriving DecidableEq, Inhabited, Repr

/-- The written form of a key. -/
def PluginKey.describe (key : PluginKey) : String :=
  key.id ++ ":" ++ key.version

/-- A plugin or module that another plugin needs. -/
structure Dependency where
  id : String
  isOptional : Bool
deriving DecidableEq, Inhabited, Repr

/-- A plugin with what it declares and the classes it brings. -/
structure Plugin where
  id : String
  version : String
  dependencies : List Dependency := []
  /-- Modules that the plugin needs. -/
  moduleDependencies : List String := []
  /-- Modules that the plugin provides. -/
  modules : List String := []
  classes : ClassSource
  libraries : ClassSource

namespace Plugin

/-- The id and version of a plugin. -/
def key (plugin : Plugin) : PluginKey :=
  { id := plugin.id, version := plugin.version }

/-- A plugin that brings the classes of a classpath and declares nothing. -/
def ofClasspath (id version : String) (classpath : PluginClasspath) : Plugin :=
  { id, version, classes := classpath.classes, libraries := classpath.libraries }

end Plugin

/-- The host of plugins: its own classes, and the plugins bundled with it. -/
structure Platform where
  /-- Tells apart platforms that carry the same version. -/
  ident : Nat
  version : String
  classes : ClassSource
  plugins : List Plugin := []

namespace Platform

/-- The first bundled plugin with an id. -/
def pluginById? (platform : Platform) (id : String) : Option Plugin :=
  platform.plugins.find? (·.id = id)

/-- The first bundled plugin that provides a module. -/
def pluginByModule? (platform : Platform) (module : String) : Option Plugin :=
  platform.plugins.find? (module ∈ ·.modules)

end Platform

/-- A plugin that can be had from elsewhere, for all platforms or for those of one version. -/
structure Offer where
  platformVersion : Option String := none
  plugin : Plugin

namespace Offer

/-- Whether an offer is for a platform of some version. -/
def isFor (version : String) (offer : Offer) : Bool :=
  offer.platformVersion.all (· = version)

/-- The first plugin with an id that is offered for a platform of some version. -/
def first? (offers : List Offer) (version id : String) : Option Plugin :=
  (offers.find? fun offer => isFor version offer && offer.plugin.id = id).map Offer.plugin

/-- The first plugin is one of those that are offered. -/
theorem mem_of_first? {offers : List Offer} {version id : String} {plugin : Plugin}
    (h : first? offers version id = some plugin) : plugin ∈ offers.map Offer.plugin := by
  obtain ⟨offer, hoffer, rfl⟩ := Option.map_eq_some_iff.1 h
  exact List.mem_map_of_mem (List.mem_of_find?_eq_some hoffer)

end Offer

/-- Plugins that can be had from elsewhere. A catalog may choose among its offers as it likes, as long
as it gives the same plugin whenever it is asked the same. -/
structure Catalog where
  offers : List Offer := []
  /-- Asking for the plugin with this id stops the session. -/
  stopsAt : Option String := none
  /-- The plugin that is given for a platform of some version when an id is asked for. -/
  find? : String → String → Option Plugin := Offer.first? offers
  /-- Nothing is given that is not among the offers. -/
  find?_mem : ∀ {version id : String} {plugin : Plugin}, find? version id = some plugin →
    plugin ∈ offers.map Offer.plugin := by exact Offer.mem_of_first?

namespace Catalog

/-- A catalog without offers. -/
def empty : Catalog := {}

@[simp]
theorem offers_empty : empty.offers = [] := rfl

/-- A catalog of some plugins for all platforms. Of several with the same id the last counts. -/
def ofPlugins (plugins : List Plugin) : Catalog :=
  { offers := plugins.reverse.map fun plugin => { plugin } }

end Catalog

end LinkCheck
