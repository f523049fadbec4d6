import LinkCheck.Closure
import Mathlib.Data.List.Nodup
import Mathlib.Logic.Relation

/-!
# Reachable plugins

What the closure of a plugin has to list: the other plugins that direct dependencies lead to, in one or
more steps.

## Main definitions

- `DependencyGraph.DependsOn`, `DependencyGraph.Reaches` — dependencies in one step, and in several
- `DependencyGraph.Lists` — a list holds all other plugins that a plugin reaches, each once
- `DependencyGraph.Lawful` — among some plugins, equal keys mean equal plugins
- `DependencyGraph.ClosedAt` — a list holds all that one of its plugins depends on
-/

namespace LinkCheck

namespace DependencyGraph

variable {graph : DependencyGraph} {known : Plugin → Prop}

/-- The plugins that dependencies can lead to. -/
def plugins (graph : DependencyGraph) : List Plugin :=
  graph.platform.plugins ++ graph.catalog.offers.map Offer.plugin

/-- A plugin has another among its direct dependencies. -/
def DependsOn (graph : DependencyGraph) (plugin other : Plugin) : Prop :=
  other ∈ (graph.direct plugin).found

/-- One or more direct dependencies lead from a plugin to another. -/
def Reaches (graph : DependencyGraph) : Plugin → Plugin → Prop :=
  Relation.TransGen graph.DependsOn

/-- The list holds exactly the plugins other than `plugin` that it reaches, each once. -/
structure Lists (graph : DependencyGraph) (plugin : Plugin) (dependencies : List Plugin) :
    Prop where
  nodup : (dependencies.map Plugin.key).Nodup
  mem_iff : ∀ other, other ∈ dependencies ↔ other ≠ plugin ∧ graph.Reaches plugin other

/-- Equal keys mean equal plugins among those that are known, which include all that dependencies can
lead to. -/
structure Lawful (graph : DependencyGraph) (known : Plugin → Prop) : Prop where
  apart : ∀ {plugin other : Plugin}, known plugin → known other → plugin.key = other.key →
    plugin = other
  offered : ∀ {plugin : Plugin}, plugin ∈ graph.plugins → known plugin

/-- The list holds all direct dependencies of the plugin. -/
def ClosedAt (graph : DependencyGraph) (listed : List Plugin) (plugin : Plugin) : Prop :=
  ∀ other, graph.DependsOn plugin other → other ∈ listed

theorem DependsOn.mem_plugins {plugin other : Plugin} (h : graph.DependsOn plugin other) :
    other ∈ graph.plugins := by
  rcases List.mem_append.1 h with h | h
  · obtain ⟨module, _, hfound⟩ := List.mem_filterMap.1 h
    exact List.mem_append_left _ (List.mem_of_find?_eq_some hfound)
  · obtain ⟨dependency, _, hfound⟩ := List.mem_filterMap.1 h
    cases hbundled : graph.platform.pluginById? dependency.id with
    | some bundled =>
      rw [pluginById?, hbundled] at hfound
      cases hfound
      exact List.mem_append_left _ (List.mem_of_find?_eq_some hbundled)
    | none =>
      rw [pluginById?, hbundled] at hfound
      exact List.mem_append_right _ (graph.catalog.find?_mem hfound)

theorem Reaches.mem_plugins {plugin other : Plugin} (h : graph.Reaches plugin other) :
    other ∈ graph.plugins := by
  obtain ⟨_, _, h⟩ := Relation.TransGen.tail'_iff.1 h
  exact h.mem_plugins

theorem ClosedAt.mono {small large : List Plugin} {plugin : Plugin}
    (h : graph.ClosedAt small plugin) (hsub : small ⊆ large) : graph.ClosedAt large plugin :=
  fun other hother => hsub (h other hother)

/-- A list that is closed at each of its plugins holds all that these reach. -/
theorem mem_of_reaches {listed : List Plugin} {plugin other : Plugin}
    (hclosed : ∀ each ∈ listed, graph.ClosedAt listed each) (hmem : plugin ∈ listed)
    (h : graph.Reaches plugin other) : other ∈ listed := by
  induction h with
  | single h => exact hclosed plugin hmem _ h
  | tail _ h ih => exact hclosed _ ih _ h

/-- The dependencies of a plugin are listed once the list is closed at the plugin and at each of
them. -/
theorem lists_of_closed {plugin : Plugin} {dependencies : List Plugin}
    (hnodup : (dependencies.map Plugin.key).Nodup) (hself : plugin ∉ dependencies)
    (hreached : ∀ other ∈ dependencies, graph.Reaches plugin other)
    (hclosed : ∀ each ∈ plugin :: dependencies,
      graph.ClosedAt (plugin :: dependencies) each) :
    graph.Lists plugin dependencies := by
  refine ⟨hnodup, fun other => ⟨fun hother => ⟨?_, hreached other hother⟩, ?_⟩⟩
  · rintro rfl
    exact hself hother
  · rintro ⟨hne, hreaches⟩
    have hmem := mem_of_reaches hclosed List.mem_cons_self hreaches
    exact (List.mem_cons.1 hmem).resolve_left hne

/-- What is listed is closed at the plugin and at each of its dependencies. -/
theorem Lists.closedAt {plugin each : Plugin} {dependencies : List Plugin}
    (h : graph.Lists plugin dependencies) (hmem : each ∈ plugin :: dependencies) :
    graph.ClosedAt (plugin :: dependencies) each := by
  intro other hother
  have hreaches : graph.Reaches plugin other := by
    rcases List.mem_cons.1 hmem with rfl | hmem
    · exact Relation.TransGen.single hother
    · exact ((h.mem_iff each).1 hmem).2.tail hother
  by_cases hself : other = plugin
  · rw [hself]
    exact List.mem_cons_self
  · exact List.mem_cons_of_mem _ ((h.mem_iff other).2 ⟨hself, hreaches⟩)

theorem Lists.not_mem_self {plugin : Plugin} {dependencies : List Plugin}
    (h : graph.Lists plugin dependencies) : plugin ∉ dependencies :=
  fun hmem => ((h.mem_iff plugin).1 hmem).1 rfl

namespace Lawful

variable {plugin : Plugin} {collected : List Plugin}

/-- A plugin whose key is among those of a list is itself in the list. -/
theorem mem_of_key_mem (law : graph.Lawful known) (hplugin : known plugin)
    (hcollected : ∀ each ∈ collected, known each) (h : plugin.key ∈ collected.map Plugin.key) :
    plugin ∈ collected := by
  obtain ⟨each, heach, hkey⟩ := List.mem_map.1 h
  rwa [← law.apart (hcollected each heach) hplugin hkey]

theorem mem_addPlugin (law : graph.Lawful known) (hplugin : known plugin)
    (hcollected : ∀ each ∈ collected, known each) (other : Plugin) :
    other ∈ addPlugin collected plugin ↔ other ∈ collected ∨ other = plugin := by
  unfold addPlugin
  split
  · next h =>
    have hmem := law.mem_of_key_mem hplugin hcollected h
    constructor
    · exact .inl
    · rintro (h | rfl)
      · exact h
      · exact hmem
  · simp

/-- Adding plugins adds those with another key. -/
theorem mem_addOthers (law : graph.Lawful known) (key : PluginKey) {added : List Plugin}
    (hadded : ∀ each ∈ added, known each) (hcollected : ∀ each ∈ collected, known each)
    (other : Plugin) :
    other ∈ addOthers key collected added ↔
      other ∈ collected ∨ (other ∈ added ∧ other.key ≠ key) := by
  unfold addOthers
  induction added generalizing collected with
  | nil => simp
  | cons first added ih =>
    have hrest : ∀ each ∈ added, known each := fun each h => hadded each (.tail _ h)
    by_cases hfirst : first.key = key
    · rw [List.filter_cons_of_neg (by simp [hfirst]), ih hrest hcollected]
      refine or_congr_right ⟨fun h => ⟨.tail _ h.1, h.2⟩, fun ⟨h, hne⟩ => ⟨?_, hne⟩⟩
      refine (List.mem_cons.1 h).resolve_left ?_
      rintro rfl
      exact hne hfirst
    · have hknown : known first := hadded first List.mem_cons_self
      have hnext : ∀ each ∈ addPlugin collected first, known each := by
        intro each heach
        rcases (law.mem_addPlugin hknown hcollected each).1 heach with h | rfl
        · exact hcollected each h
        · exact hknown
      rw [List.filter_cons_of_pos (by simp [hfirst]), List.foldl_cons, ih hrest hnext,
        law.mem_addPlugin hknown hcollected]
      constructor
      · rintro ((h | rfl) | ⟨h, hne⟩)
        · exact .inl h
        · exact .inr ⟨List.mem_cons_self, hfirst⟩
        · exact .inr ⟨.tail _ h, hne⟩
      · rintro (h | ⟨h, hne⟩)
        · exact .inl (.inl h)
        · rcases List.mem_cons.1 h with rfl | h
          · exact .inl (.inr rfl)
          · exact .inr ⟨h, hne⟩

end Lawful

theorem nodup_keys_concat {collected : List Plugin} {plugin : Plugin}
    (h : (collected.map Plugin.key).Nodup) (hfresh : plugin.key ∉ collected.map Plugin.key) :
    ((collected ++ [plugin]).map Plugin.key).Nodup := by
  rw [List.map_append, List.map_singleton, ← List.concat_eq_append]
  exact h.concat hfresh

theorem nodup_addPlugin {collected : List Plugin} (plugin : Plugin)
    (h : (collected.map Plugin.key).Nodup) :
    ((addPlugin collected plugin).map Plugin.key).Nodup := by
  unfold addPlugin
  split
  · exact h
  · next hfresh => exact nodup_keys_concat h hfresh

theorem nodup_addOthers (key : PluginKey) {collected : List Plugin} (added : List Plugin)
    (h : (collected.map Plugin.key).Nodup) :
    ((addOthers key collected added).map Plugin.key).Nodup := by
  unfold addOthers
  induction added.filter (·.key ≠ key) generalizing collected with
  | nil => exact h
  | cons plugin rest ih => exact ih (nodup_addPlugin plugin h)

end DependencyGraph

end LinkCheck
