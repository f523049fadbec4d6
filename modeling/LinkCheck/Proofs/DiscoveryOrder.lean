import LinkCheck.Proofs.CyclicPlugins
import LinkCheck.Proofs.ExactAnswers
import LinkCheck.Proofs.FlatChecks

/-!
# The order in which dependencies are met

Where cycles are tolerated, the dependencies of a plugin are the same whatever was asked before, but their
order need not be. The dependencies of a plugin on a cycle are kept if they were asked for, and then they
stand where an expansion would otherwise have cut the cycle. Apart from such plugins, the order is that of
an expansion that keeps nothing.

## Main definitions

- `DependencyGraph.survey` — the dependencies of a plugin, found anew, with cycles cut
- `DependencyGraph.Cornered` — a plugin leads to one that is on a cycle and was asked about

## Main results

- `DependencyGraph.survey_eq_of_available` — the same is found wherever the same plugins may be entered
- `DependencyGraph.meets_expand_surveyed` — apart from cornered plugins, an expansion gives what is found
  anew
- `DependencyGraph.Ordered.transitive` — and so does asking for dependencies, whatever was asked before
-/

namespace LinkCheck

namespace DependencyGraph

open Expansion

variable {graph : DependencyGraph} {known touched : Plugin → Prop}
  {sees : Plugin → List Plugin → ClassSource → Prop} {path available : List PluginKey}
  {root plugin other : Plugin} {trail dependencies : List Plugin} {state after : ClosureState}

/-- The dependencies of a plugin in the order in which they are met. A plugin that may not be entered is
not gone through. -/
def survey (graph : DependencyGraph) (available : List PluginKey) (plugin : Plugin) : List Plugin :=
  if plugin.key ∈ available then
    (graph.direct plugin).found.foldl
      (fun collected dependency =>
        if dependency.key = plugin.key ∨ dependency.key ∈ collected.map Plugin.key then collected
        else addOthers plugin.key (collected ++ [dependency])
          (graph.survey (without plugin.key available) dependency))
      []
  else []
termination_by available.length
decreasing_by exact length_without_lt ‹_›

/-- Goes to one dependency of a plugin, unless it is there already. -/
def surveyNext (graph : DependencyGraph) (available : List PluginKey) (plugin : Plugin)
    (collected : List Plugin) (dependency : Plugin) : List Plugin :=
  if dependency.key = plugin.key ∨ dependency.key ∈ collected.map Plugin.key then collected
  else addOthers plugin.key (collected ++ [dependency])
    (graph.survey (without plugin.key available) dependency)

theorem survey_entered (hmem : plugin.key ∈ available) :
    graph.survey available plugin =
      (graph.direct plugin).found.foldl (graph.surveyNext available plugin) [] := by
  rw [survey, if_pos hmem]
  rfl

theorem survey_met (hmem : plugin.key ∉ available) : graph.survey available plugin = [] := by
  rw [survey, if_neg hmem]

/-- What is found depends on no other plugins than those that can be reached. -/
theorem survey_eq_of_available {others : List PluginKey}
    (h : ∀ each, each = plugin ∨ graph.Reaches plugin each →
      (each.key ∈ available ↔ each.key ∈ others)) :
    graph.survey available plugin = graph.survey others plugin := by
  induction hlength : available.length using Nat.strongRecOn
    generalizing available others plugin with
  | _ length ih =>
  by_cases hmem : plugin.key ∈ available
  · have hmem' : plugin.key ∈ others := (h plugin (.inl rfl)).1 hmem
    rw [survey_entered hmem, survey_entered hmem']
    refine List.foldl_ext _ _ _ fun collected next hnext => ?_
    have hdepends : graph.DependsOn plugin next := hnext
    have hsame : graph.survey (without plugin.key available) next =
        graph.survey (without plugin.key others) next := by
      refine ih _ (hlength ▸ length_without_lt hmem) (fun each heach => ?_) rfl
      have hreached : graph.Reaches plugin each := by
        rcases heach with rfl | heach
        · exact .single hdepends
        · exact heach.head hdepends
      rw [mem_without, mem_without, h each (.inr hreached)]
    rw [surveyNext, surveyNext, hsame]
  · have hmem' : plugin.key ∉ others := fun hin => hmem ((h plugin (.inl rfl)).2 hin)
    rw [survey_met hmem, survey_met hmem']

/-- Along a trail the dependencies of a plugin on no cycle are those that are found from itself, as nothing
that it reaches is on the path. -/
theorem Trail.survey_eq (law : graph.Lawful known) (hroot : known root)
    (h : graph.Trail root trail plugin)
    (hfrontier : graph.Frontier root (trail.map Plugin.key) available)
    (hpath : plugin.key ∉ trail.map Plugin.key) (hnone : ¬graph.OnCycle plugin) :
    graph.survey available plugin = graph.survey (graph.keysFrom plugin) plugin := by
  refine survey_eq_of_available fun each heach => ?_
  by_cases hself : each = plugin
  · subst hself
    refine iff_of_true ?_ ((Frontier.start graph each each List.mem_cons_self).2 (by simp))
    exact (hfrontier each h.end_mem).2 hpath
  · have hto : graph.Reaches plugin each := heach.resolve_left hself
    have hoff : each.key ∉ trail.map Plugin.key := by
      intro hon
      have hback := h.reaches (h.mem_of_key law hroot (law.offered hto.mem_plugins) hon)
      exact hnone (.of_reaches hself hto hback)
    refine iff_of_true ((hfrontier each (.tail _ hto.mem_plugins)).2 hoff) ?_
    exact (Frontier.start graph plugin each (.tail _ hto.mem_plugins)).2 (by simp)

/-- The dependencies that are kept are those that are found anew, apart from plugins that have been
touched. -/
def Steady (graph : DependencyGraph) (known touched : Plugin → Prop) (state : ClosureState) : Prop :=
  ∀ plugin, known plugin → ¬touched plugin → ∀ dependencies,
    state.progress plugin.key = .done dependencies →
      dependencies = graph.survey (graph.keysFrom plugin) plugin

/-- A plugin that reaches one that has been touched has been touched. -/
def Upward (graph : DependencyGraph) (touched : Plugin → Prop) : Prop :=
  ∀ first second, graph.Reaches first second → touched second → touched first

theorem Upward.shared (h : graph.Upward touched) : graph.Shared touched :=
  fun first second _ hback htouched => h second first hback htouched

theorem Steady.mono (h : graph.Steady known touched state)
    (hkept : ∀ key dependencies, after.progress key = .done dependencies →
      state.progress key = .done dependencies) : graph.Steady known touched after :=
  fun plugin hplugin huntouched dependencies hdone =>
    h plugin hplugin huntouched dependencies (hkept _ _ hdone)

theorem Steady.enter (h : graph.Steady known touched state) (key : PluginKey)
    (direct : DirectDependencies) : graph.Steady known touched (state.enter key direct) := by
  apply h.mono
  intro other dependencies hdone
  by_cases hkey : other = key
  · rw [hkey, ClosureState.progress_enter_self] at hdone
    cases hdone
  · rwa [ClosureState.progress_enter_of_ne hkey] at hdone

theorem Steady.markCycle (h : graph.Steady known touched state) (members : List PluginKey) :
    graph.Steady known touched (state.markCycle members) := by
  apply h.mono
  intro other dependencies hdone
  rw [ClosureState.progress_markCycle] at hdone
  split at hdone
  · cases hdone
  · exact hdone

/-- What is kept when a plugin is left, or settled, is what has been gathered. -/
theorem Steady.of_progress_self (law : graph.Lawful known) (hplugin : known plugin)
    (h : graph.Steady known touched state)
    (hothers : ∀ key, key ≠ plugin.key → after.progress key = state.progress key)
    (hself : ¬touched plugin → ∀ dependencies, after.progress plugin.key = .done dependencies →
      dependencies = graph.survey (graph.keysFrom plugin) plugin) :
    graph.Steady known touched after := by
  intro other hother huntouched dependencies hdone
  by_cases hkey : other.key = plugin.key
  · obtain rfl := law.apart hother hplugin hkey
    exact hself huntouched dependencies hdone
  · rw [hothers _ hkey] at hdone
    exact h other hother huntouched dependencies hdone

/-- What an expansion gives, apart from plugins that have been touched. -/
structure Surveyed (graph : DependencyGraph) (known touched : Plugin → Prop)
    (available : List PluginKey) (plugin : Plugin) (found : List Plugin) (after : ClosureState) :
    Prop where
  steady : graph.Steady known touched after
  listed : ¬touched plugin → found = graph.survey available plugin

/-- What holds while the dependencies of a plugin are gone through: the rest of what would be found anew
comes next. -/
structure Surveying (graph : DependencyGraph) (known touched : Plugin → Prop)
    (available : List PluginKey) (plugin : Plugin) (rest collected : List Plugin)
    (state : ClosureState) : Prop where
  steady : graph.Steady known touched state
  listed : ¬touched plugin →
    rest.foldl (graph.surveyNext available plugin) collected = graph.survey available plugin

theorem surveys_visit (hupward : graph.Upward touched) (path : List PluginKey) {next : Plugin}
    {rest collected : List Plugin} (hdepends : graph.DependsOn plugin next)
    (h : graph.Surveying known touched available plugin (next :: rest) collected state)
    (hexpand : next.key ≠ plugin.key →
      Meets (graph.Surveyed known touched (without plugin.key available) next) (fun _ => False)
        (outcome (graph.expand (path ++ [plugin.key]) (without plugin.key available) next) state)) :
    Meets (graph.Surveying known touched available plugin rest) (fun _ => False)
      (outcome (graph.visit path available plugin collected next) state) := by
  by_cases hskip : next.key = plugin.key ∨ next.key ∈ collected.map Plugin.key
  · rw [outcome_visit_skipped hskip]
    refine ⟨h.steady, fun huntouched => ?_⟩
    rw [← h.listed huntouched, List.foldl_cons, surveyNext, if_pos hskip]
  · have hmeets := hexpand (not_or.1 hskip).1
    refine meets_visit_entered hskip (hmeets.imp (fun transitive after hnext => ?_) fun _ => id)
    refine ⟨hnext.steady, fun huntouched => ?_⟩
    have htransitive := hnext.listed fun htouched =>
      huntouched (hupward plugin next (.single hdepends) htouched)
    rw [← h.listed huntouched, List.foldl_cons, surveyNext, if_neg hskip, htransitive]

/-- An expansion from a plugin that has not been touched gives what is found anew. The induction is on the
plugins that may still be entered; that no cycle goes through a plugin whose dependencies are kept is taken
from `meets_expand_noticed`. -/
theorem meets_expand_surveyed (law : graph.Lawful known) (hpolicy : graph.policy = .degrade)
    (hupward : graph.Upward touched) (hroot : known root) (trail : List Plugin)
    (hfrontier : graph.Frontier root (trail.map Plugin.key) available)
    (htrail : graph.Trail root trail plugin) (hsound : state.Sound graph known sees)
    (hundone : ∀ key ∈ trail.map Plugin.key, state.Undone key)
    (hmarked : graph.Marked known touched state) (hsteady : graph.Steady known touched state) :
    Meets (graph.Surveyed known touched available plugin) (fun _ => False)
      (outcome (graph.expand (trail.map Plugin.key) available plugin) state) := by
  induction hlength : available.length using Nat.strongRecOn
    generalizing trail available plugin state with
  | _ length ih =>
  have hknown := htrail.forall_known law hroot plugin (by simp)
  by_cases hmem : plugin.key ∈ available
  · have hpath : plugin.key ∉ trail.map Plugin.key := (hfrontier plugin htrail.end_mem).1 hmem
    by_cases hdone : state.Finished plugin.key
    · obtain ⟨dependencies, hdone⟩ := hdone
      rw [outcome_expand_done hmem hdone]
      refine ⟨hsteady, fun huntouched => ?_⟩
      have hnone : ¬graph.OnCycle plugin := fun hcycle =>
        huntouched (hmarked.settled plugin hknown ⟨_, hdone⟩ hcycle)
      rw [htrail.survey_eq law hroot hfrontier hpath hnone]
      exact hsteady plugin hknown huntouched dependencies hdone
    · have hfresh : state.Undone plugin.key := ClosureState.undone_iff_not_finished.2 hdone
      have hpaths : trail.map Plugin.key ++ [plugin.key] = (trail ++ [plugin]).map Plugin.key := by
        simp
      have hloop := meets_foldlM (graph.visit (trail.map Plugin.key) available plugin)
        (fun rest collected current =>
          graph.Surveying known touched available plugin rest collected current ∧
            graph.Gathered known sees (trail.map Plugin.key) plugin
                (state.enter plugin.key (graph.direct plugin)) rest collected current ∧
              graph.Noticing known touched (trail.map Plugin.key) plugin
                (state.enter plugin.key (graph.direct plugin)) collected current)
        (fun _ => False) (fun next rest collected current ⟨hsurveying, hgathered, hnoticing⟩ => by
          have hdepends : graph.DependsOn plugin next := hgathered.left next List.mem_cons_self
          have hfrontier' := hfrontier.enter plugin.key
          have hundone' := hgathered.keepsPath.undone (graph.undone_enter plugin hundone)
          have hsurvey := surveys_visit hupward (trail.map Plugin.key) hdepends hsurveying
            fun hne => by
              rw [hpaths] at hfrontier' hundone' ⊢
              exact ih _ (hlength ▸ length_without_lt hmem) _ hfrontier'
                (htrail.enter hpath hdepends hne) hgathered.sound hundone' hnoticing.marked
                hsurveying.steady rfl
          have hnotices := notices_visit law hroot hfrontier htrail hpath hundone hgathered hnoticing
            fun hfrontier' htrail' hundone' => meets_expand_noticed law hpolicy hupward.shared hroot _
              hfrontier' htrail' hgathered.sound hundone' hnoticing.marked
          exact (hsurvey.and hnotices).imp (fun _ _ => id) fun _ h => h.1)
        _ _ _ ⟨⟨hsteady.enter _ _, fun _ => (survey_entered hmem).symm⟩,
          Gathered.start hsound hfresh, Noticing.start hmarked⟩
      refine meets_expand_entered hmem hfresh (hloop.imp (fun dependencies after h => ?_) fun _ => id)
      obtain ⟨hsurveying, hgathered, hnoticing⟩ := h
      have hnoticed := hnoticing.leave law hroot hupward.shared htrail hpath hgathered
      have hkept := (hgathered.leave law hknown hpath).kept hpath
      refine ⟨hsurveying.steady.of_progress_self law hknown ?_ ?_, hsurveying.listed⟩
      · exact fun key hne => ClosureState.progress_leave_of_ne hne _ _
      · -- The dependencies are kept only if the plugin is on no cycle.
        intro huntouched others hothers
        have hnone : ¬graph.OnCycle plugin := fun hcycle =>
          huntouched (hnoticed.marked.settled plugin hknown ⟨_, hothers⟩ hcycle)
        have hsame : others = dependencies := by
          obtain hnow | hundone := hkept
          · exact Transitive.done.inj (hothers.symm.trans hnow)
          · exact absurd hothers (hundone others)
        rw [hsame, ← htrail.survey_eq law hroot hfrontier hpath hnone]
        exact hsurveying.listed huntouched
  · rw [outcome_expand_met hmem, outcome_closeCycle_degrade hpolicy]
    exact ⟨hsteady.markCycle _, fun _ => (survey_met hmem).symm⟩

/-- A plugin on a cycle was asked about, and it is the plugin itself or one that the plugin reaches. -/
def Cornered (graph : DependencyGraph) (asked : List Plugin) (plugin : Plugin) : Prop :=
  ∃ each ∈ asked, graph.OnCycle each ∧ (each = plugin ∨ graph.Reaches plugin each)

theorem upward_cornered (graph : DependencyGraph) (asked : List Plugin) :
    graph.Upward (graph.Cornered asked) := by
  intro first second hto hcornered
  obtain ⟨each, heach, hcycle, hreached⟩ := hcornered
  refine ⟨each, heach, hcycle, .inr ?_⟩
  obtain rfl | hreached := hreached
  · exact hto
  · exact hto.trans hreached

theorem Cornered.concat {asked : List Plugin} (h : graph.Cornered asked other) (plugin : Plugin) :
    graph.Cornered (asked ++ [plugin]) other := by
  obtain ⟨each, heach, hcornered⟩ := h
  exact ⟨each, List.mem_append_left _ heach, hcornered⟩

/-- What is known once the closures of some plugins have been asked for. -/
structure Ordered (graph : DependencyGraph) (known : Plugin → Prop)
    (sees : Plugin → List Plugin → ClassSource → Prop) (asked : List Plugin) (state : ClosureState) :
    Prop where
  sound : state.Sound graph known sees
  marked : graph.Marked known (graph.Cornered asked) state
  steady : graph.Steady known (graph.Cornered asked) state

theorem Ordered.empty (graph : DependencyGraph) (known : Plugin → Prop)
    (sees : Plugin → List Plugin → ClassSource → Prop) : graph.Ordered known sees [] {} where
  sound := .empty graph known sees
  marked := .empty graph known _
  steady := fun _ _ _ _ hdone => by cases hdone

/-- Asking for the dependencies of a plugin gives what is found anew, unless it is cornered by earlier
questions. -/
theorem Ordered.transitive (law : graph.Lawful known) (hpolicy : graph.policy = .degrade)
    (hplugin : known plugin) {asked : List Plugin} (h : graph.Ordered known sees asked state)
    (hok : outcome (graph.transitive plugin) state = (.ok dependencies, after)) :
    (¬graph.Cornered asked plugin →
        dependencies = graph.survey (graph.keysFrom plugin) plugin) ∧
      graph.Ordered known sees (asked ++ [plugin]) after := by
  have hupward := graph.upward_cornered asked
  have hsettled := settled_of_transitive law hplugin h.sound hok
  obtain ⟨_, _, hmarked⟩ := noticed_transitive law hpolicy hupward.shared hplugin h.sound h.marked hok
  have hsurveyed := meets_expand_surveyed law hpolicy hupward hplugin []
    (Frontier.start graph plugin) (Trail.start graph plugin) h.sound (by simp) h.marked h.steady
  rw [outcome_transitive] at hok
  rcases hresult : outcome (graph.expand [] (graph.keysFrom plugin) plugin) state with
    ⟨_ | found, ended⟩
  · rw [hresult] at hok
    cases hok
  · rw [hresult] at hok
    rw [List.map_nil, hresult] at hsurveyed
    cases hok
    refine ⟨hsurveyed.listed, hsettled.sound, ?_, ?_⟩
    · refine hmarked _ (fun each heach => heach.concat plugin) fun hcycle => ?_
      exact ⟨plugin, List.mem_append_right _ (List.mem_singleton_self plugin), hcycle, .inl rfl⟩
    · have hweaker : graph.Steady known (graph.Cornered (asked ++ [plugin])) ended :=
        fun other hother hfree => hsurveyed.steady other hother fun heach => hfree (heach.concat plugin)
      apply hweaker.of_progress_self law hplugin
      · intro key hne
        simp only [ClosureState.progress, ClosureState.descriptor_settle_of_ne hne]
      · intro hfree others hothers
        have hsame : others = dependencies :=
          Transitive.done.inj (hothers.symm.trans hsettled.done)
        rw [hsame]
        exact hsurveyed.listed fun heach => hfree (heach.concat plugin)

theorem Ordered.see {asked : List Plugin} (h : graph.Ordered known sees asked state)
    (key : PluginKey) (source : ClassSource)
    (hsound : (state.see key source).Sound graph known sees) :
    graph.Ordered known sees asked (state.see key source) where
  sound := hsound
  marked := h.marked.see key source
  steady := h.steady.mono fun other dependencies hdone => by
    rwa [ClosureState.progress_see] at hdone

/-- A question is answered from what is known, and what it adds is right. -/
theorem Ordered.perform (law : graph.Lawful known) (hpolicy : graph.policy = .degrade)
    {asked : List Plugin} {before : ClosureState × Shelf} {call : ClosureCall}
    (hplugin : known call.plugin) (h : graph.Ordered known sees asked before.1)
    (hmade : ∀ dependencies, graph.Lists call.plugin dependencies → sees call.plugin dependencies
      ((ClassSource.unionOf (graph.layers call.plugin dependencies)).run before.2).1) :
    graph.Ordered known sees (asked ++ [call.plugin]) (graph.perform before call).1 := by
  obtain ⟨dependencies, after, hok⟩ := transitive_degrade_ok law hpolicy hplugin h.sound
  have hafter := (h.transitive law hpolicy hplugin hok).2
  have hsound : (graph.perform before call).1.Sound graph known sees := by
    cases call with
    | transitive plugin => exact sound_transitive law hplugin h.sound
    | resolve plugin => exact (sound_resolve law hplugin h.sound before.2 hmade).2.1
  obtain hasked | ⟨others, ended, source, hended, hseen⟩ := graph.perform_cases before call
  · rw [hasked, hok]
    exact hafter
  · rw [hok] at hended
    cases hended
    rw [hseen] at hsound ⊢
    exact hafter.see _ _ hsound

/-- A source that was made at some time of the layers of a plugin with these dependencies. -/
def MadeOf (graph : DependencyGraph) (plugin : Plugin) (dependencies : List Plugin)
    (source : ClassSource) : Prop :=
  ∃ shelf, ((ClassSource.unionOf (graph.layers plugin dependencies)).run shelf).1 = source

/-- What is known is right after any questions. -/
theorem ordered_history (law : graph.Lawful known) (hpolicy : graph.policy = .degrade)
    (shelf : Shelf) (calls : List ClosureCall)
    (hcalls : ∀ other ∈ calls.map ClosureCall.plugin, known other) :
    graph.Ordered known graph.MadeOf (calls.map ClosureCall.plugin)
      (calls.foldl graph.perform ({}, shelf)).1 := by
  induction calls using List.reverseRecOn with
  | nil => exact .empty graph known _
  | append_singleton calls call ih =>
    rw [List.map_append] at hcalls
    have hbefore := ih fun other hother => hcalls other (List.mem_append_left _ hother)
    rw [List.foldl_concat, List.map_append]
    exact hbefore.perform law hpolicy (hcalls call.plugin (by simp)) fun _ _ => ⟨_, rfl⟩

/-- The closure of a plugin after some questions, and what is known and remembered then. -/
def resolveAfter (graph : DependencyGraph) (shelf : Shelf) (calls : List ClosureCall)
    (plugin : Plugin) : (Except ClosureError Closure × ClosureState) × Shelf :=
  let now := calls.foldl graph.perform ({}, shelf)
  runWith (graph.resolve plugin) now.1 now.2

/-- Whatever was asked before, a closure lists all that its plugin reaches, and its source is made of the
layers in this order. The order is that of what is found anew, unless the plugin is cornered. -/
theorem resolveAfter_ordered (law : graph.Lawful known) (hpolicy : graph.policy = .degrade)
    (hplugin : known plugin) (shelf : Shelf) (calls : List ClosureCall)
    (hcalls : ∀ other ∈ calls.map ClosureCall.plugin, known other) :
    ∃ closure, (graph.resolveAfter shelf calls plugin).1.1 = .ok closure ∧
      graph.Lists plugin closure.dependencies ∧
      graph.MadeOf plugin closure.dependencies closure.source ∧
      (¬graph.Cornered (calls.map ClosureCall.plugin) plugin →
        closure.dependencies = graph.survey (graph.keysFrom plugin) plugin) := by
  have hordered := ordered_history law hpolicy shelf calls hcalls
  rw [resolveAfter]
  obtain ⟨dependencies, after, hok⟩ := transitive_degrade_ok law hpolicy hplugin hordered.sound
  obtain ⟨closure, hclosure, hsame, _⟩ :=
    exists_resolve_ok hok (calls.foldl graph.perform ({}, shelf)).2
  obtain ⟨hresolved, _, _⟩ := sound_resolve law hplugin hordered.sound
    (calls.foldl graph.perform ({}, shelf)).2 fun _ _ => ⟨_, rfl⟩
  obtain ⟨hlists, _, hmade⟩ := hresolved closure hclosure
  refine ⟨closure, hclosure, hlists, hmade, fun hfree => ?_⟩
  rw [hsame]
  exact (hordered.transitive law hpolicy hplugin hok).1 hfree

/-- The sources that the platform and some plugins bring are coherent, and an inventory knows them. -/
structure Supplied (graph : DependencyGraph) (inventory : Inventory) (files : FileTree)
    (plugins : List Plugin) : Prop where
  grounded : ∀ source ∈ graph.platform.classes ::
    plugins.flatMap fun plugin => [plugin.classes, plugin.libraries], source.Grounded inventory files
  coherent : ∀ source ∈ graph.platform.classes ::
    plugins.flatMap fun plugin => [plugin.classes, plugin.libraries], source.Coherent files

/-- The layers of a plugin are among the sources that plugins and the platform bring. -/
theorem mem_sources_of_mem_layers {plugins : List Plugin} {layer : ClassSource}
    (hplugins : ∀ other ∈ graph.plugins, other ∈ plugins) (hplugin : plugin ∈ plugins)
    (hlists : graph.Lists plugin dependencies) (h : layer ∈ graph.layers plugin dependencies) :
    layer ∈ graph.platform.classes ::
      plugins.flatMap fun plugin => [plugin.classes, plugin.libraries] := by
  obtain rfl | h := List.mem_cons.1 h
  · exact .tail _ (List.mem_flatMap.2 ⟨plugin, hplugin, List.mem_cons_self⟩)
  obtain rfl | h := List.mem_cons.1 h
  · exact List.mem_cons_self
  obtain ⟨other, hother, hlayer⟩ := List.mem_flatMap.1 h
  have hreached := ((hlists.mem_iff other).1 hother).2
  exact .tail _ (List.mem_flatMap.2 ⟨other, hplugins other hreached.mem_plugins, hlayer⟩)

/-- The answer of the first layer that lists a name. -/
def seen (graph : DependencyGraph) (files : FileTree) (plugin : Plugin) (dependencies : List Plugin)
    (name : ClassName) : FindResult :=
  ((graph.layers plugin dependencies).findSome? (ClassSource.told? files name)).getD (.ok none)

/-- A coherent source that stands for what a plugin sees. -/
def Shows (graph : DependencyGraph) (inventory : Inventory) (files : FileTree) (plugin : Plugin)
    (dependencies : List Plugin) (source : ClassSource) : Prop :=
  graph.Sees inventory files plugin dependencies source ∧ source.Coherent files

section Runs

variable {inventory : Inventory} {shelf : Shelf} {plugins : List Plugin}

/-- The source that is made of the layers of a plugin shows what the plugin sees, and making it keeps what
is remembered right. -/
theorem shows_unionOf (hexact : shelf.Exact inventory)
    (hsupplied : graph.Supplied inventory shelf.files plugins)
    (hplugins : ∀ other ∈ graph.plugins, other ∈ plugins) (hplugin : plugin ∈ plugins)
    (hlists : graph.Lists plugin dependencies) :
    graph.Shows inventory shelf.files plugin dependencies
        ((ClassSource.unionOf (graph.layers plugin dependencies)).run shelf).1 ∧
      shelf.Keeps inventory
        ((ClassSource.unionOf (graph.layers plugin dependencies)).run shelf).2 ∧
      ((ClassSource.unionOf (graph.layers plugin dependencies)).run shelf).2.Exact inventory := by
  have hmem : ∀ layer ∈ graph.layers plugin dependencies, _ :=
    fun _ hlayer => mem_sources_of_mem_layers hplugins hplugin hlists hlayer
  have hgrounded := fun layer hlayer => hsupplied.grounded layer (hmem layer hlayer)
  have hcoherent := fun layer hlayer => hsupplied.coherent layer (hmem layer hlayer)
  obtain ⟨hground, hlayers, hkeeps⟩ := ClassSource.layers_unionOf hexact.toTruthful hgrounded
  exact ⟨⟨⟨hground, hlayers⟩, ClassSource.coherent_unionOf hexact.toTruthful hgrounded hcoherent⟩,
    hkeeps, ClassSource.exact_unionOf hexact hgrounded⟩

/-- Resolving a closure keeps what is remembered right. -/
theorem exact_resolve (law : graph.Lawful (· ∈ plugins)) (hexact : shelf.Exact inventory)
    (hsupplied : graph.Supplied inventory shelf.files plugins)
    (hplugins : ∀ other ∈ graph.plugins, other ∈ plugins) (hplugin : plugin ∈ plugins)
    (h : state.Sound graph (· ∈ plugins) (graph.Shows inventory shelf.files)) :
    shelf.Keeps inventory (runWith (graph.resolve plugin) state shelf).2 ∧
      (runWith (graph.resolve plugin) state shelf).2.Exact inventory := by
  have hmade : ∀ dependencies, graph.Lists plugin dependencies → _ :=
    fun _ hlists => shows_unionOf hexact hsupplied hplugins hplugin hlists
  obtain ⟨_, _, hsame | ⟨dependencies, hlists, hnow⟩⟩ := sound_resolve law hplugin h shelf
    fun dependencies hlists => (hmade dependencies hlists).1
  · rw [hsame]
    exact ⟨.refl hexact.toTruthful, hexact⟩
  · rw [hnow]
    exact (hmade dependencies hlists).2

/-- A question keeps what plugins are shown, and what is remembered, right. -/
theorem shown_perform (law : graph.Lawful (· ∈ plugins)) {before : ClosureState × Shelf}
    {call : ClosureCall} (hexact : before.2.Exact inventory)
    (hsupplied : graph.Supplied inventory before.2.files plugins)
    (hplugins : ∀ other ∈ graph.plugins, other ∈ plugins) (hplugin : call.plugin ∈ plugins)
    (h : before.1.Sound graph (· ∈ plugins) (graph.Shows inventory before.2.files)) :
    (graph.perform before call).1.Sound graph (· ∈ plugins)
        (graph.Shows inventory before.2.files) ∧
      before.2.Keeps inventory (graph.perform before call).2 ∧
      (graph.perform before call).2.Exact inventory := by
  cases call with
  | transitive plugin =>
    exact ⟨sound_transitive law hplugin h, .refl hexact.toTruthful, hexact⟩
  | resolve plugin =>
    have hsound := (sound_resolve law hplugin h before.2 fun dependencies hlists =>
      (shows_unionOf hexact hsupplied hplugins hplugin hlists).1).2.1
    exact ⟨hsound, exact_resolve law hexact hsupplied hplugins hplugin h⟩

theorem shown_history (law : graph.Lawful (· ∈ plugins)) (hexact : shelf.Exact inventory)
    (hsupplied : graph.Supplied inventory shelf.files plugins)
    (hplugins : ∀ other ∈ graph.plugins, other ∈ plugins) (calls : List ClosureCall)
    (hcalls : ∀ other ∈ calls.map ClosureCall.plugin, other ∈ plugins) :
    (calls.foldl graph.perform ({}, shelf)).1.Sound graph (· ∈ plugins)
        (graph.Shows inventory shelf.files) ∧
      shelf.Keeps inventory (calls.foldl graph.perform ({}, shelf)).2 ∧
      (calls.foldl graph.perform ({}, shelf)).2.Exact inventory := by
  induction calls using List.reverseRecOn with
  | nil => exact ⟨.empty graph _ _, .refl hexact.toTruthful, hexact⟩
  | append_singleton calls call ih =>
    rw [List.map_append] at hcalls
    obtain ⟨hsound, hkeeps, hnow⟩ :=
      ih fun other hother => hcalls other (List.mem_append_left _ hother)
    rw [List.foldl_concat]
    generalize calls.foldl graph.perform ({}, shelf) = before at hsound hkeeps hnow
    -- All that is said of files is said of the same ones.
    rw [← hkeeps.files] at hsound hsupplied ⊢
    obtain ⟨hafter, hshelf, hlater⟩ := shown_perform law hnow hsupplied hplugins
      (hcalls call.plugin (by simp)) hsound
    exact ⟨hafter, hkeeps.trans hshelf, hlater⟩

/-- Whatever was asked before, a closure finds each class in the first layer that lists it. -/
theorem find_resolveAfter (law : graph.Lawful (· ∈ plugins)) (hexact : shelf.Exact inventory)
    (hsupplied : graph.Supplied inventory shelf.files plugins)
    (hplugins : ∀ other ∈ graph.plugins, other ∈ plugins) {calls : List ClosureCall}
    (hcalls : ∀ other ∈ calls.map ClosureCall.plugin, other ∈ plugins) (hplugin : plugin ∈ plugins)
    {closure : Closure} (h : (graph.resolveAfter shelf calls plugin).1.1 = .ok closure)
    (name : ClassName) :
    ((closure.source.find name).run (graph.resolveAfter shelf calls plugin).2).1 =
      graph.seen shelf.files plugin closure.dependencies name := by
  obtain ⟨hsound, hkeeps, hnow⟩ := shown_history law hexact hsupplied hplugins calls hcalls
  rw [resolveAfter] at h ⊢
  generalize calls.foldl graph.perform ({}, shelf) = now at h hsound hkeeps hnow
  rw [← hkeeps.files] at hsound hsupplied ⊢
  obtain ⟨hresolved, _, _⟩ := sound_resolve law hplugin hsound now.2
    fun dependencies hlists => (shows_unionOf hnow hsupplied hplugins hplugin hlists).1
  obtain ⟨hlists, _, hsees, hcoherent⟩ := hresolved closure h
  obtain ⟨hkept, hafter⟩ := exact_resolve law hnow hsupplied hplugins hplugin hsound
  have hlayers := hsees.layers fun layer hlayer => (hsupplied.coherent layer
    (mem_sources_of_mem_layers hplugins hplugin hlists hlayer)).definite
  -- What the source tells when nothing is remembered is what it finds now.
  rw [← hkept.files] at hlayers hcoherent hsees ⊢
  rw [seen, ← hlayers.told name]
  exact hsees.grounded.find_eq hafter hcoherent name

end Runs

theorem Lists.perm {others : List Plugin} (h : graph.Lists plugin dependencies)
    (h' : graph.Lists plugin others) : dependencies.Perm others := by
  refine (List.perm_ext_iff_of_nodup (.of_map _ h.nodup) (.of_map _ h'.nodup)).2 fun each => ?_
  rw [h.mem_iff, h'.mem_iff]

/-- Tolerating cycles, the closure of a plugin after two different histories lists the same dependencies,
possibly in different orders, and has a source made of the layers in this order. If no question of either
history is about a plugin on a cycle that the plugin is or reaches, the order is the same as well. Where the
sources are coherent, each class is then found in the same layer, the first that lists it. -/
theorem resolve_order_steady (graph : DependencyGraph) (hpolicy : graph.policy = .degrade)
    (shelf : Shelf) (plugin : Plugin) (first second : List ClosureCall)
    (hkeys : KeysTellApart
      (graph.plugins ++ plugin :: (first ++ second).map ClosureCall.plugin)) :
    ∃ one other,
      (graph.resolveAfter shelf first plugin).1.1 = .ok one ∧
        (graph.resolveAfter shelf second plugin).1.1 = .ok other ∧
        one.dependencies.Perm other.dependencies ∧
        graph.MadeOf plugin one.dependencies one.source ∧
        graph.MadeOf plugin other.dependencies other.source ∧
        ((∀ call ∈ first ++ second, graph.OnCycle call.plugin →
            call.plugin ≠ plugin ∧ ¬graph.Reaches plugin call.plugin) →
          one.dependencies = other.dependencies ∧
            ∀ inventory : Inventory, shelf.Exact inventory →
              graph.Supplied inventory shelf.files
                (graph.plugins ++ plugin :: (first ++ second).map ClosureCall.plugin) →
              ∀ name, ((one.source.find name).run (graph.resolveAfter shelf first plugin).2).1 =
                    graph.seen shelf.files plugin one.dependencies name ∧
                  ((other.source.find name).run (graph.resolveAfter shelf second plugin).2).1 =
                    graph.seen shelf.files plugin one.dependencies name) := by
  have law := lawful_of_keysTellApart hkeys
  have hplugin : plugin ∈ graph.plugins ++ plugin :: (first ++ second).map ClosureCall.plugin :=
    List.mem_append_right _ List.mem_cons_self
  have hfirst : ∀ each ∈ first.map ClosureCall.plugin,
      each ∈ graph.plugins ++ plugin :: (first ++ second).map ClosureCall.plugin := by
    intro each heach
    rw [List.map_append]
    exact List.mem_append_right _ (.tail _ (List.mem_append_left _ heach))
  have hsecond : ∀ each ∈ second.map ClosureCall.plugin,
      each ∈ graph.plugins ++ plugin :: (first ++ second).map ClosureCall.plugin := by
    intro each heach
    rw [List.map_append]
    exact List.mem_append_right _ (.tail _ (List.mem_append_right _ heach))
  obtain ⟨one, hone, hlists, hmade, horder⟩ :=
    resolveAfter_ordered law hpolicy hplugin shelf first hfirst
  obtain ⟨other, hother, hlists', hmade', horder'⟩ :=
    resolveAfter_ordered law hpolicy hplugin shelf second hsecond
  refine ⟨one, other, hone, hother, hlists.perm hlists', hmade, hmade', fun hclear => ?_⟩
  have hfree : ∀ calls : List ClosureCall, (∀ call ∈ calls, call ∈ first ++ second) →
      ¬graph.Cornered (calls.map ClosureCall.plugin) plugin := by
    rintro calls hcalls ⟨each, heach, hcycle, hreached⟩
    obtain ⟨call, hcall, rfl⟩ := List.mem_map.1 heach
    obtain ⟨hne, hnot⟩ := hclear call (hcalls call hcall) hcycle
    exact hreached.elim hne hnot
  have hsame : one.dependencies = other.dependencies :=
    (horder (hfree first fun _ => List.mem_append_left _)).trans
      (horder' (hfree second fun _ => List.mem_append_right _)).symm
  refine ⟨hsame, fun inventory hexact hsupplied name => ⟨?_, ?_⟩⟩
  · exact find_resolveAfter law hexact hsupplied (fun _ => List.mem_append_left _) hfirst hplugin
      hone name
  · rw [hsame]
    exact find_resolveAfter law hexact hsupplied (fun _ => List.mem_append_left _) hsecond hplugin
      hother name

/-- An archive with one class, which is in the wrong place. -/
def strayArchive (moniker : String) : ReadArchive where
  moniker := moniker
  classes := ⟨[(⟨"x/X"⟩, .error (.nameMismatch ⟨"x/X"⟩ ⟨moniker⟩))]⟩
  hasDescriptor := false

/-- A plugin that needs one that needs it again, and a third. -/
def crossP : Plugin where
  id := "p"
  version := "1"
  dependencies := [{ id := "a", isOptional := false }, { id := "c", isOptional := false }]
  classes := .empty 0
  libraries := .empty 1

def crossA : Plugin :=
  { crossP with
    id := "a"
    dependencies := [{ id := "p", isOptional := false }, { id := "b", isOptional := false }] }

/-- Two plugins that bring the same class. -/
def crossB : Plugin :=
  { crossP with id := "b", dependencies := [], classes := .read 2 (strayArchive "b") }

@[inherit_doc crossB]
def crossC : Plugin :=
  { crossP with id := "c", dependencies := [], classes := .read 3 (strayArchive "c") }

def crossing : DependencyGraph where
  platform :=
    { ident := 0, version := "1", classes := .empty 0, plugins := [crossP, crossA, crossB, crossC] }

/-- What was asked before can change the order of dependencies, and with it the archive that a class comes
from: the dependencies of `a` are kept with those of `p` that come after it, so `c` is met before `b`. -/
theorem resolve_order_differs :
    KeysTellApart (crossing.plugins ++ crossP :: [ClosureCall.transitive crossA].map
        ClosureCall.plugin) ∧
      (crossing.resolveAfter { nextId := 4 } [] crossP).1.1.map (fun closure =>
          (closure.dependencies.map Plugin.id,
            ((closure.source.locate ⟨"x/X"⟩).run {}).1.map ClassSource.moniker)) =
        .ok (["a", "b", "c"], some "b") ∧
      (crossing.resolveAfter { nextId := 4 } [.transitive crossA] crossP).1.1.map (fun closure =>
          (closure.dependencies.map Plugin.id,
            ((closure.source.locate ⟨"x/X"⟩).run {}).1.map ClassSource.moniker)) =
        .ok (["a", "c", "b"], some "c") := by
  refine ⟨?_, ?_, ?_⟩
  · simp [KeysTellApart, crossing, plugins, crossP, crossA, crossB, crossC, ClosureCall.plugin,
      Plugin.key]
  · decide +kernel
  · decide +kernel

theorem supplied_crossing : crossing.Supplied (fun _ => none) {}
    (crossing.plugins ++ [crossP, crossB, crossC]) := by
  have hplain : ∀ source ∈ crossing.platform.classes ::
      (crossing.plugins ++ [crossP, crossB, crossC]).flatMap
        (fun plugin => [plugin.classes, plugin.libraries]),
      (∃ id, source = .empty id) ∨ ∃ id archive, source = .read id archive := by
    simp [crossing, plugins, crossP, crossA, crossB, crossC]
  constructor
  · intro source hsource
    obtain ⟨id, rfl⟩ | ⟨id, archive, rfl⟩ := hplain source hsource
    · exact .empty id
    · exact .read id archive
  · intro source hsource
    obtain ⟨id, rfl⟩ | ⟨id, archive, rfl⟩ := hplain source hsource
    · exact .empty_source _ id
    · exact .read_archive _ id archive

/-- The plugin is on a cycle with `a`, but only `b` and `c` were asked about. -/
theorem resolve_order_steady_crossing :
    KeysTellApart (crossing.plugins ++ crossP ::
        ([ClosureCall.resolve crossB] ++ [ClosureCall.transitive crossC]).map ClosureCall.plugin) ∧
      ∃ one other,
        (crossing.resolveAfter { nextId := 4 } [.resolve crossB] crossP).1.1 = .ok one ∧
          (crossing.resolveAfter { nextId := 4 } [.transitive crossC] crossP).1.1 = .ok other ∧
          one.dependencies = other.dependencies ∧
          ∀ name, ((one.source.find name).run
                (crossing.resolveAfter { nextId := 4 } [.resolve crossB] crossP).2).1 =
              ((other.source.find name).run
                (crossing.resolveAfter { nextId := 4 } [.transitive crossC] crossP).2).1 := by
  have hkeys : KeysTellApart (crossing.plugins ++ crossP ::
      ([ClosureCall.resolve crossB] ++ [ClosureCall.transitive crossC]).map ClosureCall.plugin) := by
    simp [KeysTellApart, crossing, plugins, crossP, crossA, crossB, crossC, ClosureCall.plugin,
      Plugin.key]
  have hexact : ({ nextId := 4 } : Shelf).Exact fun _ => none :=
    { toTruthful := .blank fun _ _ hsource => by cases hsource
      unlisted := fun hid => by cases hid }
  obtain ⟨one, other, hone, hother, _, _, _, hsame⟩ := resolve_order_steady crossing rfl
    { nextId := 4 } crossP [.resolve crossB] [.transitive crossC] hkeys
  obtain ⟨hdependencies, hfind⟩ := hsame fun call hcall hcycle => by
    obtain rfl | hcall := List.mem_cons.1 hcall
    · exact absurd hcycle (not_onCycle_of_direct rfl)
    · obtain rfl := List.mem_singleton.1 hcall
      exact absurd hcycle (not_onCycle_of_direct rfl)
  refine ⟨hkeys, one, other, hone, hother, hdependencies, fun name => ?_⟩
  obtain ⟨hleft, hright⟩ := hfind _ hexact supplied_crossing name
  exact hleft.trans hright.symm

end DependencyGraph

end LinkCheck
