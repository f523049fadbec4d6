import LinkCheck.Proofs.Expansion
import Mathlib.Data.List.Chain
import Mathlib.Data.List.Nodup

/-!
# Expansions that keep nothing

Where cycles are not tolerated, an expansion could as well keep nothing and go through all dependencies
each time. What it gives then depends on the plugin alone: neither the path nor the plugins that may be
entered matter, as long as all that has to be entered may be.

## Main definitions

- `DependencyGraph.explore` — the dependencies of a plugin, found anew
- `DependencyGraph.NamesCycle` — ids that spell out a cycle that a plugin leads to
- `DependencyGraph.MeetsCycle` — a plugin leads to two that reach each other

## Main results

- `DependencyGraph.explore_eq_of_available` — the same is found along any path
- `DependencyGraph.not_meetsCycle_of_explore` — dependencies are found only if no cycle is met
- `DependencyGraph.namesCycle_of_explore` — otherwise the failure names a cycle
-/

namespace LinkCheck

namespace DependencyGraph

variable {graph : DependencyGraph} {known : Plugin → Prop} {path available : List PluginKey}
  {root plugin : Plugin} {dependencies : List Plugin}

/-- The dependencies of a plugin that is reached along a path, or the cycle that is met first. -/
def explore (graph : DependencyGraph) (path available : List PluginKey) (plugin : Plugin) :
    Except ClosureError (List Plugin) := do
  if plugin.key ∈ available then
    (graph.direct plugin).found.foldlM
      (fun collected dependency => do
        if dependency.key = plugin.key ∨ dependency.key ∈ collected.map Plugin.key then
          return collected
        else
          let transitive ← graph.explore (path ++ [plugin.key]) (without plugin.key available)
            dependency
          return addOthers plugin.key (collected ++ [dependency]) transitive)
      []
  else throw (.cyclicDependency ((path.dropWhile (· ≠ plugin.key) ++ [plugin.key]).map PluginKey.id))
termination_by available.length
decreasing_by exact length_without_lt ‹_›

/-- Goes to one dependency of a plugin, unless it is there already. -/
def exploreNext (graph : DependencyGraph) (path available : List PluginKey) (plugin : Plugin)
    (collected : List Plugin) (dependency : Plugin) : Except ClosureError (List Plugin) := do
  if dependency.key = plugin.key ∨ dependency.key ∈ collected.map Plugin.key then
    return collected
  else
    let transitive ← graph.explore (path ++ [plugin.key]) (without plugin.key available) dependency
    return addOthers plugin.key (collected ++ [dependency]) transitive

theorem explore_entered (hmem : plugin.key ∈ available) :
    graph.explore path available plugin =
      (graph.direct plugin).found.foldlM (graph.exploreNext path available plugin) [] := by
  rw [explore, if_pos hmem]
  rfl

theorem explore_met (hmem : plugin.key ∉ available) :
    graph.explore path available plugin =
      .error (.cyclicDependency
        ((path.dropWhile (· ≠ plugin.key) ++ [plugin.key]).map PluginKey.id)) := by
  rw [explore, if_neg hmem]
  rfl

theorem exploreNext_skipped {collected : List Plugin} {dependency : Plugin}
    (h : dependency.key = plugin.key ∨ dependency.key ∈ collected.map Plugin.key) :
    graph.exploreNext path available plugin collected dependency = .ok collected := by
  rw [exploreNext, if_pos h]
  rfl

theorem exploreNext_entered {collected : List Plugin} {dependency : Plugin}
    (h : ¬(dependency.key = plugin.key ∨ dependency.key ∈ collected.map Plugin.key)) :
    graph.exploreNext path available plugin collected dependency =
      match graph.explore (path ++ [plugin.key]) (without plugin.key available) dependency with
      | .ok transitive => .ok (addOthers plugin.key (collected ++ [dependency]) transitive)
      | .error failure => .error failure := by
  rw [exploreNext, if_neg h]
  rcases graph.explore (path ++ [plugin.key]) (without plugin.key available) dependency with
    _ | _ <;> rfl

section Loop

variable {ε : Type} {step : List Plugin → Plugin → Except ε (List Plugin)}
  {rest collected : List Plugin}

/-- What each successful step keeps holds after all of them. -/
theorem foldlM_ok_induction (kept : List Plugin → Prop)
    (hstep : ∀ next ∈ rest, ∀ before after, kept before → step before next = .ok after → kept after)
    (hstart : kept collected) (h : rest.foldlM step collected = .ok dependencies) :
    kept dependencies := by
  induction rest generalizing collected with
  | nil =>
    cases h
    exact hstart
  | cons next rest ih =>
    rw [List.foldlM_cons] at h
    rcases hnext : step collected next with _ | after
    · rw [hnext] at h
      cases h
    · rw [hnext] at h
      exact ih (fun each heach => hstep each (.tail _ heach))
        (hstep next List.mem_cons_self collected after hstart hnext) h

/-- If all steps together fail, one of them does. -/
theorem exists_error_of_foldlM {failure : ε} (h : rest.foldlM step collected = .error failure) :
    ∃ next ∈ rest, ∃ before, step before next = .error failure := by
  induction rest generalizing collected with
  | nil => cases h
  | cons next rest ih =>
    rw [List.foldlM_cons] at h
    rcases hnext : step collected next with _ | after
    · rw [hnext] at h
      cases h
      exact ⟨next, List.mem_cons_self, collected, hnext⟩
    · rw [hnext] at h
      obtain ⟨each, heach, before, herror⟩ := ih h
      exact ⟨each, .tail _ heach, before, herror⟩

end Loop

/-- Adding plugins adds nothing else. -/
theorem mem_of_mem_addOthers {key : PluginKey} {collected added : List Plugin} {other : Plugin}
    (h : other ∈ addOthers key collected added) : other ∈ collected ∨ other ∈ added := by
  suffices hfold : ∀ filtered : List Plugin, ∀ collected : List Plugin,
      other ∈ filtered.foldl addPlugin collected → other ∈ collected ∨ other ∈ filtered by
    exact (hfold _ _ h).imp_right fun hmem => (List.mem_filter.1 hmem).1
  intro filtered
  induction filtered with
  | nil => exact fun _ hmem => .inl hmem
  | cons first filtered ih =>
    intro collected hmem
    rcases ih _ hmem with hmem | hmem
    · unfold addPlugin at hmem
      split at hmem
      · exact .inl hmem
      · refine (List.mem_append.1 hmem).imp_right fun hfirst => ?_
        rw [List.mem_singleton.1 hfirst]
        exact List.mem_cons_self
    · exact .inr (.tail _ hmem)

/-- All keys but one are there once plugins have been added. -/
theorem key_mem_addOthers {key other : PluginKey} {collected added : List Plugin}
    (h : other ∈ collected.map Plugin.key ∨ (other ∈ added.map Plugin.key ∧ other ≠ key)) :
    other ∈ (addOthers key collected added).map Plugin.key := by
  suffices hfold : ∀ filtered : List Plugin, ∀ collected : List Plugin,
      other ∈ collected.map Plugin.key ∨ other ∈ filtered.map Plugin.key →
        other ∈ (filtered.foldl addPlugin collected).map Plugin.key by
    refine hfold _ _ (h.imp_right fun ⟨hadded, hne⟩ => ?_)
    obtain ⟨plugin, hplugin, rfl⟩ := List.mem_map.1 hadded
    exact List.mem_map_of_mem (List.mem_filter.2 ⟨hplugin, by simpa using hne⟩)
  intro filtered
  induction filtered with
  | nil => exact fun _ hmem => hmem.resolve_right List.not_mem_nil
  | cons first filtered ih =>
    intro collected hmem
    refine ih _ ?_
    rcases hmem with hmem | hmem
    · refine .inl ?_
      unfold addPlugin
      split
      · exact hmem
      · rw [List.map_append]
        exact List.mem_append_left _ hmem
    · rcases List.mem_cons.1 hmem with rfl | hmem
      · refine .inl ?_
        unfold addPlugin
        split
        · next hpresent => exact hpresent
        · simp
      · exact .inr hmem

/-- A dependency that is gone to is there already, or what it depends on is added. -/
theorem exploreNext_ok {collected after : List Plugin} {dependency : Plugin}
    (h : graph.exploreNext path available plugin collected dependency = .ok after) :
    ((dependency.key = plugin.key ∨ dependency.key ∈ collected.map Plugin.key) ∧
        after = collected) ∨
      (dependency.key ≠ plugin.key ∧ ∃ transitive,
        graph.explore (path ++ [plugin.key]) (without plugin.key available) dependency =
            .ok transitive ∧
          after = addOthers plugin.key (collected ++ [dependency]) transitive) := by
  by_cases hskip : dependency.key = plugin.key ∨ dependency.key ∈ collected.map Plugin.key
  · rw [exploreNext_skipped hskip] at h
    cases h
    exact .inl ⟨hskip, rfl⟩
  · rw [exploreNext_entered hskip] at h
    rcases hresult : graph.explore (path ++ [plugin.key]) (without plugin.key available)
      dependency with _ | transitive
    · rw [hresult] at h
      cases h
    · rw [hresult] at h
      cases h
      exact .inr ⟨fun hkey => hskip (.inl hkey), transitive, rfl, rfl⟩

/-- Only a plugin that may be entered has dependencies that are found. -/
theorem key_mem_of_explore (h : graph.explore path available plugin = .ok dependencies) :
    plugin.key ∈ available := by
  by_contra hmem
  rw [explore_met hmem] at h
  cases h

theorem foldlM_of_explore (h : graph.explore path available plugin = .ok dependencies) :
    (graph.direct plugin).found.foldlM (graph.exploreNext path available plugin) [] =
      .ok dependencies := by
  rwa [explore_entered (key_mem_of_explore h)] at h

theorem mem_without {key other : PluginKey} {keys : List PluginKey} :
    other ∈ without key keys ↔ other ∈ keys ∧ other ≠ key := by
  simp [without]

/-- What holds of each dependency that is gone to, and of all that is found from there, holds of all that
is found. -/
theorem forall_mem_of_explore (h : graph.explore path available plugin = .ok dependencies)
    (holds : Plugin → Prop)
    (hnext : ∀ next, graph.DependsOn plugin next → ∀ transitive,
      graph.explore (path ++ [plugin.key]) (without plugin.key available) next = .ok transitive →
        ∀ each ∈ next :: transitive, holds each) :
    ∀ each ∈ dependencies, holds each := by
  refine foldlM_ok_induction (fun collected => ∀ each ∈ collected, holds each) ?_
    (by simp) (foldlM_of_explore h)
  intro next hmem before after hbefore hok
  rcases exploreNext_ok hok with ⟨_, rfl⟩ | ⟨_, transitive, htransitive, rfl⟩
  · exact hbefore
  · have hbelow := hnext next hmem transitive htransitive
    intro each heach
    rcases mem_of_mem_addOthers heach with heach | heach
    · rcases List.mem_append.1 heach with heach | heach
      · exact hbefore each heach
      · rw [List.mem_singleton.1 heach]
        exact hbelow next List.mem_cons_self
    · exact hbelow each (.tail _ heach)

/-- All that is found may be entered. -/
theorem available_of_explore (h : graph.explore path available plugin = .ok dependencies) :
    ∀ each ∈ plugin :: dependencies, each.key ∈ available := by
  induction hlength : available.length using Nat.strongRecOn
    generalizing path available plugin dependencies with
  | _ length ih =>
  have hmem := key_mem_of_explore h
  refine List.forall_mem_cons.2 ⟨hmem, forall_mem_of_explore h (·.key ∈ available) ?_⟩
  intro next _ transitive htransitive each heach
  have hbelow := ih _ (hlength ▸ length_without_lt hmem) htransitive rfl
  exact (mem_without.1 (hbelow each heach)).1

/-- What has been collected stays there. -/
theorem key_mem_of_exploreNext {collected after : List Plugin} {dependency : Plugin}
    (h : graph.exploreNext path available plugin collected dependency = .ok after)
    {key : PluginKey} (hkey : key ∈ collected.map Plugin.key) : key ∈ after.map Plugin.key := by
  rcases exploreNext_ok h with ⟨_, rfl⟩ | ⟨_, transitive, _, rfl⟩
  · exact hkey
  · refine key_mem_addOthers (.inl ?_)
    rw [List.map_append]
    exact List.mem_append_left _ hkey

theorem key_mem_of_foldlM {rest collected : List Plugin}
    (h : rest.foldlM (graph.exploreNext path available plugin) collected = .ok dependencies)
    {key : PluginKey} (hkey : key ∈ collected.map Plugin.key) :
    key ∈ dependencies.map Plugin.key :=
  foldlM_ok_induction (fun collected => key ∈ collected.map Plugin.key)
    (fun _ _ _ _ hbefore hnext => key_mem_of_exploreNext hnext hbefore) hkey h

/-- The same is found along any path, as long as all that is found may be entered. -/
theorem explore_eq_of_available (h : graph.explore path available plugin = .ok dependencies)
    {path' available' : List PluginKey}
    (havailable : ∀ each ∈ plugin :: dependencies, each.key ∈ available') :
    graph.explore path' available' plugin = .ok dependencies := by
  induction hlength : available.length using Nat.strongRecOn
    generalizing path available path' available' plugin dependencies with
  | _ length ih =>
  have hmem := key_mem_of_explore h
  rw [explore_entered (havailable plugin List.mem_cons_self)]
  -- Both go through the same dependencies, with the same plugins collected at each point.
  suffices hloop : ∀ rest collected : List Plugin,
      rest.foldlM (graph.exploreNext path available plugin) collected = .ok dependencies →
        rest.foldlM (graph.exploreNext path' available' plugin) collected = .ok dependencies from
    hloop _ _ (foldlM_of_explore h)
  intro rest
  induction rest with
  | nil => exact fun _ hdone => hdone
  | cons next rest ihrest =>
    intro collected hloop
    rw [List.foldlM_cons] at hloop ⊢
    rcases hnext : graph.exploreNext path available plugin collected next with _ | after
    · rw [hnext] at hloop
      cases hloop
    · rw [hnext] at hloop
      have hnext' : graph.exploreNext path' available' plugin collected next = .ok after := by
        by_cases hskip : next.key = plugin.key ∨ next.key ∈ collected.map Plugin.key
        · rw [exploreNext_skipped hskip] at hnext ⊢
          exact hnext
        · rcases exploreNext_ok hnext with ⟨hpresent, _⟩ | ⟨_, transitive, htransitive, rfl⟩
          · exact absurd hpresent hskip
          · -- What the dependency needs is among all that is found, and is not the plugin itself.
            have hbelow := available_of_explore htransitive
            have hagain : graph.explore (path' ++ [plugin.key]) (without plugin.key available') next =
                .ok transitive := by
              refine ih _ (hlength ▸ length_without_lt hmem) htransitive (fun each heach => ?_) rfl
              have hne := (mem_without.1 (hbelow each heach)).2
              refine mem_without.2 ⟨?_, hne⟩
              have hkey : each.key ∈ dependencies.map Plugin.key := by
                refine key_mem_of_foldlM hloop (key_mem_addOthers ?_)
                rcases List.mem_cons.1 heach with rfl | heach
                · exact .inl (by simp)
                · exact .inr ⟨List.mem_map_of_mem heach, hne⟩
              obtain ⟨other, hother, hsame⟩ := List.mem_map.1 hkey
              rw [← hsame]
              exact havailable other (.tail _ hother)
            rw [exploreNext_entered hskip, hagain]
      rw [hnext']
      exact ihrest after hloop

/-- The same is found if more may be entered. -/
theorem explore_eq_of_subset (h : graph.explore path available plugin = .ok dependencies)
    {available' : List PluginKey} (hsub : available ⊆ available') (path' : List PluginKey) :
    graph.explore path' available' plugin = .ok dependencies :=
  explore_eq_of_available h fun each heach => hsub (available_of_explore h each heach)

/-- Whatever is found is bundled or offered. -/
theorem mem_plugins_of_explore (h : graph.explore path available plugin = .ok dependencies) :
    ∀ each ∈ dependencies, each ∈ graph.plugins := by
  induction hlength : available.length using Nat.strongRecOn
    generalizing path available plugin dependencies with
  | _ length ih =>
  have hmem := key_mem_of_explore h
  refine forall_mem_of_explore h (· ∈ graph.plugins) fun next hnext transitive htransitive => ?_
  have hbelow := ih _ (hlength ▸ length_without_lt hmem) htransitive rfl
  exact List.forall_mem_cons.2 ⟨hnext.mem_plugins, hbelow⟩

/-- The dependencies of all that is found are found without entering the plugin again. -/
theorem explored_of_mem (h : graph.explore path available plugin = .ok dependencies) :
    ∀ each ∈ dependencies, ∃ below,
      graph.explore (path ++ [plugin.key]) (without plugin.key available) each = .ok below := by
  induction hlength : available.length using Nat.strongRecOn
    generalizing path available plugin dependencies with
  | _ length ih =>
  have hmem := key_mem_of_explore h
  refine forall_mem_of_explore h _ fun next _ transitive htransitive => ?_
  refine List.forall_mem_cons.2 ⟨⟨transitive, htransitive⟩, fun each heach => ?_⟩
  obtain ⟨below, hbelow⟩ := ih _ (hlength ▸ length_without_lt hmem) htransitive rfl each heach
  exact ⟨below, explore_eq_of_subset hbelow (fun _ hkey => (mem_without.1 hkey).1) _⟩

/-- Each direct dependency is found, unless it is the plugin itself. -/
theorem key_mem_of_dependsOn (h : graph.explore path available plugin = .ok dependencies)
    {other : Plugin} (hother : graph.DependsOn plugin other) (hne : other.key ≠ plugin.key) :
    other.key ∈ dependencies.map Plugin.key := by
  have hloop := foldlM_of_explore h
  obtain ⟨before, after, hsplit⟩ := List.append_of_mem hother
  rw [hsplit, List.foldlM_append] at hloop
  rcases hbefore : before.foldlM (graph.exploreNext path available plugin) [] with _ | collected
  · rw [hbefore] at hloop
    cases hloop
  · rw [hbefore] at hloop
    change (other :: after).foldlM (graph.exploreNext path available plugin) collected = _ at hloop
    rw [List.foldlM_cons] at hloop
    rcases hnext : graph.exploreNext path available plugin collected other with _ | collected'
    · rw [hnext] at hloop
      cases hloop
    · rw [hnext] at hloop
      refine key_mem_of_foldlM hloop ?_
      rcases exploreNext_ok hnext with ⟨hpresent, rfl⟩ | ⟨_, transitive, _, rfl⟩
      · exact hpresent.resolve_left hne
      · exact key_mem_addOthers (.inl (by simp))

/-- The dependencies of a direct dependency are found without entering the plugin again. -/
theorem explored_of_dependsOn (law : graph.Lawful known) (hplugin : known plugin)
    (h : graph.explore path available plugin = .ok dependencies) {other : Plugin}
    (hother : graph.DependsOn plugin other) (hne : other ≠ plugin) :
    ∃ path' below, graph.explore path' (without plugin.key available) other = .ok below := by
  have hotherKnown : known other := law.offered hother.mem_plugins
  have hkey := key_mem_of_dependsOn h hother fun hkey => hne (law.apart hotherKnown hplugin hkey)
  have hmem : other ∈ dependencies := law.mem_of_key_mem hotherKnown
    (fun each heach => law.offered (mem_plugins_of_explore h each heach)) hkey
  exact ⟨_, explored_of_mem h other hmem⟩

/-- The dependencies of all that is reached are found without entering the plugin again. -/
theorem explored_of_reaches (law : graph.Lawful known) (hplugin : known plugin)
    (h : graph.explore path available plugin = .ok dependencies) {other : Plugin}
    (hreaches : graph.Reaches plugin other) (hne : other ≠ plugin) :
    ∃ path' below, graph.explore path' (without plugin.key available) other = .ok below := by
  -- The induction is on the way to the other plugin, which may pass by the plugin itself.
  induction hreaches with
  | single hdepends => exact explored_of_dependsOn law hplugin h hdepends hne
  | @tail middle other hmiddle hdepends ih =>
    by_cases hself : middle = plugin
    · subst hself
      exact explored_of_dependsOn law hplugin h hdepends hne
    · obtain ⟨path', below, hbelow⟩ := ih hself
      by_cases hsame : other = middle
      · subst hsame
        exact ⟨path', below, hbelow⟩
      · obtain ⟨path'', deeper, hdeeper⟩ :=
          explored_of_dependsOn law (law.offered (Reaches.mem_plugins hmiddle)) hbelow hdepends hsame
        exact ⟨path'', deeper,
          explore_eq_of_subset hdeeper (fun _ hkey => (mem_without.1 hkey).1) path''⟩

/-- A plugin is one of two different plugins that reach each other, or leads to such. -/
def MeetsCycle (graph : DependencyGraph) (plugin : Plugin) : Prop :=
  ∃ first second, (first = plugin ∨ graph.Reaches plugin first) ∧ first ≠ second ∧
    graph.Reaches first second ∧ graph.Reaches second first

/-- The ids spell out a cycle that a plugin is on or leads to: at least two different plugins, each
directly depending on the next, and the first again at the end. -/
def NamesCycle (graph : DependencyGraph) (plugin : Plugin) (ids : List String) : Prop :=
  ∃ first rest, rest ≠ [] ∧ (first :: rest).Nodup ∧
    (first :: rest ++ [first]).IsChain graph.DependsOn ∧
    (first = plugin ∨ graph.Reaches plugin first) ∧
    ids = (first :: rest ++ [first]).map Plugin.id

/-- Dependencies are found only if no cycle is met. -/
theorem not_meetsCycle_of_explore (law : graph.Lawful known) (hplugin : known plugin)
    (h : graph.explore path available plugin = .ok dependencies) : ¬graph.MeetsCycle plugin := by
  rintro ⟨first, second, hfirst, hne, hto, hback⟩
  have hfirstKnown : known first := law.offered hback.mem_plugins
  have hsecondKnown : known second := law.offered hto.mem_plugins
  have hexplored : ∃ path available below, graph.explore path available first = .ok below := by
    by_cases hself : first = plugin
    · rw [hself]
      exact ⟨path, available, dependencies, h⟩
    · obtain ⟨path', below, hbelow⟩ :=
        explored_of_reaches law hplugin h (hfirst.resolve_left hself) hself
      exact ⟨path', _, below, hbelow⟩
  obtain ⟨path, available, below, hfound⟩ := hexplored
  obtain ⟨path', belowSecond, hsecond⟩ :=
    explored_of_reaches law hfirstKnown hfound hto (Ne.symm hne)
  -- From the second plugin the first is entered again, though it may not be.
  obtain ⟨path'', belowFirst, hagain⟩ := explored_of_reaches law hsecondKnown hsecond hback hne
  have hmem := key_mem_of_explore hagain
  exact (mem_without.1 (mem_without.1 hmem).1).2 rfl

/-- Two plugins next to each other on a cycle reach each other. -/
theorem NamesCycle.meetsCycle {ids : List String} (h : graph.NamesCycle plugin ids) :
    graph.MeetsCycle plugin := by
  obtain ⟨first, rest, hrest, hnodup, hchain, hfirst, _⟩ := h
  obtain ⟨second, rest, rfl⟩ := List.exists_cons_of_ne_nil hrest
  have hpairs : (first :: second :: rest ++ [first]).Pairwise graph.Reaches :=
    (hchain.imp fun _ _ h => Relation.TransGen.single h).pairwise
  have hto : graph.Reaches first second :=
    (List.pairwise_cons.1 hpairs).1 second (by simp)
  have hback : graph.Reaches second first :=
    (List.pairwise_cons.1 (List.pairwise_cons.1 hpairs).2).1 first (by simp)
  refine ⟨first, second, hfirst, ?_, hto, hback⟩
  rintro rfl
  simp at hnodup

/-- The plugins on the way to the one that is explored, the outermost first. -/
structure Trail (graph : DependencyGraph) (root : Plugin) (trail : List Plugin) (plugin : Plugin) :
    Prop where
  chain : (trail ++ [plugin]).IsChain graph.DependsOn
  nodup : (trail.map Plugin.key).Nodup
  reached : ∀ each ∈ trail ++ [plugin], each = root ∨ graph.Reaches root each
  moved : ∀ last ∈ trail.getLast?, plugin.key ≠ last.key

theorem Trail.start (graph : DependencyGraph) (root : Plugin) : graph.Trail root [] root where
  chain := List.isChain_singleton root
  nodup := List.nodup_nil
  reached := by simp
  moved := by simp

theorem Trail.enter {trail : List Plugin} {next : Plugin} (h : graph.Trail root trail plugin)
    (hfresh : plugin.key ∉ trail.map Plugin.key) (hnext : graph.DependsOn plugin next)
    (hne : next.key ≠ plugin.key) : graph.Trail root (trail ++ [plugin]) next := by
  have hlast : plugin ∈ trail ++ [plugin] := List.mem_append_right _ (List.mem_singleton_self _)
  constructor
  case chain =>
    refine List.isChain_append.2 ⟨h.chain, List.isChain_singleton next, ?_⟩
    simpa using hnext
  case nodup => exact nodup_keys_concat h.nodup hfresh
  case reached =>
    intro each heach
    rcases List.mem_append.1 heach with heach | heach
    · exact h.reached each heach
    · rw [List.mem_singleton.1 heach]
      rcases h.reached plugin hlast with rfl | hreached
      · exact .inr (Relation.TransGen.single hnext)
      · exact .inr (hreached.tail hnext)
  case moved => simpa using hne

/-- Where keys differ, the keys from that of a plugin on are those from the plugin on. -/
theorem dropWhile_keys {before after : List Plugin}
    (hnodup : ((before ++ plugin :: after).map Plugin.key).Nodup) :
    ((before ++ plugin :: after).map Plugin.key).dropWhile (· ≠ plugin.key) =
      (plugin :: after).map Plugin.key := by
  rw [List.map_append, List.map_cons] at hnodup
  rw [List.map_append, List.dropWhile_append_of_pos, List.map_cons,
    List.dropWhile_cons_of_neg (by simp)]
  intro key hkey
  simpa using (List.nodup_append.1 hnodup).2.2 key hkey plugin.key List.mem_cons_self

/-- A plugin that is met again closes a cycle, which is the end of the trail. -/
theorem Trail.namesCycle {trail : List Plugin} (h : graph.Trail root trail plugin)
    (hmem : plugin ∈ trail) :
    graph.NamesCycle root
      (((trail.map Plugin.key).dropWhile (· ≠ plugin.key) ++ [plugin.key]).map PluginKey.id) := by
  obtain ⟨before, after, rfl⟩ := List.append_of_mem hmem
  have hnodup := h.nodup
  rw [List.map_append] at hnodup
  refine ⟨plugin, after, ?_, ?_, ?_, h.reached plugin (by simp), ?_⟩
  · rintro rfl
    exact h.moved plugin (by simp) rfl
  · exact List.Nodup.of_map Plugin.key (List.nodup_append.1 hnodup).2.1
  · have hchain := h.chain
    rw [List.append_assoc] at hchain
    exact hchain.right_of_append
  · -- The keys on the trail differ, so the plugin is met where its key is first met.
    rw [dropWhile_keys h.nodup]
    simp [Plugin.key]

/-- A failure names a cycle. The induction is on the plugins that may still be entered. -/
theorem namesCycle_of_explore (law : graph.Lawful known) (hroot : known root)
    (trail : List Plugin) (hfrontier : graph.Frontier root (trail.map Plugin.key) available)
    (htrail : graph.Trail root trail plugin) {failure : ClosureError}
    (h : graph.explore (trail.map Plugin.key) available plugin = .error failure) :
    ∃ ids, failure = .cyclicDependency ids ∧ graph.NamesCycle root ids := by
  induction hlength : available.length using Nat.strongRecOn
    generalizing trail available plugin with
  | _ length ih =>
  have hmeet : ∀ each ∈ trail ++ [plugin], each ∈ root :: graph.plugins := by
    intro each heach
    rcases htrail.reached each heach with rfl | hreached
    · exact List.mem_cons_self
    · exact .tail _ hreached.mem_plugins
  have hknown : ∀ each ∈ trail ++ [plugin], known each := by
    intro each heach
    rcases List.mem_cons.1 (hmeet each heach) with rfl | hoffered
    · exact hroot
    · exact law.offered hoffered
  have hplugin : plugin ∈ trail ++ [plugin] := List.mem_append_right _ (List.mem_singleton_self _)
  have hfree := hfrontier plugin (hmeet plugin hplugin)
  by_cases hmem : plugin.key ∈ available
  · rw [explore_entered hmem] at h
    obtain ⟨next, hnext, before, herror⟩ := exists_error_of_foldlM h
    have hskip : ¬(next.key = plugin.key ∨ next.key ∈ before.map Plugin.key) := by
      intro hskip
      rw [exploreNext_skipped hskip] at herror
      cases herror
    have hbelow : graph.explore ((trail ++ [plugin]).map Plugin.key) (without plugin.key available)
        next = .error failure := by
      rw [exploreNext_entered hskip] at herror
      rw [List.map_append, List.map_singleton]
      rcases hresult : graph.explore (trail.map Plugin.key ++ [plugin.key])
        (without plugin.key available) next with _ | _
      · rw [hresult] at herror
        cases herror
        rfl
      · rw [hresult] at herror
        cases herror
    refine ih _ (hlength ▸ length_without_lt hmem) (trail ++ [plugin]) ?_
      (htrail.enter (hfree.1 hmem) hnext fun hkey => hskip (.inl hkey)) hbelow rfl
    rw [List.map_append, List.map_singleton]
    exact hfrontier.enter plugin.key
  · rw [explore_met hmem] at h
    cases h
    have hpath : plugin.key ∈ trail.map Plugin.key := by
      by_contra hpath
      exact hmem (hfree.2 hpath)
    -- A plugin that may not be entered is on the trail, where equal keys mean equal plugins.
    have hagain : plugin ∈ trail := law.mem_of_key_mem (hknown plugin hplugin)
      (fun each heach => hknown each (List.mem_append_left _ heach)) hpath
    exact ⟨_, rfl, htrail.namesCycle hagain⟩

end DependencyGraph

end LinkCheck
