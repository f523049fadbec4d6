import LinkCheck.Proofs.CycleMarks
import LinkCheck.Proofs.LastingClosures
import Mathlib.Data.List.Permutation
import Mathlib.Data.Set.Card

/-!
# How often plugins are expanded

An expansion keeps what it finds of a plugin, unless a cycle is tolerated that goes through the plugin. A
plugin on no such cycle is therefore expanded once, however many ways lead to it. A plugin on a cycle may be
expanded again, but never twice along the same way.

## Main definitions

- `DependencyGraph.Way` — direct dependencies lead along a list of plugins, meeting none twice
- `DependencyGraph.Retained` — what is found of a plugin is kept
- `DependencyGraph.Tally` — which plugins have been expanded once, and which ways have been gone

## Main results

- `DependencyGraph.meets_expand_counted` — an expansion can be counted by plugins and ways
- `DependencyGraph.visits_transitive_le` — how often plugins are expanded when dependencies are asked for
- `DependencyGraph.visits_detour_gt` — where cycles are tolerated, that may be more than there are plugins
-/

namespace LinkCheck

namespace ClosureState

variable {path : List PluginKey} {key : PluginKey} {before after : ClosureState}

@[simp]
theorem visits_enter (state : ClosureState) (key : PluginKey) (direct : DirectDependencies) :
    (state.enter key direct).visits = state.visits + 1 := rfl

@[simp]
theorem visits_leave (state : ClosureState) (key : PluginKey) (dependencies : List Plugin)
    (missing : List Dependency) : (state.leave key dependencies missing).visits = state.visits := rfl

@[simp]
theorem visits_settle (state : ClosureState) (key : PluginKey) (dependencies : List Plugin) :
    (state.settle key dependencies).visits = state.visits := rfl

@[simp]
theorem visits_giveUp (state : ClosureState) : state.giveUp.visits = state.visits := rfl

@[simp]
theorem visits_markCycle (state : ClosureState) (members : List PluginKey) :
    (state.markCycle members).visits = state.visits := by
  induction members generalizing state with
  | nil => rfl
  | cons member members ih => exact ih _

/-- What is not kept when something has been spared was not kept before. -/
theorem Spares.undone (h : Spares path before after) (hundone : after.Undone key) :
    before.Undone key := by
  rw [undone_iff_not_finished] at hundone ⊢
  exact fun hfinished => hundone (hfinished.of_descriptor (h.kept key hfinished))

end ClosureState

namespace DependencyGraph

open Expansion ClosureState

variable {graph : DependencyGraph} {known : Plugin → Prop} {path available : List PluginKey}
  {root plugin : Plugin} {trail singles singles' : List Plugin} {ways ways' : List (List Plugin)}
  {along along' : List Plugin → Prop} {state before middle after : ClosureState}

/-- Direct dependencies lead from a plugin along a list of plugins, meeting none twice. -/
structure Way (graph : DependencyGraph) (root : Plugin) (way : List Plugin) : Prop where
  head : way.head? = some root
  nodup : way.Nodup
  chain : way.IsChain graph.DependsOn

/-- What is found of a plugin is kept: cycles are not tolerated, or it is on none. -/
def Retained (graph : DependencyGraph) (plugin : Plugin) : Prop :=
  graph.policy = .failFast ∨ ¬graph.OnCycle plugin

/-- What has been expanded from one state to another: some plugins once each, and others along some ways, of
which something is told. -/
structure Tally (graph : DependencyGraph) (root : Plugin) (path : List PluginKey)
    (along : List Plugin → Prop) (before after : ClosureState) (singles : List Plugin)
    (ways : List (List Plugin)) : Prop where
  visits : after.visits = before.visits + singles.length + ways.length
  singles_nodup : singles.Nodup
  ways_nodup : ways.Nodup
  retained : ∀ each ∈ singles, graph.Retained each ∧ (each = root ∨ graph.Reaches root each)
  fresh : ∀ each ∈ singles, before.Undone each.key ∧ each.key ∉ path
  winding : ∀ way ∈ ways, graph.Way root way ∧ ∃ last ∈ way.getLast?, ¬graph.Retained last
  along : ∀ way ∈ ways, along way

theorem Tally.nil (h : after.visits = before.visits) :
    graph.Tally root path along before after [] [] := by
  constructor <;> simp [h]

/-- Two tallies make one, if they tell of different ways. A plugin that was expanded once is not expanded
again, since something is kept of it by then. -/
theorem Tally.append (h : graph.Tally root path along before middle singles ways)
    (h' : graph.Tally root path along' middle after singles' ways')
    (hspares : Spares path before middle)
    (hfinished : ∀ each ∈ singles, middle.Finished each.key)
    (hapart : ∀ way, along way → ¬along' way) :
    graph.Tally root path (fun way => along way ∨ along' way) before after
      (singles ++ singles') (ways ++ ways') where
  visits := by
    rw [h'.visits, h.visits, List.length_append, List.length_append]
    omega
  singles_nodup := by
    refine List.nodup_append'.2 ⟨h.singles_nodup, h'.singles_nodup, fun each heach heach' => ?_⟩
    exact undone_iff_not_finished.1 (h'.fresh each heach').1 (hfinished each heach)
  ways_nodup := by
    refine List.nodup_append'.2 ⟨h.ways_nodup, h'.ways_nodup, fun way hway hway' => ?_⟩
    exact hapart way (h.along way hway) (h'.along way hway')
  retained := List.forall_mem_append.2 ⟨h.retained, h'.retained⟩
  fresh := by
    refine List.forall_mem_append.2 ⟨h.fresh, fun each heach => ?_⟩
    exact ⟨hspares.undone (h'.fresh each heach).1, (h'.fresh each heach).2⟩
  winding := List.forall_mem_append.2 ⟨h.winding, h'.winding⟩
  along := List.forall_mem_append.2
    ⟨fun way hway => .inl (h.along way hway), fun way hway => .inr (h'.along way hway)⟩

theorem Tally.imp (h : graph.Tally root path along before after singles ways)
    (himp : ∀ way, along way → along' way) :
    graph.Tally root path along' before after singles ways :=
  { h with along := fun way hway => himp way (h.along way hway) }

/-- What is expanded below a plugin, by the dependency where the ways part. -/
def Below (trail : List Plugin) (plugin : Plugin) (collected : List Plugin) (way : List Plugin) :
    Prop :=
  ∃ next ∈ collected, trail ++ [plugin] ++ [next] <+: way

theorem Trail.way (h : graph.Trail root trail plugin)
    (hhead : (trail ++ [plugin]).head? = some root) (hpath : plugin.key ∉ trail.map Plugin.key) :
    graph.Way root (trail ++ [plugin]) :=
  ⟨hhead, List.Nodup.of_map Plugin.key (nodup_keys_concat h.nodup hpath), h.chain⟩

/-- A plugin that is entered is counted itself, as one that is retained or by the way to it. -/
theorem Tally.enter {collected : List Plugin} (htrail : graph.Trail root trail plugin)
    (hhead : (trail ++ [plugin]).head? = some root) (hpath : plugin.key ∉ trail.map Plugin.key)
    (hundone : state.Undone plugin.key)
    (h : graph.Tally root (trail.map Plugin.key ++ [plugin.key]) (Below trail plugin collected)
      (state.enter plugin.key (graph.direct plugin)) after singles ways) :
    ∃ singles' ways',
      graph.Tally root (trail.map Plugin.key) (trail ++ [plugin] <+: ·) state after singles' ways' ∧
        ∀ each ∈ singles', each ∈ singles ∨ (each = plugin ∧ graph.Retained plugin) := by
  have hvisits := h.visits
  rw [visits_enter] at hvisits
  have hne : ∀ each ∈ singles, each.key ≠ plugin.key := fun each heach hkey =>
    (h.fresh each heach).2 (List.mem_append_right _ (List.mem_singleton.2 hkey))
  have hfresh : ∀ each ∈ singles, state.Undone each.key ∧ each.key ∉ trail.map Plugin.key := by
    intro each heach
    refine ⟨fun dependencies => ?_, fun hmem => ?_⟩
    · rw [← progress_enter_of_ne (hne each heach) (graph.direct plugin)]
      exact (h.fresh each heach).1 dependencies
    · exact (h.fresh each heach).2 (List.mem_append_left _ hmem)
  have halong : ∀ way ∈ ways, trail ++ [plugin] <+: way := by
    intro way hway
    obtain ⟨next, _, hbelow⟩ := h.along way hway
    exact (List.prefix_append _ _).trans hbelow
  by_cases hretained : graph.Retained plugin
  · have hself : plugin ∉ singles := fun hmem => hne plugin hmem rfl
    refine ⟨plugin :: singles, ways, ⟨?_, List.nodup_cons.2 ⟨hself, h.singles_nodup⟩, h.ways_nodup,
      ?_, ?_, h.winding, halong⟩, ?_⟩
    · rw [hvisits, List.length_cons]
      omega
    · exact List.forall_mem_cons.2 ⟨⟨hretained, htrail.reached plugin (by simp)⟩, h.retained⟩
    · exact List.forall_mem_cons.2 ⟨⟨hundone, hpath⟩, hfresh⟩
    · exact List.forall_mem_cons.2 ⟨.inr ⟨rfl, hretained⟩, fun each heach => .inl heach⟩
  · -- All other ways are longer than the way to the plugin itself.
    have hself : trail ++ [plugin] ∉ ways := by
      intro hmem
      obtain ⟨next, _, hbelow⟩ := h.along _ hmem
      have hlength := hbelow.length_le
      simp at hlength
    refine ⟨singles, (trail ++ [plugin]) :: ways, ⟨?_, h.singles_nodup,
      List.nodup_cons.2 ⟨hself, h.ways_nodup⟩, h.retained, hfresh, ?_, ?_⟩, ?_⟩
    · rw [hvisits, List.length_cons]
      omega
    · refine List.forall_mem_cons.2 ⟨⟨htrail.way hhead hpath, plugin, by simp, hretained⟩, h.winding⟩
    · exact List.forall_mem_cons.2 ⟨List.prefix_rfl, halong⟩
    · exact fun each heach => .inl heach

/-- What has been expanded can be counted, and what was found of the plugins that are retained is kept. On
the path these plugins are still in progress. -/
structure Counted (graph : DependencyGraph) (known : Plugin → Prop) (root : Plugin)
    (path : List PluginKey) (along : List Plugin → Prop) (before after : ClosureState) : Prop where
  stays : ∀ each, known each → graph.Retained each → each.key ∈ path →
    after.progress each.key = before.progress each.key
  tally : ∃ singles ways, graph.Tally root path along before after singles ways ∧
    ∀ each ∈ singles, after.Finished each.key

/-- What has been expanded by the time of a failure can be counted. -/
def Countable (graph : DependencyGraph) (root : Plugin) (path : List PluginKey)
    (along : List Plugin → Prop) (before after : ClosureState) : Prop :=
  ∃ singles ways, graph.Tally root path along before after singles ways

theorem Counted.refl (state : ClosureState) : graph.Counted known root path along state state :=
  ⟨fun _ _ _ _ => rfl, [], [], .nil rfl, by simp⟩

theorem Counted.imp (h : graph.Counted known root path along before after)
    (himp : ∀ way, along way → along' way) :
    graph.Counted known root path along' before after := by
  obtain ⟨singles, ways, htally, hfinished⟩ := h.tally
  exact ⟨h.stays, singles, ways, htally.imp himp, hfinished⟩

theorem Counted.trans (h : graph.Counted known root path along before middle)
    (h' : graph.Counted known root path along' middle after) (hspares : Spares path before middle)
    (hspares' : Spares path middle after) (hapart : ∀ way, along way → ¬along' way) :
    graph.Counted known root path (fun way => along way ∨ along' way) before after := by
  obtain ⟨singles, ways, htally, hfinished⟩ := h.tally
  obtain ⟨singles', ways', htally', hfinished'⟩ := h'.tally
  constructor
  case stays =>
    intro each heach hretained hmem
    exact (h'.stays each heach hretained hmem).trans (h.stays each heach hretained hmem)
  case tally =>
    refine ⟨_, _, htally.append htally' hspares hfinished hapart,
      List.forall_mem_append.2 ⟨fun each heach => ?_, hfinished'⟩⟩
    exact (hfinished each heach).of_descriptor (hspares'.kept _ (hfinished each heach))

theorem Counted.fail (h : graph.Counted known root path along before middle)
    (h' : graph.Countable root path along' middle after) (hspares : Spares path before middle)
    (hapart : ∀ way, along way → ¬along' way) :
    graph.Countable root path (fun way => along way ∨ along' way) before after := by
  obtain ⟨singles, ways, htally, hfinished⟩ := h.tally
  obtain ⟨singles', ways', htally'⟩ := h'
  exact ⟨_, _, htally.append htally' hspares hfinished hapart⟩

/-- What is there stays when plugins are added. -/
theorem subset_addOthers (key : PluginKey) (collected added : List Plugin) :
    collected ⊆ addOthers key collected added := by
  unfold addOthers
  induction added.filter (·.key ≠ key) generalizing collected with
  | nil => exact List.Subset.refl collected
  | cons first rest ih =>
    have hfirst : collected ⊆ addPlugin collected first := by
      unfold addPlugin
      split
      · exact List.Subset.refl collected
      · exact List.subset_append_left collected [first]
    exact List.Subset.trans hfirst (ih _)

theorem Below.not_prefix {collected way : List Plugin} {next : Plugin}
    (h : Below trail plugin collected way) (hnext : next ∉ collected) :
    ¬trail ++ [plugin] ++ [next] <+: way := by
  intro hway
  obtain ⟨other, hother, hbelow⟩ := h
  have hsame : trail ++ [plugin] ++ [other] = trail ++ [plugin] ++ [next] :=
    (List.prefix_of_prefix_length_le hbelow hway (by simp)).eq_of_length (by simp)
  obtain rfl : other = next := by simpa using hsame
  exact hnext hother

theorem Below.mono {collected more way : List Plugin} (h : Below trail plugin collected way)
    (hsub : collected ⊆ more) : Below trail plugin more way := by
  obtain ⟨next, hnext, hbelow⟩ := h
  exact ⟨next, hsub hnext, hbelow⟩

/-- What has been counted while the dependencies of a plugin are gone through. -/
structure Counting (graph : DependencyGraph) (known : Plugin → Prop) (root : Plugin)
    (trail : List Plugin) (plugin : Plugin) (entered : ClosureState) (rest collected : List Plugin)
    (state : ClosureState) : Prop where
  left : ∀ each ∈ rest, graph.DependsOn plugin each
  spares : Spares (trail.map Plugin.key ++ [plugin.key]) entered state
  counted : graph.Counted known root (trail.map Plugin.key ++ [plugin.key])
    (Below trail plugin collected) entered state

/-- A dependency is skipped, or what its expansion counts is added. -/
theorem counts_visit {entered : ClosureState} {next : Plugin} {rest collected : List Plugin}
    (h : graph.Counting known root trail plugin entered (next :: rest) collected state)
    (hexpand : next.key ≠ plugin.key →
      Meets (fun _ after => Spares (trail.map Plugin.key ++ [plugin.key]) state after ∧
          graph.Counted known root (trail.map Plugin.key ++ [plugin.key])
            (trail ++ [plugin] ++ [next] <+: ·) state after)
        (graph.Countable root (trail.map Plugin.key ++ [plugin.key])
          (trail ++ [plugin] ++ [next] <+: ·) state)
        (outcome (graph.expand (trail.map Plugin.key ++ [plugin.key])
          (without plugin.key available) next) state)) :
    Meets (graph.Counting known root trail plugin entered rest)
      (fun after => ∃ collected, graph.Countable root (trail.map Plugin.key ++ [plugin.key])
        (Below trail plugin collected) entered after)
      (outcome (graph.visit (trail.map Plugin.key) available plugin collected next) state) := by
  have hleft : ∀ each ∈ rest, graph.DependsOn plugin each := fun each heach =>
    h.left each (.tail _ heach)
  by_cases hskip : next.key = plugin.key ∨ next.key ∈ collected.map Plugin.key
  · rw [outcome_visit_skipped hskip]
    exact { h with left := hleft }
  · obtain ⟨hne, hnew⟩ := not_or.1 hskip
    have hnext : next ∉ collected := fun hmem => hnew (List.mem_map_of_mem hmem)
    have hapart : ∀ way, Below trail plugin collected way → ¬trail ++ [plugin] ++ [next] <+: way :=
      fun way hway => hway.not_prefix hnext
    have hbelow : ∀ way, Below trail plugin collected way ∨ trail ++ [plugin] ++ [next] <+: way →
        Below trail plugin (collected ++ [next]) way := by
      rintro way (hway | hway)
      · exact hway.mono (List.subset_append_left collected [next])
      · exact ⟨next, by simp, hway⟩
    refine meets_visit_entered hskip ((hexpand hne).imp (fun transitive after hafter => ?_) ?_)
    · have hmore := subset_addOthers plugin.key (collected ++ [next]) transitive
      refine ⟨hleft, h.spares.trans hafter.1, ?_⟩
      refine (h.counted.trans hafter.2 h.spares hafter.1 hapart).imp fun way hway => ?_
      exact (hbelow way hway).mono hmore
    · intro after hafter
      obtain ⟨singles, ways, htally⟩ := h.counted.fail hafter h.spares hapart
      exact ⟨collected ++ [next], singles, ways, htally.imp hbelow⟩

/-- A plugin that is retained is kept when it is left, since no cycle has taken it out of progress. -/
theorem Counting.leave {dependencies : List Plugin} (htrail : graph.Trail root trail plugin)
    (hhead : (trail ++ [plugin]).head? = some root) (hpath : plugin.key ∉ trail.map Plugin.key)
    (hknown : known plugin) (hundone : state.Undone plugin.key)
    (h : graph.Counting known root trail plugin (state.enter plugin.key (graph.direct plugin)) []
      dependencies after) :
    graph.Counted known root (trail.map Plugin.key) (trail ++ [plugin] <+: ·) state
      (after.leave plugin.key dependencies (graph.direct plugin).missing) := by
  constructor
  case stays =>
    intro each heach hretained hmem
    have hne : each.key ≠ plugin.key := fun heq => hpath (heq ▸ hmem)
    rw [progress_leave_of_ne hne,
      h.counted.stays each heach hretained (List.mem_append_left _ hmem), progress_enter_of_ne hne]
  case tally =>
    obtain ⟨singles, ways, htally, hfinished⟩ := h.counted.tally
    obtain ⟨singles', ways', htally', hsingles⟩ := htally.enter htrail hhead hpath hundone
    refine ⟨singles', ways', { htally' with visits := htally'.visits }, fun each heach => ?_⟩
    obtain hold | ⟨rfl, hretained⟩ := hsingles each heach
    · have hne : each.key ≠ plugin.key := fun hkey =>
        (htally.fresh each hold).2 (List.mem_append_right _ (List.mem_singleton.2 hkey))
      exact (hfinished each hold).of_descriptor (descriptor_leave_of_ne hne)
    · have hprogress : after.progress each.key = .inProgress := by
        rw [h.counted.stays each hknown hretained (by simp), progress_enter_self]
      exact ⟨dependencies, progress_leave_of_inProgress hprogress _ _⟩

/-- A cycle that is met takes no plugin out of progress that is retained. -/
theorem counts_closeCycle (law : graph.policy = .degrade → graph.Lawful known) (hroot : known root)
    (htrail : graph.Trail root trail plugin) (hpath : plugin.key ∈ trail.map Plugin.key)
    (along : List Plugin → Prop) :
    Meets (fun _ => graph.Counted known root (trail.map Plugin.key) along state)
      (graph.Countable root (trail.map Plugin.key) along state)
      (outcome (graph.closeCycle (trail.map Plugin.key) plugin.key) state) := by
  cases hpolicy : graph.policy with
  | failFast =>
    rw [outcome_closeCycle_failFast hpolicy]
    exact ⟨[], [], .nil rfl⟩
  | degrade =>
    rw [outcome_closeCycle_degrade hpolicy]
    refine ⟨fun each heach hretained _ => ?_, [], [], .nil (visits_markCycle _ _), by simp⟩
    rw [progress_markCycle, if_neg]
    intro hmem
    have hknown := htrail.forall_known (law hpolicy) hroot plugin (by simp)
    have hplugin := htrail.mem_of_key (law hpolicy) hroot hknown hpath
    have hcycle := htrail.onCycle (law hpolicy) hroot hplugin heach hmem
    obtain hfail | hnone := hretained
    · rw [hpolicy] at hfail
      cases hfail
    · exact hnone hcycle

/-- What an expansion expands can be counted by plugins and ways. The induction is on the plugins that may
still be entered. That equal keys mean equal plugins is needed only where cycles are tolerated. -/
theorem meets_expand_counted (law : graph.policy = .degrade → graph.Lawful known)
    (hreached : ∀ each, each = root ∨ graph.Reaches root each → known each) (trail : List Plugin)
    (hfrontier : graph.Frontier root (trail.map Plugin.key) available)
    (hapart : ∀ key ∈ available, key ∉ trail.map Plugin.key)
    (htrail : graph.Trail root trail plugin) (hhead : (trail ++ [plugin]).head? = some root)
    (hundone : ∀ key ∈ trail.map Plugin.key, state.Undone key) :
    Meets (fun _ => graph.Counted known root (trail.map Plugin.key) (trail ++ [plugin] <+: ·) state)
      (graph.Countable root (trail.map Plugin.key) (trail ++ [plugin] <+: ·) state)
      (outcome (graph.expand (trail.map Plugin.key) available plugin) state) := by
  induction hlength : available.length using Nat.strongRecOn
    generalizing trail available plugin state with
  | _ length ih =>
  by_cases hmem : plugin.key ∈ available
  · have hpath : plugin.key ∉ trail.map Plugin.key := hapart plugin.key hmem
    by_cases hdone : state.Finished plugin.key
    · obtain ⟨dependencies, hdone⟩ := hdone
      rw [outcome_expand_done hmem hdone]
      exact .refl state
    · have hfresh : state.Undone plugin.key := undone_iff_not_finished.2 hdone
      have hknown : known plugin := hreached plugin (htrail.reached plugin (by simp))
      have hpaths : (trail ++ [plugin]).map Plugin.key = trail.map Plugin.key ++ [plugin.key] := by
        simp
      have hloop := meets_foldlM (graph.visit (trail.map Plugin.key) available plugin)
        (graph.Counting known root trail plugin (state.enter plugin.key (graph.direct plugin)))
        (fun after => ∃ collected, graph.Countable root (trail.map Plugin.key ++ [plugin.key])
          (Below trail plugin collected) (state.enter plugin.key (graph.direct plugin)) after)
        (fun next rest collected current hcounting => by
          have hdepends : graph.DependsOn plugin next := hcounting.left next List.mem_cons_self
          have hfrontier' := hfrontier.enter plugin.key
          have hapart' := not_mem_path_enter hapart plugin.key
          have hundone' := hcounting.spares.keepsPath.undone (graph.undone_enter plugin hundone)
          refine counts_visit hcounting fun hne => ?_
          have hspares := graph.meets_expand_spares hapart' hundone' next
          rw [← hpaths] at hfrontier' hapart' hundone' hspares ⊢
          have hcounted := ih _ (hlength ▸ length_without_lt hmem) (trail ++ [plugin]) hfrontier'
            hapart' (htrail.enter hpath hdepends hne) (by simpa using hhead) hundone' rfl
          exact (hspares.and hcounted).imp (fun _ _ h => ⟨h.1.spares, h.2⟩) fun _ h => h.2)
        (graph.direct plugin).found [] _ ⟨fun _ heach => heach, .refl _ _, .refl _⟩
      refine meets_expand_entered hmem hfresh (hloop.imp (fun dependencies after h => ?_) ?_)
      · exact h.leave htrail hhead hpath hknown hfresh
      · intro after hfailed
        obtain ⟨collected, singles, ways, htally⟩ := hfailed
        obtain ⟨singles', ways', htally', _⟩ := htally.enter htrail hhead hpath hfresh
        exact ⟨singles', ways', htally'⟩
  · have hpath : plugin.key ∈ trail.map Plugin.key := by
      by_contra hpath
      exact hmem ((hfrontier plugin htrail.end_mem).2 hpath)
    rw [outcome_expand_met hmem]
    exact counts_closeCycle law (hreached root (.inl rfl)) htrail hpath _

/-- What is expanded when dependencies are asked for can be counted, whether or not there is a failure. -/
theorem countable_transitive (law : graph.policy = .degrade → graph.Lawful known) (plugin : Plugin)
    (hreached : ∀ each, each = plugin ∨ graph.Reaches plugin each → known each)
    (state : ClosureState) :
    graph.Countable plugin [] ([plugin] <+: ·) state (outcome (graph.transitive plugin) state).2 := by
  have hexpand : Meets (fun _ => graph.Counted known plugin [] ([plugin] <+: ·) state)
      (graph.Countable plugin [] ([plugin] <+: ·) state)
      (outcome (graph.expand [] (graph.keysFrom plugin) plugin) state) :=
    meets_expand_counted law hreached [] (Frontier.start graph plugin) (by simp)
      (Trail.start graph plugin) rfl (by simp)
  have hmeets : Meets (fun _ => graph.Countable plugin [] ([plugin] <+: ·) state)
      (graph.Countable plugin [] ([plugin] <+: ·) state) (outcome (graph.transitive plugin) state) := by
    refine meets_transitive_of_expand (hexpand.imp (fun _ _ h => ?_) fun _ h => ?_)
    · obtain ⟨singles, ways, htally, _⟩ := h.tally
      exact ⟨singles, ways, { htally with }⟩
    · obtain ⟨singles, ways, htally⟩ := h
      exact ⟨singles, ways, { htally with }⟩
  exact hmeets.after

/-- A list without repetitions is no longer than a finite set that holds it is large. -/
theorem length_le_ncard {α : Type} {list : List α} {set : Set α} (hset : set.Finite)
    (hnodup : list.Nodup) (h : ∀ each ∈ list, each ∈ set) : list.length ≤ set.ncard := by
  classical
  have hsub : (list.toFinset : Set α) ⊆ set := fun each heach => h each (by simpa using heach)
  rw [← List.toFinset_card_of_nodup hnodup, ← Set.ncard_coe_finset]
  exact Set.ncard_le_ncard hsub hset

theorem finite_reached (graph : DependencyGraph) (plugin : Plugin) :
    {each | each = plugin ∨ graph.Reaches plugin each}.Finite := by
  refine (List.finite_toSet (plugin :: graph.plugins)).subset fun each heach => ?_
  obtain rfl | hreached := heach
  · exact List.mem_cons_self
  · exact .tail _ hreached.mem_plugins

/-- A way leads to plugins that are reached. -/
theorem Way.reached {way : List Plugin} (h : graph.Way plugin way) :
    ∀ each ∈ way, each = plugin ∨ graph.Reaches plugin each := by
  obtain ⟨rest, rfl⟩ := List.head?_eq_some_iff.1 h.head
  intro each heach
  refine (List.mem_cons.1 heach).imp_right fun hrest => ?_
  exact (List.pairwise_cons.1 (pairwise_reaches h.chain)).1 each hrest

/-- There are finitely many ways, as none of them meets a plugin twice. -/
theorem finite_ways (graph : DependencyGraph) (plugin : Plugin) :
    {way | graph.Way plugin way}.Finite := by
  refine (List.finite_toSet ((plugin :: graph.plugins).sublists.flatMap List.permutations)).subset
    fun way hway => ?_
  have hsub : way ⊆ plugin :: graph.plugins := by
    intro each heach
    obtain rfl | hreached := hway.reached each heach
    · exact List.mem_cons_self
    · exact .tail _ hreached.mem_plugins
  obtain ⟨part, hperm, hpart⟩ := hway.nodup.subperm hsub
  exact List.mem_flatMap.2 ⟨part, List.mem_sublists.2 hpart, List.mem_permutations.2 hperm.symm⟩

theorem retained_iff (hpolicy : graph.policy = .degrade) :
    graph.Retained plugin ↔ ¬graph.OnCycle plugin := by
  simp [Retained, hpolicy]

theorem Tally.visits_le (h : graph.Tally plugin [] along {} after singles ways) :
    after.visits ≤
      {each | (each = plugin ∨ graph.Reaches plugin each) ∧ graph.Retained each}.ncard +
        {way | graph.Way plugin way ∧ ∃ last ∈ way.getLast?, ¬graph.Retained last}.ncard := by
  have hsingles : singles.length ≤
      {each | (each = plugin ∨ graph.Reaches plugin each) ∧ graph.Retained each}.ncard :=
    length_le_ncard ((graph.finite_reached plugin).subset fun _ heach => heach.1) h.singles_nodup
      fun each heach => (h.retained each heach).symm
  have hways : ways.length ≤
      {way | graph.Way plugin way ∧ ∃ last ∈ way.getLast?, ¬graph.Retained last}.ncard :=
    length_le_ncard ((graph.finite_ways plugin).subset fun _ hway => hway.1) h.ways_nodup h.winding
  calc after.visits = 0 + singles.length + ways.length := h.visits
    _ ≤ _ := by omega

/-- Where all plugins are retained, no way is gone twice. -/
theorem Tally.visits_le_reached (h : graph.Tally plugin [] along {} after singles ways)
    (hretained : ∀ each, each = plugin ∨ graph.Reaches plugin each → graph.Retained each) :
    after.visits ≤ {each | each = plugin ∨ graph.Reaches plugin each}.ncard := by
  have hsingles : singles.length ≤ {each | each = plugin ∨ graph.Reaches plugin each}.ncard :=
    length_le_ncard (graph.finite_reached plugin) h.singles_nodup
      fun each heach => (h.retained each heach).2
  have hways : ways = [] := by
    refine List.eq_nil_iff_forall_not_mem.2 fun way hway => ?_
    obtain ⟨hway, last, hlast, hnot⟩ := h.winding way hway
    exact hnot (hretained last (hway.reached last (List.mem_of_getLast? hlast)))
  calc after.visits = 0 + singles.length + ways.length := h.visits
    _ = singles.length := by rw [hways, List.length_nil, Nat.zero_add, Nat.add_zero]
    _ ≤ _ := hsingles

/-- When the dependencies of a plugin are asked for first, plugins are expanded at most as often as there are
plugins to meet, itself included, if cycles are not tolerated or none is met. Where cycles are tolerated and
met, plugins on no cycle are still expanded at most once, and those on a cycle at most once along each way
that leads to them. -/
theorem visits_transitive_le (graph : DependencyGraph) (plugin : Plugin) :
    (graph.policy = .failFast →
      (outcome (graph.transitive plugin) {}).2.visits ≤
        {each | each = plugin ∨ graph.Reaches plugin each}.ncard) ∧
    (graph.policy = .degrade → KeysTellApart (graph.plugins ++ [plugin]) →
      ((∀ each, each = plugin ∨ graph.Reaches plugin each → ¬graph.OnCycle each) →
        (outcome (graph.transitive plugin) {}).2.visits ≤
          {each | each = plugin ∨ graph.Reaches plugin each}.ncard) ∧
      (outcome (graph.transitive plugin) {}).2.visits ≤
        {each | (each = plugin ∨ graph.Reaches plugin each) ∧ ¬graph.OnCycle each}.ncard +
          {way | graph.Way plugin way ∧ ∃ last ∈ way.getLast?, graph.OnCycle last}.ncard) := by
  constructor
  · intro hpolicy
    have law : graph.policy = .degrade → graph.Lawful fun _ => True := by
      intro hdegrade
      rw [hpolicy] at hdegrade
      cases hdegrade
    obtain ⟨singles, ways, htally⟩ := countable_transitive law plugin (fun _ _ => trivial) {}
    exact htally.visits_le_reached fun each _ => .inl hpolicy
  · intro hpolicy hkeys
    have hreached : ∀ each, each = plugin ∨ graph.Reaches plugin each →
        each ∈ graph.plugins ++ [plugin] := by
      rintro each (rfl | hreached)
      · exact List.mem_append_right _ (List.mem_singleton_self each)
      · exact List.mem_append_left _ hreached.mem_plugins
    obtain ⟨singles, ways, htally⟩ :=
      countable_transitive (fun _ => lawful_of_keysTellApart hkeys) plugin hreached {}
    refine ⟨fun hnone => htally.visits_le_reached fun each heach => .inr (hnone each heach), ?_⟩
    simpa only [retained_iff hpolicy, not_not] using htally.visits_le

/-- A plugin that needs the second, and the fourth as well. -/
def detourA : Plugin :=
  { ringA with
    dependencies := [{ id := "b", isOptional := false }, { id := "d", isOptional := false }] }

/-- A plugin that needs the first again. -/
def detourB : Plugin :=
  { ringA with id := "b", dependencies := [{ id := "a", isOptional := false }] }

/-- A plugin that needs the second. -/
def detourD : Plugin :=
  { ringA with id := "d", dependencies := [{ id := "b", isOptional := false }] }

/-- A platform with two plugins that need each other, to the second of which a detour leads. -/
def detour (policy : CyclePolicy) : DependencyGraph where
  platform :=
    { ident := 0, version := "1", classes := .empty 0, plugins := [detourA, detourB, detourD] }
  policy := policy

theorem keysTellApart_detour (policy : CyclePolicy) :
    KeysTellApart ((detour policy).plugins ++ [detourA]) := by
  simp [KeysTellApart, detour, plugins, detourA, detourB, detourD, ringA, Plugin.key]

/-- Where cycles are tolerated, plugins may be expanded more often than there are plugins: the second is
expanded again behind the detour, since the cycle had it forgotten. -/
theorem visits_detour_gt :
    KeysTellApart ((detour .degrade).plugins ++ [detourA]) ∧
      {each | each = detourA ∨ (detour .degrade).Reaches detourA each}.ncard <
        (outcome ((detour .degrade).transitive detourA) {}).2.visits := by
  have hsub : {each | each = detourA ∨ (detour .degrade).Reaches detourA each} ⊆
      {detourA, detourB, detourD} := by
    rintro each (rfl | hreached)
    · exact Set.mem_insert _ _
    · simpa [detour, plugins] using hreached.mem_plugins
  have hcard := Set.ncard_le_ncard hsub (Set.toFinite _)
  have hfirst := Set.ncard_insert_le detourA {detourB, detourD}
  have hsecond := Set.ncard_insert_le detourB {detourD}
  have hvisits : (outcome ((detour .degrade).transitive detourA) {}).2.visits = 4 := by
    decide +kernel
  rw [Set.ncard_singleton] at hsecond
  exact ⟨keysTellApart_detour .degrade, by omega⟩

/-- Among the plugins with the detour, whether or not cycles are tolerated, and from a plugin that meets
none. -/
theorem visits_transitive_le_detour :
    (outcome ((detour .failFast).transitive detourA) {}).2.visits ≤
        {each | each = detourA ∨ (detour .failFast).Reaches detourA each}.ncard ∧
      (outcome ((detour .degrade).transitive detourA) {}).2.visits ≤
        {each | (each = detourA ∨ (detour .degrade).Reaches detourA each) ∧
            ¬(detour .degrade).OnCycle each}.ncard +
          {way | (detour .degrade).Way detourA way ∧
            ∃ last ∈ way.getLast?, (detour .degrade).OnCycle last}.ncard ∧
      (outcome ((ring .degrade).transitive ringC) {}).2.visits ≤
        {each | each = ringC ∨ (ring .degrade).Reaches ringC each}.ncard := by
  have hring : KeysTellApart ((ring .degrade).plugins ++ [ringC]) := by
    simp [KeysTellApart, ring, plugins, ringA, ringB, ringC, Plugin.key]
  have hnone : ∀ each, each = ringC ∨ (ring .degrade).Reaches ringC each →
      ¬(ring .degrade).OnCycle each := by
    rintro each (rfl | hreached)
    · exact not_onCycle_of_direct rfl
    · obtain ⟨next, hnext, _⟩ := Relation.TransGen.head'_iff.1 hreached
      cases hnext
  refine ⟨(visits_transitive_le (detour .failFast) detourA).1 rfl, ?_, ?_⟩
  · exact ((visits_transitive_le (detour .degrade) detourA).2 rfl
      (keysTellApart_detour .degrade)).2
  · exact ((visits_transitive_le (ring .degrade) ringC).2 rfl hring).1 hnone

end DependencyGraph

end LinkCheck
