import LinkCheck.Proofs.CycleMarks

/-!
# Which plugins are on cycles

A closure says whether its plugin is on a cycle. What was asked before decides which ways around a cycle are
gone, and so when each plugin is marked. Where cycles are tolerated, the marks are right all the same for
every plugin that has been asked about or is reached from one that has.

## Main results

- `DependencyGraph.Flagged.transitive` — asking for dependencies keeps marks right
- `DependencyGraph.flagged_stateAfter` — marks are right after any questions
- `DependencyGraph.isCyclic_exact` — a plugin is marked exactly if it is on a cycle
-/

namespace LinkCheck

namespace DependencyGraph

open Expansion

variable {graph : DependencyGraph} {known : Plugin → Prop} {plugin other : Plugin}
  {asked dependencies : List Plugin} {state after : ClosureState}

/-- A plugin is marked, and so is every plugin that it reaches and that reaches it. -/
def MarkedAround (graph : DependencyGraph) (state : ClosureState) (plugin : Plugin) : Prop :=
  ∀ each, each = plugin ∨ (graph.Reaches plugin each ∧ graph.Reaches each plugin) →
    state.isCyclic each.key = true

theorem MarkedAround.mono (h : graph.MarkedAround state plugin)
    (hflags : ∀ key, state.isCyclic key = true → after.isCyclic key = true) :
    graph.MarkedAround after plugin :=
  fun each heach => hflags each.key (h each heach)

theorem shared_markedAround (graph : DependencyGraph) (state : ClosureState) :
    graph.Shared (graph.MarkedAround state) := by
  intro first second hto hback h each heach
  refine h each (.inr ?_)
  rcases heach with rfl | ⟨hfrom, hreturn⟩
  · exact ⟨hto, hback⟩
  · exact ⟨hto.trans hfrom, hreturn.trans hback⟩

/-- What is known of cycles once the closures of some plugins have been asked for. -/
structure Flagged (graph : DependencyGraph) (known : Plugin → Prop) (asked : List Plugin)
    (state : ClosureState) : Prop where
  sound : state.Sound graph known fun _ _ _ => True
  marked : graph.Marked known (graph.MarkedAround state) state
  told : ∀ plugin ∈ asked, ∀ each, each = plugin ∨ graph.Reaches plugin each →
    graph.OnCycle each → state.isCyclic each.key = true

theorem Flagged.empty (graph : DependencyGraph) (known : Plugin → Prop) :
    graph.Flagged known [] {} where
  sound := .empty graph known _
  marked := .empty graph known _
  told := by simp

/-- Asking for dependencies marks every cycle that the plugin reaches. -/
theorem Flagged.transitive (law : graph.Lawful known) (hpolicy : graph.policy = .degrade)
    (hplugin : known plugin) (h : graph.Flagged known asked state)
    (hok : outcome (graph.transitive plugin) state = (.ok dependencies, after)) :
    graph.Flagged known (asked ++ [plugin]) after := by
  obtain ⟨hflags, htold, hmarked⟩ := noticed_transitive law hpolicy
    (graph.shared_markedAround state) hplugin h.sound h.marked hok
  have hnow : ∀ each, each = plugin ∨ graph.Reaches plugin each → graph.OnCycle each →
      after.isCyclic each.key = true := by
    intro each heach hcycle
    rcases htold each heach hcycle with hflag | haround
    · exact hflag
    · exact hflags _ (haround each (.inl rfl))
  constructor
  case sound => exact (settled_of_transitive law hplugin h.sound hok).sound
  case marked =>
    refine hmarked _ (fun each haround => haround.mono hflags) fun hcycle each heach => ?_
    by_cases hne : each = plugin
    · rw [hne]
      exact hnow plugin (.inl rfl) hcycle
    · obtain ⟨hto, hback⟩ := heach.resolve_left hne
      exact hnow each (.inr hto) (.of_reaches (Ne.symm hne) hback hto)
  case told =>
    intro each heach reached hreached hcycle
    rcases List.mem_append.1 heach with hold | hself
    · exact hflags _ (h.told each hold reached hreached hcycle)
    · rw [List.mem_singleton.1 hself] at hreached
      exact hnow reached hreached hcycle

theorem Flagged.see {source : ClassSource} (law : graph.Lawful known) (hplugin : known plugin)
    (h : graph.Flagged known asked state)
    (hdone : state.progress plugin.key = .done dependencies) :
    graph.Flagged known asked (state.see plugin.key source) where
  sound := h.sound.see law hplugin hdone trivial
  marked := by
    have hsame : graph.MarkedAround (state.see plugin.key source) = graph.MarkedAround state := by
      funext each
      simp only [MarkedAround, ClosureState.isCyclic_see]
    rw [hsame]
    exact h.marked.see plugin.key source
  told := by simpa using h.told

/-- A question marks every cycle that its plugin reaches. -/
theorem Flagged.perform (law : graph.Lawful known) (hpolicy : graph.policy = .degrade)
    {before : ClosureState × Shelf} {call : ClosureCall} (hplugin : known call.plugin)
    (h : graph.Flagged known asked before.1) :
    graph.Flagged known (asked ++ [call.plugin]) (graph.perform before call).1 := by
  obtain ⟨dependencies, after, hok⟩ := transitive_degrade_ok law hpolicy hplugin h.sound
  have hafter := h.transitive law hpolicy hplugin hok
  rcases graph.perform_cases before call with hasked | ⟨others, ended, source, hended, hseen⟩
  · rw [hasked, hok]
    exact hafter
  · rw [hok] at hended
    cases hended
    rw [hseen]
    exact hafter.see law hplugin (settled_of_transitive law hplugin h.sound hok).done

/-- Marks are right after any questions. The induction is on the questions, from the last to the first. -/
theorem flagged_stateAfter (law : graph.Lawful known) (hpolicy : graph.policy = .degrade)
    (shelf : Shelf) (calls : List ClosureCall)
    (hcalls : ∀ plugin ∈ calls.map ClosureCall.plugin, known plugin) :
    graph.Flagged known (calls.map ClosureCall.plugin) (graph.stateAfter shelf calls) := by
  induction calls using List.reverseRecOn with
  | nil => exact .empty graph known
  | append_singleton calls call ih =>
    rw [stateAfter, List.foldl_concat, List.map_append]
    rw [List.map_append] at hcalls
    have hbefore := ih fun plugin hplugin => hcalls plugin (List.mem_append_left _ hplugin)
    exact hbefore.perform law hpolicy (hcalls call.plugin (by simp))

/-- Of the plugins that have been asked about, and those that they reach, exactly those on cycles are
marked. -/
theorem Flagged.isCyclic_iff (law : graph.Lawful known) (h : graph.Flagged known asked state)
    (hasked : plugin ∈ asked) (hknown : known plugin)
    (hother : other = plugin ∨ graph.Reaches plugin other) :
    state.isCyclic other.key = true ↔ graph.OnCycle other := by
  have hknown' : known other := by
    rcases hother with rfl | hreached
    · exact hknown
    · exact law.offered hreached.mem_plugins
  exact ⟨h.marked.genuine other hknown', h.told plugin hasked other hother⟩

/-- Tolerating cycles, after any questions a plugin that was asked about, or is reached from one that was,
is marked exactly if it is on a cycle with another plugin. Whatever was asked before, the closure of a
plugin tells exactly whether the plugin is on such a cycle. -/
theorem isCyclic_exact (graph : DependencyGraph) (hpolicy : graph.policy = .degrade)
    (shelf : Shelf) (calls : List ClosureCall) (plugin : Plugin)
    (hkeys : KeysTellApart (graph.plugins ++ plugin :: calls.map ClosureCall.plugin)) :
    (∀ call ∈ calls, ∀ each, each = call.plugin ∨ graph.Reaches call.plugin each →
        ((graph.stateAfter shelf calls).isCyclic each.key = true ↔ graph.OnCycle each)) ∧
      ∃ closure,
        (runWith (graph.resolve plugin) (graph.stateAfter shelf calls)
            (calls.foldl graph.perform ({}, shelf)).2).1.1 = .ok closure ∧
          (closure.cyclic = true ↔ graph.OnCycle plugin) := by
  have law := lawful_of_keysTellApart hkeys
  have hcalls : ∀ other ∈ calls.map ClosureCall.plugin,
      other ∈ graph.plugins ++ plugin :: calls.map ClosureCall.plugin :=
    fun other hother => List.mem_append_right _ (.tail plugin hother)
  have hplugin : plugin ∈ graph.plugins ++ plugin :: calls.map ClosureCall.plugin :=
    List.mem_append_right _ List.mem_cons_self
  have hflagged := flagged_stateAfter law hpolicy shelf calls hcalls
  constructor
  · intro call hcall each heach
    have hasked : call.plugin ∈ calls.map ClosureCall.plugin := List.mem_map_of_mem hcall
    exact hflagged.isCyclic_iff law hasked (hcalls _ hasked) heach
  · obtain ⟨dependencies, after, hok⟩ :=
      transitive_degrade_ok law hpolicy hplugin hflagged.sound
    obtain ⟨closure, hclosure, _, hcyclic⟩ :=
      exists_resolve_ok hok (calls.foldl graph.perform ({}, shelf)).2
    refine ⟨closure, hclosure, ?_⟩
    rw [hcyclic]
    have hafter := hflagged.transitive law hpolicy hplugin hok
    exact hafter.isCyclic_iff law (List.mem_append_right _ (List.mem_singleton_self plugin)) hplugin
      (.inl rfl)

/-- After what `b` sees was asked for, `a` is known to be on a cycle with it, and `c` not to be on one; and so
the closure of `a` tells. -/
theorem isCyclic_exact_ring :
    KeysTellApart ((ring .degrade).plugins ++ ringA :: [ClosureCall.resolve ringB].map
        ClosureCall.plugin) ∧
      ((ring .degrade).stateAfter {} [.resolve ringB]).isCyclic ringA.key = true ∧
      ((ring .degrade).stateAfter {} [.resolve ringB]).isCyclic ringC.key = false ∧
      ∃ closure,
        (runWith ((ring .degrade).resolve ringA) ((ring .degrade).stateAfter {} [.resolve ringB])
            ([ClosureCall.resolve ringB].foldl (ring .degrade).perform ({}, {})).2).1.1 =
              .ok closure ∧
          closure.cyclic = true := by
  have hkeys : KeysTellApart ((ring .degrade).plugins ++ ringA ::
      [ClosureCall.resolve ringB].map ClosureCall.plugin) := by
    simp [KeysTellApart, ring, plugins, ringA, ringB, ringC, ClosureCall.plugin, Plugin.key]
  have hto : (ring .degrade).DependsOn ringA ringB := List.mem_cons_self
  have hback : (ring .degrade).DependsOn ringB ringA := List.mem_cons_self
  have hend : (ring .degrade).DependsOn ringB ringC := .tail _ List.mem_cons_self
  have hcycle : (ring .degrade).OnCycle ringA :=
    .of_reaches (by simp [ringA, ringB]) (.single hto) (.single hback)
  have hnone : ¬(ring .degrade).OnCycle ringC := not_onCycle_of_direct rfl
  obtain ⟨hmarks, closure, hclosure, hcyclic⟩ :=
    isCyclic_exact (ring .degrade) rfl {} [.resolve ringB] ringA hkeys
  have hasked : ClosureCall.resolve ringB ∈ [ClosureCall.resolve ringB] := List.mem_cons_self
  refine ⟨hkeys, ?_, ?_, closure, hclosure, hcyclic.2 hcycle⟩
  · exact (hmarks _ hasked ringA (.inr (.single hback))).2 hcycle
  · rw [Bool.eq_false_iff]
    exact fun hflag => hnone ((hmarks _ hasked ringC (.inr (.single hend))).1 hflag)

end DependencyGraph

end LinkCheck
