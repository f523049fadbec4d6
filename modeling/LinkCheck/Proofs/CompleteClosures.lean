import LinkCheck.Proofs.ResolvedClosures

/-!
# Closures are complete whatever was asked before

The closures of plugins on one platform are computed on demand, in any order, and each computation uses
what earlier ones have kept. Where cycles are tolerated, every answer is complete all the same, and so is
everything that is kept.

## Main results

- `DependencyGraph.sound_stateAfter` — what is kept after any questions is right
- `DependencyGraph.sound_resolve` — the closure of a plugin is right, with its source
- `DependencyGraph.transitive_degrade_complete` — tolerating cycles, the dependencies of a plugin are
  all that it reaches, and only complete dependencies are kept
-/

namespace LinkCheck

namespace DependencyGraph

open Expansion

variable {graph : DependencyGraph} {known : Plugin → Prop}
  {sees : Plugin → List Plugin → ClassSource → Prop} {plugin : Plugin} {state : ClosureState}

/-- Asking for dependencies keeps what is right, whether or not it succeeds. -/
theorem sound_transitive (law : graph.Lawful known) (hplugin : known plugin)
    (h : state.Sound graph known sees) :
    (outcome (graph.transitive plugin) state).2.Sound graph known sees := by
  have hmeets := meets_transitive law hplugin h
  rcases hresult : outcome (graph.transitive plugin) state with ⟨_ | dependencies, after⟩
  · rw [hresult] at hmeets
    exact hmeets.1
  · rw [hresult] at hmeets
    exact hmeets.sound

/-- Dependencies that are given are listed and kept. -/
theorem settled_of_transitive (law : graph.Lawful known) (hplugin : known plugin)
    (h : state.Sound graph known sees) {dependencies : List Plugin} {after : ClosureState}
    (hok : outcome (graph.transitive plugin) state = (.ok dependencies, after)) :
    graph.Settled known sees plugin dependencies after := by
  have hmeets := meets_transitive law hplugin h
  rwa [hok] at hmeets

/-- What is kept after any questions is right. -/
theorem sound_stateAfter (law : graph.Lawful known) (shelf : Shelf) {calls : List ClosureCall}
    (hcalls : ∀ plugin ∈ calls.map ClosureCall.plugin, known plugin) :
    (graph.stateAfter shelf calls).Sound graph known fun _ _ _ => True := by
  refine graph.stateAfter_induction shelf calls (·.Sound graph known fun _ _ _ => True)
    (.empty graph known _) ?_ ?_
  · intro plugin hplugin state hsound
    exact sound_transitive law (hcalls plugin hplugin) hsound
  · intro plugin hplugin state hsound dependencies after hok source
    have hsettled := settled_of_transitive law (hcalls plugin hplugin) hsound hok
    exact hsettled.sound.see law (hcalls plugin hplugin) hsettled.done trivial

/-- Tolerating cycles, asking for dependencies never fails. -/
theorem transitive_degrade_ok (law : graph.Lawful known) (hpolicy : graph.policy = .degrade)
    (hplugin : known plugin) (h : state.Sound graph known sees) :
    ∃ dependencies after,
      outcome (graph.transitive plugin) state = (.ok dependencies, after) := by
  have hmeets := meets_transitive law hplugin h
  rcases hresult : outcome (graph.transitive plugin) state with ⟨_ | dependencies, after⟩
  · rw [hresult] at hmeets
    have hfailFast := hmeets.2
    rw [hpolicy] at hfailFast
    cases hfailFast
  · exact ⟨dependencies, after, rfl⟩

/-- Resolving a closure gives all that the plugin reaches, with a source that was made of its layers now or
before. -/
theorem sound_resolve (law : graph.Lawful known) (hplugin : known plugin)
    (h : state.Sound graph known sees) (shelf : Shelf)
    (hmade : ∀ dependencies, graph.Lists plugin dependencies → sees plugin dependencies
      ((ClassSource.unionOf (graph.layers plugin dependencies)).run shelf).1) :
    (∀ closure, (runWith (graph.resolve plugin) state shelf).1.1 = .ok closure →
        graph.Lists plugin closure.dependencies ∧
          closure.missing = (graph.direct plugin).missing ∧
          sees plugin closure.dependencies closure.source) ∧
      (runWith (graph.resolve plugin) state shelf).1.2.Sound graph known sees ∧
      ((runWith (graph.resolve plugin) state shelf).2 = shelf ∨
        ∃ dependencies, graph.Lists plugin dependencies ∧
          (runWith (graph.resolve plugin) state shelf).2 =
            ((ClassSource.unionOf (graph.layers plugin dependencies)).run shelf).2) := by
  have hsound := sound_transitive law hplugin h
  rcases hresult : outcome (graph.transitive plugin) state with ⟨failure | dependencies, after⟩
  · rw [hresult] at hsound
    rw [runWith_resolve_failed hresult]
    refine ⟨fun closure hclosure => ?_, hsound, .inl rfl⟩
    cases hclosure
  · have hsettled := settled_of_transitive law hplugin h hresult
    have hmissing := (hsettled.sound plugin hplugin).missing hsettled.done
    cases hsource : (after.descriptor plugin.key).source with
    | some source =>
      obtain ⟨others, hothers, hsees⟩ := (hsettled.sound plugin hplugin).source hsource
      obtain rfl := Transitive.done.inj (hsettled.done.symm.trans hothers)
      rw [runWith_resolve_seen hresult hsource]
      refine ⟨fun closure hclosure => ?_, hsettled.sound, .inl rfl⟩
      cases hclosure
      exact ⟨hsettled.lists, hmissing, hsees⟩
    | none =>
      have hsees := hmade dependencies hsettled.lists
      rw [runWith_resolve_made hresult hsource rfl]
      refine ⟨fun closure hclosure => ?_, hsettled.sound.see law hplugin hsettled.done hsees,
        .inr ⟨dependencies, hsettled.lists, rfl⟩⟩
      cases hclosure
      exact ⟨hsettled.lists, hmissing, hsees⟩

/-- Tolerating cycles, whatever was asked before, asking for the dependencies of a plugin gives exactly
the other plugins that it reaches, each once. All dependencies that were kept before or are kept then,
for whichever plugin, are complete in the same way. -/
theorem transitive_degrade_complete (graph : DependencyGraph) (hpolicy : graph.policy = .degrade)
    (shelf : Shelf) (calls : List ClosureCall) (plugin : Plugin)
    (hkeys : KeysTellApart (graph.plugins ++ plugin :: calls.map ClosureCall.plugin)) :
    ∃ dependencies after,
      outcome (graph.transitive plugin) (graph.stateAfter shelf calls) =
          (.ok dependencies, after) ∧
        graph.Lists plugin dependencies ∧
        ∀ state ∈ [graph.stateAfter shelf calls, after],
          ∀ other ∈ graph.plugins ++ plugin :: calls.map ClosureCall.plugin,
            ∀ kept, state.progress other.key = .done kept → graph.Lists other kept := by
  have law := lawful_of_keysTellApart hkeys
  have hplugin : plugin ∈ graph.plugins ++ plugin :: calls.map ClosureCall.plugin :=
    List.mem_append_right _ List.mem_cons_self
  have hbefore := sound_stateAfter law shelf fun other hother =>
    List.mem_append_right _ (.tail plugin hother)
  obtain ⟨dependencies, after, hok⟩ := transitive_degrade_ok law hpolicy hplugin hbefore
  have hsettled := settled_of_transitive law hplugin hbefore hok
  refine ⟨dependencies, after, hok, hsettled.lists, fun state hstate other hother kept hkept => ?_⟩
  rcases List.mem_cons.1 hstate with rfl | hstate
  · exact (hbefore other hother).lists hkept
  · obtain rfl := List.mem_singleton.1 hstate
    exact (hsettled.sound other hother).lists hkept

/-- The question for the dependencies of `a`, which is on a cycle with `b`, after what `b` sees was asked
for. -/
theorem transitive_degrade_complete_ring :
    KeysTellApart ((ring .degrade).plugins ++ ringA :: [ClosureCall.resolve ringB].map
        ClosureCall.plugin) ∧
      (ring .degrade).DependsOn ringA ringB ∧ (ring .degrade).DependsOn ringB ringA ∧
      ∃ dependencies after,
        outcome ((ring .degrade).transitive ringA)
            ((ring .degrade).stateAfter {} [.resolve ringB]) = (.ok dependencies, after) ∧
          (ring .degrade).Lists ringA dependencies ∧
          ∀ state ∈ [(ring .degrade).stateAfter {} [.resolve ringB], after],
            ∀ other ∈ (ring .degrade).plugins ++ ringA :: [ringB],
              ∀ kept, state.progress other.key = .done kept → (ring .degrade).Lists other kept := by
  have hkeys : KeysTellApart ((ring .degrade).plugins ++ ringA ::
      [ClosureCall.resolve ringB].map ClosureCall.plugin) := by
    simp [KeysTellApart, ring, plugins, ringA, ringB, ringC, ClosureCall.plugin, Plugin.key]
  refine ⟨hkeys, ?_, ?_, transitive_degrade_complete _ rfl {} [.resolve ringB] ringA hkeys⟩
  · exact List.mem_cons_self
  · exact List.mem_cons_self

end DependencyGraph

end LinkCheck
