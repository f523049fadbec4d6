import LinkCheck.Proofs.CycleDetection

/-!
# Closures that last

Expansions change what is known of plugins in many ways: cycles reset the plugins on them, and a failure takes
back everything that is in progress. None of this concerns a plugin whose dependencies are kept. Such a plugin
is given back where it is met, so it never comes on the path, and the path is all that is ever reset.

## Main definitions

- `ClosureState.Spares` — an expansion leaves the plugins alone of which dependencies are kept
- `Closure.kept` — what is kept of a plugin whose closure has been resolved
- `DependencyGraph.knownAfter` — what is known after some questions, whatever happens between them

## Main results

- `DependencyGraph.meets_expand_spares` — what an expansion spares, and what it keeps of its own plugin
- `DependencyGraph.descriptor_perform` — a question leaves a resolved closure as it is
- `DependencyGraph.resolve_lasting` — a closure that has been resolved once is the same ever after
-/

namespace LinkCheck

namespace ClosureState

variable {path : List PluginKey} {key : PluginKey} {state before middle after : ClosureState}

/-- Nothing is changed of the plugins of which dependencies are kept. On the path nothing is changed but what
was in progress, which may be forgotten. -/
structure Spares (path : List PluginKey) (before after : ClosureState) : Prop where
  kept : ∀ key, before.Finished key → after.descriptor key = before.descriptor key
  keepsPath : before.KeepsPath after path

theorem Finished.of_descriptor (h : before.Finished key)
    (hsame : after.descriptor key = before.descriptor key) : after.Finished key := by
  obtain ⟨dependencies, hdone⟩ := h
  exact ⟨dependencies, by rwa [progress, hsame]⟩

theorem Spares.refl (path : List PluginKey) (state : ClosureState) : Spares path state state :=
  ⟨fun _ _ => rfl, fun _ _ => .inl rfl⟩

theorem Spares.trans (h : Spares path before middle) (h' : Spares path middle after) :
    Spares path before after := by
  refine ⟨fun key hkey => ?_, h.keepsPath.trans h'.keepsPath⟩
  have hsame := h.kept key hkey
  exact (h'.kept key (hkey.of_descriptor hsame)).trans hsame

/-- What is spared on a path is spared on a part of it. -/
theorem Spares.mono {longer : List PluginKey} (h : Spares longer before after)
    (hpath : path ⊆ longer) : Spares path before after :=
  ⟨h.kept, fun key hkey => h.keepsPath key (hpath hkey)⟩

/-- A plugin off the path of which nothing is kept may be changed at will. -/
theorem spares_of_undone (hundone : before.Undone key) (hpath : key ∉ path)
    (h : ∀ other, other ≠ key → after.descriptor other = before.descriptor other) :
    Spares path before after := by
  constructor
  · intro other hother
    apply h
    rintro rfl
    exact undone_iff_not_finished.1 hundone hother
  · intro other hother
    have hne : other ≠ key := fun heq => hpath (heq ▸ hother)
    exact .inl (congrArg Descriptor.transitive (h other hne))

theorem spares_enter (hundone : state.Undone key) (hpath : key ∉ path)
    (direct : DirectDependencies) : Spares path state (state.enter key direct) := by
  apply spares_of_undone hundone hpath
  intro other hne
  rw [descriptor_enter, if_neg hne]

theorem spares_leave (hundone : state.Undone key) (hpath : key ∉ path)
    (dependencies : List Plugin) (missing : List Dependency) :
    Spares path state (state.leave key dependencies missing) :=
  spares_of_undone hundone hpath fun _ hne => descriptor_leave_of_ne hne

/-- A cycle is on the path, where nothing is kept. -/
theorem spares_markCycle (hundone : ∀ key ∈ path, state.Undone key) (key : PluginKey) :
    Spares path state (state.markCycle (path.dropWhile (· ≠ key))) := by
  constructor
  · intro other hother
    rw [descriptor_markCycle, if_neg]
    intro hmem
    exact undone_iff_not_finished.1 (hundone other (List.dropWhile_subset _ hmem)) hother
  · intro other _
    rw [progress, descriptor_markCycle]
    split
    · exact .inr rfl
    · exact .inl rfl

theorem descriptor_settle_of_finished (h : state.Finished key) (settled : PluginKey)
    (dependencies : List Plugin) :
    (state.settle settled dependencies).descriptor key = state.descriptor key := by
  by_cases hkey : key = settled
  · subst hkey
    obtain ⟨kept, hkept⟩ := h
    rw [settle_of_done hkept]
  · exact descriptor_settle_of_ne hkey

theorem descriptor_giveUp_of_finished (h : state.Finished key) :
    state.giveUp.descriptor key = state.descriptor key := by
  obtain ⟨dependencies, hdone⟩ := h
  rw [progress] at hdone
  rw [descriptor_giveUp, givenUp]
  simp only [hdone]

end ClosureState

/-- What is kept of a plugin whose closure has been resolved. -/
def Closure.kept (closure : Closure) : Descriptor where
  transitive := .done closure.dependencies
  cyclic := closure.cyclic
  missing := closure.missing
  source := some closure.source

namespace DependencyGraph

open Expansion ClosureState

variable {graph : DependencyGraph} {path available : List PluginKey} {plugin : Plugin}
  {key : PluginKey} {dependencies : List Plugin} {closure : Closure} {state after : ClosureState}
  {shelf : Shelf}

-- ════════════════════════════════════════════════════════════════════════
-- What expansions spare
-- ════════════════════════════════════════════════════════════════════════

/-- What holds when the expansion of a plugin has ended: of a plugin that could be entered, what was found is
kept or nothing is. -/
structure Rested (path available : List PluginKey) (plugin : Plugin) (before : ClosureState)
    (dependencies : List Plugin) (after : ClosureState) : Prop where
  spares : Spares path before after
  kept : plugin.key ∈ available →
    after.progress plugin.key = .done dependencies ∨ after.Undone plugin.key

/-- No plugin that may still be entered is on the longer path. -/
theorem not_mem_path_enter (hapart : ∀ key ∈ available, key ∉ path) (entered : PluginKey) :
    ∀ key ∈ without entered available, key ∉ path ++ [entered] := by
  intro key hkey
  obtain ⟨hkey, hne⟩ := mem_without.1 hkey
  simpa [hne] using hapart key hkey

theorem meets_closeCycle_spares (graph : DependencyGraph) (hundone : ∀ key ∈ path, state.Undone key)
    (hmem : plugin.key ∉ available) :
    Meets (Rested path available plugin state) (Spares path state)
      (outcome (graph.closeCycle path plugin.key) state) := by
  cases hpolicy : graph.policy with
  | failFast =>
    rw [outcome_closeCycle_failFast hpolicy]
    exact .refl path state
  | degrade =>
    rw [outcome_closeCycle_degrade hpolicy]
    exact ⟨spares_markCycle hundone plugin.key, fun h => absurd h hmem⟩

/-- Leaving a plugin that was entered spares what entering it and going through its dependencies did. -/
theorem rested_leave (hpath : plugin.key ∉ path) (hundone : state.Undone plugin.key)
    (h : Spares (path ++ [plugin.key]) (state.enter plugin.key (graph.direct plugin)) after) :
    Rested path available plugin state dependencies
      (after.leave plugin.key dependencies (graph.direct plugin).missing) := by
  have hself : after.Undone plugin.key := h.keepsPath.undone_entered (by simp)
  have hentered := spares_enter hundone hpath (graph.direct plugin)
  have hvisited := h.mono (List.subset_append_left path [plugin.key])
  exact ⟨(hentered.trans hvisited).trans (spares_leave hself hpath _ _),
    fun _ => progress_leave_or_undone hself _ _⟩

theorem spares_visit {entered : ClosureState} {next : Plugin} {collected : List Plugin}
    (h : Spares (path ++ [plugin.key]) entered state)
    (hexpand : Meets (Rested (path ++ [plugin.key]) (without plugin.key available) next state)
      (Spares (path ++ [plugin.key]) state)
      (outcome (graph.expand (path ++ [plugin.key]) (without plugin.key available) next) state)) :
    Meets (fun _ => Spares (path ++ [plugin.key]) entered) (Spares (path ++ [plugin.key]) entered)
      (outcome (graph.visit path available plugin collected next) state) := by
  by_cases hskip : next.key = plugin.key ∨ next.key ∈ collected.map Plugin.key
  · rw [outcome_visit_skipped hskip]
    exact h
  · refine meets_visit_entered hskip (hexpand.imp (fun _ _ hnext => ?_) fun _ hnext => ?_)
    · exact h.trans hnext.spares
    · exact h.trans hnext

/-- An expansion spares what is kept, also where it fails. The induction is on the plugins that may still be
entered, none of which is on the path. -/
theorem meets_expand_spares (graph : DependencyGraph) (hapart : ∀ key ∈ available, key ∉ path)
    (hundone : ∀ key ∈ path, state.Undone key) (plugin : Plugin) :
    Meets (Rested path available plugin state) (Spares path state)
      (outcome (graph.expand path available plugin) state) := by
  induction hlength : available.length using Nat.strongRecOn
    generalizing path available plugin state with
  | _ length ih =>
  by_cases hmem : plugin.key ∈ available
  · have hpath : plugin.key ∉ path := hapart plugin.key hmem
    by_cases hdone : state.Finished plugin.key
    · obtain ⟨dependencies, hdone⟩ := hdone
      rw [outcome_expand_done hmem hdone]
      exact ⟨.refl path state, fun _ => .inl hdone⟩
    · have hfresh : state.Undone plugin.key := undone_iff_not_finished.2 hdone
      have hentered := graph.undone_enter plugin hundone
      have hloop := meets_foldlM (graph.visit path available plugin)
        (fun _ _ current =>
          Spares (path ++ [plugin.key]) (state.enter plugin.key (graph.direct plugin)) current)
        (Spares (path ++ [plugin.key]) (state.enter plugin.key (graph.direct plugin)))
        (fun next _ _ current hspares => spares_visit hspares (ih _
          (hlength ▸ length_without_lt hmem) (not_mem_path_enter hapart plugin.key)
          (hspares.keepsPath.undone hentered) next rfl))
        (graph.direct plugin).found [] _ (.refl _ _)
      refine meets_expand_entered hmem hfresh (hloop.imp (fun _ _ h => ?_) fun _ h => ?_)
      · exact rested_leave hpath hfresh h
      · exact (spares_enter hfresh hpath _).trans (h.mono (List.subset_append_left path [plugin.key]))
  · rw [outcome_expand_met hmem]
    exact graph.meets_closeCycle_spares hundone hmem

/-- Asking for dependencies spares what is kept, and keeps what it gives. -/
theorem meets_transitive_spares (graph : DependencyGraph) (plugin : Plugin) (state : ClosureState) :
    Meets (fun dependencies after =>
        (∀ key, state.Finished key → after.descriptor key = state.descriptor key) ∧
          after.progress plugin.key = .done dependencies)
      (fun after => ∀ key, state.Finished key → after.descriptor key = state.descriptor key)
      (outcome (graph.transitive plugin) state) := by
  have hself : plugin.key ∈ graph.keysFrom plugin := List.mem_cons_self
  have hexpand : Meets (Rested [] (graph.keysFrom plugin) plugin state) (Spares [] state)
      (outcome (graph.expand [] (graph.keysFrom plugin) plugin) state) :=
    graph.meets_expand_spares (by simp) (by simp) plugin
  refine meets_transitive_of_expand (hexpand.imp (fun dependencies after h => ?_) fun after h => ?_)
  · refine ⟨fun key hkey => ?_, progress_settle_self (h.kept hself)⟩
    have hsame := h.spares.kept key hkey
    exact (descriptor_settle_of_finished (hkey.of_descriptor hsame) _ _).trans hsame
  · intro key hkey
    have hsame := h.kept key hkey
    exact (descriptor_giveUp_of_finished (hkey.of_descriptor hsame)).trans hsame

/-- Asking for dependencies changes nothing of a plugin whose dependencies are kept. -/
theorem descriptor_transitive (graph : DependencyGraph) (plugin : Plugin) (h : state.Finished key) :
    (outcome (graph.transitive plugin) state).2.descriptor key = state.descriptor key := by
  have hspares := (graph.meets_transitive_spares plugin state).imp (fun _ _ h => h.1) fun _ => id
  exact hspares.after key h

/-- Dependencies that are kept are given back, and nothing else is done. -/
theorem outcome_transitive_done (hdone : state.progress plugin.key = .done dependencies) :
    outcome (graph.transitive plugin) state = (.ok dependencies, state) := by
  have hself : plugin.key ∈ graph.keysFrom plugin := List.mem_cons_self
  rw [outcome_transitive, outcome_expand_done hself hdone]
  simp only [settle_of_done hdone]

-- ════════════════════════════════════════════════════════════════════════
-- Resolved closures
-- ════════════════════════════════════════════════════════════════════════

/-- All of a closure is kept once it has been resolved. -/
theorem descriptor_resolve
    (h : (runWith (graph.resolve plugin) state shelf).1.1 = .ok closure) :
    (runWith (graph.resolve plugin) state shelf).1.2.descriptor plugin.key = closure.kept := by
  have hspares := graph.meets_transitive_spares plugin state
  rcases hanswer : outcome (graph.transitive plugin) state with ⟨_ | dependencies, after⟩
  · rw [runWith_resolve_failed hanswer] at h
    cases h
  · rw [hanswer] at hspares
    have hdone : (after.descriptor plugin.key).transitive = .done dependencies := hspares.2
    cases hsource : (after.descriptor plugin.key).source with
    | some source =>
      rw [runWith_resolve_seen hanswer hsource] at h ⊢
      cases h
      rw [Closure.kept, ← hdone, ← hsource]
    | none =>
      rw [runWith_resolve_made hanswer hsource rfl] at h ⊢
      cases h
      rw [see, descriptor_update, if_pos rfl, Closure.kept, ← hdone]

/-- A closure of which all is kept is given back, and nothing else is done. -/
theorem runWith_resolve_kept (h : state.descriptor plugin.key = closure.kept) (shelf : Shelf) :
    runWith (graph.resolve plugin) state shelf = ((.ok closure, state), shelf) := by
  have hdone : state.progress plugin.key = .done closure.dependencies := by
    rw [progress, h, Closure.kept]
  have hsource : (state.descriptor plugin.key).source = some closure.source := by
    rw [h, Closure.kept]
  rw [runWith_resolve_seen (outcome_transitive_done hdone) hsource, h, Closure.kept]

/-- No question changes what is kept of a resolved closure, whichever plugin it is about. -/
theorem descriptor_perform {before : ClosureState × Shelf}
    (h : before.1.descriptor key = closure.kept) (call : ClosureCall) :
    (graph.perform before call).1.descriptor key = closure.kept := by
  have hfinished : before.1.Finished key := ⟨closure.dependencies, by rw [progress, h, Closure.kept]⟩
  cases call with
  | transitive plugin => exact (graph.descriptor_transitive plugin hfinished).trans h
  | resolve plugin =>
    by_cases hkey : plugin.key = key
    · subst hkey
      rw [perform, runWith_resolve_kept h]
      exact h
    · obtain hasked | ⟨_, after, source, hok, hseen⟩ := graph.perform_cases before (.resolve plugin)
      · rw [hasked]
        exact (graph.descriptor_transitive plugin hfinished).trans h
      · have hafter := graph.descriptor_transitive plugin hfinished
        rw [ClosureCall.plugin] at hok hseen
        rw [hok] at hafter
        rw [hseen, see, descriptor_update_of_ne (Ne.symm hkey), hafter, h]

/-- What is known after some questions. What classes are remembered may change between them. -/
def knownAfter (graph : DependencyGraph) (state : ClosureState)
    (questions : List (Shelf × ClosureCall)) : ClosureState :=
  questions.foldl (fun state question => (graph.perform (state, question.1) question.2).1) state

/-- What is kept of a resolved closure stays after any questions. -/
theorem descriptor_knownAfter (graph : DependencyGraph) (h : state.descriptor key = closure.kept)
    (questions : List (Shelf × ClosureCall)) :
    (graph.knownAfter state questions).descriptor key = closure.kept := by
  induction questions generalizing state with
  | nil => exact h
  | cons question questions ih => exact ih (descriptor_perform h question.2)

/-- A closure that has been resolved once is the same ever after. Whatever was asked before and whatever has
been asked since, asking for it again gives all of it as it was, with the same source, and changes nothing of
what is known, not even how often plugins were expanded. -/
theorem resolve_lasting (graph : DependencyGraph) (earlier later : List (Shelf × ClosureCall))
    (plugin : Plugin) (shelf shelf' : Shelf) {closure : Closure}
    (h : (runWith (graph.resolve plugin) (graph.knownAfter {} earlier) shelf).1.1 = .ok closure) :
    runWith (graph.resolve plugin)
        (graph.knownAfter {} (earlier ++ (shelf, .resolve plugin) :: later)) shelf' =
      ((.ok closure, graph.knownAfter {} (earlier ++ (shelf, .resolve plugin) :: later)), shelf') := by
  have hkept := graph.descriptor_knownAfter (descriptor_resolve h) later
  have hstate : graph.knownAfter {} (earlier ++ (shelf, .resolve plugin) :: later) =
      graph.knownAfter (runWith (graph.resolve plugin) (graph.knownAfter {} earlier) shelf).1.2
        later := by
    rw [knownAfter, List.foldl_append, List.foldl_cons]
    rfl
  rw [hstate]
  exact runWith_resolve_kept hkept shelf'

/-- Questions about the plugins that need each other, before the closure of the first is asked for. -/
def ringEarlier : List (Shelf × ClosureCall) :=
  [({}, .transitive ringB)]

/-- Questions afterwards, when sources have been made that belong to no plugin. -/
def ringLater : List (Shelf × ClosureCall) :=
  [({ nextId := 7 }, .resolve ringC), ({ nextId := 9 }, .resolve ringB)]

/-- The closure of a plugin on a cycle, asked for again when other closures have been resolved. -/
theorem resolve_lasting_ring :
    ∃ closure, (runWith ((ring .degrade).resolve ringA)
          ((ring .degrade).knownAfter {} ringEarlier) {}).1.1 = .ok closure ∧
      closure.dependencies.map Plugin.id = ["b", "c"] ∧ closure.cyclic = true ∧
      runWith ((ring .degrade).resolve ringA)
          ((ring .degrade).knownAfter {} (ringEarlier ++ ({}, .resolve ringA) :: ringLater)) {} =
        ((.ok closure, (ring .degrade).knownAfter {}
          (ringEarlier ++ ({}, .resolve ringA) :: ringLater)), {}) := by
  have hgiven : ((runWith ((ring .degrade).resolve ringA)
      ((ring .degrade).knownAfter {} ringEarlier) {}).1.1.toOption.map
        fun closure => (closure.dependencies.map Plugin.id, closure.cyclic)) =
      some (["b", "c"], true) := by
    decide +kernel
  cases hclosure : (runWith ((ring .degrade).resolve ringA)
      ((ring .degrade).knownAfter {} ringEarlier) {}).1.1 with
  | error failure =>
    rw [hclosure] at hgiven
    cases hgiven
  | ok closure =>
    rw [hclosure] at hgiven
    obtain ⟨hids, hcyclic⟩ := Prod.mk.inj (Option.some.inj hgiven)
    exact ⟨closure, rfl, hids, hcyclic, resolve_lasting (ring .degrade) ringEarlier ringLater ringA
      {} {} hclosure⟩

end DependencyGraph

end LinkCheck
