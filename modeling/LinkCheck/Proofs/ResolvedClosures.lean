import LinkCheck.Proofs.Expansion
import LinkCheck.Proofs.Runs

/-!
# Closures with their sources

The closure of a plugin is made of its dependencies and of the source that stands for what it sees. The
source is made when a closure is first asked for and kept from then on.

## Main definitions

- `ClosureState.see` — notes what a plugin sees
- `ClosureCall` — a question about the closure of a plugin
- `DependencyGraph.perform`, `DependencyGraph.stateAfter` — what is known after some questions
- `KeysTellApart` — equal keys mean equal plugins
-/

namespace LinkCheck

/-- Notes what a plugin sees. -/
def ClosureState.see (state : ClosureState) (key : PluginKey) (source : ClassSource) :
    ClosureState :=
  state.update key fun known => { known with source := some source }

namespace ClosureState

variable {graph : DependencyGraph} {known : Plugin → Prop}
  {sees : Plugin → List Plugin → ClassSource → Prop} {state : ClosureState}

/-- Noting what a plugin sees leaves the dependencies of all plugins as they are. -/
@[simp]
theorem progress_see (state : ClosureState) (key other : PluginKey) (source : ClassSource) :
    (state.see key source).progress other = state.progress other := by
  rw [progress, see, descriptor_update]
  split
  · next hkey => rw [hkey, progress]
  · rfl

/-- What a plugin sees may be noted once its dependencies are kept. -/
theorem Sound.see {plugin : Plugin} {dependencies : List Plugin} {source : ClassSource}
    (law : graph.Lawful known) (h : state.Sound graph known sees) (hplugin : known plugin)
    (hdone : state.progress plugin.key = .done dependencies)
    (hsees : sees plugin dependencies source) :
    (state.see plugin.key source).Sound graph known sees := by
  intro other hother
  rw [ClosureState.see, descriptor_update]
  split
  · next hkey =>
    obtain rfl := law.apart hother hplugin hkey
    refine ⟨(h other hother).lists, (h other hother).missing, fun hsource => ?_⟩
    cases hsource
    exact ⟨dependencies, hdone, hsees⟩
  · exact h other hother

end ClosureState

/-- A question about the closure of a plugin: for its dependencies, or also for what it sees. -/
inductive ClosureCall where
  | transitive (plugin : Plugin)
  | resolve (plugin : Plugin)

/-- The plugin that a question is about. -/
def ClosureCall.plugin : ClosureCall → Plugin
  | transitive plugin | resolve plugin => plugin

/-- Equal keys mean equal plugins. -/
def KeysTellApart (plugins : List Plugin) : Prop :=
  ∀ plugin ∈ plugins, ∀ other ∈ plugins, plugin.key = other.key → plugin = other

namespace DependencyGraph

open Expansion

variable {graph : DependencyGraph} {known : Plugin → Prop}
  {sees : Plugin → List Plugin → ClassSource → Prop} {plugin : Plugin}
  {dependencies : List Plugin} {source : ClassSource} {state after : ClosureState}
  {shelf shelf' : Shelf}

theorem runWith_resolving {α : Type} (expansion : Expansion α) :
    runWith (resolving expansion) state shelf = (outcome expansion state, shelf) := rfl

/-- There is no closure where the dependencies cannot be told. -/
theorem runWith_resolve_failed {failure : ClosureError}
    (h : outcome (graph.transitive plugin) state = (.error failure, after)) :
    runWith (graph.resolve plugin) state shelf = ((.error failure, after), shelf) := by
  rw [resolve, runWith_bind, runWith_resolving, h]

/-- What a plugin sees is not made again. -/
theorem runWith_resolve_seen
    (h : outcome (graph.transitive plugin) state = (.ok dependencies, after))
    (hsource : (after.descriptor plugin.key).source = some source) :
    runWith (graph.resolve plugin) state shelf =
      ((.ok
        { dependencies
          missing := (after.descriptor plugin.key).missing
          cyclic := (after.descriptor plugin.key).cyclic
          source }, after), shelf) := by
  have hseen : runWith (graph.sourceOf plugin dependencies) after shelf =
      ((.ok source, after), shelf) := by
    rw [sourceOf, runWith_bind, runWith_getThe]
    simp only [hsource]
    rfl
  rw [resolve, runWith_bind, runWith_resolving, h]
  simp only [runWith_bind, hseen, runWith_getThe]
  rfl

/-- What a plugin sees is made of its layers when it is first asked for. -/
theorem runWith_resolve_made
    (h : outcome (graph.transitive plugin) state = (.ok dependencies, after))
    (hsource : (after.descriptor plugin.key).source = none)
    (hmade : (ClassSource.unionOf (graph.layers plugin dependencies)).run shelf =
      (source, shelf')) :
    runWith (graph.resolve plugin) state shelf =
      ((.ok
        { dependencies
          missing := (after.descriptor plugin.key).missing
          cyclic := (after.descriptor plugin.key).cyclic
          source }, after.see plugin.key source), shelf') := by
  have hseen : runWith (graph.sourceOf plugin dependencies) after shelf =
      ((.ok source, after.see plugin.key source), shelf') := by
    rw [sourceOf, runWith_bind, runWith_getThe]
    simp only [hsource]
    rw [runWith_bind, runWith_liftM, hmade]
    rfl
  rw [resolve, runWith_bind, runWith_resolving, h]
  simp only [runWith_bind, hseen, runWith_getThe, ClosureState.see,
    ClosureState.descriptor_update, if_pos]
  rfl

/-- There is a closure where the dependencies can be told, and it tells what is known by then. -/
theorem exists_resolve_ok
    (h : outcome (graph.transitive plugin) state = (.ok dependencies, after)) (shelf : Shelf) :
    ∃ closure, (runWith (graph.resolve plugin) state shelf).1.1 = .ok closure ∧
      closure.dependencies = dependencies ∧ closure.cyclic = after.isCyclic plugin.key := by
  cases hsource : (after.descriptor plugin.key).source with
  | some source =>
    rw [runWith_resolve_seen h hsource]
    exact ⟨_, rfl, rfl, rfl⟩
  | none =>
    rw [runWith_resolve_made h hsource rfl]
    exact ⟨_, rfl, rfl, rfl⟩

/-- What is known and remembered after a question. -/
def perform (graph : DependencyGraph) (before : ClosureState × Shelf) :
    ClosureCall → ClosureState × Shelf
  | .transitive plugin => ((outcome (graph.transitive plugin) before.1).2, before.2)
  | .resolve plugin =>
    let answer := runWith (graph.resolve plugin) before.1 before.2
    (answer.1.2, answer.2)

/-- What is known after some questions, if nothing was known before. -/
def stateAfter (graph : DependencyGraph) (shelf : Shelf) (calls : List ClosureCall) :
    ClosureState :=
  (calls.foldl graph.perform ({}, shelf)).1

/-- A question changes what is known as asking for the dependencies does, and may then note what the
plugin sees. -/
theorem perform_cases (graph : DependencyGraph) (before : ClosureState × Shelf)
    (call : ClosureCall) :
    (graph.perform before call).1 = (outcome (graph.transitive call.plugin) before.1).2 ∨
      ∃ dependencies after source,
        outcome (graph.transitive call.plugin) before.1 = (.ok dependencies, after) ∧
          (graph.perform before call).1 = after.see call.plugin.key source := by
  cases call with
  | transitive plugin => exact .inl rfl
  | resolve plugin =>
    change (runWith (graph.resolve plugin) before.1 before.2).1.2 = _ ∨ ∃ dependencies after source,
      _ ∧ (runWith (graph.resolve plugin) before.1 before.2).1.2 = _
    rcases hresult : outcome (graph.transitive plugin) before.1 with ⟨failure | dependencies, after⟩
    · rw [runWith_resolve_failed hresult]
      exact .inl (congrArg Prod.snd hresult).symm
    · cases hsource : (after.descriptor plugin.key).source with
      | some source =>
        rw [runWith_resolve_seen hresult hsource]
        exact .inl (congrArg Prod.snd hresult).symm
      | none =>
        rcases hmade : (ClassSource.unionOf (graph.layers plugin dependencies)).run before.2 with
          ⟨source, shelf'⟩
        rw [runWith_resolve_made hresult hsource hmade]
        exact .inr ⟨dependencies, after, source, hresult, rfl⟩

/-- What asking for dependencies and noting what is seen both keep holds after any questions. -/
theorem stateAfter_induction (graph : DependencyGraph) (shelf : Shelf) (calls : List ClosureCall)
    (kept : ClosureState → Prop) (hstart : kept {})
    (hask : ∀ plugin ∈ calls.map ClosureCall.plugin, ∀ state, kept state →
      kept (outcome (graph.transitive plugin) state).2)
    (hsee : ∀ plugin ∈ calls.map ClosureCall.plugin, ∀ state, kept state →
      ∀ dependencies after, outcome (graph.transitive plugin) state = (.ok dependencies, after) →
        ∀ source, kept (after.see plugin.key source)) :
    kept (graph.stateAfter shelf calls) := by
  have hrun : ∀ before : ClosureState × Shelf, kept before.1 →
      kept (calls.foldl graph.perform before).1 := by
    induction calls with
    | nil => exact fun before hbefore => hbefore
    | cons call calls ih =>
      intro before hbefore
      have hcall : call.plugin ∈ (call :: calls).map ClosureCall.plugin := List.mem_cons_self
      refine ih (fun plugin hplugin => hask plugin (.tail _ hplugin))
        (fun plugin hplugin => hsee plugin (.tail _ hplugin)) (graph.perform before call) ?_
      rcases graph.perform_cases before call with hasked | ⟨dependencies, after, source, hok, hseen⟩
      · rw [hasked]
        exact hask call.plugin hcall before.1 hbefore
      · rw [hseen]
        exact hsee call.plugin hcall before.1 hbefore dependencies after hok source
  exact hrun ({}, shelf) hstart

/-- The plugins that questions are about and those that dependencies can lead to obey the law of keys. -/
theorem lawful_of_keysTellApart {others : List Plugin}
    (h : KeysTellApart (graph.plugins ++ others)) :
    graph.Lawful (· ∈ graph.plugins ++ others) where
  apart := fun hplugin hother => h _ hplugin _ hother
  offered := fun hplugin => List.mem_append_left _ hplugin

-- ════════════════════════════════════════════════════════════════════════
-- A cycle of two plugins
-- ════════════════════════════════════════════════════════════════════════

/-- A plugin that needs the second and brings no classes. -/
def ringA : Plugin where
  id := "a"
  version := "1"
  dependencies := [{ id := "b", isOptional := false }]
  classes := .empty 0
  libraries := .empty 0

/-- A plugin that needs the first again, and a third. -/
def ringB : Plugin :=
  { ringA with
    id := "b"
    dependencies := [{ id := "a", isOptional := true }, { id := "c", isOptional := false }] }

/-- A plugin that needs nothing. -/
def ringC : Plugin :=
  { ringA with id := "c", dependencies := [] }

/-- A platform with two plugins that need each other, and a third. -/
def ring (policy : CyclePolicy) : DependencyGraph where
  platform := { ident := 0, version := "1", classes := .empty 0, plugins := [ringA, ringB, ringC] }
  policy := policy

end DependencyGraph

end LinkCheck
