import LinkCheck.Proofs.ClosureStates
import LinkCheck.Proofs.Reachability
import Mathlib.Data.List.TakeWhile

/-!
# Right descriptors

What is kept of plugins is right if listed dependencies are complete, and a source stands for the
dependencies that are listed. Each step of an expansion keeps this under a condition of its own. The
conditions speak of the path: a plugin on it keeps nothing, and behind a cut nothing is in progress.

## Main definitions

- `Descriptor.Sound`, `ClosureState.Sound` — whatever is kept of a plugin is right
- `ClosureState.Undone` — no dependencies are kept of a plugin
- `ClosureState.CutAt` — the plugins on a path behind a cut are no longer in progress
- `ClosureState.KeepsPath` — what an expansion may do to the plugins on its path
-/

namespace LinkCheck

/-- Whatever a descriptor keeps is right: listed dependencies are all dependencies, what is missing then
has been noted, and a source has been made for the listed dependencies. -/
structure Descriptor.Sound (graph : DependencyGraph)
    (sees : Plugin → List Plugin → ClassSource → Prop) (plugin : Plugin) (descriptor : Descriptor) :
    Prop where
  lists : ∀ {dependencies : List Plugin}, descriptor.transitive = .done dependencies →
    graph.Lists plugin dependencies
  missing : ∀ {dependencies : List Plugin}, descriptor.transitive = .done dependencies →
    descriptor.missing = (graph.direct plugin).missing
  source : ∀ {source : ClassSource}, descriptor.source = some source →
    ∃ dependencies, descriptor.transitive = .done dependencies ∧ sees plugin dependencies source

/-- A descriptor that keeps nothing is right. -/
theorem Descriptor.sound_of_undone {graph : DependencyGraph}
    {sees : Plugin → List Plugin → ClassSource → Prop} {plugin : Plugin} {descriptor : Descriptor}
    (hundone : ∀ dependencies, descriptor.transitive ≠ .done dependencies)
    (hsource : descriptor.source = none) : descriptor.Sound graph sees plugin := by
  refine ⟨fun h => absurd h (hundone _), fun h => absurd h (hundone _), fun h => ?_⟩
  rw [hsource] at h
  cases h

namespace ClosureState

variable {graph : DependencyGraph} {known : Plugin → Prop}
  {sees : Plugin → List Plugin → ClassSource → Prop} {state : ClosureState}

/-- Whatever is kept of a known plugin is right. -/
def Sound (graph : DependencyGraph) (known : Plugin → Prop)
    (sees : Plugin → List Plugin → ClassSource → Prop) (state : ClosureState) : Prop :=
  ∀ plugin, known plugin → (state.descriptor plugin.key).Sound graph sees plugin

/-- No dependencies are kept of a plugin. -/
def Undone (state : ClosureState) (key : PluginKey) : Prop :=
  ∀ dependencies, state.progress key ≠ .done dependencies

theorem Undone.of_inProgress {key : PluginKey} (h : state.progress key = .inProgress) :
    state.Undone key := by
  intro dependencies hdone
  rw [h] at hdone
  cases hdone

theorem Undone.of_absent {key : PluginKey} (h : state.progress key = .absent) :
    state.Undone key := by
  intro dependencies hdone
  rw [h] at hdone
  cases hdone

theorem Sound.empty (graph : DependencyGraph) (known : Plugin → Prop)
    (sees : Plugin → List Plugin → ClassSource → Prop) :
    ({} : ClosureState).Sound graph known sees := by
  intro plugin _
  exact Descriptor.sound_of_undone (by simp) rfl

/-- What is right stays right if less is asked of sources. -/
theorem Sound.imp {seen : Plugin → List Plugin → ClassSource → Prop}
    (h : state.Sound graph known sees)
    (himp : ∀ plugin dependencies source, sees plugin dependencies source →
      seen plugin dependencies source) : state.Sound graph known seen := by
  intro plugin hplugin
  refine ⟨(h plugin hplugin).lists, (h plugin hplugin).missing, fun hsource => ?_⟩
  obtain ⟨dependencies, hdone, hsees⟩ := (h plugin hplugin).source hsource
  exact ⟨dependencies, hdone, himp plugin dependencies _ hsees⟩

/-- A plugin of which no dependencies are kept has no source either. -/
theorem Sound.source_none {plugin : Plugin} (h : state.Sound graph known sees)
    (hplugin : known plugin) (hundone : state.Undone plugin.key) :
    (state.descriptor plugin.key).source = none := by
  cases hsource : (state.descriptor plugin.key).source with
  | none => rfl
  | some source =>
    obtain ⟨dependencies, hdone, _⟩ := (h plugin hplugin).source hsource
    exact absurd hdone (hundone dependencies)

theorem Sound.enter {key : PluginKey} (h : state.Sound graph known sees)
    (hundone : state.Undone key) (direct : DirectDependencies) :
    (state.enter key direct).Sound graph known sees := by
  intro plugin hplugin
  rw [descriptor_enter]
  split
  · next hkey =>
    subst hkey
    exact Descriptor.sound_of_undone (by simp) (h.source_none hplugin hundone)
  · exact h plugin hplugin

theorem Sound.markCycle {members : List PluginKey} (h : state.Sound graph known sees)
    (hundone : ∀ key ∈ members, state.Undone key) :
    (state.markCycle members).Sound graph known sees := by
  intro plugin hplugin
  rw [descriptor_markCycle]
  split
  · next hmem =>
    exact Descriptor.sound_of_undone (by simp) (h.source_none hplugin (hundone _ hmem))
  · exact h plugin hplugin

theorem Sound.leave {plugin : Plugin} {dependencies : List Plugin}
    (law : graph.Lawful known) (h : state.Sound graph known sees) (hplugin : known plugin)
    (hundone : state.Undone plugin.key)
    (hlists : state.progress plugin.key = .inProgress → graph.Lists plugin dependencies) :
    (state.leave plugin.key dependencies (graph.direct plugin).missing).Sound graph known sees := by
  intro other hother
  by_cases hkey : other.key = plugin.key
  · obtain rfl := law.apart hother hplugin hkey
    obtain ⟨hmissing, hsource⟩ := descriptor_leave_self state other.key dependencies
      (graph.direct other).missing
    rw [h.source_none hother hundone] at hsource
    refine ⟨fun hdone => ?_, fun _ => hmissing, fun hsome => by rw [hsource] at hsome; cases hsome⟩
    by_cases hprogress : state.progress other.key = .inProgress
    · have hkept := progress_leave_of_inProgress hprogress dependencies
        (graph.direct other).missing
      rw [progress, hdone] at hkept
      cases hkept
      exact hlists hprogress
    · have hsame := progress_leave_of_not_inProgress hprogress dependencies (graph.direct other).missing
      rw [progress, hdone] at hsame
      exact absurd hsame.symm (hundone _)
  · rw [descriptor_leave_of_ne hkey]
    exact h other hother

theorem Sound.settle {plugin : Plugin} {dependencies : List Plugin}
    (law : graph.Lawful known) (h : state.Sound graph known sees) (hplugin : known plugin)
    (hlists : graph.Lists plugin dependencies)
    (hmissing : (state.descriptor plugin.key).missing = (graph.direct plugin).missing)
    (hprogress : state.progress plugin.key = .done dependencies ∨ state.Undone plugin.key) :
    (state.settle plugin.key dependencies).Sound graph known sees := by
  intro other hother
  by_cases hkey : other.key = plugin.key
  · obtain rfl := law.apart hother hplugin hkey
    have hsettled := progress_settle_self hprogress
    rw [progress] at hsettled
    obtain ⟨hsameMissing, hsameSource⟩ := descriptor_settle_self state other.key dependencies
    refine ⟨fun hdone => ?_, fun _ => hsameMissing.trans hmissing, fun hsource => ?_⟩
    · rw [hsettled] at hdone
      cases hdone
      exact hlists
    · rw [hsameSource] at hsource
      obtain ⟨others, hdone, hsees⟩ := (h other hother).source hsource
      rcases hprogress with hprogress | hprogress
      · rw [progress, hdone] at hprogress
        cases hprogress
        exact ⟨_, hsettled, hsees⟩
      · exact absurd hdone (hprogress others)
  · rw [descriptor_settle_of_ne hkey]
    exact h other hother

theorem Sound.giveUp (h : state.Sound graph known sees) :
    state.giveUp.Sound graph known sees := by
  intro plugin hplugin
  obtain ⟨hmissing, hsource⟩ := descriptor_giveUp_fields state plugin.key
  refine ⟨fun hdone => ?_, fun hdone => ?_, fun hsome => ?_⟩
  · exact (h plugin hplugin).lists (progress_giveUp_eq_done.1 hdone)
  · rw [hmissing]
    exact (h plugin hplugin).missing (progress_giveUp_eq_done.1 hdone)
  · rw [hsource] at hsome
    obtain ⟨dependencies, hdone, hsees⟩ := (h plugin hplugin).source hsome
    exact ⟨dependencies, progress_giveUp_eq_done.2 hdone, hsees⟩

/-- Nothing is in progress on the path from a plugin on, because a cycle through it was met. -/
def CutAt (state : ClosureState) (path : List PluginKey) (key : PluginKey) : Prop :=
  key ∈ path ∧ ∀ other ∈ path.dropWhile (· ≠ key), state.progress other = .absent

/-- On a path, an expansion changes nothing but to forget what was in progress. -/
def KeepsPath (before after : ClosureState) (path : List PluginKey) : Prop :=
  ∀ key ∈ path, after.progress key = before.progress key ∨ after.progress key = .absent

theorem KeepsPath.undone {before after : ClosureState} {path : List PluginKey}
    (h : before.KeepsPath after path) (hundone : ∀ key ∈ path, before.Undone key) :
    ∀ key ∈ path, after.Undone key := by
  intro key hkey
  rcases h key hkey with hsame | habsent
  · intro dependencies hdone
    exact hundone key hkey dependencies (hsame.symm.trans hdone)
  · exact .of_absent habsent

/-- Nothing is kept of a plugin that was entered and is on the path. -/
theorem KeepsPath.undone_entered {after : ClosureState} {path : List PluginKey} {key : PluginKey}
    {direct : DirectDependencies} (h : (state.enter key direct).KeepsPath after path)
    (hkey : key ∈ path) : after.Undone key := by
  obtain hsame | habsent := h key hkey
  · exact .of_inProgress (hsame.trans (progress_enter_self _ _ _))
  · exact .of_absent habsent

/-- When a plugin is left, what was found is kept or nothing is. -/
theorem progress_leave_or_undone {key : PluginKey} (h : state.Undone key)
    (dependencies : List Plugin) (missing : List Dependency) :
    (state.leave key dependencies missing).progress key = .done dependencies ∨
      (state.leave key dependencies missing).Undone key := by
  by_cases hprogress : state.progress key = .inProgress
  · exact .inl (progress_leave_of_inProgress hprogress dependencies missing)
  · refine .inr fun others hdone => h others ?_
    rwa [progress_leave_of_not_inProgress hprogress] at hdone

theorem KeepsPath.trans {first second third : ClosureState} {path : List PluginKey}
    (h : first.KeepsPath second path) (hnext : second.KeepsPath third path) :
    first.KeepsPath third path := by
  intro key hkey
  rcases hnext key hkey with hsame | habsent
  · rw [hsame]
    exact h key hkey
  · exact .inr habsent

theorem CutAt.keep {before after : ClosureState} {path : List PluginKey} {key : PluginKey}
    (h : before.CutAt path key) (hkeep : before.KeepsPath after path) : after.CutAt path key := by
  refine ⟨h.1, fun other hother => ?_⟩
  have habsent := h.2 other hother
  rcases hkeep other (List.dropWhile_subset _ hother) with hsame | hsame
  · exact hsame.trans habsent
  · exact hsame

/-- What is behind a cut on a longer path is behind it on the path. -/
theorem dropWhile_concat {path : List PluginKey} {key : PluginKey} (h : key ∈ path)
    (last : PluginKey) :
    (path ++ [last]).dropWhile (· ≠ key) = path.dropWhile (· ≠ key) ++ [last] := by
  rw [List.dropWhile_append, if_neg]
  intro hempty
  have hall := List.dropWhile_eq_nil_iff.1 (List.isEmpty_iff.1 hempty) key h
  simp at hall

theorem CutAt.of_concat {path : List PluginKey} {key last : PluginKey}
    (h : state.CutAt (path ++ [last]) key) (hmem : key ∈ path) :
    state.CutAt path key ∧ state.progress last = .absent := by
  have hbehind := h.2
  rw [dropWhile_concat hmem] at hbehind
  exact ⟨⟨hmem, fun other hother => hbehind other (List.mem_append_left _ hother)⟩,
    hbehind last (List.mem_append_right _ (List.mem_singleton_self last))⟩

end ClosureState

end LinkCheck
