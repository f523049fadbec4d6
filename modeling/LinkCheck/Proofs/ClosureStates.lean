import LinkCheck.Closure
import LinkCheck.Proofs.Tables

/-!
# Steps of an expansion

Expanding a plugin changes what is known of plugins in four ways: the expansion begins, it ends, a cycle
is met, and the outermost expansion is settled or given up. Each step is described by what it does to
the descriptor of any plugin, so that no later argument has to open the table of descriptors.

## Main definitions

- `ClosureState.progress` — how far the transitive dependencies of a plugin are known
- `Expansion.outcome` — what an expansion gives, and what is known afterwards
-/

namespace LinkCheck

namespace ClosureState

/-- How far the transitive dependencies of a plugin are known. -/
def progress (state : ClosureState) (key : PluginKey) : Transitive :=
  (state.descriptor key).transitive

@[simp]
theorem descriptor_empty (key : PluginKey) : ({} : ClosureState).descriptor key = {} := rfl

@[simp]
theorem progress_empty (key : PluginKey) : ({} : ClosureState).progress key = .absent := rfl

theorem descriptor_update (state : ClosureState) (key other : PluginKey)
    (change : Descriptor → Descriptor) :
    (state.update key change).descriptor other =
      if other = key then change (state.descriptor key) else state.descriptor other := by
  unfold update descriptor
  simp only [Table.get?_insert]
  split <;> rfl

/-- Other descriptors stay as they are when one is changed. -/
theorem descriptor_update_of_ne {state : ClosureState} {key other : PluginKey}
    {change : Descriptor → Descriptor} (h : other ≠ key) :
    (state.update key change).descriptor other = state.descriptor other := by
  rw [descriptor_update, if_neg h]

/-- Nothing is changed by a change that does nothing to a descriptor in which something is kept. -/
theorem update_eq_self {state : ClosureState} {key : PluginKey} {change : Descriptor → Descriptor}
    {dependencies : List Plugin} (hdone : state.progress key = .done dependencies)
    (h : change (state.descriptor key) = state.descriptor key) : state.update key change = state := by
  have hknown : state.descriptors.get? key = some (state.descriptor key) := by
    cases hget : state.descriptors.get? key with
    | none =>
      rw [progress, descriptor, hget] at hdone
      cases hdone
    | some known => rw [descriptor, hget, Option.getD_some]
  rw [update, h, Table.insert_of_get? hknown]

theorem descriptor_enter (state : ClosureState) (key other : PluginKey)
    (direct : DirectDependencies) :
    (state.enter key direct).descriptor other =
      if other = key then { state.descriptor key with transitive := .inProgress }
      else state.descriptor other :=
  descriptor_update state key other fun known => { known with transitive := .inProgress }

@[simp]
theorem progress_enter_self (state : ClosureState) (key : PluginKey)
    (direct : DirectDependencies) : (state.enter key direct).progress key = .inProgress := by
  rw [progress, descriptor_enter, if_pos rfl]

theorem progress_enter_of_ne {state : ClosureState} {key other : PluginKey} (h : other ≠ key)
    (direct : DirectDependencies) :
    (state.enter key direct).progress other = state.progress other := by
  rw [progress, descriptor_enter, if_neg h, progress]

theorem descriptor_leave_of_ne {state : ClosureState} {key other : PluginKey}
    {dependencies : List Plugin} {missing : List Dependency} (h : other ≠ key) :
    (state.leave key dependencies missing).descriptor other = state.descriptor other :=
  descriptor_update_of_ne h

theorem progress_leave_of_ne {state : ClosureState} {key other : PluginKey} (h : other ≠ key)
    (dependencies : List Plugin) (missing : List Dependency) :
    (state.leave key dependencies missing).progress other = state.progress other := by
  rw [progress, descriptor_leave_of_ne h, progress]

/-- What is missing is noted whether or not the dependencies are kept, and the source stays. -/
theorem descriptor_leave_self (state : ClosureState) (key : PluginKey)
    (dependencies : List Plugin) (missing : List Dependency) :
    ((state.leave key dependencies missing).descriptor key).missing = missing ∧
      ((state.leave key dependencies missing).descriptor key).source =
        (state.descriptor key).source := by
  rw [leave, descriptor_update, if_pos rfl]
  split <;> exact ⟨rfl, rfl⟩

/-- The dependencies are kept when the expansion is still in progress. -/
theorem progress_leave_of_inProgress {state : ClosureState} {key : PluginKey}
    (h : state.progress key = .inProgress) (dependencies : List Plugin)
    (missing : List Dependency) :
    (state.leave key dependencies missing).progress key = .done dependencies := by
  rw [progress] at h
  rw [progress, leave, descriptor_update, if_pos rfl, h]

/-- The dependencies are not kept when the expansion met a cycle. -/
theorem progress_leave_of_not_inProgress {state : ClosureState} {key : PluginKey}
    (h : state.progress key ≠ .inProgress) (dependencies : List Plugin)
    (missing : List Dependency) :
    (state.leave key dependencies missing).progress key = state.progress key := by
  rw [progress] at h
  rw [progress, leave, descriptor_update, if_pos rfl]
  split
  · next hknown => exact absurd hknown h
  · rfl

/-- Plugins on a cycle are marked, and what was known of their dependencies is forgotten. -/
theorem descriptor_markCycle (state : ClosureState) (members : List PluginKey)
    (key : PluginKey) :
    (state.markCycle members).descriptor key =
      if key ∈ members then { state.descriptor key with cyclic := true, transitive := .absent }
      else state.descriptor key := by
  induction members generalizing state with
  | nil => simp [markCycle]
  | cons member members ih =>
    change ((state.update member _).markCycle members).descriptor key = _
    rw [ih, descriptor_update]
    by_cases hkey : key = member
    · subst hkey
      by_cases hmem : key ∈ members <;> simp [hmem]
    · by_cases hmem : key ∈ members <;> simp [hmem, hkey]

theorem descriptor_settle_of_ne {state : ClosureState} {key other : PluginKey}
    {dependencies : List Plugin} (h : other ≠ key) :
    (state.settle key dependencies).descriptor other = state.descriptor other :=
  descriptor_update_of_ne h

/-- Settling touches nothing but the progress. -/
theorem descriptor_settle_self (state : ClosureState) (key : PluginKey)
    (dependencies : List Plugin) :
    ((state.settle key dependencies).descriptor key).missing = (state.descriptor key).missing ∧
      ((state.settle key dependencies).descriptor key).source = (state.descriptor key).source := by
  rw [settle, descriptor_update, if_pos rfl]
  split <;> exact ⟨rfl, rfl⟩

/-- Settled dependencies are kept unless others have been. -/
theorem progress_settle_self {state : ClosureState} {key : PluginKey}
    {dependencies : List Plugin}
    (h : state.progress key = .done dependencies ∨ ∀ others, state.progress key ≠ .done others) :
    (state.settle key dependencies).progress key = .done dependencies := by
  rw [progress, settle, descriptor_update, if_pos rfl]
  rw [progress] at h
  cases hknown : (state.descriptor key).transitive with
  | absent => rfl
  | inProgress => rfl
  | done others => simpa [hknown] using h

/-- Settling a plugin whose dependencies are kept changes nothing. -/
theorem settle_of_done {state : ClosureState} {key : PluginKey} {kept : List Plugin}
    (hdone : state.progress key = .done kept) (dependencies : List Plugin) :
    state.settle key dependencies = state := by
  apply update_eq_self hdone
  rw [progress] at hdone
  simp only [hdone]

/-- Giving up an expansion changes each descriptor on its own. -/
theorem descriptor_giveUp (state : ClosureState) (key : PluginKey) :
    state.giveUp.descriptor key = givenUp (state.descriptor key) := by
  unfold giveUp descriptor Table.get?
  rw [Table.lookup_map_value givenUp key state.descriptors.entries]
  cases state.descriptors.entries.lookup key <;> rfl

/-- Dependencies that are known are still known when an expansion has been given up. -/
theorem progress_giveUp_eq_done {state : ClosureState} {key : PluginKey}
    {dependencies : List Plugin} :
    state.giveUp.progress key = .done dependencies ↔ state.progress key = .done dependencies := by
  rw [progress, descriptor_giveUp, givenUp, progress]
  split
  · next h => simp [h]
  · rfl

/-- Only the progress of expansions changes when they are given up. -/
theorem descriptor_giveUp_fields (state : ClosureState) (key : PluginKey) :
    (state.giveUp.descriptor key).missing = (state.descriptor key).missing ∧
      (state.giveUp.descriptor key).source = (state.descriptor key).source := by
  rw [descriptor_giveUp, givenUp]
  split <;> exact ⟨rfl, rfl⟩

end ClosureState

namespace Expansion

variable {α β : Type}

/-- What an expansion gives, and what is known afterwards. -/
def outcome (expansion : Expansion α) (state : ClosureState) :
    Except ClosureError α × ClosureState :=
  expansion.run.run state

@[simp]
theorem outcome_get (state : ClosureState) :
    outcome (get : Expansion ClosureState) state = (.ok state, state) := rfl

/-- An expansion that fails is not gone on with. -/
theorem outcome_bind (expansion : Expansion α) (next : α → Expansion β) (state : ClosureState) :
    outcome (expansion >>= next) state =
      match outcome expansion state with
      | (.ok value, after) => outcome (next value) after
      | (.error failure, after) => (.error failure, after) := by
  have h : outcome (expansion >>= next) state =
      (fun answer : Except ClosureError α × ClosureState =>
        (ExceptT.bindCont next answer.1).run answer.2) (outcome expansion state) := rfl
  rw [h]
  rcases outcome expansion state with ⟨_ | value, after⟩ <;> rfl

/-- A failure is handled with what was known when it happened. -/
theorem outcome_tryCatch (expansion : Expansion α) (handle : ClosureError → Expansion α)
    (state : ClosureState) :
    outcome (tryCatch expansion handle) state =
      match outcome expansion state with
      | (.ok value, after) => (.ok value, after)
      | (.error failure, after) => outcome (handle failure) after := by
  change outcome (ExceptT.tryCatch expansion handle) state = _
  unfold outcome ExceptT.tryCatch
  simp only [ExceptT.run, ExceptT.mk, StateT.run_bind]
  rcases StateT.run expansion state with ⟨_ | value, after⟩ <;> rfl

end Expansion

end LinkCheck
