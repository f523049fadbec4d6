import LinkCheck.Proofs.CompleteClosures
import LinkCheck.Proofs.Exploration

/-!
# Cycles are detected whatever was asked before

Where cycles are not tolerated, an expansion uses what earlier ones have kept, even those that failed. It
gives what it would find anew all the same: of each plugin of which dependencies are kept, they are also
kept of all its dependencies, so that none of these is on the path of a later expansion.

## Main definitions

- `DependencyGraph.Remembers` — what is kept is what would be found anew
- `DependencyGraph.Agrees` — an expansion gives a certain result, and meets conditions

## Main results

- `DependencyGraph.agrees_expand` — an expansion gives what would be found anew
- `DependencyGraph.transitive_failFast_exact` — not tolerating cycles, the dependencies of a plugin are
  given exactly if it meets no cycle, and otherwise a cycle is named
-/

namespace LinkCheck

namespace ClosureState

/-- The dependencies of a plugin are kept. -/
def Finished (state : ClosureState) (key : PluginKey) : Prop :=
  ∃ dependencies, state.progress key = .done dependencies

theorem undone_iff_not_finished {state : ClosureState} {key : PluginKey} :
    state.Undone key ↔ ¬state.Finished key :=
  not_exists.symm

/-- Settling a plugin whose dependencies are kept changes nothing. -/
theorem progress_settle_of_finished {state : ClosureState} {key : PluginKey}
    (h : state.Finished key) (dependencies : List Plugin) (other : PluginKey) :
    (state.settle key dependencies).progress other = state.progress other := by
  obtain ⟨kept, hkept⟩ := h
  rw [settle_of_done hkept]

end ClosureState

namespace DependencyGraph

open Expansion

variable {graph : DependencyGraph} {known : Plugin → Prop} {path available : List PluginKey}
  {root plugin : Plugin} {state : ClosureState}

/-- What is kept is what would be found anew, and it is kept of all dependencies as well. -/
def Remembers (graph : DependencyGraph) (known : Plugin → Prop) (state : ClosureState) : Prop :=
  ∀ plugin, known plugin → ∀ dependencies, state.progress plugin.key = .done dependencies →
    (∃ path available, graph.explore path available plugin = .ok dependencies) ∧
      ∀ each ∈ dependencies, state.Finished each.key

/-- An expansion gives a certain result, and meets one condition or fails under another. -/
def Agrees (result : Except ClosureError (List Plugin))
    (given : List Plugin → ClosureState → Prop) (failed : ClosureState → Prop)
    (answer : Except ClosureError (List Plugin) × ClosureState) : Prop :=
  answer.1 = result ∧ Meets given failed answer

/-- If each step agrees, so do all of them together. -/
theorem agrees_foldlM (step : List Plugin → Plugin → Expansion (List Plugin))
    (anew : List Plugin → Plugin → Except ClosureError (List Plugin))
    (kept : List Plugin → List Plugin → ClosureState → Prop) (failed : ClosureState → Prop)
    (hstep : ∀ next rest collected state, kept (next :: rest) collected state →
      Agrees (anew collected next) (kept rest) failed (outcome (step collected next) state)) :
    ∀ rest collected state, kept rest collected state →
      Agrees (rest.foldlM anew collected) (kept []) failed
        (outcome (rest.foldlM step collected) state) := by
  intro rest
  induction rest with
  | nil => exact fun collected state hkept => ⟨rfl, hkept⟩
  | cons next rest ih =>
    intro collected state hkept
    obtain ⟨hresult, hmeets⟩ := hstep next rest collected state hkept
    rw [List.foldlM_cons, List.foldlM_cons, outcome_bind, ← hresult]
    rcases hanswer : outcome (step collected next) state with ⟨failure | collected', after⟩
    · rw [hanswer] at hmeets
      exact ⟨rfl, hmeets⟩
    · rw [hanswer] at hmeets
      exact ih collected' after hmeets

/-- What holds when the expansion of a plugin has succeeded. -/
structure Followed (graph : DependencyGraph) (known : Plugin → Prop) (path : List PluginKey)
    (plugin : Plugin) (before : ClosureState) (dependencies : List Plugin) (after : ClosureState) :
    Prop where
  remembers : graph.Remembers known after
  keepsPath : ∀ key ∈ path, after.progress key = before.progress key
  stays : ∀ key, before.Finished key → after.Finished key
  finished : ∀ each ∈ plugin :: dependencies, after.Finished each.key

/-- What holds while the dependencies of a plugin are gone through, when `rest` are left. -/
structure Following (graph : DependencyGraph) (known : Plugin → Prop) (path : List PluginKey)
    (plugin : Plugin) (entered : ClosureState) (rest collected : List Plugin)
    (state : ClosureState) : Prop where
  remembers : graph.Remembers known state
  keepsPath : ∀ key ∈ path ++ [plugin.key], state.progress key = entered.progress key
  stays : ∀ key, entered.Finished key → state.Finished key
  finished : ∀ each ∈ collected, state.Finished each.key
  left : ∀ each ∈ rest, graph.DependsOn plugin each

/-- What is kept of a plugin would be found anew also along the path of an expansion, since nothing is
kept of the plugins on the path. -/
theorem Remembers.explore_eq (h : graph.Remembers known state) (hplugin : known plugin)
    (hfrontier : graph.Frontier root path available) (hmem : plugin.key ∈ available)
    (hundone : ∀ key ∈ path, state.Undone key) {dependencies : List Plugin}
    (hdone : state.progress plugin.key = .done dependencies) :
    graph.explore path available plugin = .ok dependencies := by
  obtain ⟨⟨path', available', hfound⟩, hfinished⟩ := h plugin hplugin dependencies hdone
  refine explore_eq_of_available hfound (List.forall_mem_cons.2 ⟨hmem, fun each heach => ?_⟩)
  have hoffered := mem_plugins_of_explore hfound each heach
  refine (hfrontier each (.tail _ hoffered)).2 fun hpath => ?_
  obtain ⟨others, hothers⟩ := hfinished each heach
  exact hundone each.key hpath others hothers

/-- Dependencies that are kept are given back. -/
theorem followed_of_done (h : graph.Remembers known state) (hplugin : known plugin)
    {dependencies : List Plugin} (hdone : state.progress plugin.key = .done dependencies) :
    graph.Followed known path plugin state dependencies state where
  remembers := h
  keepsPath := fun _ _ => rfl
  stays := fun _ hfinished => hfinished
  finished := List.forall_mem_cons.2
    ⟨⟨dependencies, hdone⟩, (h plugin hplugin dependencies hdone).2⟩

/-- Nothing has been collected when a plugin is entered. -/
theorem Following.start (h : graph.Remembers known state) (hundone : state.Undone plugin.key) :
    graph.Following known path plugin (state.enter plugin.key (graph.direct plugin))
      (graph.direct plugin).found [] (state.enter plugin.key (graph.direct plugin)) := by
  refine ⟨fun other hother dependencies hdone => ?_, fun _ _ => rfl, fun _ hfinished => hfinished,
    by simp, fun _ heach => heach⟩
  have hne : other.key ≠ plugin.key := by
    intro hkey
    rw [hkey, ClosureState.progress_enter_self] at hdone
    cases hdone
  rw [ClosureState.progress_enter_of_ne hne] at hdone
  obtain ⟨hfound, hfinished⟩ := h other hother dependencies hdone
  refine ⟨hfound, fun each heach => ?_⟩
  obtain ⟨others, hothers⟩ := hfinished each heach
  refine ⟨others, (ClosureState.progress_enter_of_ne ?_ _).trans hothers⟩
  intro hkey
  rw [hkey] at hothers
  exact hundone others hothers

/-- What was found for a plugin that is still in progress is kept. -/
theorem Following.leave (law : graph.Lawful known) (hplugin : known plugin)
    (hpath : plugin.key ∉ path) (hundone : state.Undone plugin.key) {dependencies : List Plugin}
    {after : ClosureState}
    (h : graph.Following known path plugin (state.enter plugin.key (graph.direct plugin)) []
      dependencies after)
    (hfound : graph.explore path available plugin = .ok dependencies) :
    graph.Followed known path plugin state dependencies
      (after.leave plugin.key dependencies (graph.direct plugin).missing) := by
  have hself : after.progress plugin.key = .inProgress := by
    rw [h.keepsPath plugin.key (List.mem_append_right _ (List.mem_singleton_self _)),
      ClosureState.progress_enter_self]
  have hkept := ClosureState.progress_leave_of_inProgress hself dependencies
    (graph.direct plugin).missing
  have hstays : ∀ key, after.Finished key →
      (after.leave plugin.key dependencies (graph.direct plugin).missing).Finished key := by
    intro key hfinished
    by_cases hkey : key = plugin.key
    · rw [hkey]
      exact ⟨dependencies, hkept⟩
    · obtain ⟨others, hothers⟩ := hfinished
      exact ⟨others, (ClosureState.progress_leave_of_ne hkey _ _).trans hothers⟩
  constructor
  case remembers =>
    intro each heach others hdone
    by_cases hkey : each.key = plugin.key
    · obtain rfl := law.apart heach hplugin hkey
      rw [hkept] at hdone
      cases hdone
      exact ⟨⟨path, available, hfound⟩, fun below hbelow => hstays _ (h.finished below hbelow)⟩
    · rw [ClosureState.progress_leave_of_ne hkey] at hdone
      obtain ⟨hanew, hfinished⟩ := h.remembers each heach others hdone
      exact ⟨hanew, fun below hbelow => hstays _ (hfinished below hbelow)⟩
  case keepsPath =>
    intro key hkey
    have hne : key ≠ plugin.key := fun heq => hpath (heq ▸ hkey)
    rw [ClosureState.progress_leave_of_ne hne, h.keepsPath key (List.mem_append_left _ hkey),
      ClosureState.progress_enter_of_ne hne]
  case stays =>
    intro key hfinished
    have hne : key ≠ plugin.key := by
      rintro rfl
      obtain ⟨others, hothers⟩ := hfinished
      exact hundone others hothers
    refine hstays key (h.stays key ?_)
    obtain ⟨others, hothers⟩ := hfinished
    exact ⟨others, (ClosureState.progress_enter_of_ne hne _).trans hothers⟩
  case finished =>
    exact List.forall_mem_cons.2
      ⟨⟨dependencies, hkept⟩, fun each heach => hstays _ (h.finished each heach)⟩

/-- Visiting a dependency gives what would be found anew, if expanding the dependency does. -/
theorem agrees_visit {entered : ClosureState} {next : Plugin} {rest collected : List Plugin}
    (h : graph.Following known path plugin entered (next :: rest) collected state)
    (hexpand : Agrees
      (graph.explore (path ++ [plugin.key]) (without plugin.key available) next)
      (graph.Followed known (path ++ [plugin.key]) next state) (graph.Remembers known)
      (outcome (graph.expand (path ++ [plugin.key]) (without plugin.key available) next) state)) :
    Agrees (graph.exploreNext path available plugin collected next)
      (graph.Following known path plugin entered rest) (graph.Remembers known)
      (outcome (graph.visit path available plugin collected next) state) := by
  have hleft : ∀ each ∈ rest, graph.DependsOn plugin each := fun each heach =>
    h.left each (.tail _ heach)
  by_cases hskip : next.key = plugin.key ∨ next.key ∈ collected.map Plugin.key
  · rw [outcome_visit_skipped hskip, exploreNext_skipped hskip]
    exact ⟨rfl, { h with left := hleft }⟩
  · rw [outcome_visit_entered hskip, exploreNext_entered hskip, ← hexpand.1]
    have hmeets := hexpand.2
    rcases hanswer : outcome (graph.expand (path ++ [plugin.key]) (without plugin.key available)
      next) state with ⟨_ | transitive, after⟩
    · rw [hanswer] at hmeets
      exact ⟨rfl, hmeets⟩
    · rw [hanswer] at hmeets
      refine ⟨rfl, hmeets.remembers, ?_, fun key hkey => hmeets.stays key (h.stays key hkey), ?_,
        hleft⟩
      · exact fun key hkey => (hmeets.keepsPath key hkey).trans (h.keepsPath key hkey)
      · intro each heach
        rcases mem_of_mem_addOthers heach with heach | heach
        · rcases List.mem_append.1 heach with heach | heach
          · exact hmeets.stays _ (h.finished each heach)
          · rw [List.mem_singleton.1 heach]
            exact hmeets.finished next List.mem_cons_self
        · exact hmeets.finished each (.tail _ heach)

/-- Not tolerating cycles, an expansion gives what would be found anew. The induction is on the plugins
that may still be entered. -/
theorem agrees_expand (law : graph.Lawful known) (hpolicy : graph.policy = .failFast)
    (hroot : known root) (hfrontier : graph.Frontier root path available)
    (hplugin : plugin ∈ root :: graph.plugins) (hremembers : graph.Remembers known state)
    (hundone : ∀ key ∈ path, state.Undone key) :
    Agrees (graph.explore path available plugin) (graph.Followed known path plugin state)
      (graph.Remembers known) (outcome (graph.expand path available plugin) state) := by
  induction hlength : available.length using Nat.strongRecOn
    generalizing path available plugin state with
  | _ length ih =>
  have hknown : known plugin := by
    rcases List.mem_cons.1 hplugin with rfl | hplugin
    · exact hroot
    · exact law.offered hplugin
  by_cases hmem : plugin.key ∈ available
  · have hpath : plugin.key ∉ path := (hfrontier plugin hplugin).1 hmem
    by_cases hdone : state.Finished plugin.key
    · -- What is kept was found along another path, and is found along this one as well.
      obtain ⟨dependencies, hdone⟩ := hdone
      rw [outcome_expand_done hmem hdone,
        hremembers.explore_eq hknown hfrontier hmem hundone hdone]
      exact ⟨rfl, followed_of_done hremembers hknown hdone⟩
    · have hfresh : state.Undone plugin.key := ClosureState.undone_iff_not_finished.2 hdone
      have hentered := graph.undone_enter plugin hundone
      have hloop := agrees_foldlM (graph.visit path available plugin)
        (graph.exploreNext path available plugin)
        (graph.Following known path plugin (state.enter plugin.key (graph.direct plugin)))
        (graph.Remembers known) (fun next rest collected current hkept => by
          refine agrees_visit hkept (ih _ (hlength ▸ length_without_lt hmem)
            (hfrontier.enter plugin.key) (.tail _ (hkept.left next List.mem_cons_self).mem_plugins)
            hkept.remembers (fun key hkey dependencies => ?_) rfl)
          rw [hkept.keepsPath key hkey]
          exact hentered key hkey dependencies)
        _ _ _ (Following.start hremembers hfresh)
      rw [outcome_expand_entered hmem hfresh, explore_entered hmem]
      obtain ⟨hresult, hmeets⟩ := hloop
      rcases hanswer : outcome ((graph.direct plugin).found.foldlM
        (graph.visit path available plugin) []) (state.enter plugin.key (graph.direct plugin))
        with ⟨_ | dependencies, after⟩
      · rw [hanswer] at hresult hmeets
        exact ⟨hresult, hmeets⟩
      · rw [hanswer] at hresult hmeets
        have hfound : graph.explore path available plugin = .ok dependencies := by
          rw [explore_entered hmem]
          exact hresult.symm
        exact ⟨hresult, hmeets.leave law hknown hpath hfresh hfound⟩
  · rw [outcome_expand_met hmem, outcome_closeCycle_failFast hpolicy, explore_met hmem]
    exact ⟨rfl, hremembers⟩

-- ════════════════════════════════════════════════════════════════════════
-- The plugin with which an expansion begins
-- ════════════════════════════════════════════════════════════════════════

/-- Dependencies that are the same afterwards are remembered as well. -/
theorem Remembers.of_progress {after : ClosureState} (h : graph.Remembers known state)
    (hsame : ∀ key dependencies,
      after.progress key = .done dependencies ↔ state.progress key = .done dependencies) :
    graph.Remembers known after := by
  intro plugin hplugin dependencies hdone
  obtain ⟨hfound, hfinished⟩ := h plugin hplugin dependencies ((hsame _ _).1 hdone)
  refine ⟨hfound, fun each heach => ?_⟩
  obtain ⟨others, hothers⟩ := hfinished each heach
  exact ⟨others, (hsame _ _).2 hothers⟩

theorem Remembers.empty : graph.Remembers known {} := by
  intro plugin _ dependencies hdone
  cases hdone

/-- Not tolerating cycles, asking for dependencies gives what would be found anew, and remembers no less
than before. -/
theorem transitive_failFast_eq (law : graph.Lawful known) (hpolicy : graph.policy = .failFast)
    (hplugin : known plugin) (h : graph.Remembers known state) :
    (outcome (graph.transitive plugin) state).1 =
        graph.explore [] (graph.keysFrom plugin) plugin ∧
      graph.Remembers known (outcome (graph.transitive plugin) state).2 := by
  obtain ⟨hresult, hmeets⟩ := agrees_expand law hpolicy hplugin (Frontier.start graph plugin)
    List.mem_cons_self h (by simp)
  rw [outcome_transitive]
  rcases hanswer : outcome (graph.expand [] (graph.keysFrom plugin) plugin) state with
    ⟨_ | dependencies, after⟩
  · rw [hanswer] at hresult hmeets
    exact ⟨hresult, Remembers.of_progress hmeets fun _ _ => ClosureState.progress_giveUp_eq_done⟩
  · rw [hanswer] at hresult hmeets
    refine ⟨hresult, hmeets.remembers.of_progress fun key others => ?_⟩
    rw [ClosureState.progress_settle_of_finished (hmeets.finished plugin List.mem_cons_self)]

/-- What is kept after any questions is what would be found anew. -/
theorem remembers_stateAfter (law : graph.Lawful known) (hpolicy : graph.policy = .failFast)
    (shelf : Shelf) {calls : List ClosureCall}
    (hcalls : ∀ plugin ∈ calls.map ClosureCall.plugin, known plugin) :
    graph.Remembers known (graph.stateAfter shelf calls) := by
  refine graph.stateAfter_induction shelf calls (graph.Remembers known) .empty ?_ ?_
  · intro plugin hplugin state h
    exact (transitive_failFast_eq law hpolicy (hcalls plugin hplugin) h).2
  · intro plugin hplugin state h dependencies after hok source
    have hafter := (transitive_failFast_eq law hpolicy (hcalls plugin hplugin) h).2
    rw [hok] at hafter
    refine Remembers.of_progress hafter fun key others => ?_
    rw [ClosureState.progress_see]

/-- Exploring from a plugin succeeds exactly if no cycle is met, and otherwise names a cycle. -/
theorem explore_start_cases (law : graph.Lawful known) (hplugin : known plugin) :
    (∃ dependencies, graph.explore [] (graph.keysFrom plugin) plugin = .ok dependencies ∧
        ¬graph.MeetsCycle plugin) ∨
      ∃ ids, graph.explore [] (graph.keysFrom plugin) plugin = .error (.cyclicDependency ids) ∧
        graph.NamesCycle plugin ids := by
  cases hresult : graph.explore [] (graph.keysFrom plugin) plugin with
  | ok dependencies =>
    exact .inl ⟨dependencies, rfl, not_meetsCycle_of_explore law hplugin hresult⟩
  | error failure =>
    obtain ⟨ids, rfl, hnames⟩ := namesCycle_of_explore law hplugin []
      (Frontier.start graph plugin) (Trail.start graph plugin) hresult
    exact .inr ⟨ids, rfl, hnames⟩

/-- Not tolerating cycles, whatever was asked before, asking for the dependencies of a plugin gives what
it gives at first. It succeeds exactly if the plugin meets no cycle, and then gives exactly the other
plugins that it reaches, each once. Otherwise the failure names a cycle. -/
theorem transitive_failFast_exact (graph : DependencyGraph) (hpolicy : graph.policy = .failFast)
    (shelf : Shelf) (calls : List ClosureCall) (plugin : Plugin)
    (hkeys : KeysTellApart (graph.plugins ++ plugin :: calls.map ClosureCall.plugin)) :
    (outcome (graph.transitive plugin) (graph.stateAfter shelf calls)).1 =
        (outcome (graph.transitive plugin) {}).1 ∧
      ((∃ dependencies, (outcome (graph.transitive plugin) {}).1 = .ok dependencies) ↔
        ¬graph.MeetsCycle plugin) ∧
      (∀ dependencies, (outcome (graph.transitive plugin) {}).1 = .ok dependencies →
        graph.Lists plugin dependencies) ∧
      (graph.MeetsCycle plugin → ∃ ids,
        (outcome (graph.transitive plugin) {}).1 = .error (.cyclicDependency ids) ∧
          graph.NamesCycle plugin ids) := by
  have law := lawful_of_keysTellApart hkeys
  have hplugin : plugin ∈ graph.plugins ++ plugin :: calls.map ClosureCall.plugin :=
    List.mem_append_right _ List.mem_cons_self
  have hbefore := remembers_stateAfter law hpolicy shelf fun other hother =>
    List.mem_append_right _ (.tail plugin hother)
  have hafter := (transitive_failFast_eq law hpolicy hplugin hbefore).1
  have hfresh := (transitive_failFast_eq law hpolicy hplugin Remembers.empty).1
  refine ⟨hafter.trans hfresh.symm, ?_, fun dependencies hok => ?_, ?_⟩
  · rw [hfresh]
    rcases explore_start_cases law hplugin with ⟨dependencies, hok, hnone⟩ | ⟨ids, herror, hnames⟩
    · exact iff_of_true ⟨dependencies, hok⟩ hnone
    · refine iff_of_false ?_ (not_not_intro hnames.meetsCycle)
      rintro ⟨dependencies, hok⟩
      rw [herror] at hok
      cases hok
  · have hempty := ClosureState.Sound.empty graph
      (· ∈ graph.plugins ++ plugin :: calls.map ClosureCall.plugin) fun _ _ _ => True
    exact (settled_of_transitive law hplugin hempty (Prod.ext hok rfl)).lists
  · intro hmeets
    rw [hfresh]
    rcases explore_start_cases law hplugin with ⟨_, _, hnone⟩ | hnames
    · exact absurd hmeets hnone
    · exact hnames

/-- The question for the dependencies of `a`, which is on a cycle with `b`, after the one for those of
`b` failed. -/
theorem transitive_failFast_exact_ring :
    KeysTellApart ((ring .failFast).plugins ++ ringA :: [ClosureCall.transitive ringB].map
        ClosureCall.plugin) ∧
      (outcome ((ring .failFast).transitive ringA)
          ((ring .failFast).stateAfter {} [.transitive ringB])).1 =
        (outcome ((ring .failFast).transitive ringA) {}).1 ∧
      ∃ ids, (outcome ((ring .failFast).transitive ringA) {}).1 = .error (.cyclicDependency ids) ∧
        (ring .failFast).NamesCycle ringA ids := by
  have hkeys : KeysTellApart ((ring .failFast).plugins ++ ringA ::
      [ClosureCall.transitive ringB].map ClosureCall.plugin) := by
    simp [KeysTellApart, ring, plugins, ringA, ringB, ringC, ClosureCall.plugin, Plugin.key]
  have hmeets : (ring .failFast).MeetsCycle ringA := by
    refine ⟨ringA, ringB, .inl rfl, by simp [ringA, ringB], ?_, ?_⟩
    · exact Relation.TransGen.single List.mem_cons_self
    · exact Relation.TransGen.single List.mem_cons_self
  obtain ⟨hsame, _, _, hnames⟩ :=
    transitive_failFast_exact (ring .failFast) rfl {} [.transitive ringB] ringA hkeys
  exact ⟨hkeys, hsame, hnames hmeets⟩

end DependencyGraph

end LinkCheck
