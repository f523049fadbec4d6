import LinkCheck.Proofs.SoundStates

/-!
# What an expansion finds out

An expansion goes along a path of plugins that are being expanded and cuts off where a plugin on the path
is met again. What it gives for a plugin inside a cycle may therefore be incomplete. The dependencies
that are kept are complete all the same: every plugin on the path behind a cut is marked, and a marked
plugin keeps nothing.

## Main definitions

- `DependencyGraph.Frontier` — the plugins that may be entered are those that are not on the path
- `DependencyGraph.Expanded` — what holds when the expansion of a plugin has ended
- `DependencyGraph.Gathered` — what holds while its dependencies are gone through

## Main results

- `DependencyGraph.meets_expand` — an expansion ends as `Expanded` says, or fails
- `DependencyGraph.meets_transitive` — the same for the plugin with which an expansion begins
-/

namespace LinkCheck

namespace DependencyGraph

open Expansion

variable {graph : DependencyGraph} {known : Plugin → Prop}
  {sees : Plugin → List Plugin → ClassSource → Prop} {path available : List PluginKey}
  {root plugin : Plugin} {state : ClosureState}

/-- Goes to one dependency of a plugin, unless it is there already. -/
def visit (graph : DependencyGraph) (path available : List PluginKey) (plugin : Plugin)
    (collected : List Plugin) (dependency : Plugin) : Expansion (List Plugin) := do
  if dependency.key = plugin.key ∨ dependency.key ∈ collected.map Plugin.key then
    return collected
  else
    let transitive ← graph.expand (path ++ [plugin.key]) (without plugin.key available) dependency
    return addOthers plugin.key (collected ++ [dependency]) transitive

/-- Dependencies that are kept are given back. -/
theorem outcome_expand_done {dependencies : List Plugin} (hmem : plugin.key ∈ available)
    (hdone : state.progress plugin.key = .done dependencies) :
    outcome (graph.expand path available plugin) state = (.ok dependencies, state) := by
  rw [ClosureState.progress] at hdone
  rw [expand, dif_pos hmem, outcome_bind, outcome_get]
  simp only [hdone]
  rfl

/-- A plugin that may not be entered closes a cycle. -/
theorem outcome_expand_met (hmem : plugin.key ∉ available) :
    outcome (graph.expand path available plugin) state =
      outcome (graph.closeCycle path plugin.key) state := by
  rw [expand, dif_neg hmem]

/-- A plugin that is entered is left again unless one of its dependencies fails. -/
theorem outcome_expand_entered (hmem : plugin.key ∈ available)
    (hundone : state.Undone plugin.key) :
    outcome (graph.expand path available plugin) state =
      match outcome ((graph.direct plugin).found.foldlM (graph.visit path available plugin) [])
          (state.enter plugin.key (graph.direct plugin)) with
      | (.ok dependencies, after) =>
        (.ok dependencies, after.leave plugin.key dependencies (graph.direct plugin).missing)
      | (.error failure, after) => (.error failure, after) := by
  rw [expand, dif_pos hmem, outcome_bind, outcome_get]
  dsimp only
  split
  · next hdone => exact absurd hdone (hundone _)
  · change outcome ((graph.direct plugin).found.foldlM (graph.visit path available plugin) [] >>=
        fun dependencies => (do
          modify (·.leave plugin.key dependencies (graph.direct plugin).missing)
          return dependencies : Expansion (List Plugin)))
      (state.enter plugin.key (graph.direct plugin)) = _
    rw [outcome_bind]
    rcases outcome ((graph.direct plugin).found.foldlM (graph.visit path available plugin) [])
      (state.enter plugin.key (graph.direct plugin)) with ⟨_ | _, _⟩ <;> rfl

theorem outcome_visit_skipped {collected : List Plugin} {dependency : Plugin}
    (h : dependency.key = plugin.key ∨ dependency.key ∈ collected.map Plugin.key) :
    outcome (graph.visit path available plugin collected dependency) state =
      (.ok collected, state) := by
  rw [visit, if_pos h]
  rfl

theorem outcome_visit_entered {collected : List Plugin} {dependency : Plugin}
    (h : ¬(dependency.key = plugin.key ∨ dependency.key ∈ collected.map Plugin.key)) :
    outcome (graph.visit path available plugin collected dependency) state =
      match outcome (graph.expand (path ++ [plugin.key]) (without plugin.key available) dependency)
          state with
      | (.ok transitive, after) =>
        (.ok (addOthers plugin.key (collected ++ [dependency]) transitive), after)
      | (.error failure, after) => (.error failure, after) := by
  rw [visit, if_neg h, outcome_bind]
  rcases outcome (graph.expand (path ++ [plugin.key]) (without plugin.key available) dependency)
    state with ⟨_ | _, _⟩ <;> rfl

/-- Where cycles are tolerated, meeting one marks the plugins on it and gives nothing. -/
theorem outcome_closeCycle_degrade {key : PluginKey} (h : graph.policy = .degrade) :
    outcome (graph.closeCycle path key) state =
      (.ok [], state.markCycle (path.dropWhile (· ≠ key))) := by
  rw [closeCycle, h]
  rfl

/-- Where cycles are not tolerated, meeting one is a failure that names it. -/
theorem outcome_closeCycle_failFast {key : PluginKey} (h : graph.policy = .failFast) :
    outcome (graph.closeCycle path key) state =
      (.error (.cyclicDependency ((path.dropWhile (· ≠ key) ++ [key]).map PluginKey.id)),
        state) := by
  rw [closeCycle, h]
  rfl

/-- What an expansion gives meets one condition, or it fails under another. -/
def Meets (given : List Plugin → ClosureState → Prop) (failed : ClosureState → Prop) :
    Except ClosureError (List Plugin) × ClosureState → Prop
  | (.ok dependencies, after) => given dependencies after
  | (.error _, after) => failed after

section Meets

variable {given : List Plugin → ClosureState → Prop} {failed : ClosureState → Prop}

/-- A plugin that is entered meets what going through its dependencies meets, when it has been left. -/
theorem meets_expand_entered (hmem : plugin.key ∈ available) (hundone : state.Undone plugin.key)
    (h : Meets (fun dependencies after =>
        given dependencies (after.leave plugin.key dependencies (graph.direct plugin).missing)) failed
      (outcome ((graph.direct plugin).found.foldlM (graph.visit path available plugin) [])
        (state.enter plugin.key (graph.direct plugin)))) :
    Meets given failed (outcome (graph.expand path available plugin) state) := by
  rw [outcome_expand_entered hmem hundone]
  rcases hloop : outcome ((graph.direct plugin).found.foldlM (graph.visit path available plugin) [])
    (state.enter plugin.key (graph.direct plugin)) with ⟨_ | _, _⟩
  · rwa [hloop] at h
  · rwa [hloop] at h

/-- A dependency that is gone to meets what its expansion meets, when it has been added. -/
theorem meets_visit_entered {collected : List Plugin} {next : Plugin}
    (hnew : ¬(next.key = plugin.key ∨ next.key ∈ collected.map Plugin.key))
    (h : Meets (fun transitive =>
        given (addOthers plugin.key (collected ++ [next]) transitive)) failed
      (outcome (graph.expand (path ++ [plugin.key]) (without plugin.key available) next) state)) :
    Meets given failed (outcome (graph.visit path available plugin collected next) state) := by
  rw [outcome_visit_entered hnew]
  rcases hnext : outcome (graph.expand (path ++ [plugin.key]) (without plugin.key available) next)
    state with ⟨_ | _, _⟩
  · rwa [hnext] at h
  · rwa [hnext] at h

variable {given' : List Plugin → ClosureState → Prop} {failed' : ClosureState → Prop}
  {answer : Except ClosureError (List Plugin) × ClosureState}

/-- What is met may be weakened. -/
theorem Meets.imp (h : Meets given failed answer)
    (hgiven : ∀ dependencies after, given dependencies after → given' dependencies after)
    (hfailed : ∀ after, failed after → failed' after) : Meets given' failed' answer := by
  obtain ⟨_ | dependencies, after⟩ := answer
  · exact hfailed after h
  · exact hgiven dependencies after h

/-- What is met in two ways is met in both. -/
theorem Meets.and (h : Meets given failed answer) (h' : Meets given' failed' answer) :
    Meets (fun dependencies after => given dependencies after ∧ given' dependencies after)
      (fun after => failed after ∧ failed' after) answer := by
  obtain ⟨_ | dependencies, after⟩ := answer
  · exact ⟨h, h'⟩
  · exact ⟨h, h'⟩

/-- What is met in any case holds afterwards. -/
theorem Meets.after (h : Meets (fun _ => failed) failed answer) : failed answer.2 := by
  obtain ⟨_ | dependencies, after⟩ := answer
  · exact h
  · exact h

end Meets

/-- What each visit keeps holds once all dependencies have been visited. -/
theorem meets_foldlM (step : List Plugin → Plugin → Expansion (List Plugin))
    (kept : List Plugin → List Plugin → ClosureState → Prop) (failed : ClosureState → Prop)
    (hstep : ∀ next rest collected state, kept (next :: rest) collected state →
      Meets (kept rest) failed (outcome (step collected next) state)) :
    ∀ rest collected state, kept rest collected state →
      Meets (kept []) failed (outcome (rest.foldlM step collected) state) := by
  intro rest
  induction rest with
  | nil =>
    intro collected state hkept
    exact hkept
  | cons next rest ih =>
    intro collected state hkept
    have hnext := hstep next rest collected state hkept
    rw [List.foldlM_cons, outcome_bind]
    rcases hresult : outcome (step collected next) state with ⟨failure | collected', after⟩
    · rw [hresult] at hnext
      exact hnext
    · rw [hresult] at hnext
      exact ih collected' after hnext

/-- Of the plugins that an expansion from `root` can meet, those may be entered that are not on the
path. -/
def Frontier (graph : DependencyGraph) (root : Plugin) (path available : List PluginKey) : Prop :=
  ∀ plugin ∈ root :: graph.plugins, plugin.key ∈ available ↔ plugin.key ∉ path

theorem Frontier.start (graph : DependencyGraph) (root : Plugin) :
    graph.Frontier root [] (graph.keysFrom root) := by
  intro plugin hplugin
  have hkey : plugin.key ∈ (root :: graph.plugins).map Plugin.key := List.mem_map_of_mem hplugin
  exact iff_of_true hkey (by simp)

theorem Frontier.enter (h : graph.Frontier root path available) (key : PluginKey) :
    graph.Frontier root (path ++ [key]) (without key available) := by
  intro plugin hplugin
  simp [without, h plugin hplugin]

/-- What holds when the expansion of a plugin along a path has ended. Whatever the list does not hold is
behind a cut, and what is on the path behind a cut is no longer in progress. -/
structure Expanded (graph : DependencyGraph) (known : Plugin → Prop)
    (sees : Plugin → List Plugin → ClassSource → Prop) (path : List PluginKey) (plugin : Plugin)
    (before : ClosureState) (dependencies : List Plugin) (after : ClosureState) : Prop where
  sound : after.Sound graph known sees
  nodup : (dependencies.map Plugin.key).Nodup
  others : ∀ each ∈ dependencies, each.key ≠ plugin.key
  reached : ∀ each ∈ dependencies, graph.Reaches plugin each
  closed : ∀ each ∈ plugin :: dependencies,
    graph.ClosedAt (plugin :: dependencies) each ∨ after.CutAt path each.key
  keepsPath : before.KeepsPath after path
  kept : plugin.key ∉ path →
    after.progress plugin.key = .done dependencies ∨ after.Undone plugin.key
  noted : plugin.key ∉ path →
    (after.descriptor plugin.key).missing = (graph.direct plugin).missing

/-- What holds while the dependencies of a plugin are gone through, when `rest` are left. -/
structure Gathered (graph : DependencyGraph) (known : Plugin → Prop)
    (sees : Plugin → List Plugin → ClassSource → Prop) (path : List PluginKey) (plugin : Plugin)
    (entered : ClosureState) (rest collected : List Plugin) (state : ClosureState) : Prop where
  sound : state.Sound graph known sees
  nodup : (collected.map Plugin.key).Nodup
  others : ∀ each ∈ collected, each.key ≠ plugin.key
  reached : ∀ each ∈ collected, graph.Reaches plugin each
  closed : ∀ each ∈ collected,
    graph.ClosedAt (plugin :: collected) each ∨ state.CutAt (path ++ [plugin.key]) each.key
  keepsPath : entered.KeepsPath state (path ++ [plugin.key])
  left : ∀ each ∈ rest, graph.DependsOn plugin each
  covered : ∀ other, graph.DependsOn plugin other → other ∈ rest ∨ other ∈ plugin :: collected

/-- An expansion fails only where cycles are not tolerated, and what is kept stays right. -/
def Failed (graph : DependencyGraph) (known : Plugin → Prop)
    (sees : Plugin → List Plugin → ClassSource → Prop) (after : ClosureState) : Prop :=
  after.Sound graph known sees ∧ graph.policy = .failFast

/-- Meeting a plugin on the path cuts it off. -/
theorem meets_closeCycle (hsound : state.Sound graph known sees)
    (hundone : ∀ key ∈ path, state.Undone key) (hmem : plugin.key ∈ path) :
    Meets (graph.Expanded known sees path plugin state) (graph.Failed known sees)
      (outcome (graph.closeCycle path plugin.key) state) := by
  cases hpolicy : graph.policy with
  | failFast =>
    rw [outcome_closeCycle_failFast hpolicy]
    exact ⟨hsound, hpolicy⟩
  | degrade =>
    rw [outcome_closeCycle_degrade hpolicy]
    have hmarked : ∀ key, (state.markCycle (path.dropWhile (· ≠ plugin.key))).progress key =
        if key ∈ path.dropWhile (· ≠ plugin.key) then .absent else state.progress key := by
      intro key
      rw [ClosureState.progress, ClosureState.descriptor_markCycle]
      split <;> rfl
    constructor
    case sound =>
      exact hsound.markCycle fun key hkey => hundone key (List.dropWhile_subset _ hkey)
    case closed =>
      intro each heach
      obtain rfl := List.mem_singleton.1 heach
      exact .inr ⟨hmem, fun other hother => by rw [hmarked, if_pos hother]⟩
    case keepsPath =>
      intro key _
      rw [hmarked]
      split
      · exact .inr rfl
      · exact .inl rfl
    case kept => exact fun h => absurd hmem h
    case noted => exact fun h => absurd hmem h
    all_goals simp

/-- A dependency that is there already need not be visited. -/
theorem Gathered.skip (law : graph.Lawful known) (hplugin : known plugin) {entered : ClosureState}
    {next : Plugin} {rest collected : List Plugin}
    (h : graph.Gathered known sees path plugin entered (next :: rest) collected state)
    (hnext : next.key = plugin.key ∨ next.key ∈ collected.map Plugin.key) :
    graph.Gathered known sees path plugin entered rest collected state := by
  have hknown : ∀ each ∈ collected, known each := fun each heach =>
    law.offered (h.reached each heach).mem_plugins
  have hnextKnown : known next := law.offered (h.left next List.mem_cons_self).mem_plugins
  have hmem : next ∈ plugin :: collected := by
    rcases hnext with hkey | hkey
    · rw [law.apart hnextKnown hplugin hkey]
      exact List.mem_cons_self
    · exact .tail _ (law.mem_of_key_mem hnextKnown hknown hkey)
  refine { h with left := fun each heach => h.left each (.tail _ heach), covered := ?_ }
  intro other hother
  rcases h.covered other hother with hrest | hcollected
  · rcases List.mem_cons.1 hrest with rfl | hrest
    · exact .inr hmem
    · exact .inl hrest
  · exact .inr hcollected

/-- What the expansion of a dependency gives is added to what has been gathered. -/
theorem Gathered.add (law : graph.Lawful known) (hplugin : known plugin) {entered after : ClosureState}
    {next : Plugin} {rest collected transitive : List Plugin}
    (h : graph.Gathered known sees path plugin entered (next :: rest) collected state)
    (hkey : next.key ≠ plugin.key) (hfresh : next.key ∉ collected.map Plugin.key)
    (hnext : graph.Expanded known sees (path ++ [plugin.key]) next state transitive after) :
    graph.Gathered known sees path plugin entered rest
      (addOthers plugin.key (collected ++ [next]) transitive) after := by
  have hdepends : graph.DependsOn plugin next := h.left next List.mem_cons_self
  have hnextKnown : known next := law.offered hdepends.mem_plugins
  have hcollected : ∀ each ∈ collected ++ [next], known each := by
    intro each heach
    rcases List.mem_append.1 heach with heach | heach
    · exact law.offered (h.reached each heach).mem_plugins
    · rwa [List.mem_singleton.1 heach]
  have htransitive : ∀ each ∈ transitive, known each := fun each heach =>
    law.offered (hnext.reached each heach).mem_plugins
  have hmem := law.mem_addOthers plugin.key htransitive hcollected
  -- What was there and what the dependency gave is all there, if the plugin itself is counted.
  have hold : plugin :: collected ⊆
      plugin :: addOthers plugin.key (collected ++ [next]) transitive := by
    refine List.cons_subset_cons _ fun each heach => ?_
    exact (hmem each).2 (.inl (List.mem_append_left _ heach))
  have hnew : next :: transitive ⊆
      plugin :: addOthers plugin.key (collected ++ [next]) transitive := by
    intro each heach
    rcases List.mem_cons.1 heach with rfl | heach
    · exact .tail _ ((hmem each).2 (.inl (List.mem_append_right _ (List.mem_singleton_self each))))
    · by_cases hself : each.key = plugin.key
      · rw [law.apart (htransitive each heach) hplugin hself]
        exact List.mem_cons_self
      · exact .tail _ ((hmem each).2 (.inr ⟨heach, hself⟩))
  -- Each plugin that is now there was there before or came with the dependency.
  have hsplit : ∀ each ∈ addOthers plugin.key (collected ++ [next]) transitive,
      each ∈ collected ∨ (each ∈ next :: transitive ∧ each.key ≠ plugin.key) := by
    intro each heach
    rcases (hmem each).1 heach with heach | ⟨heach, hself⟩
    · rcases List.mem_append.1 heach with heach | heach
      · exact .inl heach
      · obtain rfl := List.mem_singleton.1 heach
        exact .inr ⟨List.mem_cons_self, hkey⟩
    · exact .inr ⟨.tail _ heach, hself⟩
  constructor
  case sound => exact hnext.sound
  case nodup =>
    apply nodup_addOthers
    exact nodup_keys_concat h.nodup hfresh
  case others =>
    intro each heach
    rcases hsplit each heach with heach | ⟨_, hself⟩
    · exact h.others each heach
    · exact hself
  case reached =>
    intro each heach
    rcases hsplit each heach with heach | ⟨heach, _⟩
    · exact h.reached each heach
    · rcases List.mem_cons.1 heach with rfl | heach
      · exact Relation.TransGen.single hdepends
      · exact Relation.TransGen.head hdepends (hnext.reached each heach)
  case closed =>
    intro each heach
    rcases hsplit each heach with heach | ⟨heach, _⟩
    · rcases h.closed each heach with hclosed | hcut
      · exact .inl (hclosed.mono hold)
      · exact .inr (hcut.keep hnext.keepsPath)
    · rcases hnext.closed each heach with hclosed | hcut
      · exact .inl (hclosed.mono hnew)
      · exact .inr hcut
  case keepsPath => exact h.keepsPath.trans hnext.keepsPath
  case left => exact fun each heach => h.left each (.tail _ heach)
  case covered =>
    intro other hother
    rcases h.covered other hother with hrest | hgathered
    · rcases List.mem_cons.1 hrest with rfl | hrest
      · exact .inr (hnew List.mem_cons_self)
      · exact .inl hrest
    · exact .inr (hold hgathered)

/-- Nothing has been gathered when a plugin is entered. -/
theorem Gathered.start (hsound : state.Sound graph known sees)
    (hundone : state.Undone plugin.key) :
    graph.Gathered known sees path plugin (state.enter plugin.key (graph.direct plugin))
      (graph.direct plugin).found [] (state.enter plugin.key (graph.direct plugin)) where
  sound := hsound.enter hundone _
  nodup := by simp
  others := by simp
  reached := by simp
  closed := by simp
  keepsPath := fun _ _ => .inl rfl
  left := fun _ heach => heach
  covered := fun _ hother => .inl hother

/-- The expansion of a plugin ends when all its dependencies have been gone through. If it is still in
progress, no cut is behind it, so that all dependencies have been found. -/
theorem Gathered.leave (law : graph.Lawful known) (hplugin : known plugin)
    (hpath : plugin.key ∉ path) {dependencies : List Plugin} {after : ClosureState}
    (h : graph.Gathered known sees path plugin (state.enter plugin.key (graph.direct plugin)) []
      dependencies after) :
    graph.Expanded known sees path plugin state dependencies
      (after.leave plugin.key dependencies (graph.direct plugin).missing) := by
  have hself : plugin.key ∈ path ++ [plugin.key] :=
    List.mem_append_right _ (List.mem_singleton_self _)
  have hundone : after.Undone plugin.key := h.keepsPath.undone_entered hself
  have hroot : graph.ClosedAt (plugin :: dependencies) plugin := fun other hother =>
    (h.covered other hother).resolve_left List.not_mem_nil
  -- A cut that is behind the plugin took it out of progress too.
  have hcut : ∀ each ∈ dependencies,
      graph.ClosedAt (plugin :: dependencies) each ∨
        (after.CutAt path each.key ∧ after.progress plugin.key = .absent) := by
    intro each heach
    refine (h.closed each heach).imp_right fun hcut => ?_
    refine hcut.of_concat ((List.mem_append.1 hcut.1).resolve_right fun hmem => ?_)
    exact h.others each heach (List.mem_singleton.1 hmem)
  have hnotSelf : plugin ∉ dependencies := fun hmem => h.others plugin hmem rfl
  have hlists : after.progress plugin.key = .inProgress → graph.Lists plugin dependencies := by
    intro hprogress
    refine lists_of_closed h.nodup hnotSelf h.reached fun each heach => ?_
    rcases List.mem_cons.1 heach with rfl | heach
    · exact hroot
    · refine (hcut each heach).resolve_right fun hcut => ?_
      rw [hprogress] at hcut
      cases hcut.2
  have hunchanged : ∀ key ∈ path,
      (after.leave plugin.key dependencies (graph.direct plugin).missing).progress key =
        after.progress key := by
    intro key hkey
    have hne : key ≠ plugin.key := fun heq => hpath (heq ▸ hkey)
    exact ClosureState.progress_leave_of_ne hne _ _
  constructor
  case sound => exact h.sound.leave law hplugin hundone hlists
  case nodup => exact h.nodup
  case others => exact h.others
  case reached => exact h.reached
  case closed =>
    intro each heach
    rcases List.mem_cons.1 heach with rfl | heach
    · exact .inl hroot
    · refine (hcut each heach).imp_right fun hcut => hcut.1.keep ?_
      exact fun key hkey => .inl (hunchanged key hkey)
  case keepsPath =>
    intro key hkey
    have hne : key ≠ plugin.key := fun heq => hpath (heq ▸ hkey)
    rw [hunchanged key hkey]
    refine (h.keepsPath key (List.mem_append_left _ hkey)).imp_left fun hsame => ?_
    rw [hsame, ClosureState.progress_enter_of_ne hne]
  case kept => exact fun _ => ClosureState.progress_leave_or_undone hundone _ _
  case noted => exact fun _ => (ClosureState.descriptor_leave_self _ _ _ _).1

/-- Dependencies that are kept are complete. -/
theorem expanded_of_done (law : graph.Lawful known) (hplugin : known plugin)
    (hsound : state.Sound graph known sees) {dependencies : List Plugin}
    (hdone : state.progress plugin.key = .done dependencies) :
    graph.Expanded known sees path plugin state dependencies state := by
  have hlists : graph.Lists plugin dependencies := (hsound plugin hplugin).lists hdone
  have hreached : ∀ each ∈ dependencies, graph.Reaches plugin each := fun each heach =>
    ((hlists.mem_iff each).1 heach).2
  refine ⟨hsound, hlists.nodup, ?_, hreached, fun each heach => .inl (hlists.closedAt heach),
    fun _ _ => .inl rfl, fun _ => .inl hdone, fun _ => (hsound plugin hplugin).missing hdone⟩
  intro each heach hkey
  have heachKnown := law.offered (hreached each heach).mem_plugins
  rw [law.apart heachKnown hplugin hkey] at heach
  exact hlists.not_mem_self heach

/-- Entering a plugin leaves nothing kept on the longer path. -/
theorem undone_enter (graph : DependencyGraph) (plugin : Plugin)
    (hundone : ∀ key ∈ path, state.Undone key) :
    ∀ key ∈ path ++ [plugin.key],
      (state.enter plugin.key (graph.direct plugin)).Undone key := by
  intro key hkey
  by_cases hself : key = plugin.key
  · rw [hself]
    exact .of_inProgress (ClosureState.progress_enter_self _ _ _)
  · intro dependencies
    rw [ClosureState.progress_enter_of_ne hself]
    refine hundone key ((List.mem_append.1 hkey).resolve_right fun hlast => ?_) dependencies
    exact hself (List.mem_singleton.1 hlast)

/-- Visiting a dependency keeps what has been gathered, if expanding the dependency ends as it
should. -/
theorem meets_visit (law : graph.Lawful known) (hplugin : known plugin)
    {entered : ClosureState} {next : Plugin} {rest collected : List Plugin}
    (h : graph.Gathered known sees path plugin entered (next :: rest) collected state)
    (hexpand : Meets (graph.Expanded known sees (path ++ [plugin.key]) next state)
      (graph.Failed known sees)
      (outcome (graph.expand (path ++ [plugin.key]) (without plugin.key available) next) state)) :
    Meets (graph.Gathered known sees path plugin entered rest) (graph.Failed known sees)
      (outcome (graph.visit path available plugin collected next) state) := by
  by_cases hskip : next.key = plugin.key ∨ next.key ∈ collected.map Plugin.key
  · rw [outcome_visit_skipped hskip]
    exact h.skip law hplugin hskip
  · refine meets_visit_entered hskip (hexpand.imp (fun transitive after hnext => ?_) fun _ => id)
    exact h.add law hplugin (fun hkey => hskip (.inl hkey)) (fun hkey => hskip (.inr hkey)) hnext

/-- An expansion ends as `Expanded` says, or fails. The induction is on the plugins that may still be
entered. -/
theorem meets_expand (law : graph.Lawful known) (hroot : known root)
    (hfrontier : graph.Frontier root path available) (hplugin : plugin ∈ root :: graph.plugins)
    (hsound : state.Sound graph known sees) (hundone : ∀ key ∈ path, state.Undone key) :
    Meets (graph.Expanded known sees path plugin state) (graph.Failed known sees)
      (outcome (graph.expand path available plugin) state) := by
  induction hlength : available.length using Nat.strongRecOn
    generalizing path available plugin state with
  | _ length ih =>
  have hknown : known plugin := by
    rcases List.mem_cons.1 hplugin with rfl | hplugin
    · exact hroot
    · exact law.offered hplugin
  by_cases hmem : plugin.key ∈ available
  · have hpath : plugin.key ∉ path := (hfrontier plugin hplugin).1 hmem
    by_cases hdone : ∃ dependencies, state.progress plugin.key = .done dependencies
    · obtain ⟨dependencies, hdone⟩ := hdone
      rw [outcome_expand_done hmem hdone]
      exact expanded_of_done law hknown hsound hdone
    · have hfresh : state.Undone plugin.key := fun dependencies h => hdone ⟨dependencies, h⟩
      have hentered := graph.undone_enter plugin hundone
      -- Each dependency is expanded with one plugin less that may be entered.
      have hgathered := meets_foldlM (graph.visit path available plugin)
        (graph.Gathered known sees path plugin (state.enter plugin.key (graph.direct plugin)))
        (graph.Failed known sees) (fun next rest collected current hkept =>
          meets_visit law hknown hkept (ih _ (hlength ▸ length_without_lt hmem)
            (hfrontier.enter plugin.key) (.tail _ (hkept.left next List.mem_cons_self).mem_plugins)
            hkept.sound (hkept.keepsPath.undone hentered) rfl))
        _ _ _ (Gathered.start hsound hfresh)
      refine meets_expand_entered hmem hfresh (hgathered.imp (fun dependencies after h => ?_) fun _ => id)
      exact h.leave law hknown hpath
  · rw [outcome_expand_met hmem]
    have hpath : plugin.key ∈ path := by
      by_contra hpath
      exact hmem ((hfrontier plugin hplugin).2 hpath)
    exact meets_closeCycle hsound hundone hpath

/-- The outermost expansion is settled when it succeeds, and given up when it fails. -/
theorem outcome_transitive (graph : DependencyGraph) (plugin : Plugin) (state : ClosureState) :
    outcome (graph.transitive plugin) state =
      match outcome (graph.expand [] (graph.keysFrom plugin) plugin) state with
      | (.ok dependencies, after) => (.ok dependencies, after.settle plugin.key dependencies)
      | (.error failure, after) => (.error failure, after.giveUp) := by
  rw [transitive, outcome_bind, outcome_tryCatch]
  erw [outcome_bind]
  rcases outcome (graph.expand [] (graph.keysFrom plugin) plugin) state with ⟨_ | _, _⟩ <;> rfl

/-- Asking for dependencies meets what the outermost expansion meets, when that is settled or given up. -/
theorem meets_transitive_of_expand {given : List Plugin → ClosureState → Prop}
    {failed : ClosureState → Prop}
    (h : Meets (fun dependencies after => given dependencies (after.settle plugin.key dependencies))
      (fun after => failed after.giveUp)
      (outcome (graph.expand [] (graph.keysFrom plugin) plugin) state)) :
    Meets given failed (outcome (graph.transitive plugin) state) := by
  rw [outcome_transitive]
  rcases hexpand : outcome (graph.expand [] (graph.keysFrom plugin) plugin) state with ⟨_ | _, _⟩
  · rwa [hexpand] at h
  · rwa [hexpand] at h

/-- What holds when the dependencies of a plugin have been asked for: they are listed, and kept. -/
structure Settled (graph : DependencyGraph) (known : Plugin → Prop)
    (sees : Plugin → List Plugin → ClassSource → Prop) (plugin : Plugin)
    (dependencies : List Plugin) (after : ClosureState) : Prop where
  sound : after.Sound graph known sees
  lists : graph.Lists plugin dependencies
  done : after.progress plugin.key = .done dependencies

/-- With no plugin on the path nothing is behind a cut, so the dependencies of the outermost plugin are
complete even if it is on a cycle. -/
theorem meets_transitive (law : graph.Lawful known) (hplugin : known plugin)
    (hsound : state.Sound graph known sees) :
    Meets (graph.Settled known sees plugin) (graph.Failed known sees)
      (outcome (graph.transitive plugin) state) := by
  have hexpand := meets_expand law hplugin (Frontier.start graph plugin) List.mem_cons_self hsound
    (by simp)
  refine meets_transitive_of_expand (hexpand.imp (fun dependencies after h => ?_) ?_)
  · -- The path is empty, so there is nothing that a cut could be behind.
    have hlists : graph.Lists plugin dependencies :=
      lists_of_closed h.nodup (fun hmem => h.others plugin hmem rfl) h.reached
        fun each heach => (h.closed each heach).resolve_right fun hcut => by cases hcut.1
    have hprogress := h.kept List.not_mem_nil
    exact ⟨h.sound.settle law hplugin hlists (h.noted List.not_mem_nil) hprogress,
      hlists, ClosureState.progress_settle_self hprogress⟩
  · exact fun after h => ⟨h.1.giveUp, h.2⟩

end DependencyGraph

end LinkCheck
