import LinkCheck.Proofs.CycleDetection

/-!
# What an expansion notices of cycles

Where cycles are tolerated, meeting a plugin on the path marks the plugins from there on. Not every way
around a cycle is met like that: dependencies that are kept are not gone through again, and neither are
those that have been collected. All the same every cycle is noticed that no kept dependencies hide.

## Main definitions

- `DependencyGraph.OnCycle` — a plugin is on a cycle with others
- `DependencyGraph.Marked` — marks are right, and cycles without marks are among those of which
  dependencies are kept
- `DependencyGraph.Noticed`, `DependencyGraph.Noticing` — what an expansion has noticed of cycles when it
  has ended, and while it goes on

## Main results

- `DependencyGraph.onCycle_iff` — a plugin is on a cycle iff it and another reach each other
- `DependencyGraph.meets_expand_noticed` — an expansion notices the cycles of all that it lists
- `DependencyGraph.noticed_transitive` — the same for the plugin with which an expansion begins
-/

namespace LinkCheck

namespace ClosureState

variable {state : ClosureState}

theorem isCyclic_update (change : Descriptor → Descriptor)
    (h : ∀ known, (change known).cyclic = known.cyclic) (key other : PluginKey) :
    (state.update key change).isCyclic other = state.isCyclic other := by
  unfold isCyclic
  rw [descriptor_update]
  split
  · next hkey => rw [h, hkey]
  · rfl

@[simp]
theorem isCyclic_enter (key other : PluginKey) (direct : DirectDependencies) :
    (state.enter key direct).isCyclic other = state.isCyclic other :=
  isCyclic_update (fun known => { known with transitive := .inProgress }) (fun _ => rfl) key other

@[simp]
theorem isCyclic_leave (key other : PluginKey) (dependencies : List Plugin)
    (missing : List Dependency) :
    (state.leave key dependencies missing).isCyclic other = state.isCyclic other := by
  refine isCyclic_update _ (fun known => ?_) key other
  cases known.transitive <;> rfl

@[simp]
theorem isCyclic_settle (key other : PluginKey) (dependencies : List Plugin) :
    (state.settle key dependencies).isCyclic other = state.isCyclic other := by
  refine isCyclic_update _ (fun known => ?_) key other
  cases known.transitive <;> rfl

@[simp]
theorem isCyclic_see (key other : PluginKey) (source : ClassSource) :
    (state.see key source).isCyclic other = state.isCyclic other :=
  isCyclic_update (fun known => { known with source := some source }) (fun _ => rfl) key other

theorem isCyclic_markCycle (members : List PluginKey) (key : PluginKey) :
    (state.markCycle members).isCyclic key = true ↔
      key ∈ members ∨ state.isCyclic key = true := by
  unfold isCyclic
  rw [descriptor_markCycle]
  by_cases hmem : key ∈ members <;> simp [hmem]

theorem progress_markCycle (members : List PluginKey) (key : PluginKey) :
    (state.markCycle members).progress key =
      if key ∈ members then .absent else state.progress key := by
  unfold progress
  rw [descriptor_markCycle]
  split <;> rfl

/-- Marking a cycle keeps no dependencies that were not kept before. -/
theorem Finished.of_markCycle {members : List PluginKey} {key : PluginKey}
    (h : (state.markCycle members).Finished key) : state.Finished key := by
  obtain ⟨dependencies, hdone⟩ := h
  rw [progress_markCycle] at hdone
  split at hdone
  · cases hdone
  · exact ⟨dependencies, hdone⟩

/-- The plugins on a path behind a cut have been marked. -/
structure MarkedAt (state : ClosureState) (path : List PluginKey) (key : PluginKey) : Prop where
  cut : state.CutAt path key
  flags : ∀ other ∈ path.dropWhile (· ≠ key), state.isCyclic other = true

theorem MarkedAt.keep {before after : ClosureState} {path : List PluginKey} {key : PluginKey}
    (h : before.MarkedAt path key) (hkeep : before.KeepsPath after path)
    (hflags : ∀ other, before.isCyclic other = true → after.isCyclic other = true) :
    after.MarkedAt path key :=
  ⟨h.cut.keep hkeep, fun other hother => hflags other (h.flags other hother)⟩

theorem mem_dropWhile_self {path : List PluginKey} {key : PluginKey} (h : key ∈ path) :
    key ∈ path.dropWhile (· ≠ key) := by
  obtain ⟨before, after, rfl, hbefore⟩ := List.eq_append_cons_of_mem h
  rw [List.dropWhile_append_of_pos, List.dropWhile_cons_of_neg (by simp)]
  · exact List.mem_cons_self
  · intro other hother
    have hne : other ≠ key := fun heq => hbefore (heq ▸ hother)
    simpa using hne

/-- The end of a path is behind every cut. -/
theorem last_mem_dropWhile {path : List PluginKey} {key last : PluginKey}
    (h : key ∈ path ++ [last]) : last ∈ (path ++ [last]).dropWhile (· ≠ key) := by
  by_cases hmem : key ∈ path
  · rw [dropWhile_concat hmem]
    exact List.mem_append_right _ (List.mem_singleton_self last)
  · have hlast : key = last := List.mem_singleton.1 ((List.mem_append.1 h).resolve_left hmem)
    subst hlast
    exact mem_dropWhile_self h

/-- A cut on a longer path marks the end of it, and is a cut on the path. -/
theorem MarkedAt.of_concat {path : List PluginKey} {key last : PluginKey}
    (h : state.MarkedAt (path ++ [last]) key) (hmem : key ∈ path) : state.MarkedAt path key := by
  refine ⟨(h.cut.of_concat hmem).1, fun other hother => h.flags other ?_⟩
  rw [dropWhile_concat hmem]
  exact List.mem_append_left _ hother

theorem MarkedAt.last {path : List PluginKey} {key last : PluginKey}
    (h : state.MarkedAt (path ++ [last]) key) :
    state.isCyclic last = true ∧ state.progress last = .absent :=
  have hlast := last_mem_dropWhile h.cut.1
  ⟨h.flags last hlast, h.cut.2 last hlast⟩

theorem KeepsPath.absent {before after : ClosureState} {path : List PluginKey} {key : PluginKey}
    (h : before.KeepsPath after path) (hkey : key ∈ path) (habsent : before.progress key = .absent) :
    after.progress key = .absent := by
  rcases h key hkey with hsame | hsame
  · exact hsame.trans habsent
  · exact hsame

end ClosureState

namespace DependencyGraph

open Expansion

variable {graph : DependencyGraph} {known touched : Plugin → Prop}
  {sees : Plugin → List Plugin → ClassSource → Prop} {path available : List PluginKey}
  {root plugin other : Plugin} {trail dependencies : List Plugin} {state after : ClosureState}

/-- Direct dependencies lead from a plugin through at least one other and back, meeting none twice. -/
def OnCycle (graph : DependencyGraph) (plugin : Plugin) : Prop :=
  ∃ others, others ≠ [] ∧ (plugin :: others).Nodup ∧
    (plugin :: others ++ [plugin]).IsChain graph.DependsOn

/-- Along a chain of direct dependencies each plugin reaches all behind it. -/
theorem pairwise_reaches {chain : List Plugin} (h : chain.IsChain graph.DependsOn) :
    chain.Pairwise graph.Reaches :=
  (h.imp fun _ _ hstep => Relation.TransGen.single hstep).pairwise

/-- A way to another plugin need not meet a plugin twice. -/
theorem exists_simple_way (h : graph.Reaches plugin other) (hne : plugin ≠ other) :
    ∃ middle, (plugin :: middle).Nodup ∧ other ∉ plugin :: middle ∧
      (plugin :: middle ++ [other]).IsChain graph.DependsOn := by
  induction h using Relation.TransGen.head_induction_on with
  | @single first hstep => exact ⟨[], by simp, by simpa using hne.symm, by simpa using hstep⟩
  | @head first second hstep _ ih =>
    by_cases hsecond : second = other
    · subst hsecond
      exact ⟨[], by simp, by simpa using hne.symm, by simpa using hstep⟩
    · obtain ⟨middle, hnodup, hother, hchain⟩ := ih hsecond
      by_cases hfirst : first ∈ second :: middle
      · -- The way comes back to where it began, so what is before that can be left out.
        obtain ⟨before, middle', hsplit⟩ := List.append_of_mem hfirst
        rw [hsplit] at hnodup hother hchain
        refine ⟨middle', (List.nodup_append.1 hnodup).2.1, fun hmem => hother ?_, ?_⟩
        · exact List.mem_append_right _ hmem
        · rw [List.append_assoc] at hchain
          exact hchain.right_of_append
      · refine ⟨second :: middle, List.nodup_cons.2 ⟨hfirst, hnodup⟩, fun hmem => ?_, ?_⟩
        · rcases List.mem_cons.1 hmem with hsame | hmem
          · exact hne hsame.symm
          · exact hother hmem
        · exact List.isChain_cons_cons.2 ⟨hstep, hchain⟩

theorem exists_step_away (h : graph.Reaches plugin other) (hne : other ≠ plugin) :
    ∃ next, next ≠ plugin ∧ graph.DependsOn plugin next ∧
      (next = other ∨ graph.Reaches next other) := by
  induction h with
  | single hstep => exact ⟨_, hne, hstep, .inl rfl⟩
  | @tail middle last _ hstep ih =>
    by_cases hmiddle : middle = plugin
    · subst hmiddle
      exact ⟨last, hne, hstep, .inl rfl⟩
    · obtain ⟨next, hnext, hfirst, hrest⟩ := ih hmiddle
      refine ⟨next, hnext, hfirst, .inr ?_⟩
      rcases hrest with rfl | hrest
      · exact .single hstep
      · exact hrest.tail hstep

/-- A plugin is on a cycle exactly if it and another plugin reach each other. -/
theorem onCycle_iff : graph.OnCycle plugin ↔
    ∃ other, other ≠ plugin ∧ graph.Reaches plugin other ∧ graph.Reaches other plugin := by
  constructor
  · rintro ⟨others, hothers, hnodup, hchain⟩
    obtain ⟨second, rest, rfl⟩ := List.exists_cons_of_ne_nil hothers
    have hpairs := pairwise_reaches hchain
    have hto := (List.pairwise_cons.1 hpairs).1 second (by simp)
    have hback := (List.pairwise_cons.1 (List.pairwise_cons.1 hpairs).2).1 plugin (by simp)
    refine ⟨second, ?_, hto, hback⟩
    rintro rfl
    simp at hnodup
  · rintro ⟨other, hne, hto, hback⟩
    obtain ⟨next, hnext, hstep, hrest⟩ := exists_step_away hto hne
    have hreturn : graph.Reaches next plugin := by
      rcases hrest with rfl | hrest
      · exact hback
      · exact hrest.trans hback
    obtain ⟨middle, hnodup, hself, hchain⟩ := exists_simple_way hreturn hnext
    exact ⟨next :: middle, by simp, List.nodup_cons.2 ⟨hself, hnodup⟩,
      List.isChain_cons_cons.2 ⟨hstep, hchain⟩⟩

/-- A plugin that needs nothing is on no cycle. -/
theorem not_onCycle_of_direct (h : (graph.direct plugin).found = []) : ¬graph.OnCycle plugin := by
  rintro ⟨others, hothers, _, hchain⟩
  obtain ⟨second, rest, rfl⟩ := List.exists_cons_of_ne_nil hothers
  have hdepends : second ∈ (graph.direct plugin).found := (List.isChain_cons_cons.1 hchain).1
  rw [h] at hdepends
  exact List.not_mem_nil hdepends

/-- The last plugin of a cycle directly depends on the first. -/
theorem OnCycle.exists_before (h : graph.OnCycle plugin) :
    ∃ last, last ≠ plugin ∧ graph.Reaches plugin last ∧ graph.DependsOn last plugin := by
  obtain ⟨others, hothers, hnodup, hchain⟩ := h
  obtain ⟨rest, last, rfl⟩ := (List.eq_nil_or_concat' others).resolve_left hothers
  have hlast : (plugin :: rest ++ last :: [plugin]).IsChain graph.DependsOn := by simpa using hchain
  have hto := (List.pairwise_cons.1 (pairwise_reaches hchain)).1 last (by simp)
  have hstep := List.isChain_cons_cons.1 hlast.right_of_append
  refine ⟨last, ?_, hto, hstep.1⟩
  rintro rfl
  simp at hnodup

theorem OnCycle.of_reaches (hne : other ≠ plugin) (hto : graph.Reaches plugin other)
    (hback : graph.Reaches other plugin) : graph.OnCycle plugin :=
  onCycle_iff.2 ⟨other, hne, hto, hback⟩

theorem Trail.reaches (h : graph.Trail root trail plugin) (hmem : other ∈ trail) :
    graph.Reaches other plugin :=
  (List.pairwise_append.1 (pairwise_reaches h.chain)).2.2 other hmem plugin
    (List.mem_singleton_self plugin)

/-- A trail ends at a plugin that an expansion can meet. -/
theorem Trail.end_mem (h : graph.Trail root trail plugin) : plugin ∈ root :: graph.plugins := by
  obtain rfl | hreached := h.reached plugin (by simp)
  · exact List.mem_cons_self
  · exact .tail _ hreached.mem_plugins

theorem Trail.forall_known (law : graph.Lawful known) (hroot : known root)
    (h : graph.Trail root trail plugin) : ∀ each ∈ trail ++ [plugin], known each := by
  intro each heach
  rcases h.reached each heach with rfl | hreached
  · exact hroot
  · exact law.offered hreached.mem_plugins

/-- A plugin whose key is on the path is on the trail. -/
theorem Trail.mem_of_key (law : graph.Lawful known) (hroot : known root)
    (h : graph.Trail root trail plugin) (hother : known other)
    (hkey : other.key ∈ trail.map Plugin.key) : other ∈ trail :=
  law.mem_of_key_mem hother (fun each heach => h.forall_known law hroot each (List.mem_append_left _ heach))
    hkey

/-- The plugins from the one that is met again on are on a cycle. -/
theorem Trail.onCycle (law : graph.Lawful known) (hroot : known root)
    (h : graph.Trail root trail plugin) (hmem : plugin ∈ trail) (hother : known other)
    (hkey : other.key ∈ (trail.map Plugin.key).dropWhile (· ≠ plugin.key)) :
    graph.OnCycle other := by
  obtain ⟨before, after, rfl⟩ := List.append_of_mem hmem
  rw [dropWhile_keys h.nodup] at hkey
  have hbehind : ∀ each ∈ plugin :: after, known each := fun each heach =>
    h.forall_known law hroot each (List.mem_append_left _ (List.mem_append_right _ heach))
  have hmember := law.mem_of_key_mem hother hbehind hkey
  have hchain : (plugin :: after ++ [plugin]).IsChain graph.DependsOn := by
    have hall := h.chain
    rw [List.append_assoc] at hall
    exact hall.right_of_append
  have hnodup : (plugin :: after).Nodup := by
    have hkeys := h.nodup
    rw [List.map_append] at hkeys
    exact List.Nodup.of_map Plugin.key (List.nodup_append.1 hkeys).2.1
  have hpairs := pairwise_reaches hchain
  rcases List.mem_cons.1 hmember with rfl | hafter
  · refine ⟨after, ?_, hnodup, hchain⟩
    rintro rfl
    exact h.moved other (by simp) rfl
  · have hne : plugin ≠ other := by
      rintro rfl
      exact (List.nodup_cons.1 hnodup).1 hafter
    have hto := (List.pairwise_cons.1 hpairs).1 other (List.mem_append_left _ hafter)
    have hback := (List.pairwise_append.1 hpairs).2.2 other (.tail _ hafter) plugin
      (List.mem_singleton_self plugin)
    exact .of_reaches hne hback hto

/-- Marks are right. Only plugins on cycles are marked, and the cycles that kept dependencies lead to are
marked, apart from those that have been touched. -/
structure Marked (graph : DependencyGraph) (known touched : Plugin → Prop) (state : ClosureState) :
    Prop where
  genuine : ∀ plugin, known plugin → state.isCyclic plugin.key = true → graph.OnCycle plugin
  settled : ∀ plugin, known plugin → state.Finished plugin.key → graph.OnCycle plugin →
    touched plugin
  signalled : ∀ plugin, known plugin → state.Finished plugin.key →
    ∀ each, each = plugin ∨ graph.Reaches plugin each → graph.OnCycle each →
      state.isCyclic each.key = true ∨ touched each

/-- Of plugins that reach each other, all have been touched or none. -/
def Shared (graph : DependencyGraph) (touched : Plugin → Prop) : Prop :=
  ∀ first second, graph.Reaches first second → graph.Reaches second first →
    touched first → touched second

theorem Marked.empty (graph : DependencyGraph) (known touched : Plugin → Prop) :
    graph.Marked known touched {} where
  genuine := fun _ _ hflag => by cases hflag
  settled := fun _ _ hfinished => by obtain ⟨_, hdone⟩ := hfinished; cases hdone
  signalled := fun _ _ hfinished => by obtain ⟨_, hdone⟩ := hfinished; cases hdone

/-- Marks stay right where no more dependencies are kept and no mark is lost. -/
theorem Marked.mono (h : graph.Marked known touched state)
    (hfinished : ∀ key, after.Finished key → state.Finished key)
    (hflags : ∀ key, state.isCyclic key = true → after.isCyclic key = true)
    (hgenuine : ∀ plugin, known plugin → after.isCyclic plugin.key = true → graph.OnCycle plugin) :
    graph.Marked known touched after where
  genuine := hgenuine
  settled := fun plugin hplugin hdone => h.settled plugin hplugin (hfinished _ hdone)
  signalled := fun plugin hplugin hdone each heach hcycle =>
    (h.signalled plugin hplugin (hfinished _ hdone) each heach hcycle).imp_left (hflags each.key)

theorem Marked.enter (h : graph.Marked known touched state) (key : PluginKey)
    (direct : DirectDependencies) : graph.Marked known touched (state.enter key direct) := by
  refine h.mono (fun other hdone => ?_) (by simp) (by simpa using h.genuine)
  obtain ⟨dependencies, hdone⟩ := hdone
  by_cases hkey : other = key
  · rw [hkey, ClosureState.progress_enter_self] at hdone
    cases hdone
  · rw [ClosureState.progress_enter_of_ne hkey] at hdone
    exact ⟨dependencies, hdone⟩

/-- What an expansion has noticed of cycles when it has ended: what it lists and is on the path has been
marked there, and what it lists apart from that is marked if it is on a cycle. -/
structure Noticed (graph : DependencyGraph) (known touched : Plugin → Prop) (path : List PluginKey)
    (plugin : Plugin) (before : ClosureState) (dependencies : List Plugin) (after : ClosureState) :
    Prop where
  marked : graph.Marked known touched after
  flags : ∀ key, before.isCyclic key = true → after.isCyclic key = true
  met : ∀ each ∈ plugin :: dependencies, each.key ∈ path →
    after.MarkedAt path each.key ∨ touched each
  told : ∀ each ∈ plugin :: dependencies, each.key ∉ path → graph.OnCycle each →
    after.isCyclic each.key = true ∨ touched each

/-- What has been noticed while the dependencies of a plugin are gone through. A dependency that leads
straight back to the plugin has had it marked. -/
structure Noticing (graph : DependencyGraph) (known touched : Plugin → Prop) (path : List PluginKey)
    (plugin : Plugin) (before : ClosureState) (collected : List Plugin) (state : ClosureState) :
    Prop where
  marked : graph.Marked known touched state
  flags : ∀ key, before.isCyclic key = true → state.isCyclic key = true
  met : ∀ each ∈ collected, each.key ∈ path ++ [plugin.key] →
    state.MarkedAt (path ++ [plugin.key]) each.key ∨ touched each
  told : ∀ each ∈ collected, each.key ∉ path ++ [plugin.key] → graph.OnCycle each →
    state.isCyclic each.key = true ∨ touched each
  back : ∀ each ∈ collected, each.key ∉ path ++ [plugin.key] → graph.DependsOn each plugin →
    (state.isCyclic plugin.key = true ∧ state.progress plugin.key = .absent) ∨ touched plugin

/-- A plugin that is met again is marked with all behind it. -/
theorem noticed_markCycle (law : graph.Lawful known) (hroot : known root)
    (htrail : graph.Trail root trail plugin) (hmarked : graph.Marked known touched state)
    (hmem : plugin ∈ trail) :
    graph.Noticed known touched (trail.map Plugin.key) plugin state []
      (state.markCycle ((trail.map Plugin.key).dropWhile (· ≠ plugin.key))) := by
  have hkey : plugin.key ∈ trail.map Plugin.key := List.mem_map_of_mem hmem
  constructor
  case marked =>
    refine hmarked.mono (fun _ hdone => hdone.of_markCycle) (fun key hflag => ?_) ?_
    · exact (ClosureState.isCyclic_markCycle _ key).2 (.inr hflag)
    · intro other hother hflag
      rcases (ClosureState.isCyclic_markCycle _ other.key).1 hflag with hnew | hold
      · exact htrail.onCycle law hroot hmem hother hnew
      · exact hmarked.genuine other hother hold
  case flags => exact fun key hflag => (ClosureState.isCyclic_markCycle _ key).2 (.inr hflag)
  case met =>
    intro each heach _
    obtain rfl := List.mem_singleton.1 heach
    refine .inl ⟨⟨hkey, fun other hother => ?_⟩, fun other hother => ?_⟩
    · rw [ClosureState.progress_markCycle, if_pos hother]
    · exact (ClosureState.isCyclic_markCycle _ other).2 (.inl hother)
  case told =>
    intro each heach hoff
    obtain rfl := List.mem_singleton.1 heach
    exact absurd hkey hoff

/-- Dependencies that are kept may lead back to the path only if their cycle has been touched. -/
theorem noticed_of_done (law : graph.Lawful known) (hroot : known root)
    (hshared : graph.Shared touched) (htrail : graph.Trail root trail plugin)
    (hsound : state.Sound graph known sees) (hmarked : graph.Marked known touched state)
    (hpath : plugin.key ∉ trail.map Plugin.key)
    (hdone : state.progress plugin.key = .done dependencies) :
    graph.Noticed known touched (trail.map Plugin.key) plugin state dependencies state := by
  have hplugin : known plugin :=
    htrail.forall_known law hroot plugin (List.mem_append_right _ (List.mem_singleton_self plugin))
  have hlists := (hsound plugin hplugin).lists hdone
  have hreached : ∀ each ∈ plugin :: dependencies, each = plugin ∨ graph.Reaches plugin each := by
    intro each heach
    refine (List.mem_cons.1 heach).imp_right fun hmem => ((hlists.mem_iff each).1 hmem).2
  refine ⟨hmarked, fun _ hflag => hflag, fun each heach hon => .inr ?_, fun each heach _ hcycle => ?_⟩
  · have hne : each ≠ plugin := by
      rintro rfl
      exact hpath hon
    have hto := (hreached each heach).resolve_left hne
    have hback := htrail.reaches (htrail.mem_of_key law hroot (law.offered hto.mem_plugins) hon)
    have htouched := hmarked.settled plugin hplugin ⟨_, hdone⟩ (.of_reaches hne hto hback)
    exact hshared plugin each hto hback htouched
  · exact hmarked.signalled plugin hplugin ⟨_, hdone⟩ each (hreached each heach) hcycle

theorem Noticing.start (h : graph.Marked known touched state) :
    graph.Noticing known touched path plugin (state.enter plugin.key (graph.direct plugin)) []
      (state.enter plugin.key (graph.direct plugin)) where
  marked := h.enter _ _
  flags := fun _ hflag => hflag
  met := by simp
  told := by simp
  back := by simp

/-- What the expansion of a dependency has noticed is added to what has been noticed. -/
theorem Noticing.add {entered : ClosureState} {next : Plugin} {collected transitive : List Plugin}
    (h : graph.Noticing known touched path plugin entered collected state)
    (hnext : graph.Expanded known sees (path ++ [plugin.key]) next state transitive after)
    (hnoticed : graph.Noticed known touched (path ++ [plugin.key]) next state transitive after) :
    graph.Noticing known touched path plugin entered
      (addOthers plugin.key (collected ++ [next]) transitive) after := by
  have hself : plugin.key ∈ path ++ [plugin.key] :=
    List.mem_append_right _ (List.mem_singleton_self _)
  have hsplit : ∀ each ∈ addOthers plugin.key (collected ++ [next]) transitive,
      each ∈ collected ∨ each ∈ next :: transitive := by
    intro each heach
    rcases mem_of_mem_addOthers heach with heach | heach
    · exact (List.mem_append.1 heach).imp_right fun hmem =>
        List.mem_cons.2 (.inl (List.mem_singleton.1 hmem))
    · exact .inr (.tail _ heach)
  constructor
  case marked => exact hnoticed.marked
  case flags => exact fun key hflag => hnoticed.flags key (h.flags key hflag)
  case met =>
    intro each heach hon
    rcases hsplit each heach with hold | hnew
    · exact (h.met each hold hon).imp_left fun hmarked =>
        hmarked.keep hnext.keepsPath hnoticed.flags
    · exact hnoticed.met each hnew hon
  case told =>
    intro each heach hoff hcycle
    rcases hsplit each heach with hold | hnew
    · exact (h.told each hold hoff hcycle).imp_left (hnoticed.flags each.key)
    · exact hnoticed.told each hnew hoff hcycle
  case back =>
    intro each heach hoff hdepends
    rcases hsplit each heach with hold | hnew
    · refine (h.back each hold hoff hdepends).imp_left fun ⟨hflag, habsent⟩ => ?_
      exact ⟨hnoticed.flags _ hflag, hnext.keepsPath.absent hself habsent⟩
    · -- The dependency lists the plugin itself, which is at the end of its path.
      have hclosed := (hnext.closed each hnew).resolve_right fun hcut => hoff hcut.1
      have hlisted := hclosed plugin hdepends
      exact (hnoticed.met plugin hlisted hself).imp_left fun hmarked => hmarked.last

/-- A plugin on a cycle has been marked and is no longer in progress when all its dependencies have been
gone through. Were it not, nothing that it lists would be on the path, so the list would be closed and
hold the last plugin of the cycle. -/
theorem Noticing.self (law : graph.Lawful known) (hroot : known root)
    (hshared : graph.Shared touched) (htrail : graph.Trail root trail plugin)
    {entered : ClosureState}
    (hgathered : graph.Gathered known sees (trail.map Plugin.key) plugin entered [] dependencies
      after)
    (h : graph.Noticing known touched (trail.map Plugin.key) plugin entered dependencies after)
    (hcycle : graph.OnCycle plugin) :
    (after.isCyclic plugin.key = true ∧ after.progress plugin.key = .absent) ∨ touched plugin := by
  by_contra hnone
  have hoff : ∀ each ∈ dependencies, each.key ∉ trail.map Plugin.key ++ [plugin.key] := by
    intro each heach hon
    rcases h.met each heach hon with hmarked | htouched
    · exact hnone (.inl hmarked.last)
    · have hto := hgathered.reached each heach
      have hkey : each.key ∈ trail.map Plugin.key := (List.mem_append.1 hon).resolve_right
        fun hmem => hgathered.others each heach (List.mem_singleton.1 hmem)
      have hback := htrail.reaches (htrail.mem_of_key law hroot (law.offered hto.mem_plugins) hkey)
      exact hnone (.inr (hshared each plugin hback hto htouched))
  have hclosed : ∀ each ∈ plugin :: dependencies,
      graph.ClosedAt (plugin :: dependencies) each := by
    refine List.forall_mem_cons.2 ⟨fun other hother => ?_, fun each heach => ?_⟩
    · exact (hgathered.covered other hother).resolve_left List.not_mem_nil
    · exact (hgathered.closed each heach).resolve_right fun hcut => hoff each heach hcut.1
  obtain ⟨last, hne, hto, hdepends⟩ := hcycle.exists_before
  have hlast : last ∈ dependencies :=
    (List.mem_cons.1 (mem_of_reaches hclosed List.mem_cons_self hto)).resolve_left hne
  exact hnone (h.back last hlast (hoff last hlast) hdepends)

/-- Everything has been noticed when all dependencies of a plugin have been gone through. -/
theorem Noticing.leave (law : graph.Lawful known) (hroot : known root)
    (hshared : graph.Shared touched) (htrail : graph.Trail root trail plugin)
    (hpath : plugin.key ∉ trail.map Plugin.key)
    (hgathered : graph.Gathered known sees (trail.map Plugin.key) plugin
      (state.enter plugin.key (graph.direct plugin)) [] dependencies after)
    (h : graph.Noticing known touched (trail.map Plugin.key) plugin
      (state.enter plugin.key (graph.direct plugin)) dependencies after) :
    graph.Noticed known touched (trail.map Plugin.key) plugin state dependencies
      (after.leave plugin.key dependencies (graph.direct plugin).missing) := by
  have hplugin : known plugin :=
    htrail.forall_known law hroot plugin (List.mem_append_right _ (List.mem_singleton_self plugin))
  have hself := h.self law hroot hshared htrail hgathered
  have htold : ∀ each ∈ plugin :: dependencies, graph.OnCycle each →
      after.isCyclic each.key = true ∨ touched each := by
    refine List.forall_mem_cons.2 ⟨fun hcycle => (hself hcycle).imp_left And.left, ?_⟩
    intro each heach hcycle
    by_cases hon : each.key ∈ trail.map Plugin.key ++ [plugin.key]
    · refine (h.met each heach hon).imp_left fun hmarked => hmarked.flags _ ?_
      exact ClosureState.mem_dropWhile_self hon
    · exact h.told each heach hon hcycle
  have hexpanded := hgathered.leave law hplugin hpath
  have hkept : ∀ key, (after.leave plugin.key dependencies
      (graph.direct plugin).missing).Finished key → key ≠ plugin.key → after.Finished key := by
    intro key hdone hne
    obtain ⟨others, hothers⟩ := hdone
    rw [ClosureState.progress_leave_of_ne hne] at hothers
    exact ⟨others, hothers⟩
  constructor
  case marked =>
    constructor
    case genuine => simpa using h.marked.genuine
    case settled =>
      intro other hother hdone hcycle
      by_cases hkey : other.key = plugin.key
      · obtain rfl := law.apart hother hplugin hkey
        refine (hself hcycle).resolve_left fun ⟨_, habsent⟩ => ?_
        obtain ⟨others, hothers⟩ := hdone
        rw [ClosureState.progress_leave_of_not_inProgress (by simp [habsent]), habsent] at hothers
        cases hothers
      · exact h.marked.settled other hother (hkept _ hdone hkey) hcycle
    case signalled =>
      intro other hother hdone each heach hcycle
      rw [ClosureState.isCyclic_leave]
      by_cases hkey : other.key = plugin.key
      · obtain rfl := law.apart hother hplugin hkey
        obtain ⟨others, hothers⟩ := hdone
        -- Dependencies that are kept are those that were gathered, and all that the plugin reaches.
        have hsame : others = dependencies := by
          rcases hexpanded.kept hpath with hnow | hundone
          · exact Transitive.done.inj (hothers.symm.trans hnow)
          · exact absurd hothers (hundone others)
        subst hsame
        have hlists := (hexpanded.sound other hother).lists hothers
        refine htold each ?_ hcycle
        rcases heach with rfl | hreached
        · exact List.mem_cons_self
        · by_cases hne : each = other
          · rw [hne]
            exact List.mem_cons_self
          · exact .tail _ ((hlists.mem_iff each).2 ⟨hne, hreached⟩)
      · exact h.marked.signalled other hother (hkept _ hdone hkey) each heach hcycle
  case flags =>
    intro key hflag
    rw [ClosureState.isCyclic_leave]
    exact h.flags key (by rwa [ClosureState.isCyclic_enter])
  case met =>
    intro each heach hon
    have hmem : each ∈ dependencies := by
      refine (List.mem_cons.1 heach).resolve_left ?_
      rintro rfl
      exact hpath hon
    refine (h.met each hmem (List.mem_append_left _ hon)).imp_left fun hmarked => ?_
    refine (hmarked.of_concat hon).keep (fun key hkey => .inl ?_) (by simp)
    have hne : key ≠ plugin.key := fun heq => hpath (heq ▸ hkey)
    exact ClosureState.progress_leave_of_ne hne _ _
  case told =>
    intro each heach _ hcycle
    rw [ClosureState.isCyclic_leave]
    exact htold each heach hcycle

/-- A dependency is skipped, or what its expansion gathers and notices is added. -/
theorem notices_visit (law : graph.Lawful known) (hroot : known root)
    (hfrontier : graph.Frontier root (trail.map Plugin.key) available)
    (htrail : graph.Trail root trail plugin) (hpath : plugin.key ∉ trail.map Plugin.key)
    (hundone : ∀ key ∈ trail.map Plugin.key, state.Undone key)
    {next : Plugin} {rest collected : List Plugin} {current : ClosureState}
    (hgathered : graph.Gathered known sees (trail.map Plugin.key) plugin
      (state.enter plugin.key (graph.direct plugin)) (next :: rest) collected current)
    (h : graph.Noticing known touched (trail.map Plugin.key) plugin
      (state.enter plugin.key (graph.direct plugin)) collected current)
    (hexpand : graph.Frontier root ((trail ++ [plugin]).map Plugin.key)
        (without plugin.key available) → graph.Trail root (trail ++ [plugin]) next →
      (∀ key ∈ (trail ++ [plugin]).map Plugin.key, current.Undone key) →
      Meets (graph.Noticed known touched ((trail ++ [plugin]).map Plugin.key) next current)
        (fun _ => False) (outcome (graph.expand ((trail ++ [plugin]).map Plugin.key)
          (without plugin.key available) next) current)) :
    Meets (fun collected after =>
        graph.Gathered known sees (trail.map Plugin.key) plugin
            (state.enter plugin.key (graph.direct plugin)) rest collected after ∧
          graph.Noticing known touched (trail.map Plugin.key) plugin
            (state.enter plugin.key (graph.direct plugin)) collected after)
      (fun _ => False)
      (outcome (graph.visit (trail.map Plugin.key) available plugin collected next) current) := by
  have hplugin := htrail.forall_known law hroot plugin (by simp)
  have hdepends : graph.DependsOn plugin next := hgathered.left next List.mem_cons_self
  have hpaths : (trail ++ [plugin]).map Plugin.key = trail.map Plugin.key ++ [plugin.key] := by simp
  rw [hpaths] at hexpand
  by_cases hskip : next.key = plugin.key ∨ next.key ∈ collected.map Plugin.key
  · rw [outcome_visit_skipped hskip]
    exact ⟨hgathered.skip law hplugin hskip, h⟩
  · obtain ⟨hne, hnew⟩ := not_or.1 hskip
    have hfrontier' := hfrontier.enter plugin.key
    have hundone' := hgathered.keepsPath.undone (graph.undone_enter plugin hundone)
    have hmeets := (meets_expand law hroot hfrontier' (.tail _ hdepends.mem_plugins)
      hgathered.sound hundone').and
        (hexpand hfrontier' (htrail.enter hpath hdepends hne) hundone')
    refine meets_visit_entered hskip (hmeets.imp (fun transitive after hnext => ?_) fun _ h => h.2)
    exact ⟨hgathered.add law hplugin hne hnew hnext.1, h.add hnext.1 hnext.2⟩

/-- An expansion notices the cycles of all that it lists. The induction is on the plugins that may still be
entered; what is listed is taken from `meets_expand`. -/
theorem meets_expand_noticed (law : graph.Lawful known) (hpolicy : graph.policy = .degrade)
    (hshared : graph.Shared touched) (hroot : known root) (trail : List Plugin)
    (hfrontier : graph.Frontier root (trail.map Plugin.key) available)
    (htrail : graph.Trail root trail plugin) (hsound : state.Sound graph known sees)
    (hundone : ∀ key ∈ trail.map Plugin.key, state.Undone key)
    (hmarked : graph.Marked known touched state) :
    Meets (graph.Noticed known touched (trail.map Plugin.key) plugin state) (fun _ => False)
      (outcome (graph.expand (trail.map Plugin.key) available plugin) state) := by
  induction hlength : available.length using Nat.strongRecOn
    generalizing trail available plugin state with
  | _ length ih =>
  have hknown := htrail.forall_known law hroot plugin (by simp)
  by_cases hmem : plugin.key ∈ available
  · have hpath : plugin.key ∉ trail.map Plugin.key := (hfrontier plugin htrail.end_mem).1 hmem
    by_cases hdone : state.Finished plugin.key
    · obtain ⟨dependencies, hdone⟩ := hdone
      rw [outcome_expand_done hmem hdone]
      exact noticed_of_done law hroot hshared htrail hsound hmarked hpath hdone
    · have hfresh : state.Undone plugin.key := ClosureState.undone_iff_not_finished.2 hdone
      have hloop := meets_foldlM (graph.visit (trail.map Plugin.key) available plugin)
        (fun rest collected current =>
          graph.Gathered known sees (trail.map Plugin.key) plugin
              (state.enter plugin.key (graph.direct plugin)) rest collected current ∧
            graph.Noticing known touched (trail.map Plugin.key) plugin
              (state.enter plugin.key (graph.direct plugin)) collected current)
        (fun _ => False) (fun next rest collected current ⟨hgathered, hnoticing⟩ =>
          notices_visit law hroot hfrontier htrail hpath hundone hgathered hnoticing
            fun hfrontier' htrail' hundone' => ih _ (hlength ▸ length_without_lt hmem) _ hfrontier'
              htrail' hgathered.sound hundone' hnoticing.marked rfl)
        _ _ _ ⟨Gathered.start hsound hfresh, Noticing.start hmarked⟩
      refine meets_expand_entered hmem hfresh (hloop.imp (fun dependencies after h => ?_) fun _ => id)
      exact h.2.leave law hroot hshared htrail hpath h.1
  · have hpath : plugin.key ∈ trail.map Plugin.key := by
      by_contra hpath
      exact hmem ((hfrontier plugin htrail.end_mem).2 hpath)
    rw [outcome_expand_met hmem, outcome_closeCycle_degrade hpolicy]
    exact noticed_markCycle law hroot htrail hmarked (htrail.mem_of_key law hroot hknown hpath)

/-- When the dependencies of a plugin have been asked for, all cycles that it reaches are marked unless
they have been touched. Its own dependencies are kept then, so its own cycle is to be touched. -/
theorem noticed_transitive (law : graph.Lawful known) (hpolicy : graph.policy = .degrade)
    (hshared : graph.Shared touched) (hplugin : known plugin) (hsound : state.Sound graph known sees)
    (hmarked : graph.Marked known touched state)
    (hok : outcome (graph.transitive plugin) state = (.ok dependencies, after)) :
    (∀ key, state.isCyclic key = true → after.isCyclic key = true) ∧
      (∀ each, each = plugin ∨ graph.Reaches plugin each → graph.OnCycle each →
        after.isCyclic each.key = true ∨ touched each) ∧
      ∀ touched' : Plugin → Prop, (∀ each, touched each → touched' each) →
        (graph.OnCycle plugin → touched' plugin) → graph.Marked known touched' after := by
  have hlists := (settled_of_transitive law hplugin hsound hok).lists
  have hnoticed := meets_expand_noticed law hpolicy hshared hplugin []
    (Frontier.start graph plugin) (Trail.start graph plugin) hsound (by simp) hmarked
  rw [outcome_transitive] at hok
  rcases hresult : outcome (graph.expand [] (graph.keysFrom plugin) plugin) state with
    ⟨_ | found, ended⟩
  · rw [hresult] at hok
    cases hok
  · rw [hresult] at hok
    rw [List.map_nil, hresult] at hnoticed
    cases hok
    have htold : ∀ each, each = plugin ∨ graph.Reaches plugin each → graph.OnCycle each →
        ended.isCyclic each.key = true ∨ touched each := by
      intro each heach hcycle
      refine hnoticed.told each ?_ List.not_mem_nil hcycle
      by_cases hne : each = plugin
      · rw [hne]
        exact List.mem_cons_self
      · exact .tail _ ((hlists.mem_iff each).2 ⟨hne, heach.resolve_left hne⟩)
    simp only [ClosureState.isCyclic_settle]
    refine ⟨hnoticed.flags, htold, fun touched' hmore hself => ?_⟩
    have hfinished : ∀ key, (ended.settle plugin.key dependencies).Finished key →
        key ≠ plugin.key → ended.Finished key := by
      intro key hdone hne
      obtain ⟨others, hothers⟩ := hdone
      rw [ClosureState.progress, ClosureState.descriptor_settle_of_ne hne] at hothers
      exact ⟨others, hothers⟩
    constructor
    case genuine => simpa using hnoticed.marked.genuine
    case settled =>
      intro other hother hdone hcycle
      by_cases hkey : other.key = plugin.key
      · obtain rfl := law.apart hother hplugin hkey
        exact hself hcycle
      · exact hmore other (hnoticed.marked.settled other hother (hfinished _ hdone hkey) hcycle)
    case signalled =>
      intro other hother hdone each heach hcycle
      rw [ClosureState.isCyclic_settle]
      by_cases hkey : other.key = plugin.key
      · obtain rfl := law.apart hother hplugin hkey
        exact (htold each heach hcycle).imp_right (hmore each)
      · exact (hnoticed.marked.signalled other hother (hfinished _ hdone hkey) each heach
          hcycle).imp_right (hmore each)

theorem Marked.see (h : graph.Marked known touched state) (key : PluginKey) (source : ClassSource) :
    graph.Marked known touched (state.see key source) := by
  refine h.mono (fun other hdone => ?_) (by simp) (by simpa using h.genuine)
  obtain ⟨dependencies, hdone⟩ := hdone
  rw [ClosureState.progress_see] at hdone
  exact ⟨dependencies, hdone⟩

end DependencyGraph

end LinkCheck
