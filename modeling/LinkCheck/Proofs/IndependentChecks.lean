import LinkCheck.Proofs.ClasswiseChecks
import LinkCheck.Proofs.CycleDetection
import LinkCheck.Proofs.FlatChecks
import LinkCheck.Proofs.MergedProblems
import LinkCheck.Proofs.SettledAnswers

/-!
# Checks against several targets are independent

A plugin is checked against several targets in one session, which keeps the closures of platforms from one
check to the next, and all checks share what sources remember. Each check gives all the same what it gives
in a session of its own, so that the result is the merge of the single results, in any order.

## Main definitions

- `DependencyGraph.Resumes` — what is known of closures makes no difference to the dependencies of a plugin
- `DependencyGraph.Recalls` — a source that stands for what a plugin sees
- `Session.Prepared` — what is assumed of a plugin and the targets it is checked against
- `Session.Underway` — what holds of a session between the checks
- `Session.alone` — what a check gives when nothing has been checked before
- `Session.reported` — what is reported of a plugin that is checked against a target

## Main results

- `Session.linked_recalled` — what is found when a plugin is linked, whatever sources remember
- `Session.verify_underway` — a check between others gives what it gives alone
- `Session.verifyAll_independent` — checks against several targets are the merge of single checks
-/

namespace LinkCheck

namespace DependencyGraph

open Expansion

variable {graph : DependencyGraph} {known : Plugin → Prop}
  {sees : Plugin → List Plugin → ClassSource → Prop} {plugin : Plugin} {state : ClosureState}

/-- Dependencies that are kept are given again. -/
theorem transitive_of_done {dependencies : List Plugin}
    (hdone : state.progress plugin.key = .done dependencies) :
    (outcome (graph.transitive plugin) state).1 = .ok dependencies := by
  have hmem : plugin.key ∈ graph.keysFrom plugin := List.mem_cons_self
  rw [outcome_transitive, outcome_expand_done hmem hdone]

/-- What is known makes no difference to the dependencies of a plugin. Where cycles are not tolerated, all
that is remembered would be found anew. -/
structure Resumes (graph : DependencyGraph) (known : Plugin → Prop) (plugin : Plugin)
    (state : ClosureState) : Prop where
  same : (outcome (graph.transitive plugin) state).1 = (outcome (graph.transitive plugin) {}).1
  remembers : graph.policy = .failFast → graph.Remembers known state

namespace Resumes

theorem empty : graph.Resumes known plugin {} :=
  ⟨rfl, fun _ => .empty⟩

/-- Asking for the dependencies of the plugin makes no difference to the next time. -/
theorem ask (h : graph.Resumes known plugin state) (law : graph.Lawful known)
    (hplugin : known plugin) (hsound : state.Sound graph known sees) :
    graph.Resumes known plugin (outcome (graph.transitive plugin) state).2 := by
  have hremembers : graph.policy = .failFast →
      graph.Remembers known (outcome (graph.transitive plugin) state).2 :=
    fun hpolicy => (transitive_failFast_eq law hpolicy hplugin (h.remembers hpolicy)).2
  refine ⟨?_, hremembers⟩
  rcases hresult : outcome (graph.transitive plugin) state with ⟨failure | dependencies, after⟩
  · -- There is a failure only where cycles are not tolerated, and then all is found anew.
    rw [hresult] at hremembers
    cases hpolicy : graph.policy with
    | degrade =>
      obtain ⟨_, _, hok⟩ := transitive_degrade_ok law hpolicy hplugin hsound
      cases hresult.symm.trans hok
    | failFast =>
      rw [(transitive_failFast_eq law hpolicy hplugin (hremembers hpolicy)).1,
        (transitive_failFast_eq law hpolicy hplugin .empty).1]
  · have hdone := (settled_of_transitive law hplugin hsound hresult).done
    rw [transitive_of_done hdone, ← h.same, hresult]

theorem see (h : graph.Resumes known plugin state) {dependencies : List Plugin}
    (hdone : state.progress plugin.key = .done dependencies) (source : ClassSource) :
    graph.Resumes known plugin (state.see plugin.key source) := by
  refine ⟨?_, fun hpolicy => (h.remembers hpolicy).of_progress fun key others => ?_⟩
  · have hstill := (state.progress_see plugin.key plugin.key source).trans hdone
    rw [transitive_of_done hstill, ← h.same, transitive_of_done hdone]
  · rw [ClosureState.progress_see]

theorem resolve (h : graph.Resumes known plugin state) (law : graph.Lawful known)
    (hplugin : known plugin) (hsound : state.Sound graph known sees) (shelf : Shelf) :
    graph.Resumes known plugin (runWith (graph.resolve plugin) state shelf).1.2 := by
  have hasked := h.ask law hplugin hsound
  change graph.Resumes known plugin (graph.perform (state, shelf) (.resolve plugin)).1
  rcases graph.perform_cases (state, shelf) (.resolve plugin) with
    hsame | ⟨dependencies, after, source, hok, hseen⟩
  · rw [hsame]
    exact hasked
  · change outcome (graph.transitive plugin) state = _ at hok
    have hdone := (settled_of_transitive law hplugin hsound hok).done
    rw [hok] at hasked
    rw [hseen]
    exact hasked.see hdone source

end Resumes

/-- A closure lists the dependencies that are given when they are asked for. -/
theorem map_dependencies_resolve (graph : DependencyGraph) (plugin : Plugin) (state : ClosureState)
    (shelf : Shelf) : (runWith (graph.resolve plugin) state shelf).1.1.map Closure.dependencies =
      (outcome (graph.transitive plugin) state).1 := by
  rcases hresult : outcome (graph.transitive plugin) state with ⟨failure | dependencies, after⟩
  · rw [runWith_resolve_failed hresult]
    rfl
  · obtain ⟨closure, hclosure, hdependencies, _⟩ := exists_resolve_ok hresult shelf
    rw [hclosure]
    exact congrArg Except.ok hdependencies

/-- A source that stands for what a plugin with these dependencies sees, and is ready to be listed. -/
structure Recalls (graph : DependencyGraph) (inventory : Inventory) (shelf : Shelf)
    (plugin : Plugin) (dependencies : List Plugin) (source : ClassSource) : Prop where
  grounded : source.Grounded inventory shelf.files
  ready : source.Ready shelf
  layers : ∀ layer ∈ graph.layers plugin dependencies, layer.Grounded inventory shelf.files
  recalls : ∀ name, source.recalled? shelf name =
    (graph.layers plugin dependencies).findSome? (ClassSource.recalled? shelf name)

variable {inventory : Inventory} {shelf after : Shelf}

theorem Recalls.advance {dependencies : List Plugin} {source : ClassSource}
    (h : graph.Recalls inventory shelf plugin dependencies source)
    (hadvances : shelf.Advances inventory after) :
    graph.Recalls inventory after plugin dependencies source := by
  refine ⟨?_, hadvances.ready h.ready, ?_, fun name => ?_⟩
  · rw [hadvances.files]
    exact h.grounded
  · rw [hadvances.files]
    exact h.layers
  · rw [hadvances.recalled?_eq h.grounded, hadvances.findSome?_recalled?_eq h.layers]
    exact h.recalls name

/-- Resolving a closure keeps what is known right, and gives a source for what the plugin sees. -/
theorem recalls_resolve (law : graph.Lawful known) (hplugin : known plugin)
    (htruthful : shelf.Truthful inventory) (hfiles : shelf.files.WellFormed)
    (hlayers : ∀ dependencies, graph.Lists plugin dependencies →
      ∀ layer ∈ graph.layers plugin dependencies,
        layer.Grounded inventory shelf.files ∧ layer.Ready shelf)
    (h : state.Sound graph known (graph.Recalls inventory shelf)) :
    ∃ result state' shelf', runWith (graph.resolve plugin) state shelf = ((result, state'), shelf') ∧
      (∀ closure, result = .ok closure → closure.missing = (graph.direct plugin).missing ∧
        graph.Recalls inventory shelf' plugin closure.dependencies closure.source) ∧
      state'.Sound graph known (graph.Recalls inventory shelf') ∧
      shelf.Advances inventory shelf' := by
  have hsound := sound_transitive law hplugin h
  rcases hresult : outcome (graph.transitive plugin) state with ⟨failure | dependencies, asked⟩
  · rw [hresult] at hsound
    exact ⟨_, _, _, runWith_resolve_failed hresult, nofun, hsound, .refl htruthful⟩
  · have hsettled := settled_of_transitive law hplugin h hresult
    have hmissing := (hsettled.sound plugin hplugin).missing hsettled.done
    cases hsource : (asked.descriptor plugin.key).source with
    | some source =>
      obtain ⟨others, hothers, hrecalls⟩ := (hsettled.sound plugin hplugin).source hsource
      obtain rfl := Transitive.done.inj (hsettled.done.symm.trans hothers)
      refine ⟨_, _, _, runWith_resolve_seen hresult hsource, fun closure hclosure => ?_,
        hsettled.sound, .refl htruthful⟩
      cases hclosure
      exact ⟨hmissing, hrecalls⟩
    | none =>
      have hready := hlayers dependencies hsettled.lists
      have hknown : ∀ layer ∈ graph.layers plugin dependencies,
          layer.Grounded inventory shelf.files := fun layer hlayer => (hready layer hlayer).1
      obtain ⟨union, made, hmade, hadvances, hgrounded, hunion, hrecall⟩ :=
        ClassSource.recalls_unionOf htruthful hfiles hknown fun layer hlayer => (hready layer hlayer).2
      have hrecalls : graph.Recalls inventory made plugin dependencies union := by
        refine ⟨hadvances.files ▸ hgrounded, hunion, hadvances.files ▸ hknown, fun name => ?_⟩
        rw [hadvances.recalled?_eq hgrounded, hadvances.findSome?_recalled?_eq hknown]
        exact hrecall name
      have hkept := hsettled.sound.imp fun _ _ _ hseen => hseen.advance hadvances
      refine ⟨_, _, _, runWith_resolve_made hresult hsource hmade, fun closure hclosure => ?_,
        hkept.see law hplugin hsettled.done hrecalls, hadvances⟩
      cases hclosure
      exact ⟨hmissing, hrecalls⟩

end DependencyGraph

namespace Session

variable {inventory : Inventory} {plugin : Plugin} {target : Target} {closure : Closure}
  {shelf after : Shelf}

/-- A check against a caching source that is new and given up afterwards. What is recalled through it is what
is recalled of the source behind it. -/
theorem verifyAgainst_cached_recalled {classes union : ClassSource} (options : Options)
    (htruthful : shelf.Truthful inventory) (hclasses : classes.Grounded inventory shelf.files)
    (hclassesReady : classes.Ready shelf) (hunion : union.Grounded inventory shelf.files)
    (hunionReady : union.Ready shelf) :
    let effective := ClassSource.caching shelf.nextId union
    let checked := (classes.verifyAgainst effective options).run (Shelf.freshId.run shelf).2
    checked.1 = LinkCheck.verify (.recalled shelf [classes]) (.recalled shelf [union]) options ∧
      shelf.Advances inventory (effective.close.run checked.2).2 := by
  intro effective checked
  have hknown := htruthful.known_withCaching union
  have hnumbered := Shelf.Advances.freshId htruthful
  have htruthfulNow := htruthful.withCaching union
  have hclassesNow : classes.Grounded (inventory.withCaching shelf.nextId union)
      (Shelf.freshId.run shelf).2.files := hclasses.mono hknown
  have heffective : effective.Grounded (inventory.withCaching shelf.nextId union)
      (Shelf.freshId.run shelf).2.files := hunion.withCaching htruthful
  obtain ⟨hresult, hchecked⟩ := hclassesNow.run_verifyAgainst_of_ready
    (hnumbered.ready hclassesReady) heffective (.caching _ (hnumbered.ready hunionReady))
    htruthfulNow options
  have hclosed := heffective.advances_close _ hchecked.files hchecked.truthful
  refine ⟨hresult.trans (verify_alike options rfl (fun _ => rfl) fun name => ?_),
    hnumbered.trans ((hchecked.trans hclosed).of_known hknown)⟩
  -- Nothing is remembered under the number of the caching source when the check starts.
  have hnone : ((Shelf.freshId.run shelf).2.memo shelf.nextId).get? name = none :=
    htruthful.unused (Nat.le_refl _) name
  have hsettled : effective.settled shelf.files (Shelf.freshId.run shelf).2.memos name =
      union.settled shelf.files shelf.memos name := by
    change (((Shelf.freshId.run shelf).2.memo shelf.nextId).get? name).getD _ = _
    rw [hnone]
    rfl
  rw [Classpath.find_recalled, Classpath.find_recalled, List.findSome?_singleton,
    List.findSome?_singleton]
  change (if name ∈ union.listed shelf.files then some (effective.settled shelf.files _ name)
    else none).getD _ = (union.recalled? shelf name).getD _
  rw [hsettled]
  rfl

/-- Linking a plugin finds what is found against the first of the sources that are searched which lists a
name, whatever sources remember. -/
theorem linked_recalled {graph : DependencyGraph} (options : Options)
    (htruthful : shelf.Truthful inventory) (hfiles : shelf.files.WellFormed)
    (hplatform : graph.platform = target.platform)
    (hlayers : ∀ layer ∈ layers plugin closure target,
      layer.Grounded inventory shelf.files ∧ layer.Ready shelf)
    (hsource : ∀ name, closure.source.recalled? shelf name =
      (graph.layers plugin closure.dependencies).findSome? (ClassSource.recalled? shelf name)) :
    ((linked plugin closure target options).run shelf).1 =
        LinkCheck.verify (.recalled shelf [plugin.classes])
          (.recalled shelf (searched plugin target closure.dependencies)) options ∧
      shelf.Advances inventory ((linked plugin closure target options).run shelf).2 := by
  obtain ⟨union, united, hmade, hunited, hunion, hready, hrecall⟩ := ClassSource.recalls_unionOf
    htruthful hfiles (fun layer hlayer => (hlayers layer hlayer).1)
    fun layer hlayer => (hlayers layer hlayer).2
  obtain ⟨hclasses, hclassesReady⟩ := hlayers plugin.classes List.mem_cons_self
  rw [run_linked, hmade]
  obtain ⟨hresult, hchecked⟩ := verifyAgainst_cached_recalled options hunited.truthful
    (hunited.files ▸ hclasses) (hunited.ready hclassesReady) (hunited.files ▸ hunion) hready
  refine ⟨hresult.trans ?_, hunited.trans hchecked⟩
  rw [Classpath.recalled_eq hunited (List.forall_mem_singleton.2 hclasses),
    Classpath.recalled_eq hunited (List.forall_mem_singleton.2 hunion)]
  refine verify_alike options rfl (fun _ => rfl) fun name => ?_
  rw [Classpath.find_recalled, Classpath.find_recalled, List.findSome?_singleton, hrecall,
    findSome?_layers hplatform _ (hsource name)]

/-- What is assumed of a plugin and the targets that it is checked against: what is remembered is right, all
sources are known to an inventory and ready to be listed, and keys tell plugins apart as `ident` does
platforms. -/
structure Prepared (start : Session) (inventory : Inventory) (shelf : Shelf) (plugin : Plugin)
    (targets : List Target) : Prop where
  truthful : shelf.Truthful inventory
  files : shelf.files.WellFormed
  sources : ∀ target ∈ targets,
    ∀ source ∈ searched plugin target (start.graphOf target.platform).plugins,
      source.Grounded inventory shelf.files ∧ source.Ready shelf
  keys : ∀ target ∈ targets, KeysTellApart ((start.graphOf target.platform).plugins ++ [plugin])
  idents : ∀ target ∈ targets, ∀ other ∈ targets,
    target.platform.ident = other.platform.ident → target.platform = other.platform

/-- What a check gives when nothing has been checked before. -/
def alone (start : Session) (shelf : Shelf) (plugin : Plugin) (target : Target) :
    Except VerificationError ProblemSet :=
  let graph := start.graphOf target.platform
  let dependencies := (Expansion.outcome (graph.transitive plugin) {}).1
  (dependencies.mapError .closure).map fun dependencies =>
    addMissing plugin (graph.direct plugin).missing
      (LinkCheck.verify (.recalled shelf [plugin.classes])
        (.recalled shelf (searched plugin target dependencies)) start.options)

/-- What holds of the closures that are kept for a platform: they are right, and make no difference to what
is found of the plugin. -/
structure Resumable (start : Session) (inventory : Inventory) (shelf : Shelf) (plugin : Plugin)
    (platform : Platform) (state : ClosureState) : Prop where
  sound : state.Sound (start.graphOf platform) (· ∈ (start.graphOf platform).plugins ++ [plugin])
    ((start.graphOf platform).Recalls inventory shelf)
  resumes : (start.graphOf platform).Resumes (· ∈ (start.graphOf platform).plugins ++ [plugin])
    plugin state

/-- What holds of a session between the checks of a plugin against some targets. -/
structure Underway (start : Session) (inventory : Inventory) (plugin : Plugin)
    (targets : List Target) (session : Session) (shelf : Shelf) : Prop where
  options : session.options = start.options
  catalog : session.catalog = start.catalog
  closures : ∀ {version : String} {known : PlatformClosures},
    session.closures.get? version = some known →
      (∃ target ∈ targets, known.platform = target.platform) ∧
        start.Resumable inventory shelf plugin known.platform known.state

variable {start session : Session} {targets : List Target} {state : ClosureState}

/-- A source that is searched with some dependencies is searched with more. -/
theorem mem_searched_mono {dependencies others : List Plugin} {source : ClassSource}
    (h : ∀ other ∈ dependencies, other ∈ others)
    (hsource : source ∈ searched plugin target dependencies) :
    source ∈ searched plugin target others := by
  simp only [searched, List.mem_append, List.mem_flatMap] at hsource ⊢
  rcases hsource with (hsource | ⟨other, hother, hsource⟩) | hsource
  · exact .inl (.inl hsource)
  · exact .inl (.inr ⟨other, h other hother, hsource⟩)
  · exact .inr hsource

theorem Prepared.advance (h : start.Prepared inventory shelf plugin targets)
    (hadvances : shelf.Advances inventory after) :
    start.Prepared inventory after plugin targets where
  truthful := hadvances.truthful
  files := hadvances.files ▸ h.files
  sources := fun target htarget source hsource => by
    obtain ⟨hgrounded, hready⟩ := h.sources target htarget source hsource
    rw [hadvances.files]
    exact ⟨hgrounded, hadvances.ready hready⟩
  keys := h.keys
  idents := h.idents

/-- What a check gives when nothing has been checked before does not depend on answers that have been put down
since. -/
theorem alone_eq (hprepared : start.Prepared inventory shelf plugin targets)
    (htarget : target ∈ targets) (hadvances : shelf.Advances inventory after) :
    start.alone after plugin target = start.alone shelf plugin target := by
  have law := DependencyGraph.lawful_of_keysTellApart (hprepared.keys target htarget)
  have hplugin : plugin ∈ (start.graphOf target.platform).plugins ++ [plugin] :=
    List.mem_append_right _ (List.mem_singleton_self plugin)
  rw [alone, alone]
  rcases houtcome : Expansion.outcome ((start.graphOf target.platform).transitive plugin) {} with
    ⟨failure | dependencies, state⟩
  · simp only [Except.mapError, Except.map]
  · have hlists := (DependencyGraph.settled_of_transitive law hplugin
      (ClosureState.Sound.empty _ _ fun _ _ _ => True) houtcome).lists
    have hgrounded : ∀ source ∈ searched plugin target dependencies,
        source.Grounded inventory shelf.files := by
      intro source hsource
      refine (hprepared.sources target htarget source (mem_searched_mono (fun other hother => ?_)
        hsource)).1
      exact ((hlists.mem_iff other).1 hother).2.mem_plugins
    have hclasses : ∀ source ∈ [plugin.classes], source.Grounded inventory shelf.files :=
      List.forall_mem_singleton.2 (hgrounded plugin.classes List.mem_cons_self)
    simp only [Except.mapError, Except.map, Classpath.recalled_eq hadvances hgrounded,
      Classpath.recalled_eq hadvances hclasses]

theorem Resumable.empty (platform : Platform) :
    start.Resumable inventory shelf plugin platform {} :=
  ⟨.empty _ _ _, .empty⟩

theorem Resumable.advance {platform : Platform}
    (h : start.Resumable inventory shelf plugin platform state)
    (hadvances : shelf.Advances inventory after) :
    start.Resumable inventory after plugin platform state :=
  ⟨h.sound.imp fun _ _ _ hrecalls => hrecalls.advance hadvances, h.resumes⟩

namespace Underway

theorem of_fresh (h : start.closures = {}) : Underway start inventory plugin targets start shelf where
  options := rfl
  catalog := rfl
  closures := fun hknown => by
    rw [h, Table.get?_empty] at hknown
    cases hknown

theorem graphOf_eq (h : Underway start inventory plugin targets session shelf)
    (platform : Platform) : session.graphOf platform = start.graphOf platform := by
  rw [graphOf, graphOf, h.options, h.catalog]

theorem advance (h : Underway start inventory plugin targets session shelf)
    (hadvances : shelf.Advances inventory after) :
    Underway start inventory plugin targets session after :=
  ⟨h.options, h.catalog, fun hknown =>
    ⟨(h.closures hknown).1, (h.closures hknown).2.advance hadvances⟩⟩

/-- What is known of a platform was found out on this platform, even if others carry its version. -/
theorem closuresOf (h : Underway start inventory plugin targets session shelf)
    (hprepared : start.Prepared inventory shelf plugin targets) (htarget : target ∈ targets) :
    start.Resumable inventory shelf plugin target.platform
      (session.closuresOf target.platform) := by
  unfold Session.closuresOf
  split
  · next known hknown =>
    obtain ⟨⟨other, hother, hplatform⟩, hresumable⟩ := h.closures hknown
    split
    · next hident =>
      have hsame : known.platform = target.platform := by
        rw [hplatform] at hident ⊢
        exact hprepared.idents other hother target htarget hident
      rwa [hsame] at hresumable
    · exact .empty _
  · exact .empty _

theorem keepClosures (h : Underway start inventory plugin targets session shelf)
    (htarget : target ∈ targets)
    (hstate : start.Resumable inventory shelf plugin target.platform state) :
    Underway start inventory plugin targets (session.keepClosures target.platform state) shelf where
  options := h.options
  catalog := h.catalog
  closures := fun {version known} hknown => by
    rw [Session.keepClosures, Table.get?_insert] at hknown
    split at hknown
    · cases hknown
      exact ⟨⟨target, htarget, rfl⟩, hstate⟩
    · exact h.closures hknown

end Underway

/-- Asking for the closure of the plugin between checks gives the dependencies that are found when nothing is
known, and a source for what the plugin sees. -/
theorem closure_underway (hprepared : start.Prepared inventory shelf plugin targets)
    (h : Underway start inventory plugin targets session shelf) (htarget : target ∈ targets) :
    ∃ (result : Except ClosureError Closure) (state : ClosureState) (shelf' : Shelf),
      runWith (Session.closure plugin target.platform) session shelf =
          ((result.mapError .closure, session.keepClosures target.platform state), shelf') ∧
        result.map Closure.dependencies =
          (Expansion.outcome ((start.graphOf target.platform).transitive plugin) {}).1 ∧
        (∀ closure, result = .ok closure →
          closure.missing = ((start.graphOf target.platform).direct plugin).missing ∧
          (start.graphOf target.platform).Recalls inventory shelf' plugin closure.dependencies
            closure.source) ∧
        start.Resumable inventory shelf' plugin target.platform state ∧
        shelf.Advances inventory shelf' := by
  have hknown := h.closuresOf hprepared htarget
  have law := DependencyGraph.lawful_of_keysTellApart (hprepared.keys target htarget)
  have hplugin : plugin ∈ (start.graphOf target.platform).plugins ++ [plugin] :=
    List.mem_append_right _ (List.mem_singleton_self plugin)
  have hlayers : ∀ dependencies, (start.graphOf target.platform).Lists plugin dependencies →
      ∀ layer ∈ (start.graphOf target.platform).layers plugin dependencies,
        layer.Grounded inventory shelf.files ∧ layer.Ready shelf := by
    intro dependencies hlists layer hlayer
    refine hprepared.sources target htarget layer (mem_searched_mono (fun other hother => ?_)
      (mem_searched_of_mem_layers rfl hlayer))
    exact ((hlists.mem_iff other).1 hother).2.mem_plugins
  obtain ⟨result, state, shelf', hresolve, hclosure, hsound, hadvances⟩ :=
    DependencyGraph.recalls_resolve law hplugin hprepared.truthful hprepared.files hlayers hknown.sound
  have hresumes := hknown.resumes.resolve law hplugin hknown.sound shelf
  have hdependencies := (start.graphOf target.platform).map_dependencies_resolve plugin
    (session.closuresOf target.platform) shelf
  rw [hresolve] at hresumes hdependencies
  refine ⟨result, state, shelf', ?_, hdependencies.trans hknown.resumes.same, hclosure,
    ⟨hsound, hresumes⟩, hadvances⟩
  rw [runWith_closure, h.graphOf_eq, hresolve]

/-- A check between others gives what it gives alone. -/
theorem verify_underway (hprepared : start.Prepared inventory shelf plugin targets)
    (h : Underway start inventory plugin targets session shelf) (htarget : target ∈ targets) :
    ∃ state shelf', runWith (verify plugin target) session shelf =
        ((start.alone shelf plugin target, session.keepClosures target.platform state), shelf') ∧
      Underway start inventory plugin targets (session.keepClosures target.platform state) shelf' ∧
      shelf.Advances inventory shelf' := by
  obtain ⟨result, state, resolved, hrun, hdependencies, hclosure, hresumable, hadvances⟩ :=
    closure_underway hprepared h htarget
  have hkept := (h.advance hadvances).keepClosures htarget hresumable
  rw [runWith_verify, hrun]
  cases result with
  | error failure =>
    refine ⟨state, resolved, ?_, hkept, hadvances⟩
    rw [alone, ← hdependencies]
    rfl
  | ok closure =>
    obtain ⟨hmissing, hrecalls⟩ := hclosure closure rfl
    have hnow := hprepared.advance hadvances
    have hlayers : ∀ layer ∈ layers plugin closure target,
        layer.Grounded inventory resolved.files ∧ layer.Ready resolved := by
      intro layer hlayer
      by_cases hsource : layer = closure.source
      · rw [hsource]
        exact ⟨hrecalls.grounded, hrecalls.ready⟩
      · refine hnow.sources target htarget layer ?_
        simp only [layers, searched, List.mem_cons, List.mem_append, List.not_mem_nil,
          or_false] at hlayer ⊢
        tauto
    obtain ⟨hlinked, hafter⟩ := linked_recalled start.options hnow.truthful hnow.files rfl hlayers
      hrecalls.recalls
    refine ⟨state, _, ?_, hkept.advance hafter, hadvances.trans hafter⟩
    rw [← alone_eq hprepared htarget hadvances, alone, ← hdependencies]
    simp only [Except.mapError, hkept.options, hlinked, hmissing]
    rfl

/-- What is reported of a plugin that is checked against a target. -/
def reported (session : Session) (shelf : Shelf) (plugin : Plugin) (target : Target) : ProblemSet :=
  (((verifyOrReport plugin target).run session).run shelf).1.1

/-- What a check finds is reported. -/
theorem run_verifyOrReport_ok {problems : ProblemSet} {later : Session}
    (h : runWith (verify plugin target) session shelf = ((.ok problems, later), after)) :
    ((verifyOrReport plugin target).run session).run shelf = ((problems, later), after) := by
  rw [runWith] at h
  simp only [verifyOrReport, StateT.run_bind, h]
  rfl

/-- A check that fails is reported with what the failure amounts to. -/
theorem run_verifyOrReport_error {failure : VerificationError} {later : Session}
    (h : runWith (verify plugin target) session shelf = ((.error failure, later), after)) :
    ((verifyOrReport plugin target).run session).run shelf =
      ((failure.problem?.elim {} fun problem => ProblemSet.add {} problem (.plugin plugin.id), later),
        after) := by
  rw [runWith] at h
  simp only [verifyOrReport, StateT.run_bind, h]
  rfl

/-- What is reported depends on the result of the check and on nothing else. -/
theorem run_verifyOrReport {result : Except VerificationError ProblemSet}
    {other later otherLater : Session} {otherShelf otherAfter : Shelf}
    (h : runWith (verify plugin target) session shelf = ((result, later), after))
    (hother : runWith (verify plugin target) other otherShelf = ((result, otherLater), otherAfter)) :
    ((verifyOrReport plugin target).run session).run shelf =
      ((other.reported otherShelf plugin target, later), after) := by
  cases result with
  | error failure => rw [reported, run_verifyOrReport_error h, run_verifyOrReport_error hother]
  | ok problems => rw [reported, run_verifyOrReport_ok h, run_verifyOrReport_ok hother]

theorem distinct_addMissing {problems : ProblemSet} (h : problems.Distinct)
    (missing : List Dependency) : (addMissing plugin missing problems).Distinct := by
  induction missing generalizing problems with
  | nil => exact h
  | cons dependency missing ih => exact ih (h.add _ _)

/-- No problem is reported twice. -/
theorem distinct_reported (session : Session) (shelf : Shelf) (plugin : Plugin) (target : Target) :
    (session.reported shelf plugin target).Distinct := by
  rcases hrun : runWith (verify plugin target) session shelf with ⟨⟨failure | problems, later⟩, after⟩
  · rw [reported, run_verifyOrReport_error hrun]
    cases failure.problem? with
    | none => exact .empty
    | some problem => exact ProblemSet.Distinct.empty.add _ _
  · rw [reported, run_verifyOrReport_ok hrun]
    rw [runWith_verify] at hrun
    rcases hclosure : runWith (Session.closure plugin target.platform) session shelf with
      ⟨⟨failure | closure, known⟩, resolved⟩
    · rw [hclosure] at hrun
      cases hrun
    · rw [hclosure] at hrun
      cases hrun
      exact distinct_addMissing (ProblemSet.distinct_ofFindings _) closure.missing

theorem runWith_checkCancelled (session : Session) (shelf : Shelf) :
    runWith checkCancelled session shelf =
      ((if session.isCancelled then .error .cancelled else .ok (), session), shelf) := by
  rw [checkCancelled, runWith_bind, runWith_getThe]
  dsimp only
  by_cases hcancelled : session.isCancelled = true
  · rw [if_pos hcancelled, if_pos hcancelled, runWith_throw]
  · rw [if_neg hcancelled, if_neg hcancelled, runWith_pure]

/-- What is found against one more target counts unless the session has been cancelled. -/
theorem runWith_merge_next (merged : ProblemSet) (session : Session) (shelf : Shelf) :
    runWith (do
        checkCancelled
        let problems ← verifyOrReport plugin target
        checkCancelled
        return merged.merge problems : Checking ProblemSet) session shelf =
      if session.isCancelled then ((.error .cancelled, session), shelf)
      else
        let answer := ((verifyOrReport plugin target).run session).run shelf
        ((if answer.1.2.isCancelled then .error .cancelled else .ok (merged.merge answer.1.1),
          answer.1.2), answer.2) := by
  rw [runWith_bind, runWith_checkCancelled]
  by_cases hcancelled : session.isCancelled = true
  · rw [if_pos hcancelled, if_pos hcancelled]
  · rw [if_neg hcancelled, if_neg hcancelled]
    dsimp only
    rw [runWith_bind, runWith_lift]
    dsimp only
    rw [runWith_bind, runWith_checkCancelled]
    generalize ((verifyOrReport plugin target).run session).run shelf = answer
    by_cases hstopped : answer.1.2.isCancelled = true
    · rw [if_pos hstopped, if_pos hstopped]
    · rw [if_neg hstopped, if_neg hstopped]
      rfl

/-- Keeping closures cancels nothing where the catalog stops nowhere. -/
theorem isCancelled_keepClosures (h : session.catalog.stopsAt = none) (platform : Platform)
    (state : ClosureState) :
    (session.keepClosures platform state).isCancelled = session.isCancelled := by
  rw [keepClosures, h]
  exact Bool.or_false _

/-- A check between others reports what is reported in a session of its own. -/
theorem report_underway {now : Shelf} (hfresh : start.closures = {})
    (hprepared : start.Prepared inventory shelf plugin targets)
    (hadvances : shelf.Advances inventory now)
    (h : Underway start inventory plugin targets session now) (htarget : target ∈ targets) :
    ∃ state shelf', ((verifyOrReport plugin target).run session).run now =
        ((start.reported shelf plugin target, session.keepClosures target.platform state), shelf') ∧
      Underway start inventory plugin targets (session.keepClosures target.platform state) shelf' ∧
      shelf.Advances inventory shelf' := by
  obtain ⟨state, shelf', hrun, hunderway, hnext⟩ :=
    verify_underway (hprepared.advance hadvances) h htarget
  obtain ⟨_, _, halone, _⟩ := verify_underway hprepared (.of_fresh hfresh) htarget
  rw [alone_eq hprepared htarget hadvances] at hrun
  exact ⟨state, shelf', run_verifyOrReport hrun halone, hunderway, hadvances.trans hnext⟩

/-- As long as the session is not cancelled, the reports of single checks are merged in turn. -/
theorem foldlM_underway {now : Shelf} (hfresh : start.closures = {})
    (hprepared : start.Prepared inventory shelf plugin targets) {rest : List Target}
    (hrest : ∀ target ∈ rest, target ∈ targets) (merged : ProblemSet)
    (hadvances : shelf.Advances inventory now)
    (h : Underway start inventory plugin targets session now) :
    let answer := runWith (rest.foldlM (fun merged target => do
        checkCancelled
        let problems ← verifyOrReport plugin target
        checkCancelled
        return merged.merge problems : ProblemSet → Target → Checking ProblemSet) merged) session now
    (answer.1.2.isCancelled = false → answer.1.1 =
        .ok ((rest.map (start.reported shelf plugin)).foldl ProblemSet.merge merged)) ∧
      (session.isCancelled = false → start.catalog.stopsAt = none →
        answer.1.2.isCancelled = false) ∧
      shelf.Advances inventory answer.2 := by
  induction rest generalizing merged session now with
  | nil => exact ⟨fun _ => rfl, fun hcancelled _ => hcancelled, hadvances⟩
  | cons target rest ih =>
    intro answer
    obtain ⟨state, shelf', hreport, hunderway, hnext⟩ := report_underway hfresh hprepared hadvances h
      (hrest target List.mem_cons_self)
    obtain ⟨hmerged, hongoing, hlast⟩ := ih (fun other hother => hrest other (.tail _ hother))
      (merged.merge (start.reported shelf plugin target)) hnext hunderway
    have hrun : answer = _ := runWith_bind _ _ session now
    rw [runWith_merge_next, hreport] at hrun
    by_cases hcancelled : session.isCancelled = true
    · rw [if_pos hcancelled] at hrun
      rw [hrun]
      refine ⟨fun hnot => ?_, fun hnot => ?_, hadvances⟩
      · cases hcancelled.symm.trans hnot
      · cases hcancelled.symm.trans hnot
    · rw [if_neg hcancelled] at hrun
      dsimp only at hrun
      by_cases hstopped : (session.keepClosures target.platform state).isCancelled = true
      · rw [if_pos hstopped] at hrun
        rw [hrun]
        refine ⟨fun hnot => ?_, fun hnot hstops => ?_, hnext⟩
        · cases hstopped.symm.trans hnot
        · have hsame := isCancelled_keepClosures (h.catalog ▸ hstops) target.platform state
          cases hstopped.symm.trans (hsame.trans hnot)
      · rw [if_neg hstopped] at hrun
        rw [hrun]
        refine ⟨hmerged, fun _ => hongoing (Bool.not_eq_true _ ▸ hstopped), hlast⟩

/-- Nothing is lost of what is assumed when targets stand in another order. -/
theorem Prepared.perm {others : List Target} (h : start.Prepared inventory shelf plugin targets)
    (hperm : targets.Perm others) : start.Prepared inventory shelf plugin others where
  truthful := h.truthful
  files := h.files
  sources := fun target htarget => h.sources target (hperm.mem_iff.2 htarget)
  keys := fun target htarget => h.keys target (hperm.mem_iff.2 htarget)
  idents := fun target htarget other hother =>
    h.idents target (hperm.mem_iff.2 htarget) other (hperm.mem_iff.2 hother)

/-- A session of its own may use another shelf, on which answers have been put down since. -/
theorem reported_eq (hfresh : start.closures = {})
    (hprepared : start.Prepared inventory shelf plugin targets)
    (hadvances : shelf.Advances inventory after) (htarget : target ∈ targets) :
    start.reported after plugin target = start.reported shelf plugin target := by
  obtain ⟨_, _, hreport, _⟩ :=
    report_underway hfresh hprepared hadvances (.of_fresh hfresh) htarget
  rw [reported, hreport]

/-- A session that starts fresh and is not cancelled checks a plugin against several targets as if each of
the checks were made in a fresh session of its own: the result is the merge of the single reports in the
order of the targets, and in another order it is an equivalent one. Each check starts from what the lookups
of the checks before it have put down in the sources that targets share. Only a catalog that stops somewhere
can cancel the session. -/
theorem verifyAll_independent (hfresh : start.closures = {})
    (hprepared : start.Prepared inventory shelf plugin targets) :
    let answer := runWith (verifyAll plugin targets) start shelf
    (start.isCancelled = false → start.catalog.stopsAt = none → answer.1.2.isCancelled = false) ∧
      shelf.Advances inventory answer.2 ∧
      (answer.1.2.isCancelled = false →
        (∀ shelves : Target → Shelf,
          (∀ target ∈ targets, shelf.Advances inventory (shelves target)) →
            answer.1.1 = .ok (.mergeAll (targets.map fun target =>
              start.reported (shelves target) plugin target))) ∧
        ∀ (others : List Target) (later : Shelf), targets.Perm others →
          shelf.Advances inventory later →
            let reordered := runWith (verifyAll plugin others) start later
            reordered.1.2.isCancelled = false →
              ∃ problems same, answer.1.1 = .ok problems ∧ reordered.1.1 = .ok same ∧
                problems.equivalent same = true) := by
  intro answer
  obtain ⟨hmerged, hongoing, hlast⟩ := foldlM_underway hfresh hprepared (fun _ htarget => htarget) {}
    (.refl hprepared.truthful) (.of_fresh hfresh)
  refine ⟨hongoing, hlast, fun hcancelled => ⟨fun shelves hshelves => ?_, ?_⟩⟩
  · have hsame : targets.map (start.reported shelf plugin) =
        targets.map fun target => start.reported (shelves target) plugin target :=
      List.map_congr_left fun target htarget =>
        (reported_eq hfresh hprepared (hshelves target htarget) htarget).symm
    rw [← hsame]
    exact hmerged hcancelled
  · intro others later hperm hlater reordered hreordered
    obtain ⟨hothers, _⟩ := foldlM_underway hfresh (hprepared.perm hperm) (fun _ htarget => htarget) {}
      hlater (.of_fresh hfresh)
    refine ⟨_, _, hmerged hcancelled, hothers hreordered, ?_⟩
    refine ProblemSet.equivalent_mergeAll_of_perm (hperm.map _) fun set hset => ?_
    obtain ⟨target, _, rfl⟩ := List.mem_map.1 hset
    exact distinct_reported start shelf plugin target

/-- The library, if it needs the plugin that needs it. -/
def needyLibrary : Plugin :=
  { libraryPlugin with dependencies := [{ id := "client", isOptional := false }] }

/-- A target whose runtime library remembers what it was asked for. -/
def recallingTarget (ident : Nat) (plugins : List Plugin) : Target :=
  { targetWith ident plugins with runtime := .caching 7 (targetWith ident plugins).runtime }

/-- Three platforms of one version and with one runtime library: without plugins, with the library, and with a
library that leads to a cycle. -/
def sharingTargets : List Target :=
  [recallingTarget 0 [], recallingTarget 1 [libraryPlugin],
    recallingTarget 2 [clientPlugin, needyLibrary]]

def recallingInventory : Inventory :=
  jarInventory.withCaching 7 (targetWith 0 []).runtime

def recallingShelf : Shelf :=
  { jarShelf with nextId := 8 }

/-- A session in which cycles are not tolerated. -/
def strict : Session :=
  { options := { cyclePolicy := .failFast } }

set_option maxRecDepth 20000 in
theorem prepared_sharingTargets :
    strict.Prepared recallingInventory recallingShelf clientPlugin sharingTargets where
  truthful := truthful_jarShelf.withCaching _
  files := ⟨by decide +kernel, by decide +kernel, by decide +kernel⟩
  sources := by
    intro target htarget source hsource
    have hcases : source = clientPlugin.classes ∨ source = libraryPlugin.classes ∨
        source = (recallingTarget 0 []).runtime ∨ ∃ id, source = .empty id := by
      simp only [sharingTargets, List.mem_cons, List.not_mem_nil, or_false] at htarget
      rcases htarget with rfl | rfl | rfl <;>
        simp [searched, recallingTarget, targetWith, DependencyGraph.plugins, graphOf, strict,
          clientPlugin, libraryPlugin, needyLibrary] at hsource ⊢ <;>
        grind
    rcases hcases with rfl | rfl | rfl | ⟨id, rfl⟩
    · exact ⟨.indexed rfl, .surveyed (.indexed _ _)⟩
    · exact ⟨.indexed rfl, .surveyed (.indexed _ _)⟩
    · exact ⟨.caching rfl (.indexed rfl), .surveyed (.caching _ (.indexed _ _))⟩
    · exact ⟨.empty id, .surveyed (.empty id)⟩
  keys := by
    simp only [sharingTargets, List.forall_mem_cons]
    refine ⟨?_, ?_, ?_, List.forall_mem_nil _⟩ <;>
      simp [KeysTellApart, DependencyGraph.plugins, graphOf, strict, recallingTarget, targetWith,
        clientPlugin, libraryPlugin, needyLibrary, Plugin.key]
  idents := by
    simp [sharingTargets, recallingTarget, targetWith]

set_option maxRecDepth 20000 in
/-- The runtime library answers for the root class on the first platform, and remembers it for the second. Its
class that the library hides on the second platform is reported only on the first. -/
theorem verifyAll_independent_sharing :
    strict.Prepared recallingInventory recallingShelf clientPlugin sharingTargets ∧
      (runWith (verifyAll clientPlugin sharingTargets) strict recallingShelf).1.1 =
        .ok (.mergeAll (sharingTargets.map (strict.reported recallingShelf clientPlugin))) ∧
      (∃ problems same,
        (runWith (verifyAll clientPlugin sharingTargets) strict recallingShelf).1.1 = .ok problems ∧
          (runWith (verifyAll clientPlugin sharingTargets.reverse) strict recallingShelf).1.1 =
            .ok same ∧
          problems.equivalent same = true) ∧
      (runWith (verifyAll clientPlugin sharingTargets) strict recallingShelf).1.1.toOption.map
          ProblemSet.problems =
        some [.inheritFromFinalClass ⟨"p/Main"⟩ ⟨"q/Base"⟩,
          .superClassNotFound ⟨"p/Next"⟩ ⟨"q/Sealed"⟩, .missingDependency "library",
          .missingDependency "nobody", .inheritFromFinalClass ⟨"p/Next"⟩ ⟨"q/Sealed"⟩,
          .cyclicDependency ["client", "library", "client"]] ∧
      ((runWith (verifyAll clientPlugin sharingTargets) strict recallingShelf).2.archives.get? 5).map
        (fun state => state.cache.stats) = some { misses := 2, evictions := 1 } := by
  have hperm : sharingTargets.Perm sharingTargets.reverse := (List.reverse_perm _).symm
  have hprepared := prepared_sharingTargets
  have hshelf := Shelf.Advances.refl hprepared.truthful
  obtain ⟨hongoing, _, hmerged⟩ := verifyAll_independent rfl hprepared
  obtain ⟨hreordered, _⟩ := verifyAll_independent rfl (hprepared.perm hperm)
  obtain ⟨halone, hothers⟩ := hmerged (hongoing rfl rfl)
  have hmerge := halone (fun _ => recallingShelf) fun _ _ => hshelf
  refine ⟨hprepared, hmerge, hothers sharingTargets.reverse _ hperm hshelf (hreordered rfl rfl), ?_, ?_⟩
  · rw [hmerge]
    decide +kernel
  · decide +kernel

end Session

end LinkCheck
