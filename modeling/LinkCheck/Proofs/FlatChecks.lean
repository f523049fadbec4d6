import LinkCheck.Archive.Packing
import LinkCheck.Proofs.ClasspathViews
import LinkCheck.Proofs.CompleteClosures
import LinkCheck.Proofs.PlainClasses
import LinkCheck.Proofs.ThreadedChecks
import LinkCheck.Proofs.WrittenClassFiles
import LinkCheck.Session

/-!
# A check sees one flat classpath

A plugin is linked against a caching source over a union of layers, one of which is what the plugin sees in
its closure, made at some earlier time and kept since. All this comes down to one list of sources, of which
the first that contains a name answers for it. What was checked before in the session makes no difference.

## Main definitions

- `DependencyGraph.Sees` — a source that stands for what a plugin sees
- `Session.searched` — the sources in which a check looks for a class, in order
- `Session.Orderly` — what is assumed of the plugins and targets of a session
- `Session.afterChecks` — a session after some checks

## Main results

- `DependencyGraph.sees_resolve` — the source of a closure stands for what the plugin sees
- `Session.linked_flat` — what is found when a plugin is linked
- `Session.verify_flat` — what a check gives, whatever was checked before
-/

namespace LinkCheck

namespace DependencyGraph

open Expansion

variable {graph : DependencyGraph} {inventory : Inventory} {files : FileTree} {plugin : Plugin}

/-- A source that stands for what a plugin with these dependencies sees. -/
structure Sees (graph : DependencyGraph) (inventory : Inventory) (files : FileTree)
    (plugin : Plugin) (dependencies : List Plugin) (source : ClassSource) : Prop where
  grounded : source.Grounded inventory files
  layers : (∀ layer ∈ graph.layers plugin dependencies, layer.Definite files) →
    ClassSource.Layers files (graph.layers plugin dependencies) source

/-- What holds of the closure of a plugin. -/
structure Resolved (graph : DependencyGraph) (inventory : Inventory) (files : FileTree)
    (plugin : Plugin) (closure : Closure) : Prop where
  lists : graph.Lists plugin closure.dependencies
  missing : closure.missing = (graph.direct plugin).missing
  sees : graph.Sees inventory files plugin closure.dependencies closure.source

/-- Resolving a closure keeps what is known right, and gives all that the plugin reaches with a source for
what it sees. The source may have been made before. -/
theorem sees_resolve {known : Plugin → Prop} {state : ClosureState} {shelf : Shelf}
    (law : graph.Lawful known) (hplugin : known plugin) (htruthful : shelf.Truthful inventory)
    (hlayers : ∀ dependencies, graph.Lists plugin dependencies →
      ∀ layer ∈ graph.layers plugin dependencies, layer.Grounded inventory shelf.files)
    (h : state.Sound graph known (graph.Sees inventory shelf.files)) :
    (∀ closure, (runWith (graph.resolve plugin) state shelf).1.1 = .ok closure →
        graph.Resolved inventory shelf.files plugin closure) ∧
      (runWith (graph.resolve plugin) state shelf).1.2.Sound graph known
        (graph.Sees inventory shelf.files) ∧
      shelf.Keeps inventory (runWith (graph.resolve plugin) state shelf).2 := by
  have hunion : ∀ dependencies, graph.Lists plugin dependencies → _ :=
    fun dependencies hlists => ClassSource.layers_unionOf htruthful (hlayers dependencies hlists)
  obtain ⟨hresolved, hsound, hshelf⟩ := sound_resolve law hplugin h shelf
    fun dependencies hlists => ⟨(hunion dependencies hlists).1, (hunion dependencies hlists).2.1⟩
  refine ⟨fun closure hclosure => ?_, hsound, ?_⟩
  · obtain ⟨hlists, hmissing, hsees⟩ := hresolved closure hclosure
    exact ⟨hlists, hmissing, hsees⟩
  · obtain hsame | ⟨dependencies, hlists, hmade⟩ := hshelf
    · rw [hsame]
      exact .refl htruthful
    · rw [hmade]
      exact (hunion dependencies hlists).2.2

/-- Tolerating cycles, every plugin has a closure. -/
theorem resolve_degrade_ok {known : Plugin → Prop} {state : ClosureState}
    {sees : Plugin → List Plugin → ClassSource → Prop} (law : graph.Lawful known)
    (hpolicy : graph.policy = .degrade) (hplugin : known plugin)
    (h : state.Sound graph known sees) (shelf : Shelf) :
    ∃ closure, (runWith (graph.resolve plugin) state shelf).1.1 = .ok closure := by
  obtain ⟨dependencies, after, hok⟩ := transitive_degrade_ok law hpolicy hplugin h
  obtain ⟨closure, hclosure, _⟩ := exists_resolve_ok hok shelf
  exact ⟨closure, hclosure⟩

end DependencyGraph

namespace Session

/-- The sources in which a check looks for a class, in order. -/
def searched (plugin : Plugin) (target : Target) (dependencies : List Plugin) : List ClassSource :=
  [plugin.classes, plugin.libraries, target.platform.classes] ++
    dependencies.flatMap (fun dependency => [dependency.classes, dependency.libraries]) ++
    [target.runtime, target.external]

variable {inventory : Inventory} {plugin : Plugin} {target : Target} {closure : Closure}

/-- The layers of a check answer like the sources that are searched, whatever is asked of each: what the
plugin sees only repeats its classes and those of the platform. -/
theorem findSome?_layers {graph : DependencyGraph} (hplatform : graph.platform = target.platform)
    (tell : ClassSource → Option FindResult)
    (hsource : tell closure.source =
      (graph.layers plugin closure.dependencies).findSome? tell) :
    (layers plugin closure target).findSome? tell =
      (searched plugin target closure.dependencies).findSome? tell := by
  simp only [layers, searched, DependencyGraph.layers, hplatform, List.findSome?_cons,
    List.findSome?_append, List.cons_append, List.nil_append, List.findSome?_nil] at hsource ⊢
  rw [hsource]
  -- Where the classes of the plugin and those of the platform are silent, only the dependencies are left
  -- of what the plugin sees.
  cases tell plugin.classes with
  | some result => rfl
  | none =>
    cases tell plugin.libraries with
    | some result => rfl
    | none =>
      cases tell target.platform.classes with
      | some result => rfl
      | none =>
        cases closure.dependencies.flatMap
            (fun dependency => [dependency.classes, dependency.libraries])
          |>.findSome? tell with
        | some result => rfl
        | none => rfl

theorem mem_searched_of_mem_layers {graph : DependencyGraph} {dependencies : List Plugin}
    {layer : ClassSource} (hplatform : graph.platform = target.platform)
    (h : layer ∈ graph.layers plugin dependencies) :
    layer ∈ searched plugin target dependencies := by
  simp only [DependencyGraph.layers, hplatform, searched, List.mem_cons, List.mem_append] at h ⊢
  tauto

/-- A union of the layers of a check finds what the first of the sources that are searched holds. -/
theorem alike_flat {files : FileTree} {graph : DependencyGraph} {union : ClassSource}
    (hplatform : graph.platform = target.platform)
    (hcoherent : ∀ source ∈ searched plugin target closure.dependencies, source.Coherent files)
    (hsees : graph.Sees inventory files plugin closure.dependencies closure.source)
    (hlayers : (∀ layer ∈ layers plugin closure target, layer.Definite files) →
      ClassSource.Layers files (layers plugin closure target) union) :
    union.Definite files ∧
      (union.view files).Alike (.flat files (searched plugin target closure.dependencies)) := by
  have hseen := hsees.layers fun layer hlayer =>
    (hcoherent layer (mem_searched_of_mem_layers hplatform hlayer)).definite
  have hall := hlayers fun layer hlayer => by
    have hcases : layer = closure.source ∨ layer ∈ searched plugin target closure.dependencies := by
      simp only [layers, searched, List.mem_cons, List.mem_append, List.not_mem_nil,
        or_false] at hlayer ⊢
      tauto
    rcases hcases with rfl | hsearched
    · exact hseen.definite
    · exact (hcoherent layer hsearched).definite
  refine ⟨hall.definite, fun name => ?_⟩
  rw [ClassSource.find_view, Classpath.find_flat hcoherent, hall.told,
    findSome?_layers hplatform (ClassSource.told? files name) (hseen.told name)]

theorem run_linked (plugin : Plugin) (closure : Closure) (target : Target) (options : Options)
    (shelf : Shelf) : (linked plugin closure target options).run shelf =
      let union := (ClassSource.unionOf (layers plugin closure target)).run shelf
      let effective := ClassSource.caching union.2.nextId union.1
      let checked :=
        (plugin.classes.verifyAgainst effective options).run (Shelf.freshId.run union.2).2
      (checked.1, (effective.close.run checked.2).2) := rfl

/-- A check against a caching source that is new and given up afterwards. While it lasts, the source counts
among those that are known. -/
theorem verifyAgainst_cached {classes union : ClassSource} {shelf : Shelf} (options : Options)
    (htruthful : shelf.Truthful inventory) (hclasses : classes.Grounded inventory shelf.files)
    (hunion : union.Grounded inventory shelf.files) :
    let effective := ClassSource.caching shelf.nextId union
    let checked := (classes.verifyAgainst effective options).run (Shelf.freshId.run shelf).2
    (classes.Definite shelf.files → union.Definite shelf.files →
        checked.1 =
          LinkCheck.verify (classes.view shelf.files) (union.view shelf.files) options) ∧
      shelf.Keeps inventory (effective.close.run checked.2).2 := by
  intro effective checked
  have hknown := htruthful.known_withCaching union
  have htruthfulNow := htruthful.withCaching union
  have hclassesNow : classes.Grounded (inventory.withCaching shelf.nextId union)
      (Shelf.freshId.run shelf).2.files := hclasses.mono hknown
  have heffective : effective.Grounded (inventory.withCaching shelf.nextId union)
      (Shelf.freshId.run shelf).2.files := hunion.withCaching htruthful
  obtain ⟨hresult, hchecked⟩ := hclassesNow.run_verifyAgainst heffective htruthfulNow options
  have hclosed := heffective.close _ hchecked.files hchecked.truthful
  refine ⟨fun hdefinite hunionDefinite => ?_,
    (Shelf.Keeps.freshId htruthful).trans ((hchecked.trans hclosed).of_known hknown)⟩
  rw [← ClassSource.view_caching shelf.files shelf.nextId union]
  exact hresult hdefinite (hunionDefinite.caching_source shelf.nextId)

/-- Linking a plugin keeps what is remembered right. Where the sources that are searched are coherent, what
is found is what is found against the first of them that contains a name. -/
theorem linked_flat {graph : DependencyGraph} {shelf : Shelf} (options : Options)
    (htruthful : shelf.Truthful inventory) (hplatform : graph.platform = target.platform)
    (hlayers : ∀ layer ∈ layers plugin closure target, layer.Grounded inventory shelf.files)
    (hsees : graph.Sees inventory shelf.files plugin closure.dependencies closure.source) :
    ((∀ source ∈ searched plugin target closure.dependencies, source.Coherent shelf.files) →
        ((linked plugin closure target options).run shelf).1 =
          LinkCheck.verify (plugin.classes.view shelf.files)
            (.flat shelf.files (searched plugin target closure.dependencies)) options) ∧
      shelf.Keeps inventory ((linked plugin closure target options).run shelf).2 := by
  obtain ⟨hunion, hlayered, hmade⟩ := ClassSource.layers_unionOf htruthful hlayers
  rw [run_linked]
  generalize (ClassSource.unionOf (layers plugin closure target)).run shelf = made
    at hunion hlayered hmade ⊢
  have hclasses := hlayers plugin.classes List.mem_cons_self
  rw [← hmade.files] at hclasses hunion
  obtain ⟨hresult, hchecked⟩ := verifyAgainst_cached options hmade.truthful hclasses hunion
  refine ⟨fun hcoherent => ?_, hmade.trans hchecked⟩
  obtain ⟨hdefinite, hflat⟩ := alike_flat hplatform hcoherent hsees hlayered
  rw [hmade.files] at hresult
  exact (hresult (hcoherent _ List.mem_cons_self).definite hdefinite).trans
    (verify_alike options rfl (fun _ => rfl) hflat)

/-- What the closure of a plugin is in a session, and what the session keeps. -/
theorem runWith_closure (plugin : Plugin) (platform : Platform) (session : Session)
    (shelf : Shelf) :
    runWith (Session.closure plugin platform) session shelf =
      let resolved := runWith ((session.graphOf platform).resolve plugin)
        (session.closuresOf platform) shelf
      ((resolved.1.1.mapError .closure, session.keepClosures platform resolved.1.2),
        resolved.2) := by
  rw [Session.closure, runWith_bind, runWith_getThe]
  dsimp only
  rw [runWith_bind, runWith_liftM]
  rcases hresolved : runWith ((session.graphOf platform).resolve plugin)
    (session.closuresOf platform) shelf with ⟨⟨failure | closure, after⟩, shelf'⟩
  · rw [runWith] at hresolved
    simp only [hresolved, runWith_bind, runWith_modifyThe, runWith_throw]
    rfl
  · rw [runWith] at hresolved
    simp only [hresolved, runWith_bind, runWith_modifyThe, runWith_pure]
    rfl

/-- A session has a closure where there is one. -/
theorem closure_eq_ok_iff {platform : Platform} {session : Session} {shelf : Shelf} :
    (runWith (Session.closure plugin platform) session shelf).1.1 = .ok closure ↔
      (runWith ((session.graphOf platform).resolve plugin) (session.closuresOf platform)
        shelf).1.1 = .ok closure := by
  rw [runWith_closure]
  rcases runWith ((session.graphOf platform).resolve plugin) (session.closuresOf platform) shelf with
    ⟨⟨failure | resolved, after⟩, shelf'⟩
  · simp [Except.mapError]
  · simp [Except.mapError]

/-- A check is the closure followed by linking. -/
theorem runWith_verify (plugin : Plugin) (target : Target) (session : Session) (shelf : Shelf) :
    runWith (verify plugin target) session shelf =
      match runWith (Session.closure plugin target.platform) session shelf with
      | ((.ok closure, after), shelf) =>
        let found := (linked plugin closure target after.options).run shelf
        ((.ok (addMissing plugin closure.missing found.1), after), found.2)
      | ((.error failure, after), shelf) => ((.error failure, after), shelf) := by
  rw [verify, runWith_bind]
  rcases runWith (Session.closure plugin target.platform) session shelf with
    ⟨⟨_ | closure, after⟩, shelf⟩
  · rfl
  · rfl

/-- What is assumed of the plugins and targets that a session has to do with: their sources are those that
an inventory knows, and keys tell plugins apart as `ident` does platforms. -/
structure Orderly (session : Session) (inventory : Inventory) (files : FileTree)
    (pairs : List (Plugin × Target)) : Prop where
  grounded : ∀ pair ∈ pairs, ∀ source ∈ [pair.1.classes, pair.1.libraries,
    pair.2.platform.classes, pair.2.runtime, pair.2.external], source.Grounded inventory files
  offered : ∀ pair ∈ pairs, ∀ other ∈ (session.graphOf pair.2.platform).plugins,
    ∀ source ∈ [other.classes, other.libraries], source.Grounded inventory files
  keys : ∀ pair ∈ pairs,
    KeysTellApart ((session.graphOf pair.2.platform).plugins ++ pairs.map Prod.fst)
  idents : ∀ pair ∈ pairs, ∀ other ∈ pairs, pair.2.platform.ident = other.2.platform.ident →
    pair.2.platform = other.2.platform

/-- What holds of the closures that are kept for a platform. -/
def SoundClosures (session : Session) (inventory : Inventory) (files : FileTree)
    (pairs : List (Plugin × Target)) (platform : Platform) (state : ClosureState) : Prop :=
  state.Sound (session.graphOf platform)
    (· ∈ (session.graphOf platform).plugins ++ pairs.map Prod.fst)
    ((session.graphOf platform).Sees inventory files)

/-- What holds of a session after checks of some pairs. -/
structure Kept (start : Session) (inventory : Inventory) (files : FileTree)
    (pairs : List (Plugin × Target)) (session : Session) : Prop where
  options : session.options = start.options
  catalog : session.catalog = start.catalog
  closures : ∀ {version : String} {known : PlatformClosures},
    session.closures.get? version = some known →
      (∃ pair ∈ pairs, known.platform = pair.2.platform) ∧
        start.SoundClosures inventory files pairs known.platform known.state

namespace Kept

variable {start session : Session} {files : FileTree} {pairs : List (Plugin × Target)}

theorem start_of_fresh (h : start.closures = {}) : Kept start inventory files pairs start where
  options := rfl
  catalog := rfl
  closures := fun hknown => by
    rw [h, Table.get?_empty] at hknown
    cases hknown

theorem graphOf_eq (h : Kept start inventory files pairs session) (platform : Platform) :
    session.graphOf platform = start.graphOf platform := by
  rw [graphOf, graphOf, h.options, h.catalog]

/-- What is known of a platform was found out on this platform, even if others carry its version. -/
theorem closuresOf (h : Kept start inventory files pairs session)
    (horderly : start.Orderly inventory files pairs) {pair : Plugin × Target} (hpair : pair ∈ pairs) :
    start.SoundClosures inventory files pairs pair.2.platform
      (session.closuresOf pair.2.platform) := by
  unfold Session.closuresOf
  split
  · next known hknown =>
    obtain ⟨⟨other, hother, hplatform⟩, hsound⟩ := h.closures hknown
    split
    · -- The version is that of the platform, and so is the identity.
      next hident =>
      have hsame : known.platform = pair.2.platform := by
        rw [hplatform] at hident ⊢
        exact horderly.idents other hother pair hpair hident
      rwa [hsame] at hsound
    · exact .empty _ _ _
  · exact .empty _ _ _

theorem keepClosures (h : Kept start inventory files pairs session) {pair : Plugin × Target}
    (hpair : pair ∈ pairs) {state : ClosureState}
    (hstate : start.SoundClosures inventory files pairs pair.2.platform state) :
    Kept start inventory files pairs (session.keepClosures pair.2.platform state) where
  options := h.options
  catalog := h.catalog
  closures := fun {version known} hknown => by
    rw [Session.keepClosures, Table.get?_insert] at hknown
    split at hknown
    · cases hknown
      exact ⟨⟨pair, hpair, rfl⟩, hstate⟩
    · exact h.closures hknown

end Kept

section Steps

variable {start session : Session} {shelf : Shelf} {pairs : List (Plugin × Target)}

/-- Asking for a closure keeps what the session knows right, and gives all that the plugin reaches. -/
theorem closure_step (horderly : start.Orderly inventory shelf.files pairs)
    (hkept : Kept start inventory shelf.files pairs session) (htruthful : shelf.Truthful inventory)
    (hpair : (plugin, target) ∈ pairs) :
    (∀ closure, (runWith (Session.closure plugin target.platform) session shelf).1.1 = .ok closure →
        (start.graphOf target.platform).Resolved inventory shelf.files plugin closure) ∧
      Kept start inventory shelf.files pairs
        (runWith (Session.closure plugin target.platform) session shelf).1.2 ∧
      shelf.Keeps inventory
        (runWith (Session.closure plugin target.platform) session shelf).2 := by
  have hlayers : ∀ dependencies, (start.graphOf target.platform).Lists plugin dependencies →
      ∀ layer ∈ (start.graphOf target.platform).layers plugin dependencies,
        layer.Grounded inventory shelf.files := by
    intro dependencies hlists layer hlayer
    rcases List.mem_cons.1 hlayer with rfl | hlayer
    · exact horderly.grounded _ hpair _ (by simp)
    rcases List.mem_cons.1 hlayer with rfl | hlayer
    · exact horderly.grounded _ hpair _ (by simp [graphOf])
    obtain ⟨other, hother, hsource⟩ := List.mem_flatMap.1 hlayer
    have hreached := ((hlists.mem_iff other).1 hother).2
    exact horderly.offered _ hpair other hreached.mem_plugins layer hsource
  have hknown : plugin ∈ (start.graphOf target.platform).plugins ++ pairs.map Prod.fst :=
    List.mem_append_right _ (List.mem_map_of_mem hpair)
  obtain ⟨hresolved, hsound, hkeeps⟩ := DependencyGraph.sees_resolve
    (DependencyGraph.lawful_of_keysTellApart (horderly.keys _ hpair)) hknown htruthful hlayers
    (hkept.closuresOf horderly hpair)
  refine ⟨fun closure hclosure => hresolved closure ?_, ?_, ?_⟩
  · rw [← hkept.graphOf_eq]
    exact closure_eq_ok_iff.1 hclosure
  · rw [runWith_closure, hkept.graphOf_eq]
    exact hkept.keepClosures hpair hsound
  · rw [runWith_closure, hkept.graphOf_eq]
    exact hkeeps

/-- Tolerating cycles, a session has a closure for every plugin. -/
theorem closure_degrade_ok (horderly : start.Orderly inventory shelf.files pairs)
    (hkept : Kept start inventory shelf.files pairs session) (hpair : (plugin, target) ∈ pairs)
    (hpolicy : start.options.cyclePolicy = .degrade) (now : Shelf) :
    ∃ closure, (runWith (Session.closure plugin target.platform) session now).1.1 =
      .ok closure := by
  obtain ⟨closure, hclosure⟩ := DependencyGraph.resolve_degrade_ok
    (DependencyGraph.lawful_of_keysTellApart (horderly.keys _ hpair)) hpolicy
    (List.mem_append_right _ (List.mem_map_of_mem hpair)) (hkept.closuresOf horderly hpair) now
  refine ⟨closure, closure_eq_ok_iff.2 ?_⟩
  rw [hkept.graphOf_eq]
  exact hclosure

/-- A check keeps what the session knows right. Where the sources that are searched are coherent, it finds
what is found against the first of them that contains a name. -/
theorem verify_step (horderly : start.Orderly inventory shelf.files pairs)
    (hkept : Kept start inventory shelf.files pairs session) (htruthful : shelf.Truthful inventory)
    (hpair : (plugin, target) ∈ pairs) :
    ((∀ dependencies, (start.graphOf target.platform).Lists plugin dependencies →
        ∀ source ∈ searched plugin target dependencies, source.Coherent shelf.files) →
        (runWith (verify plugin target) session shelf).1.1 =
          (runWith (Session.closure plugin target.platform) session shelf).1.1.map fun closure =>
            addMissing plugin ((start.graphOf target.platform).direct plugin).missing
              (LinkCheck.verify (plugin.classes.view shelf.files)
                (.flat shelf.files (searched plugin target closure.dependencies)) start.options)) ∧
      Kept start inventory shelf.files pairs (runWith (verify plugin target) session shelf).1.2 ∧
      shelf.Keeps inventory (runWith (verify plugin target) session shelf).2 := by
  obtain ⟨hresolved, hafter, hkeeps⟩ := closure_step horderly hkept htruthful hpair
  rw [runWith_verify]
  rcases hclosure : runWith (Session.closure plugin target.platform) session shelf with
    ⟨⟨failure | closure, after⟩, shelf'⟩
  · rw [hclosure] at hafter hkeeps
    exact ⟨fun _ => rfl, hafter, hkeeps⟩
  · rw [hclosure] at hresolved hafter hkeeps
    have hclosed := hresolved closure rfl
    have hlayers : ∀ layer ∈ layers plugin closure target,
        layer.Grounded inventory shelf'.files := by
      intro layer hlayer
      rw [hkeeps.files]
      by_cases hsource : layer = closure.source
      · rw [hsource]
        exact hclosed.sees.grounded
      · refine horderly.grounded _ hpair layer ?_
        simp only [layers, List.mem_cons, List.not_mem_nil, or_false] at hlayer ⊢
        tauto
    have hsees := hclosed.sees
    rw [← hkeeps.files] at hsees
    obtain ⟨hflat, hlinked⟩ := linked_flat after.options hkeeps.truthful rfl hlayers hsees
    refine ⟨fun hcoherent => ?_, hafter, hkeeps.trans hlinked⟩
    rw [hkeeps.files] at hflat
    have hfound := hflat (hcoherent closure.dependencies hclosed.lists)
    rw [hafter.options] at hfound
    change Except.ok (addMissing plugin closure.missing
      ((linked plugin closure target after.options).run shelf').1) = _
    rw [hafter.options, hfound, hclosed.missing]
    rfl

end Steps

/-- A session and the shelf after the check of a pair, whatever the check gave. -/
def afterCheck (before : Session × Shelf) (pair : Plugin × Target) : Session × Shelf :=
  let answer := runWith (verify pair.1 pair.2) before.1 before.2
  (answer.1.2, answer.2)

/-- A session and the shelf after the checks of some pairs. -/
def afterChecks (before : Session × Shelf) (history : List (Plugin × Target)) : Session × Shelf :=
  history.foldl afterCheck before

/-- What a session knows is right after any checks. -/
theorem kept_afterChecks {start session : Session} {shelf : Shelf}
    {pairs history : List (Plugin × Target)} (horderly : start.Orderly inventory shelf.files pairs)
    (hhistory : ∀ pair ∈ history, pair ∈ pairs)
    (hkept : Kept start inventory shelf.files pairs session)
    (htruthful : shelf.Truthful inventory) :
    Kept start inventory shelf.files pairs (afterChecks (session, shelf) history).1 ∧
      shelf.Keeps inventory (afterChecks (session, shelf) history).2 := by
  induction history generalizing session shelf with
  | nil => exact ⟨hkept, .refl htruthful⟩
  | cons pair history ih =>
    -- The shelf changes, but not the files that all conditions speak of.
    obtain ⟨_, hnext, hkeeps⟩ :=
      verify_step horderly hkept htruthful (hhistory pair List.mem_cons_self)
    rw [← hkeeps.files] at horderly hnext
    obtain ⟨hafter, hrest⟩ := ih horderly (fun other hother => hhistory other (.tail _ hother))
      hnext hkeeps.truthful
    rw [hkeeps.files] at hafter
    exact ⟨hafter, hkeeps.trans hrest⟩

/-- What a plugin needs and is not to be had: modules, then plugins that are not optional, each in the order
in which they are declared. -/
def unmet (graph : DependencyGraph) (plugin : Plugin) : List String :=
  (plugin.moduleDependencies.filter fun module => (graph.platform.pluginByModule? module).isNone) ++
    (plugin.dependencies.filter fun dependency =>
      (graph.pluginById? dependency.id).isNone && !dependency.isOptional).map Dependency.id

theorem addMissing_direct (graph : DependencyGraph) (plugin : Plugin) (problems : ProblemSet) :
    addMissing plugin (graph.direct plugin).missing problems =
      (unmet graph plugin).foldl
        (fun problems id => problems.add (.missingDependency id) (.plugin plugin.id)) problems := by
  have hids : unmet graph plugin = (graph.direct plugin).missing.map Dependency.id := by
    simp [unmet, DependencyGraph.direct, Function.comp_def]
  rw [hids, List.foldl_map]
  rfl

/-- Whatever was checked before in a session, a check fails only as the closure of the plugin does, which is
never where cycles are tolerated. Otherwise the closure lists all that the plugin reaches, and the check
gives what linking the classes of the plugin finds against the first of the sources that are searched
which contains a name, followed by what the plugin needs and is not to be had. Each lookup starts from what
the lookups before it have left in caches, remembered answers and open archives. -/
theorem verify_flat {start : Session} (hfresh : start.closures = {}) {shelf : Shelf}
    (htruthful : shelf.Truthful inventory) (history : List (Plugin × Target))
    (horderly : start.Orderly inventory shelf.files ((plugin, target) :: history))
    (hcoherent : ∀ source ∈ [plugin.classes, plugin.libraries, target.platform.classes,
      target.runtime, target.external], source.Coherent shelf.files)
    (hreached : ∀ other, (start.graphOf target.platform).Reaches plugin other →
      ∀ source ∈ [other.classes, other.libraries], source.Coherent shelf.files) :
    let now := afterChecks (start, shelf) history
    let resolved := (runWith (Session.closure plugin target.platform) now.1 now.2).1.1
    (start.options.cyclePolicy = .degrade → ∃ closure, resolved = .ok closure) ∧
      (∀ closure, resolved = .ok closure →
        (start.graphOf target.platform).Lists plugin closure.dependencies) ∧
      (runWith (verify plugin target) now.1 now.2).1.1 = resolved.map fun closure =>
        (unmet (start.graphOf target.platform) plugin).foldl
          (fun problems id => problems.add (.missingDependency id) (.plugin plugin.id))
          (LinkCheck.verify (plugin.classes.view shelf.files)
            (.flat shelf.files (searched plugin target closure.dependencies)) start.options) := by
  intro now resolved
  obtain ⟨hkept, hkeeps⟩ := kept_afterChecks horderly (fun pair hpair => .tail _ hpair)
    (.start_of_fresh hfresh) htruthful
  rw [← hkeeps.files] at horderly hkept hcoherent hreached ⊢
  obtain ⟨hresolved, _⟩ := closure_step horderly hkept hkeeps.truthful List.mem_cons_self
  obtain ⟨hverify, _⟩ := verify_step horderly hkept hkeeps.truthful List.mem_cons_self
  refine ⟨fun hpolicy => closure_degrade_ok horderly hkept List.mem_cons_self hpolicy _,
    fun closure hclosure => (hresolved closure hclosure).lists, ?_⟩
  simp only [← addMissing_direct]
  refine hverify fun dependencies hlists source hsource => ?_
  rcases List.mem_append.1 hsource with hsource | hsource
  · rcases List.mem_append.1 hsource with hsource | hsource
    · exact hcoherent source (List.mem_append_left [target.runtime, target.external] hsource)
    · obtain ⟨other, hother, hlayer⟩ := List.mem_flatMap.1 hsource
      exact hreached other ((hlists.mem_iff other).1 hother).2 source hlayer
  · exact hcoherent source (.tail _ (.tail _ (.tail _ hsource)))

/-- An archive that is read on demand and keeps only the class that was read last. -/
def forgetfulJar (path : String) (names : List String) : IndexedArchive where
  path := path
  entries := ⟨names.map fun name => (⟨name⟩, name ++ ".class")⟩
  hasDescriptor := false
  capacity := 1

/-- A plugin of two classes, another with the superclasses of both, of which one may not be extended, and a
runtime library in which the other may not be extended either. -/
def jarFiles : FileTree :=
  .ofEntries [
    ("client.jar", Archive.pack [
      ("p/Main.class", (ClassFile.plain "p/Main" "q/Base").write),
      ("p/Next.class", (ClassFile.plain "p/Next" "q/Sealed").write)]),
    ("library.jar", Archive.pack [
      ("q/Base.class", (ClassFile.plain "q/Base" "java/lang/Object").write),
      ("q/Sealed.class", (ClassFile.sealed "q/Sealed" "q/Base").write)]),
    ("runtime.jar", Archive.pack [
      ("java/lang/Object.class", ClassFile.root.write),
      ("q/Base.class", (ClassFile.sealed "q/Base" "java/lang/Object").write)])]

def libraryPlugin : Plugin where
  id := "library"
  version := "1"
  classes := .indexed 0 (forgetfulJar "library.jar" ["q/Base", "q/Sealed"])
  libraries := .empty 1

/-- A plugin that needs the library, and another plugin that is nowhere to be had. -/
def clientPlugin : Plugin where
  id := "client"
  version := "1"
  dependencies := [{ id := "library", isOptional := false }, { id := "nobody", isOptional := false }]
  classes := .indexed 2 (forgetfulJar "client.jar" ["p/Main", "p/Next"])
  libraries := .empty 3

/-- A platform of version 1 with some plugins, and the runtime library. -/
def targetWith (ident : Nat) (plugins : List Plugin) : Target where
  platform := { ident, version := "1", classes := .empty 4, plugins }
  runtime := .indexed 5 (forgetfulJar "runtime.jar" ["java/lang/Object", "q/Base"])
  external := .empty 6

/-- The sources with these numbers. -/
def jarInventory : Inventory
  | 0 => some libraryPlugin.classes
  | 2 => some clientPlugin.classes
  | 5 => some (targetWith 0 []).runtime
  | _ => none

def jarShelf : Shelf :=
  { files := jarFiles, nextId := 7 }

theorem truthful_jarShelf : jarShelf.Truthful jarInventory := by
  refine .blank fun id source hsource => ?_
  unfold jarInventory at hsource
  split at hsource
  · decide
  · decide
  · decide
  · cases hsource

theorem orderly_jars (ident other : Nat) (h : ident ≠ other) :
    Orderly {} jarInventory jarFiles
      [(clientPlugin, targetWith ident [libraryPlugin]), (clientPlugin, targetWith other [])] where
  grounded := by
    simp only [List.forall_mem_cons]
    exact ⟨⟨.indexed rfl, .empty 3, .empty 4, .indexed rfl, .empty 6, List.forall_mem_nil _⟩,
      ⟨.indexed rfl, .empty 3, .empty 4, .indexed rfl, .empty 6, List.forall_mem_nil _⟩,
      List.forall_mem_nil _⟩
  offered := by
    simp only [List.forall_mem_cons]
    refine ⟨fun bundled hbundled => ?_, List.forall_mem_nil _, List.forall_mem_nil _⟩
    obtain rfl := List.mem_singleton.1 hbundled
    exact ⟨.indexed rfl, .empty 1, List.forall_mem_nil _⟩
  keys := by
    simp [KeysTellApart, DependencyGraph.plugins, graphOf, targetWith, clientPlugin, libraryPlugin,
      Plugin.key]
  idents := by
    simp [targetWith, h, h.symm]

set_option maxRecDepth 20000 in
/-- A check after one on another platform of the same version, without the library. By then each archive that
was asked has read two classes and given up one of them, and the final class of the runtime library has been
the superclass of the first class of the plugin. Now the class of the library stands before it. -/
theorem verify_flat_shadowed :
    let start : Session := {}
    let target := targetWith 1 [libraryPlugin]
    let now := afterChecks (start, jarShelf) [(clientPlugin, targetWith 0 [])]
    jarShelf.Truthful jarInventory ∧
      start.Orderly jarInventory jarFiles [(clientPlugin, target), (clientPlugin, targetWith 0 [])] ∧
      now.2.archives.entries.map (fun entry => (entry.1, entry.2.cache.stats)) =
        [(2, { misses := 2, evictions := 1 }), (5, { misses := 2, evictions := 1 })] ∧
      (runWith (verify clientPlugin (targetWith 0 [])) start jarShelf).1.1.toOption.map ProblemSet.problems =
        some [.inheritFromFinalClass ⟨"p/Main"⟩ ⟨"q/Base"⟩,
          .superClassNotFound ⟨"p/Next"⟩ ⟨"q/Sealed"⟩, .missingDependency "library",
          .missingDependency "nobody"] ∧
      (runWith (verify clientPlugin target) now.1 now.2).1.1.toOption.map ProblemSet.problems =
        some [.inheritFromFinalClass ⟨"p/Next"⟩ ⟨"q/Sealed"⟩, .missingDependency "nobody"] := by
  intro start target now
  have hcoherent : ∀ source ∈ [clientPlugin.classes, clientPlugin.libraries, target.platform.classes,
      target.runtime, target.external], source.Coherent jarFiles := by
    simp only [List.forall_mem_cons]
    exact ⟨.indexed_archive _ _ _, .empty_source _ _, .empty_source _ _, .indexed_archive _ _ _,
      .empty_source _ _, List.forall_mem_nil _⟩
  have hreached : ∀ other, (start.graphOf target.platform).Reaches clientPlugin other →
      other = libraryPlugin :=
    fun other hother => List.mem_singleton.1 hother.mem_plugins
  have horderly := orderly_jars 1 0 (by decide)
  obtain ⟨hok, hlists, hverify⟩ := verify_flat rfl truthful_jarShelf _ horderly hcoherent
    fun other hother source hsource => by
      rw [hreached other hother] at hsource
      revert source
      simp only [List.forall_mem_cons]
      exact ⟨.indexed_archive _ _ _, .empty_source _ _, List.forall_mem_nil _⟩
  obtain ⟨closure, hclosure⟩ := hok rfl
  have hlisted := hlists closure hclosure
  have hdependencies : closure.dependencies = [libraryPlugin] := by
    refine List.perm_singleton.1 ((List.perm_ext_iff_of_nodup (.of_map _ hlisted.nodup)
      (List.nodup_singleton _)).2 fun other => ?_)
    rw [hlisted.mem_iff, List.mem_singleton]
    refine ⟨fun hother => hreached other hother.2, ?_⟩
    rintro rfl
    exact ⟨fun h => absurd (congrArg Plugin.id h) (by decide), .single List.mem_cons_self⟩
  have hearlier : now.2.archives.entries.map (fun entry => (entry.1, entry.2.cache.stats)) =
        [(2, { misses := 2, evictions := 1 }), (5, { misses := 2, evictions := 1 })] ∧
      (runWith (verify clientPlugin (targetWith 0 [])) start jarShelf).1.1.toOption.map ProblemSet.problems =
        some [.inheritFromFinalClass ⟨"p/Main"⟩ ⟨"q/Base"⟩,
          .superClassNotFound ⟨"p/Next"⟩ ⟨"q/Sealed"⟩, .missingDependency "library",
          .missingDependency "nobody"] := by decide +kernel
  refine ⟨truthful_jarShelf, horderly, hearlier.1, hearlier.2, ?_⟩
  rw [hverify, hclosure, Except.map, hdependencies]
  decide +kernel

end Session

end LinkCheck
