import LinkCheck.Hierarchy.Resolution
import Mathlib.Data.List.Chain
import Mathlib.Data.List.TakeWhile
import Mathlib.Logic.Relation

/-!
# Supertypes

A walk that does not break off has gone to all classes that can be reached, and to no others. So the
superclasses and superinterfaces of a class are what relations say that speak of loading alone, and not of
the order in which names come up or of names that were seen before.

## Main definitions

- `Classpath.Leads` — a class names another, which can be loaded
- `Classpath.Extends`, `Classpath.Implements` — direct superclasses and direct superinterfaces
- `Classpath.Superinterface` — all superinterfaces of a class
- `Classpath.Supertype`, `Classpath.Acyclic` — direct supertypes, and that no class is its own supertype

## Main results

- `Classpath.reached_of_mem_walk`, `Classpath.closed_of_walk` — what walks go to
- `Classpath.mem_classChain_iff` — a complete chain holds the superclasses
- `Classpath.mem_superinterfaces_iff` — the interfaces of a class are its superinterfaces
- `Classpath.acyclic_of_rank` — no class is its own supertype if names can be ranked
-/

namespace LinkCheck

namespace Classpath

open Relation

variable {classpath : Classpath} {enqueue : ClassDefinition → List ClassName → List ClassName}
  {seen pending : List ClassName} {name : ClassName}
  {owner definition : ClassDefinition}

/-- A class names another as one to go to, and it can be loaded. -/
def Leads (classpath : Classpath) (next : ClassDefinition → List ClassName)
    (first second : ClassDefinition) : Prop :=
  ∃ name ∈ next first, classpath.load name = .ok second

theorem mem_of_dropWhile_eq {rest : List ClassName}
    (h : pending.dropWhile (· ∈ seen) = name :: rest) :
    name ∈ pending ∧ ∀ other ∈ rest, other ∈ pending := by
  have hsuffix : name :: rest <:+ pending := h ▸ List.dropWhile_suffix _
  exact ⟨hsuffix.subset List.mem_cons_self, fun other hother => hsuffix.subset (.tail _ hother)⟩

/-- A pending name has been seen, or it comes up. -/
theorem mem_or_of_dropWhile_eq {rest : List ClassName}
    (h : pending.dropWhile (· ∈ seen) = rest) {other : ClassName} (hother : other ∈ pending) :
    other ∈ seen ∨ other ∈ rest := by
  rw [← List.takeWhile_append_dropWhile (p := (· ∈ seen)) (l := pending), h] at hother
  obtain hseen | hrest := List.mem_append.1 hother
  · exact .inl (by simpa using List.mem_takeWhile_imp hseen)
  · exact .inr hrest

theorem not_mem_of_dropWhile_eq {rest : List ClassName}
    (h : pending.dropWhile (· ∈ seen) = name :: rest) : name ∉ seen := by
  have hhead := List.head?_dropWhile_not (· ∈ seen) pending
  rw [h] at hhead
  simpa using hhead

/-- A walk goes only to classes that the pending names lead to. -/
theorem reached_of_mem_walk (next : ClassDefinition → List ClassName)
    (hnext : ∀ definition rest, ∀ name ∈ enqueue definition rest, name ∈ rest ∨ name ∈ next definition)
    (h : definition ∈ (classpath.walk enqueue seen pending).loaded) :
    ∃ name ∈ pending, ∃ first, classpath.load name = .ok first ∧
      ReflTransGen (classpath.Leads next) first definition := by
  fun_induction walk classpath enqueue seen pending with
  | case1 seen pending hfresh => cases h
  | case2 seen pending name rest hfresh unresolved hload => cases h
  | case3 seen pending name rest hfresh first hload ih =>
    obtain ⟨hname, hrest⟩ := mem_of_dropWhile_eq hfresh
    obtain rfl | hlater := List.mem_cons.1 h
    · exact ⟨name, hname, definition, hload, .refl⟩
    · obtain ⟨other, hother, second, hsecond, hreached⟩ := ih hlater
      obtain hleft | hled := hnext first rest other hother
      · exact ⟨other, hrest other hleft, second, hsecond, hreached⟩
      · exact ⟨name, hname, first, hload, .head ⟨other, hled, hsecond⟩ hreached⟩

/-- A walk breaks off at a name that was pending, or that a class names to which it went. -/
theorem exists_of_stopped_walk (next : ClassDefinition → List ClassName)
    (hnext : ∀ definition rest, ∀ name ∈ enqueue definition rest, name ∈ rest ∨ name ∈ next definition)
    {unresolved : Unresolved} (h : (classpath.walk enqueue seen pending).stopped = some unresolved) :
    ∃ name, classpath.load name = .error unresolved ∧ (name ∈ pending ∨
      ∃ definition ∈ (classpath.walk enqueue seen pending).loaded, name ∈ next definition) := by
  fun_induction walk classpath enqueue seen pending with
  | case1 seen pending hfresh => cases h
  | case2 seen pending name rest hfresh failed hload =>
    cases h
    exact ⟨name, hload, .inl (mem_of_dropWhile_eq hfresh).1⟩
  | case3 seen pending name rest hfresh first hload ih =>
    obtain ⟨other, hother, hwaiting | ⟨definition, hloaded, hnamed⟩⟩ := ih h
    · obtain hleft | hled := hnext first rest other hwaiting
      · exact ⟨other, hother, .inl ((mem_of_dropWhile_eq hfresh).2 other hleft)⟩
      · exact ⟨other, hother, .inr ⟨first, List.mem_cons_self, hled⟩⟩
    · exact ⟨other, hother, .inr ⟨definition, .tail _ hloaded, hnamed⟩⟩

/-- The class that cannot be loaded is the one that was asked for. -/
theorem name_of_load_error {unresolved : Unresolved}
    (h : classpath.load name = .error unresolved) : unresolved.name = name := by
  unfold load at h
  split at h <;> cases h <;> rfl

/-- A walk breaks off at a name that has not been seen. -/
theorem not_mem_of_stopped_walk {unresolved : Unresolved}
    (h : (classpath.walk enqueue seen pending).stopped = some unresolved) : unresolved.name ∉ seen := by
  fun_induction walk classpath enqueue seen pending with
  | case1 seen pending hfresh => cases h
  | case2 seen pending name rest hfresh failed hload =>
    cases h
    rw [name_of_load_error hload]
    exact not_mem_of_dropWhile_eq hfresh
  | case3 seen pending name rest hfresh first hload ih =>
    exact fun hseen => ih h (.tail _ hseen)

/-- A name has been seen before a walk, or the walk loads the class. -/
def Passed (classpath : Classpath) (seen : List ClassName) (trail : Trail) (name : ClassName) : Prop :=
  name ∈ seen ∨ ∃ definition ∈ trail.loaded, classpath.load name = .ok definition

/-- A walk that does not break off passes all pending names, and all that the classes name to which it
goes. Names that are left may be dropped only where `fits` says that none can be. -/
theorem closed_of_walk (next : ClassDefinition → List ClassName) (fits : List ClassName → Prop)
    (hsuffix : ∀ {rest names : List ClassName}, rest <:+ names → fits names → fits rest)
    (hnext : ∀ {name : ClassName} {rest : List ClassName}, fits (name :: rest) → ∀ definition,
      fits (enqueue definition rest) ∧
        ∀ other, other ∈ rest ∨ other ∈ next definition → other ∈ enqueue definition rest)
    (hpending : fits pending)
    (h : (classpath.walk enqueue seen pending).stopped = none) :
    (∀ name ∈ pending, classpath.Passed seen (classpath.walk enqueue seen pending) name) ∧
      ∀ definition ∈ (classpath.walk enqueue seen pending).loaded, ∀ name ∈ next definition,
        classpath.Passed seen (classpath.walk enqueue seen pending) name := by
  fun_induction walk classpath enqueue seen pending with
  | case1 seen pending hfresh =>
    refine ⟨fun name hname => .inl ?_, fun _ hloaded => by cases hloaded⟩
    exact (mem_or_of_dropWhile_eq hfresh hname).resolve_right List.not_mem_nil
  | case2 seen pending name rest hfresh unresolved hload => cases h
  | case3 seen pending name rest hfresh first hload ih =>
    have hfits : fits (name :: rest) := hsuffix (hfresh ▸ List.dropWhile_suffix _) hpending
    obtain ⟨hlater, hkeep⟩ := hnext hfits first
    obtain ⟨hwaiting, hloaded⟩ := ih hlater h
    -- What the rest of the walk passes is passed from here, as the name itself is loaded.
    have hpassed : ∀ other, classpath.Passed (name :: seen)
        (classpath.walk enqueue (name :: seen) (enqueue first rest)) other →
        classpath.Passed seen
          ((classpath.walk enqueue (name :: seen) (enqueue first rest)).after first) other := by
      intro other hother
      obtain hseen | ⟨second, hsecond, hother⟩ := hother
      · obtain rfl | hseen := List.mem_cons.1 hseen
        · exact .inr ⟨first, List.mem_cons_self, hload⟩
        · exact .inl hseen
      · exact .inr ⟨second, .tail _ hsecond, hother⟩
    constructor
    · intro other hother
      obtain hseen | hmem := mem_or_of_dropWhile_eq hfresh hother
      · exact .inl hseen
      · obtain rfl | hrest := List.mem_cons.1 hmem
        · exact .inr ⟨first, List.mem_cons_self, hload⟩
        · exact hpassed other (hwaiting other (hkeep other (.inl hrest)))
    · intro second hsecond other hother
      obtain rfl | htail := List.mem_cons.1 hsecond
      · exact hpassed other (hwaiting other (hkeep other (.inr hother)))
      · exact hpassed other (hloaded second htail other hother)

/-- A class has another as its direct superclass. -/
def Extends (classpath : Classpath) : ClassDefinition → ClassDefinition → Prop :=
  classpath.Leads fun definition => definition.superName.toList

/-- The classes of a chain are each the superclass of the one before, under a name that has not been seen. -/
theorem isChain_walk (hpending : pending = definition.superName.toList) :
    (definition :: (classpath.walk (fun definition _ => definition.superName.toList) seen
      pending).loaded).IsChain fun first second =>
        ∃ name ∈ first.superName.toList, name ∉ seen ∧ classpath.load name = .ok second := by
  fun_induction walk classpath (fun definition _ => definition.superName.toList) seen pending
    generalizing definition with
  | case1 seen pending hfresh => exact List.isChain_singleton _
  | case2 seen pending name rest hfresh unresolved hload => exact List.isChain_singleton _
  | case3 seen pending name rest hfresh parent hload ih =>
    have hname : name ∈ definition.superName.toList := hpending ▸ (mem_of_dropWhile_eq hfresh).1
    refine List.isChain_cons_cons.2 ⟨⟨name, hname, not_mem_of_dropWhile_eq hfresh, hload⟩, ?_⟩
    refine (ih rfl).imp ?_
    rintro first second ⟨other, hother, hunseen, hsecond⟩
    exact ⟨other, hother, fun hseen => hunseen (.tail _ hseen), hsecond⟩

theorem isChain_classChain (classpath : Classpath) (owner : ClassDefinition) :
    (classpath.classChain owner).loaded.IsChain classpath.Extends := by
  refine List.IsChain.imp ?_ (isChain_walk rfl)
  rintro first second ⟨name, hname, -, hload⟩
  exact ⟨name, hname, hload⟩

theorem owner_mem_classChain (classpath : Classpath) (owner : ClassDefinition) :
    owner ∈ (classpath.classChain owner).loaded :=
  List.mem_cons_self

/-- The classes of a chain are superclasses. -/
theorem reached_of_mem_classChain (h : definition ∈ (classpath.classChain owner).loaded) :
    ReflTransGen classpath.Extends owner definition := by
  obtain rfl | hwalk := List.mem_cons.1 h
  · exact .refl
  · obtain ⟨name, hname, parent, hload, hreached⟩ :=
      reached_of_mem_walk (fun definition => definition.superName.toList)
        (fun _ _ _ hname => .inr hname) hwalk
    exact .head ⟨name, hname, hload⟩ hreached

/-- A chain breaks off where the superclass of one of its classes cannot be loaded. -/
theorem exists_of_stopped_classChain {unresolved : Unresolved}
    (h : (classpath.classChain owner).stopped = some unresolved) :
    ∃ definition, ReflTransGen classpath.Extends owner definition ∧
      ∃ name, definition.superName = some name ∧ classpath.load name = .error unresolved := by
  obtain ⟨name, hload, hnamed⟩ :=
    exists_of_stopped_walk (fun definition => definition.superName.toList)
      (fun _ _ _ hname => .inr hname) h
  obtain hfirst | ⟨definition, hloaded, hlater⟩ := hnamed
  · exact ⟨owner, .refl, name, Option.mem_toList.1 hfirst, hload⟩
  · exact ⟨definition, reached_of_mem_classChain (.tail _ hloaded), name,
      Option.mem_toList.1 hlater, hload⟩

/-- The superclass of each class on a chain that does not break off is on the chain, or it is the class where
the chain comes back to where it began. -/
theorem eq_or_exists_mem_classChain (hchain : (classpath.classChain owner).stopped = none)
    (h : definition ∈ (classpath.classChain owner).loaded)
    (hname : name ∈ definition.superName.toList) :
    name = owner.name ∨
      ∃ parent ∈ (classpath.classChain owner).loaded.tail, classpath.load name = .ok parent := by
  have hsingle : ∀ definition : ClassDefinition, definition.superName.toList.length ≤ 1 := by
    intro definition
    cases definition.superName <;> simp
  -- One name is pending at most, so none is left when the superclass of a class takes its place.
  obtain ⟨hpending, hloaded⟩ := closed_of_walk (fun definition => definition.superName.toList)
    (fun names => names.length ≤ 1) (fun hsuffix hfits => hsuffix.length_le.trans hfits)
    (fun {name rest} hfits definition => by
      have hrest : rest = [] := by simpa using hfits
      exact ⟨hsingle definition, by simp [hrest]⟩)
    (hsingle owner) hchain
  have hpassed : classpath.Passed [owner.name] (classpath.walk
      (fun definition _ => definition.superName.toList) [owner.name] owner.superName.toList)
        name := by
    obtain rfl | hlater := List.mem_cons.1 h
    · exact hpending name hname
    · exact hloaded definition hlater name hname
  exact hpassed.imp_left List.mem_singleton.1

section Complete

variable (howner : classpath.load owner.name = .ok owner)
  (hchain : (classpath.classChain owner).stopped = none)

include howner hchain

/-- The superclass of each class on a chain can be loaded, and is on the chain. -/
theorem exists_mem_classChain (h : definition ∈ (classpath.classChain owner).loaded)
    (hname : name ∈ definition.superName.toList) :
    ∃ parent ∈ (classpath.classChain owner).loaded, classpath.load name = .ok parent := by
  obtain rfl | ⟨parent, hparent, hload⟩ := eq_or_exists_mem_classChain hchain h hname
  · exact ⟨owner, classpath.owner_mem_classChain owner, howner⟩
  · exact ⟨parent, .tail _ hparent, hload⟩

/-- A chain that does not break off holds exactly the class and its superclasses. -/
theorem mem_classChain_iff : definition ∈ (classpath.classChain owner).loaded ↔
    ReflTransGen classpath.Extends owner definition := by
  refine ⟨reached_of_mem_classChain, fun hreached => ?_⟩
  induction hreached with
  | refl => exact classpath.owner_mem_classChain owner
  | tail _ hstep ih =>
    obtain ⟨name, hname, hload⟩ := hstep
    obtain ⟨parent, hparent, hother⟩ := exists_mem_classChain howner hchain ih hname
    cases hload.symm.trans hother
    exact hparent

end Complete

/-- A class has another among the interfaces that it names. -/
def Implements (classpath : Classpath) : ClassDefinition → ClassDefinition → Prop :=
  classpath.Leads ClassDefinition.interfaces

/-- An interface that a class or one of its superclasses names, or that such an interface extends. -/
def Superinterface (classpath : Classpath) (owner definition : ClassDefinition) : Prop :=
  ∃ superclass first, ReflTransGen classpath.Extends owner superclass ∧
    classpath.Implements superclass first ∧ ReflTransGen classpath.Implements first definition

/-- A walk over interfaces that does not break off loads all that it is given, and all that what it loads
extends. -/
theorem exists_mem_interfaceTrail {names : List ClassName}
    (h : (classpath.interfaceTrail names).stopped = none)
    (hname : name ∈ names ∨
      ∃ definition ∈ (classpath.interfaceTrail names).loaded, name ∈ definition.interfaces) :
    ∃ interface ∈ (classpath.interfaceTrail names).loaded, classpath.load name = .ok interface := by
  obtain ⟨hpending, hloaded⟩ := closed_of_walk ClassDefinition.interfaces (fun _ => True)
    (fun _ _ => trivial) (fun _ _ => ⟨trivial, fun _ => List.mem_append.2⟩) trivial h
  have hpassed : classpath.Passed [] (classpath.interfaceTrail names) name := by
    obtain hgiven | ⟨definition, hdefinition, hextended⟩ := hname
    · exact hpending name hgiven
    · exact hloaded definition hdefinition name hextended
  exact hpassed.resolve_left List.not_mem_nil

/-- What a walk over interfaces loads is reached from the classes that name what it is given. -/
theorem transGen_of_mem_interfaceTrail {classes : List ClassDefinition}
    (h : definition ∈ (classpath.interfaceTrail
      (classes.flatMap ClassDefinition.interfaces)).loaded) :
    ∃ superclass ∈ classes, TransGen classpath.Implements superclass definition := by
  obtain ⟨name, hname, first, hload, hreached⟩ :=
    reached_of_mem_walk ClassDefinition.interfaces (fun _ _ _ hmem => List.mem_append.1 hmem) h
  obtain ⟨superclass, hsuper, hnamed⟩ := List.mem_flatMap.1 hname
  exact ⟨superclass, hsuper, .head' ⟨name, hnamed, hload⟩ hreached⟩

/-- A walk over interfaces that does not break off loads all that can be reached. -/
theorem mem_interfaceTrail_iff {classes : List ClassDefinition}
    (h : (classpath.interfaceTrail (classes.flatMap ClassDefinition.interfaces)).stopped = none) :
    definition ∈ (classpath.interfaceTrail (classes.flatMap ClassDefinition.interfaces)).loaded ↔
      ∃ superclass ∈ classes, TransGen classpath.Implements superclass definition := by
  refine ⟨transGen_of_mem_interfaceTrail, ?_⟩
  rintro ⟨superclass, hsuper, hreached⟩
  induction hreached with
  | single hstep =>
    obtain ⟨name, hname, hload⟩ := hstep
    obtain ⟨interface, hinterface, hother⟩ :=
      exists_mem_interfaceTrail h (.inl (List.mem_flatMap.2 ⟨superclass, hsuper, hname⟩))
    cases hload.symm.trans hother
    exact hinterface
  | tail _ hstep ih =>
    obtain ⟨name, hname, hload⟩ := hstep
    obtain ⟨interface, hinterface, hother⟩ := exists_mem_interfaceTrail h (.inr ⟨_, ih, hname⟩)
    cases hload.symm.trans hother
    exact hinterface

theorem complete_eq_ok {trail : Trail} {loaded : List ClassDefinition}
    (h : trail.complete = .ok loaded) : trail.stopped = none ∧ trail.loaded = loaded := by
  unfold Trail.complete at h
  cases hstopped : trail.stopped with
  | none =>
    rw [hstopped] at h
    exact ⟨rfl, Except.ok.inj h⟩
  | some unresolved =>
    rw [hstopped] at h
    cases h

theorem complete_eq_error {trail : Trail} {unresolved : Unresolved}
    (h : trail.complete = .error unresolved) : trail.stopped = some unresolved := by
  unfold Trail.complete at h
  cases hstopped : trail.stopped with
  | none =>
    rw [hstopped] at h
    cases h
  | some failed =>
    rw [hstopped] at h
    cases h
    rfl

/-- The interfaces of a class are found when its chain and the walk over interfaces are complete. -/
theorem superinterfaces_eq_ok {interfaces : List ClassDefinition}
    (h : classpath.superinterfaces owner = .ok interfaces) :
    (classpath.classChain owner).stopped = none ∧
      (classpath.interfaceTrail ((classpath.classChain owner).loaded.flatMap
        ClassDefinition.interfaces)).stopped = none ∧
      (classpath.interfaceTrail ((classpath.classChain owner).loaded.flatMap
        ClassDefinition.interfaces)).loaded = interfaces := by
  unfold superinterfaces at h
  cases hchain : (classpath.classChain owner).complete with
  | error unresolved =>
    rw [hchain] at h
    cases h
  | ok chain =>
    rw [hchain] at h
    obtain ⟨hstopped, rfl⟩ := complete_eq_ok hchain
    exact ⟨hstopped, complete_eq_ok h⟩

theorem superinterface_of_mem_trail (h : definition ∈ (classpath.interfaceTrail
    ((classpath.classChain owner).loaded.flatMap ClassDefinition.interfaces)).loaded) :
    classpath.Superinterface owner definition := by
  obtain ⟨superclass, hsuper, hreached⟩ := transGen_of_mem_interfaceTrail h
  obtain ⟨first, hstep, hlater⟩ := TransGen.head'_iff.1 hreached
  exact ⟨superclass, first, reached_of_mem_classChain hsuper, hstep, hlater⟩

/-- The interfaces that are found are superinterfaces. -/
theorem superinterface_of_mem {interfaces : List ClassDefinition}
    (hinterfaces : classpath.superinterfaces owner = .ok interfaces) (h : definition ∈ interfaces) :
    classpath.Superinterface owner definition := by
  obtain ⟨_, _, rfl⟩ := superinterfaces_eq_ok hinterfaces
  exact superinterface_of_mem_trail h

section Interfaces

variable {interfaces : List ClassDefinition} (howner : classpath.load owner.name = .ok owner)
  (hinterfaces : classpath.superinterfaces owner = .ok interfaces)

include howner hinterfaces

/-- All interfaces that superclasses and superinterfaces name can be loaded, and are found. -/
theorem exists_mem_superinterfaces
    (h : ReflTransGen classpath.Extends owner definition ∨ definition ∈ interfaces)
    (hname : name ∈ definition.interfaces) :
    ∃ interface ∈ interfaces, classpath.load name = .ok interface := by
  obtain ⟨hchain, hstopped, rfl⟩ := superinterfaces_eq_ok hinterfaces
  refine exists_mem_interfaceTrail hstopped (h.imp (fun hreached => ?_) fun hmem => ?_)
  · exact List.mem_flatMap.2 ⟨definition, (mem_classChain_iff howner hchain).2 hreached, hname⟩
  · exact ⟨definition, hmem, hname⟩

/-- The interfaces that are found are exactly the superinterfaces. -/
theorem mem_superinterfaces_iff : definition ∈ interfaces ↔
    classpath.Superinterface owner definition := by
  refine ⟨superinterface_of_mem hinterfaces, ?_⟩
  rintro ⟨superclass, first, hsuper, hstep, hreached⟩
  obtain ⟨hchain, hstopped, rfl⟩ := superinterfaces_eq_ok hinterfaces
  exact (mem_interfaceTrail_iff hstopped).2
    ⟨superclass, (mem_classChain_iff howner hchain).2 hsuper, .head' hstep hreached⟩

end Interfaces

/-- A class has another as a direct supertype. -/
def Supertype (classpath : Classpath) : ClassDefinition → ClassDefinition → Prop :=
  classpath.Leads ClassDefinition.supertypes

/-- No class is its own supertype. -/
def Acyclic (classpath : Classpath) : Prop :=
  ∀ definition, ¬TransGen classpath.Supertype definition definition

/-- No class is its own supertype where each name stands higher than those that its class names. -/
theorem acyclic_of_rank (rank : ClassName → Nat)
    (h : ∀ each ∈ classpath.names, ∀ definition ∈ (classpath.load each).toOption,
      ∀ supertype ∈ definition.supertypes, rank supertype < rank each) : classpath.Acyclic := by
  -- From a name of a class, each supertype has a name of lower rank.
  have hlower : ∀ {first last : ClassDefinition}, TransGen classpath.Supertype first last →
      ∀ each, classpath.load each = .ok first →
        ∃ other, classpath.load other = .ok last ∧ rank other < rank each := by
    intro first last hreached
    induction hreached with
    | single hstep =>
      intro each hload
      obtain ⟨other, hnamed, hother⟩ := hstep
      exact ⟨other, hother, h each (mem_names_of_load hload) first (by rw [hload]; rfl) other hnamed⟩
    | tail _ hstep ih =>
      intro each hload
      obtain ⟨middle, hmiddle, hrank⟩ := ih each hload
      obtain ⟨other, hnamed, hother⟩ := hstep
      have hnext := h middle (mem_names_of_load hmiddle) _ (by rw [hmiddle]; rfl) other hnamed
      exact ⟨other, hother, hnext.trans hrank⟩
  intro definition hcycle
  obtain ⟨last, -, each, -, hload⟩ := TransGen.tail'_iff.1 hcycle
  have hdescent : ∀ bound each, rank each = bound → classpath.load each ≠ .ok definition := by
    intro bound
    induction bound using Nat.strong_induction_on with
    | _ bound ih =>
      rintro each rfl hload
      obtain ⟨other, hother, hrank⟩ := hlower hcycle each hload
      exact ih (rank other) hrank other rfl hother
  exact hdescent (rank each) each rfl hload

end Classpath

end LinkCheck
