import LinkCheck.Proofs.MethodResolution
import Mathlib.Data.List.Induction

/-!
# Which default method is found

A method that no superclass has is looked for in the superinterfaces, in the order in which a walk discovers
them, and the first one with a body is taken. It need not be the maximally specific one, which overrides the
others. That one is found exactly where no interface with a body for the method is discovered before it, for
instance where the others can be reached through its interface only.

## Main definitions

- `ClassDefinition.inherited?` — the method that a class hands on
- `Classpath.MaximallySpecific` — a method of a superinterface that no other superinterface overrides
- `Classpath.OnlyDefault` — the only maximally specific method with a body
- `Classpath.FirstDefault` — the first method with a body among some interfaces
- `Classpath.Bypasses` — a superinterface to which a way leads that does not go through another

## Main results

- `Classpath.discovered_walk` — a walk goes to classes that were pending or that earlier classes name
- `Classpath.resolveMethod_first_default` — which default is found, and when it is the most specific one
-/

namespace LinkCheck

open Relation

/-- The method that a class hands on under a name and descriptor: the first one that it has, unless that is
private or static. -/
def ClassDefinition.inherited? (definition : ClassDefinition) (name descriptor : String) :
    Option MethodDefinition :=
  (definition.findMethod? name descriptor).filter MethodDefinition.isInheritable

namespace Classpath

variable {classpath : Classpath} {owner definition : ClassDefinition} {name descriptor : String}
  {resolved : ResolvedMethod} {interfaces : List ClassDefinition}

/-- A method that a superinterface hands on, where no other superinterface that has such a method extends this
one. -/
structure MaximallySpecific (classpath : Classpath) (owner : ClassDefinition) (name descriptor : String)
    (resolved : ResolvedMethod) : Prop where
  superinterface : classpath.Superinterface owner resolved.declaring
  inherited : resolved.declaring.inherited? name descriptor = some resolved.method
  specific : ∀ other, classpath.Superinterface owner other → other ≠ resolved.declaring →
    other.inherited? name descriptor ≠ none → ¬TransGen classpath.Implements other resolved.declaring

/-- Among the maximally specific methods this is the only one with a body. -/
structure OnlyDefault (classpath : Classpath) (owner : ClassDefinition) (name descriptor : String)
    (resolved : ResolvedMethod) : Prop where
  specific : classpath.MaximallySpecific owner name descriptor resolved
  body : resolved.method.isAbstract = false
  only : ∀ other, classpath.MaximallySpecific owner name descriptor other →
    other.method.isAbstract = false → other = resolved

/-- An interface hands on a method with a body, and those before it hand on none. -/
structure FirstDefault (interfaces : List ClassDefinition) (name descriptor : String)
    (resolved : ResolvedMethod) : Prop where
  inherited : resolved.declaring.inherited? name descriptor = some resolved.method
  body : resolved.method.isAbstract = false
  first : ∃ before after, interfaces = before ++ resolved.declaring :: after ∧
    ∀ each ∈ before, ∀ method, each.inherited? name descriptor = some method →
      method.isAbstract = true

/-- A superinterface to which a way leads that does not go on from `avoided`. -/
inductive Bypasses (classpath : Classpath) (owner avoided : ClassDefinition) : ClassDefinition → Prop
  | direct {superclass interface : ClassDefinition}
      (superclasses : ReflTransGen classpath.Extends owner superclass)
      (named : classpath.Implements superclass interface) : Bypasses classpath owner avoided interface
  | next {first interface : ClassDefinition} (way : Bypasses classpath owner avoided first)
      (other : first ≠ avoided) (named : classpath.Implements first interface) :
      Bypasses classpath owner avoided interface

/-- A class to which a walk goes was pending, or a class before it names it. -/
theorem discovered_walk {enqueue : ClassDefinition → List ClassName → List ClassName}
    {seen pending : List ClassName} (next : ClassDefinition → List ClassName)
    (hnext : ∀ definition rest, ∀ name ∈ enqueue definition rest, name ∈ rest ∨ name ∈ next definition)
    {before after : List ClassDefinition}
    (h : (classpath.walk enqueue seen pending).loaded = before ++ definition :: after) :
    (∃ name ∈ pending, classpath.load name = .ok definition) ∨
      ∃ earlier ∈ before, classpath.Leads next earlier definition := by
  fun_induction walk classpath enqueue seen pending generalizing before with
  | case1 seen pending hfresh => simp at h
  | case2 seen pending name rest hfresh unresolved hload => simp at h
  | case3 seen pending name rest hfresh first hload ih =>
    obtain ⟨hname, hrest⟩ := mem_of_dropWhile_eq hfresh
    cases before with
    | nil =>
      cases h
      exact .inl ⟨name, hname, hload⟩
    | cons head before =>
      obtain ⟨rfl, hlater⟩ := List.cons.inj h
      obtain ⟨other, hother, hload⟩ | ⟨earlier, hearlier, hleads⟩ := ih hlater
      · obtain hleft | hnamed := hnext first rest other hother
        · exact .inl ⟨other, hrest other hleft, hload⟩
        · exact .inr ⟨first, List.mem_cons_self, other, hnamed, hload⟩
      · exact .inr ⟨earlier, .tail _ hearlier, hleads⟩

/-- The interfaces that are discovered before one can be reached without it. -/
theorem bypasses_of_discovered (hinterfaces : classpath.superinterfaces owner = .ok interfaces)
    {avoided : ClassDefinition} {before after : List ClassDefinition}
    (h : interfaces = before ++ after) (havoided : avoided ∉ before) :
    ∀ each ∈ before, classpath.Bypasses owner avoided each := by
  obtain ⟨_, _, hloaded⟩ := superinterfaces_eq_ok hinterfaces
  induction before using List.reverseRecOn generalizing after with
  | nil => simp
  | append_singleton before last ih =>
    have hsplit : interfaces = before ++ last :: after := by simpa using h
    have hearlier := ih hsplit (fun hmem => havoided (List.mem_append_left _ hmem))
    intro each heach
    obtain hbefore | hlast := List.mem_append.1 heach
    · exact hearlier each hbefore
    · rw [List.mem_singleton.1 hlast]
      obtain ⟨name, hname, hload⟩ | ⟨first, hfirst, hnamed⟩ :=
        discovered_walk ClassDefinition.interfaces (fun _ _ _ hmem => List.mem_append.1 hmem)
          (hloaded.trans hsplit)
      · obtain ⟨superclass, hsuper, hmem⟩ := List.mem_flatMap.1 hname
        exact .direct (reached_of_mem_classChain hsuper) ⟨name, hmem, hload⟩
      · refine .next (hearlier first hfirst) ?_ hnamed
        rintro rfl
        exact havoided (List.mem_append_left _ hfirst)

/-- A search in interfaces looks at the methods that they hand on. -/
theorem declaredMethod?_filter_eq (interface : ClassDefinition) (name descriptor : String) :
    (interface.declaredMethod? name descriptor).filter (·.method.isInheritable) =
      (interface.inherited? name descriptor).map (ResolvedMethod.mk interface) := by
  unfold ClassDefinition.declaredMethod? ClassDefinition.inherited?
  cases interface.findMethod? name descriptor with
  | none => rfl
  | some method => cases hmethod : method.isInheritable <;> simp [Option.filter, hmethod]

/-- The search for a method with a body among interfaces. -/
theorem find?_eq_some_iff_firstDefault {first : ResolvedMethod} :
    (interfaces.filterMap fun interface =>
        (interface.declaredMethod? name descriptor).filter (·.method.isInheritable)).find?
          (!·.method.isAbstract) = some first ↔ FirstDefault interfaces name descriptor first := by
  simp only [declaredMethod?_filter_eq, List.find?_filterMap, Option.any_map,
    Option.bind_eq_some_iff, List.find?_eq_some_iff_append]
  constructor
  · rintro ⟨interface, ⟨hbody, before, after, hsplit, hbefore⟩, hmap⟩
    obtain ⟨method, hinherited, rfl⟩ := Option.map_eq_some_iff.1 hmap
    refine ⟨hinherited, by simpa [hinherited] using hbody, before, after, hsplit, ?_⟩
    intro each heach other hother
    simpa [hother] using hbefore each heach
  · rintro ⟨hinherited, hbody, before, after, hsplit, hbefore⟩
    refine ⟨first.declaring, ⟨by simp [hinherited, hbody], before, after, hsplit, ?_⟩,
      by simp [hinherited]⟩
    intro each heach
    cases hother : each.inherited? name descriptor with
    | none => rfl
    | some other => simp [hbefore each heach other hother]

/-- Where an interface hands on a method with a body, there is a first one. -/
theorem exists_firstDefault (hmem : resolved.declaring ∈ interfaces)
    (hinherited : resolved.declaring.inherited? name descriptor = some resolved.method)
    (hbody : resolved.method.isAbstract = false) :
    ∃ first, FirstDefault interfaces name descriptor first := by
  have hcandidate : resolved ∈ interfaces.filterMap fun interface =>
      (interface.declaredMethod? name descriptor).filter (·.method.isInheritable) := by
    simp only [declaredMethod?_filter_eq]
    exact List.mem_filterMap.2 ⟨resolved.declaring, hmem, by rw [hinherited]; rfl⟩
  obtain ⟨first, hfirst⟩ := Option.isSome_iff_exists.1
    (List.find?_isSome (p := fun each : ResolvedMethod => !each.method.isAbstract).2
      ⟨resolved, hcandidate, by rw [hbody]; rfl⟩)
  exact ⟨first, find?_eq_some_iff_firstDefault.1 hfirst⟩

/-- A search that can find a method with a body finds the first one. -/
theorem FirstDefault.interfaceMethod?_eq_some_iff {first : ResolvedMethod}
    (h : FirstDefault interfaces name descriptor first) :
    interfaceMethod? interfaces name descriptor = some resolved ↔
      FirstDefault interfaces name descriptor resolved := by
  have hfirst := find?_eq_some_iff_firstDefault.2 h
  rw [interfaceMethod?, ← find?_eq_some_iff_firstDefault, hfirst]
  rfl

/-- The default of an interface comes first if all others are reached only through it. -/
theorem firstDefault_of_bypasses (howner : classpath.load owner.name = .ok owner)
    (hinterfaces : classpath.superinterfaces owner = .ok interfaces)
    (hsuper : classpath.Superinterface owner resolved.declaring)
    (hinherited : resolved.declaring.inherited? name descriptor = some resolved.method)
    (hbody : resolved.method.isAbstract = false)
    (h : ∀ other, classpath.Bypasses owner resolved.declaring other → other ≠ resolved.declaring →
      ∀ method, other.inherited? name descriptor = some method → method.isAbstract = true) :
    FirstDefault interfaces name descriptor resolved := by
  obtain ⟨before, after, hsplit, hfirst⟩ :=
    List.eq_append_cons_of_mem ((mem_superinterfaces_iff howner hinterfaces).2 hsuper)
  refine ⟨hinherited, hbody, before, after, hsplit, fun each heach => h each ?_ ?_⟩
  · exact bypasses_of_discovered hinterfaces hsplit hfirst each heach
  · rintro rfl
    exact hfirst heach

theorem Loads.exists_superinterfaces (h : classpath.Loads owner) :
    ∃ interfaces, classpath.superinterfaces owner = .ok interfaces := by
  cases hinterfaces : classpath.superinterfaces owner with
  | error unresolved => exact absurd h (not_loads_of_superinterfaces hinterfaces)
  | ok interfaces => exact ⟨interfaces, rfl⟩

theorem FirstDefault.resolveSuperinterfaceMethod_eq_found_iff {first : ResolvedMethod}
    (h : FirstDefault interfaces name descriptor first)
    (hinterfaces : classpath.superinterfaces owner = .ok interfaces) :
    classpath.resolveSuperinterfaceMethod owner name descriptor = .found resolved ↔
      FirstDefault interfaces name descriptor resolved := by
  rw [← h.interfaceMethod?_eq_some_iff, resolveSuperinterfaceMethod, hinterfaces]
  exact Resolution.ofOption_eq_found

/-- A search from a class goes on to the superinterfaces if no superclass has the method. -/
theorem resolveClassMethod_of_unresolved (hloads : classpath.Loads owner)
    (hname : isInitializerName name = false)
    (h : ∀ each, ReflTransGen classpath.Extends owner each →
      each.declaredMethod? name descriptor = none ∧ each.polymorphicMethod? name = none) :
    classpath.resolveClassMethod owner name descriptor =
      classpath.resolveSuperinterfaceMethod owner name descriptor := by
  obtain ⟨hinitializer, _⟩ | ⟨other, hother, _⟩ | ⟨unresolved, hstopped, _⟩ |
      ⟨_, ⟨other, hother, _⟩ | ⟨_, hresult⟩⟩ :=
    classpath.resolveClassMethod_cases owner name descriptor
  · rw [hname] at hinitializer
    cases hinitializer
  · rw [(h owner .refl).2] at hother
    cases hother
  · exact absurd hloads (not_loads_of_classChain hstopped)
  · obtain ⟨each, hmem, hfound⟩ := List.exists_of_findSome?_eq_some hother
    obtain ⟨hdeclared, hpolymorphic⟩ := h each (reached_of_mem_classChain hmem)
    rw [hdeclared, hpolymorphic] at hfound
    cases hfound
  · exact hresult

theorem resolveInterfaceMethod_of_unresolved {root : ClassDefinition}
    (howner : owner.declaredMethod? name descriptor = none)
    (hload : classpath.load .object = .ok root) (hroot : objectMethod? root name descriptor = none) :
    classpath.resolveInterfaceMethod owner name descriptor =
      classpath.resolveSuperinterfaceMethod owner name descriptor := by
  simp only [resolveInterfaceMethod, howner, hload, hroot]

/-- Where all supertypes can be loaded and one maximally specific method of the superinterfaces has a body, a
search that goes on to the superinterfaces finds a method with a body, and it is the first one in the order of
their discovery. So it is the maximally specific one exactly if that comes first. This is so where all other
methods with a body belong to interfaces that are reached only through that of the maximally specific one. -/
theorem resolveMethod_first_default (classpath : Classpath) (owner : ClassDefinition)
    (howner : classpath.load owner.name = .ok owner) (hloads : classpath.Loads owner)
    (name descriptor : String) (chosen : ResolvedMethod)
    (hchosen : classpath.OnlyDefault owner name descriptor chosen) :
    ∃ interfaces, classpath.superinterfaces owner = .ok interfaces ∧
      (∃ first, FirstDefault interfaces name descriptor first) ∧
      ((∀ other, classpath.Bypasses owner chosen.declaring other → other ≠ chosen.declaring →
          ∀ method, other.inherited? name descriptor = some method → method.isAbstract = true) →
        FirstDefault interfaces name descriptor chosen) ∧
      (isInitializerName name = false →
        (∀ each, ReflTransGen classpath.Extends owner each →
          each.declaredMethod? name descriptor = none ∧ each.polymorphicMethod? name = none) →
        ∀ resolved, classpath.resolveClassMethod owner name descriptor = .found resolved ↔
          FirstDefault interfaces name descriptor resolved) ∧
      ∀ root, owner.declaredMethod? name descriptor = none → classpath.load .object = .ok root →
        objectMethod? root name descriptor = none →
        ∀ resolved, classpath.resolveInterfaceMethod owner name descriptor = .found resolved ↔
          FirstDefault interfaces name descriptor resolved := by
  obtain ⟨hspecific, hbody, -⟩ := hchosen
  obtain ⟨interfaces, hinterfaces⟩ := hloads.exists_superinterfaces
  have hmem := (mem_superinterfaces_iff howner hinterfaces).2 hspecific.superinterface
  obtain ⟨first, hfirst⟩ := exists_firstDefault hmem hspecific.inherited hbody
  refine ⟨interfaces, hinterfaces, ⟨first, hfirst⟩, fun hothers => ?_,
    fun hname hchain resolved => ?_, fun root hself hload hroot resolved => ?_⟩
  · exact firstDefault_of_bypasses howner hinterfaces hspecific.superinterface hspecific.inherited
      hbody hothers
  · rw [resolveClassMethod_of_unresolved hloads hname hchain]
    exact hfirst.resolveSuperinterfaceMethod_eq_found_iff hinterfaces
  · rw [resolveInterfaceMethod_of_unresolved hself hload hroot]
    exact hfirst.resolveSuperinterfaceMethod_eq_found_iff hinterfaces

def defaultMethod : MethodDefinition :=
  .plain "greet" ⟨0x0001⟩

def baseInterface : ClassDefinition :=
  { ClassDefinition.plain ⟨"q/Base"⟩ .object with flags := ⟨0x0601⟩, methods := [defaultMethod] }

/-- An interface that overrides the method of the one it extends. -/
def subInterface : ClassDefinition :=
  { baseInterface with name := ⟨"q/Sub"⟩, interfaces := [baseInterface.name] }

def implementor : ClassDefinition :=
  { ClassDefinition.plain ⟨"q/Impl"⟩ .object with interfaces := [subInterface.name] }

/-- A class that names both interfaces, the one that is extended first. -/
def doubleImplementor : ClassDefinition :=
  { ClassDefinition.plain ⟨"q/Double"⟩ .object with
    interfaces := [baseInterface.name, subInterface.name] }

def inheritingInterface : ClassDefinition :=
  { implementor with name := ⟨"q/Inheriting"⟩, flags := ⟨0x0601⟩ }

def rootClass : ClassDefinition :=
  { ClassDefinition.plain .object .object with superName := none }

def overridden : Classpath :=
  .ofClasses [rootClass, baseInterface, subInterface, implementor,
    doubleImplementor, inheritingInterface]

/-- Where both interfaces are superinterfaces, the overriding method is the only maximally specific one. -/
theorem onlyDefault_overridden (howner : overridden.load owner.name = .ok owner)
    (hinterfaces : overridden.superinterfaces owner = .ok interfaces)
    (hmem : ∀ each, each ∈ interfaces ↔ each = baseInterface ∨ each = subInterface) :
    overridden.OnlyDefault owner "greet" "()V" ⟨subInterface, defaultMethod⟩ := by
  have hsuper : ∀ each, overridden.Superinterface owner each ↔
      each = baseInterface ∨ each = subInterface := fun each => by
    rw [← mem_superinterfaces_iff howner hinterfaces, hmem]
  have hextends : overridden.Implements subInterface baseInterface :=
    ⟨⟨"q/Base"⟩, List.mem_singleton_self _, rfl⟩
  refine ⟨⟨(hsuper _).2 (.inr rfl), by decide, ?_⟩, by decide, ?_⟩
  · intro other hother hne _ hreached
    obtain rfl := ((hsuper other).1 hother).resolve_right hne
    obtain ⟨_, ⟨name, hname, _⟩, _⟩ := TransGen.head'_iff.1 hreached
    cases hname
  · rintro ⟨declaring, method⟩ ⟨hother, hinherited, hspecific⟩ _
    obtain rfl | rfl := (hsuper declaring).1 hother
    · have hne : subInterface ≠ baseInterface := by decide
      exact absurd (.single hextends)
        (hspecific subInterface ((hsuper _).2 (.inr rfl)) hne (by decide))
    · cases hinherited
      rfl

theorem forall_extends_of_classChain {P : ClassDefinition → Prop}
    (howner : classpath.load owner.name = .ok owner)
    (hstopped : (classpath.classChain owner).stopped = none)
    (h : ∀ each ∈ (classpath.classChain owner).loaded, P each) :
    ∀ each, ReflTransGen classpath.Extends owner each → P each :=
  fun each heach => h each ((mem_classChain_iff howner hstopped).2 heach)

/-- A class with one of the interfaces, and an interface that extends it, get the overriding method. -/
theorem resolveMethod_first_default_overridden :
    overridden.load implementor.name = .ok implementor ∧ overridden.Loads implementor ∧
      overridden.OnlyDefault implementor "greet" "()V" ⟨subInterface, defaultMethod⟩ ∧
      overridden.resolveClassMethod implementor "greet" "()V" = .found ⟨subInterface, defaultMethod⟩ ∧
      overridden.load inheritingInterface.name = .ok inheritingInterface ∧
      overridden.Loads inheritingInterface ∧
      overridden.OnlyDefault inheritingInterface "greet" "()V" ⟨subInterface, defaultMethod⟩ ∧
      overridden.resolveInterfaceMethod inheritingInterface "greet" "()V" =
        .found ⟨subInterface, defaultMethod⟩ := by
  have hfirst : FirstDefault [subInterface, baseInterface] "greet" "()V" ⟨subInterface, defaultMethod⟩ :=
    ⟨by decide, by decide, [], [baseInterface], rfl, by simp⟩
  have hmem : ∀ each, each ∈ [subInterface, baseInterface] ↔
      each = baseInterface ∨ each = subInterface := by simp [or_comm]
  have hclass : overridden.load implementor.name = .ok implementor := rfl
  have hclassInterfaces : overridden.superinterfaces implementor = .ok [subInterface, baseInterface] := by
    decide +kernel
  have hclassLoads := loads_of_superinterfaces hclass hclassInterfaces
  have hclassOnly := onlyDefault_overridden hclass hclassInterfaces hmem
  have hheir : overridden.load inheritingInterface.name = .ok inheritingInterface := rfl
  have hheirInterfaces : overridden.superinterfaces inheritingInterface =
      .ok [subInterface, baseInterface] := by decide +kernel
  have hheirLoads := loads_of_superinterfaces hheir hheirInterfaces
  have hheirOnly := onlyDefault_overridden hheir hheirInterfaces hmem
  obtain ⟨_, hinterfaces, -, -, hofClass, -⟩ := resolveMethod_first_default overridden implementor
    hclass hclassLoads "greet" "()V" _ hclassOnly
  cases hclassInterfaces.symm.trans hinterfaces
  obtain ⟨_, hinterfaces, -, -, -, hofInterface⟩ := resolveMethod_first_default overridden
    inheritingInterface hheir hheirLoads "greet" "()V" _ hheirOnly
  cases hheirInterfaces.symm.trans hinterfaces
  have hchain : ∀ each, ReflTransGen overridden.Extends implementor each →
      each.declaredMethod? "greet" "()V" = none ∧ each.polymorphicMethod? "greet" = none :=
    forall_extends_of_classChain hclass (by decide +kernel) (by decide +kernel)
  exact ⟨hclass, hclassLoads, hclassOnly, (hofClass (by decide) hchain _).2 hfirst, hheir, hheirLoads,
    hheirOnly, (hofInterface rootClass (by decide) rfl (by decide) _).2 hfirst⟩

/-- A class that names an interface before another one that extends it gets the method that is overridden. -/
theorem resolveClassMethod_less_specific :
    overridden.Acyclic ∧ overridden.load doubleImplementor.name = .ok doubleImplementor ∧
      overridden.Loads doubleImplementor ∧
      (∀ each, ReflTransGen overridden.Extends doubleImplementor each →
        each.declaredMethod? "greet" "()V" = none ∧ each.polymorphicMethod? "greet" = none) ∧
      overridden.OnlyDefault doubleImplementor "greet" "()V" ⟨subInterface, defaultMethod⟩ ∧
      overridden.resolveClassMethod doubleImplementor "greet" "()V" =
        .found ⟨baseInterface, defaultMethod⟩ ∧
      baseInterface ≠ subInterface := by
  have hdouble : overridden.load doubleImplementor.name = .ok doubleImplementor := rfl
  have hinterfaces : overridden.superinterfaces doubleImplementor = .ok [baseInterface, subInterface] := by
    decide +kernel
  have hacyclic : overridden.Acyclic := acyclic_of_rank
    [.object, ⟨"q/Base"⟩, ⟨"q/Sub"⟩, ⟨"q/Impl"⟩, ⟨"q/Double"⟩, ⟨"q/Inheriting"⟩].idxOf (by decide +kernel)
  exact ⟨hacyclic, hdouble, loads_of_superinterfaces hdouble hinterfaces,
    forall_extends_of_classChain hdouble (by decide +kernel) (by decide +kernel),
    onlyDefault_overridden hdouble hinterfaces (by simp), by decide +kernel, by decide⟩

end Classpath

end LinkCheck
