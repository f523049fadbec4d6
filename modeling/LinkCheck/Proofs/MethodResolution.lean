import LinkCheck.Proofs.PlainClasses
import LinkCheck.Proofs.Supertypes

/-!
# Method resolution is exact

A search for a method that finds one finds it where it may be, and a search that finds none has looked
everywhere: all superclasses and superinterfaces have been loaded, and none of them has the method. Of
several methods with one name and descriptor a class counts with the first.

## Main definitions

- `ClassDefinition.Declares` — a class has a method with this name and descriptor
- `ResolvedMethod.Answers` — a method is one that was searched for
- `Classpath.Nearest` — a superclass that no class before it on the chain forestalls
- `Classpath.Loads` — all superclasses and superinterfaces of a class can be loaded

## Main results

- `Classpath.resolveMethod_exact` — what is found, and what follows if nothing is
-/

namespace LinkCheck

open Relation

variable {classpath : Classpath} {owner definition : ClassDefinition} {name descriptor : String}
  {resolved : ResolvedMethod}

/-- A class has a method with this name and descriptor. -/
def ClassDefinition.Declares (definition : ClassDefinition) (name descriptor : String) : Prop :=
  ∃ method ∈ definition.methods, method.name = name ∧ method.descriptor = descriptor

/-- The only method of its name, in a class whose native methods may be called with any descriptor. It takes
an array of objects. -/
structure ResolvedMethod.IsPolymorphic (resolved : ResolvedMethod) : Prop where
  owner : resolved.declaring.isPolymorphicOwner = true
  only : resolved.declaring.methods.filter (·.name = resolved.method.name) = [resolved.method]
  native : resolved.method.flags.isNative = true
  varargs : resolved.method.flags.isVarargs = true
  parameter : "([Ljava/lang/Object;)".toList <+: resolved.method.descriptor.toList

/-- A method is one that was searched for. -/
structure ResolvedMethod.Answers (resolved : ResolvedMethod) (name descriptor : String) : Prop where
  member : resolved.method ∈ resolved.declaring.methods
  name : resolved.method.name = name
  descriptor : resolved.method.descriptor = descriptor ∨ resolved.IsPolymorphic

namespace ClassDefinition

theorem findMethod?_eq_none_iff :
    definition.findMethod? name descriptor = none ↔ ¬definition.Declares name descriptor := by
  simp [findMethod?, Declares, List.find?_eq_none]

theorem declaredMethod?_eq_none_iff :
    definition.declaredMethod? name descriptor = none ↔ ¬definition.Declares name descriptor := by
  rw [declaredMethod?, Option.map_eq_none_iff, findMethod?_eq_none_iff]

theorem answers_of_declaredMethod? (h : definition.declaredMethod? name descriptor = some resolved) :
    resolved.Answers name descriptor ∧ resolved.declaring = definition := by
  obtain ⟨method, hfind, rfl⟩ := Option.map_eq_some_iff.1 h
  have hmem := List.mem_of_find?_eq_some hfind
  have hmatch := List.find?_some hfind
  simp only [Bool.and_eq_true, decide_eq_true_eq] at hmatch
  exact ⟨⟨hmem, hmatch.1, .inl hmatch.2⟩, rfl⟩

theorem answers_of_polymorphicMethod? (h : definition.polymorphicMethod? name = some resolved)
    (descriptor : String) : resolved.Answers name descriptor ∧ resolved.declaring = definition := by
  unfold polymorphicMethod? at h
  split at h
  · next howner =>
    split at h
    · next method honly =>
      have hname : method ∈ definition.methods ∧ decide (method.name = name) = true :=
        List.mem_filter.1 (honly ▸ List.mem_singleton_self method)
      rw [decide_eq_true_eq] at hname
      obtain ⟨hmem, rfl⟩ := hname
      split at h
      · next hflags =>
        cases h
        simp only [Bool.and_eq_true, List.isPrefixOf_iff_prefix] at hflags
        obtain ⟨⟨hnative, hvarargs⟩, hparameter⟩ := hflags
        exact ⟨⟨hmem, rfl, .inr ⟨howner, honly, hnative, hvarargs, hparameter⟩⟩, rfl⟩
      · cases h
    · cases h
  · cases h

end ClassDefinition

namespace Resolution

variable {α : Type} {choice : Option α}

theorem ofOption_eq_found {member : α} : ofOption choice = found member ↔ choice = some member := by
  cases choice <;> simp [ofOption]

theorem ofOption_eq_notFound : ofOption choice = notFound ↔ choice = none := by
  cases choice <;> simp [ofOption]

theorem ofOption_ne_incomplete {unresolved : Unresolved} : ofOption choice ≠ incomplete unresolved := by
  cases choice <;> simp [ofOption]

end Resolution

namespace Classpath

/-- A class comes after classes that each extend the one before, the first being the owner, and that have
no such method. -/
def Nearest (classpath : Classpath) (owner : ClassDefinition) (name descriptor : String)
    (definition : ClassDefinition) : Prop :=
  ∃ nearer, (nearer ++ [definition]).IsChain classpath.Extends ∧
    (nearer ++ [definition]).head? = some owner ∧
    ∀ each ∈ nearer, ¬each.Declares name descriptor

/-- All superclasses and superinterfaces of a class can be loaded. -/
structure Loads (classpath : Classpath) (owner : ClassDefinition) : Prop where
  superclass : ∀ each, ReflTransGen classpath.Extends owner each → ∀ name,
    each.superName = some name → ∃ parent, classpath.load name = .ok parent
  superinterface : ∀ each, ReflTransGen classpath.Extends owner each ∨
    classpath.Superinterface owner each → ∀ name ∈ each.interfaces,
      ∃ interface, classpath.load name = .ok interface

theorem loads_of_superinterfaces {interfaces : List ClassDefinition}
    (howner : classpath.load owner.name = .ok owner)
    (h : classpath.superinterfaces owner = .ok interfaces) : classpath.Loads owner where
  superclass := fun each heach name hname => by
    have hchain := (superinterfaces_eq_ok h).1
    obtain ⟨parent, _, hload⟩ := exists_mem_classChain howner hchain
      ((mem_classChain_iff howner hchain).2 heach) (Option.mem_toList.2 hname)
    exact ⟨parent, hload⟩
  superinterface := fun each heach name hname => by
    have hmem := heach.imp_right (mem_superinterfaces_iff howner h).2
    obtain ⟨interface, _, hload⟩ := exists_mem_superinterfaces howner h hmem hname
    exact ⟨interface, hload⟩

/-- Where a chain breaks off, not all superclasses can be loaded. -/
theorem not_loads_of_classChain {unresolved : Unresolved}
    (h : (classpath.classChain owner).stopped = some unresolved) : ¬classpath.Loads owner := by
  obtain ⟨definition, hreached, name, hname, hfailed⟩ := exists_of_stopped_classChain h
  intro hloads
  obtain ⟨parent, hload⟩ := hloads.superclass definition hreached name hname
  cases hfailed.symm.trans hload

theorem not_loads_of_superinterfaces {unresolved : Unresolved}
    (h : classpath.superinterfaces owner = .error unresolved) : ¬classpath.Loads owner := by
  unfold superinterfaces at h
  cases hchain : (classpath.classChain owner).complete with
  | error failed => exact not_loads_of_classChain (complete_eq_error hchain)
  | ok chain =>
    rw [hchain] at h
    obtain ⟨_, rfl⟩ := complete_eq_ok hchain
    obtain ⟨name, hfailed, hnamed⟩ := exists_of_stopped_walk ClassDefinition.interfaces
      (fun _ _ _ hmem => List.mem_append.1 hmem) (complete_eq_error h)
    intro hloads
    have hload : ∃ interface, classpath.load name = .ok interface := by
      obtain hfirst | ⟨definition, hloaded, hlater⟩ := hnamed
      · obtain ⟨superclass, hsuper, hmem⟩ := List.mem_flatMap.1 hfirst
        exact hloads.superinterface superclass (.inl (reached_of_mem_classChain hsuper)) name hmem
      · exact hloads.superinterface definition (.inr (superinterface_of_mem_trail hloaded)) name hlater
    obtain ⟨interface, hload⟩ := hload
    cases hfailed.symm.trans hload

theorem nearest_owner (classpath : Classpath) (owner : ClassDefinition) (name descriptor : String) :
    classpath.Nearest owner name descriptor owner :=
  ⟨[], List.isChain_singleton owner, rfl, by simp⟩

/-- The first class of a chain that gives a method is nearest. -/
theorem nearest_of_findSome? {search : ClassDefinition → Option ResolvedMethod}
    (hsearch : ∀ definition, search definition = none → ¬definition.Declares name descriptor)
    (h : (classpath.classChain owner).loaded.findSome? search = some resolved) :
    ∃ definition, search definition = some resolved ∧
      classpath.Nearest owner name descriptor definition := by
  obtain ⟨nearer, definition, others, hsplit, hfound, hbefore⟩ := List.findSome?_eq_some_iff.1 h
  have hchain := classpath.isChain_classChain owner
  have hhead : (classpath.classChain owner).loaded.head? = some owner := rfl
  rw [hsplit] at hchain hhead
  refine ⟨definition, hfound, nearer, ?_, ?_, fun each heach => hsearch each (hbefore each heach)⟩
  · have hchain' : (nearer ++ [definition] ++ others).IsChain classpath.Extends := by
      simpa using hchain
    exact hchain'.left_of_append
  · cases nearer with
    | nil => exact hhead
    | cons first nearer => exact hhead

/-- The methods among which a search in interfaces chooses. -/
theorem mem_interfaceMethods_iff {interfaces : List ClassDefinition} :
    resolved ∈ (interfaces.filterMap fun interface =>
        (interface.declaredMethod? name descriptor).filter (·.method.isInheritable)) ↔
      ∃ interface ∈ interfaces, interface.declaredMethod? name descriptor = some resolved ∧
        resolved.method.isInheritable = true := by
  simp [List.mem_filterMap, Option.filter_eq_some_iff]

theorem exists_of_interfaceMethod? {interfaces : List ClassDefinition}
    (h : interfaceMethod? interfaces name descriptor = some resolved) :
    ∃ interface ∈ interfaces, interface.declaredMethod? name descriptor = some resolved ∧
      resolved.method.isInheritable = true := by
  rw [interfaceMethod?, Option.orElse_eq_orElse, Option.orElse_eq_or, Option.or_eq_some_iff] at h
  apply mem_interfaceMethods_iff.1
  obtain hbody | ⟨_, hfirst⟩ := h
  · exact List.mem_of_find?_eq_some hbody
  · exact List.mem_of_head? hfirst

/-- If no interface gives a method, the first method that an interface has with this name and descriptor
is private or static. -/
theorem not_inheritable_of_interfaceMethod? {interfaces : List ClassDefinition}
    (h : interfaceMethod? interfaces name descriptor = none) {interface : ClassDefinition}
    (hinterface : interface ∈ interfaces) {method : MethodDefinition}
    (hmethod : interface.findMethod? name descriptor = some method) :
    method.isInheritable = false := by
  rw [interfaceMethod?, Option.orElse_eq_orElse, Option.orElse_eq_or, Option.or_eq_none_iff,
    List.head?_eq_none_iff] at h
  by_contra hinheritable
  have hmem := mem_interfaceMethods_iff.2 ⟨interface, hinterface,
    Option.map_eq_some_iff.2 ⟨method, hmethod, rfl⟩, by simpa using hinheritable⟩
  rw [h.2] at hmem
  exact List.not_mem_nil hmem

/-- The ways in which a search in superinterfaces ends. -/
theorem resolveSuperinterfaceMethod_cases (classpath : Classpath) (owner : ClassDefinition)
    (name descriptor : String) :
    (∃ unresolved, classpath.superinterfaces owner = .error unresolved ∧
        classpath.resolveSuperinterfaceMethod owner name descriptor = .incomplete unresolved) ∨
      ∃ interfaces, classpath.superinterfaces owner = .ok interfaces ∧
        classpath.resolveSuperinterfaceMethod owner name descriptor =
          .ofOption (interfaceMethod? interfaces name descriptor) := by
  unfold resolveSuperinterfaceMethod
  cases hinterfaces : classpath.superinterfaces owner with
  | error unresolved => exact .inl ⟨unresolved, rfl, rfl⟩
  | ok interfaces => exact .inr ⟨interfaces, rfl, rfl⟩

/-- What is found in superinterfaces is a method of one of them. -/
theorem found_of_resolveSuperinterfaceMethod
    (h : classpath.resolveSuperinterfaceMethod owner name descriptor = .found resolved) :
    resolved.Answers name descriptor ∧ classpath.Superinterface owner resolved.declaring := by
  obtain ⟨unresolved, _, hresult⟩ | ⟨interfaces, hinterfaces, hresult⟩ :=
    classpath.resolveSuperinterfaceMethod_cases owner name descriptor
  · cases hresult.symm.trans h
  · have hmethod := Resolution.ofOption_eq_found.1 (hresult.symm.trans h)
    obtain ⟨interface, hmem, hdeclared, _⟩ := exists_of_interfaceMethod? hmethod
    obtain ⟨hanswers, hdeclaring⟩ := ClassDefinition.answers_of_declaredMethod? hdeclared
    rw [hdeclaring]
    exact ⟨hanswers, superinterface_of_mem hinterfaces hmem⟩

/-- If nothing is found in superinterfaces, all of them have been looked at. -/
theorem notFound_of_resolveSuperinterfaceMethod (howner : classpath.load owner.name = .ok owner)
    (h : classpath.resolveSuperinterfaceMethod owner name descriptor = .notFound) :
    classpath.Loads owner ∧ ∀ interface, classpath.Superinterface owner interface → ∀ method,
      interface.findMethod? name descriptor = some method → method.isInheritable = false := by
  obtain ⟨unresolved, _, hresult⟩ | ⟨interfaces, hinterfaces, hresult⟩ :=
    classpath.resolveSuperinterfaceMethod_cases owner name descriptor
  · cases hresult.symm.trans h
  · have hmethod := Resolution.ofOption_eq_notFound.1 (hresult.symm.trans h)
    refine ⟨loads_of_superinterfaces howner hinterfaces, fun interface hinterface method => ?_⟩
    exact not_inheritable_of_interfaceMethod? hmethod
      ((mem_superinterfaces_iff howner hinterfaces).2 hinterface)

theorem incomplete_of_resolveSuperinterfaceMethod {unresolved : Unresolved}
    (h : classpath.resolveSuperinterfaceMethod owner name descriptor = .incomplete unresolved) :
    ¬classpath.Loads owner := by
  obtain ⟨failed, hfailed, _⟩ | ⟨interfaces, _, hresult⟩ :=
    classpath.resolveSuperinterfaceMethod_cases owner name descriptor
  · exact not_loads_of_superinterfaces hfailed
  · exact absurd (hresult.symm.trans h) Resolution.ofOption_ne_incomplete

/-- The ways in which a search from a class ends. -/
theorem resolveClassMethod_cases (classpath : Classpath) (owner : ClassDefinition)
    (name descriptor : String) :
    (isInitializerName name = true ∧ classpath.resolveClassMethod owner name descriptor =
        .ofOption (owner.declaredMethod? name descriptor)) ∨
      (∃ resolved, owner.polymorphicMethod? name = some resolved ∧
        classpath.resolveClassMethod owner name descriptor = .found resolved) ∨
      (∃ unresolved, (classpath.classChain owner).stopped = some unresolved ∧
        classpath.resolveClassMethod owner name descriptor = .incomplete unresolved) ∨
      (classpath.classChain owner).stopped = none ∧
        ((∃ resolved, (classpath.classChain owner).loaded.findSome? (fun definition =>
              definition.declaredMethod? name descriptor <|> definition.polymorphicMethod? name) =
                some resolved ∧
            classpath.resolveClassMethod owner name descriptor = .found resolved) ∨
          (classpath.classChain owner).loaded.findSome? (fun definition =>
              definition.declaredMethod? name descriptor <|> definition.polymorphicMethod? name) =
                none ∧
            classpath.resolveClassMethod owner name descriptor =
              classpath.resolveSuperinterfaceMethod owner name descriptor) := by
  unfold resolveClassMethod
  by_cases hname : isInitializerName name = true
  · exact .inl ⟨hname, if_pos hname⟩
  · rw [if_neg hname]
    cases howner : owner.polymorphicMethod? name with
    | some resolved => exact .inr (.inl ⟨resolved, rfl, rfl⟩)
    | none =>
      cases hchain : (classpath.classChain owner).complete with
      | error unresolved =>
        exact .inr (.inr (.inl ⟨unresolved, complete_eq_error hchain, rfl⟩))
      | ok chain =>
        obtain ⟨hstopped, rfl⟩ := complete_eq_ok hchain
        refine .inr (.inr (.inr ⟨hstopped, ?_⟩))
        cases hfound : (classpath.classChain owner).loaded.findSome? (fun definition =>
          definition.declaredMethod? name descriptor <|> definition.polymorphicMethod? name) with
        | some resolved => exact .inl ⟨resolved, rfl, by simp only [hfound]⟩
        | none => exact .inr ⟨rfl, by simp only [hfound]⟩

/-- A class that gives no method has none with this name and descriptor. -/
theorem not_declares_of_search (h : (definition.declaredMethod? name descriptor <|>
    definition.polymorphicMethod? name) = none) : ¬definition.Declares name descriptor := by
  rw [Option.orElse_eq_orElse, Option.orElse_eq_or, Option.or_eq_none_iff] at h
  exact ClassDefinition.declaredMethod?_eq_none_iff.1 h.1

theorem answers_of_search (h : (definition.declaredMethod? name descriptor <|>
    definition.polymorphicMethod? name) = some resolved) :
    resolved.Answers name descriptor ∧ resolved.declaring = definition := by
  rw [Option.orElse_eq_orElse, Option.orElse_eq_or, Option.or_eq_some_iff] at h
  obtain hdeclared | ⟨_, hpolymorphic⟩ := h
  · exact ClassDefinition.answers_of_declaredMethod? hdeclared
  · exact ClassDefinition.answers_of_polymorphicMethod? hpolymorphic descriptor

theorem found_of_resolveClassMethod
    (h : classpath.resolveClassMethod owner name descriptor = .found resolved) :
    resolved.Answers name descriptor ∧
      (classpath.Nearest owner name descriptor resolved.declaring ∨
        classpath.Superinterface owner resolved.declaring) := by
  have hnearest := classpath.nearest_owner owner name descriptor
  obtain ⟨_, hresult⟩ | ⟨other, hother, hresult⟩ | ⟨unresolved, _, hresult⟩ |
      ⟨_, ⟨other, hother, hresult⟩ | ⟨_, hresult⟩⟩ :=
    classpath.resolveClassMethod_cases owner name descriptor
  · have hdeclared := Resolution.ofOption_eq_found.1 (hresult.symm.trans h)
    obtain ⟨hanswers, hdeclaring⟩ := ClassDefinition.answers_of_declaredMethod? hdeclared
    rw [hdeclaring]
    exact ⟨hanswers, .inl hnearest⟩
  · cases hresult.symm.trans h
    obtain ⟨hanswers, hdeclaring⟩ :=
      ClassDefinition.answers_of_polymorphicMethod? hother descriptor
    rw [hdeclaring]
    exact ⟨hanswers, .inl hnearest⟩
  · cases hresult.symm.trans h
  · cases hresult.symm.trans h
    obtain ⟨definition, hfound, hnear⟩ :=
      nearest_of_findSome? (fun _ => not_declares_of_search) hother
    obtain ⟨hanswers, hdeclaring⟩ := answers_of_search hfound
    rw [hdeclaring]
    exact ⟨hanswers, .inl hnear⟩
  · obtain ⟨hanswers, hsuper⟩ := found_of_resolveSuperinterfaceMethod (hresult.symm.trans h)
    exact ⟨hanswers, .inr hsuper⟩

theorem notFound_of_resolveClassMethod (howner : classpath.load owner.name = .ok owner)
    (hname : isInitializerName name = false)
    (h : classpath.resolveClassMethod owner name descriptor = .notFound) :
    (∀ each, ReflTransGen classpath.Extends owner each → ¬each.Declares name descriptor) ∧
      classpath.resolveSuperinterfaceMethod owner name descriptor = .notFound := by
  obtain ⟨hinitializer, _⟩ | ⟨other, _, hresult⟩ | ⟨unresolved, _, hresult⟩ |
      ⟨hstopped, ⟨other, _, hresult⟩ | ⟨hnone, hresult⟩⟩ :=
    classpath.resolveClassMethod_cases owner name descriptor
  · rw [hname] at hinitializer
    cases hinitializer
  · cases hresult.symm.trans h
  · cases hresult.symm.trans h
  · cases hresult.symm.trans h
  · refine ⟨fun each heach => ?_, hresult.symm.trans h⟩
    have hmem := (mem_classChain_iff howner hstopped).2 heach
    exact not_declares_of_search (List.findSome?_eq_none_iff.1 hnone each hmem)

theorem incomplete_of_resolveClassMethod {unresolved : Unresolved}
    (h : classpath.resolveClassMethod owner name descriptor = .incomplete unresolved) :
    ¬classpath.Loads owner := by
  obtain ⟨_, hresult⟩ | ⟨other, _, hresult⟩ | ⟨failed, hstopped, _⟩ |
      ⟨_, ⟨other, _, hresult⟩ | ⟨_, hresult⟩⟩ :=
    classpath.resolveClassMethod_cases owner name descriptor
  · exact absurd (hresult.symm.trans h) Resolution.ofOption_ne_incomplete
  · cases hresult.symm.trans h
  · exact not_loads_of_classChain hstopped
  · cases hresult.symm.trans h
  · exact incomplete_of_resolveSuperinterfaceMethod (hresult.symm.trans h)

/-- The ways in which a search from an interface ends. -/
theorem resolveInterfaceMethod_cases (classpath : Classpath) (owner : ClassDefinition)
    (name descriptor : String) :
    (∃ resolved, owner.declaredMethod? name descriptor = some resolved ∧
        classpath.resolveInterfaceMethod owner name descriptor = .found resolved) ∨
      owner.declaredMethod? name descriptor = none ∧
        ((∃ unresolved, classpath.load .object = .error unresolved ∧
            classpath.resolveInterfaceMethod owner name descriptor = .incomplete unresolved) ∨
          ∃ root, classpath.load .object = .ok root ∧
            ((∃ resolved, objectMethod? root name descriptor = some resolved ∧
                classpath.resolveInterfaceMethod owner name descriptor = .found resolved) ∨
              objectMethod? root name descriptor = none ∧
                classpath.resolveInterfaceMethod owner name descriptor =
                  classpath.resolveSuperinterfaceMethod owner name descriptor)) := by
  unfold resolveInterfaceMethod
  cases hdeclared : owner.declaredMethod? name descriptor with
  | some resolved => exact .inl ⟨resolved, rfl, rfl⟩
  | none =>
    refine .inr ⟨rfl, ?_⟩
    cases hroot : classpath.load .object with
    | error unresolved => exact .inl ⟨unresolved, rfl, rfl⟩
    | ok root =>
      refine .inr ⟨root, rfl, ?_⟩
      cases hobject : objectMethod? root name descriptor with
      | some resolved => exact .inl ⟨resolved, rfl, by simp only [hobject]⟩
      | none => exact .inr ⟨rfl, by simp only [hobject]⟩

theorem found_of_resolveInterfaceMethod
    (h : classpath.resolveInterfaceMethod owner name descriptor = .found resolved) :
    resolved.Answers name descriptor ∧
      (resolved.declaring = owner ∨ classpath.load .object = .ok resolved.declaring ∨
        classpath.Superinterface owner resolved.declaring) := by
  obtain ⟨other, hother, hresult⟩ | ⟨_, ⟨unresolved, _, hresult⟩ | ⟨root, hroot,
      ⟨other, hother, hresult⟩ | ⟨_, hresult⟩⟩⟩ :=
    classpath.resolveInterfaceMethod_cases owner name descriptor
  · cases hresult.symm.trans h
    obtain ⟨hanswers, hdeclaring⟩ := ClassDefinition.answers_of_declaredMethod? hother
    exact ⟨hanswers, .inl hdeclaring⟩
  · cases hresult.symm.trans h
  · cases hresult.symm.trans h
    obtain ⟨hanswers, hdeclaring⟩ := ClassDefinition.answers_of_declaredMethod?
      (Option.eq_some_of_filter_eq_some hother)
    rw [hdeclaring]
    exact ⟨hanswers, .inr (.inl hroot)⟩
  · obtain ⟨hanswers, hsuper⟩ := found_of_resolveSuperinterfaceMethod (hresult.symm.trans h)
    exact ⟨hanswers, .inr (.inr hsuper)⟩

theorem notFound_of_resolveInterfaceMethod
    (h : classpath.resolveInterfaceMethod owner name descriptor = .notFound) :
    ¬owner.Declares name descriptor ∧
      (∃ root, classpath.load .object = .ok root ∧ ∀ method,
        root.findMethod? name descriptor = some method →
          method.visibility ≠ .publicAccess ∨ method.isStatic = true) ∧
      classpath.resolveSuperinterfaceMethod owner name descriptor = .notFound := by
  obtain ⟨other, _, hresult⟩ | ⟨hnone, ⟨unresolved, _, hresult⟩ | ⟨root, hroot,
      ⟨other, _, hresult⟩ | ⟨hobject, hresult⟩⟩⟩ :=
    classpath.resolveInterfaceMethod_cases owner name descriptor
  · cases hresult.symm.trans h
  · cases hresult.symm.trans h
  · cases hresult.symm.trans h
  · refine ⟨ClassDefinition.declaredMethod?_eq_none_iff.1 hnone, ⟨root, hroot, ?_⟩,
      hresult.symm.trans h⟩
    intro method hmethod
    rw [objectMethod?, ClassDefinition.declaredMethod?, hmethod] at hobject
    simpa [Option.filter, or_iff_not_imp_left] using hobject

theorem incomplete_of_resolveInterfaceMethod {unresolved : Unresolved}
    (h : classpath.resolveInterfaceMethod owner name descriptor = .incomplete unresolved) :
    classpath.load .object = .error unresolved ∨ ¬classpath.Loads owner := by
  obtain ⟨other, _, hresult⟩ | ⟨_, ⟨failed, hfailed, hresult⟩ | ⟨root, _,
      ⟨other, _, hresult⟩ | ⟨_, hresult⟩⟩⟩ :=
    classpath.resolveInterfaceMethod_cases owner name descriptor
  · cases hresult.symm.trans h
  · cases hresult.symm.trans h
    exact .inl hfailed
  · cases hresult.symm.trans h
  · exact .inr (incomplete_of_resolveSuperinterfaceMethod (hresult.symm.trans h))

/-- What is found in a search for a method is a method that was searched for. It is the method of a
superclass before which no class on the way from the owner has one, or of a superinterface, or for an
interface of the root class. If nothing is found, all superclasses and superinterfaces can be loaded, and
none of them has such a method, where for interfaces and the root class the first method with this name and
descriptor counts. There is no answer only if a class cannot be loaded. -/
theorem resolveMethod_exact (classpath : Classpath) (owner : ClassDefinition)
    (name descriptor : String) :
    (∀ resolved, classpath.resolveClassMethod owner name descriptor = .found resolved →
        resolved.Answers name descriptor ∧
          (classpath.Nearest owner name descriptor resolved.declaring ∨
            classpath.Superinterface owner resolved.declaring)) ∧
      (∀ resolved, classpath.resolveInterfaceMethod owner name descriptor = .found resolved →
        resolved.Answers name descriptor ∧
          (resolved.declaring = owner ∨ classpath.load .object = .ok resolved.declaring ∨
            classpath.Superinterface owner resolved.declaring)) ∧
      (classpath.load owner.name = .ok owner →
        (isInitializerName name = false →
            classpath.resolveClassMethod owner name descriptor = .notFound →
          classpath.Loads owner ∧
            (∀ each, ReflTransGen classpath.Extends owner each → ¬each.Declares name descriptor) ∧
            ∀ interface, classpath.Superinterface owner interface → ∀ method,
              interface.findMethod? name descriptor = some method →
                method.isInheritable = false) ∧
          (classpath.resolveInterfaceMethod owner name descriptor = .notFound →
            classpath.Loads owner ∧ ¬owner.Declares name descriptor ∧
              (∃ root, classpath.load .object = .ok root ∧ ∀ method,
                root.findMethod? name descriptor = some method →
                  method.visibility ≠ .publicAccess ∨ method.isStatic = true) ∧
              ∀ interface, classpath.Superinterface owner interface → ∀ method,
                interface.findMethod? name descriptor = some method →
                  method.isInheritable = false)) ∧
      (∀ unresolved, classpath.resolveClassMethod owner name descriptor = .incomplete unresolved →
        ¬classpath.Loads owner) ∧
      ∀ unresolved,
        classpath.resolveInterfaceMethod owner name descriptor = .incomplete unresolved →
          classpath.load .object = .error unresolved ∨ ¬classpath.Loads owner := by
  refine ⟨fun _ => found_of_resolveClassMethod, fun _ => found_of_resolveInterfaceMethod,
    fun howner => ⟨fun hname hnone => ?_, fun hnone => ?_⟩,
    fun _ => incomplete_of_resolveClassMethod, fun _ => incomplete_of_resolveInterfaceMethod⟩
  · obtain ⟨hchain, hinterfaces⟩ := notFound_of_resolveClassMethod howner hname hnone
    obtain ⟨hloads, hmethods⟩ := notFound_of_resolveSuperinterfaceMethod howner hinterfaces
    exact ⟨hloads, hchain, hmethods⟩
  · obtain ⟨hself, hroot, hinterfaces⟩ := notFound_of_resolveInterfaceMethod hnone
    obtain ⟨hloads, hmethods⟩ := notFound_of_resolveSuperinterfaceMethod howner hinterfaces
    exact ⟨hloads, hself, hroot, hmethods⟩

def doubletRoot : ClassDefinition :=
  { ClassDefinition.plain .object .object with superName := none, methods := [.plain "notify" ⟨0x0001⟩] }

/-- An interface with a private method, an abstract method like it, and one with a body. -/
def doubletInterface : ClassDefinition :=
  { ClassDefinition.plain ⟨"q/Task"⟩ .object with
    flags := ⟨0x0601⟩
    methods := [.plain "step" ⟨0x0002⟩, .plain "step" ⟨0x0401⟩, .plain "run" ⟨0x0001⟩] }

def doubletOwner : ClassDefinition :=
  { ClassDefinition.plain ⟨"q/Job"⟩ .object with interfaces := [⟨"q/Task"⟩] }

/-- A class with an interface that has two methods with one name and descriptor. -/
def doublet : Classpath :=
  .ofClasses [doubletRoot, doubletInterface, doubletOwner]

/-- A method of the root class and one of the interface are found. A method that is not there is not found,
and so the root class and the interface do not have it. -/
theorem resolveMethod_exact_doublet :
    (doublet.Nearest doubletOwner "notify" "()V" doubletRoot ∨
        doublet.Superinterface doubletOwner doubletRoot) ∧
      (doublet.Nearest doubletOwner "run" "()V" doubletInterface ∨
        doublet.Superinterface doubletOwner doubletInterface) ∧
      (doubletRoot = doubletInterface ∨ doublet.load .object = .ok doubletRoot ∨
        doublet.Superinterface doubletInterface doubletRoot) ∧
      doublet.load doubletOwner.name = .ok doubletOwner ∧
      isInitializerName "stop" = false ∧
      doublet.resolveClassMethod doubletOwner "stop" "()V" = .notFound ∧
      doublet.Loads doubletOwner ∧
      doublet.load doubletInterface.name = .ok doubletInterface ∧
      doublet.resolveInterfaceMethod doubletInterface "stop" "()V" = .notFound ∧
      ¬doubletInterface.Declares "stop" "()V" := by
  have hroot : doublet.resolveClassMethod doubletOwner "notify" "()V" =
      .found ⟨doubletRoot, .plain "notify" ⟨0x0001⟩⟩ := by decide +kernel
  have hinterface : doublet.resolveClassMethod doubletOwner "run" "()V" =
      .found ⟨doubletInterface, .plain "run" ⟨0x0001⟩⟩ := by decide +kernel
  have hobject : doublet.resolveInterfaceMethod doubletInterface "notify" "()V" =
      .found ⟨doubletRoot, .plain "notify" ⟨0x0001⟩⟩ := by decide +kernel
  have howner : doublet.load doubletOwner.name = .ok doubletOwner := rfl
  have htask : doublet.load doubletInterface.name = .ok doubletInterface := rfl
  have hname : isInitializerName "stop" = false := by decide
  have hstop : doublet.resolveClassMethod doubletOwner "stop" "()V" = .notFound := by
    decide +kernel
  have hstop' : doublet.resolveInterfaceMethod doubletInterface "stop" "()V" = .notFound := by
    decide +kernel
  have hloads := ((resolveMethod_exact doublet doubletOwner "stop" "()V").2.2.1 howner).1 hname hstop
  have hnone := ((resolveMethod_exact doublet doubletInterface "stop" "()V").2.2.1 htask).2 hstop'
  exact ⟨((resolveMethod_exact doublet doubletOwner "notify" "()V").1 _ hroot).2,
    ((resolveMethod_exact doublet doubletOwner "run" "()V").1 _ hinterface).2,
    ((resolveMethod_exact doublet doubletInterface "notify" "()V").2.1 _ hobject).2,
    howner, hname, hstop, hloads.1, htask, hstop', hnone.2.1⟩

def namesakeOwner : ClassDefinition :=
  .plain ⟨"q/Job"⟩ ⟨"q/Base"⟩

/-- Where the owner is looked for, another class with its name stands, which is above its superclass. -/
def namesake : Classpath :=
  .ofClasses [doubletRoot, doubletInterface, .plain ⟨"q/Base"⟩ ⟨"q/Job"⟩, doubletOwner]

/-- The second of two methods with one name and descriptor is not found, though it could be inherited. A
method is also not found if the way to it goes over another class with the name of the owner. -/
theorem resolveClassMethod_misses_second :
    (doublet.load doubletOwner.name = .ok doubletOwner ∧ isInitializerName "step" = false ∧
      doublet.resolveClassMethod doubletOwner "step" "()V" = .notFound ∧
      doublet.Superinterface doubletOwner doubletInterface ∧
      ∃ method ∈ doubletInterface.methods, method.name = "step" ∧ method.descriptor = "()V" ∧
        method.isInheritable = true) ∧
      namesake.load namesakeOwner.name ≠ .ok namesakeOwner ∧ isInitializerName "run" = false ∧
      namesake.resolveClassMethod namesakeOwner "run" "()V" = .notFound ∧
      namesake.resolveInterfaceMethod namesakeOwner "run" "()V" = .notFound ∧
      namesake.Superinterface namesakeOwner doubletInterface ∧
      ∃ method, doubletInterface.findMethod? "run" "()V" = some method ∧
        method.isInheritable = true := by
  have htask : ∀ {classpath : Classpath}, classpath.load ⟨"q/Task"⟩ = .ok doubletInterface →
      classpath.Implements doubletOwner doubletInterface :=
    fun hload => ⟨⟨"q/Task"⟩, List.mem_singleton_self _, hload⟩
  have hsecond : doublet.Superinterface doubletOwner doubletInterface :=
    ⟨doubletOwner, doubletInterface, .refl, htask rfl, .refl⟩
  -- the walk over superclasses does not go back to the name from which it started
  have hbase : namesake.Extends namesakeOwner (.plain ⟨"q/Base"⟩ ⟨"q/Job"⟩) :=
    ⟨⟨"q/Base"⟩, List.mem_singleton_self _, rfl⟩
  have hback : namesake.Extends (.plain ⟨"q/Base"⟩ ⟨"q/Job"⟩) doubletOwner :=
    ⟨⟨"q/Job"⟩, List.mem_singleton_self _, rfl⟩
  have hbehind : namesake.Superinterface namesakeOwner doubletInterface :=
    ⟨doubletOwner, doubletInterface, .tail (.single hbase) hback, htask rfl, .refl⟩
  exact ⟨⟨rfl, by decide, by decide +kernel, hsecond, .plain "step" ⟨0x0401⟩, by decide, rfl, rfl,
    by decide⟩, by decide +kernel, by decide, by decide +kernel, by decide +kernel, hbehind,
    .plain "run" ⟨0x0001⟩, rfl, by decide⟩

end Classpath

end LinkCheck
