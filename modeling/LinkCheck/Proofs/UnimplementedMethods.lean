import LinkCheck.Proofs.OptionFilters
import LinkCheck.Proofs.SpecificDefaults

/-!
# Reports of methods without an implementation

A concrete class is reported for a method that it has to implement exactly where the method that is selected
at run time has no body, with one exception. An interface may give up the body that a method has in an
interface it extends. Then nothing is reported, because the body is still found among the superinterfaces.

## Main definitions

- `Classpath.Inherits` — the method of the nearest superclass that has one
- `Classpath.Requires` — a class has to have a method
- `Classpath.LacksImplementation` — the method that is selected has no body
- `Classpath.Reabstracted` — all methods with a body are overridden by methods without one

## Main results

- `Classpath.isImplemented_iff` — when a check takes a method for implemented
- `verify_methodNotImplemented_iff` — when a method is reported
-/

namespace LinkCheck

open Relation

namespace Classpath

variable {classpath : Classpath} {definition : ClassDefinition} {name descriptor : String}

/-- The nearest of a class and its superclasses that hands on a method hands on this one. -/
inductive Inherits (classpath : Classpath) (name descriptor : String) :
    ClassDefinition → MethodDefinition → Prop
  | own {definition : ClassDefinition} {method : MethodDefinition}
      (inherited : definition.inherited? name descriptor = some method) :
      Inherits classpath name descriptor definition method
  | above {definition superclass : ClassDefinition} {method : MethodDefinition}
      (silent : definition.inherited? name descriptor = none)
      (step : classpath.Extends definition superclass)
      (nearest : Inherits classpath name descriptor superclass method) :
      Inherits classpath name descriptor definition method

/-- Neither a class nor a superclass hands on a method. -/
def Silent (classpath : Classpath) (definition : ClassDefinition) (name descriptor : String) : Prop :=
  ∀ each, ReflTransGen classpath.Extends definition each → each.inherited? name descriptor = none

/-- A superinterface hands on a method with a body. -/
def HasDefault (classpath : Classpath) (definition : ClassDefinition) (name descriptor : String) : Prop :=
  ∃ interface, classpath.Superinterface definition interface ∧
    ∃ method, interface.inherited? name descriptor = some method ∧ method.isAbstract = false

/-- A superclass or superinterface leaves it to others to implement a method. -/
def Requires (classpath : Classpath) (definition : ClassDefinition) (name descriptor : String) : Prop :=
  ∃ declaring, (ReflTransGen classpath.Extends definition declaring ∨
      classpath.Superinterface definition declaring) ∧
    ∃ method ∈ declaring.methods, method.name = name ∧ method.descriptor = descriptor ∧
      method.isAbstract = true ∧ method.isInheritable = true

/-- The method that is selected for a class has no body: it is that of the nearest superclass, or one of the
maximally specific ones of the superinterfaces if no superclass has one. -/
def LacksImplementation (classpath : Classpath) (definition : ClassDefinition)
    (name descriptor : String) : Prop :=
  (∃ method, classpath.Inherits name descriptor definition method ∧ method.isAbstract = true) ∨
    classpath.Silent definition name descriptor ∧
      ∀ resolved, classpath.MaximallySpecific definition name descriptor resolved →
        resolved.method.isAbstract = true

/-- Superinterfaces have bodies for a method, but no maximally specific method has one, and no superclass
hands on a method. -/
structure Reabstracted (classpath : Classpath) (definition : ClassDefinition)
    (name descriptor : String) : Prop where
  silent : classpath.Silent definition name descriptor
  default : classpath.HasDefault definition name descriptor
  overridden : ∀ resolved, classpath.MaximallySpecific definition name descriptor resolved →
    resolved.method.isAbstract = true

theorem Extends.unique {first second : ClassDefinition} (hfirst : classpath.Extends definition first)
    (hsecond : classpath.Extends definition second) : first = second := by
  obtain ⟨name, hname, hload⟩ := hfirst
  obtain ⟨other, hother, hload'⟩ := hsecond
  rw [Option.mem_toList] at hname hother
  cases hname.symm.trans hother
  exact Except.ok.inj (hload.symm.trans hload')

theorem Inherits.unique {first second : MethodDefinition}
    (hfirst : classpath.Inherits name descriptor definition first)
    (hsecond : classpath.Inherits name descriptor definition second) : first = second := by
  induction hfirst with
  | own hinherited =>
    cases hsecond with
    | own hother => exact Option.some.inj (hinherited.symm.trans hother)
    | above hsilent _ _ => cases hinherited.symm.trans hsilent
  | above hsilent hstep _ ih =>
    cases hsecond with
    | own hother => cases hsilent.symm.trans hother
    | above _ hother hnearest =>
      cases hstep.unique hother
      exact ih hnearest

theorem Inherits.not_silent {method : MethodDefinition}
    (h : classpath.Inherits name descriptor definition method) :
    ¬classpath.Silent definition name descriptor := by
  intro hsilent
  induction h with
  | own hinherited => cases hinherited.symm.trans (hsilent _ .refl)
  | above _ hstep _ ih => exact ih fun each heach => hsilent each (.head hstep heach)

theorem inherits_of_findSome? {chain : List ClassDefinition}
    (hchain : (definition :: chain).IsChain classpath.Extends) {method : MethodDefinition}
    (h : (definition :: chain).findSome? (·.inherited? name descriptor) = some method) :
    classpath.Inherits name descriptor definition method := by
  induction chain generalizing definition with
  | nil =>
    obtain ⟨each, hmem, hinherited⟩ := List.exists_of_findSome?_eq_some h
    rw [List.mem_singleton.1 hmem] at hinherited
    exact .own hinherited
  | cons superclass chain ih =>
    obtain ⟨hstep, hchain⟩ := List.isChain_cons_cons.1 hchain
    rw [List.findSome?_cons] at h
    cases hinherited : definition.inherited? name descriptor with
    | some other =>
      rw [hinherited] at h
      cases h
      exact .own hinherited
    | none =>
      rw [hinherited] at h
      exact .above hinherited hstep (ih hchain h)

section Chain

variable (howner : classpath.load definition.name = .ok definition)
  (hstopped : (classpath.classChain definition).stopped = none)

include howner hstopped

theorem silent_iff : classpath.Silent definition name descriptor ↔
    (classpath.classChain definition).loaded.findSome? (·.inherited? name descriptor) = none := by
  rw [List.findSome?_eq_none_iff]
  exact forall_congr' fun each => by rw [mem_classChain_iff howner hstopped]

/-- The chain of a class gives the method of the nearest superclass. -/
theorem inherits_iff {method : MethodDefinition} :
    classpath.Inherits name descriptor definition method ↔
      (classpath.classChain definition).loaded.findSome? (·.inherited? name descriptor) =
        some method := by
  have hfound : ∀ {other}, (classpath.classChain definition).loaded.findSome?
      (·.inherited? name descriptor) = some other →
        classpath.Inherits name descriptor definition other :=
    inherits_of_findSome? (classpath.isChain_classChain definition)
  refine ⟨fun h => ?_, hfound⟩
  cases hother : (classpath.classChain definition).loaded.findSome? (·.inherited? name descriptor) with
  | none => exact absurd ((silent_iff howner hstopped).2 hother) h.not_silent
  | some other => rw [(hfound hother).unique h]

theorem silent_or_inherits : classpath.Silent definition name descriptor ∨
    ∃ method, classpath.Inherits name descriptor definition method := by
  cases h : (classpath.classChain definition).loaded.findSome? (·.inherited? name descriptor) with
  | none => exact .inl ((silent_iff howner hstopped).2 h)
  | some method => exact .inr ⟨method, (inherits_iff howner hstopped).2 h⟩

end Chain

end Classpath

namespace LinkContext

variable {chain interfaces : List ClassDefinition} {name descriptor : String}

/-- Of the members with a name and descriptor one is kept. -/
theorem exists_mem_distinctMembers_iff (members : List MemberRef) :
    (∃ member ∈ distinctMembers members, member.name = name ∧ member.descriptor = descriptor) ↔
      ∃ member ∈ members, member.name = name ∧ member.descriptor = descriptor := by
  -- what is left out for the first member has its name and descriptor, so the length of the rest goes down
  induction hlength : members.length using Nat.strong_induction_on generalizing members with
  | _ length ih =>
    cases members with
    | nil => rfl
    | cons first members =>
      subst hlength
      have hrest := ih _ (Nat.lt_succ_of_le (List.length_filter_le
        (fun member => decide ((member.name = first.name && member.descriptor = first.descriptor) = false))
        members)) _ rfl
      unfold distinctMembers at hrest ⊢
      rw [List.eraseDupsBy_cons, List.exists_mem_cons_iff, List.exists_mem_cons_iff, hrest]
      refine or_congr_right' fun hfirst => ?_
      refine exists_congr fun member => ?_
      rw [List.mem_filter, and_assoc]
      refine and_congr_right fun _ => and_iff_right_of_imp fun ⟨hname, hdescriptor⟩ => ?_
      grind

/-- Only the name and descriptor of a method decide whether it is implemented. -/
theorem isImplemented_iff (member : MemberRef) : isImplemented chain interfaces member = true ↔
    (∃ method, chain.findSome? (·.inherited? member.name member.descriptor) = some method ∧
      method.isAbstract = false) ∨
    chain.findSome? (·.inherited? member.name member.descriptor) = none ∧
      ∃ interface ∈ interfaces, ∃ method,
        interface.inherited? member.name member.descriptor = some method ∧
          method.isAbstract = false := by
  have hinherited : ∀ definition : ClassDefinition,
      (definition.findMethod? member.name member.descriptor).filter (·.isInheritable) =
        definition.inherited? member.name member.descriptor := fun _ => rfl
  simp only [isImplemented, hinherited]
  cases chain.findSome? (·.inherited? member.name member.descriptor) with
  | some method => simp
  | none => simp [Option.any_eq_true]

end LinkContext

namespace Classpath

variable {classpath : Classpath} {definition : ClassDefinition} {name descriptor : String}
  {chain interfaces : List ClassDefinition}

theorem complete_classChain (hinterfaces : classpath.superinterfaces definition = .ok interfaces) :
    (classpath.classChain definition).complete = .ok (classpath.classChain definition).loaded := by
  rw [Trail.complete, (superinterfaces_eq_ok hinterfaces).1]

section Loaded

variable (howner : classpath.load definition.name = .ok definition)
  (hinterfaces : classpath.superinterfaces definition = .ok interfaces)

include howner hinterfaces

/-- A check takes a method for implemented if that of the nearest superclass has a body, or if no superclass
has one and any superinterface has one with a body. -/
theorem isImplemented_iff (member : MemberRef) :
    LinkContext.isImplemented (classpath.classChain definition).loaded interfaces member = true ↔
      (∃ method, classpath.Inherits member.name member.descriptor definition method ∧
        method.isAbstract = false) ∨
      classpath.Silent definition member.name member.descriptor ∧
        classpath.HasDefault definition member.name member.descriptor := by
  have hstopped := (superinterfaces_eq_ok hinterfaces).1
  simp only [LinkContext.isImplemented_iff, inherits_iff howner hstopped, silent_iff howner hstopped,
    HasDefault, mem_superinterfaces_iff howner hinterfaces]

theorem requires_iff : classpath.Requires definition name descriptor ↔
    ∃ member ∈ ((classpath.classChain definition).loaded ++ interfaces).flatMap
        LinkContext.abstractMethods,
      member.name = name ∧ member.descriptor = descriptor := by
  have hstopped := (superinterfaces_eq_ok hinterfaces).1
  simp only [Requires, List.mem_flatMap, List.mem_append, mem_classChain_iff howner hstopped,
    mem_superinterfaces_iff howner hinterfaces, LinkContext.abstractMethods, List.mem_map,
    List.mem_filter, Bool.and_eq_true]
  constructor
  · rintro ⟨declaring, hdeclaring, method, hmethod, hname, hdescriptor, hflags⟩
    exact ⟨_, ⟨declaring, hdeclaring, method, ⟨hmethod, hflags⟩, rfl⟩, hname, hdescriptor⟩
  · rintro ⟨_, ⟨declaring, hdeclaring, method, ⟨hmethod, hflags⟩, rfl⟩, hname, hdescriptor⟩
    exact ⟨declaring, hdeclaring, method, hmethod, hname, hdescriptor, hflags⟩

end Loaded

/-- What is missed is what is reabstracted. -/
theorem lacksImplementation_and_not_reabstracted_iff
    (h : classpath.Silent definition name descriptor ∨
      ∃ method, classpath.Inherits name descriptor definition method) :
    classpath.LacksImplementation definition name descriptor ∧
        ¬classpath.Reabstracted definition name descriptor ↔
      ¬((∃ method, classpath.Inherits name descriptor definition method ∧
          method.isAbstract = false) ∨
        classpath.Silent definition name descriptor ∧
          classpath.HasDefault definition name descriptor) := by
  obtain hsilent | ⟨method, hmethod⟩ := h
  · have hnone : ∀ method, ¬classpath.Inherits name descriptor definition method :=
      fun method hmethod => hmethod.not_silent hsilent
    constructor
    · rintro ⟨⟨method, hmethod, -⟩ | ⟨-, hspecific⟩, hreabstracted⟩
      · exact absurd hmethod (hnone method)
      · rintro (⟨method, hmethod, -⟩ | ⟨-, hdefault⟩)
        · exact hnone method hmethod
        · exact hreabstracted ⟨hsilent, hdefault, hspecific⟩
    · intro hnot
      have hdefault : ¬classpath.HasDefault definition name descriptor :=
        fun hdefault => hnot (.inr ⟨hsilent, hdefault⟩)
      refine ⟨.inr ⟨hsilent, fun resolved hresolved => ?_⟩, fun h => hdefault h.default⟩
      by_contra hbody
      exact hdefault ⟨resolved.declaring, hresolved.superinterface, resolved.method,
        hresolved.inherited, eq_false_of_ne_true hbody⟩
  · have hnot := hmethod.not_silent
    constructor
    · rintro ⟨⟨other, hother, habstract⟩ | ⟨hsilent, -⟩, -⟩
      · rintro (⟨third, hthird, hbody⟩ | ⟨hsilent, -⟩)
        · cases hother.unique hthird
          cases habstract.symm.trans hbody
        · exact hnot hsilent
      · exact absurd hsilent hnot
    · intro hbody
      refine ⟨.inl ⟨method, hmethod, ?_⟩, fun h => hnot h.silent⟩
      exact eq_true_of_ne_false fun h => hbody (.inl ⟨method, hmethod, h⟩)

end Classpath

namespace LinkContext

variable {context : LinkContext} {definition : ClassDefinition} {name descriptor : String}
  {member : MemberRef} {reported : ClassName}

theorem Plain.methodNotImplemented_notMem {problems : List Problem} (h : Plain problems) :
    .methodNotImplemented member reported ∉ problems := by
  intro hmem
  cases h _ hmem

/-- A method without an implementation is found in a class by the check for it only. -/
theorem mem_definitionFindings_iff (hcheck : context.options.checkMethodImplementation = true)
    (place : ClassName) :
    (.methodNotImplemented member reported, .ofClass place) ∈
        context.definitionFindings definition place ↔
      .methodNotImplemented member reported ∈ context.abstractMethodProblems definition := by
  simp [definitionFindings, foundAt, hcheck, (plain_superclassProblems _).methodNotImplemented_notMem,
    (plain_interfaceProblems _ _).methodNotImplemented_notMem,
    (plain_signatureProblems _).methodNotImplemented_notMem]

/-- What is found in a class as a whole is placed at the name under which the class was looked up. -/
theorem name_eq_of_mem_classFindings {plugin : Classpath} {problem : Problem} {looked place : ClassName}
    (h : (problem, .ofClass place) ∈ context.classFindings plugin looked) : place = looked := by
  unfold classFindings at h
  split at h
  · cases h
  · cases List.mem_singleton.1 h
    rfl
  · simp only [definitionFindings, foundAt, List.mem_append, List.mem_map, List.mem_flatMap,
      Prod.mk.injEq, reduceCtorEq, and_false, exists_false, or_false, Location.ofClass.injEq] at h
    grind

/-- A concrete class is reported for a method that it has to have and that is not taken for implemented. -/
theorem exists_mem_abstractMethodProblems_iff
    (howner : context.classpath.load definition.name = .ok definition)
    (habstract : definition.isAbstract = false) (hinterface : definition.isInterface = false)
    (hloads : context.classpath.Loads definition)
    (hrequires : context.classpath.Requires definition name descriptor) :
    (∃ owner, .methodNotImplemented ⟨owner, name, descriptor⟩ definition.name ∈
        context.abstractMethodProblems definition) ↔
      ¬((∃ method, context.classpath.Inherits name descriptor definition method ∧
          method.isAbstract = false) ∨
        context.classpath.Silent definition name descriptor ∧
          context.classpath.HasDefault definition name descriptor) := by
  obtain ⟨interfaces, hinterfaces⟩ := hloads.exists_superinterfaces
  obtain ⟨⟨owner, _, _⟩, hmem, rfl, rfl⟩ := (exists_mem_distinctMembers_iff _).2
    ((Classpath.requires_iff howner hinterfaces).1 hrequires)
  simp only [abstractMethodProblems, unimplementedProblems, habstract, hinterface, Bool.or_self,
    Bool.false_eq_true, if_false, Classpath.complete_classChain hinterfaces, hinterfaces, List.mem_map,
    List.mem_filter,
    Bool.not_eq_true', ← Bool.not_eq_true, Classpath.isImplemented_iff howner hinterfaces]
  constructor
  · rintro ⟨_, _, ⟨_, himplemented⟩, hsame⟩
    cases hsame
    exact himplemented
  · intro himplemented
    exact ⟨owner, _, ⟨hmem, himplemented⟩, rfl⟩

end LinkContext

/-- What is found in a class as a whole is found when the class of that name is checked. -/
theorem holds_verify_ofClass_iff {plugin classpath : Classpath} {options : Options}
    {definition : ClassDefinition} (hplugin : plugin.find definition.name = .ok (some definition))
    (problem : Problem) :
    (verify plugin classpath options).Holds problem (.ofClass definition.name) ↔
      (problem, .ofClass definition.name) ∈
        LinkContext.definitionFindings ⟨classpath, options⟩ definition definition.name := by
  have hfindings : LinkContext.classFindings ⟨classpath, options⟩ plugin definition.name =
      LinkContext.definitionFindings ⟨classpath, options⟩ definition definition.name := by
    rw [LinkContext.classFindings, hplugin]
  have hname : definition.name ∈ plugin.names := by
    by_contra habsent
    rw [Classpath.find, if_neg habsent] at hplugin
    cases hplugin
  rw [verify, ProblemSet.holds_ofFindings, List.mem_flatMap, ← hfindings]
  constructor
  · rintro ⟨name, -, hfound⟩
    obtain rfl := LinkContext.name_eq_of_mem_classFindings hfound
    exact hfound
  · intro hfound
    exact ⟨definition.name, (mem_sorted _ _).2 hname, hfound⟩

/-- A method that a concrete class has to implement is reported exactly where the method that is selected has
no body, unless an interface gave up a body that is still found. -/
theorem verify_methodNotImplemented_iff (plugin classpath : Classpath) (options : Options)
    (hcheck : options.checkMethodImplementation = true) (definition : ClassDefinition)
    (hplugin : plugin.find definition.name = .ok (some definition))
    (howner : classpath.load definition.name = .ok definition)
    (habstract : definition.isAbstract = false) (hinterface : definition.isInterface = false)
    (hloads : classpath.Loads definition) (name descriptor : String)
    (hrequires : classpath.Requires definition name descriptor) :
    (∃ owner, (verify plugin classpath options).Holds
        (.methodNotImplemented ⟨owner, name, descriptor⟩ definition.name)
        (.ofClass definition.name)) ↔
      classpath.LacksImplementation definition name descriptor ∧
        ¬classpath.Reabstracted definition name descriptor := by
  obtain ⟨interfaces, hinterfaces⟩ := hloads.exists_superinterfaces
  have hfound : classpath.Silent definition name descriptor ∨
      ∃ method, classpath.Inherits name descriptor definition method :=
    Classpath.silent_or_inherits howner (Classpath.superinterfaces_eq_ok hinterfaces).1
  let context : LinkContext := ⟨classpath, options⟩
  calc (∃ owner, (verify plugin classpath options).Holds
          (.methodNotImplemented ⟨owner, name, descriptor⟩ definition.name) (.ofClass definition.name))
      ↔ ∃ owner, .methodNotImplemented ⟨owner, name, descriptor⟩ definition.name ∈
          context.abstractMethodProblems definition := exists_congr fun owner => by
        rw [holds_verify_ofClass_iff hplugin, LinkContext.mem_definitionFindings_iff hcheck]
    _ ↔ _ := LinkContext.exists_mem_abstractMethodProblems_iff howner habstract hinterface hloads
        hrequires
    _ ↔ _ := (Classpath.lacksImplementation_and_not_reabstracted_iff hfound).symm

def bodilessMethod : MethodDefinition :=
  .plain "greet" ⟨0x0401⟩

/-- An interface that gives up the body of the method that it inherits. -/
def reabstracting : ClassDefinition :=
  { Classpath.subInterface with name := ⟨"q/Reabstracting"⟩, methods := [bodilessMethod] }

def demanding : ClassDefinition :=
  { Classpath.baseInterface with name := ⟨"q/Demanding"⟩, methods := [bodilessMethod] }

def reabstractedClass : ClassDefinition :=
  { ClassDefinition.plain ⟨"q/Reabstracted"⟩ .object with interfaces := [reabstracting.name] }

def bodilessClass : ClassDefinition :=
  { ClassDefinition.plain ⟨"q/Bodiless"⟩ .object with interfaces := [demanding.name] }

def bodiless : Classpath :=
  .ofClasses [Classpath.rootClass, Classpath.baseInterface, reabstracting,
    demanding, reabstractedClass, bodilessClass]

/-- A class with an interface that leaves the method to others is reported. -/
theorem verify_methodNotImplemented_iff_bodiless :
    bodiless.find bodilessClass.name = .ok (some bodilessClass) ∧
      bodiless.load bodilessClass.name = .ok bodilessClass ∧ bodilessClass.isAbstract = false ∧
      bodilessClass.isInterface = false ∧ bodiless.Loads bodilessClass ∧
      bodiless.Requires bodilessClass "greet" "()V" ∧
      bodiless.LacksImplementation bodilessClass "greet" "()V" ∧
      ¬bodiless.Reabstracted bodilessClass "greet" "()V" ∧
      ∃ owner, (verify bodiless bodiless {}).Holds
        (.methodNotImplemented ⟨owner, "greet", "()V"⟩ bodilessClass.name)
        (.ofClass bodilessClass.name) := by
  have hload : bodiless.load bodilessClass.name = .ok bodilessClass := rfl
  have hinterfaces : bodiless.superinterfaces bodilessClass = .ok [demanding] := by decide +kernel
  have hloads := Classpath.loads_of_superinterfaces hload hinterfaces
  have hsilent : bodiless.Silent bodilessClass "greet" "()V" :=
    (Classpath.silent_iff hload (by decide +kernel)).2 (by decide +kernel)
  have hrequires : bodiless.Requires bodilessClass "greet" "()V" :=
    (Classpath.requires_iff hload hinterfaces).2 (by decide +kernel)
  have hsuper : ∀ each, bodiless.Superinterface bodilessClass each → each = demanding := fun each heach =>
    List.mem_singleton.1 ((Classpath.mem_superinterfaces_iff hload hinterfaces).2 heach)
  have hbodiless : ∀ each, bodiless.Superinterface bodilessClass each → ∀ method,
      each.inherited? "greet" "()V" = some method → method.isAbstract = true := by
    intro each heach method hmethod
    obtain rfl := hsuper each heach
    cases hmethod
    rfl
  have hlacks : bodiless.LacksImplementation bodilessClass "greet" "()V" :=
    .inr ⟨hsilent, fun resolved h => hbodiless _ h.superinterface _ h.inherited⟩
  have hnot : ¬bodiless.Reabstracted bodilessClass "greet" "()V" := by
    intro hreabstracted
    obtain ⟨each, heach, method, hmethod, hbody⟩ := hreabstracted.default
    cases (hbodiless each heach method hmethod).symm.trans hbody
  exact ⟨rfl, hload, by decide, by decide, hloads, hrequires, hlacks, hnot,
    (verify_methodNotImplemented_iff bodiless bodiless {} rfl bodilessClass rfl hload (by decide) (by decide)
      hloads "greet" "()V" hrequires).2 ⟨hlacks, hnot⟩⟩

/-- A class is not reported whose interface gave up the body of an inherited method. -/
theorem verify_misses_reabstracted :
    bodiless.Acyclic ∧ bodiless.find reabstractedClass.name = .ok (some reabstractedClass) ∧
      bodiless.load reabstractedClass.name = .ok reabstractedClass ∧ reabstractedClass.isAbstract = false ∧
      reabstractedClass.isInterface = false ∧ bodiless.Loads reabstractedClass ∧
      bodiless.Requires reabstractedClass "greet" "()V" ∧
      bodiless.LacksImplementation reabstractedClass "greet" "()V" ∧
      (verify bodiless bodiless {}).problems =
        [.methodNotImplemented ⟨⟨"q/Demanding"⟩, "greet", "()V"⟩ bodilessClass.name] := by
  have hacyclic : bodiless.Acyclic := Classpath.acyclic_of_rank
    [.object, ⟨"q/Base"⟩, ⟨"q/Reabstracting"⟩, ⟨"q/Demanding"⟩, ⟨"q/Reabstracted"⟩,
      ⟨"q/Bodiless"⟩].idxOf (by decide +kernel)
  have hload : bodiless.load reabstractedClass.name = .ok reabstractedClass := rfl
  have hinterfaces : bodiless.superinterfaces reabstractedClass =
      .ok [reabstracting, Classpath.baseInterface] := by decide +kernel
  have hsilent : bodiless.Silent reabstractedClass "greet" "()V" :=
    (Classpath.silent_iff hload (by decide +kernel)).2 (by decide +kernel)
  have hsuper : ∀ each, each ∈ [reabstracting, Classpath.baseInterface] ↔
      bodiless.Superinterface reabstractedClass each := fun each =>
    Classpath.mem_superinterfaces_iff hload hinterfaces
  have hextends : bodiless.Implements reabstracting Classpath.baseInterface :=
    ⟨⟨"q/Base"⟩, List.mem_singleton_self _, rfl⟩
  have hlacks : bodiless.LacksImplementation reabstractedClass "greet" "()V" := by
    refine .inr ⟨hsilent, fun ⟨declaring, method⟩ ⟨hdeclaring, hinherited, hspecific⟩ => ?_⟩
    obtain rfl | rfl : declaring = reabstracting ∨ declaring = Classpath.baseInterface := by
      simpa using (hsuper declaring).2 hdeclaring
    · cases hinherited
      rfl
    · have hne : reabstracting ≠ Classpath.baseInterface := by decide
      exact absurd (.single hextends)
        (hspecific reabstracting ((hsuper _).1 List.mem_cons_self) hne (by decide))
  exact ⟨hacyclic, rfl, hload, by decide, by decide, Classpath.loads_of_superinterfaces hload hinterfaces,
    (Classpath.requires_iff hload hinterfaces).2 (by decide +kernel), hlacks, by decide +kernel⟩

end LinkCheck
