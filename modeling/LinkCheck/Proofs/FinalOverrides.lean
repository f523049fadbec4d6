import LinkCheck.Proofs.OptionFilters
import LinkCheck.Proofs.PlainClasses
import LinkCheck.Proofs.Supertypes

/-!
# Final methods that are overridden

A class may not override a final method. Which method it overrides is told by its superclasses: the nearest
one decides that declares the method such that the class can override it, and all others count for nothing.
The superclasses of a broken class may go in circles; the way up then ends where it would come back to the
class.

## Main definitions

- `Classpath.Climbs` — the way up from a class
- `Classpath.ChainLoads` — all superclasses on this way can be loaded
- `ClassDefinition.CanOverride` — which methods a class can override
- `Classpath.Overrides` — the nearest method that a class can override

## Main results

- `Classpath.stopped_classChain_iff` — a chain does not break off if all superclasses can be loaded
- `Classpath.findSome?_classChain_iff` — the chain tells what is overridden
- `verify_overridingFinalMethod_iff` — what is reported of final methods
-/

namespace LinkCheck

open Relation

/-- A class can override what is public or protected, and within its package what has no access level. -/
def ClassDefinition.CanOverride (definition declaring : ClassDefinition) (method : MethodDefinition) :
    Prop :=
  method.visibility = .publicAccess ∨ method.visibility = .protectedAccess ∨
    method.visibility = .packageAccess ∧ declaring.name.package = definition.name.package

theorem LinkContext.canOverride_iff (definition : ClassDefinition) (resolved : ResolvedMethod) :
    canOverride definition resolved = true ↔
      definition.CanOverride resolved.declaring resolved.method := by
  unfold canOverride ClassDefinition.CanOverride
  cases resolved.method.visibility <;> simp [ClassName.samePackage]

namespace Classpath

variable {classpath : Classpath} {start current parent declaring : ClassDefinition}
  {name descriptor : String} {method : MethodDefinition}

/-- A class has another as its superclass, which is not the class where the way up has started. -/
def Climbs (classpath : Classpath) (start first second : ClassDefinition) : Prop :=
  ∃ superName, first.superName = some superName ∧ superName ≠ start.name ∧
    classpath.load superName = .ok second

/-- All superclasses of a class can be loaded. -/
def ChainLoads (classpath : Classpath) (start : ClassDefinition) : Prop :=
  ∀ current, ReflTransGen (classpath.Climbs start) start current →
    ∀ superName, current.superName = some superName → superName ≠ start.name →
      ∃ parent, classpath.load superName = .ok parent

/-- The nearest method above one of the superclasses of a class that the class can override. A superclass
whose method it cannot override is passed over like one without such a method. -/
inductive Overrides (classpath : Classpath) (start : ClassDefinition) (name descriptor : String) :
    ClassDefinition → ClassDefinition → MethodDefinition → Prop
  | here {current declaring : ClassDefinition} {method : MethodDefinition}
      (step : classpath.Climbs start current declaring)
      (declared : declaring.findMethod? name descriptor = some method)
      (overridable : start.CanOverride declaring method) :
      Overrides classpath start name descriptor current declaring method
  | above {current parent declaring : ClassDefinition} {method : MethodDefinition}
      (step : classpath.Climbs start current parent)
      (passed : ∀ method, parent.findMethod? name descriptor = some method →
        ¬start.CanOverride parent method)
      (overrides : Overrides classpath start name descriptor parent declaring method) :
      Overrides classpath start name descriptor current declaring method

theorem Climbs.unique {other : ClassDefinition} (h : classpath.Climbs start current parent)
    (hother : classpath.Climbs start current other) : parent = other := by
  obtain ⟨superName, hsuper, -, hload⟩ := h
  obtain ⟨otherName, hotherSuper, -, hotherLoad⟩ := hother
  cases hsuper.symm.trans hotherSuper
  exact Except.ok.inj (hload.symm.trans hotherLoad)

/-- A class overrides one method of a name and descriptor at most. -/
theorem Overrides.unique {other : ClassDefinition} {otherMethod : MethodDefinition}
    (h : classpath.Overrides start name descriptor current declaring method)
    (hother : classpath.Overrides start name descriptor current other otherMethod) :
    declaring = other ∧ method = otherMethod := by
  induction h with
  | here hstep hdeclared hcan =>
    cases hother with
    | here hotherStep hotherDeclared _ =>
      cases hstep.unique hotherStep
      cases hdeclared.symm.trans hotherDeclared
      exact ⟨rfl, rfl⟩
    | above hotherStep hpassed _ =>
      cases hstep.unique hotherStep
      exact absurd hcan (hpassed _ hdeclared)
  | above hstep hpassed _ ih =>
    cases hother with
    | here hotherStep hotherDeclared hcan =>
      cases hstep.unique hotherStep
      exact absurd hcan (hpassed _ hotherDeclared)
    | above hotherStep _ hotherAbove =>
      cases hstep.unique hotherStep
      exact ih hotherAbove

theorem Overrides.named (h : classpath.Overrides start name descriptor current declaring method) :
    method.name = name ∧ method.descriptor = descriptor := by
  induction h with
  | here _ hdeclared _ => simpa using List.find?_some hdeclared
  | above _ _ _ ih => exact ih

/-- Nothing is overridden among classes that are all passed over, if the way up does not leave them. -/
theorem not_overrides_of_closed (among : ClassDefinition → Prop)
    (hclosed : ∀ first second, among first → classpath.Climbs start first second → among second ∧
      ∀ method, second.findMethod? name descriptor = some method → ¬start.CanOverride second method)
    (h : among current) : ¬classpath.Overrides start name descriptor current declaring method := by
  intro hoverrides
  induction hoverrides with
  | here hstep hdeclared hcan => exact (hclosed _ _ h hstep).2 _ hdeclared hcan
  | above hstep _ _ ih => exact ih (hclosed _ _ h hstep).1

/-- A chain is gone along on the way up. -/
theorem isChain_climbs (classpath : Classpath) (start : ClassDefinition) :
    (classpath.classChain start).loaded.IsChain (classpath.Climbs start) := by
  refine List.IsChain.imp ?_ (isChain_walk rfl)
  rintro first second ⟨superName, hsuper, hunseen, hload⟩
  exact ⟨superName, Option.mem_toList.1 hsuper, fun hsame => hunseen (List.mem_singleton.2 hsame),
    hload⟩

theorem climbed_of_mem_classChain (h : current ∈ (classpath.classChain start).loaded) :
    ReflTransGen (classpath.Climbs start) start current := by
  obtain rfl | hlater := List.mem_cons.1 h
  · exact .refl
  · have hpairwise := (List.IsChain.imp (fun _ _ => ReflTransGen.single)
      (classpath.isChain_climbs start)).pairwise
    exact List.rel_of_pairwise_cons hpairwise hlater

/-- The way up does not leave a chain that does not break off. -/
theorem mem_tail_of_climbs (hchain : (classpath.classChain start).stopped = none)
    (h : current ∈ (classpath.classChain start).loaded) (hstep : classpath.Climbs start current parent) :
    parent ∈ (classpath.classChain start).loaded.tail := by
  obtain ⟨superName, hsuper, hother, hload⟩ := hstep
  obtain hback | ⟨found, hfound, hsame⟩ :=
    eq_or_exists_mem_classChain hchain h (Option.mem_toList.2 hsuper)
  · exact absurd hback hother
  · cases hload.symm.trans hsame
    exact hfound

theorem mem_classChain_of_climbed (hchain : (classpath.classChain start).stopped = none)
    (h : ReflTransGen (classpath.Climbs start) start current) :
    current ∈ (classpath.classChain start).loaded := by
  induction h with
  | refl => exact classpath.owner_mem_classChain start
  | tail _ hstep ih => exact .tail _ (mem_tail_of_climbs hchain ih hstep)

/-- A chain does not break off just if all superclasses can be loaded. -/
theorem stopped_classChain_iff :
    (classpath.classChain start).stopped = none ↔ classpath.ChainLoads start := by
  constructor
  · intro hchain current hreached superName hsuper hother
    have hmem := mem_classChain_of_climbed hchain hreached
    obtain hback | ⟨parent, _, hload⟩ :=
      eq_or_exists_mem_classChain hchain hmem (Option.mem_toList.2 hsuper)
    · exact absurd hback hother
    · exact ⟨parent, hload⟩
  · intro hloads
    rw [Option.eq_none_iff_forall_ne_some]
    intro unresolved hstopped
    obtain ⟨superName, hfailed, hnamed⟩ :=
      exists_of_stopped_walk (fun definition => definition.superName.toList)
        (fun _ _ _ hname => .inr hname) hstopped
    have hother : superName ≠ start.name := by
      intro hsame
      apply not_mem_of_stopped_walk hstopped
      rw [name_of_load_error hfailed]
      exact List.mem_singleton.2 hsame
    obtain ⟨current, hcurrent, hsuper⟩ : ∃ current ∈ (classpath.classChain start).loaded,
        current.superName = some superName := by
      obtain hfirst | ⟨current, hcurrent, hlater⟩ := hnamed
      · exact ⟨start, classpath.owner_mem_classChain start, Option.mem_toList.1 hfirst⟩
      · exact ⟨current, .tail _ hcurrent, Option.mem_toList.1 hlater⟩
    obtain ⟨parent, hload⟩ :=
      hloads current (climbed_of_mem_classChain hcurrent) superName hsuper hother
    cases hfailed.symm.trans hload

/-- The method of a superclass that a class can override. -/
def overridableIn? (start : ClassDefinition) (name descriptor : String)
    (superclass : ClassDefinition) : Option ResolvedMethod :=
  (superclass.declaredMethod? name descriptor).filter (LinkContext.canOverride start)

theorem overridableIn?_eq_some_iff :
    overridableIn? start name descriptor parent = some ⟨declaring, method⟩ ↔
      parent = declaring ∧ declaring.findMethod? name descriptor = some method ∧
        start.CanOverride declaring method := by
  rw [overridableIn?, Option.filter_eq_some_iff, LinkContext.canOverride_iff,
    ClassDefinition.declaredMethod?, Option.map_eq_some_iff]
  constructor
  · rintro ⟨⟨found, hfound, hsame⟩, hcan⟩
    cases hsame
    exact ⟨rfl, hfound, hcan⟩
  · rintro ⟨rfl, hfound, hcan⟩
    exact ⟨⟨method, hfound, rfl⟩, hcan⟩

theorem overridableIn?_eq_none_iff :
    overridableIn? start name descriptor parent = none ↔
      ∀ method, parent.findMethod? name descriptor = some method → ¬start.CanOverride parent method := by
  rw [Option.eq_none_iff_forall_ne_some]
  constructor
  · intro h method hdeclared hcan
    exact h ⟨parent, method⟩ (overridableIn?_eq_some_iff.2 ⟨rfl, hdeclared, hcan⟩)
  · rintro h ⟨declaring, method⟩ hfound
    obtain ⟨rfl, hdeclared, hcan⟩ := overridableIn?_eq_some_iff.1 hfound
    exact h method hdeclared hcan

/-- The first of the classes on the way up with a method that can be overridden has the nearest one. -/
theorem overrides_of_findSome? {superclasses : List ClassDefinition}
    (hchain : (current :: superclasses).IsChain (classpath.Climbs start))
    (h : superclasses.findSome? (overridableIn? start name descriptor) = some ⟨declaring, method⟩) :
    classpath.Overrides start name descriptor current declaring method := by
  induction superclasses generalizing current with
  | nil => cases h
  | cons parent others ih =>
    obtain ⟨hstep, hrest⟩ := List.isChain_cons_cons.1 hchain
    rw [List.findSome?_cons] at h
    cases hfirst : overridableIn? start name descriptor parent with
    | some found =>
      rw [hfirst] at h
      cases h
      obtain ⟨rfl, hdeclared, hcan⟩ := overridableIn?_eq_some_iff.1 hfirst
      exact .here hstep hdeclared hcan
    | none =>
      rw [hfirst] at h
      exact .above hstep (overridableIn?_eq_none_iff.1 hfirst) (ih hrest h)

/-- A chain that does not break off tells what is overridden. -/
theorem findSome?_classChain_iff (hchain : (classpath.classChain start).stopped = none) :
    (classpath.classChain start).loaded.tail.findSome? (overridableIn? start name descriptor) =
        some ⟨declaring, method⟩ ↔
      classpath.Overrides start name descriptor start declaring method := by
  refine ⟨overrides_of_findSome? (classpath.isChain_climbs start), fun hoverrides => ?_⟩
  cases hfound : (classpath.classChain start).loaded.tail.findSome?
      (overridableIn? start name descriptor) with
  | some found =>
    obtain ⟨rfl, rfl⟩ :=
      (overrides_of_findSome? (classpath.isChain_climbs start) hfound).unique hoverrides
    rfl
  | none =>
    -- all classes of the chain are passed over, and a way up in circles stays among them
    refine absurd hoverrides (not_overrides_of_closed (· ∈ (classpath.classChain start).loaded)
      (fun first second hfirst hstep => ?_) (classpath.owner_mem_classChain start))
    have hsecond := mem_tail_of_climbs hchain hfirst hstep
    exact ⟨.tail _ hsecond,
      overridableIn?_eq_none_iff.1 (List.findSome?_eq_none_iff.1 hfound second hsecond)⟩

end Classpath

namespace LinkContext

variable {context : LinkContext} {definition : ClassDefinition} {member : MemberRef}
  {reported : ClassName}

theorem plain_fieldProblems (ref : MemberRef) (field : FieldDefinition) :
    Plain (context.fieldProblems ref field) := by
  refine .append ?_ (plain_signatureProblems _)
  split
  · exact fun _ h => by cases h
  · exact plain_withClass (fun _ => rfl) fun _ _ h => by cases h

theorem plain_typeReferenceProblems (accessor : ClassDefinition) (name : ClassName)
    (usage : TypeUsage) : Plain (context.typeReferenceProblems accessor name usage) := by
  unfold typeReferenceProblems
  split
  · exact fun _ h => by cases h
  · refine plain_withClass (fun _ => rfl) fun target => .append ?_ ?_
    · split
      · exact plain_accessProblems _ _
      · exact fun _ h => by cases h
    · unfold instantiationProblems Plain
      grind [Problem.isOnOverriding]

theorem plain_withOwner {accessor : ClassDefinition} {owner : ClassName}
    {next : ClassDefinition → List Problem} (hnext : ∀ target, Plain (next target)) :
    Plain (context.withOwner accessor owner next) := by
  unfold withOwner
  split
  · split
    · exact fun _ h => by cases h
    · exact plain_typeProblems _
  · exact plain_withClass (fun _ => rfl) fun target =>
      .append (plain_accessProblems _ _) (hnext target)

theorem plain_unresolvedProblems (options : Options) (unresolved : Unresolved) :
    Plain (options.unresolvedProblems .classNotFound unresolved) := by
  intro problem h
  obtain ⟨reason, rfl⟩ | rfl := cases_of_mem_unresolvedProblems h <;> rfl

theorem plain_methodReferenceProblems (accessor : ClassDefinition) (ref : MemberRef)
    (invocation : Invocation) (interfaceConstant : Bool) :
    Plain (context.methodReferenceProblems accessor ref invocation interfaceConstant) := by
  refine plain_withOwner fun owner => ?_
  split
  · simp [Plain, Problem.isOnOverriding]
  · split
    · unfold resolvedMethodProblems invocationProblems invocationProblems.ifStatic Plain
      cases invocation <;> grind [Problem.isOnOverriding]
    · simp [Plain, Problem.isOnOverriding]
    · exact plain_unresolvedProblems _ _

theorem plain_fieldReferenceProblems (accessor : ClassDefinition) (ref : MemberRef)
    (instruction : FieldInstruction) :
    Plain (context.fieldReferenceProblems accessor ref instruction) := by
  refine plain_withOwner fun owner => ?_
  split
  · unfold resolvedFieldProblems fieldKindProblems finalFieldProblems Plain
    grind [Problem.isOnOverriding]
  · simp [Plain, Problem.isOnOverriding]
  · exact plain_unresolvedProblems _ _

theorem plain_referenceProblems (accessor : ClassDefinition) (reference : Reference) :
    Plain (context.referenceProblems accessor reference) := by
  cases reference with
  | type name usage => exact plain_typeReferenceProblems accessor name usage
  | method ref invocation interfaceConstant =>
    exact plain_methodReferenceProblems accessor ref invocation interfaceConstant
  | field ref instruction => exact plain_fieldReferenceProblems accessor ref instruction

theorem Plain.overridingFinalMethod_notMem {problems : List Problem} (h : Plain problems) :
    .overridingFinalMethod member reported ∉ problems := by
  intro hmem
  cases h _ hmem

/-- The nearest method that a class can override is reported if it is final. -/
theorem mem_finalOverrideProblems_of_chain {method : MethodDefinition}
    (hmethod : (method.isStatic || method.isPrivate || method.isInitializer) = false)
    (hchain : (context.classpath.classChain definition).stopped = none) :
    .overridingFinalMethod member reported ∈ context.finalOverrideProblems definition method ↔
      reported = definition.name ∧
      ∃ declaring overridden, context.classpath.Overrides definition method.name method.descriptor
          definition declaring overridden ∧
        member = ⟨declaring.name, method.name, method.descriptor⟩ ∧
        overridden.isFinal = true ∧ overridden.isStatic = false := by
  have hcomplete : (context.classpath.classChain definition).complete =
      .ok (context.classpath.classChain definition).loaded := by
    rw [Trail.complete, hchain]
  have hfound : ∀ declaring overridden, overridden? definition method
      (context.classpath.classChain definition).loaded.tail = some ⟨declaring, overridden⟩ ↔
        context.classpath.Overrides definition method.name method.descriptor definition declaring
          overridden :=
    fun _ _ => Classpath.findSome?_classChain_iff hchain
  simp only [finalOverrideProblems, overridingProblems, hmethod, Bool.false_eq_true, if_false,
    hcomplete, ← hfound]
  cases hnearest : overridden? definition method
      (context.classpath.classChain definition).loaded.tail with
  | none => simp
  | some resolved =>
    obtain ⟨declaring, overridden⟩ := resolved
    obtain ⟨hname, hdescriptor⟩ := ((hfound declaring overridden).1 hnearest).named
    have hmember : (ResolvedMethod.mk declaring overridden).member =
        ⟨declaring.name, method.name, method.descriptor⟩ := by
      rw [ResolvedMethod.member, hname, hdescriptor]
    dsimp only
    rw [hmember]
    constructor
    · intro hmem
      split at hmem
      · next hfinal =>
        cases List.mem_singleton.1 hmem
        exact ⟨rfl, declaring, overridden, rfl, rfl, by simpa using hfinal⟩
      · cases hmem
    · rintro ⟨rfl, _, _, hsame, rfl, hfinal, hstatic⟩
      cases hsame
      rw [hfinal, hstatic]
      exact List.mem_singleton_self _

/-- Overriding a final method is reported only if all superclasses can be loaded. -/
theorem mem_finalOverrideProblems_iff {method : MethodDefinition} :
    .overridingFinalMethod member reported ∈ context.finalOverrideProblems definition method ↔
      (method.isStatic = false ∧ method.isPrivate = false ∧ method.isInitializer = false) ∧
      context.classpath.ChainLoads definition ∧ reported = definition.name ∧
      ∃ declaring overridden, context.classpath.Overrides definition method.name method.descriptor
          definition declaring overridden ∧
        member = ⟨declaring.name, method.name, method.descriptor⟩ ∧
        overridden.isFinal = true ∧ overridden.isStatic = false := by
  rw [← Classpath.stopped_classChain_iff]
  by_cases hmethod : (method.isStatic || method.isPrivate || method.isInitializer) = false
  · have hparts := hmethod
    simp only [Bool.or_eq_false_iff, and_assoc] at hparts
    rw [and_iff_right hparts]
    cases hchain : (context.classpath.classChain definition).stopped with
    | none => rw [mem_finalOverrideProblems_of_chain hmethod hchain, and_iff_right rfl]
    | some unresolved =>
      simp [finalOverrideProblems, hmethod, Trail.complete, hchain]
  · rw [Bool.not_eq_false] at hmethod
    rw [finalOverrideProblems, if_pos hmethod]
    refine iff_of_false List.not_mem_nil ?_
    rintro ⟨⟨hstatic, hprivate, hinitializer⟩, -⟩
    simp [hstatic, hprivate, hinitializer] at hmethod

theorem overridingFinalMethod_mem_methodProblems_iff {method : MethodDefinition} :
    .overridingFinalMethod member reported ∈ context.methodProblems definition method ↔
      .overridingFinalMethod member reported ∈ context.finalOverrideProblems definition method := by
  have htypes : Plain (method.signatureTypes.flatMap context.typeProblems) :=
    plain_flatMap plain_typeProblems
  have hsignature : Plain (context.signatureProblems method.signatureClasses) :=
    plain_signatureProblems _
  have hreferences : Plain (method.references.flatMap (context.referenceProblems definition)) :=
    plain_flatMap (plain_referenceProblems definition)
  simp only [methodProblems, List.mem_append, htypes.overridingFinalMethod_notMem,
    hsignature.overridingFinalMethod_notMem, hreferences.overridingFinalMethod_notMem, false_or,
    or_false]

/-- Overriding a final method is reported at the method that overrides it, and nowhere else. -/
theorem mem_definitionFindings_overriding_iff {location : Location} {place : ClassName} :
    (.overridingFinalMethod member reported, location) ∈
        context.definitionFindings definition place ↔
      ∃ method ∈ definition.methods,
        location = .method ⟨definition.name, method.name, method.descriptor⟩ ∧
        .overridingFinalMethod member reported ∈
          context.finalOverrideProblems definition method := by
  have hplain : ∀ {problems : List Problem} {other : Location}, Plain problems →
      (.overridingFinalMethod member reported, location) ∉ foundAt other problems := by
    intro problems other hproblems hmem
    obtain ⟨problem, hproblem, hsame⟩ := List.mem_map.1 hmem
    cases hsame
    exact hproblems.overridingFinalMethod_notMem hproblem
  have habstract : ∀ {other : Location}, (.overridingFinalMethod member reported, location) ∉
      foundAt other (context.abstractMethodProblems definition) := by
    intro other hmem
    obtain ⟨problem, hproblem, hsame⟩ := List.mem_map.1 hmem
    obtain ⟨missing, rfl⟩ := exists_of_mem_abstractMethodProblems hproblem
    cases hsame
  have hfields : (.overridingFinalMethod member reported, location) ∉
      definition.fields.flatMap fun field => foundAt (.field ⟨definition.name, field.name,
        field.descriptor⟩) (context.fieldProblems ⟨definition.name, field.name, field.descriptor⟩ field) := by
    intro hmem
    obtain ⟨field, -, hfield⟩ := List.mem_flatMap.1 hmem
    exact hplain (plain_fieldProblems _ field) hfield
  have himplementations : (.overridingFinalMethod member reported, location) ∉
      (if context.options.checkMethodImplementation then
        foundAt (.ofClass place) (context.abstractMethodProblems definition) else []) := by
    split
    · exact habstract
    · exact List.not_mem_nil
  simp only [definitionFindings, List.mem_append, hplain (plain_superclassProblems definition),
    hplain (plain_flatMap (plain_interfaceProblems definition)),
    hplain (plain_signatureProblems definition.signatureClasses), hfields, himplementations,
    false_or, or_false, List.mem_flatMap]
  refine exists_congr fun method => and_congr_right fun _ => ?_
  simp only [foundAt, List.mem_map, Prod.mk.injEq]
  constructor
  · rintro ⟨_, hproblem, rfl, rfl⟩
    exact ⟨rfl, overridingFinalMethod_mem_methodProblems_iff.1 hproblem⟩
  · rintro ⟨rfl, hproblem⟩
    exact ⟨_, overridingFinalMethod_mem_methodProblems_iff.2 hproblem, rfl, rfl⟩

/-- Overriding a final method is found in a class that can be read. -/
theorem mem_classFindings_overriding_iff {plugin : Classpath} {location : Location}
    {looked : ClassName} :
    (.overridingFinalMethod member reported, location) ∈ context.classFindings plugin looked ↔
      ∃ definition, plugin.find looked = .ok (some definition) ∧
        (.overridingFinalMethod member reported, location) ∈
          context.definitionFindings definition looked := by
  unfold classFindings
  split
  · next hnone => simp [hnone]
  · next hfailed => simp [hfailed]
  · next definition hfound => simp [hfound]

end LinkContext

/-- Overriding a final method is reported exactly for a class of the plugin with a method of its own that can
override, if all superclasses can be loaded and the nearest method that it can override is final. It is
reported at the method of the class. This is so also for superclasses that go in circles. -/
theorem verify_overridingFinalMethod_iff (plugin classpath : Classpath) (options : Options)
    (member : MemberRef) (reported : ClassName) (location : Location) :
    (verify plugin classpath options).Holds (.overridingFinalMethod member reported) location ↔
      location = .method ⟨reported, member.name, member.descriptor⟩ ∧
      ∃ looked definition, plugin.find looked = .ok (some definition) ∧
        definition.name = reported ∧
        (∃ method ∈ definition.methods,
          method.name = member.name ∧ method.descriptor = member.descriptor ∧
          method.isStatic = false ∧ method.isPrivate = false ∧ method.isInitializer = false) ∧
        classpath.ChainLoads definition ∧
        ∃ declaring overridden, classpath.Overrides definition member.name member.descriptor
            definition declaring overridden ∧
          declaring.name = member.owner ∧ overridden.isFinal = true ∧ overridden.isStatic = false := by
  have hmem : ∀ {looked definition}, plugin.find looked = .ok (some definition) →
      looked ∈ plugin.names := by
    intro looked definition hfound
    by_contra habsent
    rw [Classpath.find, if_neg habsent] at hfound
    cases hfound
  rw [verify, ProblemSet.holds_ofFindings, List.mem_flatMap]
  simp only [mem_sorted, LinkContext.mem_classFindings_overriding_iff,
    LinkContext.mem_definitionFindings_overriding_iff, LinkContext.mem_finalOverrideProblems_iff]
  constructor
  · rintro ⟨looked, -, definition, hfound, method, hmethod, rfl, hflags, hloads, rfl, declaring,
      overridden, hoverrides, rfl, hfinal⟩
    exact ⟨rfl, looked, definition, hfound, rfl, ⟨method, hmethod, rfl, rfl, hflags⟩, hloads, declaring,
      overridden, hoverrides, rfl, hfinal⟩
  · rintro ⟨rfl, looked, definition, hfound, rfl, ⟨method, hmethod, hname, hdescriptor, hflags⟩, hloads,
      declaring, overridden, hoverrides, howner, hfinal⟩
    obtain ⟨owner, name, descriptor⟩ := member
    dsimp only at hname hdescriptor howner hoverrides
    subst hname hdescriptor howner
    exact ⟨looked, hmem hfound, definition, hfound, method, hmethod, rfl, hflags, hloads, rfl, declaring,
      overridden, hoverrides, rfl, hfinal⟩

def ladderMethod (flags : AccessFlags) : MethodDefinition :=
  .plain "run" flags

def ladderBottom : ClassDefinition :=
  { ClassDefinition.plain ⟨"p/Bottom"⟩ ⟨"q/Foreign"⟩ with methods := [ladderMethod ⟨0x0001⟩] }

def ladderTop : ClassDefinition :=
  { ClassDefinition.plain ⟨"p/Top"⟩ ⟨"p/Hidden"⟩ with methods := [ladderMethod ⟨0x0011⟩] }

/-- Above a class stand a method of another package, a private one and a final one, and from there the way
goes back to the private one. -/
def ladder : Classpath :=
  .ofClasses [
    ladderBottom,
    { ClassDefinition.plain ⟨"q/Foreign"⟩ ⟨"p/Hidden"⟩ with methods := [ladderMethod ⟨0x0010⟩] },
    { ClassDefinition.plain ⟨"p/Hidden"⟩ ⟨"p/Top"⟩ with methods := [ladderMethod ⟨0x0012⟩] },
    ladderTop ]

/-- The final method at the top is reported, though two final methods that cannot be overridden are nearer. -/
theorem verify_overridingFinalMethod_ladder :
    ladder.find ladderBottom.name = .ok (some ladderBottom) ∧ ladder.ChainLoads ladderBottom ∧
      ladder.Overrides ladderBottom "run" "()V" ladderBottom ladderTop (ladderMethod ⟨0x0011⟩) ∧
      ∀ options, (verify ladder ladder options).Holds
        (.overridingFinalMethod ⟨⟨"p/Top"⟩, "run", "()V"⟩ ⟨"p/Bottom"⟩)
        (.method ⟨⟨"p/Bottom"⟩, "run", "()V"⟩) := by
  have hbottom : ladder.find ladderBottom.name = .ok (some ladderBottom) := by rfl
  have hchain : (ladder.classChain ladderBottom).stopped = none := by decide +kernel
  have hloads : ladder.ChainLoads ladderBottom := Classpath.stopped_classChain_iff.1 hchain
  have hnearest : ladder.Overrides ladderBottom "run" "()V" ladderBottom ladderTop
      (ladderMethod ⟨0x0011⟩) := (Classpath.findSome?_classChain_iff hchain).1 (by decide +kernel)
  refine ⟨hbottom, hloads, hnearest, fun options => ?_⟩
  exact (verify_overridingFinalMethod_iff ladder ladder options _ _ _).2
    ⟨rfl, _, ladderBottom, hbottom, rfl, ⟨ladderMethod ⟨0x0001⟩, by decide +kernel⟩, hloads, ladderTop, _,
      hnearest, rfl, by decide +kernel⟩

end LinkCheck
