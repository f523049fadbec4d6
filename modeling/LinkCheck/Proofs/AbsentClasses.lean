import LinkCheck.Proofs.PlainClasses
import LinkCheck.Proofs.ProblemSets
import LinkCheck.Verification

/-!
# Reports of absent classes

A class is reported as absent exactly where it is needed and the classpath does not have it. A class that
is there and cannot be read is never called absent.

## Main definitions

- `Problem.absent?` — the class that a problem calls absent
- `LinkContext.Truthful` — of the problems in a list, those that call a class absent are right
- `ClassDefinition.Needs` — the ways in which a class needs another, and what its absence leads to

## Main results

- `Classpath.fails_of_walk` — a walk breaks off only at a class that cannot be loaded
- `LinkContext.truthful_definitionFindings` — whatever is called absent is absent
- `LinkContext.mem_definitionFindings_of_needs` — whatever is needed and absent is called so
-/

namespace LinkCheck

/-- The class that a problem calls absent. -/
def Problem.absent? : Problem → Option ClassName
  | classNotFound missing | superClassNotFound _ missing | interfaceNotFound _ missing
  | unknownTypeField _ missing => some missing
  | _ => none

namespace Classpath

variable {classpath : Classpath} {unresolved : Unresolved}

/-- A class is unresolved because it cannot be loaded. -/
def Fails (classpath : Classpath) (unresolved : Unresolved) : Prop :=
  classpath.load unresolved.name = .error unresolved

/-- The class that a failed load names is the one that was to be loaded. -/
theorem fails_of_load {name : ClassName} (h : classpath.load name = .error unresolved) :
    classpath.Fails unresolved := by
  have hname : unresolved.name = name := by
    unfold load at h
    split at h <;> cases h <;> rfl
  rw [Fails, hname, h]

/-- A class that fails without an error is not there. -/
theorem Fails.find_eq (h : classpath.Fails unresolved) (herror : unresolved.error = none) :
    classpath.find unresolved.name = .ok none := by
  unfold Fails load at h
  split at h
  · cases h
  · assumption
  · rw [← Except.error.inj h] at herror
    cases herror

/-- A walk breaks off only at a class that cannot be loaded. -/
theorem fails_of_walk (enqueue : ClassDefinition → List ClassName → List ClassName)
    (seen pending : List ClassName)
    (h : (classpath.walk enqueue seen pending).stopped = some unresolved) :
    classpath.Fails unresolved := by
  fun_induction walk classpath enqueue seen pending with
  | case1 => cases h
  | case2 seen pending name rest _ failed hload =>
    cases h
    exact fails_of_load hload
  | case3 seen pending name rest _ definition hload ih => exact ih h

theorem fails_of_fieldWalk (seen pending : List ClassName)
    (h : (classpath.fieldWalk seen pending).stopped = some unresolved) :
    classpath.Fails unresolved := by
  fun_induction fieldWalk classpath seen pending with
  | case1 => cases h
  | case2 seen pending name rest _ failed hload =>
    cases h
    exact fails_of_load hload
  | case3 seen pending name rest _ definition hload ih => exact ih h

theorem fails_of_complete {trail : Trail} (htrail : ∀ failed, trail.stopped = some failed →
    classpath.Fails failed) (h : trail.complete = .error unresolved) :
    classpath.Fails unresolved := by
  unfold Trail.complete at h
  split at h
  · cases h
  · next hstopped =>
    cases h
    exact htrail unresolved hstopped

theorem fails_of_classChain {start : ClassDefinition}
    (h : (classpath.classChain start).complete = .error unresolved) :
    classpath.Fails unresolved := by
  refine fails_of_complete (fun failed hstopped => ?_) h
  unfold classChain at hstopped
  exact fails_of_walk _ _ _ hstopped

theorem fails_of_superinterfaces {start : ClassDefinition}
    (h : classpath.superinterfaces start = .error unresolved) : classpath.Fails unresolved := by
  unfold superinterfaces at h
  rcases hchain : (classpath.classChain start).complete with failed | chain
  · rw [hchain] at h
    cases h
    exact fails_of_classChain hchain
  · rw [hchain] at h
    exact fails_of_complete (fun _ hstopped => fails_of_walk _ _ _ hstopped) h

/-- A search for a method is incomplete only because of a class that cannot be loaded. -/
theorem fails_of_resolveSuperinterfaceMethod {owner : ClassDefinition} {name descriptor : String}
    (h : classpath.resolveSuperinterfaceMethod owner name descriptor = .incomplete unresolved) :
    classpath.Fails unresolved := by
  unfold resolveSuperinterfaceMethod at h
  split at h
  · next hsuper =>
    cases h
    exact fails_of_superinterfaces hsuper
  · next interfaces _ =>
    cases hfound : interfaceMethod? interfaces name descriptor <;> rw [hfound] at h <;> cases h

theorem fails_of_resolveClassMethod {owner : ClassDefinition} {name descriptor : String}
    (h : classpath.resolveClassMethod owner name descriptor = .incomplete unresolved) :
    classpath.Fails unresolved := by
  unfold resolveClassMethod at h
  split at h
  · cases hfound : owner.declaredMethod? name descriptor <;> rw [hfound] at h <;> cases h
  · split at h
    · cases h
    · split at h
      · next hchain =>
        cases h
        exact fails_of_classChain hchain
      · dsimp only at h
        split at h
        · cases h
        · exact fails_of_resolveSuperinterfaceMethod h

theorem fails_of_resolveInterfaceMethod {owner : ClassDefinition} {name descriptor : String}
    (h : classpath.resolveInterfaceMethod owner name descriptor = .incomplete unresolved) :
    classpath.Fails unresolved := by
  unfold resolveInterfaceMethod at h
  split at h
  · cases h
  · split at h
    · next hload =>
      cases h
      exact fails_of_load hload
    · split at h
      · cases h
      · exact fails_of_resolveSuperinterfaceMethod h

theorem fails_of_resolveField {owner : ClassDefinition} {name descriptor : String}
    (h : classpath.resolveField owner name descriptor = .incomplete unresolved) :
    classpath.Fails unresolved := by
  unfold resolveField at h
  dsimp only at h
  split at h
  · cases h
  · next hstopped =>
    cases h
    exact fails_of_fieldWalk _ _ hstopped
  · cases h

end Classpath

namespace LinkContext

variable {context : LinkContext} {definition : ClassDefinition}

/-- Of the problems in a list, those that call a class absent are right, and the class is not one of
those that are ignored. -/
def Truthful (context : LinkContext) (problems : List Problem) : Prop :=
  ∀ problem ∈ problems, ∀ missing, problem.absent? = some missing →
    context.classpath.find missing = .ok none ∧ context.options.ignores missing.text = false

@[simp]
theorem truthful_nil : context.Truthful [] := fun _ hproblem => by cases hproblem

/-- A problem of another kind calls nothing absent. -/
theorem truthful_singleton {problem : Problem} (h : problem.absent? = none) :
    context.Truthful [problem] := by
  intro other hother missing hmissing
  rw [List.mem_singleton.1 hother, h] at hmissing
  cases hmissing

theorem Truthful.append {first second : List Problem} (hfirst : context.Truthful first)
    (hsecond : context.Truthful second) : context.Truthful (first ++ second) := by
  intro problem hproblem
  rcases List.mem_append.1 hproblem with hproblem | hproblem
  · exact hfirst problem hproblem
  · exact hsecond problem hproblem

theorem truthful_flatMap {α : Type} {items : List α} {problems : α → List Problem}
    (h : ∀ item ∈ items, context.Truthful (problems item)) :
    context.Truthful (items.flatMap problems) := by
  intro problem hproblem
  obtain ⟨item, hitem, hproblem⟩ := List.mem_flatMap.1 hproblem
  exact h item hitem problem hproblem

theorem truthful_map {α : Type} {items : List α} {problem : α → Problem}
    (h : ∀ item, (problem item).absent? = none) : context.Truthful (items.map problem) := by
  intro other hother missing hmissing
  obtain ⟨item, _, rfl⟩ := List.mem_map.1 hother
  rw [h item] at hmissing
  cases hmissing

/-- A choice between two lists is truthful if both are. -/
theorem truthful_ite {condition : Prop} [Decidable condition] {first second : List Problem}
    (hfirst : context.Truthful first) (hsecond : context.Truthful second) :
    context.Truthful (if condition then first else second) := by
  split
  · exact hfirst
  · exact hsecond

/-- A class that could not be loaded is called absent only if it is not there. -/
theorem truthful_unresolvedProblems {missing : ClassName → Problem} {unresolved : Unresolved}
    (hmissing : ∀ name, (missing name).absent? = some name)
    (h : context.classpath.Fails unresolved) :
    context.Truthful (context.options.unresolvedProblems missing unresolved) := by
  unfold Options.unresolvedProblems
  split
  · exact truthful_singleton rfl
  · next herror =>
    split
    · exact truthful_nil
    · next hignored =>
      intro problem hproblem name hname
      rw [List.mem_singleton.1 hproblem, hmissing] at hname
      cases hname
      exact ⟨h.find_eq herror, by simpa using hignored⟩

theorem truthful_withClass {name : ClassName} {missing : ClassName → Problem}
    {next : ClassDefinition → List Problem} (hmissing : ∀ name, (missing name).absent? = some name)
    (hnext : ∀ target, context.Truthful (next target)) :
    context.Truthful (context.withClass name missing next) := by
  unfold withClass
  split
  · exact hnext _
  · next hload => exact truthful_unresolvedProblems hmissing (Classpath.fails_of_load hload)

theorem truthful_typeProblems (name : ClassName) : context.Truthful (context.typeProblems name) :=
  truthful_withClass (fun _ => rfl) fun _ => truthful_nil

theorem truthful_accessProblems (accessor target : ClassDefinition) :
    context.Truthful (accessProblems accessor target) :=
  truthful_ite truthful_nil (truthful_singleton rfl)

theorem truthful_typeReferenceProblems (name : ClassName) (usage : TypeUsage) :
    context.Truthful (context.typeReferenceProblems definition name usage) := by
  unfold typeReferenceProblems
  split
  · exact truthful_nil
  · refine truthful_withClass (fun _ => rfl) fun target => ?_
    refine (truthful_ite (truthful_accessProblems _ _) truthful_nil).append
      (truthful_ite ?_ truthful_nil)
    exact truthful_ite (truthful_singleton rfl) (truthful_ite (truthful_singleton rfl) truthful_nil)

theorem truthful_withOwner {owner : ClassName} {next : ClassDefinition → List Problem}
    (hnext : ∀ target, context.Truthful (next target)) :
    context.Truthful (context.withOwner definition owner next) := by
  unfold withOwner
  refine truthful_ite ?_ (truthful_withClass (fun _ => rfl) fun target =>
    (truthful_accessProblems _ _).append (hnext target))
  split
  · exact truthful_nil
  · exact truthful_typeProblems _

theorem truthful_invocationProblems (invocation : Invocation) (resolved : ResolvedMethod) :
    context.Truthful (invocationProblems invocation resolved) := by
  have hstatic : ∀ isStatic otherwise, context.Truthful otherwise →
      context.Truthful (invocationProblems.ifStatic invocation resolved isStatic otherwise) :=
    fun _ _ hotherwise => truthful_ite (truthful_singleton rfl) hotherwise
  cases invocation with
  | virtual => exact hstatic _ _ truthful_nil
  | special => exact hstatic _ _ (truthful_ite (truthful_singleton rfl) truthful_nil)
  | static => exact truthful_ite truthful_nil (truthful_singleton rfl)
  | interface => exact hstatic _ _ (truthful_ite (truthful_singleton rfl) truthful_nil)

theorem truthful_methodReferenceProblems (member : MemberRef) (invocation : Invocation)
    (interfaceConstant : Bool) : context.Truthful
      (context.methodReferenceProblems definition member invocation interfaceConstant) := by
  refine truthful_withOwner fun owner => truthful_ite (truthful_singleton rfl) ?_
  split
  · exact (truthful_invocationProblems _ _).append
      (truthful_ite truthful_nil (truthful_singleton rfl))
  · exact truthful_singleton rfl
  · next hincomplete =>
    refine truthful_unresolvedProblems (fun _ => rfl) ?_
    unfold resolveMethod at hincomplete
    split at hincomplete
    · exact Classpath.fails_of_resolveInterfaceMethod hincomplete
    · exact Classpath.fails_of_resolveClassMethod hincomplete

theorem truthful_fieldReferenceProblems (member : MemberRef) (instruction : FieldInstruction) :
    context.Truthful (context.fieldReferenceProblems definition member instruction) := by
  refine truthful_withOwner fun owner => ?_
  split
  · next resolved _ =>
    have hkind : context.Truthful (fieldKindProblems instruction resolved) := by
      unfold fieldKindProblems
      split
      · exact truthful_singleton rfl
      · exact truthful_singleton rfl
      · exact truthful_nil
    exact (hkind.append (truthful_ite (truthful_singleton rfl) truthful_nil)).append
      (truthful_ite truthful_nil (truthful_singleton rfl))
  · exact truthful_singleton rfl
  · next hincomplete =>
    exact truthful_unresolvedProblems (fun _ => rfl) (Classpath.fails_of_resolveField hincomplete)

theorem truthful_referenceProblems (reference : Reference) :
    context.Truthful (context.referenceProblems definition reference) := by
  cases reference with
  | type name usage => exact truthful_typeReferenceProblems name usage
  | method member invocation interfaceConstant =>
    exact truthful_methodReferenceProblems member invocation interfaceConstant
  | field member instruction => exact truthful_fieldReferenceProblems member instruction

theorem truthful_superclassProblems : context.Truthful (context.superclassProblems definition) := by
  unfold superclassProblems
  split
  · exact truthful_nil
  · refine truthful_withClass (fun _ => rfl) fun superclass => ?_
    refine (truthful_ite (truthful_singleton rfl) ?_).append (truthful_accessProblems _ _)
    exact truthful_ite (truthful_singleton rfl) truthful_nil

theorem truthful_interfaceProblems (name : ClassName) :
    context.Truthful (context.interfaceProblems definition name) :=
  truthful_withClass (fun _ => rfl) fun _ =>
    (truthful_ite truthful_nil (truthful_singleton rfl)).append (truthful_accessProblems _ _)

theorem truthful_signatureProblems (classes : List ClassName) :
    context.Truthful (context.signatureProblems classes) :=
  truthful_ite (truthful_flatMap fun name _ => truthful_typeProblems name) truthful_nil

theorem truthful_fieldProblems (member : MemberRef) (field : FieldDefinition) :
    context.Truthful (context.fieldProblems member field) := by
  refine Truthful.append ?_ (truthful_signatureProblems _)
  split
  · exact truthful_nil
  · exact truthful_withClass (fun _ => rfl) fun _ => truthful_nil

theorem truthful_finalOverrideProblems (method : MethodDefinition) :
    context.Truthful (context.finalOverrideProblems definition method) := by
  refine truthful_ite truthful_nil ?_
  split
  · exact truthful_nil
  · rw [overridingProblems]
    split
    · exact truthful_nil
    · exact truthful_ite (truthful_singleton rfl) truthful_nil

theorem truthful_methodProblems (method : MethodDefinition) :
    context.Truthful (context.methodProblems definition method) :=
  (((truthful_flatMap fun name _ => truthful_typeProblems name).append
    (truthful_signatureProblems _)).append (truthful_finalOverrideProblems method)).append
    (truthful_flatMap fun reference _ => truthful_referenceProblems reference)

theorem truthful_abstractMethodProblems :
    context.Truthful (context.abstractMethodProblems definition) := by
  refine truthful_ite truthful_nil ?_
  split
  · exact truthful_map fun _ => rfl
  · exact truthful_nil

/-- The problems that are found, without their places. -/
theorem map_fst_foundAt (location : Location) (problems : List Problem) :
    (foundAt location problems).map Prod.fst = problems := by
  simp [foundAt, Function.comp_def]

/-- Whatever is called absent in a class is absent. -/
theorem truthful_definitionFindings (name : ClassName) :
    context.Truthful ((context.definitionFindings definition name).map Prod.fst) := by
  simp only [definitionFindings, List.map_append, List.map_flatMap, map_fst_foundAt]
  refine Truthful.append ?_ ?_
  · refine ((((truthful_superclassProblems.append ?_).append
      (truthful_signatureProblems _)).append ?_).append ?_)
    · exact truthful_flatMap fun name _ => truthful_interfaceProblems name
    · exact truthful_flatMap fun field _ => truthful_fieldProblems _ field
    · exact truthful_flatMap fun method _ => truthful_methodProblems method
  · split
    · rw [map_fst_foundAt]
      exact truthful_abstractMethodProblems
    · exact truthful_nil

/-- Whatever is called absent in the class of some name that a plugin holds is absent. -/
theorem truthful_classFindings (plugin : Classpath) (name : ClassName) :
    context.Truthful ((context.classFindings plugin name).map Prod.fst) := by
  unfold classFindings
  split
  · exact truthful_nil
  · exact truthful_singleton rfl
  · exact truthful_definitionFindings name

end LinkContext

/-- The field of a class, by its owner, name and descriptor. -/
def ClassDefinition.fieldRef (definition : ClassDefinition) (field : FieldDefinition) : MemberRef :=
  { owner := definition.name, name := field.name, descriptor := field.descriptor }

/-- The method of a class, by its owner, name and descriptor. -/
def ClassDefinition.methodRef (definition : ClassDefinition) (method : MethodDefinition) :
    MemberRef :=
  { owner := definition.name, name := method.name, descriptor := method.descriptor }

/-- The ways in which a class needs another to be there, each with the problem that its absence is and
the place of the problem. Of arrays the class of the elements is needed. -/
inductive ClassDefinition.Needs (definition : ClassDefinition) (needed : ClassName) :
    Problem → Location → Prop where
  | superclass (h : definition.superName = some needed) :
    Needs definition needed (.superClassNotFound definition.name needed) (.ofClass definition.name)
  | interface (h : needed ∈ definition.interfaces) :
    Needs definition needed (.interfaceNotFound definition.name needed) (.ofClass definition.name)
  | fieldType {field : FieldDefinition} (hfield : field ∈ definition.fields)
    (h : field.type.elementClass? = some needed) :
    Needs definition needed (.unknownTypeField (definition.fieldRef field) needed)
      (.field (definition.fieldRef field))
  | parameter {method : MethodDefinition} (hmethod : method ∈ definition.methods) {type : FieldType}
    (htype : type ∈ method.type.parameters) (h : type.elementClass? = some needed) :
    Needs definition needed (.classNotFound needed) (.method (definition.methodRef method))
  | result {method : MethodDefinition} (hmethod : method ∈ definition.methods) {type : FieldType}
    (htype : method.type.result = some type) (h : type.elementClass? = some needed) :
    Needs definition needed (.classNotFound needed) (.method (definition.methodRef method))
  | declaredException {method : MethodDefinition} (hmethod : method ∈ definition.methods)
    (h : needed ∈ method.exceptions) :
    Needs definition needed (.classNotFound needed) (.method (definition.methodRef method))
  | typeReference {method : MethodDefinition} (hmethod : method ∈ definition.methods)
    {name : ClassName} {usage : TypeUsage} (href : .type name usage ∈ method.references)
    (h : name.elementClass? = some needed) :
    Needs definition needed (.classNotFound needed) (.method (definition.methodRef method))
  | methodOwner {method : MethodDefinition} (hmethod : method ∈ definition.methods)
    {member : MemberRef} {invocation : Invocation} {interfaceConstant : Bool}
    (href : .method member invocation interfaceConstant ∈ method.references)
    (h : member.owner.elementClass? = some needed) :
    Needs definition needed (.classNotFound needed) (.method (definition.methodRef method))
  | fieldOwner {method : MethodDefinition} (hmethod : method ∈ definition.methods)
    {member : MemberRef} {instruction : FieldInstruction}
    (href : .field member instruction ∈ method.references)
    (h : member.owner.elementClass? = some needed) :
    Needs definition needed (.classNotFound needed) (.method (definition.methodRef method))

namespace LinkContext

variable {context : LinkContext} {definition : ClassDefinition} {needed : ClassName}

/-- The classpath does not have a class, and its absence is to be reported. -/
structure Lacks (context : LinkContext) (name : ClassName) : Prop where
  absent : context.classpath.find name = .ok none
  reported : context.options.ignores name.text = false

theorem withClass_of_lacks (h : context.Lacks needed) (missing : ClassName → Problem)
    (next : ClassDefinition → List Problem) :
    context.withClass needed missing next = [missing needed] := by
  have hload : context.classpath.load needed = .error ⟨needed, none⟩ := by
    rw [Classpath.load, h.absent]
  rw [withClass, hload]
  simp only [Options.unresolvedProblems, h.reported]
  rfl

theorem typeProblems_of_lacks (h : context.Lacks needed) :
    context.typeProblems needed = [.classNotFound needed] :=
  withClass_of_lacks h _ _

/-- The absence of an owner, or of the class of its elements, is all that is reported of a member. -/
theorem withOwner_of_lacks (h : context.Lacks needed) {owner : ClassName}
    (howner : owner.elementClass? = some needed) (next : ClassDefinition → List Problem) :
    context.withOwner definition owner next = [.classNotFound needed] := by
  unfold withOwner
  split
  · rw [howner]
    exact typeProblems_of_lacks h
  · next harray =>
    rw [ClassName.elementClass?, if_neg harray] at howner
    cases howner
    exact withClass_of_lacks h _ _

/-- A reference to a class that is not there, or to a member of such a class, is reported. -/
theorem mem_methodProblems_of_reference {method : MethodDefinition} {reference : Reference}
    (href : reference ∈ method.references)
    (h : context.referenceProblems definition reference = [.classNotFound needed]) :
    .classNotFound needed ∈ context.methodProblems definition method := by
  refine List.mem_append_right _ (List.mem_flatMap.2 ⟨reference, href, ?_⟩)
  rw [h]
  exact List.mem_singleton_self _

theorem mem_methodProblems_of_signatureType (hlacks : context.Lacks needed)
    {method : MethodDefinition} (h : needed ∈ method.signatureTypes) :
    .classNotFound needed ∈ context.methodProblems definition method := by
  refine List.mem_append_left _ (List.mem_append_left _ (List.mem_append_left _ ?_))
  refine List.mem_flatMap.2 ⟨needed, h, ?_⟩
  rw [typeProblems_of_lacks hlacks]
  exact List.mem_singleton_self _

/-- What is found in a class, by the part of the class where it is found. -/
theorem mem_definitionFindings_of_class {problem : Problem} (name : ClassName)
    (h : problem ∈ context.superclassProblems definition ∨
      problem ∈ definition.interfaces.flatMap (context.interfaceProblems definition)) :
    (problem, .ofClass name) ∈ context.definitionFindings definition name := by
  simp only [definitionFindings, foundAt, List.mem_append, List.mem_map]
  rcases h with h | h
  · exact .inl (.inl (.inl (.inl (.inl ⟨problem, h, rfl⟩))))
  · exact .inl (.inl (.inl (.inl (.inr ⟨problem, h, rfl⟩))))

theorem mem_definitionFindings_of_field {problem : Problem} (name : ClassName)
    {field : FieldDefinition} (hfield : field ∈ definition.fields)
    (h : problem ∈ context.fieldProblems (definition.fieldRef field) field) :
    (problem, .field (definition.fieldRef field)) ∈ context.definitionFindings definition name := by
  simp only [definitionFindings, foundAt, List.mem_append, List.mem_flatMap, List.mem_map]
  exact .inl (.inl (.inr ⟨field, hfield, problem, h, rfl⟩))

theorem mem_definitionFindings_of_method {problem : Problem} (name : ClassName)
    {method : MethodDefinition} (hmethod : method ∈ definition.methods)
    (h : problem ∈ context.methodProblems definition method) :
    (problem, .method (definition.methodRef method)) ∈
      context.definitionFindings definition name := by
  simp only [definitionFindings, foundAt, List.mem_append, List.mem_flatMap, List.mem_map]
  exact .inl (.inr ⟨method, hmethod, problem, h, rfl⟩)

/-- Whatever a class needs and is absent is called so, at the place where it is needed. -/
theorem mem_definitionFindings_of_needs (hlacks : context.Lacks needed) {problem : Problem}
    {location : Location} (h : definition.Needs needed problem location) :
    (problem, location) ∈ context.definitionFindings definition definition.name := by
  cases h with
  | superclass h =>
    refine mem_definitionFindings_of_class _ (.inl ?_)
    simp only [superclassProblems, h]
    rw [withClass_of_lacks hlacks]
    exact List.mem_singleton_self _
  | interface h =>
    refine mem_definitionFindings_of_class _ (.inr (List.mem_flatMap.2 ⟨needed, h, ?_⟩))
    rw [interfaceProblems, withClass_of_lacks hlacks]
    exact List.mem_singleton_self _
  | fieldType hfield h =>
    refine mem_definitionFindings_of_field _ hfield (List.mem_append_left _ ?_)
    simp only [h]
    rw [withClass_of_lacks hlacks]
    exact List.mem_singleton_self _
  | @parameter method hmethod type htype h =>
    refine mem_definitionFindings_of_method _ hmethod
      (mem_methodProblems_of_signatureType hlacks (List.mem_append_left _ ?_))
    exact List.mem_filterMap.2 ⟨type, List.mem_append_left _ htype, h⟩
  | @result method hmethod type htype h =>
    refine mem_definitionFindings_of_method _ hmethod
      (mem_methodProblems_of_signatureType hlacks (List.mem_append_left _ ?_))
    refine List.mem_filterMap.2 ⟨type, List.mem_append_right _ ?_, h⟩
    rw [htype]
    exact List.mem_singleton_self _
  | declaredException hmethod h =>
    exact mem_definitionFindings_of_method _ hmethod
      (mem_methodProblems_of_signatureType hlacks (List.mem_append_right _ h))
  | typeReference hmethod href h =>
    refine mem_definitionFindings_of_method _ hmethod (mem_methodProblems_of_reference href ?_)
    simp only [referenceProblems, typeReferenceProblems, h]
    exact withClass_of_lacks hlacks _ _
  | methodOwner hmethod href h =>
    exact mem_definitionFindings_of_method _ hmethod
      (mem_methodProblems_of_reference href (withOwner_of_lacks hlacks h _))
  | fieldOwner hmethod href h =>
    exact mem_definitionFindings_of_method _ hmethod
      (mem_methodProblems_of_reference href (withOwner_of_lacks hlacks h _))

end LinkContext

/-- Absent classes are reported soundly and completely. Whatever a check calls absent is not on the
classpath and not ignored, so that a class that cannot be read is never called absent. Whatever is needed
by a class of the plugin that can be read, and is not on the classpath and not ignored, is called absent
at the place where it is needed. -/
theorem verify_absent_sound_complete (plugin classpath : Classpath) (options : Options)
    (hnamed : ∀ name definition, plugin.find name = .ok (some definition) →
      definition.name = name) :
    (∀ problem ∈ (verify plugin classpath options).problems, ∀ missing,
      problem.absent? = some missing →
        classpath.find missing = .ok none ∧ options.ignores missing.text = false) ∧
      ∀ name definition, plugin.find name = .ok (some definition) →
        ∀ needed, classpath.find needed = .ok none → options.ignores needed.text = false →
          ∀ problem location, definition.Needs needed problem location →
            (verify plugin classpath options).Holds problem location := by
  refine ⟨fun problem hproblem missing hmissing => ?_,
    fun name definition hfind needed habsent hreported problem location hneeds => ?_⟩
  · obtain ⟨location, hfound⟩ := (ProblemSet.mem_problems_ofFindings _ _).1 hproblem
    obtain ⟨name, _, hfound⟩ := List.mem_flatMap.1 hfound
    exact LinkContext.truthful_classFindings plugin name problem
      (List.mem_map_of_mem hfound) missing hmissing
  · have hload : plugin.load name = .ok definition := by
      rw [Classpath.load, hfind]
    have hname := Classpath.mem_names_of_load hload
    have hsame := hnamed name definition hfind
    subst hsame
    refine (ProblemSet.holds_ofFindings _ _ _).2
      (List.mem_flatMap.2 ⟨definition.name, (mem_sorted _ _).2 hname, ?_⟩)
    simp only [LinkContext.classFindings, hfind]
    exact LinkContext.mem_definitionFindings_of_needs ⟨habsent, hreported⟩ hneeds

/-- A method that calls a method of an array. -/
def strandedMethod : MethodDefinition :=
  { MethodDefinition.plain "run" ⟨0⟩ with
    references := [.method ⟨⟨"[Lq/Item;"⟩, "clone", "()Ljava/lang/Object;"⟩ .virtual false] }

/-- A class with an absent superclass and this method. -/
def strandedClass : ClassDefinition :=
  { ClassDefinition.plain ⟨"p/Main"⟩ ⟨"q/Base"⟩ with methods := [strandedMethod] }

/-- A plugin with this class alone, on a classpath with nothing else. -/
def strandedPlugin : Classpath :=
  .ofClasses [strandedClass]

/-- The superclass and the class of the array's elements are both called absent. -/
theorem verify_absent_sound_complete_stranded :
    (∀ name definition, strandedPlugin.find name = .ok (some definition) →
      definition.name = name) ∧
      (verify strandedPlugin strandedPlugin {}).Holds
        (.superClassNotFound ⟨"p/Main"⟩ ⟨"q/Base"⟩) (.ofClass ⟨"p/Main"⟩) ∧
      (verify strandedPlugin strandedPlugin {}).Holds (.classNotFound ⟨"q/Item"⟩)
        (.method (strandedClass.methodRef strandedMethod)) := by
  have hnamed : ∀ name definition, strandedPlugin.find name = .ok (some definition) →
      definition.name = name := fun _ _ => Classpath.name_of_find_ofClasses
  have hcomplete := (verify_absent_sound_complete strandedPlugin strandedPlugin {} hnamed).2
    ⟨"p/Main"⟩ strandedClass rfl
  have helement : ClassName.elementClass? ⟨"[Lq/Item;"⟩ = some ⟨"q/Item"⟩ := by decide +kernel
  refine ⟨hnamed, ?_, ?_⟩
  · exact hcomplete ⟨"q/Base"⟩ rfl rfl _ _ (.superclass rfl)
  · exact hcomplete ⟨"q/Item"⟩ rfl rfl _ _
      (.methodOwner (List.mem_singleton_self strandedMethod) List.mem_cons_self helement)

end LinkCheck
