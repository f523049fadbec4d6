import LinkCheck.Proofs.AbsentClasses
import LinkCheck.Proofs.Skeletons

/-!
# Two checks side by side

The same plugin is checked twice, with other options or against another classpath. Both checks look at the
same things in the same order, so what they find can be compared piece by piece. A relation between findings
that is kept when findings are put one behind the other holds of all that is found, if it holds wherever
the options decide and the classes on both sides have the same skeletons.

## Main definitions

- `Problem.isUnconditional` — no option keeps the problem from being reported
- `LinkContext.Compared` — two checks whose findings are related

## Main results

- `LinkContext.Compared.definitionFindings`, `LinkContext.Compared.findings` — from the pieces to the whole
- `verify_same_skeletons` — of the classes on the classpath only the skeletons matter
-/

namespace LinkCheck

/-- Whether no option keeps a problem from being reported. -/
def Problem.isUnconditional : Problem → Bool
  | classNotFound _ | superClassNotFound _ _ | interfaceNotFound _ _ | unknownTypeField _ _
  | methodNotImplemented _ _ => false
  | _ => true

namespace LinkContext

-- ════════════════════════════════════════════════════════════════════════
-- Reports on classes and members that were found
-- ════════════════════════════════════════════════════════════════════════

section Targets

variable {first second : ClassDefinition}

theorem mayAccess_of_skeleton (accessor : ClassDefinition) (h : first.skeleton = second.skeleton) :
    accessor.mayAccess first = accessor.mayAccess second := by
  simp only [ClassDefinition.mayAccess, ClassDefinition.name_of_skeleton h,
    ClassDefinition.visibility_of_skeleton h]

theorem accessProblems_of_skeleton (accessor : ClassDefinition)
    (h : first.skeleton = second.skeleton) :
    accessProblems accessor first = accessProblems accessor second := by
  simp only [accessProblems, mayAccess_of_skeleton accessor h, ClassDefinition.name_of_skeleton h]

theorem instantiationProblems_of_skeleton (h : first.skeleton = second.skeleton) :
    instantiationProblems first = instantiationProblems second := by
  simp only [instantiationProblems, ClassDefinition.name_of_skeleton h,
    ClassDefinition.isInterface_of_skeleton h, ClassDefinition.isAbstract_of_skeleton h]

theorem unconditional_accessProblems (accessor target : ClassDefinition) :
    (accessProblems accessor target).all Problem.isUnconditional := by
  unfold accessProblems
  split <;> rfl

theorem unconditional_instantiationProblems (target : ClassDefinition) :
    (instantiationProblems target).all Problem.isUnconditional := by
  unfold instantiationProblems
  split
  · rfl
  · split <;> rfl

end Targets

section Methods

variable {first second : LinkContext} {resolved other : ResolvedMethod}

theorem member_of_skeleton (h : resolved.skeleton = other.skeleton) :
    resolved.member = other.member := by
  have howner : resolved.declaring.name = other.declaring.name :=
    ClassDefinition.name_of_skeleton (congrArg Prod.fst h)
  have hmethod : resolved.method.skeleton = other.method.skeleton := congrArg Prod.snd h
  rw [ResolvedMethod.member, ResolvedMethod.member, howner,
    MethodDefinition.name_of_skeleton hmethod, MethodDefinition.descriptor_of_skeleton hmethod]

theorem invocationProblems_of_skeleton (invocation : Invocation)
    (h : resolved.skeleton = other.skeleton) :
    invocationProblems invocation resolved = invocationProblems invocation other := by
  have hmethod : resolved.method.skeleton = other.method.skeleton := congrArg Prod.snd h
  simp only [invocationProblems, invocationProblems.ifStatic, member_of_skeleton h,
    MethodDefinition.isStatic_of_skeleton hmethod, MethodDefinition.isAbstract_of_skeleton hmethod,
    MethodDefinition.isPrivate_of_skeleton hmethod]

theorem resolvedMethodProblems_of_skeleton
    (hclasspath : first.classpath.SameSkeletons second.classpath) (accessor : ClassDefinition)
    (invocation : Invocation) (h : resolved.skeleton = other.skeleton) :
    first.resolvedMethodProblems accessor invocation resolved =
      second.resolvedMethodProblems accessor invocation other := by
  have hdeclaring : resolved.declaring.skeleton = other.declaring.skeleton := congrArg Prod.fst h
  simp only [resolvedMethodProblems, invocationProblems_of_skeleton invocation h,
    MethodDefinition.visibility_of_skeleton (congrArg Prod.snd h),
    hclasspath.mayAccessMember accessor hdeclaring, member_of_skeleton h]

theorem unconditional_invocationProblems (invocation : Invocation) (resolved : ResolvedMethod) :
    (invocationProblems invocation resolved).all Problem.isUnconditional := by
  have hstatic : ∀ isStatic otherwise, otherwise.all Problem.isUnconditional →
      (invocationProblems.ifStatic invocation resolved isStatic otherwise).all
        Problem.isUnconditional := by
    intro isStatic otherwise hotherwise
    cases isStatic with
    | false => exact hotherwise
    | true => rfl
  cases invocation with
  | virtual => exact hstatic _ _ rfl
  | special => exact hstatic _ _ (by split <;> rfl)
  | static =>
    simp only [invocationProblems]
    split <;> rfl
  | interface => exact hstatic _ _ (by split <;> rfl)

theorem unconditional_resolvedMethodProblems (context : LinkContext) (accessor : ClassDefinition)
    (invocation : Invocation) (resolved : ResolvedMethod) :
    (context.resolvedMethodProblems accessor invocation resolved).all Problem.isUnconditional := by
  simp only [resolvedMethodProblems, List.all_append, unconditional_invocationProblems,
    Bool.true_and]
  split <;> rfl

end Methods

section Fields

variable {first second : LinkContext} {resolved other : ResolvedField}

theorem resolvedFieldProblems_of_skeleton
    (hclasspath : first.classpath.SameSkeletons second.classpath) (accessor : ClassDefinition)
    (instruction : FieldInstruction) (h : resolved.skeleton = other.skeleton) :
    first.resolvedFieldProblems accessor instruction resolved =
      second.resolvedFieldProblems accessor instruction other := by
  have hdeclaring : resolved.declaring.skeleton = other.declaring.skeleton := congrArg Prod.fst h
  have howner : resolved.declaring.name = other.declaring.name :=
    ClassDefinition.name_of_skeleton (congrArg Prod.fst h)
  have hname : resolved.field.name = other.field.name :=
    congrArg (MemberSkeleton.name ∘ Prod.snd) h
  have hdescriptor : resolved.field.descriptor = other.field.descriptor :=
    congrArg (MemberSkeleton.descriptor ∘ Prod.snd) h
  have hflags : resolved.field.flags = other.field.flags :=
    congrArg (MemberSkeleton.flags ∘ Prod.snd) h
  have hstatic : resolved.field.isStatic = other.field.isStatic :=
    congrArg AccessFlags.isStatic hflags
  have hfinal : resolved.field.isFinal = other.field.isFinal := congrArg AccessFlags.isFinal hflags
  have hvisibility : resolved.field.visibility = other.field.visibility :=
    congrArg AccessFlags.memberVisibility hflags
  simp only [resolvedFieldProblems, fieldKindProblems, finalFieldProblems, ResolvedField.member,
    howner, hname, hdescriptor, hstatic, hfinal, hvisibility,
    hclasspath.mayAccessMember accessor hdeclaring]

theorem unconditional_resolvedFieldProblems (context : LinkContext) (accessor : ClassDefinition)
    (instruction : FieldInstruction) (resolved : ResolvedField) :
    (context.resolvedFieldProblems accessor instruction resolved).all Problem.isUnconditional := by
  have hkind : (fieldKindProblems instruction resolved).all Problem.isUnconditional := by
    unfold fieldKindProblems
    cases instruction.isStatic <;> cases resolved.field.isStatic <;> rfl
  have hfinal : (finalFieldProblems accessor instruction resolved).all Problem.isUnconditional := by
    unfold finalFieldProblems
    split <;> rfl
  simp only [resolvedFieldProblems, List.all_append, hkind, hfinal, Bool.true_and]
  split <;> rfl

end Fields

section Overriding

variable {first second : LinkContext}

/-- What a method overrides is looked for in superclasses with the same skeletons. -/
theorem overridden?_of_skeletons (definition : ClassDefinition) (method : MethodDefinition)
    {chain others : List ClassDefinition}
    (h : chain.map ClassDefinition.skeleton = others.map ClassDefinition.skeleton) :
    (overridden? definition method chain).map ResolvedMethod.skeleton =
      (overridden? definition method others).map ResolvedMethod.skeleton := by
  have hcan : Function.FactorsThrough (canOverride definition) ResolvedMethod.skeleton := by
    intro resolved other hsame
    have howner : resolved.declaring.name = other.declaring.name :=
      ClassDefinition.name_of_skeleton (congrArg Prod.fst hsame)
    simp only [canOverride, MethodDefinition.visibility_of_skeleton (congrArg Prod.snd hsame), howner]
  exact findSome?_of_view _ _ h fun _ _ hsame =>
    option_filter_of_view (declaredMethod?_of_skeleton hsame _ _) hcan

theorem overridingProblems_of_skeletons (definition : ClassDefinition) (method : MethodDefinition)
    {chain others : List ClassDefinition}
    (h : chain.map ClassDefinition.skeleton = others.map ClassDefinition.skeleton) :
    overridingProblems definition method chain = overridingProblems definition method others := by
  unfold overridingProblems
  obtain ⟨hnone, hother⟩ | ⟨resolved, other, hsome, hother, hsame⟩ :=
    option_of_view (overridden?_of_skeletons definition method h)
  · simp only [hnone, hother]
  · have hmethod : resolved.method.skeleton = other.method.skeleton := congrArg Prod.snd hsame
    simp only [hsome, hother, MethodDefinition.isFinal_of_skeleton hmethod,
      MethodDefinition.isStatic_of_skeleton hmethod, member_of_skeleton hsame]

theorem finalOverrideProblems_of_skeletons
    (h : first.classpath.SameSkeletons second.classpath) (definition : ClassDefinition)
    (method : MethodDefinition) :
    first.finalOverrideProblems definition method =
      second.finalOverrideProblems definition method := by
  unfold finalOverrideProblems
  obtain ⟨unresolved, hfirst, hsecond⟩ | ⟨chain, others, hfirst, hsecond, hchain⟩ :=
    except_of_view (h.classChain (rfl : definition.skeleton = _)).complete
  · simp only [hfirst, hsecond]
  · have htail : chain.tail.map ClassDefinition.skeleton =
        others.tail.map ClassDefinition.skeleton := by
      rw [List.map_tail, List.map_tail, hchain]
    simp only [hfirst, hsecond, overridingProblems_of_skeletons definition method htail]

theorem unconditional_overridingProblems (definition : ClassDefinition) (method : MethodDefinition)
    (superclasses : List ClassDefinition) :
    (overridingProblems definition method superclasses).all Problem.isUnconditional := by
  unfold overridingProblems
  cases overridden? definition method superclasses with
  | none => rfl
  | some resolved =>
    dsimp only
    split <;> rfl

theorem unconditional_finalOverrideProblems (context : LinkContext) (definition : ClassDefinition)
    (method : MethodDefinition) :
    (context.finalOverrideProblems definition method).all Problem.isUnconditional := by
  unfold finalOverrideProblems
  split
  · rfl
  · cases (context.classpath.classChain definition).complete with
    | error unresolved => rfl
    | ok chain => exact unconditional_overridingProblems definition method chain.tail

/-- The methods that are left to be implemented are those of classes with the same skeletons. -/
theorem abstractMethods_of_skeleton :
    Function.FactorsThrough abstractMethods ClassDefinition.skeleton := by
  have hview : ∀ definition : ClassDefinition, abstractMethods definition =
      (definition.skeleton.methods.filter fun method =>
        method.flags.isAbstract && (!method.flags.isPrivate && !method.flags.isStatic)).map
          fun method => ⟨definition.skeleton.name, method.name, method.descriptor⟩ := by
    intro definition
    change _ = ((definition.methods.map MethodDefinition.skeleton).filter _).map _
    rw [List.filter_map, List.map_map]
    rfl
  intro definition other hsame
  rw [hview, hview, hsame]

theorem isImplemented_of_skeletons {chain chain' interfaces interfaces' : List ClassDefinition}
    (hchain : chain.map ClassDefinition.skeleton = chain'.map ClassDefinition.skeleton)
    (hinterfaces :
      interfaces.map ClassDefinition.skeleton = interfaces'.map ClassDefinition.skeleton)
    (member : MemberRef) :
    isImplemented chain interfaces member = isImplemented chain' interfaces' member := by
  have hdeclared : ∀ definition other : ClassDefinition, definition.skeleton = other.skeleton →
      ((definition.findMethod? member.name member.descriptor).filter (·.isInheritable)).map
          MethodDefinition.skeleton =
        ((other.findMethod? member.name member.descriptor).filter (·.isInheritable)).map
          MethodDefinition.skeleton := by
    intro definition other hsame
    exact option_filter_of_view (findMethod?_of_skeleton hsame _ _)
      fun _ _ hlike => MethodDefinition.isInheritable_of_skeleton hlike
  unfold isImplemented
  dsimp only
  obtain ⟨hnone, hother⟩ | ⟨method, other, hsome, hother, hlike⟩ :=
    option_of_view (findSome?_of_view MethodDefinition.skeleton _ hchain
      fun _ _ hsame => hdeclared _ _ hsame)
  · simp only [hnone, hother]
    refine any_of_view hinterfaces fun definition other hsame => ?_
    obtain ⟨hnone, hother⟩ | ⟨method, other, hsome, hother, hlike⟩ :=
      option_of_view (hdeclared definition other hsame)
    · simp only [hnone, hother]
    · simp only [hsome, hother, Option.any_some, MethodDefinition.isAbstract_of_skeleton hlike]
  · simp only [hsome, hother, MethodDefinition.isAbstract_of_skeleton hlike]

theorem abstractMethodProblems_of_skeletons
    (h : first.classpath.SameSkeletons second.classpath) (definition : ClassDefinition) :
    first.abstractMethodProblems definition = second.abstractMethodProblems definition := by
  have hsame : definition.skeleton = definition.skeleton := rfl
  unfold abstractMethodProblems
  obtain ⟨unresolved, hfirst, hsecond⟩ | ⟨chain, others, hfirst, hsecond, hchain⟩ :=
    except_of_view (h.classChain hsame).complete
  · simp only [hfirst, hsecond]
  · obtain ⟨unresolved, hbroken, hfailed⟩ | ⟨interfaces, extended, hloaded, hfound, hlike⟩ :=
      except_of_view (h.superinterfaces hsame)
    · simp only [hfirst, hsecond, hbroken, hfailed]
    · have hall : (chain ++ interfaces).map ClassDefinition.skeleton =
          (others ++ extended).map ClassDefinition.skeleton := by
        rw [List.map_append, List.map_append, hchain, hlike]
      simp only [hfirst, hsecond, hloaded, hfound, unimplementedProblems,
        flatMap_of_view hall abstractMethods_of_skeleton,
        isImplemented_of_skeletons hchain hlike]

end Overriding

-- ════════════════════════════════════════════════════════════════════════
-- Comparing two checks
-- ════════════════════════════════════════════════════════════════════════

/-- Problems are related wherever they are found. -/
def Everywhere (related : List Finding → List Finding → Prop) (problems others : List Problem) :
    Prop :=
  ∀ location, related (foundAt location problems) (foundAt location others)

/-- Two checks whose findings are related wherever an option may decide, by a relation that is kept when
findings are put one behind the other. -/
structure Compared (related : List Finding → List Finding → Prop) (first second : LinkContext) :
    Prop where
  classpath : first.classpath.SameSkeletons second.classpath
  nil : related [] []
  append : ∀ {before before' after after' : List Finding}, related before before' →
    related after after' → related (before ++ after) (before' ++ after')
  unconditional : ∀ {problem : Problem} (location : Location), problem.isUnconditional = true →
    related [(problem, location)] [(problem, location)]
  unresolved : ∀ {missing : ClassName → Problem}, (∀ name, (missing name).absent? = some name) →
    ∀ unresolved, Everywhere related (first.options.unresolvedProblems missing unresolved)
      (second.options.unresolvedProblems missing unresolved)

/-- Two checks whose findings are related also in what is said of generic signatures and of methods that
are not implemented, where a check may say nothing at all. -/
structure FullyCompared (related : List Finding → List Finding → Prop) (first second : LinkContext) :
    Prop extends Compared related first second where
  signatures : ∀ classes, Everywhere related (first.signatureProblems classes)
    (second.signatureProblems classes)
  implementations : ∀ definition location, related
    (if first.options.checkMethodImplementation then
      foundAt location (first.abstractMethodProblems definition) else [])
    (if second.options.checkMethodImplementation then
      foundAt location (second.abstractMethodProblems definition) else [])

namespace Compared

variable {related : List Finding → List Finding → Prop} {first second : LinkContext}
  {accessor definition : ClassDefinition}

theorem everywhere_append {before before' after after' : List Problem}
    (h : Compared related first second) (hbefore : Everywhere related before before')
    (hafter : Everywhere related after after') :
    Everywhere related (before ++ after) (before' ++ after') := by
  intro location
  simp only [foundAt, List.map_append]
  exact h.append (hbefore location) (hafter location)

theorem flatMap {α : Type} {items : List α} {found found' : α → List Finding}
    (h : Compared related first second) (hitems : ∀ item ∈ items, related (found item) (found' item)) :
    related (items.flatMap found) (items.flatMap found') := by
  induction items with
  | nil => exact h.nil
  | cons item items ih =>
    rw [List.flatMap_cons, List.flatMap_cons]
    exact h.append (hitems item List.mem_cons_self) (ih fun other hother =>
      hitems other (.tail _ hother))

theorem everywhere_flatMap {α : Type} {items : List α} {problems problems' : α → List Problem}
    (h : Compared related first second)
    (hitems : ∀ item ∈ items, Everywhere related (problems item) (problems' item)) :
    Everywhere related (items.flatMap problems) (items.flatMap problems') := by
  intro location
  simp only [foundAt, List.map_flatMap]
  exact h.flatMap fun item hitem => hitems item hitem location

/-- Problems that are reported in any case are related to themselves. -/
theorem everywhere_same (h : Compared related first second) {problems : List Problem}
    (hproblems : problems.all Problem.isUnconditional) : Everywhere related problems problems := by
  intro location
  induction problems with
  | nil => exact h.nil
  | cons problem problems ih =>
    rw [List.all_cons, Bool.and_eq_true] at hproblems
    exact h.append (h.unconditional location hproblems.1) (ih hproblems.2)

theorem withClass (h : Compared related first second) (name : ClassName)
    {missing : ClassName → Problem} (hmissing : ∀ name, (missing name).absent? = some name)
    {next next' : ClassDefinition → List Problem}
    (hnext : ∀ target other, target.skeleton = other.skeleton →
      Everywhere related (next target) (next' other)) :
    Everywhere related (first.withClass name missing next) (second.withClass name missing next') := by
  unfold LinkContext.withClass
  obtain ⟨unresolved, hfirst, hsecond⟩ | ⟨target, other, hfirst, hsecond, hsame⟩ :=
    h.classpath.load_cases name
  · simp only [hfirst, hsecond]
    exact h.unresolved hmissing unresolved
  · simp only [hfirst, hsecond]
    exact hnext target other hsame

theorem typeProblems (h : Compared related first second) (name : ClassName) :
    Everywhere related (first.typeProblems name) (second.typeProblems name) :=
  h.withClass name (fun _ => rfl) fun _ _ _ _ => h.nil

theorem accessProblems (h : Compared related first second) {target other : ClassDefinition}
    (hsame : target.skeleton = other.skeleton) :
    Everywhere related (LinkContext.accessProblems accessor target)
      (LinkContext.accessProblems accessor other) := by
  rw [accessProblems_of_skeleton accessor hsame]
  exact h.everywhere_same (unconditional_accessProblems accessor other)

theorem typeReferenceProblems (h : Compared related first second) (name : ClassName)
    (usage : TypeUsage) :
    Everywhere related (first.typeReferenceProblems accessor name usage)
      (second.typeReferenceProblems accessor name usage) := by
  unfold LinkContext.typeReferenceProblems
  cases name.elementClass? with
  | none => exact fun _ => h.nil
  | some element =>
    refine h.withClass element (fun _ => rfl) fun target other hsame => h.everywhere_append ?_ ?_
    · split
      · exact h.accessProblems hsame
      · exact fun _ => h.nil
    · split
      · rw [instantiationProblems_of_skeleton hsame]
        exact h.everywhere_same (unconditional_instantiationProblems other)
      · exact fun _ => h.nil

theorem withOwner (h : Compared related first second) (owner : ClassName)
    {next next' : ClassDefinition → List Problem}
    (hnext : ∀ target other, target.skeleton = other.skeleton →
      Everywhere related (next target) (next' other)) :
    Everywhere related (first.withOwner accessor owner next)
      (second.withOwner accessor owner next') := by
  unfold LinkContext.withOwner
  split
  · cases owner.elementClass? with
    | none => exact fun _ => h.nil
    | some element => exact h.typeProblems element
  · exact h.withClass owner (fun _ => rfl) fun target other hsame =>
      h.everywhere_append (h.accessProblems hsame) (hnext target other hsame)

theorem resolveMethod (h : Compared related first second) (member : MemberRef)
    {owner other : ClassDefinition} (hsame : owner.skeleton = other.skeleton) :
    (first.resolveMethod owner member).map ResolvedMethod.skeleton =
      (second.resolveMethod other member).map ResolvedMethod.skeleton := by
  unfold LinkContext.resolveMethod
  rw [ClassDefinition.isInterface_of_skeleton hsame]
  split
  · exact h.classpath.resolveInterfaceMethod hsame member.name member.descriptor
  · exact h.classpath.resolveClassMethod hsame member.name member.descriptor

theorem methodReferenceProblems (h : Compared related first second) (member : MemberRef)
    (invocation : Invocation) (interfaceConstant : Bool) :
    Everywhere related
      (first.methodReferenceProblems accessor member invocation interfaceConstant)
      (second.methodReferenceProblems accessor member invocation interfaceConstant) := by
  refine h.withOwner member.owner fun owner other hsame => ?_
  have hchange : changeOf owner = changeOf other := by
    simp only [changeOf, ClassDefinition.isInterface_of_skeleton hsame]
  rw [ClassDefinition.isInterface_of_skeleton hsame, ClassDefinition.name_of_skeleton hsame, hchange]
  split
  · exact h.everywhere_same rfl
  · obtain ⟨resolved, found, hfirst, hsecond, hlike⟩ | ⟨hfirst, hsecond⟩ |
        ⟨unresolved, hfirst, hsecond⟩ := Resolution.of_map (h.resolveMethod member hsame)
    · simp only [hfirst, hsecond]
      rw [resolvedMethodProblems_of_skeleton h.classpath accessor invocation hlike]
      exact h.everywhere_same (unconditional_resolvedMethodProblems _ _ _ _)
    · simp only [hfirst, hsecond]
      exact h.everywhere_same rfl
    · simp only [hfirst, hsecond]
      exact h.unresolved (fun _ => rfl) unresolved

theorem fieldReferenceProblems (h : Compared related first second) (member : MemberRef)
    (instruction : FieldInstruction) :
    Everywhere related (first.fieldReferenceProblems accessor member instruction)
      (second.fieldReferenceProblems accessor member instruction) := by
  refine h.withOwner member.owner fun owner other hsame => ?_
  obtain ⟨resolved, found, hfirst, hsecond, hlike⟩ | ⟨hfirst, hsecond⟩ |
      ⟨unresolved, hfirst, hsecond⟩ :=
    Resolution.of_map (h.classpath.resolveField hsame member.name member.descriptor)
  · simp only [hfirst, hsecond]
    rw [resolvedFieldProblems_of_skeleton h.classpath accessor instruction hlike]
    exact h.everywhere_same (unconditional_resolvedFieldProblems _ _ _ _)
  · simp only [hfirst, hsecond]
    exact h.everywhere_same rfl
  · simp only [hfirst, hsecond]
    exact h.unresolved (fun _ => rfl) unresolved

theorem referenceProblems (h : Compared related first second) (reference : Reference) :
    Everywhere related (first.referenceProblems accessor reference)
      (second.referenceProblems accessor reference) := by
  cases reference with
  | type name usage => exact h.typeReferenceProblems name usage
  | method member invocation interfaceConstant =>
    exact h.methodReferenceProblems member invocation interfaceConstant
  | field member instruction => exact h.fieldReferenceProblems member instruction

theorem superclassProblems (h : Compared related first second) :
    Everywhere related (first.superclassProblems definition)
      (second.superclassProblems definition) := by
  unfold LinkContext.superclassProblems
  cases definition.superName with
  | none => exact fun _ => h.nil
  | some superName =>
    refine h.withClass superName (fun _ => rfl) fun target other hsame =>
      h.everywhere_append ?_ (h.accessProblems hsame)
    rw [ClassDefinition.isInterface_of_skeleton hsame, ClassDefinition.isFinal_of_skeleton hsame,
      ClassDefinition.name_of_skeleton hsame]
    refine h.everywhere_same ?_
    split
    · rfl
    · split <;> rfl

theorem interfaceProblems (h : Compared related first second) (name : ClassName) :
    Everywhere related (first.interfaceProblems definition name)
      (second.interfaceProblems definition name) := by
  refine h.withClass name (fun _ => rfl) fun target other hsame =>
    h.everywhere_append ?_ (h.accessProblems hsame)
  rw [ClassDefinition.isInterface_of_skeleton hsame, ClassDefinition.name_of_skeleton hsame]
  refine h.everywhere_same ?_
  split <;> rfl

/-- Where both checks look at generic signatures, or neither does. -/
theorem signatureProblems (h : Compared related first second)
    (hoption : first.options.checkGenericSignatures = second.options.checkGenericSignatures)
    (classes : List ClassName) :
    Everywhere related (first.signatureProblems classes) (second.signatureProblems classes) := by
  unfold LinkContext.signatureProblems
  rw [hoption]
  split
  · exact h.everywhere_flatMap fun name _ => h.typeProblems name
  · exact fun _ => h.nil

end Compared

namespace FullyCompared

variable {related : List Finding → List Finding → Prop} {first second : LinkContext}

theorem fieldProblems (h : FullyCompared related first second) (member : MemberRef)
    (field : FieldDefinition) :
    Everywhere related (first.fieldProblems member field) (second.fieldProblems member field) := by
  refine h.everywhere_append ?_ (h.signatures _)
  cases field.type.elementClass? with
  | none => exact fun _ => h.nil
  | some name => exact h.withClass name (fun _ => rfl) fun _ _ _ _ => h.nil

theorem methodProblems (h : FullyCompared related first second) (definition : ClassDefinition)
    (method : MethodDefinition) :
    Everywhere related (first.methodProblems definition method)
      (second.methodProblems definition method) := by
  refine h.everywhere_append (h.everywhere_append (h.everywhere_append ?_ (h.signatures _)) ?_) ?_
  · exact h.everywhere_flatMap fun name _ => h.typeProblems name
  · rw [finalOverrideProblems_of_skeletons h.classpath]
    exact h.everywhere_same (unconditional_finalOverrideProblems _ _ _)
  · exact h.everywhere_flatMap fun reference _ => h.referenceProblems reference

theorem definitionFindings (h : FullyCompared related first second) (definition : ClassDefinition)
    (name : ClassName) :
    related (first.definitionFindings definition name)
      (second.definitionFindings definition name) := by
  unfold LinkContext.definitionFindings
  refine h.append (h.append (h.append (h.append (h.append ?_ ?_) ?_) ?_) ?_) ?_
  · exact h.superclassProblems _
  · exact h.everywhere_flatMap (fun name _ => h.interfaceProblems name) _
  · exact h.signatures _ _
  · exact h.flatMap fun field _ => h.fieldProblems _ field _
  · exact h.flatMap fun method _ => h.methodProblems definition method _
  · exact h.implementations definition _

/-- All that two checks of one plugin find is related. -/
theorem findings (h : FullyCompared related first second) (plugin : Classpath)
    (names : List ClassName) :
    related (names.flatMap (first.classFindings plugin))
      (names.flatMap (second.classFindings plugin)) := by
  refine h.flatMap fun name _ => ?_
  unfold LinkContext.classFindings
  rcases plugin.find name with error | _ | definition
  · exact h.unconditional _ rfl
  · exact h.nil
  · exact h.definitionFindings definition name

end FullyCompared

end LinkContext

/-- Of the classes on the classpath only the skeletons matter. What their methods do, declare to throw or
mention in generic signatures, and which version they have, makes no difference to a check. -/
theorem verify_same_skeletons (plugin first second : Classpath) (options : Options)
    (h : first.SameSkeletons second) :
    verify plugin first options = verify plugin second options := by
  have hcompared : LinkContext.Compared Eq ⟨first, options⟩ ⟨second, options⟩ :=
    { classpath := h
      nil := rfl
      append := fun hbefore hafter => congrArg₂ _ hbefore hafter
      unconditional := fun _ _ => rfl
      unresolved := fun _ _ _ => rfl }
  have hfully : LinkContext.FullyCompared Eq ⟨first, options⟩ ⟨second, options⟩ :=
    { hcompared with
      signatures := hcompared.signatureProblems rfl
      implementations := fun definition location => by
        rw [LinkContext.abstractMethodProblems_of_skeletons hcompared.classpath] }
  rw [verify, verify, hfully.findings]

/-- Classes that look alike from outside make classpaths that do. -/
theorem Classpath.SameSkeletons.ofClasses {first second : List ClassDefinition}
    (h : first.map ClassDefinition.skeleton = second.map ClassDefinition.skeleton) :
    (Classpath.ofClasses first).SameSkeletons (.ofClasses second) := by
  have hfind : ∀ (classes : List ClassDefinition) (name : ClassName),
      (classes.find? (·.name = name)).map ClassDefinition.skeleton =
        (classes.map ClassDefinition.skeleton).find? (·.name = name) :=
    fun classes name => by rw [List.find?_map]; rfl
  intro name
  rw [find_ofClasses, find_ofClasses, Except.map, Except.map, hfind, hfind, h]

/-- A method that mentions no class. -/
def idleMethod : MethodDefinition :=
  .plain "run" ⟨0x0001⟩

/-- The same method, where body, exceptions and generic signature all name a class that is not there. -/
def demandingMethod : MethodDefinition :=
  { idleMethod with
    exceptions := [⟨"z/Gone"⟩]
    signatureClasses := [⟨"z/Gone"⟩]
    references := [.type ⟨"z/Gone"⟩ .instantiation] }

/-- A library class with one method. -/
def libraryClass (method : MethodDefinition) : ClassDefinition :=
  { ClassDefinition.plain ⟨"q/Base"⟩ .object with superName := none, methods := [method] }

/-- A class that extends the library class, calls its method and one that it does not have. -/
def clientClass : ClassDefinition :=
  { ClassDefinition.plain ⟨"p/Main"⟩ ⟨"q/Base"⟩ with
    methods := [{ idleMethod with
      references := [.method ⟨⟨"q/Base"⟩, "run", "()V"⟩ .virtual false,
        .method ⟨⟨"q/Base"⟩, "stop", "()V"⟩ .virtual false] }] }

/-- The client on a classpath with the library class. -/
def clientClasspath (method : MethodDefinition) : Classpath :=
  .ofClasses [clientClass, libraryClass method]

/-- The client alone. -/
def clientPlugin : Classpath :=
  .ofClasses [clientClass]

/-- The class that the library's method wants is not missed, and the method that it lacks is. -/
theorem verify_same_skeletons_client :
    (clientClasspath demandingMethod).SameSkeletons (clientClasspath idleMethod) ∧
      libraryClass demandingMethod ≠ libraryClass idleMethod ∧
      verify clientPlugin (clientClasspath demandingMethod) { checkGenericSignatures := true } =
        verify clientPlugin (clientClasspath idleMethod) { checkGenericSignatures := true } ∧
      (verify clientPlugin (clientClasspath demandingMethod)
        { checkGenericSignatures := true }).problems =
          [.methodNotFound ⟨⟨"q/Base"⟩, "stop", "()V"⟩ .virtual] := by
  have hsame : (clientClasspath demandingMethod).SameSkeletons (clientClasspath idleMethod) :=
    .ofClasses rfl
  refine ⟨hsame, by decide, verify_same_skeletons _ _ _ _ hsame, ?_⟩
  decide +kernel

end LinkCheck
