import LinkCheck.Inquiry.Verification
import LinkCheck.Proofs.ClasspathViews

/-!
# Inquiries that a classpath answers

With the answers of a classpath, an inquiry gives what the same check gives that looks classes up at once.

## Main results

- `Inquiry.answeredBy_walk`, `Inquiry.answeredBy_hasAncestor`, `Inquiry.answeredBy_seekField` — walks
- `Inquiry.answeredBy_definitionFindings` — all that is found in a class
-/

namespace LinkCheck

namespace Inquiry

variable {classpath : Classpath} {α β : Type}

@[simp]
theorem answeredBy_pure (result : α) :
    (pure result : Inquiry classpath.names α).answeredBy classpath = result := rfl

@[simp]
theorem answeredBy_bind (inquiry : Inquiry classpath.names α)
    (next : α → Inquiry classpath.names β) :
    (inquiry >>= next).answeredBy classpath =
      (next (inquiry.answeredBy classpath)).answeredBy classpath := by
  induction inquiry with
  | done result => rfl
  | ask name rest ih => exact ih _

/-- A class that a classpath holds is found under one of its names. -/
theorem answeredBy_load_of_ok {name : ClassName} {definition : ClassDefinition}
    (h : classpath.load name = .ok definition) :
    (load name).answeredBy classpath = .ok ⟨definition, Classpath.mem_names_of_load h⟩ := by
  have hlisted := Classpath.mem_names_of_load h
  change Listed.ofAnswer classpath.names name (classpath.lookup name) = _
  rw [Classpath.load_eq_ok_iff, Classpath.find, if_pos hlisted] at h
  rw [Listed.ofAnswer, dif_pos hlisted, h]

theorem answeredBy_load_of_error {name : ClassName} {unresolved : Unresolved}
    (h : classpath.load name = .error unresolved) :
    (load name).answeredBy classpath = .error unresolved := by
  change Listed.ofAnswer classpath.names name (classpath.lookup name) = _
  rw [Classpath.load, Classpath.find] at h
  by_cases hlisted : name ∈ classpath.names
  · rw [if_pos hlisted] at h
    rw [Listed.ofAnswer, dif_pos hlisted]
    rcases hanswer : classpath.lookup name with failure | _ | definition
    · simp only [hanswer] at h
      cases h
      rfl
    · simp only [hanswer] at h
      cases h
      rfl
    · simp only [hanswer] at h
      cases h
  · rw [if_neg hlisted] at h
    rw [Listed.ofAnswer, dif_neg hlisted]
    cases h
    rfl

theorem answeredBy_collect (inquire : α → Inquiry classpath.names (List β)) (members : List α) :
    (collect inquire members).answeredBy classpath =
      members.flatMap fun member => (inquire member).answeredBy classpath := by
  induction members with
  | nil => rfl
  | cons member members ih =>
    rw [collect, List.flatMap_cons, ← ih]
    simp only [answeredBy_bind, answeredBy_pure]

theorem answeredBy_walk (enqueue : ClassDefinition → List ClassName → List ClassName)
    (seen pending : List ClassName) :
    (walk enqueue seen pending).answeredBy classpath = classpath.walk enqueue seen pending := by
  fun_induction Classpath.walk classpath enqueue seen pending with
  | case1 seen pending hfresh =>
    rw [walk]
    split
    · rfl
    · next hother => cases hfresh.symm.trans hother
  | case2 seen pending name rest hfresh unresolved hload =>
    rw [walk]
    split
    · next hother => cases hfresh.symm.trans hother
    · next hother =>
      cases hfresh.symm.trans hother
      simp only [answeredBy_bind, answeredBy_load_of_error hload, answeredBy_pure]
  | case3 seen pending name rest hfresh definition hload ih =>
    rw [walk]
    split
    · next hother => cases hfresh.symm.trans hother
    · next hother =>
      cases hfresh.symm.trans hother
      simp only [answeredBy_bind, answeredBy_load_of_ok hload, answeredBy_pure, ih]

theorem answeredBy_classChain (start : ClassDefinition) :
    (classChain start).answeredBy classpath = classpath.classChain start := by
  simp only [classChain, answeredBy_bind, answeredBy_pure, answeredBy_walk, Classpath.classChain]

theorem answeredBy_superinterfaces (start : ClassDefinition) :
    (superinterfaces start).answeredBy classpath = classpath.superinterfaces start := by
  rw [superinterfaces, answeredBy_bind, answeredBy_classChain, Classpath.superinterfaces]
  cases (classpath.classChain start).complete with
  | error unresolved => rfl
  | ok chain =>
    simp only [answeredBy_bind, answeredBy_pure, interfaceTrail, answeredBy_walk]
    rfl

theorem isMet_cons {seen : List ClassName} {name : ClassName} (other : ClassName)
    (h : classpath.isMet seen name = true) : classpath.isMet (other :: seen) name = true := by
  rw [Classpath.isMet, Option.any_eq_true] at h ⊢
  obtain ⟨definition, hload, hmet⟩ := h
  exact ⟨definition, hload, by simp_all⟩

/-- A class that is met now and then asked for again has been met. -/
theorem forall_isMet_cons {asked seen : List ClassName} {name : ClassName}
    {definition : ClassDefinition} (hload : classpath.load name = .ok definition)
    (h : ∀ other ∈ asked, classpath.isMet seen other = true) :
    ∀ other ∈ name :: asked, classpath.isMet (definition.name :: seen) other = true := by
  refine List.forall_mem_cons.2 ⟨?_, fun other hother => isMet_cons _ (h other hother)⟩
  rw [Classpath.isMet_of_load hload]
  simp

/-- A class that has not been met was not asked for. -/
theorem not_mem_asked {asked seen : List ClassName} {name : ClassName} {definition : ClassDefinition}
    (hload : classpath.load name = .ok definition) (hmet : definition.name ∉ seen)
    (h : ∀ other ∈ asked, classpath.isMet seen other = true) : name ∉ asked := by
  intro hmem
  have hagain := h name hmem
  rw [Classpath.isMet_of_load hload] at hagain
  exact hmet (of_decide_eq_true hagain)

/-- The names that have been asked for make no difference, since their classes have been met. -/
theorem answeredBy_hasAncestor (ancestor : ClassName) {asked seen : List ClassName}
    (hasked : ∀ name ∈ asked, classpath.isMet seen name = true) (current : ClassDefinition) :
    (hasAncestor ancestor asked seen current).answeredBy classpath =
      classpath.hasAncestor ancestor seen current := by
  fun_induction Classpath.hasAncestor classpath ancestor seen current generalizing asked with
  | case1 seen current hsuper =>
    rw [hasAncestor]
    simp only [hsuper, answeredBy_pure]
  | case2 seen current hsuper =>
    rw [hasAncestor]
    simp only [hsuper, if_true, answeredBy_pure]
  | case3 seen current superName hsuper hother failure hload =>
    rw [hasAncestor]
    simp only [hsuper, if_neg hother, answeredBy_bind, answeredBy_load_of_error hload,
      answeredBy_pure]
  | case4 seen current superName hsuper hother parent hload hfound =>
    rw [hasAncestor]
    simp only [hsuper, if_neg hother, answeredBy_bind, answeredBy_load_of_ok hload, if_pos hfound,
      answeredBy_pure]
  | case5 seen current superName hsuper hother parent hload hfound hmet =>
    rw [hasAncestor]
    simp only [hsuper, if_neg hother, answeredBy_bind, answeredBy_load_of_ok hload, if_neg hfound,
      if_pos hmet, answeredBy_pure]
  | case6 seen current superName hsuper hother parent hload hfound hmet ih =>
    rw [hasAncestor]
    simp only [hsuper, if_neg hother, answeredBy_bind, answeredBy_load_of_ok hload, if_neg hfound,
      if_neg hmet, dif_neg (not_mem_asked hload hmet hasked)]
    exact ih (forall_isMet_cons hload hasked)

theorem answeredBy_isSubclassOf (definition : ClassDefinition) (ancestor : ClassName) :
    (isSubclassOf definition ancestor).answeredBy classpath =
      classpath.isSubclassOf definition ancestor := by
  rw [isSubclassOf, Classpath.isSubclassOf]
  split
  · rfl
  · exact answeredBy_hasAncestor ancestor (List.forall_mem_nil _) definition

theorem answeredBy_mayAccessMember (accessor declaring : ClassDefinition)
    (visibility : Visibility) :
    (mayAccessMember accessor declaring visibility).answeredBy classpath =
      classpath.mayAccessMember accessor declaring visibility := by
  cases visibility with
  | publicAccess | packageAccess | privateAccess => rfl
  | protectedAccess =>
    rw [mayAccessMember, Classpath.mayAccessMember]
    cases accessor.name.samePackage declaring.name with
    | true => rfl
    | false =>
      simp only [Bool.false_eq_true, if_false, answeredBy_bind, answeredBy_pure,
        answeredBy_isSubclassOf, Bool.false_or]

theorem answeredBy_resolveSuperinterfaceMethod (owner : ClassDefinition) (name descriptor : String) :
    (resolveSuperinterfaceMethod owner name descriptor).answeredBy classpath =
      classpath.resolveSuperinterfaceMethod owner name descriptor := by
  rw [resolveSuperinterfaceMethod, answeredBy_bind, answeredBy_superinterfaces,
    Classpath.resolveSuperinterfaceMethod]
  cases classpath.superinterfaces owner <;> rfl

theorem answeredBy_resolveClassMethod (owner : ClassDefinition) (name descriptor : String) :
    (resolveClassMethod owner name descriptor).answeredBy classpath =
      classpath.resolveClassMethod owner name descriptor := by
  rw [resolveClassMethod, Classpath.resolveClassMethod]
  split
  · rfl
  · cases owner.polymorphicMethod? name with
    | some resolved => rfl
    | none =>
      simp only [answeredBy_bind, answeredBy_classChain]
      cases (classpath.classChain owner).complete with
      | error unresolved => rfl
      | ok chain =>
        dsimp only
        cases chain.findSome? fun definition =>
            definition.declaredMethod? name descriptor <|> definition.polymorphicMethod? name with
        | some resolved => rfl
        | none => exact answeredBy_resolveSuperinterfaceMethod owner name descriptor

theorem answeredBy_resolveInterfaceMethod (owner : ClassDefinition) (name descriptor : String) :
    (resolveInterfaceMethod owner name descriptor).answeredBy classpath =
      classpath.resolveInterfaceMethod owner name descriptor := by
  rw [resolveInterfaceMethod, Classpath.resolveInterfaceMethod]
  cases owner.declaredMethod? name descriptor with
  | some resolved => rfl
  | none =>
    rw [answeredBy_bind]
    cases hload : classpath.load .object with
    | error unresolved => simp only [answeredBy_load_of_error hload, answeredBy_pure]
    | ok root =>
      simp only [answeredBy_load_of_ok hload]
      cases Classpath.objectMethod? root name descriptor with
      | some resolved => rfl
      | none => exact answeredBy_resolveSuperinterfaceMethod owner name descriptor

/-- Looking for a field up to the first class that declares it is looking for it on the whole walk. The
induction is on the classes that are left to meet, and then on the pending names. -/
theorem answeredBy_seekField (name descriptor : String) {asked seen : List ClassName}
    (hasked : ∀ name ∈ asked, classpath.isMet seen name = true) (pending : List ClassName) :
    (seekField name descriptor asked seen pending).answeredBy classpath =
      Classpath.fieldAnswer name descriptor (classpath.fieldWalk seen pending) := by
  induction hcount : classpath.unmet seen using Nat.strongRecOn
    generalizing asked seen pending
  next count outer =>
  subst hcount
  induction pending with
  | nil =>
    rw [seekField, Classpath.fieldWalk_nil]
    rfl
  | cons supertype rest inner =>
    rw [seekField, answeredBy_bind]
    cases hload : classpath.load supertype with
    | error unresolved =>
      rw [answeredBy_load_of_error hload, Classpath.fieldWalk_cons_of_error hload]
      rfl
    | ok definition =>
      rw [answeredBy_load_of_ok hload]
      by_cases hmet : definition.name ∈ seen
      · simp only [if_pos hmet, Classpath.fieldWalk_cons_of_mem hload hmet]
        exact inner
      · have hfewer := Classpath.unmet_cons_lt hload hmet
        simp only [if_neg hmet, dif_neg (not_mem_asked hload hmet hasked),
          Classpath.fieldWalk_cons_of_ok hload hmet]
        cases hfield : definition.findField? name descriptor with
        | some field => exact (Classpath.fieldAnswer_after_of_declared hfield _).symm
        | none =>
          rw [Classpath.fieldAnswer_after_of_not_declared hfield]
          exact outer _ hfewer (forall_isMet_cons hload hasked) _ rfl

theorem answeredBy_resolveField (owner : ClassDefinition) (name descriptor : String) :
    (resolveField owner name descriptor).answeredBy classpath =
      classpath.resolveField owner name descriptor := by
  rw [resolveField, Classpath.resolveField_eq_fieldAnswer, Classpath.fieldTrail]
  cases hfield : owner.findField? name descriptor with
  | some field => exact (Classpath.fieldAnswer_after_of_declared hfield _).symm
  | none =>
    rw [Classpath.fieldAnswer_after_of_not_declared hfield]
    exact answeredBy_seekField name descriptor (List.forall_mem_nil _) owner.supertypes

section Checks

variable (options : Options)

/-- A class that is loaded gives what the rest of the check gives, whatever that is. -/
theorem answeredBy_withClass (name : ClassName) (missing : ClassName → Problem)
    (next : ClassDefinition → Inquiry classpath.names (List Problem)) :
    (withClass options name missing next).answeredBy classpath =
      LinkContext.withClass ⟨classpath, options⟩ name missing
        fun definition => (next definition).answeredBy classpath := by
  rw [withClass, answeredBy_bind, LinkContext.withClass]
  cases hload : classpath.load name with
  | error unresolved => simp only [answeredBy_load_of_error hload, answeredBy_pure]
  | ok definition => simp only [answeredBy_load_of_ok hload]

theorem answeredBy_typeProblems (name : ClassName) :
    (typeProblems options name).answeredBy classpath =
      LinkContext.typeProblems ⟨classpath, options⟩ name :=
  answeredBy_withClass options name _ _

theorem answeredBy_typeReferenceProblems (accessor : ClassDefinition) (name : ClassName)
    (usage : TypeUsage) :
    (typeReferenceProblems options accessor name usage).answeredBy classpath =
      LinkContext.typeReferenceProblems ⟨classpath, options⟩ accessor name usage := by
  rw [typeReferenceProblems, LinkContext.typeReferenceProblems]
  cases name.elementClass? with
  | none => rfl
  | some element => exact answeredBy_withClass options element _ _

theorem answeredBy_withOwner (accessor : ClassDefinition) (owner : ClassName)
    (next : ClassDefinition → Inquiry classpath.names (List Problem)) :
    (withOwner options accessor owner next).answeredBy classpath =
      LinkContext.withOwner ⟨classpath, options⟩ accessor owner
        fun definition => (next definition).answeredBy classpath := by
  rw [withOwner, LinkContext.withOwner]
  split
  · cases owner.elementClass? with
    | none => rfl
    | some element => exact answeredBy_typeProblems options element
  · rw [answeredBy_withClass]
    simp only [answeredBy_bind, answeredBy_pure]

theorem answeredBy_resolveMethod (owner : ClassDefinition) (member : MemberRef) :
    (resolveMethod owner member).answeredBy classpath =
      LinkContext.resolveMethod ⟨classpath, options⟩ owner member := by
  rw [resolveMethod, LinkContext.resolveMethod]
  split
  · exact answeredBy_resolveInterfaceMethod owner _ _
  · exact answeredBy_resolveClassMethod owner _ _

theorem answeredBy_methodReferenceProblems (accessor : ClassDefinition) (member : MemberRef)
    (invocation : Invocation) (interfaceConstant : Bool) :
    (methodReferenceProblems options accessor member invocation interfaceConstant).answeredBy
        classpath =
      LinkContext.methodReferenceProblems ⟨classpath, options⟩ accessor member invocation
        interfaceConstant := by
  rw [methodReferenceProblems, LinkContext.methodReferenceProblems, answeredBy_withOwner]
  congr 1
  funext owner
  split
  · rfl
  · rw [answeredBy_bind, answeredBy_resolveMethod options]
    cases LinkContext.resolveMethod ⟨classpath, options⟩ owner member with
    | found resolved =>
      simp only [resolvedMethodProblems, LinkContext.resolvedMethodProblems, answeredBy_bind,
        answeredBy_pure, answeredBy_mayAccessMember]
    | notFound => rfl
    | incomplete unresolved => rfl

theorem answeredBy_fieldReferenceProblems (accessor : ClassDefinition) (member : MemberRef)
    (instruction : FieldInstruction) :
    (fieldReferenceProblems options accessor member instruction).answeredBy classpath =
      LinkContext.fieldReferenceProblems ⟨classpath, options⟩ accessor member instruction := by
  rw [fieldReferenceProblems, LinkContext.fieldReferenceProblems, answeredBy_withOwner]
  congr 1
  funext owner
  rw [answeredBy_bind, answeredBy_resolveField]
  cases classpath.resolveField owner member.name member.descriptor with
  | found resolved =>
    simp only [resolvedFieldProblems, LinkContext.resolvedFieldProblems, answeredBy_bind,
      answeredBy_pure, answeredBy_mayAccessMember]
  | notFound => rfl
  | incomplete unresolved => rfl

theorem answeredBy_referenceProblems (accessor : ClassDefinition) (reference : Reference) :
    (referenceProblems options accessor reference).answeredBy classpath =
      LinkContext.referenceProblems ⟨classpath, options⟩ accessor reference := by
  cases reference with
  | type name usage => exact answeredBy_typeReferenceProblems options accessor name usage
  | method member invocation interfaceConstant =>
    exact answeredBy_methodReferenceProblems options accessor member invocation interfaceConstant
  | field member instruction =>
    exact answeredBy_fieldReferenceProblems options accessor member instruction

theorem answeredBy_superclassProblems (definition : ClassDefinition) :
    (superclassProblems options definition).answeredBy classpath =
      LinkContext.superclassProblems ⟨classpath, options⟩ definition := by
  rw [superclassProblems, LinkContext.superclassProblems]
  cases definition.superName with
  | none => rfl
  | some superName => exact answeredBy_withClass options superName _ _

theorem answeredBy_interfaceProblems (definition : ClassDefinition) (name : ClassName) :
    (interfaceProblems options definition name).answeredBy classpath =
      LinkContext.interfaceProblems ⟨classpath, options⟩ definition name :=
  answeredBy_withClass options name _ _

theorem answeredBy_signatureProblems (classes : List ClassName) :
    (signatureProblems options classes).answeredBy classpath =
      LinkContext.signatureProblems ⟨classpath, options⟩ classes := by
  rw [signatureProblems, LinkContext.signatureProblems]
  split
  · simp only [answeredBy_collect, answeredBy_typeProblems]
  · rfl

theorem answeredBy_fieldProblems (member : MemberRef) (field : FieldDefinition) :
    (fieldProblems options member field).answeredBy classpath =
      LinkContext.fieldProblems ⟨classpath, options⟩ member field := by
  rw [fieldProblems, LinkContext.fieldProblems]
  cases field.type.elementClass? with
  | none => simp only [answeredBy_bind, answeredBy_pure, answeredBy_signatureProblems]
  | some name =>
    simp only [answeredBy_bind, answeredBy_pure, answeredBy_signatureProblems, answeredBy_withClass]

theorem answeredBy_finalOverrideProblems (definition : ClassDefinition)
    (method : MethodDefinition) :
    (finalOverrideProblems definition method).answeredBy classpath =
      LinkContext.finalOverrideProblems ⟨classpath, options⟩ definition method := by
  rw [finalOverrideProblems, LinkContext.finalOverrideProblems]
  split
  · rfl
  · rw [answeredBy_bind, answeredBy_classChain]
    cases (classpath.classChain definition).complete <;> rfl

theorem answeredBy_methodProblems (definition : ClassDefinition) (method : MethodDefinition) :
    (methodProblems options definition method).answeredBy classpath =
      LinkContext.methodProblems ⟨classpath, options⟩ definition method := by
  simp only [methodProblems, LinkContext.methodProblems, answeredBy_bind, answeredBy_pure,
    answeredBy_collect, answeredBy_typeProblems, answeredBy_signatureProblems,
    answeredBy_finalOverrideProblems options, answeredBy_referenceProblems]

theorem answeredBy_abstractMethodProblems (definition : ClassDefinition) :
    (abstractMethodProblems definition).answeredBy classpath =
      LinkContext.abstractMethodProblems ⟨classpath, options⟩ definition := by
  rw [abstractMethodProblems, LinkContext.abstractMethodProblems]
  split
  · rfl
  · rw [answeredBy_bind, answeredBy_classChain]
    cases (classpath.classChain definition).complete with
    | error unresolved => rfl
    | ok chain =>
      simp only [answeredBy_bind, answeredBy_superinterfaces]
      cases classpath.superinterfaces definition <;> rfl

/-- With the answers of a classpath, a check finds in a class what is found when it is linked against the
classpath. -/
theorem answeredBy_definitionFindings (definition : ClassDefinition) (name : ClassName) :
    (definitionFindings options definition name).answeredBy classpath =
      LinkContext.definitionFindings ⟨classpath, options⟩ definition name := by
  simp only [definitionFindings, LinkContext.definitionFindings, answeredBy_bind, answeredBy_pure,
    answeredBy_collect, answeredBy_superclassProblems, answeredBy_interfaceProblems,
    answeredBy_signatureProblems, answeredBy_fieldProblems, answeredBy_methodProblems]
  split
  · rw [answeredBy_bind, answeredBy_abstractMethodProblems options]
    rfl
  · rfl

end Checks

end Inquiry

end LinkCheck
