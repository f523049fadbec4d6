import LinkCheck.Proofs.ClasspathViews
import Mathlib.Logic.Function.Basic

/-!
# What linking sees of a class

A class that is met on a classpath is looked at from outside: its name, its supertypes, its flags, its nest,
and the names, descriptors and flags of its members. This is its skeleton. Walks over supertypes, searches
for members and access control go the same way on two classpaths whose classes have the same skeletons.

## Main definitions

- `Skeleton` — what linking sees of a class
- `Classpath.SameSkeletons` — classpaths that answer alike, as far as skeletons go

## Main results

- `Classpath.SameSkeletons.walk`, `Classpath.SameSkeletons.hasAncestor` — walks go the same way
- `Classpath.SameSkeletons.resolveClassMethod`, `Classpath.SameSkeletons.resolveInterfaceMethod`,
  `Classpath.SameSkeletons.resolveField` — searches end alike
-/

namespace LinkCheck

section Views

variable {α β γ δ : Type} {view : α → γ} {first second : List α}

theorem findSome?_of_view (seen : β → δ) (search : α → Option β) (h : first.map view = second.map view)
    (hsearch : Function.FactorsThrough (fun item => (search item).map seen) view) :
    (first.findSome? search).map seen = (second.findSome? search).map seen := by
  obtain ⟨found, hfound⟩ := (Function.factorsThrough_iff _).1 hsearch
  have hview : ∀ items : List α,
      (items.findSome? search).map seen = (items.map view).findSome? found := by
    intro items
    rw [List.map_findSome?, List.findSome?_map]
    exact congrArg (items.findSome? ·) hfound
  rw [hview, hview, h]

theorem filterMap_of_view (seen : β → δ) (search : α → Option β) (h : first.map view = second.map view)
    (hsearch : Function.FactorsThrough (fun item => (search item).map seen) view) :
    (first.filterMap search).map seen = (second.filterMap search).map seen := by
  obtain ⟨found, hfound⟩ := (Function.factorsThrough_iff _).1 hsearch
  have hview : ∀ items : List α,
      (items.filterMap search).map seen = (items.map view).filterMap found := by
    intro items
    rw [List.map_filterMap, List.filterMap_map]
    exact congrArg (items.filterMap ·) hfound
  rw [hview, hview, h]

theorem filter_of_view {test : α → Bool} (h : first.map view = second.map view)
    (htest : Function.FactorsThrough test view) :
    (first.filter test).map view = (second.filter test).map view := by
  obtain ⟨passed, rfl⟩ := (Function.factorsThrough_iff _).1 htest
  rw [← List.filter_map, ← List.filter_map, h]

theorem find?_of_view {test : α → Bool} (h : first.map view = second.map view)
    (htest : Function.FactorsThrough test view) :
    (first.find? test).map view = (second.find? test).map view := by
  obtain ⟨passed, rfl⟩ := (Function.factorsThrough_iff _).1 htest
  rw [← List.find?_map, ← List.find?_map, h]

theorem flatMap_of_view {items : α → List β} (h : first.map view = second.map view)
    (hitems : Function.FactorsThrough items view) : first.flatMap items = second.flatMap items := by
  obtain ⟨parts, rfl⟩ := (Function.factorsThrough_iff _).1 hitems
  have hview : ∀ list : List α, list.flatMap (parts ∘ view) = (list.map view).flatMap parts :=
    fun list => (List.flatMap_map view parts list).symm
  rw [hview, hview, h]

theorem any_of_view {test : α → Bool} (h : first.map view = second.map view)
    (htest : Function.FactorsThrough test view) : first.any test = second.any test := by
  obtain ⟨passed, rfl⟩ := (Function.factorsThrough_iff _).1 htest
  rw [← List.any_map, ← List.any_map, h]

theorem option_filter_of_view {left right : Option α} {test : α → Bool}
    (h : left.map view = right.map view) (htest : Function.FactorsThrough test view) :
    (left.filter test).map view = (right.filter test).map view := by
  obtain ⟨passed, rfl⟩ := (Function.factorsThrough_iff _).1 htest
  rw [← Option.filter_map, ← Option.filter_map, h]

theorem option_of_view {left right : Option α} (h : left.map view = right.map view) :
    (left = none ∧ right = none) ∨
      ∃ item other, left = some item ∧ right = some other ∧ view item = view other := by
  cases left with
  | none =>
    cases right with
    | none => exact .inl ⟨rfl, rfl⟩
    | some other => cases h
  | some item =>
    cases right with
    | none => cases h
    | some other => exact .inr ⟨item, other, rfl, rfl, Option.some.inj h⟩

/-- Two computations that look alike both fail for the same reason, or both give results that look alike. -/
theorem except_of_view {ε : Type} {left right : Except ε α} (h : left.map view = right.map view) :
    (∃ failure, left = .error failure ∧ right = .error failure) ∨
      ∃ result other, left = .ok result ∧ right = .ok other ∧ view result = view other := by
  cases left with
  | error failure =>
    cases right with
    | error other => exact .inl ⟨failure, rfl, congrArg Except.error (Except.error.inj h).symm⟩
    | ok other => cases h
  | ok result =>
    cases right with
    | error other => cases h
    | ok other => exact .inr ⟨result, other, rfl, rfl, Except.ok.inj h⟩

end Views

/-- What linking sees of a field or a method. -/
structure MemberSkeleton where
  name : String
  descriptor : String
  flags : AccessFlags
deriving DecidableEq

/-- What linking sees of a class. -/
structure Skeleton where
  name : ClassName
  superName : Option ClassName
  interfaces : List ClassName
  flags : AccessFlags
  nestHost : ClassName
  fields : List MemberSkeleton
  methods : List MemberSkeleton
deriving DecidableEq

def FieldDefinition.skeleton (field : FieldDefinition) : MemberSkeleton :=
  ⟨field.name, field.descriptor, field.flags⟩

def MethodDefinition.skeleton (method : MethodDefinition) : MemberSkeleton :=
  ⟨method.name, method.descriptor, method.flags⟩

def ClassDefinition.skeleton (definition : ClassDefinition) : Skeleton where
  name := definition.name
  superName := definition.superName
  interfaces := definition.interfaces
  flags := definition.flags
  nestHost := definition.nestHost
  fields := definition.fields.map FieldDefinition.skeleton
  methods := definition.methods.map MethodDefinition.skeleton

/-- A method that was found, with what linking sees of the class that declares it. -/
def ResolvedMethod.skeleton (resolved : ResolvedMethod) : Skeleton × MemberSkeleton :=
  (resolved.declaring.skeleton, resolved.method.skeleton)

def ResolvedField.skeleton (resolved : ResolvedField) : Skeleton × MemberSkeleton :=
  (resolved.declaring.skeleton, resolved.field.skeleton)

namespace MethodDefinition

variable {first second : MethodDefinition} (h : first.skeleton = second.skeleton)

include h

theorem name_of_skeleton : first.name = second.name := congrArg MemberSkeleton.name h

theorem descriptor_of_skeleton : first.descriptor = second.descriptor :=
  congrArg MemberSkeleton.descriptor h

theorem flags_of_skeleton : first.flags = second.flags := congrArg MemberSkeleton.flags h

theorem isStatic_of_skeleton : first.isStatic = second.isStatic :=
  congrArg AccessFlags.isStatic (flags_of_skeleton h)

theorem isPrivate_of_skeleton : first.isPrivate = second.isPrivate :=
  congrArg AccessFlags.isPrivate (flags_of_skeleton h)

theorem isAbstract_of_skeleton : first.isAbstract = second.isAbstract :=
  congrArg AccessFlags.isAbstract (flags_of_skeleton h)

theorem isFinal_of_skeleton : first.isFinal = second.isFinal :=
  congrArg AccessFlags.isFinal (flags_of_skeleton h)

theorem visibility_of_skeleton : first.visibility = second.visibility :=
  congrArg AccessFlags.memberVisibility (flags_of_skeleton h)

theorem isInheritable_of_skeleton : first.isInheritable = second.isInheritable := by
  rw [isInheritable, isInheritable, isPrivate_of_skeleton h, isStatic_of_skeleton h]

end MethodDefinition

namespace ClassDefinition

variable {first second : ClassDefinition} (h : first.skeleton = second.skeleton)

include h

theorem name_of_skeleton : first.name = second.name := congrArg Skeleton.name h

theorem superName_of_skeleton : first.superName = second.superName := congrArg Skeleton.superName h

theorem interfaces_of_skeleton : first.interfaces = second.interfaces :=
  congrArg Skeleton.interfaces h

theorem nestHost_of_skeleton : first.nestHost = second.nestHost := congrArg Skeleton.nestHost h

theorem isInterface_of_skeleton : first.isInterface = second.isInterface :=
  congrArg (AccessFlags.isInterface ∘ Skeleton.flags) h

theorem isAbstract_of_skeleton : first.isAbstract = second.isAbstract :=
  congrArg (AccessFlags.isAbstract ∘ Skeleton.flags) h

theorem isFinal_of_skeleton : first.isFinal = second.isFinal :=
  congrArg (AccessFlags.isFinal ∘ Skeleton.flags) h

theorem visibility_of_skeleton : first.visibility = second.visibility :=
  congrArg (AccessFlags.classVisibility ∘ Skeleton.flags) h

end ClassDefinition

section Members

variable {first second : ClassDefinition}

theorem findMethod?_of_skeleton (h : first.skeleton = second.skeleton) (name descriptor : String) :
    (first.findMethod? name descriptor).map MethodDefinition.skeleton =
      (second.findMethod? name descriptor).map MethodDefinition.skeleton := by
  refine find?_of_view (congrArg Skeleton.methods h) fun method other hsame => ?_
  simp only [MethodDefinition.name_of_skeleton hsame, MethodDefinition.descriptor_of_skeleton hsame]

theorem findField?_of_skeleton (h : first.skeleton = second.skeleton) (name descriptor : String) :
    (first.findField? name descriptor).map FieldDefinition.skeleton =
      (second.findField? name descriptor).map FieldDefinition.skeleton := by
  refine find?_of_view (congrArg Skeleton.fields h) fun field other hsame => ?_
  have hname : field.name = other.name := congrArg MemberSkeleton.name hsame
  have hdescriptor : field.descriptor = other.descriptor :=
    congrArg MemberSkeleton.descriptor hsame
  simp only [hname, hdescriptor]

theorem declaredMethod?_of_skeleton (h : first.skeleton = second.skeleton)
    (name descriptor : String) :
    (first.declaredMethod? name descriptor).map ResolvedMethod.skeleton =
      (second.declaredMethod? name descriptor).map ResolvedMethod.skeleton := by
  have hview : ∀ definition : ClassDefinition,
      (definition.declaredMethod? name descriptor).map ResolvedMethod.skeleton =
        ((definition.findMethod? name descriptor).map MethodDefinition.skeleton).map
          (definition.skeleton, ·) := by
    intro definition
    rw [ClassDefinition.declaredMethod?, Option.map_map, Option.map_map]
    rfl
  rw [hview, hview, findMethod?_of_skeleton h, h]

theorem polymorphicMethod?_of_skeleton (h : first.skeleton = second.skeleton) (name : String) :
    (first.polymorphicMethod? name).map ResolvedMethod.skeleton =
      (second.polymorphicMethod? name).map ResolvedMethod.skeleton := by
  have howner : first.isPolymorphicOwner = second.isPolymorphicOwner := by
    simp only [ClassDefinition.isPolymorphicOwner, ClassDefinition.name_of_skeleton h]
  have hmethods : (first.methods.filter (·.name = name)).map MethodDefinition.skeleton =
      (second.methods.filter (·.name = name)).map MethodDefinition.skeleton := by
    refine filter_of_view (congrArg Skeleton.methods h) fun method other hsame => ?_
    simp only [MethodDefinition.name_of_skeleton hsame]
  unfold ClassDefinition.polymorphicMethod?
  rw [howner]
  generalize first.methods.filter (·.name = name) = named at hmethods
  generalize second.methods.filter (·.name = name) = others at hmethods
  split
  · -- Only a method that is alone with its name counts, so both lists have to be taken apart.
    obtain _ | ⟨method, _ | ⟨_, _⟩⟩ := named <;> obtain _ | ⟨other, _ | ⟨_, _⟩⟩ := others <;>
      simp only [List.map_cons, List.map_nil, List.cons.injEq, reduceCtorEq,
        and_false] at hmethods ⊢
    obtain ⟨hsame, -⟩ := hmethods
    rw [MethodDefinition.descriptor_of_skeleton hsame, MethodDefinition.flags_of_skeleton hsame]
    split
    · exact congrArg some (Prod.ext h hsame)
    · rfl
  · rfl

theorem declaredField?_of_skeleton (h : first.skeleton = second.skeleton)
    (name descriptor : String) :
    ((first.findField? name descriptor).map (ResolvedField.mk first)).map ResolvedField.skeleton =
      ((second.findField? name descriptor).map (ResolvedField.mk second)).map
        ResolvedField.skeleton := by
  have hview : ∀ definition : ClassDefinition,
      ((definition.findField? name descriptor).map (ResolvedField.mk definition)).map
          ResolvedField.skeleton =
        ((definition.findField? name descriptor).map FieldDefinition.skeleton).map
          (definition.skeleton, ·) := by
    intro definition
    rw [Option.map_map, Option.map_map]
    rfl
  rw [hview, hview, findField?_of_skeleton h, h]

theorem objectMethod?_of_skeleton (h : first.skeleton = second.skeleton)
    (name descriptor : String) :
    (Classpath.objectMethod? first name descriptor).map ResolvedMethod.skeleton =
      (Classpath.objectMethod? second name descriptor).map ResolvedMethod.skeleton := by
  refine option_filter_of_view (declaredMethod?_of_skeleton h name descriptor)
    fun resolved other hsame => ?_
  have hmethod : resolved.method.skeleton = other.method.skeleton := congrArg Prod.snd hsame
  simp only [MethodDefinition.visibility_of_skeleton hmethod,
    MethodDefinition.isStatic_of_skeleton hmethod]

end Members

/-- The outcome of a search, as far as its member can be seen. -/
def Resolution.map {α β : Type} (view : α → β) : Resolution α → Resolution β
  | found member => found (view member)
  | notFound => notFound
  | incomplete unresolved => incomplete unresolved

theorem Resolution.map_ofOption {α β : Type} (view : α → β) (member : Option α) :
    (ofOption member).map view = ofOption (member.map view) := by
  cases member <;> rfl

theorem Resolution.of_map {α β : Type} {view : α → β} {left right : Resolution α}
    (h : left.map view = right.map view) :
    (∃ member other, left = .found member ∧ right = .found other ∧ view member = view other) ∨
      (left = .notFound ∧ right = .notFound) ∨
      ∃ unresolved, left = .incomplete unresolved ∧ right = .incomplete unresolved := by
  cases left with
  | found member =>
    cases right with
    | found other => exact .inl ⟨member, other, rfl, rfl, Resolution.found.inj h⟩
    | notFound | incomplete _ => cases h
  | notFound =>
    cases right with
    | notFound => exact .inr (.inl ⟨rfl, rfl⟩)
    | found _ | incomplete _ => cases h
  | incomplete unresolved =>
    cases right with
    | incomplete other =>
      exact .inr (.inr ⟨unresolved, rfl, congrArg _ (Resolution.incomplete.inj h).symm⟩)
    | found _ | notFound => cases h

/-- Two trails that pass classes with the same skeletons, and break off alike. -/
def Trail.Like (first second : Trail) : Prop :=
  first.loaded.map ClassDefinition.skeleton = second.loaded.map ClassDefinition.skeleton ∧
    first.stopped = second.stopped

theorem Trail.Like.after {first second : Trail} {definition other : ClassDefinition}
    (h : first.Like second) (hsame : definition.skeleton = other.skeleton) :
    (first.after definition).Like (second.after other) := by
  refine ⟨?_, h.2⟩
  simp only [Trail.after, List.map_cons, hsame, h.1]

theorem Trail.Like.complete {first second : Trail} (h : first.Like second) :
    first.complete.map (List.map ClassDefinition.skeleton) =
      second.complete.map (List.map ClassDefinition.skeleton) := by
  unfold Trail.complete
  rw [h.2]
  cases second.stopped with
  | none => exact congrArg Except.ok h.1
  | some unresolved => rfl

namespace Classpath

/-- For every name both classpaths have nothing, or the same reason why the class cannot be read, or
classes with the same skeleton. -/
def SameSkeletons (first second : Classpath) : Prop :=
  ∀ name, (first.find name).map (Option.map ClassDefinition.skeleton) =
    (second.find name).map (Option.map ClassDefinition.skeleton)

theorem SameSkeletons.refl (classpath : Classpath) : classpath.SameSkeletons classpath :=
  fun _ => rfl

namespace SameSkeletons

variable {first second : Classpath} {definition other : ClassDefinition}

theorem load_cases (h : first.SameSkeletons second) (name : ClassName) :
    (∃ unresolved, first.load name = .error unresolved ∧ second.load name = .error unresolved) ∨
      ∃ definition other, first.load name = .ok definition ∧ second.load name = .ok other ∧
        definition.skeleton = other.skeleton := by
  unfold load
  obtain ⟨failure, hfirst, hsecond⟩ | ⟨found, other, hfirst, hsecond, hsame⟩ :=
    except_of_view (h name)
  · rw [hfirst, hsecond]
    exact .inl ⟨_, rfl, rfl⟩
  · rw [hfirst, hsecond]
    cases found with
    | none =>
      cases other with
      | none => exact .inl ⟨_, rfl, rfl⟩
      | some _ => cases hsame
    | some definition =>
      cases other with
      | none => cases hsame
      | some other => exact .inr ⟨definition, other, rfl, rfl, Option.some.inj hsame⟩

/-- A walk over one classpath passes what the walk over the other passes, as far as skeletons go. The
induction is that of the first walk. -/
theorem walk (h : first.SameSkeletons second)
    {enqueue : ClassDefinition → List ClassName → List ClassName}
    (henqueue : Function.FactorsThrough enqueue ClassDefinition.skeleton)
    (seen pending : List ClassName) :
    (first.walk enqueue seen pending).Like (second.walk enqueue seen pending) := by
  fun_induction Classpath.walk first enqueue seen pending with
  | case1 seen pending hfresh =>
    rw [walk_unfold, hfresh]
    exact ⟨rfl, rfl⟩
  | case2 seen pending name rest hfresh unresolved hload =>
    obtain ⟨failed, hfirst, hsecond⟩ | ⟨_, _, hfirst, -⟩ := h.load_cases name
    · cases hload.symm.trans hfirst
      rw [walk_unfold, hfresh]
      simp only [hsecond]
      exact ⟨rfl, rfl⟩
    · cases hload.symm.trans hfirst
  | case3 seen pending name rest hfresh definition hload ih =>
    obtain ⟨_, hfirst, -⟩ | ⟨found, other, hfirst, hsecond, hsame⟩ := h.load_cases name
    · cases hload.symm.trans hfirst
    · cases hload.symm.trans hfirst
      rw [walk_unfold second enqueue seen, hfresh]
      simp only [hsecond, ← henqueue hsame]
      exact ih.after hsame

theorem hasAncestor (h : first.SameSkeletons second) (ancestor : ClassName) (seen : List ClassName)
    (hsame : definition.skeleton = other.skeleton) :
    first.hasAncestor ancestor seen definition = second.hasAncestor ancestor seen other := by
  fun_induction Classpath.hasAncestor first ancestor seen definition generalizing other with
  | case1 seen definition hsuper =>
    have hother : other.superName = none :=
      (ClassDefinition.superName_of_skeleton hsame).symm.trans hsuper
    rw [hasAncestor_unfold, hother]
  | case2 seen definition hsuper =>
    have hother : other.superName = some ancestor :=
      (ClassDefinition.superName_of_skeleton hsame).symm.trans hsuper
    rw [hasAncestor_unfold, hother]
    simp only [if_true]
  | case3 seen definition superName hsuper hne unresolved hload =>
    have hother : other.superName = some superName :=
      (ClassDefinition.superName_of_skeleton hsame).symm.trans hsuper
    obtain ⟨failed, hfirst, hsecond⟩ | ⟨_, _, hfirst, -⟩ := h.load_cases superName
    · rw [hasAncestor_unfold, hother]
      simp only [if_neg hne, hsecond]
    · cases hload.symm.trans hfirst
  | case4 seen definition superName hsuper hne parent hload hfound =>
    have hother : other.superName = some superName :=
      (ClassDefinition.superName_of_skeleton hsame).symm.trans hsuper
    obtain ⟨_, hfirst, -⟩ | ⟨found, next, hfirst, hsecond, hparent⟩ := h.load_cases superName
    · cases hload.symm.trans hfirst
    · cases hload.symm.trans hfirst
      rw [ClassDefinition.name_of_skeleton hparent] at hfound
      rw [hasAncestor_unfold, hother]
      simp only [if_neg hne, hsecond, if_pos hfound]
  | case5 seen definition superName hsuper hne parent hload hfound hmet =>
    have hother : other.superName = some superName :=
      (ClassDefinition.superName_of_skeleton hsame).symm.trans hsuper
    obtain ⟨_, hfirst, -⟩ | ⟨found, next, hfirst, hsecond, hparent⟩ := h.load_cases superName
    · cases hload.symm.trans hfirst
    · cases hload.symm.trans hfirst
      rw [ClassDefinition.name_of_skeleton hparent] at hfound hmet
      rw [hasAncestor_unfold, hother]
      simp only [if_neg hne, hsecond, if_neg hfound, if_pos hmet]
  | case6 seen definition superName hsuper hne parent hload hfound hmet ih =>
    have hother : other.superName = some superName :=
      (ClassDefinition.superName_of_skeleton hsame).symm.trans hsuper
    obtain ⟨_, hfirst, -⟩ | ⟨found, next, hfirst, hsecond, hparent⟩ := h.load_cases superName
    · cases hload.symm.trans hfirst
    · cases hload.symm.trans hfirst
      rw [ih hparent, hasAncestor_unfold second ancestor seen, hother]
      rw [ClassDefinition.name_of_skeleton hparent] at hfound hmet ⊢
      simp only [if_neg hne, hsecond, if_neg hfound, if_neg hmet]

theorem classChain (h : first.SameSkeletons second) (hsame : definition.skeleton = other.skeleton) :
    (first.classChain definition).Like (second.classChain other) := by
  unfold Classpath.classChain
  rw [ClassDefinition.name_of_skeleton hsame, ClassDefinition.superName_of_skeleton hsame]
  refine (h.walk (fun start next hlike => ?_) _ _).after hsame
  simp only [ClassDefinition.superName_of_skeleton hlike]

theorem superinterfaces (h : first.SameSkeletons second)
    (hsame : definition.skeleton = other.skeleton) :
    (first.superinterfaces definition).map (List.map ClassDefinition.skeleton) =
      (second.superinterfaces other).map (List.map ClassDefinition.skeleton) := by
  unfold Classpath.superinterfaces
  obtain ⟨unresolved, hfirst, hsecond⟩ | ⟨chain, others, hfirst, hsecond, hchain⟩ :=
    except_of_view (h.classChain hsame).complete
  · rw [hfirst, hsecond]
    rfl
  · rw [hfirst, hsecond]
    change ((first.interfaceTrail _).complete).map _ = ((second.interfaceTrail _).complete).map _
    rw [flatMap_of_view hchain fun _ _ hlike => ClassDefinition.interfaces_of_skeleton hlike]
    refine (h.walk (fun start next hlike => ?_) _ _).complete
    simp only [ClassDefinition.interfaces_of_skeleton hlike]

theorem supertypes (hsame : definition.skeleton = other.skeleton) :
    definition.supertypes = other.supertypes := by
  rw [ClassDefinition.supertypes, ClassDefinition.supertypes,
    ClassDefinition.interfaces_of_skeleton hsame, ClassDefinition.superName_of_skeleton hsame]

theorem isMet (h : first.SameSkeletons second) : first.isMet = second.isMet := by
  funext seen name
  obtain ⟨failed, hfirst, hsecond⟩ | ⟨found, other, hfirst, hsecond, hsame⟩ := h.load_cases name
  · rw [Classpath.isMet, Classpath.isMet, hfirst, hsecond]
  · rw [isMet_of_load hfirst, isMet_of_load hsecond, ClassDefinition.name_of_skeleton hsame]

theorem fieldWalk (h : first.SameSkeletons second) (seen pending : List ClassName) :
    (first.fieldWalk seen pending).Like (second.fieldWalk seen pending) := by
  fun_induction Classpath.fieldWalk first seen pending with
  | case1 seen pending hfresh =>
    rw [fieldWalk_unfold, ← h.isMet, hfresh]
    exact ⟨rfl, rfl⟩
  | case2 seen pending name rest hfresh unresolved hload =>
    obtain ⟨failed, hfirst, hsecond⟩ | ⟨_, _, hfirst, -⟩ := h.load_cases name
    · cases hload.symm.trans hfirst
      rw [fieldWalk_unfold, ← h.isMet, hfresh]
      simp only [hsecond]
      exact ⟨rfl, rfl⟩
    · cases hload.symm.trans hfirst
  | case3 seen pending name rest hfresh definition hload ih =>
    obtain ⟨_, hfirst, -⟩ | ⟨found, other, hfirst, hsecond, hsame⟩ := h.load_cases name
    · cases hload.symm.trans hfirst
    · cases hload.symm.trans hfirst
      rw [fieldWalk_unfold second seen, ← h.isMet, hfresh]
      simp only [hsecond, ← ClassDefinition.name_of_skeleton hsame, ← supertypes hsame]
      exact ih.after hsame

theorem fieldTrail (h : first.SameSkeletons second) (hsame : definition.skeleton = other.skeleton) :
    (first.fieldTrail definition).Like (second.fieldTrail other) := by
  rw [Classpath.fieldTrail, Classpath.fieldTrail, ClassDefinition.name_of_skeleton hsame,
    supertypes hsame]
  exact (h.fieldWalk _ _).after hsame

theorem mayAccessMember (h : first.SameSkeletons second) (accessor : ClassDefinition)
    (hsame : definition.skeleton = other.skeleton) (visibility : Visibility) :
    first.mayAccessMember accessor definition visibility =
      second.mayAccessMember accessor other visibility := by
  cases visibility <;> simp only [Classpath.mayAccessMember, isSubclassOf,
    ClassDefinition.name_of_skeleton hsame, ClassDefinition.nestHost_of_skeleton hsame]
  rw [h.hasAncestor other.name [accessor.name] rfl]

end SameSkeletons

section Interfaces

variable {first second : List ClassDefinition}

theorem interfaceMethod?_of_skeletons
    (h : first.map ClassDefinition.skeleton = second.map ClassDefinition.skeleton)
    (name descriptor : String) :
    (interfaceMethod? first name descriptor).map ResolvedMethod.skeleton =
      (interfaceMethod? second name descriptor).map ResolvedMethod.skeleton := by
  have hcandidates := filterMap_of_view ResolvedMethod.skeleton
    (fun interface => (interface.declaredMethod? name descriptor).filter (·.method.isInheritable)) h
    fun _ _ hsame => option_filter_of_view (declaredMethod?_of_skeleton hsame name descriptor)
      fun _ _ hlike => MethodDefinition.isInheritable_of_skeleton (congrArg Prod.snd hlike)
  have habstract : Function.FactorsThrough
      (fun resolved : ResolvedMethod => !resolved.method.isAbstract) ResolvedMethod.skeleton := by
    intro resolved other hsame
    simp only [MethodDefinition.isAbstract_of_skeleton (congrArg Prod.snd hsame)]
  simp only [interfaceMethod?, Option.orElse_eq_orElse, Option.orElse_eq_or, Option.map_or]
  rw [find?_of_view hcandidates habstract, ← List.head?_map, hcandidates, List.head?_map]

end Interfaces

namespace SameSkeletons

variable {first second : Classpath} {definition other : ClassDefinition}

theorem resolveSuperinterfaceMethod (h : first.SameSkeletons second)
    (hsame : definition.skeleton = other.skeleton) (name descriptor : String) :
    (first.resolveSuperinterfaceMethod definition name descriptor).map ResolvedMethod.skeleton =
      (second.resolveSuperinterfaceMethod other name descriptor).map ResolvedMethod.skeleton := by
  unfold Classpath.resolveSuperinterfaceMethod
  obtain ⟨unresolved, hfirst, hsecond⟩ | ⟨interfaces, others, hfirst, hsecond, hlike⟩ :=
    except_of_view (h.superinterfaces hsame)
  · simp only [hfirst, hsecond]
  · simp only [hfirst, hsecond, Resolution.map_ofOption]
    rw [interfaceMethod?_of_skeletons hlike]

theorem resolveClassMethod (h : first.SameSkeletons second)
    (hsame : definition.skeleton = other.skeleton) (name descriptor : String) :
    (first.resolveClassMethod definition name descriptor).map ResolvedMethod.skeleton =
      (second.resolveClassMethod other name descriptor).map ResolvedMethod.skeleton := by
  unfold Classpath.resolveClassMethod
  split
  · rw [Resolution.map_ofOption, Resolution.map_ofOption, declaredMethod?_of_skeleton hsame]
  · obtain ⟨hnone, hother⟩ | ⟨resolved, found, hsome, hother, hlike⟩ :=
      option_of_view (polymorphicMethod?_of_skeleton hsame name)
    · simp only [hnone, hother]
      obtain ⟨unresolved, hfirst, hsecond⟩ | ⟨chain, others, hfirst, hsecond, hchain⟩ :=
        except_of_view (h.classChain hsame).complete
      · simp only [hfirst, hsecond]
      · simp only [hfirst, hsecond]
        have hsearch := findSome?_of_view ResolvedMethod.skeleton
          (fun start => start.declaredMethod? name descriptor <|> start.polymorphicMethod? name)
          hchain fun start next hlike => by
            simp only [Option.orElse_eq_orElse, Option.orElse_eq_or, Option.map_or,
              declaredMethod?_of_skeleton hlike, polymorphicMethod?_of_skeleton hlike]
        obtain ⟨hnone, hother⟩ | ⟨resolved, found, hsome, hother, hlike⟩ := option_of_view hsearch
        · simp only [hnone, hother]
          exact h.resolveSuperinterfaceMethod hsame name descriptor
        · simp only [hsome, hother]
          exact congrArg Resolution.found hlike
    · simp only [hsome, hother]
      exact congrArg Resolution.found hlike

theorem resolveInterfaceMethod (h : first.SameSkeletons second)
    (hsame : definition.skeleton = other.skeleton) (name descriptor : String) :
    (first.resolveInterfaceMethod definition name descriptor).map ResolvedMethod.skeleton =
      (second.resolveInterfaceMethod other name descriptor).map ResolvedMethod.skeleton := by
  unfold Classpath.resolveInterfaceMethod
  obtain ⟨hnone, hother⟩ | ⟨resolved, found, hsome, hother, hlike⟩ :=
    option_of_view (declaredMethod?_of_skeleton hsame name descriptor)
  · simp only [hnone, hother]
    obtain ⟨unresolved, hfirst, hsecond⟩ | ⟨root, base, hfirst, hsecond, hroot⟩ :=
      h.load_cases .object
    · simp only [hfirst, hsecond]
    · simp only [hfirst, hsecond]
      obtain ⟨hnone, hother⟩ | ⟨resolved, found, hsome, hother, hlike⟩ :=
        option_of_view (objectMethod?_of_skeleton hroot name descriptor)
      · simp only [hnone, hother]
        exact h.resolveSuperinterfaceMethod hsame name descriptor
      · simp only [hsome, hother]
        exact congrArg Resolution.found hlike
  · simp only [hsome, hother]
    exact congrArg Resolution.found hlike

/-- A field is looked for in classes with the same skeletons. -/
theorem resolveField (h : first.SameSkeletons second) (hsame : definition.skeleton = other.skeleton)
    (name descriptor : String) :
    (first.resolveField definition name descriptor).map ResolvedField.skeleton =
      (second.resolveField other name descriptor).map ResolvedField.skeleton := by
  obtain ⟨hloaded, hstopped⟩ := h.fieldTrail hsame
  have hsearch := findSome?_of_view ResolvedField.skeleton
    (fun start => (start.findField? name descriptor).map fun field => ResolvedField.mk start field)
    hloaded fun start next hlike => declaredField?_of_skeleton hlike name descriptor
  unfold Classpath.resolveField
  simp only [hstopped]
  obtain ⟨hnone, hother⟩ | ⟨resolved, found, hsome, hother, hlike⟩ := option_of_view hsearch
  · simp only [hnone, hother]
  · simp only [hsome, hother]
    exact congrArg Resolution.found hlike

end SameSkeletons

end Classpath

end LinkCheck
