import LinkCheck.Hierarchy.Access
import LinkCheck.Proofs.OwnNames
import LinkCheck.Proofs.PlainClasses
import LinkCheck.Proofs.Supertypes

/-!
# Two ways up the superclasses

The superclasses of a class are gone through in two ways. One collects all classes of the chain, and the
other looks for a single class and ends as soon as it is known. They notice at different points that a chain
goes in circles: the one before it loads a class, the other after it. Where every class stands under its own
name, they agree on what is a superclass, and on where that cannot be told.

## Main definitions

- `Trail.tells` — what a walk over superclasses tells about a class

## Main results

- `Classpath.hasAncestor_eq_tells` — a search for a class ends as the walk over all superclasses tells
- `Classpath.isSubclassOf_along_chain` — what a chain says about subclasses and about protected members
-/

namespace LinkCheck

/-- What a walk over superclasses tells about a class. It is a superclass if the walk met it, or broke off
when it was to be loaded. A walk that broke off tells nothing about other classes. -/
def Trail.tells (trail : Trail) (ancestor : ClassName) : Option Bool :=
  match trail.stopped with
  | none => some (decide (∃ member ∈ trail.loaded, member.name = ancestor))
  | some unresolved =>
    if ancestor = unresolved.name ∨ ∃ member ∈ trail.loaded, member.name = ancestor then some true
    else none

namespace Trail

variable {trail : Trail} {definition : ClassDefinition} {ancestor : ClassName}

theorem tells_after_self (h : definition.name = ancestor) :
    (trail.after definition).tells ancestor = some true := by
  have hmet : ∃ member ∈ (trail.after definition).loaded, member.name = ancestor :=
    ⟨definition, List.mem_cons_self, h⟩
  unfold tells
  cases (trail.after definition).stopped with
  | none => simp only [hmet, decide_true]
  | some unresolved => simp only [hmet, or_true, if_true]

theorem tells_after_other (h : definition.name ≠ ancestor) :
    (trail.after definition).tells ancestor = trail.tells ancestor := by
  have hmet : (∃ member ∈ (trail.after definition).loaded, member.name = ancestor) ↔
      ∃ member ∈ trail.loaded, member.name = ancestor := by
    rw [after, List.exists_mem_cons_iff, or_iff_right h]
  have hstopped : (trail.after definition).stopped = trail.stopped := rfl
  simp only [tells, hstopped, hmet]

end Trail

namespace Classpath

variable {classpath : Classpath} {definition : ClassDefinition} {ancestor name : ClassName}
  {seen : List ClassName}

/-- A search for a superclass that has not been met so far ends as the walk tells that goes on from the same
class. The names that were seen can be loaded, so neither way ends at one of them with a failure. -/
theorem hasAncestor_eq_tells (hnamed : classpath.OwnNames)
    (hseen : classpath.LoadsAll seen)
    (hancestor : ancestor ∉ seen) (current : ClassDefinition) :
    classpath.hasAncestor ancestor seen current =
      (classpath.walk (fun definition _ => definition.superName.toList) seen
        current.superName.toList).tells ancestor := by
  fun_induction hasAncestor classpath ancestor seen current with
  | case1 seen current hsuper =>
    rw [hsuper, Option.toList_none, walk_nil]
    simp [Trail.tells]
  | case2 seen current hsuper =>
    -- the walk loads the class, or breaks off there
    rw [hsuper, Option.toList_some]
    cases hload : classpath.load ancestor with
    | error unresolved =>
      rw [walk_cons_of_error hancestor hload]
      simp [Trail.tells, name_of_load_error hload]
    | ok parent =>
      rw [walk_cons_of_ok hancestor hload, Trail.tells_after_self (hnamed _ _ hload)]
  | case3 seen current superName hsuper hother failure hload =>
    have hfresh : superName ∉ seen := by
      intro hmem
      obtain ⟨definition, hdefinition⟩ := hseen superName hmem
      cases hload.symm.trans hdefinition
    rw [hsuper, Option.toList_some, walk_cons_of_error hfresh hload]
    simp [Trail.tells, name_of_load_error hload, Ne.symm hother]
  | case4 seen current superName hsuper hother parent hload hfound =>
    exact absurd ((hnamed _ _ hload).symm.trans hfound) hother
  | case5 seen current superName hsuper hother parent hload _ hmet =>
    rw [hnamed _ _ hload] at hmet
    rw [hsuper, Option.toList_some, walk_cons_of_mem hmet, walk_nil]
    simp [Trail.tells]
  | case6 seen current superName hsuper hother parent hload hparent hmet ih =>
    rw [hnamed _ _ hload] at hmet ih ⊢
    rw [hsuper, Option.toList_some, walk_cons_of_ok hmet hload, Trail.tells_after_other hparent]
    apply ih
    · exact List.forall_mem_cons.2 ⟨⟨parent, hload⟩, hseen⟩
    · exact fun hmem => (List.mem_cons.1 hmem).elim (Ne.symm hother) hancestor

/-- Whether a class is a subclass of another is what its chain tells. -/
theorem isSubclassOf_eq_tells (hnamed : classpath.OwnNames)
    (hload : classpath.load definition.name = .ok definition) (ancestor : ClassName) :
    classpath.isSubclassOf definition ancestor =
      (classpath.classChain definition).tells ancestor := by
  unfold isSubclassOf classChain
  by_cases hself : definition.name = ancestor
  · rw [if_pos hself, Trail.tells_after_self hself]
  · rw [if_neg hself, Trail.tells_after_other hself]
    refine hasAncestor_eq_tells hnamed (fun name hname => ?_) (fun hmem => ?_) definition
    · exact ⟨definition, List.mem_singleton.1 hname ▸ hload⟩
    · exact hself (List.mem_singleton.1 hmem).symm

/-- A chain that does not break off tells of every class whether it is a superclass. One that breaks off tells
this only of the classes that it has loaded and of the class at which it breaks off: these are superclasses.
So a protected member is out of reach just for a class of another package whose whole chain can be loaded and
does not have the class that declares the member. -/
theorem isSubclassOf_along_chain (classpath : Classpath) (hnamed : classpath.OwnNames)
    (definition : ClassDefinition) (hload : classpath.load definition.name = .ok definition) :
    (∀ chain, (classpath.classChain definition).complete = .ok chain → ∀ ancestor,
      classpath.isSubclassOf definition ancestor =
        some (decide (∃ member ∈ chain, member.name = ancestor))) ∧
    (∀ unresolved, (classpath.classChain definition).complete = .error unresolved → ∀ ancestor,
      classpath.isSubclassOf definition ancestor =
        if ancestor = unresolved.name ∨
            ∃ member ∈ (classpath.classChain definition).loaded, member.name = ancestor then
          some true
        else none) ∧
    ∀ declaring : ClassDefinition,
      classpath.mayAccessMember definition declaring .protectedAccess = false ↔
        definition.name.samePackage declaring.name = false ∧
          ∃ chain, (classpath.classChain definition).complete = .ok chain ∧
            ∀ member ∈ chain, member.name ≠ declaring.name := by
  have hcomplete : ∀ chain, (classpath.classChain definition).complete = .ok chain → ∀ ancestor,
      classpath.isSubclassOf definition ancestor =
        some (decide (∃ member ∈ chain, member.name = ancestor)) := by
    intro chain hchain ancestor
    obtain ⟨hstopped, rfl⟩ := complete_eq_ok hchain
    rw [isSubclassOf_eq_tells hnamed hload, Trail.tells, hstopped]
  have hbroken : ∀ unresolved, (classpath.classChain definition).complete = .error unresolved →
      ∀ ancestor, classpath.isSubclassOf definition ancestor =
        if ancestor = unresolved.name ∨
            ∃ member ∈ (classpath.classChain definition).loaded, member.name = ancestor then
          some true
        else none := by
    intro unresolved hchain ancestor
    rw [isSubclassOf_eq_tells hnamed hload, Trail.tells, complete_eq_error hchain]
  refine ⟨hcomplete, hbroken, fun declaring => ?_⟩
  rw [mayAccessMember, Bool.or_eq_false_iff]
  refine and_congr_right fun _ => ?_
  cases hchain : (classpath.classChain definition).complete with
  | ok chain =>
    rw [hcomplete chain hchain]
    simp
  | error unresolved =>
    -- where the chain breaks off, the answer is never that the class is no subclass
    rw [hbroken unresolved hchain]
    split <;> simp

def windingInner : ClassDefinition :=
  .plain ⟨"p/Inner"⟩ ⟨"p/Turn"⟩

def windingEnd : ClassDefinition :=
  .plain ⟨"p/End"⟩ ⟨"q/Lost"⟩

/-- A class below two that are superclasses of each other, and one whose superclass is not there. -/
def winding : Classpath :=
  .ofClasses [windingInner, .plain ⟨"p/Turn"⟩ ⟨"p/Return"⟩, .plain ⟨"p/Return"⟩ ⟨"p/Turn"⟩, windingEnd]

/-- Both ways end where superclasses go in circles, and only there a protected member of another package is
out of reach. -/
theorem isSubclassOf_along_winding :
    winding.OwnNames ∧ winding.load windingInner.name = .ok windingInner ∧
      winding.load windingEnd.name = .ok windingEnd ∧
      winding.isSubclassOf windingInner ⟨"p/Return"⟩ = some true ∧
      winding.isSubclassOf windingInner ⟨"q/Far"⟩ = some false ∧
      winding.isSubclassOf windingEnd ⟨"q/Lost"⟩ = some true ∧
      winding.isSubclassOf windingEnd ⟨"q/Far"⟩ = none ∧
      winding.mayAccessMember windingInner (.plain ⟨"q/Far"⟩ .object) .protectedAccess = false ∧
      winding.mayAccessMember windingEnd (.plain ⟨"q/Far"⟩ .object) .protectedAccess ≠ false := by
  have hnamed : winding.OwnNames := fun _ _ => name_of_load_ofClasses
  have hinner : winding.load windingInner.name = .ok windingInner := by rfl
  have hend : winding.load windingEnd.name = .ok windingEnd := by rfl
  have hchain : (winding.classChain windingInner).complete =
      .ok [windingInner, .plain ⟨"p/Turn"⟩ ⟨"p/Return"⟩, .plain ⟨"p/Return"⟩ ⟨"p/Turn"⟩] := by
    decide +kernel
  have hbroken : (winding.classChain windingEnd).complete = .error ⟨⟨"q/Lost"⟩, none⟩ := by
    decide +kernel
  obtain ⟨htold, _, hprotected⟩ := isSubclassOf_along_chain winding hnamed windingInner hinner
  obtain ⟨_, hends, hunknown⟩ := isSubclassOf_along_chain winding hnamed windingEnd hend
  refine ⟨hnamed, hinner, hend, (htold _ hchain _).trans (by decide +kernel),
    (htold _ hchain _).trans (by decide +kernel), (hends _ hbroken _).trans (by decide +kernel),
    (hends _ hbroken _).trans (by decide +kernel),
    (hprotected _).2 ⟨by decide +kernel, _, hchain, by decide +kernel⟩, fun hdenied => ?_⟩
  obtain ⟨_, chain, hcomplete, _⟩ := (hunknown _).1 hdenied
  cases hbroken.symm.trans hcomplete

end Classpath

end LinkCheck
