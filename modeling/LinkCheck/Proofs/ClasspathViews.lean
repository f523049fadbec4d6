import LinkCheck.Proofs.LayeredSources
import LinkCheck.Verification
import Mathlib.Data.List.Basic

/-!
# What a check sees of a classpath

A check sees of the classpath that it is made against only what is found under names, so classpaths that
find the same give the same problems. What a source answers when nothing is remembered is such a classpath,
and so are sources that are searched one after the other.

## Main definitions

- `Classpath.Alike` — classpaths that find the same
- `ClassSource.view` — what a source holds, as a classpath
- `Classpath.flat` — the classpath of the first of some sources that contains a name

## Main results

- `verify_alike` — classpaths that find the same give the same problems
- `Classpath.find_flat` — the first source that contains a name is the first that lists it
-/

namespace LinkCheck

namespace Classpath

/-- Classpaths that find the same. Their names may differ where nothing is found. -/
def Alike (first second : Classpath) : Prop :=
  ∀ name, first.find name = second.find name

/-- A walk without the facts that make it end. -/
theorem walk_unfold (classpath : Classpath)
    (enqueue : ClassDefinition → List ClassName → List ClassName) (seen pending : List ClassName) :
    classpath.walk enqueue seen pending =
      match pending.dropWhile (· ∈ seen) with
      | [] => ⟨[], none⟩
      | name :: rest =>
        match classpath.load name with
        | .error unresolved => ⟨[], some unresolved⟩
        | .ok definition =>
          (classpath.walk enqueue (name :: seen) (enqueue definition rest)).after definition := by
  rw [walk]
  split
  · next hfresh => rw [hfresh]
  · next name rest hfresh =>
    rw [hfresh]
    dsimp only
    split
    · next unresolved hload => rw [hload]
    · next definition hload => rw [hload]

section Walks

variable {classpath : Classpath} {enqueue : ClassDefinition → List ClassName → List ClassName}
  {seen rest : List ClassName} {name : ClassName}

theorem walk_nil (classpath : Classpath)
    (enqueue : ClassDefinition → List ClassName → List ClassName) (seen : List ClassName) :
    classpath.walk enqueue seen [] = ⟨[], none⟩ := by
  rw [walk_unfold, List.dropWhile_nil]

/-- A name that was seen before is skipped. -/
theorem walk_cons_of_mem (h : name ∈ seen) :
    classpath.walk enqueue seen (name :: rest) = classpath.walk enqueue seen rest := by
  rw [walk_unfold, List.dropWhile_cons_of_pos (by simpa using h), ← walk_unfold]

theorem walk_cons_of_error {unresolved : Unresolved} (hfresh : name ∉ seen)
    (h : classpath.load name = .error unresolved) :
    classpath.walk enqueue seen (name :: rest) = ⟨[], some unresolved⟩ := by
  rw [walk_unfold, List.dropWhile_cons_of_neg (by simpa using hfresh)]
  simp only [h]

theorem walk_cons_of_ok {definition : ClassDefinition} (hfresh : name ∉ seen)
    (h : classpath.load name = .ok definition) :
    classpath.walk enqueue seen (name :: rest) =
      (classpath.walk enqueue (name :: seen) (enqueue definition rest)).after definition := by
  rw [walk_unfold, List.dropWhile_cons_of_neg (by simpa using hfresh)]
  simp only [h]

end Walks

/-- A walk by the names of classes without the facts that make it end. -/
theorem fieldWalk_unfold (classpath : Classpath) (seen pending : List ClassName) :
    classpath.fieldWalk seen pending =
      match pending.dropWhile (classpath.isMet seen) with
      | [] => ⟨[], none⟩
      | name :: rest =>
        match classpath.load name with
        | .error unresolved => ⟨[], some unresolved⟩
        | .ok definition =>
          (classpath.fieldWalk (definition.name :: seen) (definition.supertypes ++ rest)).after
            definition := by
  rw [fieldWalk]
  split
  · next hfresh => rw [hfresh]
  · next name rest hfresh =>
    rw [hfresh]
    dsimp only
    split
    · next unresolved hload => rw [hload]
    · next definition hload => rw [hload]

section FieldWalks

variable {classpath : Classpath} {seen rest : List ClassName} {name : ClassName}
  {definition : ClassDefinition}

theorem fieldWalk_nil (classpath : Classpath) (seen : List ClassName) :
    classpath.fieldWalk seen [] = ⟨[], none⟩ := by
  rw [fieldWalk_unfold, List.dropWhile_nil]

theorem fieldWalk_cons_of_error {unresolved : Unresolved}
    (h : classpath.load name = .error unresolved) :
    classpath.fieldWalk seen (name :: rest) = ⟨[], some unresolved⟩ := by
  have hnot : classpath.isMet seen name = false := by simp [isMet, h, Except.toOption]
  rw [fieldWalk_unfold, List.dropWhile_cons_of_neg (by simp [hnot])]
  simp only [h]

/-- A class that was met before is left out. -/
theorem fieldWalk_cons_of_mem (h : classpath.load name = .ok definition)
    (hmet : definition.name ∈ seen) :
    classpath.fieldWalk seen (name :: rest) = classpath.fieldWalk seen rest := by
  rw [fieldWalk_unfold, List.dropWhile_cons_of_pos (by simp [isMet_of_load h, hmet]),
    ← fieldWalk_unfold]

theorem fieldWalk_cons_of_ok (h : classpath.load name = .ok definition)
    (hmet : definition.name ∉ seen) :
    classpath.fieldWalk seen (name :: rest) =
      (classpath.fieldWalk (definition.name :: seen) (definition.supertypes ++ rest)).after
        definition := by
  rw [fieldWalk_unfold, List.dropWhile_cons_of_neg (by simp [isMet_of_load h, hmet])]
  simp only [h]

end FieldWalks

/-- What the classes of a walk say about a field. -/
def fieldAnswer (name descriptor : String) (trail : Trail) : Resolution ResolvedField :=
  let declared := trail.loaded.findSome? fun definition =>
    (definition.findField? name descriptor).map fun field => ResolvedField.mk definition field
  declared.elim (trail.stopped.elim .notFound .incomplete) .found

section FieldAnswers

variable {name descriptor : String} {definition : ClassDefinition}

theorem resolveField_eq_fieldAnswer (classpath : Classpath) (owner : ClassDefinition)
    (name descriptor : String) :
    classpath.resolveField owner name descriptor =
      fieldAnswer name descriptor (classpath.fieldTrail owner) := by
  unfold resolveField fieldAnswer
  dsimp only
  split <;> simp [*]

theorem fieldAnswer_after_of_declared {field : FieldDefinition}
    (h : definition.findField? name descriptor = some field) (trail : Trail) :
    fieldAnswer name descriptor (trail.after definition) = .found ⟨definition, field⟩ := by
  simp [fieldAnswer, Trail.after, h]

theorem fieldAnswer_after_of_not_declared (h : definition.findField? name descriptor = none)
    (trail : Trail) :
    fieldAnswer name descriptor (trail.after definition) = fieldAnswer name descriptor trail := by
  simp [fieldAnswer, Trail.after, h]

end FieldAnswers

/-- A search for an ancestor without the facts that make it end. -/
theorem hasAncestor_unfold (classpath : Classpath) (ancestor : ClassName) (seen : List ClassName)
    (current : ClassDefinition) :
    classpath.hasAncestor ancestor seen current =
      match current.superName with
      | none => some false
      | some superName =>
        if superName = ancestor then some true
        else
          match classpath.load superName with
          | .error _ => none
          | .ok parent =>
            if parent.name = ancestor then some true
            else if parent.name ∈ seen then some false
            else classpath.hasAncestor ancestor (parent.name :: seen) parent := by
  rw [hasAncestor]
  cases current.superName with
  | none => rfl
  | some superName =>
    by_cases hother : superName = ancestor
    · simp only [if_pos hother]
    · simp only [if_neg hother]
      split <;> simp_all

namespace Alike

variable {first second : Classpath}

theorem load_eq (h : first.Alike second) : first.load = second.load := by
  funext name
  rw [load, load, h name]

/-- A walk over one classpath is the walk over the other. The induction is that of the walk itself. -/
theorem walk_eq (h : first.Alike second) : first.walk = second.walk := by
  funext enqueue seen pending
  fun_induction walk first enqueue seen pending with
  | case1 seen pending hfresh => rw [walk_unfold, hfresh]
  | case2 seen pending name rest hfresh unresolved hload =>
    rw [h.load_eq] at hload
    rw [walk_unfold, hfresh]
    simp only [hload]
  | case3 seen pending name rest hfresh definition hload ih =>
    rw [h.load_eq] at hload
    rw [ih, walk_unfold second enqueue seen, hfresh]
    simp only [hload]

theorem isMet_eq (h : first.Alike second) : first.isMet = second.isMet := by
  funext seen name
  rw [isMet, isMet, h.load_eq]

theorem fieldWalk_eq (h : first.Alike second) : first.fieldWalk = second.fieldWalk := by
  funext seen pending
  fun_induction fieldWalk first seen pending with
  | case1 seen pending hfresh => rw [fieldWalk_unfold, ← h.isMet_eq, hfresh]
  | case2 seen pending name rest hfresh unresolved hload =>
    rw [h.load_eq] at hload
    rw [fieldWalk_unfold, ← h.isMet_eq, hfresh]
    simp only [hload]
  | case3 seen pending name rest hfresh definition hload ih =>
    rw [h.load_eq] at hload
    rw [ih, fieldWalk_unfold second seen, ← h.isMet_eq, hfresh]
    simp only [hload]

theorem hasAncestor_eq (h : first.Alike second) : first.hasAncestor = second.hasAncestor := by
  funext ancestor seen current
  fun_induction hasAncestor first ancestor seen current with
  | case1 seen current hsuper => rw [hasAncestor_unfold, hsuper]
  | case2 seen current hsuper => rw [hasAncestor_unfold, hsuper]; simp only [if_true]
  | case3 seen current superName hsuper hother failure hload =>
    rw [h.load_eq] at hload
    rw [hasAncestor_unfold, hsuper]
    simp only [if_neg hother, hload]
  | case4 seen current superName hsuper hother parent hload hfound =>
    rw [h.load_eq] at hload
    rw [hasAncestor_unfold, hsuper]
    simp only [if_neg hother, hload, if_pos hfound]
  | case5 seen current superName hsuper hother parent hload hfound hmet =>
    rw [h.load_eq] at hload
    rw [hasAncestor_unfold, hsuper]
    simp only [if_neg hother, hload, if_neg hfound, if_pos hmet]
  | case6 seen current superName hsuper hother parent hload hfound hmet ih =>
    rw [h.load_eq] at hload
    rw [ih, hasAncestor_unfold second ancestor seen, hsuper]
    simp only [if_neg hother, hload, if_neg hfound, if_neg hmet]

theorem classChain_eq (h : first.Alike second) : first.classChain = second.classChain := by
  funext start
  rw [classChain, classChain, h.walk_eq]

theorem superinterfaces_eq (h : first.Alike second) :
    first.superinterfaces = second.superinterfaces := by
  funext start
  simp only [superinterfaces, interfaceTrail, h.classChain_eq, h.walk_eq]

theorem mayAccessMember_eq (h : first.Alike second) :
    first.mayAccessMember = second.mayAccessMember := by
  funext accessor declaring visibility
  cases visibility <;> simp only [mayAccessMember, isSubclassOf, h.hasAncestor_eq]

theorem resolveClassMethod_eq (h : first.Alike second) :
    first.resolveClassMethod = second.resolveClassMethod := by
  funext owner name descriptor
  simp only [resolveClassMethod, resolveSuperinterfaceMethod, h.classChain_eq, h.superinterfaces_eq]

theorem resolveInterfaceMethod_eq (h : first.Alike second) :
    first.resolveInterfaceMethod = second.resolveInterfaceMethod := by
  funext owner name descriptor
  simp only [resolveInterfaceMethod, resolveSuperinterfaceMethod, h.load_eq, h.superinterfaces_eq]

theorem resolveField_eq (h : first.Alike second) : first.resolveField = second.resolveField := by
  funext owner name descriptor
  simp only [resolveField, fieldTrail, h.fieldWalk_eq]

end Alike

end Classpath

-- ════════════════════════════════════════════════════════════════════════
-- Checks
-- ════════════════════════════════════════════════════════════════════════

namespace LinkContext

variable {first second : Classpath} {options : Options}

theorem withClass_alike (h : first.Alike second) :
    withClass ⟨first, options⟩ = withClass ⟨second, options⟩ := by
  funext name missing next
  simp only [withClass, h.load_eq]

theorem typeProblems_alike (h : first.Alike second) :
    typeProblems ⟨first, options⟩ = typeProblems ⟨second, options⟩ := by
  funext name
  simp only [typeProblems, withClass_alike h]

theorem withOwner_alike (h : first.Alike second) :
    withOwner ⟨first, options⟩ = withOwner ⟨second, options⟩ := by
  funext accessor owner next
  simp only [withOwner, withClass_alike h, typeProblems_alike h]

theorem referenceProblems_alike (h : first.Alike second) :
    referenceProblems ⟨first, options⟩ = referenceProblems ⟨second, options⟩ := by
  funext accessor reference
  cases reference with
  | type name usage =>
    simp only [referenceProblems, typeReferenceProblems, withClass_alike h]
  | method member invocation interfaceConstant =>
    simp only [referenceProblems, methodReferenceProblems, withOwner_alike h, resolveMethod,
      resolvedMethodProblems, h.resolveClassMethod_eq, h.resolveInterfaceMethod_eq,
      h.mayAccessMember_eq]
  | field member instruction =>
    simp only [referenceProblems, fieldReferenceProblems, withOwner_alike h, resolvedFieldProblems,
      h.resolveField_eq, h.mayAccessMember_eq]

theorem signatureProblems_alike (h : first.Alike second) :
    signatureProblems ⟨first, options⟩ = signatureProblems ⟨second, options⟩ := by
  funext classes
  simp only [signatureProblems, typeProblems_alike h]

theorem fieldProblems_alike (h : first.Alike second) :
    fieldProblems ⟨first, options⟩ = fieldProblems ⟨second, options⟩ := by
  funext member field
  simp only [fieldProblems, withClass_alike h, signatureProblems_alike h]

theorem methodProblems_alike (h : first.Alike second) :
    methodProblems ⟨first, options⟩ = methodProblems ⟨second, options⟩ := by
  funext definition method
  simp only [methodProblems, finalOverrideProblems, typeProblems_alike h, signatureProblems_alike h,
    referenceProblems_alike h, h.classChain_eq]

theorem superclassProblems_alike (h : first.Alike second) :
    superclassProblems ⟨first, options⟩ = superclassProblems ⟨second, options⟩ := by
  funext definition
  simp only [superclassProblems, withClass_alike h]

theorem interfaceProblems_alike (h : first.Alike second) :
    interfaceProblems ⟨first, options⟩ = interfaceProblems ⟨second, options⟩ := by
  funext definition name
  simp only [interfaceProblems, withClass_alike h]

theorem abstractMethodProblems_alike (h : first.Alike second) :
    abstractMethodProblems ⟨first, options⟩ = abstractMethodProblems ⟨second, options⟩ := by
  funext definition
  simp only [abstractMethodProblems, h.classChain_eq, h.superinterfaces_eq]

theorem definitionFindings_alike (h : first.Alike second) :
    definitionFindings ⟨first, options⟩ = definitionFindings ⟨second, options⟩ := by
  funext definition name
  simp only [definitionFindings, superclassProblems_alike h, interfaceProblems_alike h,
    signatureProblems_alike h, fieldProblems_alike h, methodProblems_alike h,
    abstractMethodProblems_alike h]

end LinkContext

/-- A check sees of the classpath only what is found, and of the plugin also its names. -/
theorem verify_alike {plugin other first second : Classpath} (options : Options)
    (hnames : plugin.names = other.names) (hplugin : plugin.Alike other)
    (h : first.Alike second) :
    verify plugin first options = verify other second options := by
  have hfindings : LinkContext.classFindings ⟨first, options⟩ plugin =
      LinkContext.classFindings ⟨second, options⟩ other := by
    funext name
    simp only [LinkContext.classFindings, hplugin name, LinkContext.definitionFindings_alike h]
  rw [verify, verify, hnames, hfindings]

-- ════════════════════════════════════════════════════════════════════════
-- Views
-- ════════════════════════════════════════════════════════════════════════

namespace ClassSource

/-- What a source holds, as a classpath. -/
def view (files : FileTree) (source : ClassSource) : Classpath where
  names := source.listed files
  lookup := source.answer files

/-- The answer of a source for a name that it contains. -/
def contained? (files : FileTree) (name : ClassName) (source : ClassSource) : Option FindResult :=
  if ((source.contains name).run (.blank files)).1 then some (source.answer files name) else none

variable {inventory : Inventory} {files : FileTree} {name : ClassName} {source : ClassSource}

theorem find_view : (source.view files).find name = (source.told? files name).getD (.ok none) := by
  unfold view Classpath.find told?
  split <;> rfl

/-- A caching source holds what the source behind it holds. -/
theorem view_caching (files : FileTree) (id : Nat) (inner : ClassSource) :
    (caching id inner).view files = inner.view files := by
  have hanswer : (caching id inner).answer files = inner.answer files :=
    funext (answer_caching files id inner)
  rw [view, hanswer]
  rfl

theorem Definite.caching_source (h : source.Definite files) (id : Nat) :
    (caching id source).Definite files where
  empty := h.empty
  found := fun name hname => answer_caching files id source name ▸ h.found name hname

/-- A source that is coherent contains what it lists. -/
theorem Coherent.contained?_eq (h : source.Coherent files) (name : ClassName) :
    source.contained? files name = source.told? files name := by
  unfold contained? told?
  simp only [h.contains_iff]

end ClassSource

/-- The classpath that answers for a name from the first of some sources that contains it. -/
def Classpath.flat (files : FileTree) (sources : List ClassSource) : Classpath where
  names := sources.flatMap (ClassSource.listed files)
  lookup := fun name => (sources.findSome? (ClassSource.contained? files name)).getD (.ok none)

/-- Where sources are coherent, the first that contains a name is the first that lists it. -/
theorem Classpath.find_flat {files : FileTree} {sources : List ClassSource}
    (h : ∀ source ∈ sources, source.Coherent files) (name : ClassName) :
    (flat files sources).find name =
      (sources.findSome? (ClassSource.told? files name)).getD (.ok none) := by
  have hfirst : sources.findSome? (ClassSource.contained? files name) =
      sources.findSome? (ClassSource.told? files name) := by
    induction sources with
    | nil => rfl
    | cons source sources ih =>
      rw [List.findSome?_cons, List.findSome?_cons, (h source List.mem_cons_self).contained?_eq,
        ih fun other hother => h other (.tail _ hother)]
  change (if name ∈ sources.flatMap (ClassSource.listed files) then
    (sources.findSome? (ClassSource.contained? files name)).getD (.ok none) else _) = _
  rw [hfirst]
  split
  · rfl
  · next hnone =>
    have htold : sources.findSome? (ClassSource.told? files name) = none := by
      rw [List.findSome?_eq_none_iff]
      exact fun source hsource => if_neg fun hlisted =>
        hnone (List.mem_flatMap.2 ⟨source, hsource, hlisted⟩)
    rw [htold]
    rfl

end LinkCheck
