import LinkCheck.Hierarchy.Access
import LinkCheck.Hierarchy.Resolution
import LinkCheck.Inquiry

/-!
# Walks over supertypes as inquiries

Here classes are asked for in the order in which a walk over supertypes, a search for a member or a
question of access needs them, and no class is asked for that is not needed.

## Main definitions

- `Inquiry.walk`, `Inquiry.classChain`, `Inquiry.superinterfaces` — superclasses and interfaces
- `Inquiry.isSubclassOf`, `Inquiry.mayAccessMember` — whether a class inherits from another, and whether
  it may use its members
- `Inquiry.resolveClassMethod`, `Inquiry.resolveInterfaceMethod`, `Inquiry.resolveField` — searches

## Design notes

Searches that know a class by its own name also keep the names that they have asked for. A name that is
asked for again gives a class that was met before, so nothing is decided by these names; they are what
bounds the search.
-/

namespace LinkCheck

namespace Inquiry

variable {names : List ClassName}

/-- Loads the pending classes one after the other, skipping names that were seen before. -/
def walk (enqueue : ClassDefinition → List ClassName → List ClassName)
    (seen pending : List ClassName) : Inquiry names Trail :=
  match _fresh : pending.dropWhile (· ∈ seen) with
  | [] => return ⟨[], none⟩
  | name :: rest => do
    match ← load name with
    | .error unresolved => return ⟨[], some unresolved⟩
    | .ok found =>
      let trail ← walk enqueue (name :: seen) (enqueue found.definition rest)
      return trail.after found.definition
termination_by (names.filter (· ∉ seen)).length
decreasing_by
  apply Classpath.length_filter_cons_lt found.listed
  have head := List.head?_dropWhile_not (· ∈ seen) pending
  rw [_fresh] at head
  simpa using head

/-- A class followed by its superclasses. -/
def classChain (start : ClassDefinition) : Inquiry names Trail := do
  let trail ← walk (fun definition _ => definition.superName.toList) [start.name]
    start.superName.toList
  return trail.after start

/-- The interfaces that the named ones are or extend, nearer ones first. -/
def interfaceTrail (interfaces : List ClassName) : Inquiry names Trail :=
  walk (fun definition rest => rest ++ definition.interfaces) [] interfaces

/-- All interfaces of a class. -/
def superinterfaces (start : ClassDefinition) :
    Inquiry names (Except Unresolved (List ClassDefinition)) := do
  match (← classChain start).complete with
  | .error unresolved => return .error unresolved
  | .ok chain => return (← interfaceTrail (chain.flatMap ClassDefinition.interfaces)).complete

/-- Whether a superclass of `current` is `ancestor`, where the classes with the names in `seen` have been
gone through. -/
def hasAncestor (ancestor : ClassName) (asked seen : List ClassName) (current : ClassDefinition) :
    Inquiry names (Option Bool) :=
  match current.superName with
  | none => return some false
  | some superName =>
    if superName = ancestor then return some true
    else do
      match ← load superName with
      | .error _ => return none
      | .ok found =>
        let parent := found.definition
        if parent.name = ancestor then return some true
        else if parent.name ∈ seen then return some false
        else if _again : superName ∈ asked then return some false
        else hasAncestor ancestor (superName :: asked) (parent.name :: seen) parent
termination_by (names.filter (· ∉ asked)).length
decreasing_by exact Classpath.length_filter_cons_lt found.listed _again

/-- Whether a class is `ancestor` or inherits from it, if its superclasses tell. -/
def isSubclassOf (definition : ClassDefinition) (ancestor : ClassName) :
    Inquiry names (Option Bool) :=
  if definition.name = ancestor then return some true
  else hasAncestor ancestor [] [definition.name] definition

/-- Whether a class may use a member of this visibility that `declaring` declares. Superclasses are asked
for only if the packages do not decide. -/
def mayAccessMember (accessor declaring : ClassDefinition) : Visibility → Inquiry names Bool
  | .publicAccess => return true
  | .protectedAccess =>
    if accessor.name.samePackage declaring.name then return true
    else do return (← isSubclassOf accessor declaring.name).getD true
  | .packageAccess => return accessor.name.samePackage declaring.name
  | .privateAccess =>
    return accessor.name = declaring.name || accessor.nestHost = declaring.nestHost

/-- Looks for a method in the superinterfaces of a class. -/
def resolveSuperinterfaceMethod (owner : ClassDefinition) (name descriptor : String) :
    Inquiry names (Resolution ResolvedMethod) := do
  match ← superinterfaces owner with
  | .error unresolved => return .incomplete unresolved
  | .ok interfaces => return .ofOption (Classpath.interfaceMethod? interfaces name descriptor)

/-- Looks for a method that a reference expects in a class. -/
def resolveClassMethod (owner : ClassDefinition) (name descriptor : String) :
    Inquiry names (Resolution ResolvedMethod) :=
  if Classpath.isInitializerName name then return .ofOption (owner.declaredMethod? name descriptor)
  else
    match owner.polymorphicMethod? name with
    | some resolved => return .found resolved
    | none => do
      match (← classChain owner).complete with
      | .error unresolved => return .incomplete unresolved
      | .ok chain =>
        let inChain := chain.findSome? fun definition =>
          definition.declaredMethod? name descriptor <|> definition.polymorphicMethod? name
        match inChain with
        | some resolved => return .found resolved
        | none => resolveSuperinterfaceMethod owner name descriptor

/-- Looks for a method that a reference expects in an interface. -/
def resolveInterfaceMethod (owner : ClassDefinition) (name descriptor : String) :
    Inquiry names (Resolution ResolvedMethod) :=
  match owner.declaredMethod? name descriptor with
  | some resolved => return .found resolved
  | none => do
    match ← load .object with
    | .error unresolved => return .incomplete unresolved
    | .ok root =>
      match Classpath.objectMethod? root.definition name descriptor with
      | some resolved => return .found resolved
      | none => resolveSuperinterfaceMethod owner name descriptor

/-- Looks for a field in the pending classes and in their supertypes, up to the first that declares it.
Classes whose own names were seen are left out. -/
def seekField (name descriptor : String) (asked seen pending : List ClassName) :
    Inquiry names (Resolution ResolvedField) :=
  match pending with
  | [] => return .notFound
  | supertype :: rest => do
    match ← load supertype with
    | .error unresolved => return .incomplete unresolved
    | .ok found =>
      let definition := found.definition
      if definition.name ∈ seen then seekField name descriptor asked seen rest
      else if _again : supertype ∈ asked then seekField name descriptor asked seen rest
      else
        match definition.findField? name descriptor with
        | some field => return .found ⟨definition, field⟩
        | none =>
          seekField name descriptor (supertype :: asked) (definition.name :: seen)
            (definition.supertypes ++ rest)
termination_by ((names.filter (· ∉ asked)).length, pending.length)
decreasing_by
  · exact Prod.Lex.right _ (Nat.lt_succ_self _)
  · exact Prod.Lex.right _ (Nat.lt_succ_self _)
  · exact Prod.Lex.left _ _ (Classpath.length_filter_cons_lt found.listed _again)

/-- Looks for a field. -/
def resolveField (owner : ClassDefinition) (name descriptor : String) :
    Inquiry names (Resolution ResolvedField) :=
  match owner.findField? name descriptor with
  | some field => return .found ⟨owner, field⟩
  | none => seekField name descriptor [] [owner.name] owner.supertypes

end Inquiry

end LinkCheck
