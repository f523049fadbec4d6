import LinkCheck.Classpath

/-!
# Walks over supertypes

Superclasses and superinterfaces are followed over the classpath. Broken class files may be their own
supertypes, so a walk remembers the names it has seen, and goes to each name at most once. Chains of
superclasses and interfaces are remembered by the names under which they are loaded. A search for one
class or for a field knows a class by its own name, and so loads it before it can tell that it has been
there.

## Main definitions

- `Trail` — the classes met on a walk, and where it broke off
- `Classpath.walk` — a walk, which differs from others in how it goes on from a class
- `Classpath.classChain` — a class with its superclasses
- `Classpath.superinterfaces` — all interfaces of a class
- `Classpath.fieldTrail` — the classes in which a field is looked for
- `Classpath.isSubclassOf` — whether a class inherits from another
-/

namespace LinkCheck

/-- The supertypes that a class names: its interfaces in order, and then its superclass. -/
def ClassDefinition.supertypes (definition : ClassDefinition) : List ClassName :=
  definition.interfaces ++ definition.superName.toList

/-- The classes met on a walk, in order, and the class at which it broke off if one could not be
loaded. -/
structure Trail where
  loaded : List ClassDefinition
  stopped : Option Unresolved
deriving DecidableEq, Inhabited, Repr

namespace Trail

/-- The classes of a walk that did not break off. -/
def complete (trail : Trail) : Except Unresolved (List ClassDefinition) :=
  match trail.stopped with
  | none => .ok trail.loaded
  | some unresolved => .error unresolved

/-- A trail with one more class in front. -/
def after (definition : ClassDefinition) (trail : Trail) : Trail :=
  ⟨definition :: trail.loaded, trail.stopped⟩

end Trail

namespace Classpath

/-- Loads the pending classes one after the other, skipping names that were seen before. After each
class, `enqueue` tells what is pending from what is left. -/
def walk (classpath : Classpath) (enqueue : ClassDefinition → List ClassName → List ClassName)
    (seen pending : List ClassName) : Trail :=
  match _fresh : pending.dropWhile (· ∈ seen) with
  | [] => ⟨[], none⟩
  | name :: rest =>
    match _loaded : classpath.load name with
    | .error unresolved => ⟨[], some unresolved⟩
    | .ok definition =>
      (classpath.walk enqueue (name :: seen) (enqueue definition rest)).after definition
termination_by classpath.unseen seen
decreasing_by
  apply unseen_cons_lt (mem_names_of_load _loaded)
  have head := List.head?_dropWhile_not (· ∈ seen) pending
  rw [_fresh] at head
  simpa using head

/-- A class followed by its superclasses up to the root, or up to one that was met before. -/
def classChain (classpath : Classpath) (start : ClassDefinition) : Trail :=
  (classpath.walk (fun definition _ => definition.superName.toList) [start.name]
    start.superName.toList).after start

/-- The interfaces that the named ones are or extend, nearer ones first. -/
def interfaceTrail (classpath : Classpath) (names : List ClassName) : Trail :=
  classpath.walk (fun definition rest => rest ++ definition.interfaces) [] names

/-- All interfaces of a class, its own and those of its superclasses and superinterfaces. -/
def superinterfaces (classpath : Classpath) (start : ClassDefinition) :
    Except Unresolved (List ClassDefinition) := do
  let chain ← (classpath.classChain start).complete
  (classpath.interfaceTrail (chain.flatMap ClassDefinition.interfaces)).complete

/-- Loads the pending classes one after the other, and leaves out those whose own names were seen
before. The supertypes of a class come before all that is pending. -/
def fieldWalk (classpath : Classpath) (seen pending : List ClassName) : Trail :=
  match _fresh : pending.dropWhile (classpath.isMet seen) with
  | [] => ⟨[], none⟩
  | name :: rest =>
    match _loaded : classpath.load name with
    | .error unresolved => ⟨[], some unresolved⟩
    | .ok definition =>
      (classpath.fieldWalk (definition.name :: seen) (definition.supertypes ++ rest)).after definition
termination_by classpath.unmet seen
decreasing_by
  apply unmet_cons_lt _loaded
  have head := List.head?_dropWhile_not (classpath.isMet seen) pending
  rw [_fresh] at head
  simpa [isMet_of_load _loaded] using head

/-- The classes in which a field is looked for: a class, then the interfaces it names with all that
they extend, then its superclass in the same way. -/
def fieldTrail (classpath : Classpath) (start : ClassDefinition) : Trail :=
  (classpath.fieldWalk [start.name] start.supertypes).after start

/-- Whether a superclass of `current` is `ancestor`, where the classes with the names in `seen` have been
gone through. There is no answer if a superclass that is needed cannot be loaded. -/
def hasAncestor (classpath : Classpath) (ancestor : ClassName) (seen : List ClassName)
    (current : ClassDefinition) : Option Bool :=
  match current.superName with
  | none => some false
  | some superName =>
    if superName = ancestor then some true
    else
      match _loaded : classpath.load superName with
      | .error _ => none
      | .ok parent =>
        if parent.name = ancestor then some true
        else if _met : parent.name ∈ seen then some false
        else classpath.hasAncestor ancestor (parent.name :: seen) parent
termination_by classpath.unmet seen
decreasing_by exact unmet_cons_lt _loaded _met

/-- Whether a class is `ancestor` or inherits from it, if its superclasses tell. -/
def isSubclassOf (classpath : Classpath) (definition : ClassDefinition) (ancestor : ClassName) :
    Option Bool :=
  if definition.name = ancestor then some true
  else classpath.hasAncestor ancestor [definition.name] definition

end Classpath

end LinkCheck
