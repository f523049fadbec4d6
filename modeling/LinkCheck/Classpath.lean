import LinkCheck.ClassSource.Lookup

/-!
# Classpaths

A classpath is what checking a plugin needs of a source: finitely many names, and what stands under
each of them.

## Main definitions

- `Classpath` — classes by name
- `Classpath.find`, `Classpath.load` — the class with a name
- `Unresolved` — a class that cannot be loaded
- `Classpath.unseen` — how many names are left to look at, the measure of walks that go by these names
- `Classpath.unmet` — how many classes are left to meet, the measure of walks that go by the names of classes
-/

namespace LinkCheck

/-- Classes by name. What is not among the names is not there. -/
structure Classpath where
  names : List ClassName
  lookup : ClassName → FindResult

/-- A class that is needed and cannot be loaded. -/
structure Unresolved where
  name : ClassName
  /-- Why the class cannot be read, if it is there. -/
  error : Option ReadError
deriving DecidableEq, Inhabited, Repr

namespace Classpath

/-- The class with a name. -/
def find (classpath : Classpath) (name : ClassName) : FindResult :=
  if name ∈ classpath.names then classpath.lookup name else .ok none

/-- The class with a name, which has to be there and readable. -/
def load (classpath : Classpath) (name : ClassName) : Except Unresolved ClassDefinition :=
  match classpath.find name with
  | .ok (some definition) => .ok definition
  | .ok none => .error ⟨name, none⟩
  | .error error => .error ⟨name, some error⟩

theorem load_eq_ok_iff {classpath : Classpath} {name : ClassName} {definition : ClassDefinition} :
    classpath.load name = .ok definition ↔ classpath.find name = .ok (some definition) := by
  unfold load
  split <;> simp_all

/-- How many names have not been seen. -/
def unseen (classpath : Classpath) (seen : List ClassName) : Nat :=
  (classpath.names.filter (· ∉ seen)).length

/-- What can be loaded is among the names. -/
theorem mem_names_of_load {classpath : Classpath} {name : ClassName} {definition : ClassDefinition}
    (loaded : classpath.load name = .ok definition) : name ∈ classpath.names := by
  by_cases member : name ∈ classpath.names
  · exact member
  · simp [load, find, member] at loaded

/-- Seeing one of some names for the first time leaves fewer of them unseen. -/
theorem length_filter_cons_lt {names : List ClassName} {name : ClassName} {seen : List ClassName}
    (member : name ∈ names) (fresh : name ∉ seen) :
    (names.filter (· ∉ name :: seen)).length < (names.filter (· ∉ seen)).length := by
  have split : names.filter (· ∉ name :: seen) =
      (names.filter (· ∉ seen)).filter (· ≠ name) := by
    rw [List.filter_filter]
    apply List.filter_congr
    intro other _
    by_cases same : other = name <;> simp [same]
  rw [split]
  apply List.length_filter_lt_length_iff_exists.2
  exact ⟨name, by simp [member, fresh], by simp⟩

/-- Seeing a name of the classpath for the first time leaves fewer names unseen. -/
theorem unseen_cons_lt {classpath : Classpath} {name : ClassName} {seen : List ClassName}
    (member : name ∈ classpath.names) (fresh : name ∉ seen) :
    classpath.unseen (name :: seen) < classpath.unseen seen :=
  length_filter_cons_lt member fresh

/-- Whether the class with a name can be loaded and has a name that was seen. -/
def isMet (classpath : Classpath) (seen : List ClassName) (name : ClassName) : Bool :=
  (classpath.load name).toOption.any (·.name ∈ seen)

/-- How many names stand for classes whose own names have not been seen. -/
def unmet (classpath : Classpath) (seen : List ClassName) : Nat :=
  (classpath.names.filter fun name => (classpath.load name).toOption.any (·.name ∉ seen)).length

theorem isMet_of_load {classpath : Classpath} {name : ClassName} {definition : ClassDefinition}
    (loaded : classpath.load name = .ok definition) (seen : List ClassName) :
    classpath.isMet seen name = decide (definition.name ∈ seen) := by
  simp [isMet, loaded, Except.toOption]

/-- Meeting a class of the classpath for the first time leaves fewer to be met. -/
theorem unmet_cons_lt {classpath : Classpath} {name : ClassName} {definition : ClassDefinition}
    {seen : List ClassName} (loaded : classpath.load name = .ok definition)
    (fresh : definition.name ∉ seen) :
    classpath.unmet (definition.name :: seen) < classpath.unmet seen := by
  have split : (classpath.names.filter fun name =>
        (classpath.load name).toOption.any (·.name ∉ definition.name :: seen)) =
      (classpath.names.filter fun name => (classpath.load name).toOption.any (·.name ∉ seen)).filter
        fun name => (classpath.load name).toOption.any (·.name ≠ definition.name) := by
    rw [List.filter_filter]
    apply List.filter_congr
    intro other _
    cases classpath.load other <;> simp [Except.toOption]
  simp only [unmet, split]
  apply List.length_filter_lt_length_iff_exists.2
  refine ⟨name, List.mem_filter.2 ⟨mem_names_of_load loaded, ?_⟩, ?_⟩
  · simp [loaded, Except.toOption, fresh]
  · simp [loaded, Except.toOption]

end Classpath

end LinkCheck
