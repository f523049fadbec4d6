import LinkCheck.Problem
import LinkCheck.Problem.Location

/-!
# Problem sets

A problem set holds each problem once, with the places where it was seen. Problems and places stay in
the order of their first mention; two sets with the same problems at the same places are equivalent
whatever the order.

## Main definitions

- `ProblemSet` — problems with their locations
- `ProblemSet.add`, `ProblemSet.merge` — recording one finding, or all of another set
- `ProblemSet.equivalent` — equality up to order
-/

namespace LinkCheck

/-- A problem together with one place where it was seen. -/
abbrev Finding := Problem × Location

/-- Appends `item` if it is not there yet. -/
def appendNew {α : Type} [DecidableEq α] (items : List α) (item : α) : List α :=
  if item ∈ items then items else items ++ [item]

/-- Problems with the places where they were seen, both in order of first mention. -/
structure ProblemSet where
  entries : List (Problem × List Location) := []
deriving DecidableEq, Inhabited, Repr

namespace ProblemSet

/-- Adds places to the entry of a problem, or a new entry at the end. -/
def addAll (problem : Problem) (locations : List Location) :
    List (Problem × List Location) → List (Problem × List Location)
  | [] => [(problem, locations.foldl appendNew [])]
  | entry :: entries =>
    if entry.1 = problem then (entry.1, locations.foldl appendNew entry.2) :: entries
    else entry :: addAll problem locations entries

/-- The problems of a set. -/
def problems (set : ProblemSet) : List Problem :=
  set.entries.map Prod.fst

/-- Whether a problem is in a set. -/
def contains (set : ProblemSet) (problem : Problem) : Bool :=
  problem ∈ set.problems

/-- Records that a problem was seen at a place. -/
def add (set : ProblemSet) (problem : Problem) (location : Location) : ProblemSet :=
  ⟨addAll problem [location] set.entries⟩

/-- Records everything that `other` holds, in its order. -/
def merge (set other : ProblemSet) : ProblemSet :=
  ⟨other.entries.foldl (fun entries (problem, locations) => addAll problem locations entries)
    set.entries⟩

/-- The set of a list of findings. -/
def ofFindings (findings : List Finding) : ProblemSet :=
  findings.foldl (fun set (problem, location) => set.add problem location) {}

/-- How many problems a set holds. -/
def size (set : ProblemSet) : Nat :=
  set.entries.length

/-- Whether a set holds no problem. -/
def isEmpty (set : ProblemSet) : Bool :=
  set.entries.isEmpty

/-- The places where a problem was seen, if it was. -/
def locations? (set : ProblemSet) (problem : Problem) : Option (List Location) :=
  set.entries.lookup problem

/-- The problems of one kind. -/
def ofKind (set : ProblemSet) (kind : String) : List Problem :=
  set.problems.filter (·.kind = kind)

/-- Whether every entry of `set` stands in `other` with at least the same places. -/
def isContainedIn (set other : ProblemSet) : Bool :=
  set.entries.all fun (problem, locations) =>
    match other.locations? problem with
    | none => false
    | some others => locations.all (· ∈ others)

/-- Whether two sets hold the same problems at the same places, in whatever order. -/
def equivalent (first second : ProblemSet) : Bool :=
  first.isContainedIn second && second.isContainedIn first

end ProblemSet

end LinkCheck
