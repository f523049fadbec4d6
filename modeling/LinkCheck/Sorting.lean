/-!
# Sorting

## Main definitions

- `insertSorted` — puts a value in front of the first one that is not before it
- `sortBy` — sorts a list, and keeps the order of values that are equal in rank
- `sorted` — sorts a list by the order of its type
-/

namespace LinkCheck

variable {α : Type}

/-- Puts a value in front of the first one that it may stand before. -/
def insertSorted (le : α → α → Bool) (value : α) : List α → List α
  | [] => [value]
  | other :: others =>
    if le value other then value :: other :: others else other :: insertSorted le value others

/-- Sorts a list by insertion. Values that are equal in rank stay in their order. -/
def sortBy (le : α → α → Bool) (values : List α) : List α :=
  values.foldr (insertSorted le) []

/-- Sorts a list by the order of its type. -/
def sorted [Ord α] (values : List α) : List α :=
  sortBy (fun first second => (compare first second).isLE) values

theorem mem_insertSorted (le : α → α → Bool) (value other : α) (values : List α) :
    other ∈ insertSorted le value values ↔ other = value ∨ other ∈ values := by
  induction values with
  | nil => simp [insertSorted]
  | cons first values ih =>
    rw [insertSorted]
    split
    · exact List.mem_cons
    · rw [List.mem_cons, ih, List.mem_cons, or_left_comm]

/-- Sorting keeps all values. -/
theorem mem_sorted [Ord α] (values : List α) (value : α) : value ∈ sorted values ↔ value ∈ values := by
  unfold sorted sortBy
  induction values with
  | nil => rfl
  | cons first values ih => rw [List.foldr_cons, mem_insertSorted, ih, List.mem_cons]

end LinkCheck
