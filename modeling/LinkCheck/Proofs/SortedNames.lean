import LinkCheck.ClassName
import LinkCheck.Sorting

/-!
# Sorted names

Class names are told apart by their order, so a sorted list of them depends only on how often each
of them is there.

## Main results

- `perm_sortBy`, `pairwise_sortBy` — sorting gives an ordered list of the same values
- `sorted_eq_of_perm` — the order in which values were given is forgotten
- `sorted_filter` — values may be left out before or after they are sorted
-/

namespace LinkCheck

section Sorted

variable {α : Type}

theorem perm_insertSorted (le : α → α → Bool) (value : α) (values : List α) :
    (insertSorted le value values).Perm (value :: values) := by
  induction values with
  | nil => exact .refl _
  | cons first values ih =>
    rw [insertSorted]
    split
    · exact .refl _
    · exact (ih.cons first).trans (.swap value first values)

/-- Sorting keeps all values, as often as they are there. -/
theorem perm_sortBy (le : α → α → Bool) (values : List α) : (sortBy le values).Perm values := by
  unfold sortBy
  induction values with
  | nil => exact .refl _
  | cons first values ih => exact (perm_insertSorted _ first _).trans (ih.cons first)

section Ordered

variable {le : α → α → Bool}
  (htrans : ∀ first second third, le first second = true → le second third = true →
    le first third = true)
  (htotal : ∀ first second, le first second = false → le second first = true)
include htrans htotal

theorem pairwise_insertSorted (value : α) {values : List α}
    (h : values.Pairwise fun first second => le first second) :
    (insertSorted le value values).Pairwise fun first second => le first second := by
  induction values with
  | nil => exact List.pairwise_singleton _ _
  | cons first values ih =>
    obtain ⟨hfirst, hrest⟩ := List.pairwise_cons.1 h
    rw [insertSorted]
    split
    · next hle =>
      refine List.pairwise_cons.2 ⟨fun other hother => ?_, h⟩
      obtain rfl | hlater := List.mem_cons.1 hother
      · exact hle
      · exact htrans _ _ _ hle (hfirst other hlater)
    · next hnot =>
      refine List.pairwise_cons.2 ⟨fun other hother => ?_, ih hrest⟩
      obtain rfl | hlater := (mem_insertSorted _ _ _ _).1 hother
      · -- The value that is put in does not stand before the first one, so it comes later.
        exact htotal _ _ (Bool.eq_false_iff.2 hnot)
      · exact hfirst other hlater

theorem pairwise_sortBy (values : List α) :
    (sortBy le values).Pairwise fun first second => le first second := by
  unfold sortBy
  induction values with
  | nil => exact .nil
  | cons first values ih => exact pairwise_insertSorted htrans htotal first ih

end Ordered

variable [Ord α]

theorem perm_sorted (values : List α) : (sorted values).Perm values :=
  perm_sortBy _ values

variable [Std.TransOrd α]

theorem pairwise_sorted (values : List α) :
    (sorted values).Pairwise fun first second => (compare first second).isLE := by
  refine pairwise_sortBy (fun _ _ _ => Std.TransCmp.isLE_trans) (fun first second hnot => ?_) values
  have hswap : compare second first = (compare first second).swap := Std.OrientedOrd.eq_swap
  rw [hswap]
  cases hcase : compare first second <;> simp_all

variable [Std.LawfulEqOrd α]

/-- Sorting forgets the order in which values were given. -/
theorem sorted_eq_of_perm {first second : List α} (h : first.Perm second) :
    sorted first = sorted second := by
  refine List.Perm.eq_of_pairwise (fun value other _ _ hle hge => ?_) (pairwise_sorted first)
    (pairwise_sorted second) (((perm_sorted first).trans h).trans (perm_sorted second).symm)
  exact Std.LawfulEqCmp.eq_of_compare (Std.OrientedCmp.isLE_antisymm hle hge)

/-- Values may be left out before or after the others are sorted. -/
theorem sorted_filter (keep : α → Bool) (values : List α) :
    sorted (values.filter keep) = (sorted values).filter keep := by
  refine List.Perm.eq_of_pairwise (fun value other _ _ hle hge => ?_) (pairwise_sorted _)
    ((pairwise_sorted values).filter keep)
    ((perm_sorted _).trans ((perm_sorted values).filter keep).symm)
  exact Std.LawfulEqCmp.eq_of_compare (Std.OrientedCmp.isLE_antisymm hle hge)

end Sorted

theorem ClassName.compare_eq (first second : ClassName) :
    compare first second = compare first.text second.text :=
  rfl

instance : Std.TransOrd ClassName where
  eq_swap {first second} := by
    rw [ClassName.compare_eq, ClassName.compare_eq]
    exact Std.OrientedOrd.eq_swap
  isLE_trans {first second third} h h' := by
    rw [ClassName.compare_eq] at h h' ⊢
    exact Std.TransCmp.isLE_trans h h'

instance : Std.LawfulEqOrd ClassName where
  compare_self {name} := by
    rw [ClassName.compare_eq]
    exact Std.ReflOrd.compare_self
  eq_of_compare {first second} h := by
    rw [ClassName.compare_eq] at h
    exact congrArg ClassName.mk (Std.LawfulEqOrd.eq_of_compare h)

end LinkCheck
