import LinkCheck.Problem.ProblemSet

/-!
# What a problem set holds

A problem set is looked at through two questions: which problems it holds, and whether a problem was
seen at a place. Both are answered by the findings that were recorded, whatever their order.

## Main definitions

- `ProblemSet.Holds` — a problem was seen at a place

## Main results

- `ProblemSet.mem_problems_ofFindings`, `ProblemSet.holds_ofFindings` — a set holds what was found
-/

namespace LinkCheck

/-- A list to which new items are appended holds them and those that were there. -/
theorem mem_foldl_appendNew {α : Type} [DecidableEq α] (added items : List α) (item : α) :
    item ∈ added.foldl appendNew items ↔ item ∈ items ∨ item ∈ added := by
  induction added generalizing items with
  | nil => simp
  | cons first added ih =>
    rw [List.foldl_cons, ih, appendNew]
    split
    · next hmem =>
      constructor
      · exact fun h => h.imp_right (.tail _)
      · rintro (hitem | hitem)
        · exact .inl hitem
        · rcases List.mem_cons.1 hitem with rfl | hitem
          · exact .inl hmem
          · exact .inr hitem
    · rw [List.mem_append, List.mem_singleton, List.mem_cons, or_assoc]

namespace ProblemSet

/-- A problem was seen at a place. -/
def Holds (set : ProblemSet) (problem : Problem) (location : Location) : Prop :=
  location ∈ (set.locations? problem).getD []

theorem mem_problems_addAll (problem other : Problem) (locations : List Location)
    (entries : List (Problem × List Location)) :
    other ∈ (addAll problem locations entries).map Prod.fst ↔
      other = problem ∨ other ∈ entries.map Prod.fst := by
  induction entries with
  | nil => simp [addAll]
  | cons entry entries ih =>
    rw [addAll]
    split
    · next hsame =>
      subst hsame
      simp
    · rw [List.map_cons, List.mem_cons, ih, List.map_cons, List.mem_cons, or_left_comm]

theorem lookup_addAll (problem other : Problem) (locations : List Location)
    (entries : List (Problem × List Location)) :
    (addAll problem locations entries).lookup other =
      if other = problem then some (locations.foldl appendNew ((entries.lookup problem).getD []))
      else entries.lookup other := by
  induction entries with
  | nil =>
    by_cases hother : other = problem
    · simp [addAll, hother]
    · simp [addAll, hother]
  | cons entry entries ih =>
    obtain ⟨first, places⟩ := entry
    rw [addAll]
    by_cases hfirst : first = problem
    · subst hfirst
      by_cases hother : other = first
      · simp [hother]
      · simp [hother, List.lookup_cons, beq_eq_false_iff_ne.2 hother]
    · by_cases hother : other = first
      · subst hother
        simp [hfirst]
      · simp only [hfirst, if_false, List.lookup_cons, beq_eq_false_iff_ne.2 hother, ih,
          beq_eq_false_iff_ne.2 (Ne.symm hfirst)]

theorem mem_problems_add (set : ProblemSet) (problem other : Problem) (location : Location) :
    other ∈ (set.add problem location).problems ↔ other = problem ∨ other ∈ set.problems :=
  mem_problems_addAll problem other [location] set.entries

theorem holds_add (set : ProblemSet) (problem other : Problem) (location place : Location) :
    (set.add problem location).Holds other place ↔
      (other = problem ∧ place = location) ∨ set.Holds other place := by
  unfold Holds locations? add
  rw [lookup_addAll]
  by_cases hother : other = problem
  · subst hother
    rw [if_pos rfl, Option.getD_some, mem_foldl_appendNew, List.mem_singleton, or_comm]
    simp
  · rw [if_neg hother]
    simp [hother]

theorem ofFindings_eq_foldl (findings : List Finding) : ofFindings findings =
    findings.foldl (fun set finding => set.add finding.1 finding.2) {} := rfl

/-- The problems of a set are those that were found. -/
theorem mem_problems_ofFindings (findings : List Finding) (problem : Problem) :
    problem ∈ (ofFindings findings).problems ↔ ∃ location, (problem, location) ∈ findings := by
  suffices hfold : ∀ set : ProblemSet,
      problem ∈ (findings.foldl (fun set finding => set.add finding.1 finding.2) set).problems ↔
        problem ∈ set.problems ∨ ∃ location, (problem, location) ∈ findings by
    rw [ofFindings_eq_foldl, hfold]
    exact or_iff_right List.not_mem_nil
  induction findings with
  | nil => simp
  | cons finding findings ih =>
    intro set
    obtain ⟨found, place⟩ := finding
    rw [List.foldl_cons, ih, mem_problems_add]
    constructor
    · rintro ((rfl | hset) | ⟨location, hmem⟩)
      · exact .inr ⟨place, List.mem_cons_self⟩
      · exact .inl hset
      · exact .inr ⟨location, .tail _ hmem⟩
    · rintro (hset | ⟨location, hmem⟩)
      · exact .inl (.inr hset)
      · rcases List.mem_cons.1 hmem with hfirst | hmem
        · cases hfirst
          exact .inl (.inl rfl)
        · exact .inr ⟨location, hmem⟩

/-- A set tells of each problem the places where it was found. -/
theorem holds_ofFindings (findings : List Finding) (problem : Problem) (location : Location) :
    (ofFindings findings).Holds problem location ↔ (problem, location) ∈ findings := by
  suffices hfold : ∀ set : ProblemSet,
      (findings.foldl (fun set finding => set.add finding.1 finding.2) set).Holds
        problem location ↔ set.Holds problem location ∨ (problem, location) ∈ findings by
    rw [ofFindings_eq_foldl, hfold]
    exact or_iff_right List.not_mem_nil
  induction findings with
  | nil => simp
  | cons finding findings ih =>
    intro set
    obtain ⟨found, place⟩ := finding
    rw [List.foldl_cons, ih, holds_add, List.mem_cons, Prod.mk.injEq,
      or_comm (b := set.Holds problem location), or_assoc]

end ProblemSet

end LinkCheck
