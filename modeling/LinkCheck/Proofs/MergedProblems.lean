import LinkCheck.Proofs.ProblemSets
import Mathlib.Data.List.Induction

/-!
# Merging problem sets

A problem set in which no problem has two entries is told by the findings that were recorded, in their
order. Merging such sets records the findings of the one after those of the other, so nothing is lost when
findings are first collected apart. Up to order it does not matter which set comes first.

## Main definitions

- `ProblemSet.Distinct` — no problem has two entries
- `ProblemSet.mergeAll` — sets merged one after the other

## Main results

- `ProblemSet.ofFindings_append` — findings may be collected apart and merged
- `ProblemSet.mergeAll_ofFindings` — the same for any number of parts
- `ProblemSet.equivalent_of_holds` — sets that hold the same are equivalent
- `ProblemSet.equivalent_mergeAll_of_perm` — the order in which sets are merged does not matter
-/

namespace LinkCheck

/-- Appending an item that is new to one list after another list has been appended. -/
theorem foldl_appendNew_appendNew {α : Type} [DecidableEq α] (items added : List α) (item : α) :
    (appendNew added item).foldl appendNew items =
      appendNew (added.foldl appendNew items) item := by
  by_cases hmem : item ∈ added
  · have hthere : item ∈ added.foldl appendNew items :=
      (mem_foldl_appendNew added items item).2 (.inr hmem)
    rw [appendNew, if_pos hmem, appendNew, if_pos hthere]
  · rw [appendNew, if_neg hmem, List.foldl_append]
    rfl

namespace ProblemSet

variable {problem other : Problem} {location : Location} {locations places : List Location}
  {entries : List (Problem × List Location)} {set first second : ProblemSet}

/-- No problem has two entries. -/
def Distinct (set : ProblemSet) : Prop :=
  set.problems.Nodup

theorem nodup_addAll (problem : Problem) (locations : List Location)
    (h : (entries.map Prod.fst).Nodup) : ((addAll problem locations entries).map Prod.fst).Nodup := by
  induction entries with
  | nil => simp [addAll]
  | cons entry entries ih =>
    rw [List.map_cons, List.nodup_cons] at h
    rw [addAll]
    split
    · rw [List.map_cons, List.nodup_cons]
      exact h
    · next hother =>
      rw [List.map_cons, List.nodup_cons, mem_problems_addAll, not_or]
      exact ⟨⟨hother, h.1⟩, ih h.2⟩

theorem Distinct.empty : Distinct {} :=
  List.nodup_nil

theorem Distinct.add (h : set.Distinct) (problem : Problem) (location : Location) :
    (set.add problem location).Distinct :=
  nodup_addAll problem [location] h

theorem Distinct.merge (h : first.Distinct) (second : ProblemSet) :
    (first.merge second).Distinct := by
  have hfold : ∀ added start : List (Problem × List Location), (start.map Prod.fst).Nodup →
      ((added.foldl (fun entries entry => addAll entry.1 entry.2 entries) start).map
        Prod.fst).Nodup := by
    intro added
    induction added with
    | nil => exact fun _ hstart => hstart
    | cons entry added ih => exact fun start hstart => ih _ (nodup_addAll entry.1 entry.2 hstart)
  exact hfold second.entries first.entries h

theorem distinct_ofFindings (findings : List Finding) : (ofFindings findings).Distinct := by
  suffices hfold : ∀ set : ProblemSet, set.Distinct →
      (findings.foldl (fun set finding => set.add finding.1 finding.2) set).Distinct from
    hfold {} .empty
  induction findings with
  | nil => exact fun _ h => h
  | cons finding findings ih => exact fun set h => ih _ (h.add finding.1 finding.2)

theorem addAll_addAll_self (problem : Problem) (location : Location) (locations : List Location)
    (entries : List (Problem × List Location)) :
    addAll problem [location] (addAll problem locations entries) =
      addAll problem (appendNew locations location) entries := by
  induction entries with
  | nil => simp [addAll, foldl_appendNew_appendNew]
  | cons entry entries ih =>
    by_cases hsame : entry.1 = problem
    · simp [addAll, hsame, foldl_appendNew_appendNew]
    · simp [addAll, hsame, ih]

/-- A problem that has an entry gets its places there, whenever other problems get theirs. -/
theorem addAll_comm (h : problem ∈ entries.map Prod.fst) (hne : other ≠ problem) :
    addAll problem locations (addAll other places entries) =
      addAll other places (addAll problem locations entries) := by
  induction entries with
  | nil => cases h
  | cons entry entries ih =>
    by_cases hsame : entry.1 = problem
    · subst hsame
      simp [addAll, hne.symm]
    · have hrest : problem ∈ entries.map Prod.fst :=
        (List.mem_cons.1 h).resolve_left fun heq => hsame heq.symm
      by_cases hother : entry.1 = other
      · simp [addAll, hother, hne]
      · simp [addAll, hsame, hother, ih hrest]

theorem foldl_addAll_comm {added : List (Problem × List Location)}
    (hnew : problem ∉ added.map Prod.fst) (h : problem ∈ entries.map Prod.fst) :
    addAll problem locations
        (added.foldl (fun entries (problem, locations) => addAll problem locations entries) entries) =
      added.foldl (fun entries (problem, locations) => addAll problem locations entries)
        (addAll problem locations entries) := by
  induction added generalizing entries with
  | nil => rfl
  | cons entry added ih =>
    rw [List.map_cons, List.mem_cons, not_or] at hnew
    have hthere : problem ∈ (addAll entry.1 entry.2 entries).map Prod.fst :=
      (mem_problems_addAll entry.1 problem entry.2 entries).2 (.inr h)
    rw [List.foldl_cons, List.foldl_cons, ih hnew.2 hthere, addAll_comm h (Ne.symm hnew.1)]

/-- A finding may be recorded before or after a set is merged into another. -/
theorem merge_add (h : second.Distinct) (first : ProblemSet) (problem : Problem)
    (location : Location) :
    first.merge (second.add problem location) = (first.merge second).add problem location := by
  obtain ⟨added⟩ := second
  suffices hfold : ∀ entries : List (Problem × List Location),
      (addAll problem [location] added).foldl
          (fun entries (problem, locations) => addAll problem locations entries) entries =
        addAll problem [location]
          (added.foldl (fun entries (problem, locations) => addAll problem locations entries)
            entries) from
    congrArg ProblemSet.mk (hfold first.entries)
  induction added with
  | nil => exact fun _ => rfl
  | cons entry added ih =>
    intro entries
    obtain ⟨hnew, hrest⟩ := List.nodup_cons.1 h
    by_cases hsame : entry.1 = problem
    · -- The places go to the entry that the problem has in both sets.
      subst hsame
      have hthere : entry.1 ∈ (addAll entry.1 entry.2 entries).map Prod.fst :=
        (mem_problems_addAll entry.1 entry.1 entry.2 entries).2 (.inl rfl)
      rw [List.foldl_cons, foldl_addAll_comm hnew hthere, addAll_addAll_self]
      simp [addAll]
    · rw [addAll, if_neg hsame, List.foldl_cons, List.foldl_cons]
      exact ih hrest _

/-- Findings may be collected apart and merged. -/
theorem ofFindings_append (findings others : List Finding) :
    ofFindings (findings ++ others) = (ofFindings findings).merge (ofFindings others) := by
  induction others using List.reverseRecOn with
  | nil => rw [List.append_nil]; rfl
  | append_singleton others finding ih =>
    have hlast : ∀ earlier : List Finding, ofFindings (earlier ++ [finding]) =
        (ofFindings earlier).add finding.1 finding.2 := fun earlier => List.foldl_append
    rw [← List.append_assoc, hlast, hlast, ih, merge_add (distinct_ofFindings others)]

/-- Sets merged one after the other. -/
def mergeAll (sets : List ProblemSet) : ProblemSet :=
  sets.foldl merge {}

theorem mergeAll_concat (sets : List ProblemSet) (set : ProblemSet) :
    mergeAll (sets ++ [set]) = (mergeAll sets).merge set :=
  List.foldl_append

/-- Findings may be collected in any number of parts, which are merged in their order. -/
theorem mergeAll_ofFindings {α : Type} (parts : List α) (found : α → List Finding) :
    mergeAll (parts.map fun part => ofFindings (found part)) = ofFindings (parts.flatMap found) := by
  induction parts using List.reverseRecOn with
  | nil => rfl
  | append_singleton parts part ih =>
    rw [List.map_append, List.map_singleton, mergeAll_concat, ih, List.flatMap_append,
      List.flatMap_singleton, ofFindings_append]

theorem mem_problems_merge (first second : ProblemSet) (problem : Problem) :
    problem ∈ (first.merge second).problems ↔
      problem ∈ first.problems ∨ problem ∈ second.problems := by
  suffices hfold : ∀ added entries : List (Problem × List Location),
      problem ∈ (added.foldl (fun entries (problem, locations) => addAll problem locations entries)
          entries).map Prod.fst ↔
        problem ∈ entries.map Prod.fst ∨ problem ∈ added.map Prod.fst from
    hfold second.entries first.entries
  intro added
  induction added with
  | nil => simp
  | cons entry added ih =>
    intro entries
    rw [List.foldl_cons, ih, mem_problems_addAll, List.map_cons, List.mem_cons, or_left_comm,
      or_assoc, or_left_comm]

theorem holds_merge (h : second.Distinct) (first : ProblemSet) (problem : Problem)
    (location : Location) :
    (first.merge second).Holds problem location ↔
      first.Holds problem location ∨ second.Holds problem location := by
  obtain ⟨added⟩ := second
  suffices hfold : ∀ entries : List (Problem × List Location),
      location ∈ ((added.foldl
          (fun entries (problem, locations) => addAll problem locations entries)
          entries).lookup problem).getD [] ↔
        location ∈ (entries.lookup problem).getD [] ∨
          location ∈ (added.lookup problem).getD [] from hfold first.entries
  induction added with
  | nil => simp
  | cons entry added ih =>
    intro entries
    obtain ⟨hnew, hrest⟩ := List.nodup_cons.1 h
    rw [List.foldl_cons, ih hrest, lookup_addAll, List.lookup_cons]
    by_cases hsame : problem = entry.1
    · -- The problem has no second entry among those that are still to come.
      subst hsame
      have hnone : added.lookup entry.1 = none := by
        rw [List.lookup_eq_none_iff]
        intro pair hpair
        exact bne_iff_ne.2 fun heq => hnew (heq ▸ List.mem_map_of_mem hpair)
      simp [hnone, mem_foldl_appendNew]
    · simp [hsame, beq_false_of_ne hsame]

/-- A set is contained in another that holds all that it holds. -/
theorem isContainedIn_of_holds (h : first.Distinct)
    (hproblems : ∀ problem ∈ first.problems, problem ∈ second.problems)
    (hholds : ∀ problem location, first.Holds problem location → second.Holds problem location) :
    first.isContainedIn second = true := by
  rw [isContainedIn, List.all_eq_true]
  rintro ⟨problem, locations⟩ hentry
  have hthere : (second.locations? problem).isSome := by
    rw [locations?, List.lookup_isSome_iff]
    obtain ⟨entry, hmem, hsame⟩ :=
      List.mem_map.1 (hproblems problem (List.mem_map_of_mem hentry))
    exact ⟨entry, hmem, by simp [hsame]⟩
  obtain ⟨others, hothers⟩ := Option.isSome_iff_exists.1 hthere
  have hown : first.locations? problem = some locations := by
    rw [locations?]
    obtain ⟨before, after, hsplit⟩ := List.append_of_mem hentry
    rw [List.lookup_eq_some_iff]
    refine ⟨before, after, hsplit, fun pair hpair => ?_⟩
    -- No entry before this one can be about the same problem.
    rw [Distinct, problems, hsplit, List.map_append, List.nodup_append] at h
    exact bne_iff_ne.2 fun heq =>
      h.2.2 pair.1 (List.mem_map_of_mem hpair) problem List.mem_cons_self heq.symm
  simp only [hothers, List.all_eq_true, decide_eq_true_eq]
  intro location hlocation
  have hheld := hholds problem location (by rw [Holds, hown]; exact hlocation)
  rwa [Holds, hothers] at hheld

/-- Sets that hold the same problems at the same places are equivalent. -/
theorem equivalent_of_holds (h : first.Distinct) (h' : second.Distinct)
    (hproblems : ∀ problem, problem ∈ first.problems ↔ problem ∈ second.problems)
    (hholds : ∀ problem location, first.Holds problem location ↔ second.Holds problem location) :
    first.equivalent second = true := by
  rw [equivalent, Bool.and_eq_true]
  constructor
  · exact isContainedIn_of_holds h (fun problem => (hproblems problem).1)
      fun problem location => (hholds problem location).1
  · exact isContainedIn_of_holds h' (fun problem => (hproblems problem).2)
      fun problem location => (hholds problem location).2

theorem distinct_mergeAll (sets : List ProblemSet) : (mergeAll sets).Distinct := by
  induction sets using List.reverseRecOn with
  | nil => exact .empty
  | append_singleton sets set ih =>
    rw [mergeAll_concat]
    exact ih.merge set

theorem mem_problems_mergeAll (sets : List ProblemSet) (problem : Problem) :
    problem ∈ (mergeAll sets).problems ↔ ∃ set ∈ sets, problem ∈ set.problems := by
  induction sets using List.reverseRecOn with
  | nil => simp [mergeAll, problems]
  | append_singleton sets set ih =>
    rw [mergeAll_concat, mem_problems_merge, ih]
    simp [or_and_right, exists_or]

theorem holds_mergeAll {sets : List ProblemSet} (h : ∀ set ∈ sets, set.Distinct)
    (problem : Problem) (location : Location) :
    (mergeAll sets).Holds problem location ↔ ∃ set ∈ sets, set.Holds problem location := by
  induction sets using List.reverseRecOn with
  | nil => simp [mergeAll, Holds, locations?]
  | append_singleton sets set ih =>
    have hlast : set.Distinct := h set (List.mem_append_right _ (List.mem_singleton_self set))
    rw [mergeAll_concat, holds_merge hlast, ih fun other hother => h other (List.mem_append_left _ hother)]
    simp [or_and_right, exists_or]

/-- The order in which sets are merged does not matter, up to the order of what the result holds. -/
theorem equivalent_mergeAll_of_perm {sets others : List ProblemSet} (hperm : sets.Perm others)
    (h : ∀ set ∈ sets, set.Distinct) : (mergeAll sets).equivalent (mergeAll others) = true := by
  have h' : ∀ set ∈ others, set.Distinct := fun set hset => h set (hperm.mem_iff.2 hset)
  apply equivalent_of_holds (distinct_mergeAll sets) (distinct_mergeAll others)
  · intro problem
    simp only [mem_problems_mergeAll, hperm.mem_iff]
  · intro problem location
    simp only [holds_mergeAll h, holds_mergeAll h', hperm.mem_iff]

end ProblemSet

end LinkCheck
