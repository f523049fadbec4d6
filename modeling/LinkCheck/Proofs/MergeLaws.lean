import LinkCheck.Proofs.MergedProblems

/-!
# The laws of merging

A problem set keeps two orders, that of its problems and that of the places of each. Merging keeps both: it
is the same as recording the findings of the second set one after the other. If the orders are not looked at, a
set is told by what it holds, and a merged set holds what either of the two holds. So problem sets are joined
by merging as sets of findings are by union.

## Main definitions

- `ProblemSet.Built` — a set that was built by recording findings and by merging
- `ProblemSet.findings` — what a set holds, in its order

## Main results

- `ProblemSet.merge_eq_foldl_add` — merging is recording the findings of the second set
- `ProblemSet.Built.equivalent_iff` — up to order, a set is told by what it holds
- `ProblemSet.merge_laws` — the laws of merging
-/

namespace LinkCheck

namespace ProblemSet

variable {problem : Problem} {location : Location} {set first second third : ProblemSet}

/-- A set that was built from nothing by recording findings and by merging. -/
inductive Built : ProblemSet → Prop
  | empty : Built {}
  | add {set : ProblemSet} (h : Built set) (problem : Problem) (location : Location) :
      Built (set.add problem location)
  | merge {first second : ProblemSet} (h : Built first) (h' : Built second) :
      Built (first.merge second)

/-- What a set holds, problem by problem. -/
def findings (set : ProblemSet) : List Finding :=
  set.entries.flatMap fun entry => entry.2.map (entry.1, ·)

/-- Every problem of a set was seen at some place. -/
def Located (set : ProblemSet) : Prop :=
  ∀ entry ∈ set.entries, entry.2 ≠ []

theorem foldl_appendNew_ne_nil {locations : List Location} (h : locations ≠ [])
    (places : List Location) : locations.foldl appendNew places ≠ [] := by
  obtain ⟨location, hlocation⟩ := List.exists_mem_of_ne_nil _ h
  exact List.ne_nil_of_mem ((mem_foldl_appendNew locations places location).2 (.inr hlocation))

theorem located_addAll {entries : List (Problem × List Location)} (problem : Problem)
    {locations : List Location} (hlocations : locations ≠ []) (h : ∀ entry ∈ entries, entry.2 ≠ []) :
    ∀ entry ∈ addAll problem locations entries, entry.2 ≠ [] := by
  induction entries with
  | nil =>
    intro entry hentry
    rw [List.mem_singleton.1 hentry]
    exact foldl_appendNew_ne_nil hlocations _
  | cons head entries ih =>
    obtain ⟨hhead, hrest⟩ := List.forall_mem_cons.1 h
    rw [addAll]
    split
    · exact List.forall_mem_cons.2 ⟨foldl_appendNew_ne_nil hlocations _, hrest⟩
    · exact List.forall_mem_cons.2 ⟨hhead, ih hrest⟩

theorem Located.add (h : set.Located) (problem : Problem) (location : Location) :
    (set.add problem location).Located :=
  located_addAll problem (List.cons_ne_nil location []) h

/-- Places may be added to a problem in two parts. -/
theorem addAll_append (problem : Problem) (locations places : List Location)
    (entries : List (Problem × List Location)) :
    addAll problem (locations ++ places) entries =
      addAll problem places (addAll problem locations entries) := by
  induction entries with
  | nil => simp [addAll, List.foldl_append]
  | cons entry entries ih =>
    by_cases hsame : entry.1 = problem
    · simp [addAll, hsame, List.foldl_append]
    · simp [addAll, hsame, ih]

/-- Adding places to a problem is recording it at each of them, if there are any. -/
theorem addAll_eq_foldl_add (problem : Problem) {locations : List Location}
    (h : locations ≠ []) (set : ProblemSet) :
    (⟨addAll problem locations set.entries⟩ : ProblemSet) =
      locations.foldl (fun set location => set.add problem location) set := by
  induction locations generalizing set with
  | nil => exact absurd rfl h
  | cons location locations ih =>
    by_cases hrest : locations = []
    · subst hrest
      rfl
    · rw [List.foldl_cons, ← ih hrest, ← List.singleton_append, addAll_append]
      rfl

/-- Merging a set into another is recording its findings one after the other. -/
theorem merge_eq_foldl_add (h : second.Located) (first : ProblemSet) :
    first.merge second =
      second.findings.foldl (fun set finding => set.add finding.1 finding.2) first := by
  obtain ⟨entries⟩ := second
  induction entries generalizing first with
  | nil => rfl
  | cons entry entries ih =>
    obtain ⟨hentry, hrest⟩ := List.forall_mem_cons.1 h
    have hstep : first.merge ⟨entry :: entries⟩ =
        merge ⟨addAll entry.1 entry.2 first.entries⟩ ⟨entries⟩ := rfl
    have hfindings : findings ⟨entry :: entries⟩ =
        entry.2.map (entry.1, ·) ++ findings ⟨entries⟩ := rfl
    rw [hstep, ih _ hrest, hfindings, List.foldl_append, List.foldl_map,
      addAll_eq_foldl_add entry.1 hentry]

theorem Located.merge (h : first.Located) (h' : second.Located) : (first.merge second).Located := by
  rw [merge_eq_foldl_add h']
  induction second.findings generalizing first with
  | nil => exact h
  | cons finding findings ih => exact ih (h.add finding.1 finding.2)

namespace Built

theorem located (h : Built set) : set.Located := by
  induction h with
  | empty => exact fun entry hentry => absurd hentry List.not_mem_nil
  | add _ problem location ih => exact ih.add problem location
  | merge _ _ ih ih' => exact ih.merge ih'

theorem distinct (h : Built set) : set.Distinct := by
  induction h with
  | empty => exact .empty
  | add _ problem location ih => exact ih.add problem location
  | merge _ _ ih _ => exact ih.merge _

end Built

theorem mem_entries_of_locations? {locations : List Location}
    (h : set.locations? problem = some locations) : (problem, locations) ∈ set.entries := by
  obtain ⟨before, after, hsplit, _⟩ := List.lookup_eq_some_iff.1 h
  rw [hsplit]
  exact List.mem_append_right _ List.mem_cons_self

theorem holds_iff : set.Holds problem location ↔
    ∃ locations, set.locations? problem = some locations ∧ location ∈ locations := by
  cases hlocations : set.locations? problem with
  | none => simp [Holds, hlocations]
  | some locations => simp [Holds, hlocations]

/-- A problem is in a set exactly if it was seen at some place. -/
theorem Located.mem_problems_iff (h : set.Located) :
    problem ∈ set.problems ↔ ∃ location, set.Holds problem location := by
  constructor
  · intro hmem
    have hsome : (set.locations? problem).isSome := by
      rw [locations?, List.lookup_isSome_iff]
      obtain ⟨entry, hentry, hsame⟩ := List.mem_map.1 hmem
      exact ⟨entry, hentry, by simp [hsame]⟩
    obtain ⟨locations, hlocations⟩ := Option.isSome_iff_exists.1 hsome
    obtain ⟨location, hlocation⟩ :=
      List.exists_mem_of_ne_nil _ (h _ (mem_entries_of_locations? hlocations))
    exact ⟨location, holds_iff.2 ⟨locations, hlocations, hlocation⟩⟩
  · rintro ⟨location, hholds⟩
    obtain ⟨locations, hlocations, _⟩ := holds_iff.1 hholds
    exact List.mem_map_of_mem (mem_entries_of_locations? hlocations)

/-- A set that is contained in another holds nothing that the other does not. -/
theorem Holds.of_isContainedIn (h : set.Holds problem location)
    (hcontained : set.isContainedIn second = true) : second.Holds problem location := by
  obtain ⟨locations, hlocations, hmem⟩ := holds_iff.1 h
  rw [isContainedIn, List.all_eq_true] at hcontained
  have hentry := hcontained _ (mem_entries_of_locations? hlocations)
  cases hothers : second.locations? problem with
  | none => simp [hothers] at hentry
  | some others =>
    simp only [hothers, List.all_eq_true, decide_eq_true_eq] at hentry
    exact holds_iff.2 ⟨others, hothers, hentry location hmem⟩

namespace Built

/-- Up to order, a set is told by what it holds. -/
theorem equivalent_iff (h : Built first) (h' : Built second) :
    first.equivalent second = true ↔
      ∀ problem location, first.Holds problem location ↔ second.Holds problem location := by
  constructor
  · intro hequivalent problem location
    rw [equivalent, Bool.and_eq_true] at hequivalent
    exact ⟨fun hholds => hholds.of_isContainedIn hequivalent.1,
      fun hholds => hholds.of_isContainedIn hequivalent.2⟩
  · intro hholds
    refine equivalent_of_holds h.distinct h'.distinct (fun problem => ?_) hholds
    rw [h.located.mem_problems_iff, h'.located.mem_problems_iff]
    exact exists_congr fun location => hholds problem location

theorem holds_merge_iff (h' : Built second) (first : ProblemSet) (problem : Problem)
    (location : Location) :
    (first.merge second).Holds problem location ↔
      first.Holds problem location ∨ second.Holds problem location :=
  holds_merge h'.distinct first problem location

end Built

theorem not_holds_empty (problem : Problem) (location : Location) :
    ¬({} : ProblemSet).Holds problem location :=
  List.not_mem_nil

/-- Being the same up to order is an equivalence. -/
theorem equivalence_built :
    Equivalence fun first second : { set // Built set } => first.1.equivalent second.1 = true where
  refl set := (set.2.equivalent_iff set.2).2 fun _ _ => Iff.rfl
  symm {first second} h := by
    have hholds := (first.2.equivalent_iff second.2).1 h
    exact (second.2.equivalent_iff first.2).2 fun problem location => (hholds problem location).symm
  trans {first second third} h h' := by
    have hholds := (first.2.equivalent_iff second.2).1 h
    have hholds' := (second.2.equivalent_iff third.2).1 h'
    exact (first.2.equivalent_iff third.2).2 fun problem location =>
      (hholds problem location).trans (hholds' problem location)

/-- Every problem of a set that was built by recording findings and by merging was seen somewhere. Merging
such a set into another is recording its findings one after the other, with the same order of problems and of
places. Up to order, which is an equivalence, merging is commutative, associative and idempotent, the empty
set changes nothing, and equivalent sets may stand for each other. -/
theorem merge_laws (h : Built first) (h' : Built second) (h'' : Built third) :
    (∀ entry ∈ first.entries, entry.2 ≠ []) ∧
      first.merge second =
        second.findings.foldl (fun set finding => set.add finding.1 finding.2) first ∧
      (Equivalence fun one other : { set // Built set } => one.1.equivalent other.1 = true) ∧
      (first.merge second).equivalent (second.merge first) = true ∧
      ((first.merge second).merge third).equivalent (first.merge (second.merge third)) = true ∧
      (first.merge first).equivalent first = true ∧
      (first.merge {}).equivalent first = true ∧ (merge {} first).equivalent first = true ∧
      ∀ first' second', Built first' → Built second' → first.equivalent first' = true →
        second.equivalent second' = true →
          (first.merge second).equivalent (first'.merge second') = true := by
  refine ⟨h.located, merge_eq_foldl_add h'.located first, equivalence_built, ?_, ?_, ?_, ?_, ?_, ?_⟩
  · refine ((h.merge h').equivalent_iff (h'.merge h)).2 fun problem location => ?_
    rw [h'.holds_merge_iff, h.holds_merge_iff, or_comm]
  · refine (((h.merge h').merge h'').equivalent_iff (h.merge (h'.merge h''))).2
      fun problem location => ?_
    rw [h''.holds_merge_iff, h'.holds_merge_iff, (h'.merge h'').holds_merge_iff, h''.holds_merge_iff,
      or_assoc]
  · refine ((h.merge h).equivalent_iff h).2 fun problem location => ?_
    rw [h.holds_merge_iff, or_self]
  · refine ((h.merge .empty).equivalent_iff h).2 fun problem location => ?_
    rw [Built.empty.holds_merge_iff, or_iff_left (not_holds_empty problem location)]
  · refine ((Built.empty.merge h).equivalent_iff h).2 fun problem location => ?_
    rw [h.holds_merge_iff, or_iff_right (not_holds_empty problem location)]
  · intro first' second' hfirst hsecond hone hother
    refine ((h.merge h').equivalent_iff (hfirst.merge hsecond)).2 fun problem location => ?_
    rw [h'.holds_merge_iff, hsecond.holds_merge_iff, (h.equivalent_iff hfirst).1 hone,
      (h'.equivalent_iff hsecond).1 hother]

/-- A problem that was seen in a class. -/
def foundInClass : ProblemSet :=
  add {} (.classNotFound ⟨"x/A"⟩) (.ofClass ⟨"p/Main"⟩)

/-- Another problem in the same class, and then the first one in a method. -/
def foundInMethod : ProblemSet :=
  (add {} (.classNotFound ⟨"x/B"⟩) (.ofClass ⟨"p/Main"⟩)).add (.classNotFound ⟨"x/A"⟩)
    (.method ⟨⟨"p/Main"⟩, "m", "()V"⟩)

/-- Two sets that share a problem and no place are merged into different orders, which are equivalent. -/
theorem merge_laws_shared_problem :
    Built foundInClass ∧ Built foundInMethod ∧
      foundInClass.merge foundInMethod ≠ foundInMethod.merge foundInClass ∧
      foundInClass.merge foundInMethod =
        foundInMethod.findings.foldl (fun set finding => set.add finding.1 finding.2) foundInClass ∧
      (foundInClass.merge foundInMethod).equivalent (foundInMethod.merge foundInClass) = true ∧
      ((foundInClass.merge foundInMethod).merge foundInClass).equivalent
        (foundInClass.merge (foundInMethod.merge foundInClass)) = true := by
  have hclass : Built foundInClass := Built.empty.add _ _
  have hmethod : Built foundInMethod := (Built.empty.add _ _).add _ _
  obtain ⟨_, hrecorded, _, hcomm, hassoc, _⟩ := merge_laws hclass hmethod hclass
  exact ⟨hclass, hmethod, by decide, hrecorded, hcomm, hassoc⟩

end ProblemSet

end LinkCheck
