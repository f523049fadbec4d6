import LinkCheck.Proofs.MergedProblems
import LinkCheck.Proofs.OptionFilters
import LinkCheck.Proofs.SortedNames

/-!
# Checks class by class

A check of a plugin goes through its classes one after the other, and what it finds in a class does not
depend on which other classes of the plugin are checked. So it is put together from the checks of the
single classes against the same classpath.

## Main definitions

- `Classpath.exposing` — a classpath of which only some names are shown

## Main results

- `verify_exposing` — a check of some classes collects what is found in each of them
- `equivalent_verify_exposing` — the classes may be checked in two parts
- `verify_exposing_filter` — leaving out a class leaves out what was found in it
- `verify_classwise` — a check is the merge of the checks of the single classes
-/

namespace LinkCheck

/-- A classpath of which only some names are shown. -/
def Classpath.exposing (classpath : Classpath) (names : List ClassName) : Classpath where
  names := names
  lookup := classpath.find

variable {plugin classpath : Classpath} {options : Options} {names first second : List ClassName}
  {name : ClassName}

namespace LinkContext

theorem classFindings_exposing (context : LinkContext) (h : name ∈ names) :
    context.classFindings (plugin.exposing names) name = context.classFindings plugin name := by
  have hfind : (plugin.exposing names).find name = plugin.find name := if_pos h
  rw [classFindings, classFindings, hfind]

theorem classFindings_unreadable (context : LinkContext) {failure : ReadError}
    (h : plugin.find name = .error failure) :
    context.classFindings plugin name =
      [(.failedToReadClass name failure.message, .ofClass name)] := by
  rw [classFindings, h]

end LinkContext

/-- A check of some classes of a plugin collects what is found in each of them. -/
theorem verify_exposing (plugin classpath : Classpath) (options : Options)
    (names : List ClassName) :
    verify (plugin.exposing names) classpath options =
      .ofFindings ((sorted names).flatMap (LinkContext.classFindings ⟨classpath, options⟩ plugin)) := by
  have hfound : (sorted names).flatMap
        (LinkContext.classFindings ⟨classpath, options⟩ (plugin.exposing names)) =
      (sorted names).flatMap (LinkContext.classFindings ⟨classpath, options⟩ plugin) :=
    List.flatMap_congr fun name hname =>
      LinkContext.classFindings_exposing _ ((mem_sorted names name).1 hname)
  rw [verify]
  exact congrArg ProblemSet.ofFindings hfound

theorem verify_exposing_names (plugin classpath : Classpath) (options : Options) :
    verify (plugin.exposing plugin.names) classpath options = verify plugin classpath options :=
  verify_exposing plugin classpath options plugin.names

theorem verify_exposing_singleton (plugin classpath : Classpath) (options : Options)
    (name : ClassName) :
    verify (plugin.exposing [name]) classpath options =
      .ofFindings (LinkContext.classFindings ⟨classpath, options⟩ plugin name) := by
  rw [verify_exposing]
  exact congrArg ProblemSet.ofFindings (List.flatMap_singleton _ name)

theorem mem_problems_verify_exposing (problem : Problem) :
    problem ∈ (verify (plugin.exposing names) classpath options).problems ↔
      ∃ name ∈ names, ∃ location,
        (problem, location) ∈ LinkContext.classFindings ⟨classpath, options⟩ plugin name := by
  simp only [verify_exposing, ProblemSet.mem_problems_ofFindings, List.mem_flatMap, mem_sorted]
  constructor
  · rintro ⟨location, name, hname, hfound⟩
    exact ⟨name, hname, location, hfound⟩
  · rintro ⟨name, hname, location, hfound⟩
    exact ⟨location, name, hname, hfound⟩

theorem holds_verify_exposing (problem : Problem) (location : Location) :
    (verify (plugin.exposing names) classpath options).Holds problem location ↔
      ∃ name ∈ names,
        (problem, location) ∈ LinkContext.classFindings ⟨classpath, options⟩ plugin name := by
  simp only [verify_exposing, ProblemSet.holds_ofFindings, List.mem_flatMap, mem_sorted]

theorem distinct_verify (plugin classpath : Classpath) (options : Options) :
    (verify plugin classpath options).Distinct :=
  ProblemSet.distinct_ofFindings _

/-- The classes of a plugin may be checked in two parts, up to the order of what is found. -/
theorem equivalent_verify_exposing (plugin classpath : Classpath) (options : Options)
    (h : ∀ name, name ∈ names ↔ name ∈ first ∨ name ∈ second) :
    (verify (plugin.exposing names) classpath options).equivalent
      ((verify (plugin.exposing first) classpath options).merge
        (verify (plugin.exposing second) classpath options)) = true := by
  apply ProblemSet.equivalent_of_holds (distinct_verify ..) ((distinct_verify ..).merge _)
  · intro problem
    simp only [ProblemSet.mem_problems_merge, mem_problems_verify_exposing, h, or_and_right, exists_or]
  · intro problem location
    simp only [ProblemSet.holds_merge (distinct_verify ..), holds_verify_exposing, h, or_and_right,
      exists_or]

/-- Where all that is found in a class is one problem, the class may be left out: what is found of other
problems stays as it is. -/
theorem verify_exposing_filter (plugin classpath : Classpath) (options : Options) {problem : Problem}
    (h : ∀ finding ∈ LinkContext.classFindings ⟨classpath, options⟩ plugin name,
      finding.1 = problem) :
    (verify (plugin.exposing (names.filter (· ≠ name))) classpath options).entries.filter
        (fun entry => entry.1 ≠ problem) =
      (verify (plugin.exposing names) classpath options).entries.filter
        (fun entry => entry.1 ≠ problem) := by
  rw [verify_exposing, verify_exposing, sorted_filter,
    ← ProblemSet.entries_ofFindings_filter (fun other => other ≠ problem),
    ← ProblemSet.entries_ofFindings_filter (fun other => other ≠ problem)]
  congr 2
  induction sorted names with
  | nil => rfl
  | cons other others ih =>
    by_cases hother : other = name
    · -- Of the class that is left out nothing would be kept.
      have hnone : (LinkContext.classFindings ⟨classpath, options⟩ plugin other).filter
          (fun finding => finding.1 ≠ problem) = [] := by
        rw [List.filter_eq_nil_iff]
        intro finding hfinding
        simp [h finding (hother ▸ hfinding)]
      rw [List.filter_cons_of_neg (by simp [hother]), ih, List.flatMap_cons, List.filter_append,
        hnone, List.nil_append]
    · rw [List.filter_cons_of_pos (by simp [hother]), List.flatMap_cons, List.flatMap_cons,
        List.filter_append, List.filter_append, ih]

/-- A check is put together from the checks of the single classes. In the order of their names it is their
merge, problems and places in the same order. Up to order it is the merge of the checks of two parts.
A class that cannot be read adds one problem at its own place, and leaves all other problems as they
are. -/
theorem verify_classwise (plugin classpath : Classpath) (options : Options) :
    verify plugin classpath options =
        .mergeAll ((sorted plugin.names).map fun name =>
          verify (plugin.exposing [name]) classpath options) ∧
      (∀ first second : List ClassName,
        (∀ name, name ∈ plugin.names ↔ name ∈ first ∨ name ∈ second) →
          (verify plugin classpath options).equivalent
            ((verify (plugin.exposing first) classpath options).merge
              (verify (plugin.exposing second) classpath options)) = true) ∧
      ∀ name ∈ plugin.names, ∀ failure, plugin.find name = .error failure →
        (verify (plugin.exposing [name]) classpath options).entries =
            [(.failedToReadClass name failure.message, [.ofClass name])] ∧
          (verify plugin classpath options).equivalent
            ((verify (plugin.exposing (plugin.names.filter (· ≠ name))) classpath options).add
              (.failedToReadClass name failure.message) (.ofClass name)) = true ∧
          (verify (plugin.exposing (plugin.names.filter (· ≠ name))) classpath options).entries.filter
              (fun entry => entry.1 ≠ .failedToReadClass name failure.message) =
            (verify plugin classpath options).entries.filter
              (fun entry => entry.1 ≠ .failedToReadClass name failure.message) := by
  refine ⟨?_, fun first second hsplit => ?_, fun name hname failure hfailure => ?_⟩
  · simp only [verify_exposing_singleton]
    exact (ProblemSet.mergeAll_ofFindings _ _).symm
  · rw [← verify_exposing_names plugin]
    exact equivalent_verify_exposing plugin classpath options hsplit
  · have hfound := LinkContext.classFindings_unreadable ⟨classpath, options⟩ hfailure
    have halone : verify (plugin.exposing [name]) classpath options =
        ⟨[(.failedToReadClass name failure.message, [.ofClass name])]⟩ := by
      rw [verify_exposing_singleton, hfound]
      rfl
    refine ⟨by rw [halone], ?_, ?_⟩
    · have hsplit : ∀ other, other ∈ plugin.names ↔
          other ∈ plugin.names.filter (· ≠ name) ∨ other ∈ [name] := by
        intro other
        by_cases hother : other = name
        · simp [hother, hname]
        · simp [hother]
      have hmerged := equivalent_verify_exposing plugin classpath options hsplit
      rw [verify_exposing_names, halone] at hmerged
      exact hmerged
    · rw [← verify_exposing_names plugin]
      exact verify_exposing_filter plugin classpath options (by simp [hfound])

/-- A plugin with a class that can be read and its superclass, which cannot. -/
def halfReadable : Classpath where
  names := [⟨"q/Base"⟩, ⟨"p/Main"⟩]
  lookup := fun name => if name = ⟨"p/Main"⟩ then .ok (some strandedClass) else .error .truncated

/-- The superclass that cannot be read is reported at its own place and, by the check of the other class
alone, at the place of that class. -/
theorem verify_classwise_halfReadable :
    (∀ name, name ∈ halfReadable.names ↔ name ∈ [⟨"q/Base"⟩] ∨ name ∈ [⟨"p/Main"⟩]) ∧
      (verify halfReadable halfReadable {}).equivalent
        ((verify (halfReadable.exposing [⟨"q/Base"⟩]) halfReadable {}).merge
          (verify (halfReadable.exposing [⟨"p/Main"⟩]) halfReadable {})) = true ∧
      (⟨"q/Base"⟩ : ClassName) ∈ halfReadable.names ∧
      halfReadable.find ⟨"q/Base"⟩ = .error .truncated ∧
      (verify (halfReadable.exposing [⟨"q/Base"⟩]) halfReadable {}).entries =
        [(.failedToReadClass ⟨"q/Base"⟩ ReadError.truncated.message, [.ofClass ⟨"q/Base"⟩])] ∧
      (verify halfReadable halfReadable {}).locations?
          (.failedToReadClass ⟨"q/Base"⟩ ReadError.truncated.message) =
        some [.ofClass ⟨"p/Main"⟩, .ofClass ⟨"q/Base"⟩] := by
  have hsplit : ∀ name, name ∈ halfReadable.names ↔
      name ∈ [⟨"q/Base"⟩] ∨ name ∈ [⟨"p/Main"⟩] := by
    intro name
    simp [halfReadable]
  have hclasswise := verify_classwise halfReadable halfReadable {}
  refine ⟨hsplit, hclasswise.2.1 _ _ hsplit, List.mem_cons_self, by decide +kernel, ?_, by decide +kernel⟩
  exact (hclasswise.2.2 ⟨"q/Base"⟩ List.mem_cons_self .truncated (by decide +kernel)).1

end LinkCheck
