import LinkCheck.Proofs.ComparedChecks

/-!
# Options filter reports

An option of a check decides what is reported, and never what is looked at. So the reports under one choice
are those under another choice with some problems left out: the others keep their order and their places.
Looking at generic signatures as well adds places where classes are missing, and leaves all else as it is.

## Main definitions

- `ProblemSet.AddsTo` — a set keeps all of another and adds only to some kinds of problems
- `LinkContext.Filters`, `LinkContext.AddsOnly` — how the findings of two checks differ

## Main results

- `ProblemSet.entries_ofFindings_filter` — leaving out problems before or after they are collected
- `LinkContext.fullyCompared_ignoredPackages`, `LinkContext.fullyCompared_checkMethodImplementation`,
  `LinkContext.fullyCompared_checkGenericSignatures` — one comparison for each option
- `verify_options_filter` — what each option leaves out
-/

namespace LinkCheck

namespace ProblemSet

variable {keep : Problem → Bool} {problem : Problem}

theorem filter_addAll_of_keep (h : keep problem = true) (locations : List Location)
    (entries : List (Problem × List Location)) :
    (addAll problem locations entries).filter (fun entry => keep entry.1) =
      addAll problem locations (entries.filter fun entry => keep entry.1) := by
  induction entries with
  | nil => simp [addAll, h]
  | cons entry entries ih =>
    by_cases hsame : entry.1 = problem
    · simp [addAll, hsame, h]
    · by_cases hkept : keep entry.1 <;> simp [addAll, hsame, hkept, ih]

theorem filter_addAll_of_not_keep (h : keep problem = false) (locations : List Location)
    (entries : List (Problem × List Location)) :
    (addAll problem locations entries).filter (fun entry => keep entry.1) =
      entries.filter fun entry => keep entry.1 := by
  induction entries with
  | nil => simp [addAll, h]
  | cons entry entries ih =>
    by_cases hsame : entry.1 = problem
    · simp [addAll, hsame, h]
    · simp only [addAll, if_neg hsame, List.filter_cons, ih]

/-- Problems may be left out before or after their places are collected. -/
theorem entries_ofFindings_filter (keep : Problem → Bool) (findings : List Finding) :
    (ofFindings (findings.filter fun finding => keep finding.1)).entries =
      (ofFindings findings).entries.filter fun entry => keep entry.1 := by
  suffices hfold : ∀ set : ProblemSet,
      ((findings.filter fun finding => keep finding.1).foldl
        (fun (set : ProblemSet) finding => set.add finding.1 finding.2)
        ⟨set.entries.filter fun entry => keep entry.1⟩).entries =
      (findings.foldl (fun set finding => set.add finding.1 finding.2) set).entries.filter
        fun entry => keep entry.1 from hfold {}
  induction findings with
  | nil => exact fun _ => rfl
  | cons finding findings ih =>
    intro set
    rw [List.foldl_cons, ← ih]
    by_cases hkept : keep finding.1
    · simp only [List.filter_cons, hkept, if_true, List.foldl_cons, add, filter_addAll_of_keep hkept]
    · rw [Bool.not_eq_true] at hkept
      simp only [List.filter_cons, hkept, add, filter_addAll_of_not_keep hkept]
      rfl

/-- A set keeps all problems and places of another. What it has beyond them belongs to problems of some
kinds, and the entries of all other problems are the same. -/
structure AddsTo (before after : ProblemSet) (kinds : List String) : Prop where
  problems : ∀ problem ∈ before.problems, problem ∈ after.problems
  holds : ∀ problem location, before.Holds problem location → after.Holds problem location
  added : ∀ problem location, after.Holds problem location → ¬ before.Holds problem location →
    problem.kind ∈ kinds
  others : after.entries.filter (fun entry => entry.1.kind ∉ kinds) =
    before.entries.filter (fun entry => entry.1.kind ∉ kinds)

end ProblemSet

/-- Whether a problem is left unsaid because the class that it calls absent is ignored. -/
def Options.silences (options : Options) (problem : Problem) : Bool :=
  problem.absent?.any fun missing => options.ignores missing.text

theorem Problem.absent?_of_isUnconditional {problem : Problem}
    (h : problem.isUnconditional = true) : problem.absent? = none := by
  revert h
  cases problem <;> simp [isUnconditional, absent?]

theorem Problem.exists_of_kind {problem : Problem} (h : problem.kind = "MethodNotImplemented") :
    ∃ method name, problem = .methodNotImplemented method name := by
  cases problem <;> simp [kind] at h
  exact ⟨_, _, rfl⟩

/-- Whether a problem is one of the two on overriding: a method that may not be overridden, or one that is not
implemented. -/
def Problem.isOnOverriding : Problem → Bool
  | overridingFinalMethod _ _ | methodNotImplemented _ _ => true
  | _ => false

namespace LinkContext

section Problems

variable {context : LinkContext} {problem : Problem}

theorem exists_of_mem_abstractMethodProblems {definition : ClassDefinition}
    (h : problem ∈ context.abstractMethodProblems definition) :
    ∃ member, problem = .methodNotImplemented member definition.name := by
  unfold abstractMethodProblems at h
  split at h
  · cases h
  · split at h
    · obtain ⟨member, -, rfl⟩ := List.mem_map.1 h
      exact ⟨member, rfl⟩
    · cases h

theorem cases_of_mem_unresolvedProblems {options : Options} {missing : ClassName → Problem}
    {unresolved : Unresolved} (h : problem ∈ options.unresolvedProblems missing unresolved) :
    (∃ reason, problem = .failedToReadClass unresolved.name reason) ∨
      problem = missing unresolved.name := by
  unfold Options.unresolvedProblems at h
  split at h
  · exact .inl ⟨_, List.mem_singleton.1 h⟩
  · split at h
    · cases h
    · exact .inr (List.mem_singleton.1 h)

/-- A type that is merely named is absent or cannot be read. -/
theorem kind_of_mem_typeProblems {name : ClassName} (h : problem ∈ context.typeProblems name) :
    problem.kind ∈ ["ClassNotFound", "FailedToReadClass"] := by
  unfold typeProblems withClass at h
  split at h
  · cases h
  · obtain ⟨reason, rfl⟩ | rfl := cases_of_mem_unresolvedProblems h <;> simp [Problem.kind]

theorem kind_of_mem_signatureProblems {classes : List ClassName}
    (h : problem ∈ context.signatureProblems classes) :
    problem.kind ∈ ["ClassNotFound", "FailedToReadClass"] := by
  unfold signatureProblems at h
  split at h
  · obtain ⟨name, -, hproblem⟩ := List.mem_flatMap.1 h
    exact kind_of_mem_typeProblems hproblem
  · cases h

/-- None of some problems is one of the two on overriding. -/
def Plain (problems : List Problem) : Prop :=
  ∀ problem ∈ problems, problem.isOnOverriding = false

theorem Plain.append {before after : List Problem} (hbefore : Plain before) (hafter : Plain after) :
    Plain (before ++ after) :=
  List.forall_mem_append.2 ⟨hbefore, hafter⟩

theorem plain_flatMap {α : Type} {items : List α} {problems : α → List Problem}
    (h : ∀ item, Plain (problems item)) : Plain (items.flatMap problems) := by
  intro problem hmem
  obtain ⟨item, -, hproblem⟩ := List.mem_flatMap.1 hmem
  exact h item problem hproblem

theorem plain_withClass {needed : ClassName} {missing : ClassName → Problem}
    {next : ClassDefinition → List Problem} (hmissing : ∀ name, (missing name).isOnOverriding = false)
    (hnext : ∀ target, Plain (next target)) : Plain (context.withClass needed missing next) := by
  intro problem h
  unfold withClass at h
  split at h
  · exact hnext _ problem h
  · obtain ⟨reason, rfl⟩ | rfl := cases_of_mem_unresolvedProblems h
    · rfl
    · exact hmissing _

theorem plain_accessProblems (accessor target : ClassDefinition) :
    Plain (accessProblems accessor target) := by
  unfold accessProblems Plain
  split <;> simp [Problem.isOnOverriding]

theorem plain_typeProblems (name : ClassName) : Plain (context.typeProblems name) :=
  plain_withClass (fun _ => rfl) fun _ _ h => by cases h

theorem plain_signatureProblems (classes : List ClassName) :
    Plain (context.signatureProblems classes) := by
  unfold signatureProblems
  split
  · exact plain_flatMap plain_typeProblems
  · exact fun _ h => by cases h

theorem plain_superclassProblems (definition : ClassDefinition) :
    Plain (context.superclassProblems definition) := by
  unfold superclassProblems
  split
  · exact fun _ h => by cases h
  · refine plain_withClass (fun _ => rfl) fun superclass => .append ?_ (plain_accessProblems _ _)
    unfold Plain
    split
    · simp [Problem.isOnOverriding]
    · split <;> simp [Problem.isOnOverriding]

theorem plain_interfaceProblems (definition : ClassDefinition) (needed : ClassName) :
    Plain (context.interfaceProblems definition needed) := by
  refine plain_withClass (fun _ => rfl) fun interface => .append ?_ (plain_accessProblems _ _)
  unfold Plain
  split <;> simp [Problem.isOnOverriding]

end Problems

/-- The findings of one check are those of another without some problems. -/
def Filters (keep : Problem → Bool) (findings others : List Finding) : Prop :=
  findings = others.filter fun finding => keep finding.1

section Filters

variable {keep : Problem → Bool} {problems : List Problem}

theorem Filters.append {before before' after after' : List Finding}
    (hbefore : Filters keep before before') (hafter : Filters keep after after') :
    Filters keep (before ++ after) (before' ++ after') := by
  rw [Filters, List.filter_append, ← hbefore, ← hafter]

theorem filters_all (h : ∀ problem ∈ problems, keep problem = true) :
    Everywhere (Filters keep) problems problems := by
  intro location
  refine (List.filter_eq_self.2 fun finding hfinding => ?_).symm
  obtain ⟨problem, hproblem, rfl⟩ := List.mem_map.1 hfinding
  exact h problem hproblem

theorem filters_none (h : ∀ problem ∈ problems, keep problem = false) :
    Everywhere (Filters keep) [] problems := by
  intro location
  refine (List.filter_eq_nil_iff.2 fun finding hfinding => ?_).symm
  obtain ⟨problem, hproblem, rfl⟩ := List.mem_map.1 hfinding
  rw [h problem hproblem]
  exact Bool.false_ne_true

theorem filters_singleton {problem : Problem} (location : Location) (h : keep problem = true) :
    Filters keep [(problem, location)] [(problem, location)] := by
  have hall : Everywhere (Filters keep) [problem] [problem] :=
    filters_all fun _ hmem => List.mem_singleton.1 hmem ▸ h
  exact hall location

end Filters

/-- With ignored packages a check finds what it finds without them, less what they silence. -/
theorem fullyCompared_ignoredPackages (classpath : Classpath) (options : Options) :
    FullyCompared (Filters fun problem => !options.silences problem)
      ⟨classpath, options⟩ ⟨classpath, { options with ignoredPackages := [] }⟩ := by
  have hkept : ∀ problem : Problem, problem.absent? = none → (!options.silences problem) = true := by
    intro problem hproblem
    rw [Options.silences, hproblem]
    rfl
  have hcompared : Compared (Filters fun problem => !options.silences problem)
      ⟨classpath, options⟩ ⟨classpath, { options with ignoredPackages := [] }⟩ :=
    { classpath := .refl classpath
      nil := rfl
      append := Filters.append
      unconditional := fun location hproblem =>
        filters_singleton location (hkept _ (Problem.absent?_of_isUnconditional hproblem))
      unresolved := fun {missing} hmissing unresolved => by
        unfold Options.unresolvedProblems
        cases unresolved.error with
        | some error => exact filters_all fun _ hmem => List.mem_singleton.1 hmem ▸ hkept _ rfl
        | none =>
          have hsilenced : options.silences (missing unresolved.name) =
              options.ignores unresolved.name.text := by
            rw [Options.silences, hmissing]
            rfl
          -- no package is ignored on the other side, so the class is reported there
          have hreported : { options with ignoredPackages := [] }.ignores unresolved.name.text =
              false := rfl
          simp only [hreported, Bool.false_eq_true, if_false]
          split
          · next hignored =>
            refine filters_none fun _ hmem => ?_
            rw [List.mem_singleton.1 hmem, hsilenced, hignored]
            rfl
          · next hignored =>
            refine filters_all fun _ hmem => ?_
            rw [List.mem_singleton.1 hmem, hsilenced, eq_false_of_ne_true hignored]
            rfl }
  exact { hcompared with
    signatures := hcompared.signatureProblems rfl
    implementations := fun definition location => by
      dsimp only
      split
      · refine filters_all (fun problem hmem => ?_) location
        obtain ⟨member, rfl⟩ := exists_of_mem_abstractMethodProblems hmem
        exact hkept _ rfl
      · exact hcompared.nil }

/-- Where implementations are not asked for, all else is found as ever. -/
theorem fullyCompared_checkMethodImplementation (classpath : Classpath) (options : Options) :
    FullyCompared (Filters fun problem => problem.kind ≠ "MethodNotImplemented")
      ⟨classpath, { options with checkMethodImplementation := false }⟩
      ⟨classpath, { options with checkMethodImplementation := true }⟩ := by
  have hkept : ∀ problem : Problem, (∀ method name, problem ≠ .methodNotImplemented method name) →
      decide (problem.kind ≠ "MethodNotImplemented") = true := by
    intro problem hother
    rw [decide_eq_true_iff]
    intro hkind
    obtain ⟨method, name, hproblem⟩ := Problem.exists_of_kind hkind
    exact hother method name hproblem
  have hcompared : Compared (Filters fun problem => problem.kind ≠ "MethodNotImplemented")
      ⟨classpath, { options with checkMethodImplementation := false }⟩
      ⟨classpath, { options with checkMethodImplementation := true }⟩ :=
    { classpath := .refl classpath
      nil := rfl
      append := Filters.append
      unconditional := fun location hproblem =>
        filters_singleton location (hkept _ fun _ _ hsame => by cases hsame ▸ hproblem)
      unresolved := fun {missing} hmissing unresolved => by
        refine filters_all fun problem hmem => hkept problem fun method name hsame => ?_
        subst hsame
        obtain ⟨reason, hread⟩ | habsent := cases_of_mem_unresolvedProblems hmem
        · cases hread
        · cases habsent ▸ hmissing unresolved.name }
  exact { hcompared with
    signatures := hcompared.signatureProblems rfl
    implementations := fun definition location => by
      refine filters_none (fun problem hmem => ?_) location
      obtain ⟨member, rfl⟩ := exists_of_mem_abstractMethodProblems hmem
      rfl }

/-- The findings of one check are among those of another, in their order, and the others are of some
kinds. -/
structure AddsOnly (kinds : List String) (findings others : List Finding) : Prop where
  sublist : findings.Sublist others
  others : (others.filter fun finding => finding.1.kind ∉ kinds) =
    findings.filter fun finding => finding.1.kind ∉ kinds

namespace AddsOnly

variable {kinds : List String}

theorem refl (findings : List Finding) : AddsOnly kinds findings findings :=
  ⟨.refl findings, rfl⟩

theorem append {before before' after after' : List Finding} (hbefore : AddsOnly kinds before before')
    (hafter : AddsOnly kinds after after') : AddsOnly kinds (before ++ after) (before' ++ after') := by
  refine ⟨hbefore.sublist.append hafter.sublist, ?_⟩
  rw [List.filter_append, List.filter_append, hbefore.others, hafter.others]

theorem nil_of_kinds {problems : List Problem} (h : ∀ problem ∈ problems, problem.kind ∈ kinds) :
    Everywhere (AddsOnly kinds) [] problems := by
  intro location
  refine ⟨List.nil_sublist _, List.filter_eq_nil_iff.2 fun finding hfinding => ?_⟩
  obtain ⟨problem, hproblem, rfl⟩ := List.mem_map.1 hfinding
  simpa using h problem hproblem

theorem addsTo {findings others : List Finding} (h : AddsOnly kinds findings others) :
    ProblemSet.AddsTo (.ofFindings findings) (.ofFindings others) kinds where
  problems := fun problem hproblem => by
    rw [ProblemSet.mem_problems_ofFindings] at hproblem ⊢
    exact hproblem.imp fun location hmem => h.sublist.subset hmem
  holds := fun problem location hholds => by
    rw [ProblemSet.holds_ofFindings] at hholds ⊢
    exact h.sublist.subset hholds
  added := fun problem location hholds hnew => by
    rw [ProblemSet.holds_ofFindings] at hholds hnew
    by_contra hkind
    have hmem : (problem, location) ∈ others.filter fun finding => finding.1.kind ∉ kinds :=
      List.mem_filter.2 ⟨hholds, decide_eq_true hkind⟩
    rw [h.others] at hmem
    exact hnew (List.mem_filter.1 hmem).1
  others := by
    have hfiltered := ProblemSet.entries_ofFindings_filter fun problem => problem.kind ∉ kinds
    rw [← hfiltered, ← hfiltered, h.others]

end AddsOnly

/-- Looking at generic signatures as well only adds what is said of the types in them. -/
theorem fullyCompared_checkGenericSignatures (classpath : Classpath) (options : Options) :
    FullyCompared (AddsOnly ["ClassNotFound", "FailedToReadClass"])
      ⟨classpath, { options with checkGenericSignatures := false }⟩
      ⟨classpath, { options with checkGenericSignatures := true }⟩ where
  classpath := .refl classpath
  nil := .refl []
  append := AddsOnly.append
  unconditional := fun _ _ => .refl _
  unresolved := fun _ _ _ => .refl _
  signatures := fun _ => AddsOnly.nil_of_kinds fun _ => kind_of_mem_signatureProblems
  implementations := fun _ _ => .refl _

end LinkContext

/-- What is reported with some packages ignored is what is reported with none ignored, except that
nothing calls a class of these packages absent. Where implementations are not asked for, just the methods
that are not implemented go unreported. Looking at generic signatures as well keeps all that is reported,
and what it adds are classes that are not found or cannot be read. -/
theorem verify_options_filter (plugin classpath : Classpath) (options : Options) :
    (verify plugin classpath options).entries =
        (verify plugin classpath { options with ignoredPackages := [] }).entries.filter
          (fun entry => !options.silences entry.1) ∧
      (verify plugin classpath { options with checkMethodImplementation := false }).entries =
        (verify plugin classpath { options with checkMethodImplementation := true }).entries.filter
          (fun entry => entry.1.kind ≠ "MethodNotImplemented") ∧
      ProblemSet.AddsTo (verify plugin classpath { options with checkGenericSignatures := false })
        (verify plugin classpath { options with checkGenericSignatures := true })
        ["ClassNotFound", "FailedToReadClass"] := by
  refine ⟨?_, ?_, ?_⟩
  · rw [verify, verify, ← ProblemSet.entries_ofFindings_filter fun problem => !options.silences problem,
      ← (LinkContext.fullyCompared_ignoredPackages classpath options).findings plugin]
  · rw [verify, verify, ← ProblemSet.entries_ofFindings_filter fun problem =>
        decide (problem.kind ≠ "MethodNotImplemented"),
      ← (LinkContext.fullyCompared_checkMethodImplementation classpath options).findings plugin]
  · exact ((LinkContext.fullyCompared_checkGenericSignatures classpath options).findings plugin
      _).addsTo

end LinkCheck
