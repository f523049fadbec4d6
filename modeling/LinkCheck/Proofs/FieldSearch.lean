import LinkCheck.Proofs.OwnNames
import LinkCheck.Proofs.PlainClasses
import LinkCheck.Proofs.Supertypes

/-!
# Fields are found as by a plain search

The classes in which a field is looked for are gone through in one walk that knows a class by its name and
goes to each at most once. Where every class stands under its own name and none is its own supertype, the
answer is that of the plain search, which goes from a class to its interfaces and then to its superclass, and
knows nothing of where it has been. As it may go in circles, it is given a number of steps up; where it ends,
it ends in the same way with any greater number.

## Main definitions

- `Classpath.searchField` — the plain search
- `Classpath.Ends` — how it ends
- `Classpath.Sifted` — a walk has searched the names it has seen, or is on the way up from them

## Main results

- `Classpath.settled_walk` — a walk over some names ends as the plain search, or goes on to the names behind
- `Classpath.resolveField_plain` — both searches give the same answer
-/

namespace LinkCheck

open Relation

/-- What the end of a search says. -/
def Resolution.ofSearch {α : Type} : Except Unresolved (Option α) → Resolution α
  | .ok (some member) => found member
  | .ok none => notFound
  | .error unresolved => incomplete unresolved

namespace Classpath

/-- Looks for a field in a class, then in each interface that it names, and then in its superclass, in all of
them in the same way. The search fails at the first class that cannot be loaded. It has no result where it
would go up from class to class for more than the given number of steps. -/
def searchField (classpath : Classpath) (name descriptor : String) :
    Nat → ClassDefinition → ExceptT Unresolved Option (Option ResolvedField)
  | 0, _ => .mk none
  | steps + 1, definition =>
    match definition.findField? name descriptor with
    | some field => return some ⟨definition, field⟩
    | none => definition.supertypes.findSomeM? fun supertype => do
        let parent ← MonadExcept.ofExcept (classpath.load supertype)
        classpath.searchField name descriptor steps parent

variable {classpath : Classpath} {name descriptor : String} {definition : ClassDefinition}
  {supertype : ClassName} {seen names rest : List ClassName}
  {outcome : Except Unresolved (Option ResolvedField)}

-- ════════════════════════════════════════════════════════════════════════
-- The plain search
-- ════════════════════════════════════════════════════════════════════════

/-- The plain search in the named classes, one after the other. -/
def searchNames (classpath : Classpath) (name descriptor : String) (steps : Nat)
    (names : List ClassName) : ExceptT Unresolved Option (Option ResolvedField) :=
  names.findSomeM? fun supertype => do
    let parent ← MonadExcept.ofExcept (classpath.load supertype)
    classpath.searchField name descriptor steps parent

/-- The plain search in a class ends, and more steps do not change how. -/
def Ends (classpath : Classpath) (name descriptor : String) (definition : ClassDefinition)
    (outcome : Except Unresolved (Option ResolvedField)) : Prop :=
  ∃ steps, ∀ more ≥ steps, classpath.searchField name descriptor more definition = some outcome

/-- The plain search in the named classes ends, and more steps do not change how. -/
def EndsAmong (classpath : Classpath) (name descriptor : String) (names : List ClassName)
    (outcome : Except Unresolved (Option ResolvedField)) : Prop :=
  ∃ steps, ∀ more ≥ steps, classpath.searchNames name descriptor more names = some outcome

/-- The plain search in a named class ends and finds nothing. -/
def Clear (classpath : Classpath) (name descriptor : String) (supertype : ClassName) : Prop :=
  ∃ definition, classpath.load supertype = .ok definition ∧
    classpath.Ends name descriptor definition (.ok none)

theorem ends_of_declared {field : FieldDefinition}
    (h : definition.findField? name descriptor = some field) :
    classpath.Ends name descriptor definition (.ok (some ⟨definition, field⟩)) := by
  refine ⟨1, fun more hmore => ?_⟩
  obtain ⟨steps, rfl⟩ := Nat.exists_eq_add_of_le' hmore
  rw [searchField, h]
  rfl

theorem EndsAmong.ends (h : classpath.EndsAmong name descriptor definition.supertypes outcome)
    (hfield : definition.findField? name descriptor = none) :
    classpath.Ends name descriptor definition outcome := by
  obtain ⟨steps, hsteps⟩ := h
  refine ⟨steps + 1, fun more hmore => ?_⟩
  obtain ⟨fewer, rfl⟩ : ∃ fewer, more = fewer + 1 := ⟨more - 1, by omega⟩
  rw [searchField, hfield]
  exact hsteps fewer (by omega)

theorem endsAmong_nil : classpath.EndsAmong name descriptor [] (.ok none) :=
  ⟨0, fun _ _ => rfl⟩

theorem endsAmong_of_error {unresolved : Unresolved}
    (h : classpath.load supertype = .error unresolved) :
    classpath.EndsAmong name descriptor (supertype :: rest) (.error unresolved) := by
  refine ⟨0, fun more _ => ?_⟩
  rw [searchNames, List.findSomeM?_cons, h]
  rfl

/-- The named classes are searched until one decides the search. -/
theorem searchNames_of_ok {steps : Nat} (hload : classpath.load supertype = .ok definition)
    (h : classpath.searchField name descriptor steps definition = some outcome) :
    classpath.searchNames name descriptor steps (supertype :: rest) =
      if outcome = .ok none then classpath.searchNames name descriptor steps rest
      else some outcome := by
  have hfirst : (do
      let parent ← MonadExcept.ofExcept (classpath.load supertype)
      classpath.searchField name descriptor steps parent : ExceptT Unresolved Option _) =
        some outcome := by
    rw [hload, ← h]
    rfl
  rw [searchNames, List.findSomeM?_cons, hfirst]
  obtain unresolved | _ | field := outcome
  · rw [if_neg (by simp)]
    rfl
  · rw [if_pos rfl]
    rfl
  · rw [if_neg (by simp)]
    rfl

theorem Ends.endsAmong (h : classpath.Ends name descriptor definition outcome)
    (hload : classpath.load supertype = .ok definition) (hends : outcome ≠ .ok none) :
    classpath.EndsAmong name descriptor (supertype :: rest) outcome := by
  obtain ⟨steps, hsteps⟩ := h
  refine ⟨steps, fun more hmore => ?_⟩
  rw [searchNames_of_ok hload (hsteps more hmore), if_neg hends]

theorem Clear.endsAmong_cons (h : classpath.Clear name descriptor supertype)
    (hrest : classpath.EndsAmong name descriptor rest outcome) :
    classpath.EndsAmong name descriptor (supertype :: rest) outcome := by
  obtain ⟨definition, hload, first, hfirst⟩ := h
  obtain ⟨steps, hsteps⟩ := hrest
  refine ⟨max first steps, fun more hmore => ?_⟩
  rw [searchNames_of_ok hload (hfirst more (by omega)), if_pos rfl]
  exact hsteps more (by omega)

-- ════════════════════════════════════════════════════════════════════════
-- Both searches side by side
-- ════════════════════════════════════════════════════════════════════════

/-- A name stands among the supertypes of a class, or of a class above it. -/
def Above (classpath : Classpath) (definition : ClassDefinition) (supertype : ClassName) : Prop :=
  ∃ last, ReflTransGen classpath.Supertype definition last ∧ supertype ∈ last.supertypes

theorem Above.next {parent : ClassDefinition} {other : ClassName}
    (h : classpath.Above definition supertype) (hload : classpath.load supertype = .ok parent)
    (hother : other ∈ parent.supertypes) : classpath.Above definition other := by
  obtain ⟨last, hreached, hnamed⟩ := h
  exact ⟨parent, hreached.tail ⟨supertype, hnamed, hload⟩, hother⟩

theorem Acyclic.not_above (hacyclic : classpath.Acyclic)
    (hload : classpath.load supertype = .ok definition) : ¬classpath.Above definition supertype := by
  rintro ⟨last, hreached, hnamed⟩
  exact hacyclic definition (.tail' hreached ⟨supertype, hnamed, hload⟩)

/-- Each name that a walk has seen is done with and has not given the field, or the walk is still on the way
up from it, so that the names to come next stand above it. -/
def Sifted (classpath : Classpath) (name descriptor : String) (seen names : List ClassName) : Prop :=
  ∀ each ∈ seen, classpath.Clear name descriptor each ∨
    ∃ definition, classpath.load each = .ok definition ∧ ∀ other ∈ names, classpath.Above definition other

theorem Sifted.clear (hacyclic : classpath.Acyclic)
    (h : classpath.Sifted name descriptor seen (supertype :: rest)) (hseen : supertype ∈ seen) :
    classpath.Clear name descriptor supertype := by
  obtain hclear | ⟨definition, hload, habove⟩ := h supertype hseen
  · exact hclear
  · exact absurd (habove supertype List.mem_cons_self) (hacyclic.not_above hload)

theorem Sifted.enter (h : classpath.Sifted name descriptor seen (supertype :: rest))
    (hload : classpath.load supertype = .ok definition) :
    classpath.Sifted name descriptor (supertype :: seen) definition.supertypes := by
  intro each heach
  obtain rfl | hseen := List.mem_cons.1 heach
  · exact .inr ⟨definition, hload, fun other hother => ⟨definition, .refl, hother⟩⟩
  · refine (h each hseen).imp_right ?_
    rintro ⟨first, hfirst, habove⟩
    exact ⟨first, hfirst, fun other => (habove supertype List.mem_cons_self).next hload⟩

/-- Going on with further names that are done with. -/
theorem Sifted.later {later : List ClassName}
    (h : classpath.Sifted name descriptor seen (supertype :: rest))
    (hlater : ∀ each ∈ later, each ∈ seen ∨ classpath.Clear name descriptor each) :
    classpath.Sifted name descriptor later rest := by
  intro each heach
  obtain hseen | hclear := hlater each heach
  · refine (h each hseen).imp_right ?_
    rintro ⟨first, hfirst, habove⟩
    exact ⟨first, hfirst, fun other hother => habove other (.tail _ hother)⟩
  · exact .inl hclear

/-- How a walk over some names, behind which others are pending, goes with what the plain search in these
names has found. -/
inductive Settled (classpath : Classpath) (name descriptor : String) (seen names rest : List ClassName) :
    Except Unresolved (Option ResolvedField) → Prop
  /-- The search ends among the names, and the answer of the walk is fixed. -/
  | decided {outcome : Except Unresolved (Option ResolvedField)} (ends : outcome ≠ .ok none)
      (answer : fieldAnswer name descriptor (classpath.fieldWalk seen (names ++ rest)) =
        .ofSearch outcome) : Settled classpath name descriptor seen names rest outcome
  /-- The names do not have the field, and the walk goes on behind them. -/
  | passed {later : List ClassName} (grows : seen ⊆ later)
      (clear : ∀ each ∈ later, each ∈ seen ∨ classpath.Clear name descriptor each)
      (answer : fieldAnswer name descriptor (classpath.fieldWalk seen (names ++ rest)) =
        fieldAnswer name descriptor (classpath.fieldWalk later rest)) :
      Settled classpath name descriptor seen names rest (.ok none)

/-- A walk that goes on with fewer names and further ones seen is settled as what is left of it. -/
theorem Settled.resume {later others : List ClassName} (hgrows : seen ⊆ later)
    (hclear : ∀ each ∈ later, each ∈ seen ∨ classpath.Clear name descriptor each)
    (hanswer : fieldAnswer name descriptor (classpath.fieldWalk seen (names ++ rest)) =
      fieldAnswer name descriptor (classpath.fieldWalk later (others ++ rest)))
    (h : classpath.Settled name descriptor later others rest outcome) :
    classpath.Settled name descriptor seen names rest outcome := by
  cases h with
  | decided hends hfixed => exact .decided hends (hanswer.trans hfixed)
  | @passed last hlast hnone hfixed =>
    refine .passed (List.Subset.trans hgrows hlast) (fun each heach => ?_) (hanswer.trans hfixed)
    obtain hlater | hdone := hnone each heach
    · exact hclear each hlater
    · exact .inr hdone

theorem unseen_le_of_subset {later : List ClassName} (h : seen ⊆ later) :
    classpath.unseen later ≤ classpath.unseen seen := by
  apply List.Sublist.length_le
  apply List.monotone_filter_right
  intro each heach
  simp only [decide_eq_true_eq] at heach ⊢
  exact fun hseen => heach (h hseen)

/-- Where every class stands under its own name and none is its own supertype, the plain search in some names
ends, and the walk over them goes with it. -/
theorem settled_walk (hnamed : classpath.OwnNames) (hacyclic : classpath.Acyclic)
    (hsifted : classpath.Sifted name descriptor seen names) (rest : List ClassName) :
    ∃ outcome, classpath.EndsAmong name descriptor names outcome ∧
      classpath.Settled name descriptor seen names rest outcome := by
  induction hcount : classpath.unseen seen using Nat.strong_induction_on generalizing seen names rest
  next count outer =>
  subst hcount
  induction names with
  | nil => exact ⟨.ok none, endsAmong_nil, .passed (List.Subset.refl seen) (fun _ => .inl) rfl⟩
  | cons supertype others inner =>
    cases hload : classpath.load supertype with
    | error unresolved =>
      refine ⟨.error unresolved, endsAmong_of_error hload, .decided (by simp) ?_⟩
      rw [List.cons_append, fieldWalk_cons_of_error hload]
      rfl
    | ok definition =>
      have hname := hnamed supertype definition hload
      by_cases hseen : supertype ∈ seen
      · have hclear := hsifted.clear hacyclic hseen
        obtain ⟨outcome, hsearch, hsettled⟩ :=
          inner (hsifted.later fun _ => .inl)
        refine ⟨outcome, hclear.endsAmong_cons hsearch,
          hsettled.resume (List.Subset.refl seen) (fun _ => .inl) ?_⟩
        rw [List.cons_append, fieldWalk_cons_of_mem hload (hname ▸ hseen)]
      · have hwalk : classpath.fieldWalk seen (supertype :: (others ++ rest)) = _ :=
          fieldWalk_cons_of_ok hload (hname.symm ▸ hseen)
        rw [hname] at hwalk
        cases hfield : definition.findField? name descriptor with
        | some field =>
          refine ⟨.ok (some ⟨definition, field⟩), (ends_of_declared hfield).endsAmong hload (by simp),
            .decided (by simp) ?_⟩
          rw [List.cons_append, hwalk, fieldAnswer_after_of_declared hfield]
          rfl
        | none =>
          have hstep := fieldAnswer_after_of_not_declared hfield
            (classpath.fieldWalk (supertype :: seen) (definition.supertypes ++ (others ++ rest)))
          rw [← hwalk, ← List.cons_append] at hstep
          have hfewer := unseen_cons_lt (mem_names_of_load hload) hseen
          obtain ⟨inner, hinner, hsettled⟩ :=
            outer _ hfewer (hsifted.enter hload) (others ++ rest) rfl
          have hsearch := hinner.ends hfield
          cases hsettled with
          | decided hends hfixed =>
            exact ⟨inner, hsearch.endsAmong hload hends, .decided hends (hstep.trans hfixed)⟩
          | @passed later hgrows hdone hfixed =>
            have hclear : classpath.Clear name descriptor supertype := ⟨definition, hload, hsearch⟩
            have hgrows' := List.Subset.trans (List.subset_cons_self supertype seen) hgrows
            have hlater : ∀ each ∈ later, each ∈ seen ∨ classpath.Clear name descriptor each := by
              intro each heach
              obtain hentered | hdone := hdone each heach
              · obtain rfl | hseen := List.mem_cons.1 hentered
                · exact .inr hclear
                · exact .inl hseen
              · exact .inr hdone
            obtain ⟨outcome, hothers, hsettled⟩ :=
              outer _ ((unseen_le_of_subset hgrows).trans_lt hfewer) (hsifted.later hlater) rest rfl
            exact ⟨outcome, hclear.endsAmong_cons hothers,
              hsettled.resume hgrows' hlater (hstep.trans hfixed)⟩

/-- The plain search in a class that the classpath gives ends as the walk. -/
theorem exists_ends (hnamed : classpath.OwnNames) (hacyclic : classpath.Acyclic) {owner : ClassDefinition}
    (howner : classpath.load owner.name = .ok owner) (name descriptor : String) :
    ∃ outcome, classpath.Ends name descriptor owner outcome ∧
      classpath.resolveField owner name descriptor = .ofSearch outcome := by
  rw [resolveField_eq_fieldAnswer, fieldTrail]
  cases hfield : owner.findField? name descriptor with
  | some field => exact ⟨_, ends_of_declared hfield, fieldAnswer_after_of_declared hfield _⟩
  | none =>
    have hsifted : classpath.Sifted name descriptor [owner.name] owner.supertypes := by
      intro each heach
      rw [List.mem_singleton.1 heach]
      exact .inr ⟨owner, howner, fun other hother => ⟨owner, .refl, hother⟩⟩
    obtain ⟨outcome, hsearch, hsettled⟩ := settled_walk hnamed hacyclic hsifted []
    refine ⟨outcome, hsearch.ends hfield, ?_⟩
    rw [fieldAnswer_after_of_not_declared hfield, ← List.append_nil owner.supertypes]
    cases hsettled with
    | decided _ hanswer => exact hanswer
    | passed _ _ hanswer =>
      rw [hanswer, fieldWalk_nil]
      rfl

/-- Where no class is its own supertype, the plain search, which remembers nothing, ends, and a field is
found, is not found or cannot be looked for further just as it says. Classes have to stand under their own
names, as they do in all that sources hold (`ClassSource.OwnNames.flat`): of two classes with one name only
the first would be searched. -/
theorem resolveField_plain (classpath : Classpath) (hnamed : classpath.OwnNames)
    (hacyclic : classpath.Acyclic) (owner : ClassDefinition) (howner : classpath.load owner.name = .ok owner)
    (name descriptor : String) :
    ∃ steps, ∀ more ≥ steps,
      (classpath.searchField name descriptor more owner).run.map Resolution.ofSearch =
        some (classpath.resolveField owner name descriptor) := by
  obtain ⟨outcome, ⟨steps, hsteps⟩, hanswer⟩ := exists_ends hnamed hacyclic howner name descriptor
  refine ⟨steps, fun more hmore => ?_⟩
  rw [hsteps more hmore, hanswer]
  rfl

def diamondField : FieldDefinition where
  name := "size"
  descriptor := "I"
  type := .base .int
  flags := ⟨0x0004⟩
  signatureClasses := []

def diamondBase : ClassDefinition :=
  { ClassDefinition.plain ⟨"q/Base"⟩ ⟨"q/Lost"⟩ with fields := [diamondField] }

def diamondOwner : ClassDefinition :=
  { ClassDefinition.plain ⟨"q/Shape"⟩ diamondBase.name with interfaces := [⟨"q/Left"⟩, ⟨"q/Right"⟩] }

/-- Two interfaces that extend the same third one, a class with both of them, and a superclass of it whose own
superclass is not there. -/
def diamond : Classpath :=
  .ofClasses [
    { ClassDefinition.plain .object .object with superName := none }, .plain ⟨"q/Top"⟩ .object,
    { ClassDefinition.plain ⟨"q/Left"⟩ .object with interfaces := [⟨"q/Top"⟩] },
    { ClassDefinition.plain ⟨"q/Right"⟩ .object with interfaces := [⟨"q/Top"⟩] },
    diamondBase, diamondOwner ]

/-- The height of a class in the diamond. -/
def diamondRank (name : ClassName) : Nat :=
  [.object, ⟨"q/Top"⟩, ⟨"q/Left"⟩, ⟨"q/Right"⟩, ⟨"q/Lost"⟩, ⟨"q/Base"⟩, ⟨"q/Shape"⟩].idxOf name

/-- A field of the superclass is found behind the interfaces, of which the shared one is met twice. For a field
that no class has, the search ends at the class that is not there. -/
theorem resolveField_plain_diamond :
    diamond.OwnNames ∧ diamond.Acyclic ∧ diamond.load diamondOwner.name = .ok diamondOwner ∧
      (∃ steps, ∀ more ≥ steps,
        (diamond.searchField "size" "I" more diamondOwner).run.map Resolution.ofSearch =
          some (.found ⟨diamondBase, diamondField⟩)) ∧
      ∃ steps, ∀ more ≥ steps,
        (diamond.searchField "gone" "I" more diamondOwner).run.map Resolution.ofSearch =
          some (.incomplete ⟨⟨"q/Lost"⟩, none⟩) := by
  have hnamed : diamond.OwnNames := fun _ _ => name_of_load_ofClasses
  have hacyclic : diamond.Acyclic := acyclic_of_rank diamondRank (by decide +kernel)
  have howner : diamond.load diamondOwner.name = .ok diamondOwner := rfl
  have hsize : diamond.resolveField diamondOwner "size" "I" = .found ⟨diamondBase, diamondField⟩ := by
    decide +kernel
  have hgone : diamond.resolveField diamondOwner "gone" "I" = .incomplete ⟨⟨"q/Lost"⟩, none⟩ := by
    decide +kernel
  rw [← hsize, ← hgone]
  exact ⟨hnamed, hacyclic, howner,
    resolveField_plain diamond hnamed hacyclic diamondOwner howner "size" "I",
    resolveField_plain diamond hnamed hacyclic diamondOwner howner "gone" "I"⟩

end Classpath

end LinkCheck
