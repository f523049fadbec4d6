import LinkCheck.Proofs.FieldSearch
import LinkCheck.Proofs.OwnNames
import Mathlib.Data.List.Flatten

/-!
# Walks over supertypes end

Superclasses, superinterfaces and fields are looked for in loops that go on until nothing is left to go to.
Each loop is given here a number of rounds, and has no result when they are used up. On every classpath there
is a number of rounds that is enough, whatever the classes name as their supertypes, and with any greater
number the loop ends in the same way: as the walk that counts names not seen so far, or classes not met.

## Main definitions

- `EndsWithin` — a loop ends within a number of rounds
- `Classpath.climb`, `Classpath.gather`, `Classpath.seek`, `Classpath.seekField` — the loops
- `Classpath.interfacesLeft` — what is left to go to

## Main results

- `Classpath.climb_eq`, `Classpath.gather_eq` — superclasses and interfaces are found as by walks
- `Classpath.endsWithin_seek`, `Classpath.exists_seekField` — looking for a class and for a field ends as by walks
- `Classpath.superinterfaces_isOk_iff` — when all interfaces of a class are found
-/

namespace LinkCheck

open Relation

/-- A loop that is given a number of rounds ends, and more rounds do not change how. -/
def EndsWithin {α : Type} (limit : Nat) (loop : Nat → Option α) (outcome : α) : Prop :=
  ∀ rounds ≥ limit, loop rounds = some outcome

namespace EndsWithin

variable {α : Type} {limit : Nat} {loop : Nat → Option α} {outcome : α}

theorem mono {more : Nat} (h : EndsWithin limit loop outcome) (hmore : limit ≤ more) :
    EndsWithin more loop outcome :=
  fun rounds hrounds => h rounds (hmore.trans hrounds)

theorem succ (h : EndsWithin limit (fun rounds => loop (rounds + 1)) outcome) :
    EndsWithin (limit + 1) loop outcome := by
  intro rounds hrounds
  obtain ⟨fewer, rfl⟩ : ∃ fewer, rounds = fewer + 1 := ⟨rounds - 1, by omega⟩
  exact h fewer (by omega)

end EndsWithin

theorem Trail.complete_after (trail : Trail) (definition : ClassDefinition) :
    (trail.after definition).complete = (definition :: ·) <$> trail.complete := by
  cases trail with
  | mk loaded stopped => cases stopped <;> rfl

namespace Classpath

variable {classpath : Classpath} {owner definition : ClassDefinition} {name : ClassName}
  {seen later pending : List ClassName} {rounds : Nat}

/-- Goes from a class to its superclass and puts it at the end of a chain, until there is none or it has been
seen. -/
def climb (classpath : Classpath) : Nat → List ClassName → List ClassDefinition → ClassDefinition →
    ExceptT Unresolved Option (List ClassDefinition)
  | 0, _, _, _ => .mk none
  | rounds + 1, seen, chain, current =>
    match current.superName with
    | none => return chain
    | some superName =>
      if superName ∈ seen then return chain
      else do
        let parent ← MonadExcept.ofExcept (classpath.load superName)
        classpath.climb rounds (superName :: seen) (chain ++ [parent]) parent

theorem climb_eq (h : classpath.unseen seen < rounds) (chain : List ClassDefinition)
    (current : ClassDefinition) :
    classpath.climb rounds seen chain current = some ((chain ++ ·) <$>
      (classpath.walk (fun definition _ => definition.superName.toList) seen
        current.superName.toList).complete) := by
  induction rounds generalizing seen chain current with
  | zero => omega
  | succ rounds ih =>
    rw [climb]
    cases hsuper : current.superName with
    | none =>
      rw [Option.toList_none, walk_nil]
      exact congrArg (fun list => some (Except.ok list)) (List.append_nil chain).symm
    | some superName =>
      dsimp only
      rw [Option.toList_some]
      by_cases hseen : superName ∈ seen
      · rw [if_pos hseen, walk_cons_of_mem hseen, walk_nil]
        exact congrArg (fun list => some (Except.ok list)) (List.append_nil chain).symm
      · rw [if_neg hseen]
        cases hload : classpath.load superName with
        | error unresolved =>
          rw [walk_cons_of_error hseen hload]
          rfl
        | ok parent =>
          have hfewer := unseen_cons_lt (mem_names_of_load hload) hseen
          have hrest := ih (hfewer.trans_le (Nat.le_of_lt_succ h)) (chain ++ [parent]) parent
          rw [walk_cons_of_ok hseen hload, Trail.complete_after]
          refine hrest.trans ?_
          rw [Functor.map_map]
          simp only [List.append_assoc, List.singleton_append]

/-- The superclasses of a class are found in as many rounds as there are names, and one to end. -/
theorem endsWithin_climb (classpath : Classpath) (owner : ClassDefinition) :
    EndsWithin (classpath.names.length + 1)
      (fun rounds => classpath.climb rounds [owner.name] [owner] owner)
      (classpath.classChain owner).complete := by
  intro rounds hrounds
  have hunseen : classpath.unseen [owner.name] ≤ classpath.names.length := List.length_filter_le _ _
  dsimp only
  rw [climb_eq (by omega), classChain, Trail.complete_after]
  rfl

/-- The interfaces that the class with a name names. -/
def interfacesOf (classpath : Classpath) (name : ClassName) : List ClassName :=
  (classpath.load name).toOption.elim [] ClassDefinition.interfaces

/-- How many interfaces are named by classes whose names have not been seen. -/
def interfacesLeft (classpath : Classpath) (seen : List ClassName) : Nat :=
  ((classpath.names.filter (· ∉ seen)).flatMap classpath.interfacesOf).length

theorem interfacesLeft_le (classpath : Classpath) (seen : List ClassName) :
    classpath.interfacesLeft seen ≤ (classpath.names.flatMap classpath.interfacesOf).length :=
  (List.filter_sublist.flatMap classpath.interfacesOf).length_le

/-- The interfaces of a class are counted off when its name is seen for the first time. -/
theorem interfacesLeft_cons (hload : classpath.load name = .ok definition) (hfresh : name ∉ seen) :
    classpath.interfacesLeft (name :: seen) + definition.interfaces.length ≤
      classpath.interfacesLeft seen := by
  have hsublist : (classpath.names.filter (· ∉ name :: seen)).Sublist
      (classpath.names.filter (· ∉ seen)) := by
    apply List.monotone_filter_right
    intro other hother
    simp only [List.mem_cons, not_or, decide_eq_true_eq] at hother ⊢
    exact hother.2
  have hname : name ∈ classpath.names.filter (· ∉ seen) :=
    List.mem_filter.2 ⟨mem_names_of_load hload, by simpa using hfresh⟩
  have hrest := hsublist.erase name
  rw [List.erase_of_not_mem (by simp)] at hrest
  have hle := (hrest.flatMap classpath.interfacesOf).length_le
  have hall := ((List.perm_cons_erase hname).flatMap_right classpath.interfacesOf).length_eq
  have hinterfaces : classpath.interfacesOf name = definition.interfaces := by
    rw [interfacesOf, hload]
    rfl
  rw [List.flatMap_cons, List.length_append, hinterfaces] at hall
  unfold interfacesLeft
  omega

/-- Goes through a list of names and loads those that have not been seen. The interfaces of each class that is
loaded are put at the end of the list. -/
def gather (classpath : Classpath) : Nat → Nat → List ClassName → List ClassName →
    List ClassDefinition → ExceptT Unresolved Option (List ClassDefinition)
  | 0, _, _, _, _ => .mk none
  | rounds + 1, index, pending, seen, interfaces =>
    match pending[index]? with
    | none => return interfaces
    | some name =>
      if name ∈ seen then classpath.gather rounds (index + 1) pending seen interfaces
      else do
        let interface ← MonadExcept.ofExcept (classpath.load name)
        classpath.gather rounds (index + 1) (pending ++ interface.interfaces) (name :: seen)
          (interfaces ++ [interface])

theorem gather_eq {index : Nat}
    (h : pending.length - index + classpath.interfacesLeft seen < rounds)
    (interfaces : List ClassDefinition) :
    classpath.gather rounds index pending seen interfaces = some ((interfaces ++ ·) <$>
      (classpath.walk (fun definition rest => rest ++ definition.interfaces) seen
        (pending.drop index)).complete) := by
  induction rounds generalizing index pending seen interfaces with
  | zero => omega
  | succ rounds ih =>
    rw [gather]
    cases hname : pending[index]? with
    | none =>
      rw [List.drop_eq_nil_of_le (List.getElem?_eq_none_iff.1 hname), walk_nil]
      exact congrArg (fun list => some (Except.ok list)) (List.append_nil interfaces).symm
    | some name =>
      obtain ⟨hindex, rfl⟩ := List.getElem?_eq_some_iff.1 hname
      dsimp only
      rw [List.drop_eq_getElem_cons hindex]
      by_cases hseen : pending[index] ∈ seen
      · rw [if_pos hseen, walk_cons_of_mem hseen]
        exact ih (by omega) interfaces
      · rw [if_neg hseen]
        cases hload : classpath.load pending[index] with
        | error unresolved =>
          rw [walk_cons_of_error hseen hload]
          rfl
        | ok interface =>
          have hcounted := interfacesLeft_cons hload hseen
          have hrest := @ih (pending[index] :: seen) (pending ++ interface.interfaces) (index + 1)
            (by rw [List.length_append]; omega) (interfaces ++ [interface])
          rw [List.drop_append_of_le_length hindex] at hrest
          rw [walk_cons_of_ok hseen hload, Trail.complete_after]
          refine hrest.trans ?_
          rw [Functor.map_map]
          simp only [List.append_assoc, List.singleton_append]

/-- Finds the superclasses of a class, and then the interfaces that they name and all that these extend. -/
def gatherFrom (classpath : Classpath) (rounds : Nat) (owner : ClassDefinition) :
    ExceptT Unresolved Option (List ClassDefinition) := do
  let chain ← classpath.climb rounds [owner.name] [owner] owner
  classpath.gather rounds 0 (chain.flatMap ClassDefinition.interfaces) [] []

/-- A walk loads classes with no more interfaces than are left. -/
theorem length_interfaces_walk (classpath : Classpath)
    (enqueue : ClassDefinition → List ClassName → List ClassName) (seen pending : List ClassName) :
    ((classpath.walk enqueue seen pending).loaded.flatMap ClassDefinition.interfaces).length ≤
      classpath.interfacesLeft seen := by
  fun_induction walk classpath enqueue seen pending with
  | case1 | case2 => exact Nat.zero_le _
  | case3 seen pending name rest hpending definition hload ih =>
    have hcounted := interfacesLeft_cons hload (not_mem_of_dropWhile_eq hpending)
    rw [Trail.after, List.flatMap_cons, List.length_append]
    omega

/-- The interfaces of a class are found in a number of rounds that can be told from the classpath. -/
theorem endsWithin_gatherFrom (classpath : Classpath) (owner : ClassDefinition) :
    EndsWithin (classpath.names.length + owner.interfaces.length +
        2 * (classpath.names.flatMap classpath.interfacesOf).length + 1)
      (fun rounds => classpath.gatherFrom rounds owner) (classpath.superinterfaces owner) := by
  intro rounds hrounds
  have hchain := classpath.endsWithin_climb owner rounds (by omega)
  dsimp only at hchain ⊢
  rw [gatherFrom, superinterfaces]
  cases hcomplete : (classpath.classChain owner).complete with
  | error unresolved =>
    rw [hcomplete] at hchain
    rw [hchain]
    rfl
  | ok chain =>
    rw [hcomplete] at hchain
    rw [hchain]
    obtain ⟨-, rfl⟩ := complete_eq_ok hcomplete
    have hwalk := classpath.length_interfaces_walk (fun definition _ => definition.superName.toList)
      [owner.name] owner.superName.toList
    have hlength : ((classpath.classChain owner).loaded.flatMap ClassDefinition.interfaces).length ≤
        owner.interfaces.length + classpath.interfacesLeft [owner.name] := by
      rw [classChain, Trail.after, List.flatMap_cons, List.length_append]
      omega
    have hpassed := classpath.interfacesLeft_le [owner.name]
    have hleft := classpath.interfacesLeft_le []
    refine (gather_eq (by omega) []).trans ?_
    rw [List.drop_zero]
    exact congrArg some (id_map _)

theorem unmet_le (classpath : Classpath) (seen : List ClassName) :
    classpath.unmet seen ≤ classpath.names.length :=
  List.length_filter_le _ _

theorem unmet_le_of_subset (h : seen ⊆ later) : classpath.unmet later ≤ classpath.unmet seen := by
  apply List.Sublist.length_le
  apply List.monotone_filter_right
  intro name hname
  simp only [Option.any_eq_true, decide_eq_true_eq] at hname ⊢
  obtain ⟨definition, hload, hlater⟩ := hname
  exact ⟨definition, hload, fun hseen => hlater (h hseen)⟩

/-- Goes up from a class until it has another name in front of it, there is no superclass, or a class comes up
for the second time. There is no answer if a superclass cannot be loaded. -/
def seek (classpath : Classpath) (ancestor : ClassName) :
    Nat → List ClassName → ClassDefinition → Option (Option Bool)
  | 0, _, _ => none
  | rounds + 1, seen, current =>
    if current.name = ancestor then some (some true)
    else if current.name ∈ seen then some (some false)
    else
      match current.superName with
      | none => some (some false)
      | some superName =>
        if superName = ancestor then some (some true)
        else
          match classpath.load superName with
          | .error _ => some none
          | .ok parent => classpath.seek ancestor rounds (current.name :: seen) parent

/-- One round goes to a class of the classpath, or ends the loop. -/
theorem exists_seek_of_next {limit : Nat} {ancestor : ClassName} {current : ClassDefinition}
    (h : ∀ superName parent, classpath.load superName = .ok parent → ∃ answer, EndsWithin limit
      (fun rounds => classpath.seek ancestor rounds (current.name :: seen) parent) answer) :
    ∃ answer, EndsWithin (limit + 1)
      (fun rounds => classpath.seek ancestor rounds seen current) answer := by
  have hround : ∀ answer, (∀ rounds ≥ limit,
      classpath.seek ancestor (rounds + 1) seen current = some answer) →
      EndsWithin (limit + 1) (fun rounds => classpath.seek ancestor rounds seen current) answer :=
    fun _ hanswer => EndsWithin.succ hanswer
  simp only [seek] at hround
  by_cases hself : current.name = ancestor
  · exact ⟨some true, hround _ fun _ _ => by rw [if_pos hself]⟩
  · simp only [if_neg hself] at hround
    by_cases hmet : current.name ∈ seen
    · exact ⟨some false, hround _ fun _ _ => by rw [if_pos hmet]⟩
    · simp only [if_neg hmet] at hround
      cases hsuper : current.superName with
      | none => exact ⟨some false, hround _ fun _ _ => by rw [hsuper]⟩
      | some superName =>
        simp only [hsuper] at hround
        by_cases hfound : superName = ancestor
        · exact ⟨some true, hround _ fun _ _ => by rw [if_pos hfound]⟩
        · simp only [if_neg hfound] at hround
          cases hload : classpath.load superName with
          | error unresolved => exact ⟨none, hround _ fun _ _ => by rw [hload]⟩
          | ok parent =>
            simp only [hload] at hround
            obtain ⟨answer, hanswer⟩ := h superName parent hload
            exact ⟨answer, hround answer hanswer⟩

/-- Looking for a superclass from a class of the classpath ends. -/
theorem exists_seek_of_load {ancestor : ClassName} {current : ClassDefinition}
    (hload : classpath.load name = .ok current) :
    ∃ answer, EndsWithin (classpath.unmet seen + 1)
      (fun rounds => classpath.seek ancestor rounds seen current) answer := by
  induction hcount : classpath.unmet seen using Nat.strong_induction_on
    generalizing seen name current
  next count ih =>
  subst hcount
  by_cases hmet : current.name ∈ seen
  · by_cases hfound : current.name = ancestor
    · refine ⟨some true, .succ fun rounds _ => ?_⟩
      show classpath.seek ancestor (rounds + 1) seen current = some (some true)
      rw [seek, if_pos hfound]
    · refine ⟨some false, .succ fun rounds _ => ?_⟩
      show classpath.seek ancestor (rounds + 1) seen current = some (some false)
      rw [seek, if_neg hfound, if_pos hmet]
  · have hfewer := unmet_cons_lt hload hmet
    obtain ⟨answer, hanswer⟩ := exists_seek_of_next fun superName parent hparent =>
      ih _ hfewer hparent rfl
    exact ⟨answer, hanswer.mono (by omega)⟩

/-- A loop that ends has gone the way of the search that counts classes not met. -/
theorem answer_of_seek {ancestor : ClassName} {current : ClassDefinition} {answer : Option Bool}
    (h : classpath.seek ancestor rounds seen current = some answer) :
    answer =
      if current.name = ancestor then some true
      else if current.name ∈ seen then some false
      else classpath.hasAncestor ancestor (current.name :: seen) current := by
  induction rounds generalizing seen current with
  | zero => cases h
  | succ rounds ih =>
    rw [seek] at h
    by_cases hself : current.name = ancestor
    · rw [if_pos hself] at h ⊢
      exact (Option.some.inj h).symm
    · rw [if_neg hself] at h ⊢
      by_cases hmet : current.name ∈ seen
      · rw [if_pos hmet] at h ⊢
        exact (Option.some.inj h).symm
      · rw [if_neg hmet] at h ⊢
        rw [hasAncestor_unfold]
        cases hsuper : current.superName with
        | none =>
          simp only [hsuper] at h ⊢
          exact (Option.some.inj h).symm
        | some superName =>
          simp only [hsuper] at h ⊢
          by_cases hfound : superName = ancestor
          · rw [if_pos hfound] at h ⊢
            exact (Option.some.inj h).symm
          · rw [if_neg hfound] at h ⊢
            cases hload : classpath.load superName with
            | error unresolved =>
              simp only [hload] at h ⊢
              exact (Option.some.inj h).symm
            | ok parent =>
              simp only [hload] at h ⊢
              exact ih h

/-- Looking for a superclass ends in as many rounds as there are names, one for the class and one to end. -/
theorem endsWithin_seek (classpath : Classpath) (owner : ClassDefinition) (ancestor : ClassName) :
    EndsWithin (classpath.names.length + 2)
      (fun rounds => classpath.seek ancestor rounds [] owner)
      (classpath.isSubclassOf owner ancestor) := by
  obtain ⟨answer, hends⟩ : ∃ answer, EndsWithin (classpath.names.length + 2)
      (fun rounds => classpath.seek ancestor rounds [] owner) answer := by
    obtain ⟨answer, hanswer⟩ := exists_seek_of_next fun superName parent hparent =>
      exists_seek_of_load hparent
    have hunmet := classpath.unmet_le [owner.name]
    exact ⟨answer, hanswer.mono (by omega)⟩
  have hsame : answer = classpath.isSubclassOf owner ancestor := by
    rw [answer_of_seek (hends _ le_rfl), if_neg List.not_mem_nil]
    rfl
  rwa [← hsame]

/-- Looks for a field in a class, then in each interface that it names, and then in its superclass, in all of
them in the same way, unless a class comes up for the second time. All branches of the search share the names
that have been seen. -/
def seekField (classpath : Classpath) (field descriptor : String) :
    Nat → ClassDefinition →
      StateT (List ClassName) (ExceptT Unresolved Option) (Option ResolvedField)
  | 0, _ => StateT.lift (.mk none)
  | depth + 1, definition => do
    if definition.name ∈ (← get) then return none
    modify (definition.name :: ·)
    match definition.findField? field descriptor with
    | some found => return some ⟨definition, found⟩
    | none => definition.supertypes.findSomeM? fun supertype => do
        let parent ← MonadExcept.ofExcept (classpath.load supertype)
        classpath.seekField field descriptor depth parent

/-- The same search in the named classes, one after the other. -/
def seekNames (classpath : Classpath) (field descriptor : String) (depth : Nat)
    (names : List ClassName) :
    StateT (List ClassName) (ExceptT Unresolved Option) (Option ResolvedField) :=
  names.findSomeM? fun supertype => do
    let parent ← MonadExcept.ofExcept (classpath.load supertype)
    classpath.seekField field descriptor depth parent

/-- How a search ends: it fails, or it gives a field or nothing and the names that have been seen. -/
abbrev SearchEnd := Except Unresolved (Option ResolvedField × List ClassName)

/-- Goes on with a search that has given nothing so far. -/
def goOn (next : List ClassName → Option SearchEnd) : Option SearchEnd → Option SearchEnd
  | some (.ok (none, later)) => next later
  | ended => ended

section FieldRuns

variable {field descriptor : String} {depth : Nat} {supertype : ClassName} {rest : List ClassName}
  {parent : ClassDefinition}

theorem run_seekField_of_mem (h : definition.name ∈ seen) :
    (classpath.seekField field descriptor (depth + 1) definition).run seen =
      some (.ok (none, seen)) := by
  rw [seekField, StateT.run_bind, StateT.run_get, pure_bind, if_pos h]
  rfl

theorem run_seekField_of_declared {found : FieldDefinition} (h : definition.name ∉ seen)
    (hfield : definition.findField? field descriptor = some found) :
    (classpath.seekField field descriptor (depth + 1) definition).run seen =
      some (.ok (some ⟨definition, found⟩, definition.name :: seen)) := by
  rw [seekField, StateT.run_bind, StateT.run_get, pure_bind, if_neg h, hfield]
  rfl

theorem run_seekField_of_not_declared (h : definition.name ∉ seen)
    (hfield : definition.findField? field descriptor = none) :
    (classpath.seekField field descriptor (depth + 1) definition).run seen =
      (classpath.seekNames field descriptor depth definition.supertypes).run
        (definition.name :: seen) := by
  rw [seekField, StateT.run_bind, StateT.run_get, pure_bind, if_neg h, hfield]
  rfl

theorem run_seekNames_of_error {unresolved : Unresolved}
    (hload : classpath.load supertype = .error unresolved) :
    (classpath.seekNames field descriptor depth (supertype :: rest)).run seen =
      some (.error unresolved) := by
  rw [seekNames, List.findSomeM?_cons, hload]
  rfl

/-- A class among the names is searched before those behind it. -/
theorem run_seekNames_of_ok (hload : classpath.load supertype = .ok parent) :
    (classpath.seekNames field descriptor depth (supertype :: rest)).run seen =
      goOn (classpath.seekNames field descriptor depth rest).run
        ((classpath.seekField field descriptor depth parent).run seen) := by
  rw [seekNames, List.findSomeM?_cons, hload, StateT.run_bind]
  show ((classpath.seekField field descriptor depth parent).run seen >>= _) = _
  rcases (classpath.seekField field descriptor depth parent).run seen with
    _ | _ | ⟨_ | found, later⟩
  · rfl
  · rfl
  · rfl
  · rfl

/-- A search that is given a depth ends, and has forgotten no name if it gives nothing. -/
def Concludes (limit : Nat) (seen : List ClassName) (search : Nat → Option SearchEnd) : Prop :=
  ∃ outcome, EndsWithin limit search outcome ∧ ∀ later, outcome = .ok (none, later) → seen ⊆ later

theorem Concludes.goOn {limit : Nat} {search : Nat → Option SearchEnd}
    {next : Nat → List ClassName → Option SearchEnd} (h : Concludes limit seen search)
    (hnext : ∀ later, seen ⊆ later → Concludes limit later (next · later)) :
    Concludes limit seen fun depth => goOn (next depth) (search depth) := by
  obtain ⟨outcome, hends, hgrows⟩ := h
  have hgo : ∀ depth ≥ limit,
      Classpath.goOn (next depth) (search depth) = Classpath.goOn (next depth) (some outcome) :=
    fun depth hdepth => congrArg _ (hends depth hdepth)
  obtain unresolved | ⟨_ | found, later⟩ := outcome
  · exact ⟨.error unresolved, hgo, fun _ hlater => by cases hlater⟩
  · obtain ⟨final, hfinal, hlast⟩ := hnext later (hgrows later rfl)
    exact ⟨final, fun depth hdepth => (hgo depth hdepth).trans (hfinal depth hdepth),
      fun last hend => List.Subset.trans (hgrows later rfl) (hlast last hend)⟩
  · exact ⟨.ok (some found, later), hgo, fun _ hlater => by cases hlater⟩

/-- A class is searched one step deeper than its supertypes. -/
theorem concludes_seekField {limit : Nat} (h : definition.name ∉ seen →
      Concludes limit (definition.name :: seen) fun depth =>
        (classpath.seekNames field descriptor depth definition.supertypes).run
          (definition.name :: seen)) :
    Concludes (limit + 1) seen fun depth =>
      (classpath.seekField field descriptor depth definition).run seen := by
  by_cases hmet : definition.name ∈ seen
  · refine ⟨.ok (none, seen), .succ fun _ _ => run_seekField_of_mem hmet, fun later hlater => ?_⟩
    cases hlater
    exact List.Subset.refl seen
  · cases hfield : definition.findField? field descriptor with
    | some found =>
      exact ⟨_, .succ fun _ _ => run_seekField_of_declared hmet hfield, fun _ hlater => by cases hlater⟩
    | none =>
      obtain ⟨outcome, hends, hgrows⟩ := h hmet
      refine ⟨outcome, .succ fun depth hdepth => ?_, fun later hlater => ?_⟩
      · exact (run_seekField_of_not_declared hmet hfield).trans (hends depth hdepth)
      · exact List.Subset.trans (List.subset_cons_self _ _) (hgrows later hlater)

/-- Looking for a field among some names ends on every classpath. -/
theorem concludes_seekNames {limit : Nat} (h : classpath.unmet seen < limit)
    (names : List ClassName) :
    Concludes limit seen fun depth =>
      (classpath.seekNames field descriptor depth names).run seen := by
  induction limit generalizing seen names with
  | zero => omega
  | succ limit outer =>
    induction names generalizing seen with
    | nil =>
      refine ⟨.ok (none, seen), fun _ _ => rfl, fun later hlater => ?_⟩
      cases hlater
      exact List.Subset.refl seen
    | cons supertype rest inner =>
      cases hload : classpath.load supertype with
      | error unresolved =>
        exact ⟨.error unresolved, fun _ _ => run_seekNames_of_error hload,
          fun _ hlater => by cases hlater⟩
      | ok parent =>
        simp only [run_seekNames_of_ok hload]
        refine Concludes.goOn (concludes_seekField fun hfresh => ?_) fun later hlater => ?_
        · have hfewer := unmet_cons_lt hload hfresh
          exact outer (by omega) parent.supertypes
        · exact inner ((unmet_le_of_subset hlater).trans_lt h)

/-- How a walk over some names, behind which others are pending, goes with the end of a search in these
names. -/
inductive Sought (classpath : Classpath) (field descriptor : String) (seen names rest : List ClassName) :
    SearchEnd → Prop
  | failed {unresolved : Unresolved}
      (answer : fieldAnswer field descriptor (classpath.fieldWalk seen (names ++ rest)) =
        .incomplete unresolved) : Sought classpath field descriptor seen names rest (.error unresolved)
  | found {found : ResolvedField} {later : List ClassName}
      (answer : fieldAnswer field descriptor (classpath.fieldWalk seen (names ++ rest)) =
        .found found) : Sought classpath field descriptor seen names rest (.ok (some found, later))
  /-- The names do not have the field, and the walk goes on behind them. -/
  | passed {later : List ClassName}
      (answer : fieldAnswer field descriptor (classpath.fieldWalk seen (names ++ rest)) =
        fieldAnswer field descriptor (classpath.fieldWalk later rest)) :
      Sought classpath field descriptor seen names rest (.ok (none, later))

theorem Sought.resume {names others : List ClassName} {outcome : SearchEnd}
    (h : classpath.Sought field descriptor later others rest outcome)
    (hanswer : fieldAnswer field descriptor (classpath.fieldWalk seen (names ++ rest)) =
      fieldAnswer field descriptor (classpath.fieldWalk later (others ++ rest))) :
    classpath.Sought field descriptor seen names rest outcome := by
  cases h with
  | failed hfixed => exact .failed (hanswer.trans hfixed)
  | found hfixed => exact .found (hanswer.trans hfixed)
  | passed hfixed => exact .passed (hanswer.trans hfixed)

/-- A search in some names ends as the walk if a search in one of them does. -/
theorem sought_of_seekNames {outcome : SearchEnd}
    (hclass : ∀ {supertype parent seen outcome}, classpath.load supertype = .ok parent →
      (classpath.seekField field descriptor depth parent).run seen = some outcome →
      ∀ rest, classpath.Sought field descriptor seen [supertype] rest outcome)
    {names : List ClassName}
    (h : (classpath.seekNames field descriptor depth names).run seen = some outcome)
    (rest : List ClassName) : classpath.Sought field descriptor seen names rest outcome := by
  induction names generalizing seen outcome with
  | nil =>
    cases h
    exact .passed rfl
  | cons supertype others ih =>
    cases hload : classpath.load supertype with
    | error unresolved =>
      cases (run_seekNames_of_error hload).symm.trans h
      refine .failed ?_
      rw [List.cons_append, fieldWalk_cons_of_error hload]
      rfl
    | ok parent =>
      rw [run_seekNames_of_ok hload] at h
      cases hfirst : (classpath.seekField field descriptor depth parent).run seen with
      | none =>
        rw [hfirst] at h
        cases h
      | some first =>
        rw [hfirst] at h
        cases hclass hload hfirst (others ++ rest) with
        | failed hfixed =>
          cases h
          exact .failed hfixed
        | found hfixed =>
          cases h
          exact .found hfixed
        | passed hfixed => exact (ih h).resume hfixed

/-- A search in a class ends as the walk. -/
theorem sought_of_seekField {outcome : SearchEnd} (hload : classpath.load supertype = .ok parent)
    (h : (classpath.seekField field descriptor depth parent).run seen = some outcome)
    (rest : List ClassName) : classpath.Sought field descriptor seen [supertype] rest outcome := by
  induction depth generalizing supertype parent seen outcome rest with
  | zero => cases h
  | succ depth ih =>
    by_cases hmet : parent.name ∈ seen
    · cases (run_seekField_of_mem hmet).symm.trans h
      exact .passed (congrArg _ (fieldWalk_cons_of_mem hload hmet))
    · have hwalk : classpath.fieldWalk seen ([supertype] ++ rest) = (classpath.fieldWalk
          (parent.name :: seen) (parent.supertypes ++ rest)).after parent :=
        fieldWalk_cons_of_ok hload hmet
      cases hfield : parent.findField? field descriptor with
      | some found =>
        cases (run_seekField_of_declared hmet hfield).symm.trans h
        exact .found (hwalk ▸ fieldAnswer_after_of_declared hfield _)
      | none =>
        rw [run_seekField_of_not_declared hmet hfield] at h
        refine (sought_of_seekNames (fun hload h => ih hload h) h rest).resume ?_
        rw [hwalk, fieldAnswer_after_of_not_declared hfield]

/-- The end of a search that starts in a class is the answer for the field. -/
theorem resolveField_of_seekField {outcome : SearchEnd}
    (h : (classpath.seekField field descriptor depth owner).run [] = some outcome) :
    classpath.resolveField owner field descriptor = .ofSearch (Prod.fst <$> outcome) := by
  rw [resolveField_eq_fieldAnswer, fieldTrail]
  cases depth with
  | zero => cases h
  | succ depth =>
    cases hfield : owner.findField? field descriptor with
    | some found =>
      cases (run_seekField_of_declared List.not_mem_nil hfield).symm.trans h
      exact fieldAnswer_after_of_declared hfield _
    | none =>
      rw [run_seekField_of_not_declared List.not_mem_nil hfield] at h
      rw [fieldAnswer_after_of_not_declared hfield, ← List.append_nil owner.supertypes]
      cases sought_of_seekNames (fun hload h => sought_of_seekField hload h) h [] with
      | failed hfixed => exact hfixed
      | found hfixed => exact hfixed
      | passed hfixed =>
        rw [hfixed, fieldWalk_nil]
        rfl

/-- Looking for a field in a class ends, and as the walk. -/
theorem exists_seekField (classpath : Classpath) (owner : ClassDefinition)
    (field descriptor : String) :
    ∃ outcome, EndsWithin (classpath.names.length + 2)
        (fun depth => (classpath.seekField field descriptor depth owner).run []) outcome ∧
      .ofSearch (Prod.fst <$> outcome) = classpath.resolveField owner field descriptor := by
  have hunmet := classpath.unmet_le [owner.name]
  obtain ⟨outcome, hends, _⟩ : Concludes (classpath.names.length + 2) [] fun depth =>
      (classpath.seekField field descriptor depth owner).run [] :=
    concludes_seekField fun _ => concludes_seekNames (by omega) owner.supertypes
  exact ⟨outcome, hends, (resolveField_of_seekField (hends _ le_rfl)).symm⟩

end FieldRuns

/-- Where every class stands under its own name, a walk goes to each class once, and to none that has been
seen. -/
theorem nodup_walk (hnamed : classpath.OwnNames)
    (enqueue : ClassDefinition → List ClassName → List ClassName) (seen pending : List ClassName) :
    ((classpath.walk enqueue seen pending).loaded.map ClassDefinition.name).Nodup ∧
      ∀ definition ∈ (classpath.walk enqueue seen pending).loaded, definition.name ∉ seen := by
  fun_induction walk classpath enqueue seen pending with
  | case1 | case2 => exact ⟨List.nodup_nil, fun _ hmem => by cases hmem⟩
  | case3 seen pending name rest hpending first hload ih =>
    have hname := hnamed name first hload
    obtain ⟨hnodup, hfresh⟩ := ih
    constructor
    · rw [Trail.after, List.map_cons, List.nodup_cons]
      refine ⟨fun hmem => ?_, hnodup⟩
      obtain ⟨other, hother, hsame⟩ := List.mem_map.1 hmem
      exact hfresh other hother (List.mem_cons.2 (.inl (hsame.trans hname)))
    · intro definition hdefinition
      obtain rfl | hlater := List.mem_cons.1 hdefinition
      · exact hname ▸ not_mem_of_dropWhile_eq hpending
      · exact fun hseen => hfresh definition hlater (.tail _ hseen)

theorem nodup_classChain (hnamed : classpath.OwnNames) (owner : ClassDefinition) :
    ((classpath.classChain owner).loaded.map ClassDefinition.name).Nodup := by
  obtain ⟨hnodup, hfresh⟩ := nodup_walk hnamed (fun definition _ => definition.superName.toList)
    [owner.name] owner.superName.toList
  rw [classChain, Trail.after, List.map_cons, List.nodup_cons]
  refine ⟨fun hmem => ?_, hnodup⟩
  obtain ⟨definition, hdefinition, hsame⟩ := List.mem_map.1 hmem
  exact hfresh definition hdefinition (List.mem_singleton.2 hsame)

/-- A walk over interfaces breaks off just where an interface that can be reached cannot be loaded. -/
theorem stopped_interfaceTrail_iff {classes : List ClassDefinition} :
    (classpath.interfaceTrail (classes.flatMap ClassDefinition.interfaces)).stopped = none ↔
      ∀ superclass ∈ classes, ∀ definition, ReflTransGen classpath.Implements superclass definition →
        ∀ name ∈ definition.interfaces, ∃ interface, classpath.load name = .ok interface := by
  constructor
  · intro h superclass hsuper definition hreached name hname
    have hwaiting : name ∈ classes.flatMap ClassDefinition.interfaces ∨ ∃ definition ∈
        (classpath.interfaceTrail (classes.flatMap ClassDefinition.interfaces)).loaded,
          name ∈ definition.interfaces := by
      obtain rfl | hlater := reflTransGen_iff_eq_or_transGen.1 hreached
      · exact .inl (List.mem_flatMap.2 ⟨_, hsuper, hname⟩)
      · exact .inr ⟨definition, (mem_interfaceTrail_iff h).2 ⟨superclass, hsuper, hlater⟩, hname⟩
    obtain ⟨interface, _, hload⟩ := exists_mem_interfaceTrail h hwaiting
    exact ⟨interface, hload⟩
  · intro hloads
    rw [Option.eq_none_iff_forall_ne_some]
    intro unresolved hstopped
    obtain ⟨name, hfailed, hnamed⟩ := exists_of_stopped_walk ClassDefinition.interfaces
      (fun _ _ _ hmem => List.mem_append.1 hmem) hstopped
    have hload : ∃ interface, classpath.load name = .ok interface := by
      obtain hgiven | ⟨definition, hdefinition, hextended⟩ := hnamed
      · obtain ⟨superclass, hsuper, hname⟩ := List.mem_flatMap.1 hgiven
        exact hloads superclass hsuper superclass .refl name hname
      · obtain ⟨superclass, hsuper, hreached⟩ := transGen_of_mem_interfaceTrail hdefinition
        exact hloads superclass hsuper definition hreached.to_reflTransGen name hextended
    obtain ⟨interface, hload⟩ := hload
    cases hfailed.symm.trans hload

/-- The loops over the supertypes of a class end within numbers of rounds that the classpath gives, and as the
walks do. -/
structure LoopsEnd (classpath : Classpath) (owner : ClassDefinition) : Prop where
  superclasses : EndsWithin (classpath.names.length + 1)
    (fun rounds => classpath.climb rounds [owner.name] [owner] owner)
    (classpath.classChain owner).complete
  interfaces : EndsWithin (classpath.names.length + owner.interfaces.length +
      2 * (classpath.names.flatMap classpath.interfacesOf).length + 1)
    (fun rounds => classpath.gatherFrom rounds owner) (classpath.superinterfaces owner)
  ancestor : ∀ ancestor, EndsWithin (classpath.names.length + 2)
    (fun rounds => classpath.seek ancestor rounds [] owner) (classpath.isSubclassOf owner ancestor)
  field : ∀ field descriptor, ∃ outcome, EndsWithin (classpath.names.length + 2)
      (fun depth => (classpath.seekField field descriptor depth owner).run []) outcome ∧
    .ofSearch (Prod.fst <$> outcome) = classpath.resolveField owner field descriptor

theorem loopsEnd (classpath : Classpath) (owner : ClassDefinition) : classpath.LoopsEnd owner where
  superclasses := classpath.endsWithin_climb owner
  interfaces := classpath.endsWithin_gatherFrom owner
  ancestor := classpath.endsWithin_seek owner
  field := classpath.exists_seekField owner

theorem superinterfaces_of_chain {chain : List ClassDefinition}
    (h : (classpath.classChain owner).complete = .ok chain) :
    classpath.superinterfaces owner =
      (classpath.interfaceTrail (chain.flatMap ClassDefinition.interfaces)).complete := by
  rw [superinterfaces, h]
  rfl

/-- All interfaces of a class are found just if its chain can be loaded, and each interface that can be
reached from a class of the chain. -/
theorem superinterfaces_isOk_iff : (∃ interfaces, classpath.superinterfaces owner = .ok interfaces) ↔
    ∃ chain, (classpath.classChain owner).complete = .ok chain ∧
      ∀ superclass ∈ chain, ∀ definition, ReflTransGen classpath.Implements superclass definition →
        ∀ name ∈ definition.interfaces, ∃ interface, classpath.load name = .ok interface := by
  cases hchain : (classpath.classChain owner).complete with
  | error unresolved =>
    refine iff_of_false ?_ ?_
    · rintro ⟨interfaces, hfound⟩
      rw [superinterfaces, hchain] at hfound
      cases hfound
    · rintro ⟨chain, hfound, _⟩
      cases hfound
  | ok chain =>
    rw [superinterfaces_of_chain hchain]
    constructor
    · rintro ⟨interfaces, hfound⟩
      exact ⟨chain, rfl, stopped_interfaceTrail_iff.1 (complete_eq_ok hfound).1⟩
    · rintro ⟨_, hsame, hloads⟩
      cases hsame
      refine ⟨(classpath.interfaceTrail (chain.flatMap ClassDefinition.interfaces)).loaded, ?_⟩
      rw [Trail.complete, stopped_interfaceTrail_iff.2 hloads]

/-- Whatever the classes of a classpath name as their supertypes, the loops over them end. A chain has no name
twice. All interfaces of a class are found if its chain loads and all that can be reached from it through
interfaces does, and then exactly these are found, each of them once. -/
theorem hierarchy_loops (classpath : Classpath) (owner : ClassDefinition) :
    classpath.LoopsEnd owner ∧
    (classpath.OwnNames → ∀ chain, (classpath.classChain owner).complete = .ok chain →
      (chain.map ClassDefinition.name).Nodup) ∧
    ((∃ interfaces, classpath.superinterfaces owner = .ok interfaces) ↔
      ∃ chain, (classpath.classChain owner).complete = .ok chain ∧
        ∀ superclass ∈ chain, ∀ definition,
          ReflTransGen classpath.Implements superclass definition →
            ∀ name ∈ definition.interfaces, ∃ interface, classpath.load name = .ok interface) ∧
    ∀ chain interfaces, (classpath.classChain owner).complete = .ok chain →
      classpath.superinterfaces owner = .ok interfaces →
        (∀ definition, definition ∈ interfaces ↔
          ∃ superclass ∈ chain, TransGen classpath.Implements superclass definition) ∧
        (classpath.OwnNames → (interfaces.map ClassDefinition.name).Nodup) := by
  refine ⟨classpath.loopsEnd owner, fun hnamed chain hchain => ?_, superinterfaces_isOk_iff,
    fun chain interfaces hchain hinterfaces => ?_⟩
  · obtain ⟨-, rfl⟩ := complete_eq_ok hchain
    exact nodup_classChain hnamed owner
  · rw [superinterfaces_of_chain hchain] at hinterfaces
    obtain ⟨hstopped, rfl⟩ := complete_eq_ok hinterfaces
    exact ⟨fun _ => mem_interfaceTrail_iff hstopped, fun hnamed => (nodup_walk hnamed _ _ _).1⟩

def twistedOwner : ClassDefinition :=
  { ClassDefinition.plain ⟨"p/Knot"⟩ ⟨"p/Loop"⟩ with interfaces := [⟨"p/Left"⟩, ⟨"p/Right"⟩] }

def twistedShared : ClassDefinition :=
  { ClassDefinition.plain ⟨"p/Shared"⟩ .object with fields := [diamondField] }

/-- A class that is its own superclass, and below it one with two interfaces that extend each other and a third
one. -/
def twisted : Classpath :=
  .ofClasses [
    twistedOwner, { ClassDefinition.plain ⟨"p/Loop"⟩ ⟨"p/Loop"⟩ with interfaces := [⟨"p/Left"⟩] },
    { ClassDefinition.plain ⟨"p/Left"⟩ .object with interfaces := [⟨"p/Right"⟩, ⟨"p/Shared"⟩] },
    { ClassDefinition.plain ⟨"p/Right"⟩ .object with interfaces := [⟨"p/Left"⟩, ⟨"p/Shared"⟩] },
    twistedShared ]

/-- All loops end here, with the chain and the interfaces that are to be found. -/
theorem hierarchy_loops_twisted :
    twisted.OwnNames ∧ twisted.load twistedOwner.name = .ok twistedOwner ∧
      (∀ rounds ≥ 22, (twisted.gatherFrom rounds twistedOwner).run.map
        (Except.map (List.map ClassDefinition.name)) =
          some (.ok [⟨"p/Left"⟩, ⟨"p/Right"⟩, ⟨"p/Shared"⟩])) ∧
      (∀ rounds ≥ 6, (twisted.climb rounds [twistedOwner.name] [twistedOwner] twistedOwner).run.map
        (Except.map (List.map ClassDefinition.name)) = some (.ok [⟨"p/Knot"⟩, ⟨"p/Loop"⟩])) ∧
      (∀ rounds ≥ 7, twisted.seek .object rounds [] twistedOwner = some (some false)) ∧
      ∃ outcome, (∀ depth ≥ 7,
          (twisted.seekField "size" "I" depth twistedOwner).run [] = some outcome) ∧
        .ofSearch (Prod.fst <$> outcome) =
          Resolution.found ⟨twistedShared, diamondField⟩ := by
  have hnamed : twisted.OwnNames := fun _ _ => name_of_load_ofClasses
  have howner : twisted.load twistedOwner.name = .ok twistedOwner := by rfl
  obtain ⟨hends, -, -, -⟩ := hierarchy_loops twisted twistedOwner
  obtain ⟨outcome, hfield, hanswer⟩ := hends.field "size" "I"
  refine ⟨hnamed, howner, fun rounds hrounds => ?_, fun rounds hrounds => ?_, fun rounds hrounds => ?_,
    outcome, hfield, hanswer.trans (by decide +kernel)⟩
  · have hlimit : twisted.names.length + twistedOwner.interfaces.length +
        2 * (twisted.names.flatMap twisted.interfacesOf).length + 1 = 22 := by decide +kernel
    have hfound : twisted.gatherFrom rounds twistedOwner = _ :=
      hends.interfaces rounds (hlimit ▸ hrounds)
    rw [hfound]
    decide +kernel
  · have hfound : twisted.climb rounds [twistedOwner.name] [twistedOwner] twistedOwner = _ :=
      hends.superclasses rounds hrounds
    rw [hfound]
    decide +kernel
  · refine (hends.ancestor .object rounds hrounds).trans ?_
    decide +kernel

end Classpath

end LinkCheck
