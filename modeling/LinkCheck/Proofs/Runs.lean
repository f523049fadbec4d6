import LinkCheck.ClassSource
import Mathlib.Data.List.Forall2

/-!
# Runs of computations

Closures are resolved and plugins are checked by computations that may fail, have a state of their own
and use the shelf. A run of such a computation gives a result, the state and the shelf; a run of several
in a row is a run of each from where the one before ended.

## Main results

- `bind_eq_ok_iff`, `mapM_eq_ok_iff` — computations that may fail succeed if all their steps do
- `forall₂_iff_mapM` — such computations along a relation
- `runWith_bind` — a run of two computations in a row
-/

namespace LinkCheck

variable {ε σ α β γ : Type}

theorem pure_eq_ok_iff {value result : α} : (pure value : Except ε α) = .ok result ↔ value = result :=
  ⟨Except.ok.inj, congrArg Except.ok⟩

/-- Two computations in a row succeed if both do. -/
theorem bind_eq_ok_iff {first : Except ε α} {next : α → Except ε β} {result : β} :
    first >>= next = .ok result ↔ ∃ value, first = .ok value ∧ next value = .ok result := by
  cases first with
  | error failure =>
    constructor
    · intro h
      cases h
    · rintro ⟨_, hvalue, _⟩
      cases hvalue
  | ok value =>
    constructor
    · intro h
      exact ⟨value, rfl, h⟩
    · rintro ⟨_, hvalue, h⟩
      cases hvalue
      exact h

/-- A computation for each item of a list succeeds if it does for all of them. -/
theorem mapM_eq_ok_iff {step : α → Except ε β} {items : List α} {results : List β} :
    items.mapM step = .ok results ↔
      List.Forall₂ (fun item result => step item = .ok result) items results := by
  induction items generalizing results with
  | nil => rw [List.mapM_nil, pure_eq_ok_iff, List.forall₂_nil_left_iff, eq_comm]
  | cons item items ih =>
    rw [List.mapM_cons, bind_eq_ok_iff, List.forall₂_cons_left_iff]
    refine exists_congr fun result => ?_
    rw [bind_eq_ok_iff, ← exists_and_left]
    refine exists_congr fun others => ?_
    rw [ih, pure_eq_ok_iff, eq_comm (a := results)]

/-- Steps that succeed for all items, where a relation tells what is seen of their results. -/
theorem forall₂_iff_mapM {relation : α → γ → Prop} {step : α → Except ε β} {view : β → γ}
    (h : ∀ item seen, relation item seen ↔ ∃ result, step item = .ok result ∧ view result = seen)
    {items : List α} {views : List γ} : List.Forall₂ relation items views ↔
      ∃ results, items.mapM step = .ok results ∧ results.map view = views := by
  simp only [mapM_eq_ok_iff]
  constructor
  · intro hall
    induction hall with
    | nil => exact ⟨[], .nil, rfl⟩
    | cons hfirst _ ih =>
      obtain ⟨result, hresult, rfl⟩ := (h _ _).1 hfirst
      obtain ⟨results, hresults, rfl⟩ := ih
      exact ⟨result :: results, .cons hresult hresults, rfl⟩
  · rintro ⟨results, hresults, rfl⟩
    rw [List.forall₂_map_right_iff]
    exact hresults.imp fun _ result hresult => (h _ _).2 ⟨result, hresult, rfl⟩

theorem exists_of_forall₂ {relation : α → β → Prop} {items : List α} {others : List β}
    (h : List.Forall₂ relation items others) {item : α} (hmem : item ∈ items) :
    ∃ other ∈ others, relation item other := by
  induction h with
  | nil => cases hmem
  | @cons first other items others hfirst _ ih =>
    rcases List.mem_cons.1 hmem with rfl | hmem
    · exact ⟨other, List.mem_cons_self, hfirst⟩
    · obtain ⟨found, hfound, hrelated⟩ := ih hmem
      exact ⟨found, .tail _ hfound, hrelated⟩

/-- What is done with a shelf after another computation starts with what that left. -/
theorem Shelved.run_bind (first : Shelved α) (next : α → Shelved β) (shelf : Shelf) :
    (first >>= next).run shelf = (next (first.run shelf).1).run (first.run shelf).2 := by
  rfl

theorem Shelved.run_pure (value : α) (shelf : Shelf) :
    (pure value : Shelved α).run shelf = (value, shelf) := by
  rfl

/-- The result of a computation from some state, with the state and the shelf afterwards. -/
def runWith (computation : ExceptT ε (StateT σ Shelved) α) (state : σ) (shelf : Shelf) :
    (Except ε α × σ) × Shelf :=
  (computation.run.run state).run shelf

@[simp]
theorem runWith_pure (value : α) (state : σ) (shelf : Shelf) :
    runWith (pure value : ExceptT ε (StateT σ Shelved) α) state shelf =
      ((.ok value, state), shelf) := rfl

@[simp]
theorem runWith_throw (failure : ε) (state : σ) (shelf : Shelf) :
    runWith (throw failure : ExceptT ε (StateT σ Shelved) α) state shelf =
      ((.error failure, state), shelf) := rfl

@[simp]
theorem runWith_getThe (state : σ) (shelf : Shelf) :
    runWith (getThe σ : ExceptT ε (StateT σ Shelved) σ) state shelf =
      ((.ok state, state), shelf) := rfl

@[simp]
theorem runWith_modifyThe (change : σ → σ) (state : σ) (shelf : Shelf) :
    runWith (modifyThe σ change : ExceptT ε (StateT σ Shelved) PUnit) state shelf =
      ((.ok ⟨⟩, change state), shelf) := rfl

/-- A computation with the shelf alone does not fail and leaves the state as it is. -/
@[simp]
theorem runWith_liftM (computation : Shelved α) (state : σ) (shelf : Shelf) :
    runWith (liftM computation : ExceptT ε (StateT σ Shelved) α) state shelf =
      ((.ok (computation.run shelf).1, state), (computation.run shelf).2) := rfl

/-- A computation that cannot fail does not fail. -/
@[simp]
theorem runWith_lift (computation : StateT σ Shelved α) (state : σ) (shelf : Shelf) :
    runWith (liftM computation : ExceptT ε (StateT σ Shelved) α) state shelf =
      ((.ok ((computation.run state).run shelf).1.1, ((computation.run state).run shelf).1.2),
        ((computation.run state).run shelf).2) := rfl

/-- A computation that fails is not gone on with. -/
theorem runWith_bind (computation : ExceptT ε (StateT σ Shelved) α)
    (next : α → ExceptT ε (StateT σ Shelved) β) (state : σ) (shelf : Shelf) :
    runWith (computation >>= next) state shelf =
      match runWith computation state shelf with
      | ((.ok value, after), shelf) => runWith (next value) after shelf
      | ((.error failure, after), shelf) => ((.error failure, after), shelf) := by
  have h : runWith (computation >>= next) state shelf =
      (fun answer : (Except ε α × σ) × Shelf =>
        ((ExceptT.bindCont next answer.1.1).run answer.1.2).run answer.2)
        (runWith computation state shelf) := rfl
  rw [h]
  rcases runWith computation state shelf with ⟨⟨_ | value, after⟩, shelf⟩ <;> rfl

end LinkCheck
