import LinkCheck.Table

/-!
# Reading and writing tables

A table answers for a key with the value that was last written under it.
-/

namespace LinkCheck

namespace Table

variable {κ α β : Type} [DecidableEq κ]

@[simp]
theorem get?_empty (key : κ) : ({} : Table κ α).get? key = none := rfl

/-- The keys are those that have a value. -/
theorem mem_keys_iff (table : Table κ α) (key : κ) :
    key ∈ table.keys ↔ table.contains key = true := by
  unfold keys contains get?
  rw [List.lookup_isSome_iff]
  simp

theorem lookup_put (key other : κ) (value : α) (entries : List (κ × α)) :
    (put key value entries).lookup other =
      if other = key then some value else entries.lookup other := by
  induction entries with
  | nil =>
    by_cases h : other = key
    · simp [put, h]
    · simp [put, List.lookup_cons, h, beq_false_of_ne h]
  | cons entry entries ih =>
    obtain ⟨first, old⟩ := entry
    by_cases hfirst : first = key
    · subst hfirst
      by_cases h : other = first
      · simp [put, h]
      · simp [put, List.lookup_cons, h, beq_false_of_ne h]
    · by_cases h : other = first
      · subst h
        simp [put, hfirst]
      · simp [put, List.lookup_cons, hfirst, beq_false_of_ne h, ih]

/-- A key has the value that is written under it, and the other keys keep theirs. -/
theorem get?_insert (table : Table κ α) (key other : κ) (value : α) :
    (table.insert key value).get? other = if other = key then some value else table.get? other :=
  lookup_put key other value table.entries

/-- Writing the value that a key has changes nothing. -/
theorem insert_of_get? {table : Table κ α} {key : κ} {value : α}
    (h : table.get? key = some value) : table.insert key value = table := by
  obtain ⟨entries⟩ := table
  suffices hput : put key value entries = entries from congrArg Table.mk hput
  induction entries with
  | nil => cases h
  | cons entry entries ih =>
    obtain ⟨first, old⟩ := entry
    by_cases hfirst : first = key
    · subst hfirst
      have hold : some old = some value := by simpa [get?] using h
      simp [put, Option.some.inj hold]
    · have hrest : (⟨entries⟩ : Table κ α).get? key = some value := by
        simpa [get?, List.lookup_cons, beq_false_of_ne (Ne.symm hfirst)] using h
      simp [put, hfirst, ih hrest]

/-- A key that has a value keeps it when another is offered. -/
theorem get?_insertNew (table : Table κ α) (key other : κ) (value : α) :
    (table.insertNew key value).get? other =
      (table.get? other).or (if other = key then some value else none) := by
  unfold insertNew
  split
  · next hcontains =>
    by_cases h : other = key
    · rw [h, Option.or_of_isSome hcontains]
    · rw [if_neg h, Option.or_none]
  · unfold get?
    rw [List.lookup_append]
    congr 1
    by_cases h : other = key
    · simp [h]
    · simp [List.lookup_cons, beq_false_of_ne h, h]

theorem get?_foldl_insertNew (pairs : List (κ × α)) (table : Table κ α) (key : κ) :
    (pairs.foldl (fun table pair => table.insertNew pair.1 pair.2) table).get? key =
      (table.get? key).or (pairs.lookup key) := by
  induction pairs generalizing table with
  | nil => simp
  | cons pair pairs ih =>
    obtain ⟨first, value⟩ := pair
    rw [List.foldl_cons, ih, get?_insertNew, Option.or_assoc]
    congr 1
    by_cases h : key = first
    · simp [h]
    · simp [List.lookup_cons, beq_false_of_ne h, h]

/-- In a table of pairs a key has the value that it came with first. -/
theorem get?_ofListNew (pairs : List (κ × α)) (key : κ) :
    (ofListNew pairs).get? key = pairs.lookup key := by
  rw [ofListNew, get?_foldl_insertNew, get?_empty, Option.none_or]

theorem nodup_keys_insertNew {table : Table κ α} (h : table.keys.Nodup) (key : κ) (value : α) :
    (table.insertNew key value).keys.Nodup := by
  unfold insertNew
  split
  · exact h
  · next hcontains =>
    rw [← mem_keys_iff] at hcontains
    have hkeys : keys ⟨table.entries ++ [(key, value)]⟩ = table.keys ++ [key] := by simp [keys]
    rw [hkeys, List.nodup_append]
    refine ⟨h, by simp, ?_⟩
    intro first hfirst second hsecond
    rw [List.mem_singleton.1 hsecond]
    exact fun hsame => hcontains (hsame ▸ hfirst)

/-- The keys of a table of pairs are not repeated. -/
theorem nodup_keys_ofListNew (pairs : List (κ × α)) : (ofListNew pairs).keys.Nodup := by
  suffices h : ∀ table : Table κ α, table.keys.Nodup →
      (pairs.foldl (fun table pair => table.insertNew pair.1 pair.2) table).keys.Nodup from
    h {} List.nodup_nil
  induction pairs with
  | nil => exact fun _ h => h
  | cons pair pairs ih => exact fun table h => ih _ (nodup_keys_insertNew h pair.1 pair.2)

/-- Changing all values of a table changes what it answers. -/
theorem lookup_map_value (change : α → β) (key : κ) (entries : List (κ × α)) :
    (entries.map fun entry => (entry.1, change entry.2)).lookup key =
      (entries.lookup key).map change := by
  induction entries with
  | nil => rfl
  | cons entry entries ih =>
    obtain ⟨first, value⟩ := entry
    by_cases h : key = first
    · simp [h]
    · simp [List.lookup_cons, beq_false_of_ne h, ih]

end Table

end LinkCheck
