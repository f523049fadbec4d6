/-!
# Tables

A table is a finite map whose keys stay in the order in which they first came.

## Main definitions

- `Table` — values by key
- `Table.get?`, `Table.contains`, `Table.keys` — reading
- `Table.insert`, `Table.insertNew` — writing, with the last or the first value of a key winning
- `Table.ofList` — the table of a list of pairs
-/

namespace LinkCheck

/-- Values by key, in the order in which the keys first came. -/
structure Table (κ α : Type) where
  entries : List (κ × α) := []
deriving Inhabited, Repr

namespace Table

variable {κ α : Type} [DecidableEq κ]

/-- The value of a key. -/
def get? (table : Table κ α) (key : κ) : Option α :=
  table.entries.lookup key

/-- Whether a key has a value. -/
def contains (table : Table κ α) (key : κ) : Bool :=
  (table.get? key).isSome

/-- The keys that have a value. -/
def keys (table : Table κ α) : List κ :=
  table.entries.map Prod.fst

/-- How many keys have a value. -/
def size (table : Table κ α) : Nat :=
  table.entries.length

/-- Whether no key has a value. -/
def isEmpty (table : Table κ α) : Bool :=
  table.entries.isEmpty

/-- Replaces the value of a key where it stands, or adds the pair at the end. -/
def put (key : κ) (value : α) : List (κ × α) → List (κ × α)
  | [] => [(key, value)]
  | entry :: entries =>
    if entry.1 = key then (key, value) :: entries else entry :: put key value entries

/-- Gives a key a value, in place of one that it may have. -/
def insert (table : Table κ α) (key : κ) (value : α) : Table κ α :=
  ⟨put key value table.entries⟩

/-- Gives a key a value unless it has one. -/
def insertNew (table : Table κ α) (key : κ) (value : α) : Table κ α :=
  if table.contains key then table else ⟨table.entries ++ [(key, value)]⟩

/-- The pairs whose key satisfies `keep`. -/
def filterKeys (table : Table κ α) (keep : κ → Bool) : Table κ α :=
  ⟨table.entries.filter fun entry => keep entry.1⟩

/-- The table of a list of pairs, where the last value of a key counts. -/
def ofList (pairs : List (κ × α)) : Table κ α :=
  pairs.foldl (fun table pair => table.insert pair.1 pair.2) {}

/-- The table of a list of pairs, where the first value of a key counts. -/
def ofListNew (pairs : List (κ × α)) : Table κ α :=
  pairs.foldl (fun table pair => table.insertNew pair.1 pair.2) {}

theorem keys_put (key : κ) (value : α) (entries : List (κ × α)) :
    (put key value entries).map Prod.fst =
      if key ∈ entries.map Prod.fst then entries.map Prod.fst
      else entries.map Prod.fst ++ [key] := by
  induction entries with
  | nil => rfl
  | cons entry entries ih =>
    by_cases hsame : entry.1 = key
    · simp [put, hsame]
    · rw [put, if_neg hsame, List.map_cons, ih, List.map_cons]
      simp only [List.mem_cons, Ne.symm hsame, false_or]
      split <;> rfl

/-- The keys of a table of pairs are not repeated, also where the last value counts. -/
theorem nodup_keys_ofList (pairs : List (κ × α)) : (ofList pairs).keys.Nodup := by
  suffices h : ∀ table : Table κ α, table.keys.Nodup →
      (pairs.foldl (fun table pair => table.insert pair.1 pair.2) table).keys.Nodup from
    h {} List.nodup_nil
  induction pairs with
  | nil => exact fun _ h => h
  | cons pair pairs ih =>
    refine fun table h => ih _ ?_
    change ((put pair.1 pair.2 table.entries).map Prod.fst).Nodup
    rw [keys_put]
    split
    · exact h
    · next hnew =>
      refine List.nodup_append.2 ⟨h, List.nodup_cons.2 ⟨List.not_mem_nil, .nil⟩, ?_⟩
      intro key hkey other hother
      rw [List.mem_singleton.1 hother]
      exact fun hsame => hnew (hsame ▸ hkey)

end Table

end LinkCheck
