/-!
# A cache bounded by recency

A cache keeps a fixed number of values and gives up the one that was not used for the longest time.
What is given up has to be computed again, so a cache never changes an answer.

## Main definitions

- `CacheStats` — counts of hits, misses and evictions
- `RecencyCache` — a bounded map from keys to values
- `RecencyCache.get`, `RecencyCache.insert`, `RecencyCache.getOrInsert`, `RecencyCache.clear`
-/

namespace LinkCheck

/-- How often a cache had a value, had none, and gave one up. The counts have no bound here. Where they are
kept in words of 64 bits, they are these numbers as long as none passes `2 ^ 64 - 1`, which takes as many
lookups. -/
structure CacheStats where
  hits : Nat := 0
  misses : Nat := 0
  evictions : Nat := 0
deriving DecidableEq, Inhabited, Repr

/-- Values by key, the one used last at the end. -/
structure RecencyCache (κ α : Type) where
  /-- The number of values that are kept, at least one. -/
  capacity : Nat
  /-- The values with their keys, from the one that was not used for the longest time on. -/
  entries : List (κ × α) := []
  stats : CacheStats := {}
  capacity_pos : 0 < capacity
deriving Repr

namespace RecencyCache

variable {κ α ε : Type} [DecidableEq κ]

/-- An empty cache. A capacity of zero is taken for one. -/
def ofCapacity (capacity : Nat) : RecencyCache κ α where
  capacity := max capacity 1
  capacity_pos := by omega

/-- The entries apart from that of `key`. -/
def without (entries : List (κ × α)) (key : κ) : List (κ × α) :=
  entries.filter (·.1 ≠ key)

/-- The value of `key`, which then counts as used last. -/
def get (cache : RecencyCache κ α) (key : κ) : Option α × RecencyCache κ α :=
  match cache.entries.lookup key with
  | some value =>
    (some value,
      { cache with
        entries := without cache.entries key ++ [(key, value)]
        stats := { cache.stats with hits := cache.stats.hits + 1 } })
  | none => (none, { cache with stats := { cache.stats with misses := cache.stats.misses + 1 } })

/-- Stores a value, which then counts as used last. A full cache gives up its oldest entry, unless the
new value replaces another of the same key. -/
def insert (cache : RecencyCache κ α) (key : κ) (value : α) : RecencyCache κ α :=
  let others := without cache.entries key
  if cache.capacity ≤ others.length then
    { cache with
      entries := others.drop 1 ++ [(key, value)]
      stats := { cache.stats with evictions := cache.stats.evictions + 1 } }
  else
    { cache with entries := others ++ [(key, value)] }

/-- The value of `key`, computed and stored if the cache has none. A failed computation is not
stored. -/
def getOrInsert (cache : RecencyCache κ α) (key : κ) (compute : Except ε α) :
    Except ε α × RecencyCache κ α :=
  match cache.get key with
  | (some value, cache) => (.ok value, cache)
  | (none, cache) =>
    match compute with
    | .error failure => (.error failure, cache)
    | .ok value => (.ok value, cache.insert key value)

/-- How many values the cache holds. -/
def size (cache : RecencyCache κ α) : Nat :=
  cache.entries.length

/-- Whether the cache holds no value. -/
def isEmpty (cache : RecencyCache κ α) : Bool :=
  cache.entries.isEmpty

/-- Gives up all values. The counts go on. -/
def clear (cache : RecencyCache κ α) : RecencyCache κ α :=
  { cache with entries := [] }

end RecencyCache

end LinkCheck
