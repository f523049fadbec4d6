import LinkCheck.Proofs.ShelfMemory
import Mathlib.Data.Finset.Card
import Mathlib.Data.List.DropRight

/-!
# What a cache holds

A cache holds the keys that were used last. Which keys these are can be told from the history of the cache
alone: of all keys that were used since it was last cleared, each counts where it was used last, and as many
are held as there is room for, from the last one back.

## Main definitions

- `CacheCall`, `RecencyCache.perform` — what can be done with a cache
- `CacheHistory` — what has been seen to happen to a cache
- `RecencyCache.mostRecent` — the keys that were used last
- `RecencyCache.Tracks` — a cache holds what its history tells
- `RecencyCache.Effect` — what a call can do

## Main results

- `RecencyCache.Effect.tracks` — whatever is done with a cache, it goes on to hold what its history tells
- `RecencyCache.mem_mostRecent_iff` — a key is held iff few others were used since
- `RecencyCache.run_most_recent` — what a cache holds and has counted after any calls
-/

namespace LinkCheck

/-- What can be done with a cache. -/
inductive CacheCall (κ α ε : Type) where
  | get (key : κ)
  | insert (key : κ) (value : α)
  | getOrInsert (key : κ) (compute : Except ε α)
  | clear

/-- Whether a value is looked up. -/
def CacheCall.looksUp {κ α ε : Type} : CacheCall κ α ε → Bool
  | get _ | getOrInsert _ _ => true
  | insert _ _ | clear => false

/-- What has been seen to happen to a cache. -/
structure CacheHistory (κ α : Type) where
  /-- The keys that were used since the cache was last cleared, in the order of their uses. A key is used
  where a value is stored for it, and where it is looked up and has a value. -/
  touches : List κ := []
  /-- The values that were stored, the last one first. -/
  stored : List (κ × α) := []
  /-- How often a value was stored for a key that had none when the cache was full. -/
  overflows : Nat := 0

namespace RecencyCache

variable {κ α ε : Type} [DecidableEq κ] {cache after : RecencyCache κ α}
  {history later : CacheHistory κ α} {key : κ} {value : α}

/-- What a cache is after a call. -/
def perform (cache : RecencyCache κ α) : CacheCall κ α ε → RecencyCache κ α
  | .get key => (cache.get key).2
  | .insert key value => cache.insert key value
  | .getOrInsert key compute => (cache.getOrInsert key compute).2
  | .clear => cache.clear

/-- What is noted of a value that is stored in a cache. -/
def noteStored (cache : RecencyCache κ α) (history : CacheHistory κ α) (key : κ) (value : α) :
    CacheHistory κ α where
  touches := history.touches ++ [key]
  stored := (key, value) :: history.stored
  overflows :=
    if (cache.get key).1.isNone ∧ cache.size = cache.capacity then history.overflows + 1
    else history.overflows

/-- What is noted of a call to a cache. -/
def note (cache : RecencyCache κ α) (history : CacheHistory κ α) :
    CacheCall κ α ε → CacheHistory κ α
  | .get key =>
    if (cache.get key).1.isSome then { history with touches := history.touches ++ [key] } else history
  | .insert key value => noteStored cache history key value
  | .getOrInsert key compute =>
    if (cache.get key).1.isSome then { history with touches := history.touches ++ [key] }
    else compute.toOption.elim history (noteStored cache history key)
  | .clear => { history with touches := [] }

/-- An empty cache with its history, after some calls. -/
def run (capacity : Nat) (calls : List (CacheCall κ α ε)) : RecencyCache κ α × CacheHistory κ α :=
  calls.foldl (fun before call => (before.1.perform call, before.1.note before.2 call))
    (ofCapacity capacity, {})

/-- The keys that were used last, each where it was used last. -/
def mostRecent (count : Nat) (touches : List κ) : List κ :=
  touches.dedup.rtake count

/-- A key that is used moves to the end. -/
theorem dedup_concat (touches : List κ) (key : κ) :
    (touches ++ [key]).dedup = touches.dedup.filter (· ≠ key) ++ [key] := by
  induction touches with
  | nil => rfl
  | cons first rest ih =>
    by_cases hrest : first ∈ rest
    · rw [List.cons_append, List.dedup_cons_of_mem (List.mem_append_left _ hrest), ih,
        List.dedup_cons_of_mem hrest]
    · rw [List.cons_append, List.dedup_cons_of_notMem hrest]
      by_cases hkey : first = key
      · rw [List.dedup_cons_of_mem (by simp [hkey]), ih, List.filter_cons_of_neg (by simpa using hkey)]
      · rw [List.dedup_cons_of_notMem (by simp [hrest, hkey]), ih,
          List.filter_cons_of_pos (by simpa using hkey), List.cons_append]

theorem rtake_of_length_le {list : List α} {count : Nat} (h : list.length ≤ count) :
    list.rtake count = list := by
  rw [List.rtake, Nat.sub_eq_zero_of_le h, List.drop_zero]

theorem length_rtake_le (list : List α) (count : Nat) : (list.rtake count).length ≤ count := by
  rw [List.rtake, List.length_drop]
  omega

theorem rtake_append_of_le {front back : List α} {count : Nat} (h : count ≤ back.length) :
    (front ++ back).rtake count = back.rtake count := by
  have hfront : front.length + back.length - count = front.length + (back.length - count) := by omega
  rw [List.rtake, List.rtake, List.length_append, hfront, List.drop_length_add_append]

/-- No more than one entry goes when a key is left out of a list that has it at most once. -/
theorem length_le_filter_ne {list : List κ} (h : list.Nodup) (key : κ) :
    list.length ≤ (list.filter (· ≠ key)).length + 1 := by
  have hcount := List.nodup_iff_count_le_one.1 h key
  have hsplit := list.length_eq_countP_add_countP (· = key)
  rw [← List.countP_eq_length_filter]
  simp only [List.count, ne_eq] at hcount hsplit ⊢
  grind

/-- Leaving out a key first or taking the end first makes no difference but for one place. -/
theorem rtake_filter_rtake {list : List κ} (h : list.Nodup) (key : κ) (count : Nat) :
    ((list.rtake (count + 1)).filter (· ≠ key)).rtake count =
      (list.filter (· ≠ key)).rtake count := by
  by_cases hshort : list.length ≤ count + 1
  · rw [rtake_of_length_le hshort]
  · have hsplit : list.take (list.length - (count + 1)) ++ list.rtake (count + 1) = list :=
      List.take_append_drop _ list
    have hlength : (list.rtake (count + 1)).length = count + 1 := by
      rw [List.rtake, List.length_drop]
      omega
    have hnodup : (list.rtake (count + 1)).Nodup := h.sublist (List.drop_sublist _ list)
    have hfilter := length_le_filter_ne hnodup key
    conv_rhs => rw [← hsplit, List.filter_append]
    rw [rtake_append_of_le (by omega)]

/-- The key that is used comes last, and the others make room for it. -/
theorem mostRecent_concat (count : Nat) (touches : List κ) (key : κ) :
    mostRecent (count + 1) (touches ++ [key]) =
      ((mostRecent (count + 1) touches).filter (· ≠ key)).rtake count ++ [key] := by
  rw [mostRecent, mostRecent, dedup_concat, List.rtake_concat_succ,
    rtake_filter_rtake (List.nodup_dedup touches)]

omit [DecidableEq κ] in
theorem mem_rtake_append_cons {front back : List κ} {count : Nat}
    (h : (front ++ key :: back).Nodup) :
    key ∈ (front ++ key :: back).rtake count ↔ back.length < count := by
  by_cases hcount : back.length < count
  · refine iff_of_true ?_ hcount
    have hdrop : (front ++ key :: back).length - count ≤ front.length := by
      rw [List.length_append, List.length_cons]
      omega
    rw [List.rtake, List.drop_append_of_le_length hdrop]
    exact List.mem_append_right _ List.mem_cons_self
  · have hback : key ∉ back := (List.nodup_cons.1 (List.nodup_append.1 h).2.1).1
    refine iff_of_false (fun hmem => hback ?_) hcount
    rw [← List.singleton_append, ← List.append_assoc, rtake_append_of_le (by omega)] at hmem
    exact List.mem_of_mem_drop hmem

/-- A key is among those used last exactly if it was used, and few others have been used since. -/
theorem mem_mostRecent_iff {count : Nat} {touches : List κ} :
    key ∈ mostRecent count touches ↔ ∃ older newer, touches = older ++ key :: newer ∧
      key ∉ newer ∧ newer.toFinset.card < count := by
  -- The last use of the key stands in front of just the keys that were used since.
  have hplace : ∀ older newer, key ∉ newer →
      (key ∈ mostRecent count (older ++ key :: newer) ↔ newer.toFinset.card < count) := by
    intro older newer hnewer
    obtain ⟨front, hfront⟩ := List.suffix_union_right older (key :: newer).dedup
    have hdedup : (older ++ key :: newer).dedup = front ++ key :: newer.dedup := by
      rw [List.dedup_append, ← hfront, List.dedup_cons_of_notMem hnewer]
    have hnodup := List.nodup_dedup (older ++ key :: newer)
    rw [hdedup] at hnodup
    rw [mostRecent, hdedup, List.card_toFinset]
    exact mem_rtake_append_cons hnodup
  constructor
  · intro hmem
    have hused : key ∈ touches.reverse := by
      have hdedup : key ∈ touches.dedup := List.mem_of_mem_drop hmem
      simpa using hdedup
    obtain ⟨newer, older, hsplit, hnewer⟩ := List.eq_append_cons_of_mem hused
    have htouches : touches = older.reverse ++ key :: newer.reverse := by
      rw [← List.reverse_reverse touches, hsplit]
      simp
    rw [htouches] at hmem
    have hlast : key ∉ newer.reverse := by simpa using hnewer
    exact ⟨older.reverse, newer.reverse, htouches, hlast, (hplace _ _ hlast).1 hmem⟩
  · rintro ⟨older, newer, rfl, hnewer, hcard⟩
    exact (hplace older newer hnewer).2 hcard

theorem get_fst (cache : RecencyCache κ α) (key : κ) :
    (cache.get key).1 = cache.entries.lookup key := by
  cases hlookup : cache.entries.lookup key with
  | none => simp only [get, hlookup]
  | some value => simp only [get, hlookup]

theorem get_of_lookup (h : cache.entries.lookup key = some value) :
    cache.get key = (some value, { cache with
      entries := without cache.entries key ++ [(key, value)]
      stats := { cache.stats with hits := cache.stats.hits + 1 } }) := by
  simp only [get, h]

theorem get_of_lookup_none (h : cache.entries.lookup key = none) :
    cache.get key =
      (none, { cache with stats := { cache.stats with misses := cache.stats.misses + 1 } }) := by
  simp only [get, h]

/-- A lookup counts as a hit or as a miss. -/
theorem get_rest (cache : RecencyCache κ α) (key : κ) :
    (cache.get key).2.capacity = cache.capacity ∧
      (cache.get key).2.stats.hits + (cache.get key).2.stats.misses =
        cache.stats.hits + cache.stats.misses + 1 := by
  cases hlookup : cache.entries.lookup key with
  | none =>
    rw [get_of_lookup_none hlookup]
    exact ⟨rfl, rfl⟩
  | some value =>
    rw [get_of_lookup hlookup]
    exact ⟨rfl, Nat.add_right_comm _ _ _⟩

theorem getOrInsert_of_lookup (h : cache.entries.lookup key = some value) (compute : Except ε α) :
    cache.getOrInsert key compute = (.ok value, (cache.get key).2) := by
  rw [getOrInsert, get_of_lookup h]

/-- What is computed is given in any case, and stored unless the computation fails. -/
theorem getOrInsert_of_lookup_none (h : cache.entries.lookup key = none) (compute : Except ε α) :
    cache.getOrInsert key compute =
      (compute, compute.toOption.elim (cache.get key).2 ((cache.get key).2.insert key)) := by
  rw [getOrInsert, get_of_lookup_none h]
  cases compute <;> rfl

theorem lookup_isSome_iff {entries : List (κ × α)} :
    (entries.lookup key).isSome ↔ key ∈ entries.map Prod.fst := by
  simp only [List.lookup_isSome_iff, beq_iff_eq, List.mem_map]
  exact exists_congr fun entry => and_congr_right fun _ => eq_comm

theorem map_fst_without (entries : List (κ × α)) (key : κ) :
    (without entries key).map Prod.fst = (entries.map Prod.fst).filter (· ≠ key) := by
  rw [List.filter_map]
  rfl

theorem mem_without_iff {entries : List (κ × α)} {entry : κ × α} :
    entry ∈ without entries key ↔ entry ∈ entries ∧ entry.1 ≠ key := by
  simp [without]

theorem length_without_lt_of_lookup {entries : List (κ × α)} (h : (entries.lookup key).isSome) :
    (without entries key).length < entries.length := by
  obtain ⟨entry, hentry, hkey⟩ := List.mem_map.1 (lookup_isSome_iff.1 h)
  exact List.length_filter_lt_length_iff_exists.2 ⟨entry, hentry, by simpa using hkey⟩

theorem without_of_lookup_none {entries : List (κ × α)} (h : entries.lookup key = none) :
    without entries key = entries := by
  refine List.filter_eq_self.2 fun entry hentry => ?_
  have hne : key ≠ entry.1 := bne_iff_ne.1 (List.lookup_eq_none_iff.1 h entry hentry)
  exact decide_eq_true hne.symm

/-- A value that is stored takes the last place, and the oldest entry makes room where it must. -/
theorem entries_insert (h : cache.size ≤ cache.capacity) (key : κ) (value : α) :
    (cache.insert key value).entries =
      (without cache.entries key).rtake (cache.capacity - 1) ++ [(key, value)] := by
  have hpos := cache.capacity_pos
  have hlength : (without cache.entries key).length ≤ cache.entries.length :=
    List.length_filter_le _ _
  rw [size] at h
  by_cases hfull : cache.capacity ≤ (without cache.entries key).length
  · have hdrop : (without cache.entries key).length - (cache.capacity - 1) = 1 := by omega
    rw [insert, if_pos hfull, List.rtake, hdrop]
  · rw [insert, if_neg hfull, rtake_of_length_le (by omega)]

/-- Storing a value is no lookup. -/
theorem insert_rest (cache : RecencyCache κ α) (key : κ) (value : α) :
    (cache.insert key value).capacity = cache.capacity ∧
      (cache.insert key value).stats.hits = cache.stats.hits ∧
      (cache.insert key value).stats.misses = cache.stats.misses := by
  rw [insert]
  by_cases hfull : cache.capacity ≤ (without cache.entries key).length
  · rw [if_pos hfull]
    exact ⟨rfl, rfl, rfl⟩
  · rw [if_neg hfull]
    exact ⟨rfl, rfl, rfl⟩

theorem evictions_insert (h : cache.size ≤ cache.capacity) (key : κ) (value : α) :
    (cache.insert key value).stats.evictions =
      if (cache.get key).1.isNone ∧ cache.size = cache.capacity then cache.stats.evictions + 1
      else cache.stats.evictions := by
  have hoverflow : cache.capacity ≤ (without cache.entries key).length ↔
      (cache.get key).1.isNone ∧ cache.size = cache.capacity := by
    rw [size] at h ⊢
    rw [get_fst]
    cases hlookup : cache.entries.lookup key with
    | none =>
      rw [without_of_lookup_none hlookup]
      simp only [Option.isNone_none, true_and]
      omega
    | some found =>
      have hless := length_without_lt_of_lookup (by rw [hlookup, Option.isSome_some])
      simp only [Option.isNone_some, Bool.false_eq_true, false_and, iff_false]
      omega
  rw [insert]
  by_cases hfull : cache.capacity ≤ (without cache.entries key).length
  · rw [if_pos hfull, if_pos (hoverflow.1 hfull)]
  · rw [if_neg hfull, if_neg fun hmust => hfull (hoverflow.2 hmust)]

/-- A cache holds the keys that were used last, each with the value that was stored for it last, and has given
up as many as had to make room. -/
structure Tracks (cache : RecencyCache κ α) (history : CacheHistory κ α) : Prop where
  keys : cache.entries.map Prod.fst = mostRecent cache.capacity history.touches
  values : ∀ entry ∈ cache.entries, history.stored.lookup entry.1 = some entry.2
  evictions : cache.stats.evictions = history.overflows

theorem Tracks.size_le (h : cache.Tracks history) : cache.size ≤ cache.capacity := by
  have hlength := congrArg List.length h.keys
  rw [List.length_map] at hlength
  rw [size, hlength]
  exact length_rtake_le _ _

/-- However a key is used, it takes the last place. -/
theorem Tracks.use (h : cache.Tracks history) (hcapacity : after.capacity = cache.capacity)
    (hentries : after.entries =
      (without cache.entries key).rtake (cache.capacity - 1) ++ [(key, value)])
    (htouches : later.touches = history.touches ++ [key])
    (hstored : later.stored.lookup key = some value)
    (hothers : ∀ other, other ≠ key → later.stored.lookup other = history.stored.lookup other)
    (hevictions : after.stats.evictions = later.overflows) : after.Tracks later := by
  refine ⟨?_, ?_, hevictions⟩
  · obtain ⟨room, hroom⟩ := Nat.exists_eq_succ_of_ne_zero cache.capacity_pos.ne'
    have hkeys := h.keys
    rw [hroom] at hkeys
    rw [hentries, hcapacity, htouches, hroom, mostRecent_concat, ← hkeys, ← map_fst_without]
    simp [List.rtake]
  · intro entry hentry
    rw [hentries] at hentry
    obtain hold | hnew := List.mem_append.1 hentry
    · obtain ⟨hmem, hne⟩ := mem_without_iff.1 (List.mem_of_mem_drop hold)
      rw [hothers entry.1 hne]
      exact h.values entry hmem
    · rw [List.mem_singleton.1 hnew]
      exact hstored

theorem Tracks.get_of_lookup (h : cache.Tracks history)
    (hlookup : cache.entries.lookup key = some value) :
    (cache.get key).2.Tracks { history with touches := history.touches ++ [key] } := by
  have hless := length_without_lt_of_lookup (by rw [hlookup, Option.isSome_some])
  have hsize := h.size_le
  rw [size] at hsize
  rw [RecencyCache.get_of_lookup hlookup]
  refine h.use rfl ?_ rfl (h.values _ (mem_entries_of_lookup hlookup)) (fun _ _ => rfl) h.evictions
  rw [rtake_of_length_le (by omega)]

theorem Tracks.insert (h : cache.Tracks history) (key : κ) (value : α) :
    (cache.insert key value).Tracks (noteStored cache history key value) := by
  refine h.use (insert_rest cache key value).1 (entries_insert h.size_le key value) rfl ?_ ?_ ?_
  · rw [noteStored, List.lookup_cons_self]
  · intro other hne
    rw [noteStored, List.lookup_cons, beq_eq_false_iff_ne.2 hne]
  · rw [evictions_insert h.size_le, noteStored, h.evictions]

theorem noteStored_congr (hentries : after.entries = cache.entries)
    (hcapacity : after.capacity = cache.capacity) :
    noteStored after history key value = noteStored cache history key value := by
  simp only [noteStored, get_fst, size, hentries, hcapacity]

/-- What a call can do to a cache, by whether a value is looked up: a value is found, none is found, one is
stored, none is found so that one is stored, or the cache is cleared. -/
inductive Effect (cache : RecencyCache κ α) (history : CacheHistory κ α) :
    Bool → RecencyCache κ α → CacheHistory κ α → Prop where
  | hit {key : κ} {value : α} (h : cache.entries.lookup key = some value) :
    Effect cache history true (cache.get key).2 { history with touches := history.touches ++ [key] }
  | miss {key : κ} (h : cache.entries.lookup key = none) :
    Effect cache history true (cache.get key).2 history
  | store (key : κ) (value : α) :
    Effect cache history false (cache.insert key value) (noteStored cache history key value)
  | missStore {key : κ} (h : cache.entries.lookup key = none) (value : α) :
    Effect cache history true ((cache.get key).2.insert key value)
      (noteStored cache history key value)
  | clear : Effect cache history false cache.clear { history with touches := [] }

theorem effect_perform (cache : RecencyCache κ α) (history : CacheHistory κ α)
    (call : CacheCall κ α ε) :
    cache.Effect history call.looksUp (cache.perform call) (cache.note history call) := by
  cases call with
  | get key =>
    rw [perform, note, get_fst]
    cases hlookup : cache.entries.lookup key with
    | none => exact .miss hlookup
    | some value => exact .hit hlookup
  | insert key value => exact .store key value
  | getOrInsert key compute =>
    rw [perform, note, get_fst]
    cases hlookup : cache.entries.lookup key with
    | some value =>
      rw [getOrInsert_of_lookup hlookup]
      exact .hit hlookup
    | none =>
      rw [getOrInsert_of_lookup_none hlookup]
      cases compute with
      | error failure => exact .miss hlookup
      | ok value => exact .missStore hlookup value
  | clear => exact .clear

variable {looksUp : Bool}

theorem Effect.capacity_eq (h : cache.Effect history looksUp after later) :
    after.capacity = cache.capacity := by
  cases h with
  | @hit key _ _ => exact (get_rest cache key).1
  | @miss key _ => exact (get_rest cache key).1
  | store key value => exact (insert_rest cache key value).1
  | @missStore key _ value => exact (insert_rest _ key value).1.trans (get_rest cache key).1
  | clear => rfl

/-- A value that is looked up counts as a hit or a miss, and nothing else does. -/
theorem Effect.lookups (h : cache.Effect history looksUp after later) :
    after.stats.hits + after.stats.misses =
      cache.stats.hits + cache.stats.misses + looksUp.toNat := by
  cases h with
  | @hit key _ _ => exact (get_rest cache key).2
  | @miss key _ => exact (get_rest cache key).2
  | store key value =>
    obtain ⟨_, hhits, hmisses⟩ := insert_rest cache key value
    rw [hhits, hmisses]
    rfl
  | @missStore key _ value =>
    obtain ⟨_, hhits, hmisses⟩ := insert_rest (cache.get key).2 key value
    rw [hhits, hmisses]
    exact (get_rest cache key).2
  | clear => rfl

/-- Whatever is done with a cache, it goes on to hold what its history tells. -/
theorem Effect.tracks (heffect : cache.Effect history looksUp after later)
    (h : cache.Tracks history) : after.Tracks later := by
  have hmissed : ∀ key, cache.entries.lookup key = none → (cache.get key).2.Tracks history := by
    intro key hlookup
    rw [get_of_lookup_none hlookup]
    exact ⟨h.keys, h.values, h.evictions⟩
  cases heffect with
  | hit hlookup => exact h.get_of_lookup hlookup
  | @miss key hlookup => exact hmissed key hlookup
  | store key value => exact h.insert key value
  | @missStore key hlookup value =>
    have hsame : noteStored (cache.get key).2 history key value =
        noteStored cache history key value := by
      rw [get_of_lookup_none hlookup]
      exact noteStored_congr rfl rfl
    rw [← hsame]
    exact (hmissed key hlookup).insert key value
  | clear => exact ⟨by simp [RecencyCache.clear, mostRecent], by simp [RecencyCache.clear], h.evictions⟩

theorem run_concat (capacity : Nat) (calls : List (CacheCall κ α ε)) (call : CacheCall κ α ε) :
    run capacity (calls ++ [call]) =
      ((run capacity calls).1.perform call,
        (run capacity calls).1.note (run capacity calls).2 call) := by
  rw [run, List.foldl_append]
  rfl

theorem capacity_run (capacity : Nat) (calls : List (CacheCall κ α ε)) :
    (run capacity calls).1.capacity = max capacity 1 := by
  induction calls using List.reverseRecOn with
  | nil => rfl
  | append_singleton calls call ih =>
    rw [run_concat, (effect_perform _ (run capacity calls).2 call).capacity_eq, ih]

theorem tracks_run (capacity : Nat) (calls : List (CacheCall κ α ε)) :
    (run capacity calls).1.Tracks (run capacity calls).2 := by
  induction calls using List.reverseRecOn with
  | nil => exact ⟨by simp [run, ofCapacity, mostRecent], by simp [run, ofCapacity], rfl⟩
  | append_singleton calls call ih =>
    rw [run_concat]
    exact (effect_perform _ _ call).tracks ih

theorem lookups_run (capacity : Nat) (calls : List (CacheCall κ α ε)) :
    (run capacity calls).1.stats.hits + (run capacity calls).1.stats.misses =
      calls.countP CacheCall.looksUp := by
  induction calls using List.reverseRecOn with
  | nil => rfl
  | append_singleton calls call ih =>
    rw [run_concat, (effect_perform _ (run capacity calls).2 call).lookups, ih, List.countP_append,
      List.countP_singleton]
    cases call.looksUp <;> rfl

theorem entries_getOrInsert_of_error {compute : Except ε α} {failure : ε}
    (h : (cache.getOrInsert key compute).1 = .error failure) :
    (cache.getOrInsert key compute).2.entries = cache.entries := by
  cases hlookup : cache.entries.lookup key with
  | some value =>
    rw [getOrInsert_of_lookup hlookup] at h
    cases h
  | none =>
    rw [getOrInsert_of_lookup_none hlookup] at h ⊢
    cases h
    rw [get_of_lookup_none hlookup]
    rfl

/-- A cache holds what was used last. After any calls to an empty cache, it holds exactly the keys that were
used last since it was cleared, as many as it has room for and at least one, each with the value that was
stored for it last. A key thus has a value iff it was used and fewer others than there is room for have been
used since. The cache is never larger than that, each lookup was a hit or a miss, an entry was given up
whenever a value was stored for another key in a full cache, and a computation that fails leaves the entries
as they are. -/
theorem run_most_recent (capacity : Nat) (calls : List (CacheCall κ α ε)) :
    (run capacity calls).1.entries.map Prod.fst =
        mostRecent (max capacity 1) (run capacity calls).2.touches ∧
      (∀ key value, (key, value) ∈ (run capacity calls).1.entries →
        (run capacity calls).2.stored.lookup key = some value) ∧
      (∀ key, ((run capacity calls).1.get key).1.isSome ↔
        ∃ older newer, (run capacity calls).2.touches = older ++ key :: newer ∧ key ∉ newer ∧
          newer.toFinset.card < max capacity 1) ∧
      (run capacity calls).1.size ≤ max capacity 1 ∧
      (run capacity calls).1.stats.hits + (run capacity calls).1.stats.misses =
        calls.countP CacheCall.looksUp ∧
      (run capacity calls).1.stats.evictions = (run capacity calls).2.overflows ∧
      ∀ (key : κ) (compute : Except ε α) (failure : ε),
        ((run capacity calls).1.getOrInsert key compute).1 = .error failure →
          ((run capacity calls).1.getOrInsert key compute).2.entries =
            (run capacity calls).1.entries := by
  have htracks := tracks_run capacity calls
  have hcapacity := capacity_run capacity calls
  have hkeys := htracks.keys
  have hsize := htracks.size_le
  rw [hcapacity] at hkeys hsize
  refine ⟨hkeys, fun key value => htracks.values (key, value), fun key => ?_, hsize,
    lookups_run capacity calls, htracks.evictions, fun _ _ _ => entries_getOrInsert_of_error⟩
  rw [get_fst, lookup_isSome_iff, hkeys, mem_mostRecent_iff]

/-- Three values for a cache with room for two, of which the first is looked up before the third comes. -/
def crowdedCalls : List (CacheCall Nat String String) :=
  [.insert 1 "one", .insert 2 "two", .get 1, .insert 3 "three", .getOrInsert 2 (.error "gone")]

/-- The second value has made room, and a computation of it that fails changes nothing. -/
theorem run_most_recent_crowded :
    (run 2 crowdedCalls).2.touches = [1, 2, 1, 3] ∧
      (run 2 crowdedCalls).1.entries.map Prod.fst = mostRecent 2 [1, 2, 1, 3] ∧
      mostRecent 2 [1, 2, 1, 3] = [1, 3] ∧
      (run 2 crowdedCalls).2.stored.lookup 1 = some "one" ∧
      ((run 2 crowdedCalls).1.get 2).1.isSome = false ∧
      (run 2 crowdedCalls).1.stats.hits + (run 2 crowdedCalls).1.stats.misses = 2 ∧
      (run 2 crowdedCalls).1.stats.evictions = 1 ∧
      ((run 2 crowdedCalls).1.getOrInsert 2 (.error "gone")).2.entries =
        (run 2 crowdedCalls).1.entries := by
  have htouches : (run 2 crowdedCalls).2.touches = [1, 2, 1, 3] := by decide
  obtain ⟨hkeys, hvalues, _, _, hlookups, hevictions, hfailing⟩ := run_most_recent 2 crowdedCalls
  rw [htouches] at hkeys
  refine ⟨htouches, hkeys, by decide, hvalues 1 "one" (by decide), by decide, hlookups,
    hevictions.trans (by decide), hfailing 2 (.error "gone") "gone" rfl⟩

end RecencyCache

end LinkCheck
