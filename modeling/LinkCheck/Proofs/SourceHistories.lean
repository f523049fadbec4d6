import LinkCheck.Proofs.ComposedSources

/-!
# Sources over a history of calls

Several sources on one shelf may be asked in turn. Whatever they are asked, the files stay as they are and
what is remembered stays right, so all that holds of a shelf on which right things are remembered holds
after any history of calls.

## Main definitions

- `Shelf.Unused` — nothing is remembered for sources that are still to be made
- `Inventory.only` — one source

## Main results

- `Shelf.Unused.truthful` — what is remembered is right when sources have just been made
- `SourceCall.keeps_perform`, `SourceCall.keeps_performAll` — one call, and a history of calls
-/

namespace LinkCheck

/-- Nothing is remembered under numbers that no source has yet. -/
structure Shelf.Unused (shelf : Shelf) : Prop where
  archives : ∀ id, shelf.nextId ≤ id → shelf.archives.get? id = none
  directories : ∀ id, shelf.nextId ≤ id → shelf.directories.get? id = none
  memos : ∀ id, shelf.nextId ≤ id → shelf.memos.get? id = none

theorem Shelf.unused_blank (files : FileTree) : (Shelf.blank files).Unused :=
  ⟨fun _ _ => rfl, fun _ _ => rfl, fun _ _ => rfl⟩

/-- Of sources that have just been made nothing is remembered. -/
theorem Shelf.Unused.truthful {shelf : Shelf} {inventory : Inventory} {nextId : Nat}
    (h : shelf.Unused) (hnext : shelf.nextId ≤ nextId)
    (hnew : ∀ id source, inventory id = some source → shelf.nextId ≤ id ∧ id < nextId) :
    ({ shelf with nextId } : Shelf).Truthful inventory where
  archive := fun {id archive} hid => by
    have hblank : ({ shelf with nextId } : Shelf).archiveState id archive =
        { cache := .ofCapacity archive.capacity } := by
      rw [archiveState, h.archives id (hnew id _ hid).1]
      rfl
    rw [hblank]
    exact .blank archive shelf.files
  directory := fun {id directory} hid => by
    have hblank : ({ shelf with nextId } : Shelf).directoryState id directory =
        { cache := .ofCapacity directory.capacity } := by
      rw [directoryState, h.directories id (hnew id _ hid).1]
      rfl
    rw [hblank]
    exact .blank directory shelf.files
  memo := fun {id _} hid _ _ hresult => by
    rw [memo, h.memos id (hnew id _ hid).1] at hresult
    cases hresult
  numbered := fun hid => (hnew _ _ hid).2
  unused := fun {id} hid name => by
    rw [memo, h.memos id (Nat.le_trans hnext hid)]
    rfl

/-- One source, under its number. -/
def Inventory.only (id : Nat) (source : ClassSource) : Inventory :=
  fun number => if number = id then some source else none

theorem Inventory.only_self (id : Nat) (source : ClassSource) :
    Inventory.only id source id = some source :=
  if_pos rfl

theorem Shelf.Unused.truthful_only {shelf : Shelf} {id nextId : Nat} (h : shelf.Unused)
    (hnew : shelf.nextId ≤ id) (hnext : id < nextId) (source : ClassSource) :
    ({ shelf with nextId } : Shelf).Truthful (.only id source) := by
  refine h.truthful (by omega) fun number other hother => ?_
  obtain ⟨rfl, -⟩ := Option.ite_none_right_eq_some.1 hother
  exact ⟨hnew, hnext⟩

namespace ClassSource

variable {shelf : Shelf}

theorem run_get_bind {α : Type} (next : Shelf → Opening α) :
    (get >>= next).run.run shelf = (next shelf).run.run shelf := rfl

theorem run_liftM_bind {α β : Type} {result : Except OpenError α} {value : α}
    (h : result = .ok value) (next : α → Opening β) :
    (liftM result >>= next).run.run shelf = (next value).run.run shelf := by
  rw [h]
  rfl

end ClassSource

namespace ClassSource.Grounded

variable {inventory : Inventory} {shelf : Shelf} {source : ClassSource}

theorem contains_keeps (h : source.Grounded inventory shelf.files)
    (htruthful : shelf.Truthful inventory) (name : ClassName) :
    shelf.Keeps inventory ((source.contains name).run shelf).2 := by
  induction h with
  | empty | read | indexed | union => exact .refl htruthful
  | directory hid => exact (ClassDirectory.contains_steady htruthful hid name).2
  | caching _ _ ih => exact ih

theorem locate_keeps (h : source.Grounded inventory shelf.files)
    (htruthful : shelf.Truthful inventory) (name : ClassName) :
    shelf.Keeps inventory ((source.locate name).run shelf).2 := by
  induction h with
  | empty | read | indexed => exact .refl htruthful
  | directory hid => exact (ClassDirectory.contains_steady htruthful hid name).2
  | @union id moniker children _ _ ih =>
    change shelf.Keeps inventory ((locateOwned name children).run shelf).2
    rw [locateOwned_eq]
    cases howner : owner? name children with
    | none => exact .refl htruthful
    | some child =>
      obtain ⟨part, hpart, rfl, _⟩ := exists_of_owner? howner
      exact ih part hpart
  | caching _ _ ih => exact ih

end ClassSource.Grounded

namespace SourceCall

variable {inventory : Inventory} {shelf : Shelf} {source : ClassSource}

theorem keeps_perform (h : source.Grounded inventory shelf.files)
    (htruthful : shelf.Truthful inventory) (call : SourceCall) :
    shelf.Keeps inventory ((call.perform source).run shelf).2 := by
  cases call with
  | find name => exact (h.find htruthful name).2
  | contains name => exact h.contains_keeps htruthful name
  | locate name => exact h.locate_keeps htruthful name
  | names => exact (h.names htruthful).2
  | isEmpty => exact (h.isEmpty htruthful).2
  | close => exact h.close shelf rfl htruthful

/-- Sources may be asked in turn, as often as one likes. -/
theorem keeps_performAll (calls : List (ClassSource × SourceCall))
    (h : ∀ call ∈ calls, call.1.Grounded inventory shelf.files)
    (htruthful : shelf.Truthful inventory) :
    shelf.Keeps inventory ((calls.forM fun call => call.2.perform call.1).run shelf).2 := by
  induction calls generalizing shelf with
  | nil => exact .refl htruthful
  | cons call calls ih =>
    have hfirst := keeps_perform (h call List.mem_cons_self) htruthful call.2
    have hrest := ih (fun other hother => hfirst.files ▸ h other (.tail _ hother)) hfirst.truthful
    exact hfirst.trans hrest

theorem keeps_performEach (calls : List SourceCall) (h : source.Grounded inventory shelf.files)
    (htruthful : shelf.Truthful inventory) :
    shelf.Keeps inventory ((calls.forM (perform source)).run shelf).2 := by
  have hkeeps := keeps_performAll (calls.map (source, ·)) (by simpa using fun _ _ => h) htruthful
  rwa [List.forM_eq_forM, List.forM_map] at hkeeps

end SourceCall

end LinkCheck
