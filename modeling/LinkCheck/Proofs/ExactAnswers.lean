import LinkCheck.Proofs.LayeredSources

/-!
# Coherent sources answer exactly

A coherent source finds exactly the names that it lists. This is so at all times, whatever has been asked
before: a caching source may be asked for names that are not listed, but then it remembers that there is
nothing.

## Main definitions

- `Shelf.Exact` — what is remembered is right, for names that are listed and for others

## Main results

- `ClassSource.coherent_unionOf` — a union of coherent sources is coherent
- `ClassSource.exact_unionOf` — making a union keeps what is remembered right
- `ClassSource.Grounded.find_exact`, `ClassSource.Grounded.find_eq` — what a coherent source finds
-/

namespace LinkCheck

/-- What is remembered is right, and of a name that is not listed it is that there is nothing. -/
structure Shelf.Exact (inventory : Inventory) (shelf : Shelf) : Prop
    extends Shelf.Truthful inventory shelf where
  unlisted : ∀ {id : Nat} {inner : ClassSource}, inventory id = some (.caching id inner) →
    ∀ {name : ClassName} {result : FindResult}, (shelf.memo id).get? name = some result →
      name ∉ inner.listed shelf.files → result = .ok none

theorem Shelf.memo_eq {shelf after : Shelf} (h : after.memos = shelf.memos) (id : Nat) :
    after.memo id = shelf.memo id := by
  simp only [memo, h]

/-- What is remembered stays exact as long as no answer is put down. -/
theorem Shelf.Exact.of_memos {inventory : Inventory} {shelf after : Shelf}
    (h : shelf.Exact inventory) (hkeeps : shelf.Keeps inventory after)
    (hmemos : after.memos = shelf.memos) : after.Exact inventory where
  toTruthful := hkeeps.truthful
  unlisted := fun hid _ _ hresult hname => by
    rw [memo_eq hmemos] at hresult
    rw [hkeeps.files] at hname
    exact h.unlisted hid hresult hname

namespace ClassSource

variable {inventory : Inventory} {shelf : Shelf} {files : FileTree} {source : ClassSource}
  {sources : List ClassSource} {name : ClassName}

theorem Coherent.read_archive (files : FileTree) (id : Nat) (archive : ReadArchive) :
    (read id archive).Coherent files where
  contains_iff := fun name => (Table.mem_keys_iff archive.classes name).symm
  find_iff := fun name => by
    change archive.find name ≠ .ok none ↔ name ∈ archive.classes.keys
    rw [Table.mem_keys_iff, Table.contains, ReadArchive.find]
    cases archive.classes.get? name with
    | none => simp
    | some result => cases result <;> simp [Functor.map, Except.map]
  empty := List.isEmpty_iff.1

theorem Coherent.of_caching {id : Nat} {inner : ClassSource} (h : (caching id inner).Coherent files) :
    inner.Coherent files where
  contains_iff := h.contains_iff
  find_iff := fun name => answer_caching files id inner name ▸ h.find_iff name
  empty := h.empty

/-- No part is asked for a name that belongs to none. -/
theorem run_findOwned_of_not_mem {children : List (List ClassName × ClassSource)}
    (h : name ∉ children.flatMap Prod.fst) : (findOwned name children).run shelf = (.ok none, shelf) := by
  rw [findOwned_eq, owner?_eq_none_iff.2 h]
  rfl

/-- A union is coherent if it has an answer for each name that it lists. -/
theorem Definite.coherent_union {id : Nat} {moniker : String}
    {children : List (List ClassName × ClassSource)} (h : (union id moniker children).Definite files) :
    (union id moniker children).Coherent files where
  contains_iff := fun name => by
    change (children.any fun child => decide (name ∈ child.1)) = true ↔
      name ∈ children.flatMap Prod.fst
    simp
  find_iff := fun name => by
    refine ⟨fun hfound => ?_, h.found name⟩
    by_cases hname : name ∈ children.flatMap Prod.fst
    · exact hname
    · exact absurd (congrArg Prod.fst (run_findOwned_of_not_mem hname)) hfound
  empty := h.empty

/-- A union of coherent sources is coherent. -/
theorem coherent_unionOf (htruthful : shelf.Truthful inventory)
    (h : ∀ source ∈ sources, source.Grounded inventory shelf.files)
    (hcoherent : ∀ source ∈ sources, source.Coherent shelf.files) :
    ((unionOf sources).run shelf).1.Coherent shelf.files := by
  have hdefinite : ∀ source ∈ sources, source.Definite shelf.files :=
    fun source hsource => (hcoherent source hsource).definite
  obtain ⟨_, kept, hsuffices, hmade⟩ := unionOf_cases htruthful h
  obtain ⟨-, id, hempty⟩ | hsingle | ⟨id, moniker, hunion⟩ := hmade
  · rw [hempty]
    exact .empty_source shelf.files id
  · exact hcoherent _ (hsuffices.mem _ (hsingle ▸ List.mem_singleton_self _))
  · rw [hunion]
    exact (hsuffices.layers_union id moniker hdefinite).definite.coherent_union

theorem memos_names (source : ClassSource) (shelf : Shelf) :
    (source.names.run shelf).2.memos = shelf.memos := by
  match source with
  | empty _ | read _ _ | indexed _ _ | union _ _ _ => rfl
  | directory id classFiles =>
    change ((classFiles.names id).run shelf).2.memos = shelf.memos
    rw [ClassDirectory.run_names]
    cases (shelf.directoryState id classFiles).names <;> rfl
  | caching _ inner => exact memos_names inner shelf

theorem memos_mapM_withNames (sources : List ClassSource) (shelf : Shelf) :
    ((sources.mapM withNames).run shelf).2.memos = shelf.memos := by
  induction sources generalizing shelf with
  | nil => rfl
  | cons source sources ih =>
    rw [List.mapM_cons, StateT.run_bind]
    change (((sources.mapM withNames) >>= _).run (source.names.run shelf).2).2.memos = shelf.memos
    rw [StateT.run_bind]
    exact (ih _).trans (memos_names source shelf)

theorem memos_unionOf (sources : List ClassSource) (shelf : Shelf) :
    ((unionOf sources).run shelf).2.memos = shelf.memos := by
  obtain ⟨_, hrun⟩ | ⟨source, _, hrun⟩ | hrun := run_unionOf sources shelf
  · rw [hrun]
    rfl
  · rw [hrun]
  · rw [hrun]
    exact memos_mapM_withNames (filled shelf sources) shelf

/-- Making a union keeps what is remembered right, for all names. -/
theorem exact_unionOf (hexact : shelf.Exact inventory)
    (h : ∀ source ∈ sources, source.Grounded inventory shelf.files) :
    ((unionOf sources).run shelf).2.Exact inventory :=
  hexact.of_memos (unionOf_cases hexact.toTruthful h).1 (memos_unionOf sources shelf)

theorem memos_directory_contains (directory : ClassDirectory) (id : Nat) (name : ClassName)
    (shelf : Shelf) : ((directory.contains id name).run shelf).2.memos = shelf.memos := by
  rw [ClassDirectory.run_contains]
  cases (shelf.directoryState id directory).names with
  | some names => rfl
  | none =>
    dsimp only
    split
    · rfl
    · rw [ClassDirectory.run_listing]
      cases (shelf.directoryState id directory).listings.get? name.package <;> rfl

theorem memos_directory_find (directory : ClassDirectory) (id : Nat) (name : ClassName)
    (shelf : Shelf) : ((directory.find id name).run shelf).2.memos = shelf.memos := by
  rw [ClassDirectory.run_find]
  split
  · dsimp only
    generalize RecencyCache.get _ name = found
    obtain ⟨_ | _, cache⟩ := found
    · exact memos_directory_contains directory id name shelf
    · exact memos_directory_contains directory id name shelf
  · exact memos_directory_contains directory id name shelf

theorem memos_archive_find (archive : IndexedArchive) (id : Nat) (name : ClassName)
    (shelf : Shelf) : ((archive.find id name).run shelf).2.memos = shelf.memos := by
  rw [IndexedArchive.run_find]
  cases archive.entries.get? name with
  | none => rfl
  | some entry =>
    dsimp only
    generalize RecencyCache.get _ name = found
    obtain ⟨_ | _, cache⟩ := found
    · rfl
    · rfl

/-- A directory contains no other names than those it lists, if it does so when nothing is remembered. -/
theorem directory_contains_unlisted {directory : ClassDirectory} {id : Nat}
    (htruthful : shelf.Truthful inventory) (hid : inventory id = some (.directory id directory))
    (hname : name ∉ directory.walk shelf.files)
    (hblank : ((directory.contains id name).run (.blank shelf.files)).1 ≠ true) :
    ((directory.contains id name).run shelf).1 ≠ true := by
  rw [ne_eq, ClassDirectory.contains_blank] at hblank
  rw [ClassDirectory.run_contains]
  cases hnames : (shelf.directoryState id directory).names with
  | some names =>
    rw [← (htruthful.directory hid).names names hnames] at hname
    simpa using hname
  | none =>
    have hlisting := (ClassDirectory.listing_steady htruthful hid name.package).1
    dsimp only
    split
    · exact Bool.false_ne_true
    · next harray =>
      simp only [hlisting]
      exact fun hlisted => hblank ⟨by simpa using harray, of_decide_eq_true hlisted⟩

/-- What is remembered stays exact when the part of a union that owns a name is asked for it. -/
theorem findOwned_exact {children : List (List ClassName × ClassSource)}
    (hexact : shelf.Exact inventory)
    (howned : ∀ part ∈ children, ∀ name ∈ part.1, name ∈ part.2.listed shelf.files)
    (h : ∀ part ∈ children, name ∈ part.2.listed shelf.files →
      ((part.2.find name).run shelf).2.Exact inventory) :
    ((findOwned name children).run shelf).2.Exact inventory := by
  rw [findOwned_eq]
  cases howner : owner? name children with
  | none => exact hexact
  | some child =>
    obtain ⟨part, hpart, rfl, hname⟩ := exists_of_owner? howner
    exact h part hpart (howned part hpart name hname)

theorem Coherent.answer_unlisted (h : source.Coherent files) (hname : name ∉ source.listed files) :
    source.answer files name = .ok none :=
  Classical.byContradiction fun hfound => hname ((h.find_iff name).1 hfound)

/-- Looking for a name keeps what is remembered exact, and a coherent source does not find a name that it
does not list. The parts of a union need not be coherent, as they are asked for their own names only. -/
theorem Grounded.find_exact (h : source.Grounded inventory shelf.files)
    (hexact : shelf.Exact inventory)
    (hname : name ∈ source.listed shelf.files ∨ source.Coherent shelf.files) :
    (name ∉ source.listed shelf.files → ((source.find name).run shelf).1 = .ok none) ∧
      ((source.find name).run shelf).2.Exact inventory := by
  induction h with
  | empty | read =>
    exact ⟨fun hnot => (hname.resolve_left hnot).answer_unlisted hnot, hexact⟩
  | @indexed id archive hid =>
    obtain ⟨hanswer, hkeeps⟩ := IndexedArchive.find_steady hexact.toTruthful hid
    refine ⟨fun hnot => hanswer.trans ((hname.resolve_left hnot).answer_unlisted hnot), ?_⟩
    exact hexact.of_memos hkeeps (memos_archive_find archive id name shelf)
  | @directory id classFiles hid =>
    have hkeeps := ClassDirectory.find_keeps hexact.toTruthful hid name
    refine ⟨fun hnot => ?_, hexact.of_memos hkeeps (memos_directory_find classFiles id name shelf)⟩
    apply ClassDirectory.find_of_not_contains
    refine directory_contains_unlisted hexact.toTruthful hid hnot fun hcontains => hnot ?_
    exact ((hname.resolve_left hnot).contains_iff name).1 hcontains
  | union id moniker howned _ ih =>
    refine ⟨fun hnot => congrArg Prod.fst (run_findOwned_of_not_mem hnot), ?_⟩
    exact findOwned_exact hexact howned fun part hpart hlisted => (ih part hpart (.inl hlisted)).2
  | @caching id inner hid hinner ih =>
    obtain ⟨hnone, hafter⟩ := ih (hname.imp_right Coherent.of_caching)
    cases hmemo : (shelf.memo id).get? name with
    | some result =>
      rw [run_find_remembered hmemo]
      exact ⟨hexact.unlisted hid hmemo, hexact⟩
    | none =>
      rw [run_find_anew hmemo]
      obtain ⟨hanswers, hkeeps⟩ := hinner.find hexact.toTruthful name
      have hfiles := hkeeps.files
      rw [← hfiles] at hanswers
      refine ⟨hnone, ⟨(Shelf.Keeps.addMemo hkeeps.truthful hid hanswers).truthful, ?_⟩⟩
      intro other kind hother key result hresult hunlisted
      rw [Shelf.memo_addMemo] at hresult
      split at hresult
      · next hsame =>
        subst hsame
        cases hid.symm.trans hother
        rw [Table.get?_insert] at hresult
        split at hresult
        · next hkey =>
          subst hkey
          cases hresult
          apply hnone
          rw [← hfiles]
          exact hunlisted
        · exact hafter.unlisted hother hresult hunlisted
      · exact hafter.unlisted hother hresult hunlisted

/-- A coherent source finds at all times what it tells of a name, and nothing for names that it does not
list. -/
theorem Grounded.find_eq (h : source.Grounded inventory shelf.files) (hexact : shelf.Exact inventory)
    (hcoherent : source.Coherent shelf.files) (name : ClassName) :
    ((source.find name).run shelf).1 = (source.told? shelf.files name).getD (.ok none) := by
  rw [told?]
  split
  · next hlisted =>
    exact (h.find hexact.toTruthful name).1 hlisted ((hcoherent.find_iff name).2 hlisted)
  · next hunlisted => exact (h.find_exact hexact (.inr hcoherent)).1 hunlisted

end ClassSource

end LinkCheck
