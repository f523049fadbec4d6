import LinkCheck.Proofs.Runs
import LinkCheck.Proofs.SteadyAnswers

/-!
# Layers of sources

Sources that are laid one behind the other answer like the first of them that lists the name. Leaving out
empty sources, and keeping a single source as it is, makes no difference.

## Main definitions

- `ClassSource.told?` — the answer of a source for a name that it lists
- `ClassSource.Definite` — a source with an answer for each name that it lists
- `ClassSource.Layers` — a source that answers like the first of some sources

## Main results

- `ClassSource.run_unionOf` — what is made of sources that are laid one behind the other
- `ClassSource.layers_unionOf` — a union is made of sources that an inventory knows, and answers like the
  first of them
-/

namespace LinkCheck

namespace ClassSource

/-- The answer of a source for a name that it lists. -/
def told? (files : FileTree) (name : ClassName) (source : ClassSource) : Option FindResult :=
  if name ∈ source.listed files then some (source.answer files name) else none

/-- A source with an answer for each name that it lists, which is empty only if it lists none. -/
structure Definite (files : FileTree) (source : ClassSource) : Prop where
  empty : (source.isEmpty.run (.blank files)).1 = true → source.listed files = []
  found : ∀ name ∈ source.listed files, source.answer files name ≠ .ok none

/-- A source that answers like the first of some sources that lists the name. -/
structure Layers (files : FileTree) (sources : List ClassSource) (source : ClassSource) : Prop where
  definite : source.Definite files
  told : ∀ name, source.told? files name = sources.findSome? (told? files name)

variable {inventory : Inventory} {files : FileTree} {name : ClassName}

theorem Coherent.definite {source : ClassSource} (h : source.Coherent files) :
    source.Definite files :=
  ⟨h.empty, fun name hname => (h.find_iff name).2 hname⟩

/-- What is told is not that there is nothing. -/
theorem Definite.ne_none_of_told {source : ClassSource} (h : source.Definite files)
    {result : FindResult} (htold : source.told? files name = some result) : result ≠ .ok none := by
  unfold told? at htold
  split at htold
  · next hlisted =>
    cases htold
    exact h.found name hlisted
  · cases htold

-- ════════════════════════════════════════════════════════════════════════
-- Unions
-- ════════════════════════════════════════════════════════════════════════

/-- A union answers like the part that a name belongs to. -/
theorem told?_union (id : Nat) (moniker : String) (children : List (List ClassName × ClassSource)) :
    (union id moniker children).told? files name =
      (owner? name children).map (·.answer files name) := by
  have hlisted : (union id moniker children).listed files = children.flatMap Prod.fst := rfl
  rw [told?, hlisted]
  cases howner : owner? name children with
  | none => rw [if_neg (owner?_eq_none_iff.1 howner), Option.map_none]
  | some child =>
    have hname : name ∈ children.flatMap Prod.fst :=
      Decidable.byContradiction fun hnot => by
        rw [owner?_eq_none_iff.2 hnot] at howner
        cases howner
    have hanswer : (union id moniker children).answer files name = child.answer files name := by
      change ((findOwned name children).run (.blank files)).1 = _
      rw [findOwned_eq, howner]
      rfl
    rw [if_pos hname, hanswer, Option.map_some]

/-- Sharing names out leaves each name with the first source that has it. -/
theorem owner?_shareNames (name : ClassName) (taken : List ClassName)
    (named : List (List ClassName × ClassSource)) :
    owner? name (shareNames taken named) = if name ∈ taken then none else owner? name named := by
  induction named generalizing taken with
  | nil => simp [shareNames, owner?]
  | cons part named ih =>
    obtain ⟨names, child⟩ := part
    rw [shareNames, owner?_cons, owner?_cons, ih]
    by_cases htaken : name ∈ taken <;> by_cases hnames : name ∈ names <;> simp [htaken, hnames]

/-- The names that a source is given are among its own. -/
theorem exists_of_mem_shareNames {taken : List ClassName} {named : List (List ClassName × ClassSource)}
    {part : List ClassName × ClassSource} (h : part ∈ shareNames taken named) :
    ∃ names, (names, part.2) ∈ named ∧ ∀ name ∈ part.1, name ∈ names := by
  induction named generalizing taken with
  | nil => cases h
  | cons first named ih =>
    obtain ⟨names, child⟩ := first
    rcases List.mem_cons.1 h with rfl | h
    · exact ⟨names, List.mem_cons_self, fun name hname => (List.mem_filter.1 hname).1⟩
    · obtain ⟨others, hothers, hnames⟩ := ih h
      exact ⟨others, .tail _ hothers, hnames⟩

/-- Sources that stand with the names that they list. -/
def named (files : FileTree) (sources : List ClassSource) : List (List ClassName × ClassSource) :=
  sources.map fun source => (source.listed files, source)

/-- A union of sources answers like the first of them. -/
theorem told?_union_shareNames (id : Nat) (moniker : String) (sources : List ClassSource) :
    (union id moniker (shareNames [] (named files sources))).told? files name =
      sources.findSome? (told? files name) := by
  rw [told?_union, owner?_shareNames, if_neg List.not_mem_nil]
  induction sources with
  | nil => rfl
  | cons source sources ih =>
    rw [named, List.map_cons, owner?_cons, List.findSome?_cons, ← ih, told?]
    split <;> rfl

theorem grounded_union {sources : List ClassSource} (id : Nat) (moniker : String)
    (h : ∀ source ∈ sources, source.Grounded inventory files) :
    (union id moniker (shareNames [] (named files sources))).Grounded inventory files := by
  refine .union id moniker ?_ ?_
  · intro part hpart name hname
    obtain ⟨names, hnamed, hnames⟩ := exists_of_mem_shareNames hpart
    obtain ⟨source, _, hsource⟩ := List.mem_map.1 hnamed
    cases hsource
    exact hnames name hname
  · intro part hpart
    obtain ⟨names, hnamed, _⟩ := exists_of_mem_shareNames hpart
    obtain ⟨source, hmem, hsource⟩ := List.mem_map.1 hnamed
    cases hsource
    exact h part.2 hmem

-- ════════════════════════════════════════════════════════════════════════
-- Sources laid one behind the other
-- ════════════════════════════════════════════════════════════════════════

/-- Some of the sources, which answer like all of them where each has an answer for its names. -/
structure Suffices (files : FileTree) (sources kept : List ClassSource) : Prop where
  mem : ∀ source ∈ kept, source ∈ sources
  told : (∀ source ∈ sources, source.Definite files) →
    ∀ name, kept.findSome? (told? files name) = sources.findSome? (told? files name)

namespace Suffices

variable {source : ClassSource} {sources kept : List ClassSource}

theorem keep (h : Suffices files sources kept) :
    Suffices files (source :: sources) (source :: kept) where
  mem := fun other hother => by
    rcases List.mem_cons.1 hother with rfl | hother
    · exact List.mem_cons_self
    · exact .tail _ (h.mem other hother)
  told := fun hdefinite name => by
    rw [List.findSome?_cons, List.findSome?_cons,
      h.told (fun other hother => hdefinite other (.tail _ hother))]

/-- A source without names may be left out. -/
theorem skip (h : Suffices files sources kept)
    (hempty : source.Definite files → source.listed files = []) :
    Suffices files (source :: sources) kept where
  mem := fun other hother => .tail _ (h.mem other hother)
  told := fun hdefinite name => by
    have hlisted := hempty (hdefinite source List.mem_cons_self)
    have htold : source.told? files name = none := by
      rw [told?, hlisted, if_neg List.not_mem_nil]
    rw [h.told (fun other hother => hdefinite other (.tail _ hother)), List.findSome?_cons, htold]

/-- A union of sources that suffice answers like the first of all. -/
theorem layers_union (h : Suffices files sources kept) (id : Nat) (moniker : String)
    (hdefinite : ∀ source ∈ sources, source.Definite files) :
    Layers files sources (union id moniker (shareNames [] (named files kept))) := by
  have htold : ∀ name, (union id moniker (shareNames [] (named files kept))).told? files name =
      sources.findSome? (told? files name) :=
    fun name => (told?_union_shareNames id moniker kept).trans (h.told hdefinite name)
  refine ⟨⟨List.isEmpty_iff.1, fun name hname => ?_⟩, htold⟩
  obtain ⟨source, hsource, hresult⟩ :=
    List.exists_of_findSome?_eq_some ((htold name).symm.trans (if_pos hname))
  exact (hdefinite source hsource).ne_none_of_told hresult

end Suffices

/-- Whether a source is empty is told without putting anything down. -/
theorem run_isEmpty (source : ClassSource) (shelf : Shelf) :
    (source.isEmpty.run shelf).2 = shelf := by
  match source with
  | empty _ | read _ _ | indexed _ _ | union _ _ _ => rfl
  | directory id classFiles =>
    change ((classFiles.isEmpty id).run shelf).2 = shelf
    rw [ClassDirectory.run_isEmpty]
  | caching _ inner => exact run_isEmpty inner shelf

/-- The sources that are not empty. -/
def filled (shelf : Shelf) (sources : List ClassSource) : List ClassSource :=
  sources.filter fun source => !(source.isEmpty.run shelf).1

theorem run_filterAuxM_filled (sources earlier : List ClassSource) (shelf : Shelf) :
    (List.filterAuxM (fun source : ClassSource => (return !(← source.isEmpty) : Shelved Bool))
      sources earlier).run shelf = ((filled shelf sources).reverse ++ earlier, shelf) := by
  induction sources generalizing earlier with
  | nil => rfl
  | cons source sources ih =>
    rw [List.filterAuxM, Shelved.run_bind, Shelved.run_bind, Shelved.run_pure, run_isEmpty, ih,
      filled, filled]
    cases hempty : (source.isEmpty.run shelf).1 with
    | true =>
      rw [List.filter_cons_of_neg (by simp [hempty])]
      rfl
    | false =>
      rw [List.filter_cons_of_pos (by simp [hempty]), List.reverse_cons, List.append_assoc]
      rfl

/-- Leaving out empty sources puts nothing down. -/
theorem run_filterM_filled (sources : List ClassSource) (shelf : Shelf) :
    (sources.filterM fun source => (return !(← source.isEmpty) : Shelved Bool)).run shelf =
      (filled shelf sources, shelf) := by
  rw [List.filterM, Shelved.run_bind, run_filterAuxM_filled, List.append_nil, Shelved.run_pure,
    List.reverse_reverse]

/-- Leaving out sources that are empty leaves sources that suffice. -/
theorem suffices_filled {sources : List ClassSource} {shelf : Shelf}
    (h : ∀ source ∈ sources, source.Grounded inventory shelf.files)
    (htruthful : shelf.Truthful inventory) :
    Suffices shelf.files sources (filled shelf sources) := by
  induction sources with
  | nil => exact ⟨fun _ hmem => hmem, fun _ _ => rfl⟩
  | cons source sources ih =>
    have hothers := ih fun other hother => h other (.tail _ hother)
    obtain ⟨hempty, _⟩ := (h source List.mem_cons_self).isEmpty htruthful
    by_cases hnone : (source.isEmpty.run shelf).1 = true
    · rw [filled, List.filter_cons_of_neg (by simp [hnone])]
      exact hothers.skip fun hdefinite => hempty hdefinite.empty hnone
    · rw [filled, List.filter_cons_of_pos (by simp [hnone])]
      exact hothers.keep

/-- What is made of sources that are laid one behind the other: an empty source, the only one that is not
empty, or a union of all that are not. -/
theorem run_unionOf (sources : List ClassSource) (shelf : Shelf) :
    (filled shelf sources = [] ∧
        (unionOf sources).run shelf = (empty shelf.nextId, (Shelf.freshId.run shelf).2)) ∨
      (∃ source, filled shelf sources = [source] ∧ (unionOf sources).run shelf = (source, shelf)) ∨
      (unionOf sources).run shelf =
        let named := ((filled shelf sources).mapM withNames).run shelf
        (union named.2.nextId (unionMoniker (filled shelf sources)) (shareNames [] named.1),
          (Shelf.freshId.run named.2).2) := by
  rw [unionOf, Shelved.run_bind, run_filterM_filled]
  generalize filled shelf sources = kept
  cases kept with
  | nil => exact .inl ⟨rfl, rfl⟩
  | cons first others =>
    cases others with
    | nil => exact .inr (.inl ⟨first, rfl, rfl⟩)
    | cons second others => exact .inr (.inr rfl)

theorem mapM_withNames {sources : List ClassSource}
    (h : ∀ source ∈ sources, source.Grounded inventory files) :
    ∀ shelf : Shelf, shelf.files = files → shelf.Truthful inventory → ∃ after,
      (sources.mapM withNames).run shelf = (named files sources, after) ∧
        shelf.Keeps inventory after := by
  induction sources with
  | nil => exact fun shelf _ htruthful => ⟨shelf, rfl, .refl htruthful⟩
  | cons source sources ih =>
    intro shelf hfiles htruthful
    subst hfiles
    obtain ⟨hnames, hkeeps⟩ := (h source List.mem_cons_self).names htruthful
    obtain ⟨after, hafter, hrest⟩ := ih (fun other hother => h other (.tail _ hother)) _
      hkeeps.files hkeeps.truthful
    refine ⟨after, ?_, hkeeps.trans hrest⟩
    have hfirst : (withNames source).run shelf =
        ((source.listed shelf.files, source), (source.names.run shelf).2) := by
      rw [← hnames]
      rfl
    rw [List.mapM_cons, StateT.run_bind, hfirst]
    change (sources.mapM withNames >>= _).run (source.names.run shelf).2 = _
    rw [StateT.run_bind, hafter]
    rfl

/-- What is made of sources that are laid one behind the other: an empty source, a single source that is
kept, or a union of those that are not empty. -/
theorem unionOf_cases {sources : List ClassSource} {shelf : Shelf}
    (htruthful : shelf.Truthful inventory)
    (h : ∀ source ∈ sources, source.Grounded inventory shelf.files) :
    shelf.Keeps inventory ((unionOf sources).run shelf).2 ∧
      ∃ kept, Suffices shelf.files sources kept ∧
        ((kept = [] ∧ ∃ id, ((unionOf sources).run shelf).1 = empty id) ∨
          kept = [((unionOf sources).run shelf).1] ∨
          ∃ id moniker, ((unionOf sources).run shelf).1 =
            union id moniker (shareNames [] (named shelf.files kept))) := by
  have hsuffices := suffices_filled h htruthful
  obtain ⟨hnone, hrun⟩ | ⟨source, hsingle, hrun⟩ | hrun := run_unionOf sources shelf
  · rw [hrun]
    rw [hnone] at hsuffices
    exact ⟨.freshId htruthful, [], hsuffices, .inl ⟨rfl, _, rfl⟩⟩
  · rw [hrun]
    rw [hsingle] at hsuffices
    exact ⟨.refl htruthful, [source], hsuffices, .inr (.inl rfl)⟩
  · obtain ⟨after, hnamed, hnames⟩ := mapM_withNames
      (fun source hsource => h source (hsuffices.mem source hsource)) shelf rfl htruthful
    rw [hnamed] at hrun
    rw [hrun]
    exact ⟨hnames.trans (.freshId hnames.truthful), filled shelf sources, hsuffices,
      .inr (.inr ⟨_, _, rfl⟩)⟩

/-- Making a union gives a source of sources that are known. Where each source has an answer for its
names, the union answers like the first source that lists the name. -/
theorem layers_unionOf {sources : List ClassSource} {shelf : Shelf}
    (htruthful : shelf.Truthful inventory)
    (h : ∀ source ∈ sources, source.Grounded inventory shelf.files) :
    ((unionOf sources).run shelf).1.Grounded inventory shelf.files ∧
      ((∀ source ∈ sources, source.Definite shelf.files) →
        Layers shelf.files sources ((unionOf sources).run shelf).1) ∧
      shelf.Keeps inventory ((unionOf sources).run shelf).2 := by
  obtain ⟨hkeeps, kept, hsuffices, hmade⟩ := unionOf_cases htruthful h
  obtain ⟨rfl, id, hempty⟩ | rfl | ⟨id, moniker, hunion⟩ := hmade
  · rw [hempty]
    refine ⟨.empty id, fun hdefinite => ⟨⟨fun _ => rfl, fun _ hname => ?_⟩, ?_⟩, hkeeps⟩
    · cases hname
    · exact hsuffices.told hdefinite
  · have hmem := hsuffices.mem _ (List.mem_singleton_self _)
    refine ⟨h _ hmem, fun hdefinite => ⟨hdefinite _ hmem, fun name => ?_⟩, hkeeps⟩
    rw [← hsuffices.told hdefinite, List.findSome?_singleton]
  · rw [hunion]
    exact ⟨grounded_union _ _ fun source hsource => h source (hsuffices.mem source hsource),
      hsuffices.layers_union _ _, hkeeps⟩

end ClassSource

end LinkCheck
