import LinkCheck.Proofs.ExactAnswers

/-!
# Archives behind each other

A source that is made of archives shows them one behind the other: of each name it shows the first archive
that has it. A union of such sources shows the archives of its parts, those of the first part before those
of the others. Parts without names are left out, and a single part stays what it is, which cannot be seen
from outside.

## Main definitions

- `Leaf` — an archive among those that a source is made of
- `ClassSource.Shows` — a source shows some archives one behind the other

## Main results

- `ClassSource.names_shareNames` — the names of a union are those of its parts, each where it comes first
- `ClassSource.shows_unionOf` — a union shows the archives of its parts
-/

namespace LinkCheck

section Repetitions

variable {α : Type} [DecidableEq α]

theorem eraseDups_of_nodup {values : List α} (h : values.Nodup) : values.eraseDups = values := by
  induction values with
  | nil => rfl
  | cons value values ih =>
    obtain ⟨hvalue, hvalues⟩ := List.nodup_cons.1 h
    have hothers : (values.filter fun other => !other == value) = values := by
      rw [List.filter_eq_self]
      intro other hother
      have hne : other ≠ value := fun hsame => hvalue (hsame ▸ hother)
      simp [hne]
    rw [List.eraseDups_cons, hothers, ih hvalues]

/-- Leaving out repetitions and leaving out other values can be done in either order. -/
theorem filter_eraseDups (keep : α → Bool) (values : List α) :
    values.eraseDups.filter keep = (values.filter keep).eraseDups := by
  cases values with
  | nil => rfl
  | cons value values =>
    -- Repetitions of the first value go away first, so the rest is shorter but no tail.
    have hrest := filter_eraseDups keep (values.filter fun other => !other == value)
    rw [List.filter_filter] at hrest
    rw [List.eraseDups_cons, List.filter_cons, List.filter_cons, hrest]
    split
    · rw [List.eraseDups_cons, List.filter_filter]
      simp only [Bool.and_comm]
    · next hvalue =>
      congr 1
      apply List.filter_congr
      intro other _
      by_cases hsame : other = value
      · simp [hsame, hvalue]
      · simp [hsame]
termination_by values.length
decreasing_by
  exact Nat.lt_succ_of_le (List.length_filter_le _ _)

end Repetitions

/-- An archive among those that a source is made of, with the number that it got. -/
structure Leaf where
  id : Nat
  archive : ReadArchive

namespace Leaf

def source (leaf : Leaf) : ClassSource := .read leaf.id leaf.archive

def names (leaf : Leaf) : List ClassName := leaf.archive.classes.keys

/-- The first archive with a name. -/
def first? (leaves : List Leaf) (name : ClassName) : Option Leaf :=
  leaves.find? (name ∈ ·.names)

/-- The names of all archives, each where it comes first. -/
def distinctNames (leaves : List Leaf) : List ClassName :=
  (leaves.flatMap names).eraseDups

/-- The answer of the first archive with a name. -/
def answer (leaves : List Leaf) (name : ClassName) : FindResult :=
  ((first? leaves name).map (·.archive.find name)).getD (.ok none)

variable {leaves : List Leaf} {name : ClassName}

theorem mem_distinctNames_iff : name ∈ distinctNames leaves ↔ ∃ leaf ∈ leaves, name ∈ leaf.names := by
  rw [distinctNames, List.mem_eraseDups, List.mem_flatMap]

theorem isSome_first?_iff : (first? leaves name).isSome = true ↔ name ∈ distinctNames leaves := by
  rw [mem_distinctNames_iff, first?, List.find?_isSome]
  simp

theorem first?_eq_none_iff : first? leaves name = none ↔ name ∉ distinctNames leaves := by
  rw [← isSome_first?_iff, Option.not_isSome_iff_eq_none]

theorem first?_append (leaves others : List Leaf) (name : ClassName) :
    first? (leaves ++ others) name = (first? leaves name).or (first? others name) :=
  List.find?_append

/-- An archive has an answer for each of its names. -/
theorem find_archive_ne_none {leaf : Leaf} (h : name ∈ leaf.names) :
    leaf.archive.find name ≠ .ok none :=
  ((ClassSource.Coherent.read_archive {} leaf.id leaf.archive).find_iff name).2 h

theorem answer_eq_none_iff : answer leaves name = .ok none ↔ name ∉ distinctNames leaves := by
  rw [← first?_eq_none_iff, answer]
  cases hfirst : first? leaves name with
  | none => simp
  | some leaf =>
    have hname : name ∈ leaf.names := by simpa using List.find?_some hfirst
    simpa using find_archive_ne_none hname

end Leaf

namespace ClassSource

open Leaf

/-- A source shows some archives one behind the other, and only lookups put something down. -/
structure Shows (leaves : List Leaf) (source : ClassSource) : Prop where
  names : source.names = pure (distinctNames leaves)
  contains : ∀ name, source.contains name = pure (decide (name ∈ distinctNames leaves))
  isEmpty : source.isEmpty = pure (distinctNames leaves).isEmpty
  locate : ∀ name, source.locate name = pure ((first? leaves name).map Leaf.source)
  close : source.close = pure ()
  answer : ∀ files name, source.answer files name = Leaf.answer leaves name

namespace Shows

variable {leaves others : List Leaf} {source : ClassSource}

theorem empty_source (id : Nat) : Shows [] (empty id) where
  names := rfl
  contains := fun _ => rfl
  isEmpty := rfl
  locate := fun _ => rfl
  close := rfl
  answer := fun _ _ => rfl

theorem read_archive {leaf : Leaf} (h : leaf.names.Nodup) : Shows [leaf] leaf.source := by
  have hnames : distinctNames [leaf] = leaf.names := by
    rw [distinctNames, List.flatMap_singleton, eraseDups_of_nodup h]
  have hcontains : ∀ name, leaf.archive.classes.contains name = decide (name ∈ leaf.names) :=
    fun name => by simp [Leaf.names, Table.mem_keys_iff]
  have hfirst : ∀ name, first? [leaf] name = if name ∈ leaf.names then some leaf else none :=
    fun name => by by_cases hname : name ∈ leaf.names <;> simp [first?, hname]
  refine ⟨?_, fun name => ?_, ?_, fun name => ?_, rfl, fun files name => ?_⟩
  · rw [hnames]
    rfl
  · rw [hnames, ← hcontains]
    rfl
  · rw [hnames]
    rfl
  · have hlocate : leaf.source.locate name =
        pure (if leaf.archive.classes.contains name then some leaf.source else none) := rfl
    rw [hlocate, hcontains, hfirst]
    by_cases hname : name ∈ leaf.names <;> simp [hname]
  · have hanswer : leaf.source.answer files name = leaf.archive.find name := rfl
    rw [hanswer, Leaf.answer, hfirst]
    by_cases hname : name ∈ leaf.names
    · simp [hname]
    · have hnone := hcontains name
      rw [Table.contains] at hnone
      rw [if_neg hname, ReadArchive.find]
      simp_all

theorem caching_source (h : Shows leaves source) (id : Nat) : Shows leaves (caching id source) where
  names := h.names
  contains := h.contains
  isEmpty := h.isEmpty
  locate := h.locate
  close := h.close
  answer := fun files name => (answer_caching files id source name).trans (h.answer files name)

/-- What is shown depends on the names and the first archive with each. -/
theorem congr (h : Shows leaves source) (hfirst : ∀ name, first? others name = first? leaves name)
    (hnames : distinctNames others = distinctNames leaves) : Shows others source where
  names := hnames ▸ h.names
  contains := hnames ▸ h.contains
  isEmpty := hnames ▸ h.isEmpty
  locate := fun name => hfirst name ▸ h.locate name
  close := h.close
  answer := fun files name => by rw [h.answer, Leaf.answer, Leaf.answer, hfirst]

theorem listed (h : Shows leaves source) (files : FileTree) :
    source.listed files = distinctNames leaves := by
  rw [ClassSource.listed, h.names]
  rfl

theorem coherent (h : Shows leaves source) (files : FileTree) : source.Coherent files where
  contains_iff := fun name => by
    rw [h.contains, h.listed]
    exact decide_eq_true_iff
  find_iff := fun name => by
    rw [h.answer, h.listed, ne_eq, answer_eq_none_iff, Decidable.not_not]
  empty := fun hempty => by
    rw [h.isEmpty] at hempty
    rw [h.listed]
    exact List.isEmpty_iff.1 hempty

end Shows

theorem locateOwned_eq (name : ClassName) (children : List (List ClassName × ClassSource)) :
    locateOwned name children = (owner? name children).elim (pure none) (locate name) := by
  induction children with
  | nil => rfl
  | cons part children ih =>
    obtain ⟨owned, child⟩ := part
    rw [locateOwned, owner?_cons, ih]
    split <;> rfl

/-- The names that are shared out are all names, each where it comes first. -/
theorem names_shareNames (taken : List ClassName) (parts : List (List ClassName × ClassSource)) :
    (shareNames taken (parts.map fun part => (part.1.eraseDups, part.2))).flatMap Prod.fst =
      ((parts.flatMap Prod.fst).filter (· ∉ taken)).eraseDups := by
  induction parts generalizing taken with
  | nil => rfl
  | cons part parts ih =>
    have hothers : ((parts.flatMap Prod.fst).filter (· ∉ taken)).removeAll
          (part.1.filter (· ∉ taken)) =
        (parts.flatMap Prod.fst).filter
          (· ∉ taken ++ part.1.eraseDups.filter (· ∉ taken)) := by
      rw [List.removeAll, List.filter_filter]
      apply List.filter_congr
      intro name _
      by_cases htaken : name ∈ taken <;> simp [htaken]
    rw [List.map_cons, shareNames, List.flatMap_cons, ih, List.flatMap_cons, List.filter_append,
      List.eraseDups_append, filter_eraseDups, hothers, filter_eraseDups]

section Unions

variable {parts : List (ClassSource × List Leaf)}

/-- A part together with what it shows to be shared out. -/
def sharing (parts : List (ClassSource × List Leaf)) : List (List ClassName × ClassSource) :=
  parts.map fun part => (distinctNames part.2, part.1)

/-- A name belongs to the first part that shows it, and this part shows it in the archive that has it
first. -/
theorem elim_owner?_sharing {β : Type} (absent : β) (ask : ClassSource → β) (told : Option Leaf → β)
    (habsent : told none = absent) (name : ClassName)
    (h : ∀ part ∈ parts, ask part.1 = told (first? part.2 name)) :
    (owner? name (sharing parts)).elim absent ask =
      told (first? (parts.flatMap Prod.snd) name) := by
  induction parts with
  | nil => exact habsent.symm
  | cons part parts ih =>
    have hrest := ih fun other hother => h other (.tail _ hother)
    rw [sharing, List.map_cons, owner?_cons, List.flatMap_cons, first?_append]
    by_cases hname : name ∈ distinctNames part.2
    · obtain ⟨leaf, hleaf⟩ := Option.isSome_iff_exists.1 (isSome_first?_iff.2 hname)
      rw [if_pos hname, Option.elim_some, h part List.mem_cons_self, hleaf, Option.some_or]
    · rw [if_neg hname, first?_eq_none_iff.2 hname, Option.none_or]
      exact hrest

theorem closeAll_eq {children : List (List ClassName × ClassSource)}
    (h : ∀ part ∈ children, part.2.close = pure ()) : closeAll children = pure () := by
  induction children with
  | nil => rfl
  | cons part children ih =>
    obtain ⟨owned, child⟩ := part
    rw [closeAll, h (owned, child) List.mem_cons_self,
      ih fun other hother => h other (.tail _ hother)]
    rfl

theorem shows_union (id : Nat) (moniker : String) (h : ∀ part ∈ parts, Shows part.2 part.1) :
    Shows (parts.flatMap Prod.snd) (union id moniker (shareNames [] (sharing parts))) := by
  have hnames : (shareNames [] (sharing parts)).flatMap Prod.fst =
      distinctNames (parts.flatMap Prod.snd) := by
    have hshared := names_shareNames [] (parts.map fun part => (part.2.flatMap Leaf.names, part.1))
    rw [List.map_map] at hshared
    rw [sharing, distinctNames, List.flatMap_assoc]
    refine hshared.trans ?_
    rw [List.filter_eq_self.2 fun name _ => by simp, List.flatMap_map]
  have howner : ∀ name, owner? name (shareNames [] (sharing parts)) =
      owner? name (sharing parts) := fun name => by
    rw [owner?_shareNames, if_neg List.not_mem_nil]
  refine ⟨?_, fun name => ?_, ?_, fun name => ?_, ?_, fun files name => ?_⟩
  · rw [← hnames]
    rfl
  · have hcontains : (union id moniker (shareNames [] (sharing parts))).contains name =
        pure ((shareNames [] (sharing parts)).any fun child => decide (name ∈ child.1)) := rfl
    rw [hcontains, ← hnames]
    congr 1
    rw [Bool.eq_iff_iff]
    simp
  · rw [← hnames]
    rfl
  · change locateOwned name _ = _
    rw [locateOwned_eq, howner]
    exact elim_owner?_sharing _ _ (fun leaf => pure (leaf.map Leaf.source)) rfl name
      fun part hpart => (h part hpart).locate name
  · apply closeAll_eq
    rintro ⟨owned, child⟩ hchild
    obtain ⟨names, hnamed, _⟩ := exists_of_mem_shareNames hchild
    obtain ⟨part, hpart, hsame⟩ := List.mem_map.1 hnamed
    cases hsame
    exact (h part hpart).close
  · change ((findOwned name _).run (.blank files)).1 = _
    rw [findOwned_eq, howner]
    have hasked := elim_owner?_sharing (.ok none) (fun source => source.answer files name)
      (fun found => (found.map fun leaf : Leaf => leaf.archive.find name).getD (.ok none)) rfl name
      fun part hpart => (h part hpart).answer files name
    rw [Leaf.answer, ← hasked]
    cases owner? name (sharing parts) <;> rfl

/-- The parts that show a name. -/
def occupied (parts : List (ClassSource × List Leaf)) : List (ClassSource × List Leaf) :=
  parts.filter fun part => !(distinctNames part.2).isEmpty

theorem filterAuxM_isEmpty (h : ∀ part ∈ parts, Shows part.2 part.1) (earlier : List ClassSource) :
    List.filterAuxM (fun source : ClassSource => (return !(← source.isEmpty) : Shelved Bool))
      (parts.map Prod.fst) earlier =
        pure (((occupied parts).map Prod.fst).reverse ++ earlier) := by
  induction parts generalizing earlier with
  | nil => rfl
  | cons part parts ih =>
    have hrest := ih fun other hother => h other (.tail _ hother)
    rw [List.map_cons, List.filterAuxM, (h part List.mem_cons_self).isEmpty, occupied,
      List.filter_cons]
    cases hempty : (distinctNames part.2).isEmpty with
    | true => exact hrest earlier
    | false =>
      refine (hrest (part.1 :: earlier)).trans ?_
      simp [occupied]

theorem mapM_withNames_eq (h : ∀ part ∈ parts, Shows part.2 part.1) :
    (parts.map Prod.fst).mapM withNames = pure (sharing parts) := by
  induction parts with
  | nil => rfl
  | cons part parts ih =>
    rw [List.map_cons, List.mapM_cons, ih fun other hother => h other (.tail _ hother), withNames,
      (h part List.mem_cons_self).names]
    rfl

/-- Parts that show no names may be left out. -/
theorem first?_occupied (parts : List (ClassSource × List Leaf)) (name : ClassName) :
    first? (parts.flatMap Prod.snd) name = first? ((occupied parts).flatMap Prod.snd) name := by
  induction parts with
  | nil => rfl
  | cons part parts ih =>
    rw [occupied, List.filter_cons, List.flatMap_cons, first?_append, ih]
    split
    · rw [List.flatMap_cons, first?_append]
      rfl
    · next hempty =>
      have hnone : first? part.2 name = none := by
        rw [first?_eq_none_iff]
        simp_all
      rw [hnone, Option.none_or]
      rfl

theorem distinctNames_occupied (parts : List (ClassSource × List Leaf)) :
    distinctNames (parts.flatMap Prod.snd) = distinctNames ((occupied parts).flatMap Prod.snd) := by
  rw [distinctNames, distinctNames]
  congr 1
  induction parts with
  | nil => rfl
  | cons part parts ih =>
    rw [occupied, List.filter_cons, List.flatMap_cons, List.flatMap_append, ih]
    split
    · rw [List.flatMap_cons, List.flatMap_append]
      rfl
    · next hempty =>
      have hnone : part.2.flatMap Leaf.names = [] := by
        apply List.eq_nil_iff_forall_not_mem.2
        intro name hname
        rw [← List.mem_eraseDups, ← distinctNames] at hname
        simp_all
      rw [hnone, List.nil_append]
      rfl

/-- A union shows the archives of its parts, the first part before the others. -/
theorem shows_unionOf (h : ∀ part ∈ parts, Shows part.2 part.1) (shelf : Shelf) :
    Shows (parts.flatMap Prod.snd) ((unionOf (parts.map Prod.fst)).run shelf).1 := by
  have hoccupied : ∀ part ∈ occupied parts, Shows part.2 part.1 :=
    fun part hpart => h part (List.mem_filter.1 hpart).1
  have hfilter : ((parts.map Prod.fst).filterM fun source =>
      (return !(← source.isEmpty) : Shelved Bool)) = pure ((occupied parts).map Prod.fst) := by
    rw [List.filterM, filterAuxM_isEmpty h, pure_bind, List.append_nil, List.reverse_reverse]
  have hshows : Shows ((occupied parts).flatMap Prod.snd)
      ((unionOf (parts.map Prod.fst)).run shelf).1 := by
    rw [unionOf, hfilter, pure_bind]
    generalize occupied parts = kept at hoccupied
    cases kept with
    | nil => exact .empty_source _
    | cons first others =>
      cases others with
      | nil =>
        rw [List.flatMap_singleton]
        exact hoccupied first List.mem_cons_self
      | cons second others =>
        have hnames := mapM_withNames_eq hoccupied
        rw [List.map_cons, List.map_cons] at hnames ⊢
        simp only [hnames]
        exact shows_union _ _ hoccupied
  exact hshows.congr (first?_occupied parts) (distinctNames_occupied parts)

end Unions

end ClassSource

end LinkCheck
