import LinkCheck.Proofs.DirectoryWalks
import LinkCheck.Proofs.ExactAnswers
import LinkCheck.Proofs.ThreadedChecks

/-!
# Settled answers

A directory may answer differently before and after it has been gone through. A check goes through a
directory before it looks for a class there, be it alone or as part of a union, so all answers that a check
sees are of one kind. They depend on the files and on the answers that caching sources remember, and on
nothing else that a shelf holds.

## Main definitions

- `ClassSource.settled` — the answer of a source once its directories have been gone through
- `ClassSource.Surveyed` — the directories of a source have been gone through
- `ClassSource.Ready` — they will have been once the names of the source are told
- `Shelf.Advances` — what happens to a shelf while sources are made and asked
- `Classpath.recalled` — what is found in the first of some sources that lists a name

## Main results

- `ClassSource.Grounded.find_of_surveyed` — a source that is surveyed gives its settled answers
- `ClassSource.recalls_unionOf` — a union recalls what the first of its sources does
- `Shelf.Advances.settled_eq` — settled answers stay the same while sources are asked
- `ClassSource.Grounded.run_verifyAgainst_of_ready` — a check finds what is found against settled answers
-/

namespace LinkCheck

/-- There are no classes below a directory that counts as empty before it has been gone through. -/
theorem ClassDirectory.walk_eq_nil_of_isEmpty {directory : ClassDirectory} {files : FileTree}
    (hfiles : files.WellFormed) (id : Nat)
    (h : ((directory.isEmpty id).run (.blank files)).1 = true) : directory.walk files = [] := by
  simp only [run_isEmpty, Shelf.directoryState_blank, Shelf.files_blank] at h
  cases hroot : files.directoryAt directory.root with
  | error fault =>
    have hbelow : files.filesBelow directory.root = .error fault := by
      rw [FileTree.filesBelow, hroot]
      rfl
    rw [walk, hbelow]
  | ok place =>
    cases hlist : files.list directory.root with
    | error fault =>
      rw [FileTree.list, hroot] at hlist
      cases place <;> cases hlist
    | ok entries =>
      rw [hlist] at h
      rw [List.isEmpty_iff.1 h] at hlist
      exact walk_eq_nil hfiles hroot hlist

namespace ClassSource

mutual

/-- The answer of a source once its directories have been gone through. -/
def settled (files : FileTree) (memos : Table Nat (Table ClassName FindResult)) (name : ClassName) :
    ClassSource → FindResult
  | empty _ => .ok none
  | read _ archive => archive.find name
  | indexed id archive => answer files (indexed id archive) name
  | directory _ classFiles =>
    if name ∈ classFiles.walk files then some <$> classFiles.readFile files name else .ok none
  | union _ _ children => settledOwned files memos name children
  | caching id inner =>
    (((memos.get? id).getD {}).get? name).getD (inner.settled files memos name)

/-- The settled answer of the first child that a name belongs to. -/
def settledOwned (files : FileTree) (memos : Table Nat (Table ClassName FindResult))
    (name : ClassName) : List (List ClassName × ClassSource) → FindResult
  | [] => .ok none
  | (owned, child) :: children =>
    if name ∈ owned then child.settled files memos name else settledOwned files memos name children

end

/-- The settled answer of a source for a name that it lists. -/
def recalled? (shelf : Shelf) (name : ClassName) (source : ClassSource) : Option FindResult :=
  if name ∈ source.listed shelf.files then some (source.settled shelf.files shelf.memos name)
  else none

/-- The directories of a source have been gone through. -/
inductive Surveyed (shelf : Shelf) : ClassSource → Prop
  | empty (id : Nat) : Surveyed shelf (.empty id)
  | read (id : Nat) (archive : ReadArchive) : Surveyed shelf (.read id archive)
  | indexed (id : Nat) (archive : IndexedArchive) : Surveyed shelf (.indexed id archive)
  | directory {id : Nat} {classFiles : ClassDirectory}
      (h : (shelf.directoryState id classFiles).names.isSome = true) :
      Surveyed shelf (.directory id classFiles)
  | union (id : Nat) (moniker : String) {children : List (List ClassName × ClassSource)}
      (h : ∀ part ∈ children, Surveyed shelf part.2) : Surveyed shelf (.union id moniker children)
  | caching (id : Nat) {inner : ClassSource} (h : Surveyed shelf inner) :
      Surveyed shelf (.caching id inner)

/-- The directories of a source will have been gone through once its names are told. Those in a union have
been when the union was made. -/
inductive Ready (shelf : Shelf) : ClassSource → Prop
  | surveyed {source : ClassSource} (h : source.Surveyed shelf) : Ready shelf source
  | directory (id : Nat) (classFiles : ClassDirectory) : Ready shelf (.directory id classFiles)
  | caching (id : Nat) {inner : ClassSource} (h : Ready shelf inner) :
      Ready shelf (.caching id inner)

/-- A union gives the settled answer of the part that a name belongs to. -/
theorem settledOwned_eq (files : FileTree) (memos : Table Nat (Table ClassName FindResult))
    (name : ClassName) (children : List (List ClassName × ClassSource)) :
    settledOwned files memos name children =
      (owner? name children).elim (.ok none) (settled files memos name) := by
  induction children with
  | nil => rfl
  | cons part children ih =>
    obtain ⟨owned, child⟩ := part
    rw [settledOwned, owner?_cons, ih]
    split <;> rfl

end ClassSource

/-- What happens to a shelf while sources are made, listed, asked and closed: what is remembered stays right,
an answer that is put down for a caching source is the settled one, and directories that have been gone
through stay so. -/
structure Shelf.Advances (inventory : Inventory) (before after : Shelf) : Prop
    extends before.Keeps inventory after where
  memos : ∀ {id : Nat} {inner : ClassSource},
    (ClassSource.caching id inner).Grounded inventory before.files → ∀ name,
      (after.memo id).get? name = (before.memo id).get? name ∨
        (before.memo id).get? name = none ∧
          (after.memo id).get? name = some (inner.settled before.files before.memos name)
  names : ∀ id directory, (before.directoryState id directory).names.isSome = true →
    (after.directoryState id directory).names.isSome = true

namespace Shelf.Advances

variable {inventory later : Inventory} {shelf before after last : Shelf} {source : ClassSource}

/-- As long as no answer is put down, only the names of directories matter. -/
theorem of_memos (h : before.Keeps inventory after) (hmemos : after.memos = before.memos)
    (hnames : ∀ id directory, (before.directoryState id directory).names.isSome = true →
      (after.directoryState id directory).names.isSome = true) :
    before.Advances inventory after :=
  ⟨h, fun {id _} _ _ => .inl (by rw [memo_eq hmemos id]), hnames⟩

theorem refl (h : shelf.Truthful inventory) : shelf.Advances inventory shelf :=
  of_memos (.refl h) rfl fun _ _ hsome => hsome

/-- Settled answers stay the same, whether they have been put down meanwhile or not. -/
theorem settled_eq (h : before.Advances inventory after)
    (hsource : source.Grounded inventory before.files) (name : ClassName) :
    source.settled after.files after.memos name = source.settled before.files before.memos name := by
  rw [h.files]
  induction hsource with
  | empty | read | indexed | directory => rfl
  | @union id moniker children _ _ ih =>
    rw [ClassSource.settled, ClassSource.settled, ClassSource.settledOwned_eq,
      ClassSource.settledOwned_eq]
    cases howner : ClassSource.owner? name children with
    | none => rfl
    | some child =>
      obtain ⟨part, hpart, rfl, _⟩ := ClassSource.exists_of_owner? howner
      exact ih part hpart
  | @caching id inner hid hinner ih =>
    change ((after.memo id).get? name).getD _ = ((before.memo id).get? name).getD _
    rcases h.memos (.caching hid hinner) name with hsame | ⟨hnone, hsome⟩
    · rw [hsame, ih]
    · rw [hnone, hsome, Option.getD_some, Option.getD_none]

theorem trans (h : before.Advances inventory after) (hnext : after.Advances inventory last) :
    before.Advances inventory last := by
  refine ⟨h.toKeeps.trans hnext.toKeeps, fun {id inner} hsource name => ?_,
    fun id directory hsome => hnext.names id directory (h.names id directory hsome)⟩
  obtain hsame | ⟨hnone, hsome⟩ := hnext.memos (h.files.symm ▸ hsource) name
  · rw [hsame]
    exact h.memos hsource name
  · rcases h.memos hsource name with hbefore | ⟨_, hput⟩
    · cases hsource with
      | caching _ hinner => exact .inr ⟨hbefore ▸ hnone, h.settled_eq hinner name ▸ hsome⟩
    · cases hnone.symm.trans hput

/-- What is known of more sources is known of fewer. -/
theorem of_known (h : before.Advances later after)
    (hknown : ∀ id source, inventory id = some source → later id = some source) :
    before.Advances inventory after :=
  ⟨h.toKeeps.of_known hknown, fun hsource => h.memos (hsource.mono hknown), h.names⟩

theorem freshId (h : shelf.Truthful inventory) :
    shelf.Advances inventory (Shelf.freshId.run shelf).2 :=
  of_memos (.freshId h) rfl fun _ _ hsome => hsome

theorem setArchive {id : Nat} {state : ArchiveState}
    (h : shelf.Keeps inventory (shelf.setArchive id state)) :
    shelf.Advances inventory (shelf.setArchive id state) :=
  of_memos h rfl fun _ _ hsome => hsome

theorem setDirectory {id : Nat} (directory : ClassDirectory) {state : DirectoryState}
    (h : shelf.Keeps inventory (shelf.setDirectory id state))
    (hnames : (shelf.directoryState id directory).names.isSome = true →
      state.names.isSome = true) :
    shelf.Advances inventory (shelf.setDirectory id state) := by
  refine of_memos h rfl fun other kind hsome => ?_
  rw [directoryState_setDirectory]
  split
  · next hsame =>
    subst hsame
    rw [names_directoryState shelf other kind directory] at hsome
    exact hnames hsome
  · exact hsome

/-- The settled answer may be put down for a caching source that did not remember one at the start. -/
theorem addMemo {id : Nat} {inner : ClassSource} {name : ClassName} {answer : FindResult}
    (h : before.Advances inventory after)
    (hkeeps : before.Keeps inventory (after.addMemo id name answer))
    (hid : inventory id = some (.caching id inner)) (hnone : (before.memo id).get? name = none)
    (hanswer : answer = inner.settled before.files before.memos name) :
    before.Advances inventory (after.addMemo id name answer) := by
  refine ⟨hkeeps, fun {other kind} hsource asked => ?_, h.names⟩
  have hstill := h.memos hsource asked
  rw [memo_addMemo]
  split
  · next hsame =>
    subst hsame
    rw [Table.get?_insert]
    split
    · next hasked =>
      subst hasked
      cases hsource with
      | caching hother _ =>
        cases hid.symm.trans hother
        exact .inr ⟨hnone, congrArg some hanswer⟩
    · exact hstill
  · exact hstill

/-- What is recalled stays the same. -/
theorem recalled?_eq (h : before.Advances inventory after)
    (hsource : source.Grounded inventory before.files) (name : ClassName) :
    source.recalled? after name = source.recalled? before name := by
  rw [ClassSource.recalled?, ClassSource.recalled?, h.settled_eq hsource, h.files]

theorem findSome?_recalled?_eq (h : before.Advances inventory after) {sources : List ClassSource}
    (hsources : ∀ source ∈ sources, source.Grounded inventory before.files) (name : ClassName) :
    sources.findSome? (ClassSource.recalled? after name) =
      sources.findSome? (ClassSource.recalled? before name) := by
  induction sources with
  | nil => rfl
  | cons source sources ih =>
    obtain ⟨hsource, hothers⟩ := List.forall_mem_cons.1 hsources
    rw [List.findSome?_cons, List.findSome?_cons, h.recalled?_eq hsource, ih hothers]

theorem surveyed (h : before.Advances inventory after) (hsource : source.Surveyed before) :
    source.Surveyed after := by
  induction hsource with
  | empty id => exact .empty id
  | read id archive => exact .read id archive
  | indexed id archive => exact .indexed id archive
  | directory hsome => exact .directory (h.names _ _ hsome)
  | union id moniker _ ih => exact .union id moniker ih
  | caching id _ ih => exact .caching id ih

theorem ready (h : before.Advances inventory after) (hsource : source.Ready before) :
    source.Ready after := by
  induction hsource with
  | surveyed hsurveyed => exact .surveyed (h.surveyed hsurveyed)
  | directory id classFiles => exact .directory id classFiles
  | caching id _ ih => exact .caching id ih

end Shelf.Advances

namespace ClassSource

variable {inventory : Inventory} {shelf : Shelf} {source : ClassSource} {name : ClassName}

/-- A source that is surveyed gives its settled answers. -/
theorem Grounded.find_of_surveyed (h : source.Grounded inventory shelf.files)
    (hsurveyed : source.Surveyed shelf) (htruthful : shelf.Truthful inventory) (name : ClassName) :
    ((source.find name).run shelf).1 = source.settled shelf.files shelf.memos name := by
  induction h with
  | empty | read => rfl
  | indexed hid => exact (IndexedArchive.find_steady htruthful hid).1
  | @directory id classFiles hid =>
    cases hsurveyed with
    | directory hwalked =>
      have hcontains : ((classFiles.contains id name).run shelf).1 = true ↔
          name ∈ classFiles.walk shelf.files :=
        ClassDirectory.contains_iff_of_walked htruthful hid hwalked
      rw [settled]
      split
      · next hname =>
        exact ClassDirectory.find_of_contains (htruthful.directory hid) (hcontains.2 hname)
      · next hname =>
        exact ClassDirectory.find_of_not_contains fun hthere => hname (hcontains.1 hthere)
  | @union id moniker children _ _ ih =>
    cases hsurveyed with
    | union _ _ hparts =>
      change ((findOwned name children).run shelf).1 = settledOwned _ _ name children
      rw [findOwned_eq, settledOwned_eq]
      cases howner : owner? name children with
      | none => rfl
      | some child =>
        obtain ⟨part, hpart, rfl, _⟩ := exists_of_owner? howner
        exact ih part hpart (hparts part hpart)
  | @caching id inner _ _ ih =>
    cases hsurveyed with
    | caching _ hinner =>
      change _ = ((shelf.memo id).get? name).getD _
      cases hmemo : (shelf.memo id).get? name with
      | some result => rw [run_find_remembered hmemo, Option.getD_some]
      | none => rw [run_find_anew hmemo, Option.getD_none, ih hinner]

/-- Telling names puts nothing down but the names of directories. -/
theorem Grounded.advances_names (h : source.Grounded inventory shelf.files)
    (htruthful : shelf.Truthful inventory) :
    shelf.Advances inventory (source.names.run shelf).2 := by
  have hkeeps := (h.names htruthful).2
  induction h with
  | empty | read | indexed | union => exact .refl htruthful
  | caching _ _ ih => exact ih hkeeps
  | @directory id classFiles hid =>
    change shelf.Keeps inventory ((classFiles.names id).run shelf).2 at hkeeps
    change shelf.Advances inventory ((classFiles.names id).run shelf).2
    rw [ClassDirectory.run_names] at hkeeps ⊢
    cases hnames : (shelf.directoryState id classFiles).names with
    | some names => exact .refl htruthful
    | none =>
      rw [hnames] at hkeeps
      exact .setDirectory classFiles hkeeps fun _ => rfl

/-- A source is surveyed once its names have been told. -/
theorem Grounded.surveyed_names (h : source.Grounded inventory shelf.files)
    (htruthful : shelf.Truthful inventory) (hready : source.Ready shelf) :
    source.Surveyed (source.names.run shelf).2 := by
  induction hready with
  | surveyed hsurveyed => exact (h.advances_names htruthful).surveyed hsurveyed
  | directory id classFiles =>
    exact .directory ((ClassDirectory.isSome_names_perform SourceCall.names).2 (.inl rfl))
  | caching id _ ih =>
    cases h with
    | caching _ hinner => exact .caching id (ih hinner)

theorem advances_closeAll {files : FileTree} {children : List (List ClassName × ClassSource)}
    (h : ∀ part ∈ children, ∀ shelf : Shelf, shelf.files = files → shelf.Truthful inventory →
      shelf.Advances inventory (part.2.close.run shelf).2) :
    ∀ shelf : Shelf, shelf.files = files → shelf.Truthful inventory →
      shelf.Advances inventory ((closeAll children).run shelf).2 := by
  induction children with
  | nil => exact fun _ _ htruthful => .refl htruthful
  | cons part children ih =>
    intro shelf hfiles htruthful
    have hfirst := h part List.mem_cons_self shelf hfiles htruthful
    have hrest := ih (fun other hother => h other (.tail _ hother)) _
      (hfirst.files.trans hfiles) hfirst.truthful
    exact hfirst.trans hrest

/-- Closing a source gives up nothing that its answers depend on. -/
theorem Grounded.advances_close {files : FileTree} (h : source.Grounded inventory files) :
    ∀ shelf : Shelf, shelf.files = files → shelf.Truthful inventory →
      shelf.Advances inventory (source.close.run shelf).2 := by
  induction h with
  | empty | read => exact fun _ _ htruthful => .refl htruthful
  | indexed hid =>
    exact fun _ _ htruthful => .setArchive (IndexedArchive.close_keeps htruthful hid)
  | @directory id classFiles hid =>
    exact fun _ _ htruthful => .setDirectory classFiles
      (ClassDirectory.close_keeps htruthful hid) fun hsome => hsome
  | union _ _ _ _ ih => exact advances_closeAll ih
  | caching _ _ ih => exact ih

/-- A source that counts as empty lists no names. -/
theorem Grounded.listed_eq_nil (h : source.Grounded inventory shelf.files)
    (htruthful : shelf.Truthful inventory) (hfiles : shelf.files.WellFormed)
    (hempty : (source.isEmpty.run shelf).1 = true) : source.listed shelf.files = [] := by
  induction h with
  | empty | read | indexed | union => exact List.isEmpty_iff.1 hempty
  | caching _ _ ih => exact ih hempty
  | @directory id classFiles hid =>
    change classFiles.walk shelf.files = []
    exact ClassDirectory.isEmpty_steady htruthful hid
      (ClassDirectory.walk_eq_nil_of_isEmpty hfiles id) hempty

/-- A union recalls what the part that a name belongs to answers. -/
theorem recalled?_union (id : Nat) (moniker : String) (children : List (List ClassName × ClassSource))
    (shelf : Shelf) (name : ClassName) :
    (union id moniker children).recalled? shelf name =
      (owner? name children).map (settled shelf.files shelf.memos name) := by
  have hlisted : (union id moniker children).listed shelf.files = children.flatMap Prod.fst := rfl
  rw [recalled?, hlisted, settled, settledOwned_eq]
  cases howner : owner? name children with
  | none => rw [if_neg (owner?_eq_none_iff.1 howner), Option.map_none]
  | some child =>
    have hname : name ∈ children.flatMap Prod.fst :=
      Decidable.byContradiction fun hnot => by
        rw [owner?_eq_none_iff.2 hnot] at howner
        cases howner
    rw [if_pos hname, Option.map_some, Option.elim_some]

theorem recalled?_union_shareNames (id : Nat) (moniker : String) (sources : List ClassSource)
    (shelf : Shelf) (name : ClassName) :
    (union id moniker (shareNames [] (named shelf.files sources))).recalled? shelf name =
      sources.findSome? (recalled? shelf name) := by
  rw [recalled?_union, owner?_shareNames, if_neg List.not_mem_nil]
  induction sources with
  | nil => rfl
  | cons source sources ih =>
    rw [named, List.map_cons, owner?_cons, List.findSome?_cons, ← ih, recalled?]
    split <;> rfl

/-- Sources without names may be left out. -/
theorem findSome?_recalled?_filter {sources : List ClassSource} {keep : ClassSource → Bool}
    (h : ∀ source ∈ sources, keep source = false → source.listed shelf.files = []) :
    (sources.filter keep).findSome? (recalled? shelf name) =
      sources.findSome? (recalled? shelf name) := by
  induction sources with
  | nil => rfl
  | cons source sources ih =>
    have hrest := ih fun other hother => h other (.tail _ hother)
    cases hkeep : keep source with
    | true => rw [List.filter_cons_of_pos hkeep, List.findSome?_cons, List.findSome?_cons, hrest]
    | false =>
      have hnone : source.recalled? shelf name = none := by
        rw [recalled?, h source List.mem_cons_self hkeep, if_neg List.not_mem_nil]
      rw [List.filter_cons_of_neg (by simp [hkeep]), List.findSome?_cons, hnone, hrest]

/-- Going through sources surveys them all. -/
theorem surveyed_mapM_withNames {files : FileTree} {sources : List ClassSource}
    (h : ∀ source ∈ sources, source.Grounded inventory files) :
    ∀ shelf : Shelf, shelf.files = files → shelf.Truthful inventory →
      (∀ source ∈ sources, source.Ready shelf) →
      ∃ after, (sources.mapM withNames).run shelf = (named files sources, after) ∧
        shelf.Advances inventory after ∧ ∀ source ∈ sources, source.Surveyed after := by
  induction sources with
  | nil => exact fun shelf _ htruthful _ => ⟨shelf, rfl, .refl htruthful, List.forall_mem_nil _⟩
  | cons source sources ih =>
    intro shelf hfiles htruthful hready
    subst hfiles
    have hsource := h source List.mem_cons_self
    have hfirst := hsource.advances_names htruthful
    have hsurveyed := hsource.surveyed_names htruthful (hready source List.mem_cons_self)
    obtain ⟨after, hafter, hrest, hothers⟩ := ih (fun other hother => h other (.tail _ hother)) _
      hfirst.files hfirst.truthful fun other hother => hfirst.ready (hready other (.tail _ hother))
    refine ⟨after, ?_, hfirst.trans hrest,
      List.forall_mem_cons.2 ⟨hrest.surveyed hsurveyed, hothers⟩⟩
    have hnamed : (withNames source).run shelf =
        ((source.listed shelf.files, source), (source.names.run shelf).2) := by
      rw [← (hsource.names htruthful).1]
      rfl
    rw [List.mapM_cons, Shelved.run_bind, hnamed, Shelved.run_bind, hafter]
    rfl

/-- What is made of sources that are laid one behind the other recalls what the first of them does. -/
theorem recalls_unionOf {sources : List ClassSource} (htruthful : shelf.Truthful inventory)
    (hfiles : shelf.files.WellFormed)
    (h : ∀ source ∈ sources, source.Grounded inventory shelf.files)
    (hready : ∀ source ∈ sources, source.Ready shelf) :
    ∃ union after, (unionOf sources).run shelf = (union, after) ∧
      shelf.Advances inventory after ∧ union.Grounded inventory shelf.files ∧ union.Ready after ∧
      ∀ name, union.recalled? shelf name = sources.findSome? (recalled? shelf name) := by
  have hkept : ∀ name, (filled shelf sources).findSome? (recalled? shelf name) =
      sources.findSome? (recalled? shelf name) := by
    refine fun name => findSome?_recalled?_filter fun source hsource hempty => ?_
    exact (h source hsource).listed_eq_nil htruthful hfiles (by simpa using hempty)
  have hmem : ∀ source ∈ filled shelf sources, source ∈ sources :=
    fun source hsource => List.mem_of_mem_filter hsource
  obtain ⟨hnone, hrun⟩ | ⟨source, hsingle, hrun⟩ | hrun := run_unionOf sources shelf
  · rw [hnone] at hkept
    exact ⟨_, _, hrun, .freshId htruthful, .empty _, .surveyed (.empty _), hkept⟩
  · rw [hsingle] at hkept hmem
    have hsource := hmem source (List.mem_singleton_self source)
    refine ⟨_, _, hrun, .refl htruthful, h source hsource, hready source hsource, fun name => ?_⟩
    rw [← hkept, List.findSome?_singleton]
  · obtain ⟨after, hafter, hadvances, hsurveyed⟩ := surveyed_mapM_withNames
      (fun source hsource => h source (hmem source hsource)) shelf rfl htruthful
      fun source hsource => hready source (hmem source hsource)
    have hnumbered := Shelf.Advances.freshId hadvances.truthful
    rw [hafter] at hrun
    refine ⟨_, _, hrun, hadvances.trans hnumbered,
      grounded_union _ _ fun source hsource => h source (hmem source hsource),
      .surveyed (.union _ _ fun part hpart => ?_), fun name => ?_⟩
    · obtain ⟨names, hnamed, _⟩ := exists_of_mem_shareNames hpart
      obtain ⟨source, hsource, heq⟩ := List.mem_map.1 hnamed
      cases heq
      exact hnumbered.surveyed (hsurveyed part.2 hsource)
    · rw [recalled?_union_shareNames, hkept]

theorem directoryState_archive_find (archive : IndexedArchive) (id other : Nat)
    (directory : ClassDirectory) :
    ((archive.find id name).run shelf).2.directoryState other directory =
      shelf.directoryState other directory := by
  rw [IndexedArchive.run_find]
  cases archive.entries.get? name with
  | none => rfl
  | some entry =>
    dsimp only
    generalize RecencyCache.get _ name = found
    obtain ⟨_ | _, cache⟩ := found
    · rfl
    · rfl

/-- A question to a source that is surveyed puts down no answers but settled ones. -/
theorem Grounded.advances_find (h : source.Grounded inventory shelf.files)
    (hsurveyed : source.Surveyed shelf) (htruthful : shelf.Truthful inventory) (name : ClassName) :
    shelf.Advances inventory ((source.find name).run shelf).2 := by
  have hkeeps := (h.find htruthful name).2
  induction h with
  | empty | read => exact .refl htruthful
  | @indexed id archive hid =>
    refine .of_memos hkeeps (memos_archive_find archive id name shelf) fun other kind hsome => ?_
    exact (directoryState_archive_find archive id other kind).symm ▸ hsome
  | @directory id classFiles hid =>
    refine .of_memos hkeeps (memos_directory_find classFiles id name shelf) fun other kind hsome => ?_
    exact (ClassDirectory.names_find name other kind).symm ▸ hsome
  | @union id moniker children _ _ ih =>
    cases hsurveyed with
    | union _ _ hparts =>
      change shelf.Keeps inventory ((findOwned name children).run shelf).2 at hkeeps
      change shelf.Advances inventory ((findOwned name children).run shelf).2
      rw [findOwned_eq] at hkeeps ⊢
      cases howner : owner? name children with
      | none => exact .refl htruthful
      | some child =>
        obtain ⟨part, hpart, rfl, _⟩ := exists_of_owner? howner
        rw [howner] at hkeeps
        exact ih part hpart (hparts part hpart) hkeeps
  | @caching id inner hid hinner ih =>
    cases hsurveyed with
    | caching _ hsurveyed =>
      cases hmemo : (shelf.memo id).get? name with
      | some result =>
        rw [run_find_remembered hmemo]
        exact .refl htruthful
      | none =>
        rw [run_find_anew hmemo] at hkeeps ⊢
        exact (ih hsurveyed (hinner.find htruthful name).2).addMemo hkeeps hid hmemo
          (hinner.find_of_surveyed hsurveyed htruthful name)

end ClassSource

/-- The classpath that finds the settled answer of the first of some sources that lists a name. -/
def Classpath.recalled (shelf : Shelf) (sources : List ClassSource) : Classpath where
  names := sources.flatMap (ClassSource.listed shelf.files)
  lookup := fun name => (sources.findSome? (ClassSource.recalled? shelf name)).getD (.ok none)

namespace Classpath

theorem find_recalled (shelf : Shelf) (sources : List ClassSource) (name : ClassName) :
    (recalled shelf sources).find name =
      (sources.findSome? (ClassSource.recalled? shelf name)).getD (.ok none) := by
  rw [find]
  split
  · rfl
  · next hnone =>
    have hrecall : sources.findSome? (ClassSource.recalled? shelf name) = none := by
      rw [List.findSome?_eq_none_iff]
      exact fun source hsource => if_neg fun hlisted =>
        hnone (List.mem_flatMap.2 ⟨source, hsource, hlisted⟩)
    rw [hrecall]
    rfl

theorem names_recalled_singleton (shelf : Shelf) (source : ClassSource) :
    (recalled shelf [source]).names = source.listed shelf.files :=
  List.flatMap_singleton _ source

theorem lookup_recalled_singleton {shelf : Shelf} {source : ClassSource} {name : ClassName}
    (h : name ∈ (recalled shelf [source]).names) :
    (recalled shelf [source]).lookup name = source.settled shelf.files shelf.memos name := by
  rw [names_recalled_singleton] at h
  change ([source].findSome? (ClassSource.recalled? shelf name)).getD _ = _
  rw [List.findSome?_singleton, ClassSource.recalled?, if_pos h, Option.getD_some]

/-- What happens to a shelf makes no difference to what is recalled. -/
theorem recalled_eq {inventory : Inventory} {before after : Shelf} {sources : List ClassSource}
    (h : before.Advances inventory after)
    (hsources : ∀ source ∈ sources, source.Grounded inventory before.files) :
    recalled after sources = recalled before sources := by
  have hlookup := funext fun name => congrArg (Option.getD · (.ok none))
    (h.findSome?_recalled?_eq hsources name)
  rw [recalled, recalled, hlookup, h.files]

end Classpath

namespace ClassSource

variable {inventory : Inventory} {shelf now : Shelf} {plugin effective source : ClassSource}

/-- A source that has been surveyed at some time gives the answers that were settled before. -/
theorem Grounded.find_of_advances (h : source.Grounded inventory shelf.files)
    (hnow : shelf.Advances inventory now) (hsurveyed : source.Surveyed now) (name : ClassName) :
    ((source.find name).run now).1 = source.settled shelf.files shelf.memos name ∧
      now.Advances inventory ((source.find name).run now).2 := by
  have hlater := h
  rw [← hnow.files] at hlater
  rw [← hnow.settled_eq h name]
  exact ⟨hlater.find_of_surveyed hsurveyed hnow.truthful name,
    hlater.advances_find hsurveyed hnow.truthful name⟩

theorem Grounded.names_of_advances (h : source.Grounded inventory shelf.files)
    (hready : source.Ready shelf) (hnow : shelf.Advances inventory now) :
    (source.names.run now).1 = source.listed shelf.files ∧
      now.Advances inventory (source.names.run now).2 ∧
      source.Surveyed (source.names.run now).2 := by
  rw [← hnow.files] at h ⊢
  exact ⟨(h.names hnow.truthful).1, h.advances_names hnow.truthful,
    h.surveyed_names hnow.truthful (hnow.ready hready)⟩

/-- A check goes through the directories of its sources before it asks them for classes, so it finds what is
found against their settled answers, and puts down no others. -/
theorem Grounded.run_verifyAgainst_of_ready (hplugin : plugin.Grounded inventory shelf.files)
    (hpluginReady : plugin.Ready shelf) (heffective : effective.Grounded inventory shelf.files)
    (heffectiveReady : effective.Ready shelf) (htruthful : shelf.Truthful inventory)
    (options : Options) :
    ((plugin.verifyAgainst effective options).run shelf).1 =
        verify (.recalled shelf [plugin]) (.recalled shelf [effective]) options ∧
      shelf.Advances inventory ((plugin.verifyAgainst effective options).run shelf).2 := by
  -- The plugin has been gone through from the start, the other source only when its names were asked for.
  have hlinking : Linking
      (fun now => shelf.Advances inventory now ∧ plugin.Surveyed now)
      (fun now => (shelf.Advances inventory now ∧ plugin.Surveyed now) ∧ effective.Surveyed now)
      plugin effective :=
    { plugin := fun now ⟨hnow, hsurveyed⟩ name =>
        have hasked := (hplugin.find_of_advances hnow hsurveyed name).2
        ⟨hnow.trans hasked, hasked.surveyed hsurveyed⟩
      names := fun now ⟨hnow, hsurveyed⟩ =>
        have ⟨_, hlisted, heffectiveSurveyed⟩ := heffective.names_of_advances heffectiveReady hnow
        ⟨⟨hnow.trans hlisted, hlisted.surveyed hsurveyed⟩, heffectiveSurveyed⟩
      find := fun now ⟨⟨hnow, hsurveyed⟩, heffectiveSurveyed⟩ name =>
        have hasked := (heffective.find_of_advances hnow heffectiveSurveyed name).2
        ⟨⟨hnow.trans hasked, hasked.surveyed hsurveyed⟩, hasked.surveyed heffectiveSurveyed⟩
      leave := fun _ hnow => hnow.1 }
  obtain ⟨hnames, hlisted, hsurveyed⟩ := hplugin.names_of_advances hpluginReady (.refl htruthful)
  refine ⟨hlinking.run_verifyAgainst ?_ options ?_ ⟨hlisted, hsurveyed⟩,
    (hlinking.kept_verifyAgainst options ⟨hlisted, hsurveyed⟩).1⟩
  · exact
      { plugin := fun now ⟨hnow, hsurveyed⟩ name hname => by
          rw [Classpath.lookup_recalled_singleton hname]
          exact (hplugin.find_of_advances hnow hsurveyed name).1
        names := fun now ⟨hnow, _⟩ => by
          rw [Classpath.names_recalled_singleton]
          exact (heffective.names_of_advances heffectiveReady hnow).1
        find := fun now ⟨⟨hnow, _⟩, heffectiveSurveyed⟩ name hname => by
          rw [Classpath.lookup_recalled_singleton hname]
          exact (heffective.find_of_advances hnow heffectiveSurveyed name).1 }
  · rw [Classpath.names_recalled_singleton]
    exact hnames

end ClassSource

end LinkCheck
