import LinkCheck.Proofs.ShownArchives

/-!
# Sources made of archives

A source may be made of archives that are read at once, of unions and of caching sources, in each other to
any depth. However it is made, it answers like its archives laid one behind the other: the first archive
that has a name answers for it, also if it cannot read the class. Asking a source changes what is
remembered, so that the next call finds another shelf, but the answers stay the same.

## Main definitions

- `SourceExpr`, `SourceExpr.build` — how a source is made, and making it
- `SourceCall` — what can be asked of a source
- `ClassSource.Composes` — a source answers like its archives

## Main results

- `SourceExpr.standing_build` — what is made shows its archives
- `SourceCall.exact_performAll` — asking keeps what is remembered right
- `SourceExpr.composes_build` — a source answers like its archives, whatever was asked before
-/

namespace LinkCheck

-- ════════════════════════════════════════════════════════════════════════
-- Making sources
-- ════════════════════════════════════════════════════════════════════════

/-- How a source is made of archives. -/
inductive SourceExpr where
  | empty
  | archive (moniker : String) (entries : List (String × List UInt8))
  | union (parts : List SourceExpr)
  | caching (inner : SourceExpr)

namespace SourceExpr

mutual

/-- Makes a source. Gives also the archives that it is made of, from left to right. -/
def build : SourceExpr → Shelved (ClassSource × List Leaf)
  | empty => return (← ClassSource.makeEmpty, [])
  | archive moniker entries => do
    let source ← ClassSource.inMemory moniker entries
    return (source, [⟨source.id, .ofEntries moniker entries⟩])
  | union parts => do
    let made ← buildAll parts
    return (← ClassSource.unionOf (made.map Prod.fst), made.flatMap Prod.snd)
  | caching inner => do
    let (source, leaves) ← inner.build
    return (← ClassSource.cached source, leaves)

/-- Makes sources one after the other. -/
def buildAll : List SourceExpr → Shelved (List (ClassSource × List Leaf))
  | [] => return []
  | part :: parts => do
    let made ← part.build
    return made :: (← buildAll parts)

end

end SourceExpr

/-- What can be asked of a source. -/
inductive SourceCall where
  | find (name : ClassName)
  | contains (name : ClassName)
  | locate (name : ClassName)
  | names
  | isEmpty
  | close

/-- Asks a source, whatever it answers. -/
def SourceCall.perform (source : ClassSource) : SourceCall → Shelved Unit
  | find name => discard (source.find name)
  | contains name => discard (source.contains name)
  | locate name => discard (source.locate name)
  | names => discard source.names
  | isEmpty => discard source.isEmpty
  | close => source.close

/-- All classes of an archive have the names under which they stand. -/
def Leaf.WellNamed (leaf : Leaf) : Prop :=
  ∀ name definition, leaf.archive.classes.get? name = some (.ok definition) → definition.name = name

theorem define_name {name : ClassName} {bytes : List UInt8} {definition : ClassDefinition}
    (h : define name bytes = .ok definition) : definition.name = name := by
  unfold define at h
  cases hparsed : ClassDefinition.parse bytes with
  | error failure =>
    rw [hparsed] at h
    cases h
  | ok parsed =>
    rw [hparsed] at h
    change (if parsed.name = name then _ else _) = _ at h
    split at h
    · next hname =>
      cases h
      exact hname
    · cases h

theorem Leaf.wellNamed_ofEntries (id : Nat) (moniker : String)
    (entries : List (String × List UInt8)) : WellNamed ⟨id, .ofEntries moniker entries⟩ := by
  intro name definition hget
  rw [ReadArchive.ofEntries, Table.get?_ofListNew] at hget
  obtain ⟨before, after, hsplit, _⟩ := List.lookup_eq_some_iff.1 hget
  have hmem : (name, .ok definition) ∈ before ++ (name, .ok definition) :: after := by simp
  rw [← hsplit] at hmem
  obtain ⟨⟨path, bytes⟩, _, hentry⟩ := List.mem_filterMap.1 hmem
  obtain ⟨other, _, hpair⟩ := Option.map_eq_some_iff.1 hentry
  obtain ⟨rfl, hdefine⟩ := Prod.mk.inj hpair
  exact define_name hdefine

/-- What making sources does: files and sources stay, there may be new sources, and what is remembered is
right. -/
structure Grows (inventory : Inventory) (shelf : Shelf) (later : Inventory) (after : Shelf) : Prop where
  files : after.files = shelf.files
  known : ∀ id source, inventory id = some source → later id = some source
  exact : after.Exact later

section Growth

variable {inventory later latest : Inventory} {shelf after last : Shelf} {files : FileTree}
  {source : ClassSource}

theorem Grows.trans (h : Grows inventory shelf later after) (hnext : Grows later after latest last) :
    Grows inventory shelf latest last where
  files := hnext.files.trans h.files
  known := fun id source hid => hnext.known id source (h.known id source hid)
  exact := hnext.exact

/-- Giving out a number is all that happens when no answers can be remembered under it. -/
theorem Grows.freshId (hexact : shelf.Exact inventory) :
    Grows inventory shelf inventory (Shelf.freshId.run shelf).2 where
  files := rfl
  known := fun _ _ hid => hid
  exact := hexact.of_memos (.freshId hexact.toTruthful) rfl

/-- A caching source is new, so nothing is remembered for it. -/
theorem Grows.cached (hexact : shelf.Exact inventory) (source : ClassSource) :
    Grows inventory shelf (inventory.withCaching shelf.nextId source)
      (Shelf.freshId.run shelf).2 := by
  have htruthful := hexact.toTruthful
  refine ⟨rfl, htruthful.known_withCaching source, htruthful.withCaching source, ?_⟩
  intro id inner hid name result hresult
  unfold Inventory.withCaching at hid
  split at hid
  · next hsame =>
    cases (htruthful.unused (Nat.le_of_eq hsame.symm) name).symm.trans hresult
  · exact hexact.unlisted hid hresult

/-- A source that has been made shows the archives that it is made of. -/
structure Standing (inventory : Inventory) (files : FileTree) (made : ClassSource × List Leaf) :
    Prop where
  grounded : made.1.Grounded inventory files
  shows : made.1.Shows made.2
  wellNamed : ∀ leaf ∈ made.2, leaf.WellNamed

theorem Standing.mono {made : ClassSource × List Leaf} (h : Standing inventory shelf.files made)
    (hgrows : Grows inventory shelf later after) : Standing later after.files made where
  grounded := hgrows.files ▸ h.grounded.mono hgrows.known
  shows := h.shows
  wellNamed := h.wellNamed

/-- A union of sources that have been made. -/
theorem Standing.unionOf {parts : List (ClassSource × List Leaf)} (hexact : shelf.Exact inventory)
    (h : ∀ part ∈ parts, Standing inventory shelf.files part) :
    Grows inventory shelf inventory ((ClassSource.unionOf (parts.map Prod.fst)).run shelf).2 ∧
      Standing inventory ((ClassSource.unionOf (parts.map Prod.fst)).run shelf).2.files
        (((ClassSource.unionOf (parts.map Prod.fst)).run shelf).1, parts.flatMap Prod.snd) := by
  have hgrounded : ∀ source ∈ parts.map Prod.fst, source.Grounded inventory shelf.files := by
    intro source hsource
    obtain ⟨part, hpart, rfl⟩ := List.mem_map.1 hsource
    exact (h part hpart).grounded
  obtain ⟨hunion, _, hkeeps⟩ := ClassSource.layers_unionOf hexact.toTruthful hgrounded
  refine ⟨⟨hkeeps.files, fun _ _ hid => hid, ClassSource.exact_unionOf hexact hgrounded⟩,
    hkeeps.files ▸ hunion, ?_, fun leaf hleaf => ?_⟩
  · exact ClassSource.shows_unionOf (fun part hpart => (h part hpart).shows) shelf
  · obtain ⟨part, hpart, hmem⟩ := List.mem_flatMap.1 hleaf
    exact (h part hpart).wellNamed leaf hmem

/-- A caching source over one that has been made. -/
theorem Standing.cached {leaves : List Leaf} (hexact : shelf.Exact inventory)
    (h : Standing inventory shelf.files (source, leaves)) : ∃ later,
      Grows inventory shelf later (Shelf.freshId.run shelf).2 ∧
        Standing later (Shelf.freshId.run shelf).2.files
          (.caching shelf.nextId source, leaves) :=
  ⟨_, .cached hexact source, h.grounded.withCaching hexact.toTruthful,
    h.shows.caching_source shelf.nextId, h.wellNamed⟩

end Growth

namespace SourceExpr

mutual

/-- Making a source gives one that shows its archives, and keeps what is remembered right. -/
theorem standing_build (expr : SourceExpr) (inventory : Inventory) (shelf : Shelf)
    (hexact : shelf.Exact inventory) : ∃ later,
      Grows inventory shelf later (expr.build.run shelf).2 ∧
        Standing later (expr.build.run shelf).2.files (expr.build.run shelf).1 := by
  match expr with
  | empty =>
    exact ⟨inventory, .freshId hexact, .empty _, .empty_source _, fun _ hleaf => by cases hleaf⟩
  | archive moniker entries =>
    refine ⟨inventory, .freshId hexact, .read _ _, .read_archive ?_, fun leaf hleaf => ?_⟩
    · exact Table.nodup_keys_ofListNew _
    · rw [List.mem_singleton.1 hleaf]
      exact Leaf.wellNamed_ofEntries _ moniker entries
  | union parts =>
    obtain ⟨later, hgrows, hparts⟩ := standing_buildAll parts inventory shelf hexact
    obtain ⟨hunited, hunion⟩ := Standing.unionOf hgrows.exact hparts
    rw [build]
    exact ⟨later, hgrows.trans hunited, hunion⟩
  | caching inner =>
    obtain ⟨later, hgrows, hinner⟩ := standing_build inner inventory shelf hexact
    obtain ⟨latest, hcached, hcaching⟩ := Standing.cached hgrows.exact hinner
    rw [build]
    exact ⟨latest, hgrows.trans hcached, hcaching⟩

theorem standing_buildAll (parts : List SourceExpr) (inventory : Inventory) (shelf : Shelf)
    (hexact : shelf.Exact inventory) : ∃ later,
      Grows inventory shelf later ((buildAll parts).run shelf).2 ∧
        ∀ made ∈ ((buildAll parts).run shelf).1,
          Standing later ((buildAll parts).run shelf).2.files made := by
  match parts with
  | [] => exact ⟨inventory, ⟨rfl, fun _ _ hid => hid, hexact⟩, fun _ hmade => by cases hmade⟩
  | part :: parts =>
    obtain ⟨later, hgrows, hfirst⟩ := standing_build part inventory shelf hexact
    obtain ⟨latest, hnext, hothers⟩ :=
      standing_buildAll parts later (part.build.run shelf).2 hgrows.exact
    rw [buildAll]
    refine ⟨latest, hgrows.trans hnext, fun made hmade => ?_⟩
    obtain rfl | hmade := List.mem_cons.1 hmade
    · exact hfirst.mono hnext
    · exact hothers made hmade

end

end SourceExpr

-- ════════════════════════════════════════════════════════════════════════
-- Asking sources
-- ════════════════════════════════════════════════════════════════════════

/-- A source answers like its archives laid one behind the other. -/
structure ClassSource.Composes (leaves : List Leaf) (shelf : Shelf) (source : ClassSource) : Prop where
  find : ∀ name, ((source.find name).run shelf).1 = Leaf.answer leaves name
  find_eq_none_iff : ∀ name,
    ((source.find name).run shelf).1 = .ok none ↔ ∀ leaf ∈ leaves, name ∉ leaf.names
  name_of_find : ∀ name definition,
    ((source.find name).run shelf).1 = .ok (some definition) → definition.name = name
  /-- A class that the first archive cannot read is not looked for in the others. -/
  find_unreadable : ∀ name leaf failure, Leaf.first? leaves name = some leaf →
    leaf.archive.classes.get? name = some (.error failure) →
      ((source.find name).run shelf).1 = .error failure
  contains_iff : ∀ name,
    ((source.contains name).run shelf).1 = true ↔ name ∈ (source.names.run shelf).1
  isSome_locate_iff : ∀ name,
    ((source.locate name).run shelf).1.isSome = true ↔ name ∈ (source.names.run shelf).1
  locate : ∀ name,
    ((source.locate name).run shelf).1 = (Leaf.first? leaves name).map Leaf.source
  names : (source.names.run shelf).1 = (leaves.flatMap Leaf.names).eraseDups
  isEmpty_iff : (source.isEmpty.run shelf).1 = true ↔ (source.names.run shelf).1 = []

section Asking

variable {inventory : Inventory} {shelf : Shelf} {source : ClassSource} {leaves : List Leaf}
  {name : ClassName}

/-- Where a class is found, the first archive with its name holds it. -/
theorem Leaf.get?_of_answer {definition : ClassDefinition}
    (h : answer leaves name = .ok (some definition)) :
    ∃ leaf ∈ leaves, leaf.archive.classes.get? name = some (.ok definition) := by
  unfold answer at h
  cases hfirst : first? leaves name with
  | none =>
    rw [hfirst] at h
    cases h
  | some leaf =>
    refine ⟨leaf, List.mem_of_find?_eq_some hfirst, ?_⟩
    rw [hfirst, Option.map_some, Option.getD_some, ReadArchive.find] at h
    cases hget : leaf.archive.classes.get? name with
    | none =>
      rw [hget] at h
      cases h
    | some result =>
      rw [hget] at h
      cases result with
      | error failure => cases h
      | ok found =>
        cases h
        rfl

theorem Leaf.answer_unreadable {leaf : Leaf} {failure : ReadError}
    (hfirst : first? leaves name = some leaf)
    (hget : leaf.archive.classes.get? name = some (.error failure)) :
    answer leaves name = .error failure := by
  rw [answer, hfirst, Option.map_some, Option.getD_some, ReadArchive.find, hget]
  rfl

theorem ClassSource.Shows.getD_told? (h : source.Shows leaves) (files : FileTree)
    (name : ClassName) : (source.told? files name).getD (.ok none) = Leaf.answer leaves name := by
  rw [told?, h.listed, h.answer]
  split
  · rfl
  · next hname => exact (Leaf.answer_eq_none_iff.2 hname).symm

/-- As long as what is remembered is right, a source answers like its archives. -/
theorem Standing.composes (h : Standing inventory shelf.files (source, leaves))
    (hexact : shelf.Exact inventory) : source.Composes leaves shelf := by
  have hshows : source.Shows leaves := h.shows
  have hfind : ∀ name, ((source.find name).run shelf).1 = Leaf.answer leaves name := fun name =>
    (h.grounded.find_eq hexact (hshows.coherent shelf.files) name).trans
      (hshows.getD_told? shelf.files name)
  have hnames : (source.names.run shelf).1 = Leaf.distinctNames leaves := by
    rw [hshows.names]
    rfl
  have hlocate : ∀ name, ((source.locate name).run shelf).1 =
      (Leaf.first? leaves name).map Leaf.source := fun name => by
    rw [hshows.locate]
    rfl
  refine ⟨hfind, fun name => ?_, fun name definition hfound => ?_, ?_, fun name => ?_,
    fun name => ?_, hlocate, hnames, ?_⟩
  · rw [hfind, Leaf.answer_eq_none_iff, Leaf.mem_distinctNames_iff]
    simp
  · rw [hfind] at hfound
    obtain ⟨leaf, hleaf, hget⟩ := Leaf.get?_of_answer hfound
    exact h.wellNamed leaf hleaf name definition hget
  · intro name leaf failure hfirst hget
    rw [hfind, Leaf.answer_unreadable hfirst hget]
  · rw [hnames, hshows.contains]
    exact decide_eq_true_iff
  · rw [hnames, hlocate, Option.isSome_map, Leaf.isSome_first?_iff]
  · rw [hnames, hshows.isEmpty]
    exact List.isEmpty_iff

/-- Asking a source leaves the files, and what is remembered stays right. -/
theorem SourceCall.exact_perform (h : Standing inventory shelf.files (source, leaves))
    (hexact : shelf.Exact inventory) (call : SourceCall) :
    ((call.perform source).run shelf).2.files = shelf.files ∧
      ((call.perform source).run shelf).2.Exact inventory := by
  have hshows : source.Shows leaves := h.shows
  cases call with
  | find name =>
    exact ⟨(h.grounded.find hexact.toTruthful name).2.files,
      (h.grounded.find_exact hexact (.inr (hshows.coherent shelf.files))).2⟩
  | contains name =>
    rw [perform, hshows.contains]
    exact ⟨rfl, hexact⟩
  | locate name =>
    rw [perform, hshows.locate]
    exact ⟨rfl, hexact⟩
  | names =>
    rw [perform, hshows.names]
    exact ⟨rfl, hexact⟩
  | isEmpty =>
    rw [perform, hshows.isEmpty]
    exact ⟨rfl, hexact⟩
  | close =>
    rw [perform, hshows.close]
    exact ⟨rfl, hexact⟩

theorem SourceCall.exact_performAll (calls : List SourceCall)
    (h : Standing inventory shelf.files (source, leaves)) (hexact : shelf.Exact inventory) :
    ((calls.forM (perform source)).run shelf).2.files = shelf.files ∧
      ((calls.forM (perform source)).run shelf).2.Exact inventory := by
  induction calls generalizing shelf with
  | nil => exact ⟨rfl, hexact⟩
  | cons call calls ih =>
    obtain ⟨hfiles, hafter⟩ := exact_perform h hexact call
    have hrest := ih (hfiles ▸ h) hafter
    rw [hfiles] at hrest
    exact hrest

end Asking

/-- A source that is made of archives, unions and caching sources answers like its archives laid one behind
the other, whatever it was asked before. -/
theorem SourceExpr.composes_build (expr : SourceExpr) (calls : List SourceCall) (shelf : Shelf)
    (hunused : ∀ id, shelf.nextId ≤ id → ∀ name, (shelf.memo id).get? name = none) :
    let made := expr.build.run shelf
    let asked := (calls.forM (SourceCall.perform made.1.1)).run made.2
    made.1.1.Composes made.1.2 asked.2 := by
  have hexact : shelf.Exact fun _ => none :=
    ⟨⟨nofun, nofun, nofun, nofun, fun hid => hunused _ hid⟩, nofun⟩
  obtain ⟨later, hgrows, hstands⟩ := standing_build expr _ shelf hexact
  obtain ⟨hfiles, hasked⟩ := SourceCall.exact_performAll calls hstands hgrows.exact
  exact Standing.composes (hfiles ▸ hstands) hasked

/-- Two archives with a class that cannot be read, behind each other and behind caching sources. -/
def SourceExpr.stacked : SourceExpr :=
  .caching (.union [.archive "front" [("x/X.class", [])], .empty, .archive "bare" [],
    .caching (.union [.archive "back" [("y/Y.class", []), ("x/X.class", [0xca, 0xfe])]])])

/-- The archive in front answers for the class that both have, also after it was asked before. -/
theorem SourceExpr.composes_build_stacked :
    let calls := [.find ⟨"x/X"⟩, .find ⟨"z/Z"⟩, .close, .names]
    let made := stacked.build.run {}
    let asked := (calls.forM (SourceCall.perform made.1.1)).run made.2
    (∀ id, ({} : Shelf).nextId ≤ id → ∀ name, (({} : Shelf).memo id).get? name = none) ∧
      made.1.2.map (·.archive.moniker) = ["front", "bare", "back"] ∧
      made.1.1.Composes made.1.2 asked.2 ∧
      (Leaf.first? made.1.2 ⟨"x/X"⟩).map (·.archive.moniker) = some "front" ∧
      (made.1.1.names.run asked.2).1 = [⟨"x/X"⟩, ⟨"y/Y"⟩] := by
  have hunused : ∀ id, ({} : Shelf).nextId ≤ id → ∀ name,
      (({} : Shelf).memo id).get? name = none := fun _ _ _ => rfl
  refine ⟨hunused, ?_, composes_build stacked _ {} hunused, ?_, ?_⟩
  · decide +kernel
  · decide +kernel
  · rw [(composes_build stacked _ {} hunused).names]
    decide +kernel

end LinkCheck
