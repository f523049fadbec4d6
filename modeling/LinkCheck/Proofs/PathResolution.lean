import LinkCheck.ClassSource.Lookup
import LinkCheck.Proofs.Tables
import Mathlib.Data.List.Basic
import Mathlib.Data.List.Induction

/-!
# Following paths

A path is followed segment by segment, so a path below another leads where the other leads and from there
one step further. In a tree of files, where all that is above an entry is a directory, a path made of names
leads to the entry that these names lead to from its start, as long as it does not get too long.

## Main definitions

- `Path.IsName` — a name that an entry of a directory may have
- `FileTree.WellFormed` — all that is above an entry is a directory

## Main results

- `FileTree.directoryAt_foldl_join_iff` — where a path leads that is made of names
- `FileTree.mem_list_iff`, `FileTree.mem_filesBelow_iff` — what is in a directory, and below it
-/

namespace LinkCheck

namespace Path

theorem splitSlashes_ne_nil (chars : List Char) : splitSlashes chars ≠ [] := by
  cases chars with
  | nil => exact List.cons_ne_nil _ _
  | cons c rest =>
    rw [splitSlashes]
    split
    · exact List.cons_ne_nil _ _
    · cases splitSlashes rest <;> exact List.cons_ne_nil _ _

theorem splitSlashes_append_slash (front rest : List Char) :
    splitSlashes (front ++ '/' :: rest) = splitSlashes front ++ splitSlashes rest := by
  induction front with
  | nil => rfl
  | cons c front ih =>
    rw [List.cons_append, splitSlashes, splitSlashes, ih]
    split
    · rfl
    · obtain ⟨segment, segments, hfront⟩ := List.exists_cons_of_ne_nil (splitSlashes_ne_nil front)
      rw [hfront]
      rfl

theorem splitSlashes_of_not_mem {chars : List Char} (h : '/' ∉ chars) :
    splitSlashes chars = [chars] := by
  induction chars with
  | nil => rfl
  | cons c chars ih =>
    rw [List.mem_cons, not_or] at h
    rw [splitSlashes, if_neg (Ne.symm h.1), ih h.2]

theorem segments_ne_nil (path : String) : segments path ≠ [] := by
  rw [segments, ne_eq, List.map_eq_nil_iff]
  exact splitSlashes_ne_nil _

theorem segments_append_slash (front rest : String) :
    segments (front ++ "/" ++ rest) = segments front ++ segments rest := by
  have hslash : "/".toList = ['/'] := rfl
  simp only [segments, String.toList_append, hslash, List.append_assoc, List.singleton_append,
    splitSlashes_append_slash, List.map_append]

theorem segments_of_not_mem {name : String} (h : '/' ∉ name.toList) : segments name = [name] := by
  rw [segments, splitSlashes_of_not_mem h]
  simp

/-- The characters between slashes are no slashes and come from the path. -/
theorem of_mem_segments {path segment : String} {c : Char} (h : segment ∈ segments path)
    (hc : c ∈ segment.toList) : c ∈ path.toList ∧ c ≠ '/' := by
  suffices hchars : ∀ chars : List Char, ∀ part ∈ splitSlashes chars, c ∈ part →
      c ∈ chars ∧ c ≠ '/' by
    obtain ⟨part, hpart, rfl⟩ := List.mem_map.1 h
    rw [String.toList_ofList] at hc
    exact hchars _ part hpart hc
  intro chars
  induction chars with
  | nil => simp [splitSlashes]
  | cons first chars ih =>
    have hrest : ∀ part ∈ splitSlashes chars, c ∈ part → c ∈ first :: chars ∧ c ≠ '/' :=
      fun part hpart hmem => (ih part hpart hmem).imp_left (.tail _)
    obtain ⟨part, others, hsplit⟩ := List.exists_cons_of_ne_nil (splitSlashes_ne_nil chars)
    rw [hsplit, List.forall_mem_cons] at hrest
    rw [splitSlashes, hsplit]
    split
    · rw [List.forall_mem_cons, List.forall_mem_cons]
      exact ⟨nofun, hrest⟩
    · next hother =>
      rw [List.forall_mem_cons]
      refine ⟨fun hmem => ?_, hrest.2⟩
      rcases List.mem_cons.1 hmem with rfl | hmem
      · exact ⟨List.mem_cons_self, hother⟩
      · exact hrest.1 hmem

/-- Names that are put together with slashes are the segments of the path. -/
theorem segments_intercalate {names : List String} (hne : names ≠ [])
    (h : ∀ name ∈ names, '/' ∉ name.toList) : segments ("/".intercalate names) = names := by
  induction names with
  | nil => exact absurd rfl hne
  | cons name names ih =>
    rw [List.forall_mem_cons] at h
    by_cases hnames : names = []
    · rw [hnames, String.intercalate_singleton, segments_of_not_mem h.1]
    · rw [String.intercalate_cons_of_ne_nil hnames, segments_append_slash, segments_of_not_mem h.1,
        ih hnames h.2]
      rfl

theorem intercalate_splitSlashes (chars : List Char) :
    ['/'].intercalate (splitSlashes chars) = chars := by
  induction chars with
  | nil => rfl
  | cons c chars ih =>
    obtain ⟨first, others, hsplit⟩ := List.exists_cons_of_ne_nil (splitSlashes_ne_nil chars)
    rw [splitSlashes]
    rw [hsplit] at ih ⊢
    split
    · next hslash => rw [List.intercalate_cons_cons, ih, hslash]; rfl
    · cases others with
      | nil => simpa using ih
      | cons second others =>
        rw [List.intercalate_cons_cons] at ih ⊢
        rw [← ih]
        rfl

/-- A path is put together again from its segments. -/
theorem intercalate_segments (path : String) : "/".intercalate (segments path) = path := by
  apply String.toList_injective
  have hparts : (segments path).map String.toList = splitSlashes path.toList := by
    rw [segments, List.map_map]
    exact (List.map_congr_left fun part _ => String.toList_ofList).trans (List.map_id _)
  rw [String.toList_intercalate, hparts]
  exact intercalate_splitSlashes path.toList

/-- A name that an entry of a directory may have. -/
def IsName (name : String) : Prop :=
  isStep name = true ∧ name ≠ ".." ∧ '/' ∉ name.toList ∧ '\x00' ∉ name.toList ∧
    name.utf8ByteSize ≤ FileTree.nameLimit

instance (name : String) : Decidable (IsName name) :=
  inferInstanceAs (Decidable (_ ∧ _ ∧ _ ∧ _ ∧ _))

variable {base name : String}

theorem isAbsolute_of_not_mem (h : '/' ∉ name.toList) : isAbsolute name = false := by
  refine decide_eq_false fun hhead => h ?_
  exact List.mem_of_head? hhead

/-- A base that ends with a slash has an empty segment at the end, which the path below it has not. -/
theorem join_cases (hbase : base ≠ "") (hname : '/' ∉ name.toList) :
    (∃ front, base = front ++ "/" ++ "" ∧ join base name = front ++ "/" ++ name) ∨
      join base name = base ++ "/" ++ name := by
  have hempty : base.isEmpty = false := by simpa using hbase
  rw [join, isAbsolute_of_not_mem hname, hempty]
  by_cases hslash : base.toList.getLast? = some '/'
  · have hfront : base = String.ofList base.toList.dropLast ++ "/" := by
      apply String.toList_injective
      simpa using (List.dropLast_append_getLast? _ hslash).symm
    refine .inl ⟨String.ofList base.toList.dropLast, ?_, ?_⟩
    · rw [String.append_empty, ← hfront]
    · rw [← hfront]
      simp [hslash]
  · right
    simp [hslash]

/-- What a path below another adds to it is a name and perhaps a slash. -/
theorem exists_join_eq_append (hbase : base ≠ "") (hname : '/' ∉ name.toList) :
    ∃ rest, join base name = base ++ rest ∧
      ∀ c, c ≠ '/' → (c ∈ rest.toList ↔ c ∈ name.toList) := by
  obtain ⟨front, hfront, hjoin⟩ | hjoin := join_cases hbase hname
  · refine ⟨name, ?_, fun _ _ => Iff.rfl⟩
    rw [hjoin, hfront, String.append_empty]
  · refine ⟨"/" ++ name, by rw [hjoin, String.append_assoc], fun c hslash => ?_⟩
    simp [hslash]

theorem join_ne_empty (hbase : base ≠ "") (hname : '/' ∉ name.toList) : join base name ≠ "" := by
  obtain ⟨rest, hjoin, -⟩ := exists_join_eq_append hbase hname
  rw [hjoin, ne_eq, String.append_eq_empty_iff]
  exact fun hempty => hbase hempty.1

theorem size_le_join (hbase : base ≠ "") (hname : '/' ∉ name.toList) :
    base.utf8ByteSize ≤ (join base name).utf8ByteSize := by
  obtain ⟨rest, hjoin, -⟩ := exists_join_eq_append hbase hname
  rw [hjoin, String.utf8ByteSize_append]
  exact Nat.le_add_right _ _

theorem size_le_foldl_join {names : List String} (hbase : base ≠ "")
    (hnames : ∀ name ∈ names, '/' ∉ name.toList) :
    base.utf8ByteSize ≤ (names.foldl join base).utf8ByteSize := by
  induction names generalizing base with
  | nil => exact Nat.le_refl _
  | cons name names ih =>
    rw [List.forall_mem_cons] at hnames
    exact Nat.le_trans (size_le_join hbase hnames.1)
      (ih (join_ne_empty hbase hnames.1) hnames.2)

theorem isAbsolute_append (hbase : base ≠ "") (rest : String) :
    isAbsolute (base ++ rest) = isAbsolute base := by
  obtain ⟨c, chars, hchars⟩ := List.exists_cons_of_ne_nil (mt String.toList_eq_nil_iff.1 hbase)
  rw [isAbsolute, isAbsolute, String.toList_append, hchars]
  rfl

end Path

namespace FileTree

open LinkCheck.Path

variable {tree : FileTree} {base name : String} {place next : Place}

theorem step_eq_ok_iff : tree.step place name = .ok next ↔
    tree.nodeAt? place = some .directory ∧ name.utf8ByteSize ≤ nameLimit ∧
      place.go? name = some next ∧ (tree.nodeAt? next).isSome = true := by
  unfold step
  rcases tree.nodeAt? place with _ | _ | number
  · simp
  · by_cases hlong : nameLimit < name.utf8ByteSize
    · simp [hlong, Nat.not_le.2 hlong]
    · simp only [hlong, if_false, Nat.le_of_not_lt hlong, true_and]
      rw [← Option.filter_eq_some_iff (p := fun next => (tree.nodeAt? next).isSome)]
      cases (place.go? name).filter fun next => (tree.nodeAt? next).isSome <;> simp
  · simp

/-- An empty segment stays in place, if this is a directory. -/
theorem step_empty_iff : tree.step place "" = .ok next ↔
    tree.nodeAt? place = some .directory ∧ place = next := by
  have hgo : place.go? "" = some place := rfl
  rw [step_eq_ok_iff, hgo, Option.some_inj]
  constructor
  · rintro ⟨hdirectory, -, hsame, -⟩
    exact ⟨hdirectory, hsame⟩
  · rintro ⟨hdirectory, rfl⟩
    exact ⟨hdirectory, Nat.zero_le _, rfl, by rw [hdirectory]; rfl⟩

theorem foldlM_step_append_iff {start : Place} {segments : List String} :
    (segments ++ [name]).foldlM tree.step start = .ok next ↔
      ∃ place, segments.foldlM tree.step start = .ok place ∧ tree.step place name = .ok next := by
  rw [List.foldlM_append]
  cases segments.foldlM tree.step start with
  | error fault =>
    constructor
    · intro h
      cases h
    · rintro ⟨place, h, -⟩
      cases h
  | ok place =>
    have hlast : (Except.ok place >>= fun place => [name].foldlM tree.step place) =
        tree.step place name := by
      change tree.step place name >>= pure = _
      exact bind_pure _
    rw [hlast]
    constructor
    · exact fun h => ⟨place, rfl, h⟩
    · rintro ⟨other, hother, h⟩
      cases hother
      exact h

/-- A path below another leads one step further, from wherever it starts. -/
theorem foldlM_step_join_iff {start : Place} (hbase : base ≠ "") (hname : '/' ∉ name.toList) :
    (segments (join base name)).foldlM tree.step start = .ok next ↔
      ∃ place, (segments base).foldlM tree.step start = .ok place ∧
        tree.step place name = .ok next := by
  obtain ⟨front, hfront, hjoin⟩ | hjoin := join_cases hbase hname
  · -- Only the base has an empty segment at its end, and a step can be made from a directory only.
    have hempty : segments "" = [""] := rfl
    rw [hjoin, hfront, segments_append_slash, segments_append_slash, segments_of_not_mem hname,
      hempty, foldlM_step_append_iff]
    constructor
    · rintro ⟨place, hplace, hstep⟩
      refine ⟨place, foldlM_step_append_iff.2 ⟨place, hplace, ?_⟩, hstep⟩
      exact step_empty_iff.2 ⟨(step_eq_ok_iff.1 hstep).1, rfl⟩
    · rintro ⟨place, hplace, hstep⟩
      obtain ⟨before, hbefore, hstay⟩ := foldlM_step_append_iff.1 hplace
      obtain ⟨-, rfl⟩ := step_empty_iff.1 hstay
      exact ⟨before, hbefore, hstep⟩
  · rw [hjoin, segments_append_slash, segments_of_not_mem hname, foldlM_step_append_iff]

theorem resolve_eq_ok_iff {path : String} : tree.resolve path = .ok place ↔
    '\x00' ∉ path.toList ∧ path.utf8ByteSize ≤ pathLimit ∧ path ≠ "" ∧
      (segments path).foldlM tree.step (.start path) = .ok place := by
  unfold resolve
  by_cases hnul : '\x00' ∈ path.toList
  · simp [hnul]
  · by_cases hlong : pathLimit < path.utf8ByteSize
    · simp [hnul, hlong, Nat.not_le.2 hlong]
    · by_cases hempty : path = ""
      · simp [hempty]
      · simp [hnul, hlong, hempty, Nat.le_of_not_lt hlong]

/-- A path below another leads one step further than the other, unless it is no path. -/
theorem resolve_join_iff (hbase : base ≠ "") (hname : '/' ∉ name.toList) :
    tree.resolve (join base name) = .ok next ↔
      '\x00' ∉ name.toList ∧ (join base name).utf8ByteSize ≤ pathLimit ∧
        ∃ place, tree.resolve base = .ok place ∧ tree.step place name = .ok next := by
  obtain ⟨rest, hjoin, hrest⟩ := exists_join_eq_append hbase hname
  have hstart : Place.start (join base name) = Place.start base := by
    rw [Place.start, Place.start, hjoin, isAbsolute_append hbase]
  have hnul : '\x00' ∉ (join base name).toList ↔ '\x00' ∉ base.toList ∧ '\x00' ∉ name.toList := by
    rw [hjoin, String.toList_append, List.mem_append, hrest _ (by decide), not_or]
  rw [resolve_eq_ok_iff, hnul, hstart, foldlM_step_join_iff hbase hname]
  constructor
  · rintro ⟨⟨hbaseNul, hnameNul⟩, hlimit, -, place, hplace, hstep⟩
    refine ⟨hnameNul, hlimit, place, resolve_eq_ok_iff.2 ?_, hstep⟩
    exact ⟨hbaseNul, Nat.le_trans (size_le_join hbase hname) hlimit, hbase, hplace⟩
  · rintro ⟨hnameNul, hlimit, place, hplace, hstep⟩
    obtain ⟨hbaseNul, -, -, hwalked⟩ := resolve_eq_ok_iff.1 hplace
    exact ⟨⟨hbaseNul, hnameNul⟩, hlimit, join_ne_empty hbase hname, place, hwalked, hstep⟩

/-- A path that is made of names leads where these names lead, one after the other. -/
theorem resolve_foldl_join_iff {names : List String} (hbase : base ≠ "")
    (hnames : ∀ name ∈ names, '/' ∉ name.toList) :
    tree.resolve (names.foldl join base) = .ok next ↔
      (∀ name ∈ names, '\x00' ∉ name.toList) ∧
        (names.foldl join base).utf8ByteSize ≤ pathLimit ∧
        ∃ place, tree.resolve base = .ok place ∧ names.foldlM tree.step place = .ok next := by
  induction names generalizing base with
  | nil =>
    constructor
    · intro h
      exact ⟨List.forall_mem_nil _, (resolve_eq_ok_iff.1 h).2.1, next, h, rfl⟩
    · rintro ⟨-, -, place, hplace, hsame⟩
      cases hsame
      exact hplace
  | cons name names ih =>
    rw [List.forall_mem_cons] at hnames ⊢
    have hne := join_ne_empty hbase hnames.1
    rw [List.foldl_cons, ih hne hnames.2]
    constructor
    · rintro ⟨hnul, hlimit, place, hplace, hrest⟩
      obtain ⟨hfirst, -, before, hbefore, hstep⟩ := (resolve_join_iff hbase hnames.1).1 hplace
      refine ⟨⟨hfirst, hnul⟩, hlimit, before, hbefore, ?_⟩
      rw [List.foldlM_cons, hstep]
      exact hrest
    · rintro ⟨⟨hfirst, hnul⟩, hlimit, before, hbefore, hall⟩
      rw [List.foldlM_cons] at hall
      cases hstep : tree.step before name with
      | error fault =>
        rw [hstep] at hall
        cases hall
      | ok place =>
        rw [hstep] at hall
        refine ⟨hnul, hlimit, place, (resolve_join_iff hbase hnames.1).2 ?_, hall⟩
        have hsize := size_le_foldl_join hne hnames.2
        exact ⟨hfirst, Nat.le_trans hsize hlimit, before, hbefore, hstep⟩

/-- The entries of a tree have names, and all that is above an entry is a directory. -/
structure WellFormed (tree : FileTree) : Prop where
  distinct : tree.nodes.keys.Nodup
  named : ∀ names ∈ tree.nodes.keys, ∀ name ∈ names, IsName name
  parent : ∀ names ∈ tree.nodes.keys, tree.nodeAt? (.inside names.dropLast) = some .directory

theorem directoryAt_eq_ok_iff {path : String} : tree.directoryAt path = .ok place ↔
    tree.resolve path = .ok place ∧ tree.nodeAt? place = some .directory := by
  unfold directoryAt
  rcases tree.resolve path with fault | found
  · simp [bind, Except.bind]
  · simp only [bind, Except.bind, Except.ok.injEq]
    rcases hnode : tree.nodeAt? found with _ | _ | number
    · refine iff_of_false nofun ?_
      rintro ⟨rfl, hdirectory⟩
      cases hnode.symm.trans hdirectory
    · refine ⟨fun h => ?_, fun h => congrArg _ h.1⟩
      obtain rfl := Except.ok.inj h
      exact ⟨rfl, hnode⟩
    · refine iff_of_false nofun ?_
      rintro ⟨rfl, hdirectory⟩
      cases hnode.symm.trans hdirectory

theorem exists_directoryAt_of_isDirectory {path : String} (h : tree.isDirectory path = true) :
    ∃ place, tree.directoryAt path = .ok place := by
  unfold isDirectory node at h
  rcases hresolved : tree.resolve path with fault | place
  · simp [hresolved, bind, Except.bind] at h
  · refine ⟨place, directoryAt_eq_ok_iff.2 ⟨hresolved, ?_⟩⟩
    rcases hnode : tree.nodeAt? place with _ | _ | number
    · simp [hresolved, hnode, bind, Except.bind, throw, throwThe, MonadExceptOf.throw] at h
    · rfl
    · simp [hresolved, hnode, bind, Except.bind, Node.isDirectory, pure, Except.pure] at h

theorem nodeAt?_inside {names : List String} (h : names ≠ []) :
    tree.nodeAt? (.inside names) = tree.nodes.get? names := by
  cases names with
  | nil => exact absurd rfl h
  | cons name names => rfl

theorem mem_keys_of_nodeAt? {names : List String} (h : names ≠ []) {node : Node}
    (hnode : tree.nodeAt? (.inside names) = some node) : names ∈ tree.nodes.keys := by
  rw [nodeAt?_inside h] at hnode
  rw [Table.mem_keys_iff, Table.contains, hnode]
  rfl

/-- A name leads from a place to the entry with this name. -/
theorem go?_inside (names : List String) (hstep : isStep name = true) (hup : name ≠ "..") :
    (Place.inside names).go? name = some (.inside (names ++ [name])) := by
  rw [Place.go?, if_neg hup, if_pos hstep]
  rfl

theorem eq_of_foldlM_step {names place : List String}
    (hnames : ∀ name ∈ names, isStep name = true ∧ name ≠ "..")
    (h : names.foldlM tree.step (.inside place) = .ok next) : next = .inside (place ++ names) := by
  induction names generalizing place with
  | nil =>
    rw [List.append_nil]
    exact (Except.ok.inj h).symm
  | cons name names ih =>
    rw [List.forall_mem_cons] at hnames
    rw [List.foldlM_cons] at h
    cases hstep : tree.step (.inside place) name with
    | error fault =>
      rw [hstep] at h
      cases h
    | ok after =>
      rw [hstep] at h
      obtain ⟨-, -, hgo, -⟩ := step_eq_ok_iff.1 hstep
      rw [go?_inside place hnames.1.1 hnames.1.2] at hgo
      cases hgo
      rw [ih hnames.2 h, List.append_assoc]
      rfl

namespace WellFormed

variable (h : tree.WellFormed) {place names : List String} {path : String}
include h

/-- Names lead to a directory through those above it. -/
theorem foldlM_step
    (hdirectory : tree.nodeAt? (.inside (place ++ names)) = some .directory) :
    names.foldlM tree.step (.inside place) = .ok (.inside (place ++ names)) ∧
      ∀ name ∈ names, IsName name := by
  induction names using List.reverseRecOn with
  | nil =>
    rw [List.append_nil]
    exact ⟨rfl, List.forall_mem_nil _⟩
  | append_singleton names name ih =>
    rw [← List.append_assoc] at hdirectory ⊢
    have hkey := mem_keys_of_nodeAt? (List.concat_ne_nil name (place ++ names)) hdirectory
    have habove := h.parent _ hkey
    rw [List.dropLast_concat] at habove
    obtain ⟨hwalked, hnames⟩ := ih habove
    have hname : IsName name := h.named _ hkey name (by simp)
    refine ⟨foldlM_step_append_iff.2 ⟨_, hwalked, step_eq_ok_iff.2 ?_⟩, fun other hother => ?_⟩
    · refine ⟨habove, hname.2.2.2.2, go?_inside _ hname.1 hname.2.1, ?_⟩
      rw [hdirectory]
      rfl
    · rcases List.mem_append.1 hother with hother | hother
      · exact hnames other hother
      · exact List.mem_singleton.1 hother ▸ hname

/-- A path that is made of names leads to the directory that they lead to, unless it gets too long. -/
theorem directoryAt_foldl_join_iff (hpath : tree.directoryAt path = .ok (.inside place))
    (hslash : ∀ name ∈ names, '/' ∉ name.toList)
    (hnames : ∀ name ∈ names, isStep name = true ∧ name ≠ "..") :
    tree.directoryAt (names.foldl join path) = .ok next ↔
      (names.foldl join path).utf8ByteSize ≤ pathLimit ∧ next = .inside (place ++ names) ∧
        tree.nodeAt? (.inside (place ++ names)) = some .directory := by
  obtain ⟨hresolved, -⟩ := directoryAt_eq_ok_iff.1 hpath
  have hne : path ≠ "" := (resolve_eq_ok_iff.1 hresolved).2.2.1
  rw [directoryAt_eq_ok_iff, resolve_foldl_join_iff hne hslash]
  constructor
  · rintro ⟨⟨-, hlimit, start, hstart, hwalked⟩, hdirectory⟩
    obtain rfl := Except.ok.inj (hstart.symm.trans hresolved)
    obtain rfl := eq_of_foldlM_step hnames hwalked
    exact ⟨hlimit, rfl, hdirectory⟩
  · rintro ⟨hlimit, rfl, hdirectory⟩
    obtain ⟨hwalked, hall⟩ := h.foldlM_step hdirectory
    exact ⟨⟨fun name hname => (hall name hname).2.2.2.1, hlimit, _, hresolved, hwalked⟩, hdirectory⟩

/-- What is above an entry is an entry too. -/
theorem mem_keys_of_append {first : String} {rest : List String}
    (hmem : place ++ first :: rest ∈ tree.nodes.keys) : place ++ [first] ∈ tree.nodes.keys := by
  induction rest using List.reverseRecOn with
  | nil => exact hmem
  | append_singleton rest last ih =>
    have habove := h.parent _ hmem
    rw [← List.cons_append, ← List.append_assoc, List.dropLast_concat] at habove
    exact ih (mem_keys_of_nodeAt? (by simp) habove)

end WellFormed

/-- Outside of the tree nothing is reached by names. -/
theorem eq_nil_of_foldlM_step_outside {names : List String}
    (hnames : ∀ name ∈ names, isStep name = true ∧ name ≠ "..")
    (h : names.foldlM tree.step .outside = .ok next) : names = [] := by
  cases names with
  | nil => rfl
  | cons name names =>
    rw [List.forall_mem_cons] at hnames
    rw [List.foldlM_cons] at h
    cases hstep : tree.step .outside name with
    | error fault =>
      rw [hstep] at h
      cases h
    | ok after =>
      obtain ⟨-, -, hgo, -⟩ := step_eq_ok_iff.1 hstep
      rw [Place.go?, if_neg hnames.1.2, if_pos hnames.1.1] at hgo
      cases hgo

section Directories

variable {path : String} {place : List String}

theorem mem_sortBy {α : Type} (le : α → α → Bool) (values : List α) (value : α) :
    value ∈ sortBy le values ↔ value ∈ values := by
  unfold sortBy
  induction values with
  | nil => rfl
  | cons first values ih => rw [List.foldr_cons, mem_insertSorted, ih, List.mem_cons]

/-- The entries of a directory are those with one more name. -/
theorem mem_list_iff (h : tree.directoryAt path = .ok (.inside place)) :
    ∃ entries, tree.list path = .ok entries ∧
      ∀ name node, (name, node) ∈ entries ↔ (place ++ [name], node) ∈ tree.nodes.entries := by
  unfold list
  rw [h]
  refine ⟨_, rfl, fun name node => ?_⟩
  rw [mem_sortBy, List.mem_filterMap]
  constructor
  · rintro ⟨⟨names, found⟩, hmem, hentry⟩
    dsimp only at hentry
    split at hentry
    · next single hsingle =>
      cases hentry
      rw [List.isPrefixOf?_eq_some_iff_append_eq] at hsingle
      rwa [hsingle]
    · cases hentry
  · intro hmem
    have hsingle : place.isPrefixOf? (place ++ [name]) = some [name] :=
      List.isPrefixOf?_eq_some_iff_append_eq.2 rfl
    exact ⟨_, hmem, by simp only [hsingle]⟩

/-- The files below a directory are those with more names, except where the way to them gets too long. -/
theorem mem_filesBelow_iff (h : tree.directoryAt path = .ok (.inside place)) :
    ∃ found, tree.filesBelow path = .ok found ∧
      ∀ names, names ∈ found ↔ (names.dropLast.foldl join path).utf8ByteSize ≤ pathLimit ∧
        ∃ number, (place ++ names, .file number) ∈ tree.nodes.entries := by
  unfold filesBelow
  rw [h]
  refine ⟨_, rfl, fun names => ?_⟩
  rw [mem_sortBy, List.mem_filter, List.mem_filterMap, and_comm, decide_eq_true_iff]
  refine and_congr_right fun _ => ?_
  constructor
  · rintro ⟨⟨all, _ | number⟩, hmem, hentry⟩
    · cases hentry
    · obtain rfl := List.isPrefixOf?_eq_some_iff_append_eq.1 hentry
      exact ⟨number, hmem⟩
  · rintro ⟨number, hmem⟩
    exact ⟨_, hmem, List.isPrefixOf?_eq_some_iff_append_eq.2 rfl⟩

end Directories

end FileTree

end LinkCheck
