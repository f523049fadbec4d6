import LinkCheck.Proofs.Runs
import LinkCheck.Proofs.WrittenClassFiles

/-!
# Class files that are cut short or go on too long

A class file is read from the left, and what is read does not depend on what stands behind it. So no class
file is the beginning of another one: a reader that comes to the end of the bytes too early says so, and so
does one that has bytes left at the end.

## Main definitions

- `ByteReader.Sequential` — a reader that takes bytes off the front and notices where they are cut short
- `ClassFile.contentReader` — what stands between the magic number and the end of a class file

## Main results

- `ByteReader.Sequential.bind`, `ByteReader.sequential_table` — readers in sequence and in repetition
- `ClassFile.sequential_content` — the content of a class file is read from the left
- `ClassFile.read_prefix_free` — no class file is the beginning of another
-/

namespace LinkCheck

/-- Only an end that is met with no bytes left is a truncation. -/
theorem ReadFault.toError_eq_malformed {fault : LayoutFault} {left : Nat} (total : Nat)
    (h : fault = .eof → left ≠ 0) : toError total ⟨fault, left⟩ = .malformed fault (total - left) :=
  if_neg fun hboth => h hboth.1 hboth.2

theorem ReadFault.of_toError_eq_malformed {failure : ReadFault} {total offset : Nat}
    {fault : LayoutFault} (h : failure.toError total = .malformed fault offset) :
    failure.fault = fault ∧ total - failure.left = offset := by
  unfold toError at h
  split at h
  · cases h
  · cases h
    exact ⟨rfl, rfl⟩

namespace ByteReader

variable {α β : Type} {reader : ByteReader α} {next : α → ByteReader β}

/-- A reader that goes through the bytes from the left. It takes some of them off the front, whatever stands
behind these. If they are cut short it meets the end of the bytes, and it never counts more bytes left than
there were. -/
structure Sequential (reader : ByteReader α) : Prop where
  takes : ∀ {bytes value rest}, reader bytes = .ok (value, rest) →
    ∃ front, bytes = front ++ rest ∧ Reads reader front value
  cut : ∀ {front more value}, Reads reader (front ++ more) value → more ≠ [] →
    ∃ left, left ≤ front.length ∧ reader front = .error ⟨.eof, left⟩
  left_le : ∀ {bytes failure}, reader bytes = .error failure → failure.left ≤ bytes.length

theorem bind_apply (reader : ByteReader α) (next : α → ByteReader β) (bytes : List UInt8) :
    (reader >>= next) bytes = reader bytes >>= fun result => next result.1 result.2 :=
  rfl

theorem bind_apply_of_error {bytes : List UInt8} {failure : ReadFault} (h : reader bytes = .error failure) :
    (reader >>= next) bytes = .error failure := by
  rw [bind_apply, h]
  rfl

theorem bind_apply_of_ok {bytes rest : List UInt8} {value : α} (h : reader bytes = .ok (value, rest)) :
    (reader >>= next) bytes = next value rest := by
  rw [bind_apply, h]
  rfl

theorem bind_apply_eq_ok_iff {bytes rest : List UInt8} {result : β} :
    (reader >>= next) bytes = .ok (result, rest) ↔
      ∃ value middle, reader bytes = .ok (value, middle) ∧ next value middle = .ok (result, rest) := by
  rw [bind_apply, bind_eq_ok_iff, Prod.exists]

theorem Reads.apply {bytes : List UInt8} {value : α} (h : Reads reader bytes value) :
    reader bytes = .ok (value, []) := by
  have happlied := h []
  rwa [List.append_nil] at happlied

theorem sequential_pure (value : α) : Sequential (pure value : ByteReader α) where
  takes := by
    intro bytes other rest h
    cases h
    exact ⟨[], rfl, reads_pure value⟩
  cut := by
    intro front more other h hmore
    have hrest : front ++ more = [] := (Prod.mk.inj (Except.ok.inj h.apply)).2
    exact absurd (List.append_eq_nil_iff.1 hrest).2 hmore
  left_le := by
    intro bytes failure h
    cases h

theorem sequential_fail (fault : LayoutFault) : Sequential (fail fault : ByteReader α) where
  takes := by
    intro bytes value rest h
    cases h
  cut := by
    intro front more value h
    cases h []
  left_le := by
    intro bytes failure h
    cases h
    exact Nat.le_refl _

theorem take_eq_ok_iff {count : Nat} {bytes front rest : List UInt8} :
    take count bytes = .ok (front, rest) ↔ bytes = front ++ rest ∧ front.length = count := by
  unfold take
  dsimp only
  split
  · next hlength =>
    constructor
    · intro h
      cases h
      exact ⟨(List.take_append_drop count bytes).symm, hlength⟩
    · rintro ⟨rfl, rfl⟩
      rw [List.take_left, List.drop_left]
  · next hlength =>
    constructor
    · intro h
      cases h
    · rintro ⟨rfl, rfl⟩
      exact absurd (congrArg List.length List.take_left) hlength

theorem take_of_length_lt {count : Nat} {bytes : List UInt8} (h : bytes.length < count) :
    take count bytes = .error ⟨.eof, bytes.length⟩ := by
  have hlength : (bytes.take count).length ≠ count := by
    rw [List.length_take]
    omega
  exact if_neg hlength

theorem sequential_take (count : Nat) : Sequential (take count) where
  takes := by
    intro bytes front rest h
    obtain ⟨hsplit, rfl⟩ := take_eq_ok_iff.1 h
    exact ⟨front, hsplit, reads_take front⟩
  cut := by
    intro front more value h hmore
    obtain ⟨hsplit, hlength⟩ := take_eq_ok_iff.1 h.apply
    have hpos : 0 < more.length := List.length_pos_iff.2 hmore
    refine ⟨front.length, Nat.le_refl _, take_of_length_lt ?_⟩
    rw [List.append_nil] at hsplit
    rw [← hlength, ← hsplit, List.length_append]
    omega
  left_le := by
    intro bytes failure h
    rcases Nat.lt_or_ge bytes.length count with hlt | hle
    · rw [take_of_length_lt hlt] at h
      cases h
      exact Nat.le_refl _
    · rw [take_eq_ok_iff.2 ⟨(List.take_append_drop count bytes).symm, List.length_take_of_le hle⟩] at h
      cases h

/-- What two readers in sequence take is what the one takes and then what the other takes. -/
theorem exists_of_bind_eq_ok (h : Sequential reader) (hnext : ∀ value, Sequential (next value))
    {bytes rest : List UInt8} {result : β} (hresult : (reader >>= next) bytes = .ok (result, rest)) :
    ∃ first second value, bytes = first ++ (second ++ rest) ∧ Reads reader first value ∧
      Reads (next value) second result := by
  obtain ⟨value, middle, hvalue, hrest⟩ := bind_apply_eq_ok_iff.1 hresult
  obtain ⟨first, hsplit, hfirst⟩ := h.takes hvalue
  obtain ⟨second, rfl, hsecond⟩ := (hnext value).takes hrest
  exact ⟨first, second, value, hsplit, hfirst, hsecond⟩

/-- Bytes that are cut are cut within the first of two parts, or behind it. -/
theorem cut_cases {front more first second : List UInt8} (h : front ++ more = first ++ second) :
    (∃ gap, gap ≠ [] ∧ first = front ++ gap) ∨ ∃ gap, front = first ++ gap ∧ second = gap ++ more := by
  rcases List.append_eq_append_iff.1 h with ⟨gap, hfirst, hmore⟩ | ⟨gap, hfront, hsecond⟩
  · by_cases hgap : gap = []
    · subst hgap
      exact .inr ⟨[], by rw [hfirst, List.append_nil, List.append_nil], hmore.symm⟩
    · exact .inl ⟨gap, hgap, hfirst⟩
  · exact .inr ⟨gap, hfront, hsecond⟩

/-- Readers in sequence. -/
theorem Sequential.bind (h : Sequential reader) (hnext : ∀ value, Sequential (next value)) :
    Sequential (reader >>= next) where
  takes := by
    intro bytes result rest hresult
    obtain ⟨first, second, value, rfl, hfirst, hsecond⟩ := exists_of_bind_eq_ok h hnext hresult
    exact ⟨first ++ second, (List.append_assoc first second rest).symm, hfirst.bind hsecond⟩
  cut := by
    intro front more result hreads hmore
    obtain ⟨first, second, value, hsplit, hfirst, hsecond⟩ := exists_of_bind_eq_ok h hnext hreads.apply
    rw [List.append_nil] at hsplit
    rcases cut_cases hsplit with ⟨gap, hgap, rfl⟩ | ⟨gap, rfl, rfl⟩
    · obtain ⟨left, hleft, hcut⟩ := h.cut hfirst hgap
      exact ⟨left, hleft, bind_apply_of_error hcut⟩
    · obtain ⟨left, hleft, hcut⟩ := (hnext value).cut hsecond hmore
      rw [List.length_append]
      exact ⟨left, Nat.le_add_left_of_le hleft, (bind_apply_of_ok (hfirst gap)).trans hcut⟩
  left_le := by
    intro bytes failure hfailure
    cases hvalue : reader bytes with
    | error other =>
      rw [bind_apply_of_error hvalue] at hfailure
      cases hfailure
      exact h.left_le hvalue
    | ok result =>
      obtain ⟨value, rest⟩ := result
      obtain ⟨first, rfl, _⟩ := h.takes hvalue
      rw [bind_apply_of_ok hvalue] at hfailure
      rw [List.length_append]
      exact Nat.le_add_left_of_le ((hnext value).left_le hfailure)

/-- A reader whose value is only changed. -/
theorem Sequential.map (h : Sequential reader) (change : α → β) :
    Sequential (reader >>= fun value => pure (change value)) :=
  h.bind fun value => sequential_pure (change value)

theorem sequential_u1 : Sequential u1 :=
  (sequential_take 1).map _

theorem sequential_u2 : Sequential u2 :=
  (sequential_take 2).map _

theorem sequential_u4 : Sequential u4 :=
  (sequential_take 4).map _

theorem sequential_u8 : Sequential u8 :=
  (sequential_take 8).map _

theorem sequential_counted (h : Sequential reader) (count : Nat) : Sequential (counted reader count) := by
  induction count with
  | zero => exact sequential_pure []
  | succ count ih => exact h.bind fun value => ih.map (value :: ·)

theorem sequential_table (h : Sequential reader) : Sequential (table reader) :=
  sequential_u2.bind fun count => sequential_counted h count.toNat

end ByteReader

namespace ClassFile

open ByteReader

-- ════════════════════════════════════════════════════════════════════════
-- The parts of a class file
-- ════════════════════════════════════════════════════════════════════════

theorem sequential_utf8 : Sequential utf8Reader := by
  refine sequential_u2.bind fun length => (sequential_take length.toNat).bind fun bytes => ?_
  cases Utf8Text.decode? bytes with
  | none => exact sequential_fail .verify
  | some text => exact sequential_pure (Constant.utf8 text)

theorem sequential_constant : Sequential constantReader := by
  have hpair : ∀ make : UInt16 → UInt16 → Constant,
      Sequential (u2 >>= fun first => u2 >>= fun second => pure (make first second)) :=
    fun make => sequential_u2.bind fun first => sequential_u2.map (make first)
  refine sequential_u1.bind fun tag => ?_
  split
  · exact sequential_utf8
  · exact sequential_u4.map _
  · exact sequential_u4.map _
  · exact sequential_u8.map _
  · exact sequential_u8.map _
  · exact sequential_u2.map _
  · exact sequential_u2.map _
  · exact hpair _
  · exact hpair _
  · exact hpair _
  · exact hpair _
  · exact sequential_u1.bind fun kind => sequential_u2.map _
  · exact sequential_u2.map _
  · exact hpair _
  · exact hpair _
  · exact sequential_u2.map _
  · exact sequential_u2.map _
  · exact sequential_fail .tag

theorem sequential_constants (slots : Nat) : Sequential (constantsReader slots) := by
  induction slots using constantsReader.induct with
  | case1 => exact sequential_pure []
  | case2 => exact sequential_constant.map _
  | case3 slots ihone ihtwo =>
    refine sequential_constant.bind fun constant => ?_
    split
    · exact ihone.map _
    · exact ihtwo.map _

theorem sequential_pool : Sequential poolReader := by
  refine sequential_u2.bind fun count => ?_
  split
  · exact sequential_fail .verify
  · exact sequential_constants (count.toNat - 1)

theorem sequential_attribute : Sequential attributeReader :=
  sequential_u2.bind fun _ => sequential_u4.bind fun length => (sequential_take length.toNat).map _

theorem sequential_member : Sequential memberReader :=
  sequential_u2.bind fun _ => sequential_u2.bind fun _ => sequential_u2.bind fun _ =>
    (sequential_table sequential_attribute).map _

/-- Reads what stands between the magic number and the end of a class file. -/
def contentReader : ByteReader ClassFile := do
  let minorVersion ← u2
  let majorVersion ← u2
  let constants ← poolReader
  let bits ← u2
  let thisClass ← u2
  let superClass ← u2
  let interfaces ← table u2
  let fields ← table memberReader
  let methods ← table memberReader
  let attributes ← table attributeReader
  return {
    minorVersion, majorVersion, constants, flags := ⟨bits⟩, thisClass, superClass, interfaces,
    fields, methods, attributes }

theorem reader_eq : reader = (do
    magicReader
    let file ← contentReader
    finish
    return file) := by
  simp only [reader, contentReader, bind_assoc, pure_bind]

theorem sequential_content : Sequential contentReader :=
  sequential_u2.bind fun _ => sequential_u2.bind fun _ => sequential_pool.bind fun _ =>
    sequential_u2.bind fun _ => sequential_u2.bind fun _ => sequential_u2.bind fun _ =>
    (sequential_table sequential_u2).bind fun _ => (sequential_table sequential_member).bind fun _ =>
    (sequential_table sequential_member).bind fun _ => (sequential_table sequential_attribute).map _

-- ════════════════════════════════════════════════════════════════════════
-- Whole class files
-- ════════════════════════════════════════════════════════════════════════

variable {bytes content : List UInt8} {file : ClassFile}

/-- Bytes that do not start with the magic number are not read any further. -/
theorem reader_of_take_ne (h : bytes.take 4 ≠ magic) : reader bytes = .error ⟨.tag, bytes.length⟩ := by
  have hmagic : magicReader bytes = .error ⟨.tag, bytes.length⟩ := if_neg h
  rw [reader_eq]
  exact bind_apply_of_error hmagic

/-- Behind the magic number the content is read, if it is well formed. -/
theorem reader_of_error {failure : ReadFault} (h : contentReader content = .error failure) :
    reader (magic ++ content) = .error failure := by
  rw [reader_eq, reads_magic.bind_append]
  exact bind_apply_of_error h

/-- Behind the content there may be nothing. -/
theorem reader_of_ok {rest : List UInt8} (h : contentReader content = .ok (file, rest)) :
    reader (magic ++ content) = if rest = [] then .ok (file, []) else .error ⟨.eof, rest.length⟩ := by
  rw [reader_eq, reads_magic.bind_append]
  refine (bind_apply_of_ok h).trans ?_
  cases rest with
  | nil => rfl
  | cons byte rest => rfl

theorem eq_magic_append (h : bytes.take 4 = magic) : ∃ content, bytes = magic ++ content :=
  ⟨bytes.drop 4, by rw [← h, List.take_append_drop]⟩

theorem reader_eq_ok_iff {rest : List UInt8} : reader bytes = .ok (file, rest) ↔
    rest = [] ∧ ∃ content, bytes = magic ++ content ∧ Reads contentReader content file := by
  constructor
  · intro h
    by_cases hmagic : bytes.take 4 = magic
    · obtain ⟨content, rfl⟩ := eq_magic_append hmagic
      cases hcontent : contentReader content with
      | error failure =>
        rw [reader_of_error hcontent] at h
        cases h
      | ok result =>
        obtain ⟨other, left⟩ := result
        rw [reader_of_ok hcontent] at h
        split at h
        · next hleft =>
          cases h
          obtain ⟨front, rfl, hreads⟩ := sequential_content.takes hcontent
          rw [hleft, List.append_nil]
          exact ⟨rfl, front, rfl, hreads⟩
        · cases h
    · rw [reader_of_take_ne hmagic] at h
      cases h
  · rintro ⟨rfl, content, rfl, hreads⟩
    rw [reader_of_ok hreads.apply, if_pos rfl]

theorem read_eq_ok_iff : read bytes = .ok file ↔
    ∃ content, bytes = magic ++ content ∧ Reads contentReader content file := by
  have hread : read bytes = .ok file ↔ ∃ rest, reader bytes = .ok (file, rest) := by
    unfold read runOn
    cases reader bytes with
    | error failure => simp
    | ok result => simp [Prod.ext_iff]
  simp only [hread, reader_eq_ok_iff, exists_and_right, exists_eq, true_and]

theorem read_of_error {failure : ReadFault} (h : reader bytes = .error failure) :
    read bytes = .error (failure.toError bytes.length) := by
  rw [read, runOn, h]

/-- A fault is never noticed with more bytes left than there are. -/
theorem left_le_of_reader {failure : ReadFault} (h : reader bytes = .error failure) :
    failure.left ≤ bytes.length := by
  by_cases hmagic : bytes.take 4 = magic
  · obtain ⟨content, rfl⟩ := eq_magic_append hmagic
    rw [List.length_append]
    apply Nat.le_add_left_of_le
    cases hcontent : contentReader content with
    | error other =>
      rw [reader_of_error hcontent] at h
      cases h
      exact sequential_content.left_le hcontent
    | ok result =>
      obtain ⟨file, rest⟩ := result
      obtain ⟨front, rfl, _⟩ := sequential_content.takes hcontent
      rw [reader_of_ok hcontent] at h
      split at h
      · cases h
      · cases h
        rw [List.length_append]
        exact Nat.le_add_left _ _
  · rw [reader_of_take_ne hmagic] at h
    cases h
    exact Nat.le_refl _

/-- Too few bytes for the magic number. -/
theorem read_of_length_lt (h : bytes.length < 4) : read bytes = .error (.malformed .tag 0) := by
  have hmagic : bytes.take 4 ≠ magic := by
    intro hmagic
    have hlength := congrArg List.length hmagic
    rw [List.length_take, Nat.min_eq_right (by omega)] at hlength
    exact absurd hlength (Nat.ne_of_lt h)
  have htag : LayoutFault.tag = .eof → bytes.length ≠ 0 := fun h => nomatch h
  rw [read_of_error (reader_of_take_ne hmagic), ReadFault.toError_eq_malformed _ htag, Nat.sub_self]

/-- Content that is cut short ends where a value should start or within a value. -/
theorem read_of_cut {more : List UInt8} (h : Reads contentReader (content ++ more) file) (hmore : more ≠ []) :
    read (magic ++ content) = .error .truncated ∨
      ∃ offset < (magic ++ content).length, read (magic ++ content) = .error (.malformed .eof offset) := by
  obtain ⟨left, hleft, hcut⟩ := sequential_content.cut h hmore
  rw [read_of_error (reader_of_error hcut)]
  by_cases hzero : left = 0
  · exact .inl (congrArg Except.error (if_pos ⟨rfl, hzero⟩))
  · rw [ReadFault.toError_eq_malformed _ fun _ => hzero]
    refine .inr ⟨_, Nat.sub_lt ?_ (Nat.pos_of_ne_zero hzero), rfl⟩
    exact Nat.succ_pos _

/-- No class file is the beginning of another. One that is cut short has no magic number, or is found to end
too early, and one with bytes behind it is found to go on at its end. The offset of a fault lies within the
bytes, and the reader stopped there. -/
theorem read_prefix_free :
    (∀ bytes file, read bytes = .ok file →
      (∀ front rest, bytes = front ++ rest → rest ≠ [] →
        if front.length < 4 then read front = .error (.malformed .tag 0)
        else read front = .error .truncated ∨
          ∃ offset < front.length, read front = .error (.malformed .eof offset)) ∧
      ∀ more, more ≠ [] → read (bytes ++ more) = .error (.malformed .eof bytes.length)) ∧
    ∀ bytes fault offset, read bytes = .error (.malformed fault offset) →
      offset ≤ bytes.length ∧ reader bytes = .error ⟨fault, bytes.length - offset⟩ := by
  refine ⟨fun bytes file hread => ?_, fun bytes fault offset hread => ?_⟩
  · obtain ⟨content, rfl, hreads⟩ := read_eq_ok_iff.1 hread
    refine ⟨fun front rest hsplit hrest => ?_, fun more hmore => ?_⟩
    · split
      · next hshort => exact read_of_length_lt hshort
      · next hlong =>
        have hmagic : front.take 4 = magic := by
          rw [← List.take_append_of_le_length (Nat.not_lt.1 hlong), ← hsplit]
          rfl
        obtain ⟨part, rfl⟩ := eq_magic_append hmagic
        rw [List.append_assoc] at hsplit
        obtain rfl := List.append_cancel_left hsplit
        exact read_of_cut hreads hrest
    · have hreader : reader (magic ++ (content ++ more)) = .error ⟨.eof, more.length⟩ := by
        rw [reader_of_ok (hreads more), if_neg hmore]
      rw [List.append_assoc, read_of_error hreader,
        ReadFault.toError_eq_malformed _ fun _ => mt List.length_eq_zero_iff.1 hmore,
        ← List.append_assoc, List.length_append, Nat.add_sub_cancel]
  · cases hreader : reader bytes with
    | ok result =>
      rw [read, runOn, hreader] at hread
      cases hread
    | error failure =>
      rw [read_of_error hreader, Except.error.injEq] at hread
      obtain ⟨rfl, rfl⟩ := ReadFault.of_toError_eq_malformed hread
      rw [Nat.sub_sub_self (left_le_of_reader hreader)]
      exact ⟨Nat.sub_le _ _, rfl⟩

/-- A class file that breaks off within the magic number or within a number, one with a byte behind it, and
one without even the slot that is never used. -/
theorem read_prefix_free_widened :
    read widened.write = .ok widened ∧
      read (widened.write.take 3) = .error (.malformed .tag 0) ∧
      (read (widened.write.take 20) = .error .truncated ∨
        ∃ offset < (widened.write.take 20).length,
          read (widened.write.take 20) = .error (.malformed .eof offset)) ∧
      read (widened.write ++ [0]) = .error (.malformed .eof widened.write.length) ∧
      read (magic ++ [0, 0, 0, 52, 0, 0]) = .error (.malformed .verify 10) ∧
      reader (magic ++ [0, 0, 0, 52, 0, 0]) = .error ⟨.verify, 0⟩ := by
  obtain ⟨haccepted, hmalformed⟩ := read_prefix_free
  have hread : read widened.write = .ok widened := by decide +kernel
  have hempty : read (magic ++ [0, 0, 0, 52, 0, 0]) = .error (.malformed .verify 10) := by decide +kernel
  obtain ⟨hcut, hlonger⟩ := haccepted _ _ hread
  have hshort := hcut _ _ (List.take_append_drop 3 widened.write).symm (by decide +kernel)
  have hlong := hcut _ _ (List.take_append_drop 20 widened.write).symm (by decide +kernel)
  rw [if_pos (by decide +kernel)] at hshort
  rw [if_neg (by decide +kernel)] at hlong
  exact ⟨hread, hshort, hlong, hlonger [0] (by decide), hempty, (hmalformed _ _ _ hempty).2⟩

end ClassFile

end LinkCheck
