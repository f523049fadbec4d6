import LinkCheck.ClassFile.Layout
import LinkCheck.Proofs.ModifiedUtf8
import Mathlib.Algebra.Group.Nat.Defs

/-!
# Class files that are written and read

How a class file is laid out, part by part, and that each part is read back whatever follows it. A constant
of eight bytes takes two slots of the constant pool, of which only the first is written.

## Main definitions

- `ByteReader.Reads` — a reader takes just some bytes and gives a value
- `ClassFile.write` — the bytes of a class file
- `ClassFile.Fits` — a class file whose parts fit the widths of the layout
- `Constant.WellSlotted` — slots in which just the wide constants are followed by one that holds nothing
- `Constant.numbered` — constants with their indices, counted in slots

## Main results

- `ByteReader.Reads.bind`, `ByteReader.reads_table` — readers in sequence and in repetition
- `Constant.getElem?_flatMap_slots` — each constant stands in the slot at its index
- `ClassFile.reads_constant`, `ClassFile.reads_pool` — constants and the constant pool are read back
- `ClassFile.read_write` — a class file is read back, and its constants stand at their indices
-/

namespace LinkCheck

/-- A number in a given count of bytes, the highest byte first. -/
def spellNumber : Nat → Nat → List UInt8
  | 0, _ => []
  | width + 1, value => spellNumber width (value / 256) ++ [.ofNat (value % 256)]

theorem length_spellNumber (width value : Nat) : (spellNumber width value).length = width := by
  induction width generalizing value with
  | zero => rfl
  | succ width ih => rw [spellNumber, List.length_append, ih, List.length_singleton]

theorem bigEndian_concat (bytes : List UInt8) (byte : UInt8) :
    bigEndian (bytes ++ [byte]) = 256 * bigEndian bytes + byte.toNat :=
  List.foldl_append

/-- A number that fits is spelled by its bytes. -/
theorem bigEndian_spellNumber {width value : Nat} (h : value < 256 ^ width) :
    bigEndian (spellNumber width value) = value := by
  induction width generalizing value with
  | zero =>
    rw [Nat.pow_zero, Nat.lt_one_iff] at h
    rw [h]
    rfl
  | succ width ih =>
    have hhigh : value / 256 < 256 ^ width := by
      rw [Nat.pow_succ] at h
      exact Nat.div_lt_of_lt_mul (Nat.mul_comm _ 256 ▸ h)
    have hlow : value % 256 < 256 := Nat.mod_lt _ (by decide)
    rw [spellNumber, bigEndian_concat, ih hhigh, UInt8.toNat_ofNat_of_lt' hlow]
    exact Nat.div_add_mod value 256

namespace ByteReader

variable {α β : Type} {reader : ByteReader α} {bytes others : List UInt8} {value : α}

/-- A reader takes just some bytes, whatever follows them, and gives a value. -/
def Reads (reader : ByteReader α) (bytes : List UInt8) (value : α) : Prop :=
  ∀ rest, reader (bytes ++ rest) = .ok (value, rest)

/-- What follows a reader starts where the reader has stopped. -/
theorem Reads.bind_append (h : Reads reader bytes value) (next : α → ByteReader β)
    (rest : List UInt8) : (reader >>= next) (bytes ++ rest) = next value rest := by
  change (reader (bytes ++ rest) >>= fun result => next result.1 result.2) = _
  rw [h rest]
  rfl

theorem reads_pure (value : α) : Reads (pure value) [] value :=
  fun _ => rfl

/-- Readers in sequence. -/
theorem Reads.bind {next : α → ByteReader β} {result : β} (h : Reads reader bytes value)
    (hnext : Reads (next value) others result) : Reads (reader >>= next) (bytes ++ others) result := by
  intro rest
  rw [List.append_assoc, h.bind_append, hnext rest]

/-- A reader whose value is only changed. -/
theorem Reads.map (h : Reads reader bytes value) (change : α → β) :
    Reads (reader >>= fun value => pure (change value)) bytes (change value) := by
  intro rest
  rw [h.bind_append]
  rfl

theorem reads_take (bytes : List UInt8) : Reads (take bytes.length) bytes bytes := by
  intro rest
  rw [take, List.take_left, if_pos rfl, List.drop_left]

theorem reads_number (width : Nat) {number : Nat} (h : number < 256 ^ width) (ofNat : Nat → α) :
    Reads (take width >>= fun bytes => pure (ofNat (bigEndian bytes))) (spellNumber width number)
      (ofNat number) := by
  have hread := (reads_take (spellNumber width number)).map fun bytes => ofNat (bigEndian bytes)
  rwa [length_spellNumber, bigEndian_spellNumber h] at hread

theorem reads_u1 (number : UInt8) : Reads u1 (spellNumber 1 number.toNat) number := by
  have hread := reads_number 1 number.toNat_lt UInt8.ofNat
  rwa [UInt8.ofNat_toNat] at hread

theorem reads_u2 (number : UInt16) : Reads u2 (spellNumber 2 number.toNat) number := by
  have hread := reads_number 2 number.toNat_lt UInt16.ofNat
  rwa [UInt16.ofNat_toNat] at hread

theorem reads_u4 (number : UInt32) : Reads u4 (spellNumber 4 number.toNat) number := by
  have hread := reads_number 4 number.toNat_lt UInt32.ofNat
  rwa [UInt32.ofNat_toNat] at hread

theorem reads_u8 (number : UInt64) : Reads u8 (spellNumber 8 number.toNat) number := by
  have hread := reads_number 8 number.toNat_lt UInt64.ofNat
  rwa [UInt64.ofNat_toNat] at hread

/-- A count that fits two bytes is read as it is. -/
theorem reads_count {count : Nat} (h : count < 65536) :
    Reads u2 (spellNumber 2 count) (UInt16.ofNat count) :=
  reads_number 2 h UInt16.ofNat

/-- Readers in repetition. -/
theorem reads_counted {write : α → List UInt8} {values : List α}
    (h : ∀ value ∈ values, Reads reader (write value) value) :
    Reads (counted reader values.length) (values.flatMap write) values := by
  induction values with
  | nil => exact reads_pure []
  | cons value values ih =>
    have hrest := ih fun other hother => h other (.tail _ hother)
    exact (h value List.mem_cons_self).bind (hrest.map (value :: ·))

/-- Values behind their count. -/
def writeTable (write : α → List UInt8) (values : List α) : List UInt8 :=
  spellNumber 2 values.length ++ values.flatMap write

theorem reads_table {write : α → List UInt8} {values : List α} (hcount : values.length < 65536)
    (h : ∀ value ∈ values, Reads reader (write value) value) :
    Reads (table reader) (writeTable write values) values := by
  refine (reads_count hcount).bind ?_
  rw [UInt16.toNat_ofNat_of_lt' hcount]
  exact reads_counted h

end ByteReader

open ByteReader

namespace Constant

/-- A constant: its tag, and what the tag asks for. Nothing is written for a slot that holds nothing. -/
def write : Constant → List UInt8
  | utf8 text =>
    spellNumber 1 1 ++ (spellNumber 2 (Utf8Text.spell text).length ++ Utf8Text.spell text)
  | integer bits => spellNumber 1 3 ++ spellNumber 4 bits.toNat
  | float bits => spellNumber 1 4 ++ spellNumber 4 bits.toNat
  | long bits => spellNumber 1 5 ++ spellNumber 8 bits.toNat
  | double bits => spellNumber 1 6 ++ spellNumber 8 bits.toNat
  | classInfo name => spellNumber 1 7 ++ spellNumber 2 name.toNat
  | string text => spellNumber 1 8 ++ spellNumber 2 text.toNat
  | fieldRef owner type => spellNumber 1 9 ++ (spellNumber 2 owner.toNat ++ spellNumber 2 type.toNat)
  | methodRef owner type =>
    spellNumber 1 10 ++ (spellNumber 2 owner.toNat ++ spellNumber 2 type.toNat)
  | interfaceMethodRef owner type =>
    spellNumber 1 11 ++ (spellNumber 2 owner.toNat ++ spellNumber 2 type.toNat)
  | nameAndType name descriptor =>
    spellNumber 1 12 ++ (spellNumber 2 name.toNat ++ spellNumber 2 descriptor.toNat)
  | methodHandle kind member =>
    spellNumber 1 15 ++ (spellNumber 1 kind.toNat ++ spellNumber 2 member.toNat)
  | methodType descriptor => spellNumber 1 16 ++ spellNumber 2 descriptor.toNat
  | dynamic bootstrap type =>
    spellNumber 1 17 ++ (spellNumber 2 bootstrap.toNat ++ spellNumber 2 type.toNat)
  | invokeDynamic bootstrap type =>
    spellNumber 1 18 ++ (spellNumber 2 bootstrap.toNat ++ spellNumber 2 type.toNat)
  | module name => spellNumber 1 19 ++ spellNumber 2 name.toNat
  | package name => spellNumber 1 20 ++ spellNumber 2 name.toNat
  | secondSlot => []

/-- A text fits if its length fits two bytes. All else always fits. -/
def Fits : Constant → Prop
  | utf8 text => (Utf8Text.spell text).length ≤ 65535
  | _ => True

instance : DecidablePred Fits := fun constant => by
  cases constant with
  | utf8 text => exact Nat.decLe _ _
  | _ => exact instDecidableTrue

end Constant

namespace ClassFile

theorem reads_utf8 {text : String} (h : (Utf8Text.spell text).length ≤ 65535) :
    Reads utf8Reader (spellNumber 2 (Utf8Text.spell text).length ++ Utf8Text.spell text)
      (.utf8 text) := by
  have hcount : (Utf8Text.spell text).length < 65536 := Nat.lt_succ_of_le h
  refine (reads_count hcount).bind ?_
  rw [UInt16.toNat_ofNat_of_lt' hcount]
  intro rest
  rw [(reads_take (Utf8Text.spell text)).bind_append, Utf8Text.decode?_spell]
  rfl

/-- Two numbers, the second behind the first. -/
theorem reads_pair {α β γ : Type} {first : ByteReader α} {second : ByteReader β}
    {bytes others : List UInt8} {value : α} {other : β} (h : Reads first bytes value)
    (h' : Reads second others other) (make : α → β → γ) :
    Reads (first >>= fun value => second >>= fun other => pure (make value other)) (bytes ++ others)
      (make value other) :=
  h.bind (h'.map (make value))

/-- A constant is read back. -/
theorem reads_constant {constant : Constant} (hslot : constant ≠ .secondSlot) (h : constant.Fits) :
    Reads constantReader constant.write constant := by
  cases constant with
  | utf8 text => exact (reads_u1 1).bind (reads_utf8 h)
  | integer bits => exact (reads_u1 3).bind ((reads_u4 bits).map Constant.integer)
  | float bits => exact (reads_u1 4).bind ((reads_u4 bits).map Constant.float)
  | long bits => exact (reads_u1 5).bind ((reads_u8 bits).map Constant.long)
  | double bits => exact (reads_u1 6).bind ((reads_u8 bits).map Constant.double)
  | classInfo name => exact (reads_u1 7).bind ((reads_u2 name).map Constant.classInfo)
  | string text => exact (reads_u1 8).bind ((reads_u2 text).map Constant.string)
  | fieldRef owner type =>
    exact (reads_u1 9).bind (reads_pair (reads_u2 owner) (reads_u2 type) Constant.fieldRef)
  | methodRef owner type =>
    exact (reads_u1 10).bind (reads_pair (reads_u2 owner) (reads_u2 type) Constant.methodRef)
  | interfaceMethodRef owner type =>
    exact (reads_u1 11).bind (reads_pair (reads_u2 owner) (reads_u2 type) Constant.interfaceMethodRef)
  | nameAndType name descriptor =>
    exact (reads_u1 12).bind (reads_pair (reads_u2 name) (reads_u2 descriptor) Constant.nameAndType)
  | methodHandle kind member =>
    exact (reads_u1 15).bind (reads_pair (reads_u1 kind) (reads_u2 member) Constant.methodHandle)
  | methodType descriptor => exact (reads_u1 16).bind ((reads_u2 descriptor).map Constant.methodType)
  | dynamic bootstrap type =>
    exact (reads_u1 17).bind (reads_pair (reads_u2 bootstrap) (reads_u2 type) Constant.dynamic)
  | invokeDynamic bootstrap type =>
    exact (reads_u1 18).bind (reads_pair (reads_u2 bootstrap) (reads_u2 type) Constant.invokeDynamic)
  | module name => exact (reads_u1 19).bind ((reads_u2 name).map Constant.module)
  | package name => exact (reads_u1 20).bind ((reads_u2 name).map Constant.package)
  | secondSlot => exact absurd rfl hslot

end ClassFile

namespace Constant

/-- Whether a constant takes two slots. -/
def isWide : Constant → Bool
  | long _ | double _ => true
  | _ => false

theorem slots_of_isWide {constant : Constant} (h : constant.isWide = true) :
    constant.slots = [constant, secondSlot] := by
  cases constant with
  | long bits => rfl
  | double bits => rfl
  | _ => cases h

theorem slots_of_not_isWide {constant : Constant} (h : constant.isWide = false) :
    constant.slots = [constant] := by
  cases constant with
  | long bits => cases h
  | double bits => cases h
  | _ => rfl

theorem slots_ne_nil (constant : Constant) : constant.slots ≠ [] := by
  cases hwide : constant.isWide with
  | true => simp [slots_of_isWide hwide]
  | false => simp [slots_of_not_isWide hwide]

/-- A wide constant is followed by a slot that holds nothing, and there are no other such slots. -/
structure WellSlotted (slots : List Constant) : Prop where
  first : slots[0]? ≠ some secondSlot
  next : ∀ place < slots.length,
    (slots[place + 1]? = some secondSlot ↔ slots[place]?.any isWide = true)

instance : DecidablePred WellSlotted := fun _ =>
  decidable_of_iff (_ ∧ _) ⟨fun h => ⟨h.1, h.2⟩, fun h => ⟨h.first, h.next⟩⟩

/-- The constants among some slots. -/
def ofSlots (slots : List Constant) : List Constant :=
  slots.filter (· ≠ secondSlot)

namespace WellSlotted

variable {first : Constant} {slots : List Constant}

theorem ne_secondSlot (h : WellSlotted (first :: slots)) : first ≠ secondSlot :=
  fun hsame => h.first (congrArg some hsame)

/-- The slot behind the first holds nothing just if the first is wide. -/
theorem second_iff (h : WellSlotted (first :: slots)) :
    slots[0]? = some secondSlot ↔ first.isWide = true :=
  h.next 0 (Nat.succ_pos _)

/-- Behind a constant of one slot stand slots in the same order of things. -/
theorem tail (h : WellSlotted (first :: slots)) (hnarrow : first.isWide = false) :
    WellSlotted slots where
  first := by simp [h.second_iff, hnarrow]
  next := fun place hplace => h.next (place + 1) (Nat.succ_lt_succ hplace)

/-- Behind a wide constant stands its second slot, and then slots in the same order of things. -/
theorem tail_of_isWide (h : WellSlotted (first :: slots)) (hwide : first.isWide = true) :
    ∃ others, slots = secondSlot :: others ∧ WellSlotted others := by
  have hsecond := h.second_iff.2 hwide
  cases slots with
  | nil => cases hsecond
  | cons second others =>
    cases hsecond
    refine ⟨others, rfl, ?_, fun place hplace => ?_⟩
    · have hthird : others[0]? = some secondSlot ↔ secondSlot.isWide = true :=
        h.next 1 (Nat.succ_lt_succ (Nat.succ_pos _))
      simp [hthird, isWide]
    · exact h.next (place + 2) (Nat.succ_lt_succ (Nat.succ_lt_succ hplace))

/-- Such slots are those that their constants take. -/
theorem flatMap_ofSlots : ∀ {slots : List Constant}, WellSlotted slots →
    (ofSlots slots).flatMap Constant.slots = slots
  | [], _ => rfl
  | first :: slots, h => by
    have hkept : ofSlots (first :: slots) = first :: ofSlots slots :=
      List.filter_cons_of_pos (by simpa using h.ne_secondSlot)
    cases hwide : first.isWide with
    | false =>
      rw [hkept, List.flatMap_cons, slots_of_not_isWide hwide, (h.tail hwide).flatMap_ofSlots]
      rfl
    | true =>
      obtain ⟨others, rfl, hothers⟩ := h.tail_of_isWide hwide
      have hleft : ofSlots (secondSlot :: others) = ofSlots others :=
        List.filter_cons_of_neg (by simp)
      rw [hkept, hleft, List.flatMap_cons, slots_of_isWide hwide, hothers.flatMap_ofSlots]
      rfl
termination_by slots => slots.length

end WellSlotted

theorem ne_secondSlot_of_mem_ofSlots {slots : List Constant} {constant : Constant}
    (h : constant ∈ ofSlots slots) : constant ≠ secondSlot := by
  simpa using (List.mem_filter.1 h).2

/-- Of each constant the first slot is written, and the second adds nothing. -/
theorem WellSlotted.flatMap_write {slots : List Constant} (h : WellSlotted slots) :
    (ofSlots slots).flatMap write = slots.flatMap write := by
  have hslots : ∀ constant : Constant, constant.slots.flatMap write = constant.write := by
    intro constant
    cases hwide : constant.isWide with
    | true => simp [slots_of_isWide hwide, write]
    | false => simp [slots_of_not_isWide hwide]
  have hwritten := congrArg (List.flatMap write) h.flatMap_ofSlots
  rw [List.flatMap_assoc] at hwritten
  simpa only [hslots] using hwritten

/-- Constants with their indices, the first at a given one. A wide constant takes two. -/
def numbered (index : Nat) : List Constant → List (Nat × Constant)
  | [] => []
  | constant :: constants =>
    (index, constant) :: numbered (index + if constant.isWide then 2 else 1) constants

theorem le_of_mem_numbered {index place : Nat} {constant : Constant} {constants : List Constant}
    (h : (place, constant) ∈ numbered index constants) : index ≤ place := by
  induction constants generalizing index with
  | nil => cases h
  | cons first constants ih =>
    rcases List.mem_cons.1 h with heq | hlater
    · cases heq
      exact Nat.le_refl _
    · exact Nat.le_trans (Nat.le_add_right _ _) (ih hlater)

/-- Each constant stands in the slot at its index. -/
theorem getElem?_flatMap_slots {constant : Constant} (hslot : constant ≠ secondSlot)
    (constants : List Constant) (index place : Nat) :
    (constants.flatMap slots)[place]? = some constant ↔
      (index + place, constant) ∈ numbered index constants := by
  induction constants generalizing index place with
  | nil => simp [numbered]
  | cons first constants ih =>
    -- No later constant has one of the indices that this one takes.
    have hlater : ∀ gap, place < gap → (index + place, constant) ∉ numbered (index + gap) constants := by
      intro gap hgap hmem
      have hle := le_of_mem_numbered hmem
      omega
    have hrest : ∀ gap, gap ≤ place → ((constants.flatMap slots)[place - gap]? = some constant ↔
        (index + place, constant) ∈ numbered (index + gap) constants) := by
      intro gap hgap
      rw [ih (index + gap) (place - gap), Nat.add_assoc, Nat.add_sub_cancel' hgap]
    rw [List.flatMap_cons, numbered, List.mem_cons, Prod.mk.injEq]
    cases hwide : first.isWide with
    | false =>
      rw [slots_of_not_isWide hwide]
      cases place with
      | zero =>
        have hnone : (index, constant) ∉ numbered (index + 1) constants := hlater 1 Nat.zero_lt_one
        simp [hnone, eq_comm]
      | succ place => simpa using hrest 1 (Nat.succ_pos place)
    | true =>
      rw [slots_of_isWide hwide]
      cases place with
      | zero =>
        have hnone : (index, constant) ∉ numbered (index + 2) constants := hlater 2 Nat.zero_lt_two
        simp [hnone, eq_comm]
      | succ place =>
        cases place with
        | zero => simpa [Ne.symm hslot] using hlater 2 Nat.one_lt_two
        | succ place => simpa using hrest 2 (Nat.le_add_left 2 place)

end Constant

namespace ClassFile

/-- The slots of constants are read back from the constants. -/
theorem reads_constants {constants : List Constant}
    (hslots : ∀ constant ∈ constants, constant ≠ .secondSlot)
    (hfits : ∀ constant ∈ constants, constant.Fits) :
    Reads (constantsReader (constants.flatMap Constant.slots).length)
      (constants.flatMap Constant.write) (constants.flatMap Constant.slots) := by
  induction constants with
  | nil => exact reads_pure []
  | cons constant constants ih =>
    have hfirst := reads_constant (hslots constant List.mem_cons_self)
      (hfits constant List.mem_cons_self)
    have hrest := ih (fun other hother => hslots other (.tail _ hother))
      fun other hother => hfits other (.tail _ hother)
    rw [List.flatMap_cons, List.flatMap_cons, List.length_append]
    cases hwide : constant.isWide with
    | true =>
      have htwo := Constant.slots_of_isWide hwide
      rw [htwo, List.length_cons, List.length_singleton, Nat.add_comm, constantsReader]
      refine hfirst.bind ?_
      simp only [htwo]
      exact hrest.map _
    | false =>
      have hone := Constant.slots_of_not_isWide hwide
      rw [hone, List.length_singleton, Nat.add_comm]
      cases hcount : (constants.flatMap Constant.slots).length with
      | zero =>
        -- This is the last constant, so there is nothing behind it.
        obtain rfl : constants = [] := by
          cases constants with
          | nil => rfl
          | cons other others =>
            have hnone := List.append_eq_nil_iff.1 (List.length_eq_zero_iff.1 hcount)
            exact absurd hnone.1 (Constant.slots_ne_nil other)
        have hlast := hfirst.map Constant.slots
        rw [hone] at hlast
        simpa [constantsReader] using hlast
      | succ count =>
        rw [hcount] at hrest
        rw [constantsReader]
        refine hfirst.bind ?_
        simp only [hone]
        exact hrest.map _

/-- The constant pool: one more than the number of its slots, and then its constants. -/
def writePool (constants : List Constant) : List UInt8 :=
  spellNumber 2 (constants.length + 1) ++ constants.flatMap Constant.write

theorem reads_pool {constants : List Constant} (hslots : Constant.WellSlotted constants)
    (hcount : constants.length + 1 < 65536) (hfits : ∀ constant ∈ constants, constant.Fits) :
    Reads poolReader (writePool constants) constants := by
  have hread : Reads (constantsReader _) _ ((Constant.ofSlots constants).flatMap Constant.slots) :=
    reads_constants (fun _ => Constant.ne_secondSlot_of_mem_ofSlots)
      fun constant hconstant => hfits constant (List.mem_filter.1 hconstant).1
  rw [hslots.flatMap_ofSlots, hslots.flatMap_write] at hread
  refine (reads_count hcount).bind ?_
  have hnumber : (UInt16.ofNat (constants.length + 1)).toNat = constants.length + 1 :=
    UInt16.toNat_ofNat_of_lt' hcount
  have hzero : UInt16.ofNat (constants.length + 1) ≠ 0 := by
    intro hzero
    rw [hzero] at hnumber
    cases hnumber
  rw [if_neg hzero, hnumber]
  exact hread

end ClassFile

/-- The bytes of an attribute: its name, the number of its bytes, and these bytes. -/
def Attribute.write (attr : Attribute) : List UInt8 :=
  spellNumber 2 attr.nameIndex.toNat ++ (spellNumber 4 attr.info.length ++ attr.info)

/-- The bytes of a field or method. -/
def MemberInfo.write (member : MemberInfo) : List UInt8 :=
  spellNumber 2 member.flags.bits.toNat ++ (spellNumber 2 member.nameIndex.toNat ++
    (spellNumber 2 member.descriptorIndex.toNat ++ writeTable Attribute.write member.attributes))

/-- Attributes that fit: their number two bytes, and the length of each four. -/
structure Attribute.AllFit (attributes : List Attribute) : Prop where
  count : attributes.length < 65536
  lengths : ∀ attr ∈ attributes, attr.info.length < 2 ^ 32

instance : DecidablePred Attribute.AllFit := fun _ =>
  decidable_of_iff (_ ∧ _) ⟨fun h => ⟨h.1, h.2⟩, fun h => ⟨h.count, h.lengths⟩⟩

/-- Fields or methods that fit. -/
structure MemberInfo.AllFit (members : List MemberInfo) : Prop where
  count : members.length < 65536
  attributes : ∀ member ∈ members, Attribute.AllFit member.attributes

instance : DecidablePred MemberInfo.AllFit := fun _ =>
  decidable_of_iff (_ ∧ _) ⟨fun h => ⟨h.1, h.2⟩, fun h => ⟨h.count, h.attributes⟩⟩

namespace ClassFile

theorem reads_attribute {attr : Attribute} (h : attr.info.length < 2 ^ 32) :
    Reads attributeReader attr.write attr := by
  refine (reads_u2 attr.nameIndex).bind ((reads_number 4 h UInt32.ofNat).bind ?_)
  rw [UInt32.toNat_ofNat_of_lt' h]
  exact (reads_take attr.info).map _

theorem reads_attributes {attributes : List Attribute} (h : Attribute.AllFit attributes) :
    Reads (table attributeReader) (writeTable Attribute.write attributes) attributes :=
  reads_table h.count fun attr hattr => reads_attribute (h.lengths attr hattr)

theorem reads_member {member : MemberInfo} (h : Attribute.AllFit member.attributes) :
    Reads memberReader member.write member :=
  (reads_u2 member.flags.bits).bind ((reads_u2 member.nameIndex).bind
    ((reads_u2 member.descriptorIndex).bind ((reads_attributes h).map _)))

theorem reads_members {members : List MemberInfo} (h : MemberInfo.AllFit members) :
    Reads (table memberReader) (writeTable MemberInfo.write members) members :=
  reads_table h.count fun member hmember => reads_member (h.attributes member hmember)

theorem reads_magic : Reads magicReader magic () := by
  intro rest
  have hfront : (magic ++ rest).take 4 = magic := rfl
  rw [magicReader, if_pos hfront]
  rfl

/-- The bytes of a class file. -/
def write (file : ClassFile) : List UInt8 :=
  magic ++ (spellNumber 2 file.minorVersion.toNat ++ (spellNumber 2 file.majorVersion.toNat ++
    (writePool file.constants ++ (spellNumber 2 file.flags.bits.toNat ++
      (spellNumber 2 file.thisClass.toNat ++ (spellNumber 2 file.superClass.toNat ++
        (writeTable (fun index => spellNumber 2 index.toNat) file.interfaces ++
          (writeTable MemberInfo.write file.fields ++ (writeTable MemberInfo.write file.methods ++
            writeTable Attribute.write file.attributes)))))))))

/-- A class file whose slots are in order, and whose parts fit the widths of the layout. -/
structure Fits (file : ClassFile) : Prop where
  slots : Constant.WellSlotted file.constants
  pool : file.constants.length + 1 < 65536
  texts : ∀ constant ∈ file.constants, constant.Fits
  interfaces : file.interfaces.length < 65536
  fields : MemberInfo.AllFit file.fields
  methods : MemberInfo.AllFit file.methods
  attributes : Attribute.AllFit file.attributes

/-- A class file is read back from its bytes to their end. -/
theorem reader_write {file : ClassFile} (h : file.Fits) : reader file.write = .ok (file, []) := by
  rw [← List.append_nil file.write]
  simp only [write, List.append_assoc]
  rw [reader, reads_magic.bind_append, (reads_u2 file.minorVersion).bind_append,
    (reads_u2 file.majorVersion).bind_append, (reads_pool h.slots h.pool h.texts).bind_append,
    (reads_u2 file.flags.bits).bind_append, (reads_u2 file.thisClass).bind_append,
    (reads_u2 file.superClass).bind_append,
    (reads_table h.interfaces fun index _ => reads_u2 index).bind_append,
    (reads_members h.fields).bind_append, (reads_members h.methods).bind_append,
    (reads_attributes h.attributes).bind_append]
  rfl

/-- A class file that fits is read back from its bytes, bit by bit where it holds numbers. A constant
stands at the index that counts the slots before it, two for each that is wide. -/
theorem read_write (file : ClassFile) (h : file.Fits) :
    read file.write = .ok file ∧
      ∀ index constant, constant ≠ .secondSlot →
        (file.constant? index = some constant ↔
          (index.toNat, constant) ∈ Constant.numbered 1 (Constant.ofSlots file.constants)) := by
  refine ⟨?_, fun index constant hslot => ?_⟩
  · rw [read, runOn, reader_write h]
  · rw [constant?]
    split
    · next hzero =>
      rw [hzero]
      constructor
      · exact fun hnone => nomatch hnone
      · exact fun hmem => absurd (Constant.le_of_mem_numbered hmem) (Nat.not_succ_le_zero 0)
    · next hzero =>
      have hpos : 1 ≤ index.toNat := Nat.one_le_iff_ne_zero.2 fun hnone => hzero (UInt16.toNat.inj hnone)
      have hplace := Constant.getElem?_flatMap_slots hslot (Constant.ofSlots file.constants) 1
        (index.toNat - 1)
      rwa [h.slots.flatMap_ofSlots, Nat.add_sub_cancel' hpos] at hplace

/-- A class file with a wide constant and with a text that plain UTF-8 spells in another way. -/
def widened : ClassFile where
  minorVersion := 0
  majorVersion := 52
  constants := [.utf8 "a\x00😀", .double 0x7FF0000000000001, .secondSlot, .classInfo 1]
  flags := ⟨0x21⟩
  thisClass := 4
  superClass := 0
  interfaces := [4]
  fields := [⟨⟨2⟩, 1, 1, [⟨1, [1, 2, 3]⟩]⟩]
  methods := []
  attributes := []

/-- The text and the number are read back, and the constant behind the number has index four. -/
theorem read_write_widened :
    widened.Fits ∧ read widened.write = .ok widened ∧
      widened.constant? 4 = some (.classInfo 1) := by
  have hfits : widened.Fits :=
    ⟨by decide +kernel, by decide +kernel, by decide +kernel, by decide +kernel, by decide +kernel,
      by decide +kernel, by decide +kernel⟩
  obtain ⟨hread, hindex⟩ := read_write widened hfits
  refine ⟨hfits, hread, (hindex 4 (.classInfo 1) (by decide)).2 ?_⟩
  decide +kernel

end ClassFile

end LinkCheck
