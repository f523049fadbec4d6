import LinkCheck.ClassDefinition.OfClassFile
import LinkCheck.Proofs.InstructionLayout
import LinkCheck.Proofs.TruncatedClassFiles

/-!
# Class files that are read and written again

Nothing of a class file is lost when it is read, but for how its texts were spelled and how many slots its
constant pool said it has. An eight-byte number in the last of these slots takes one more than was said.

## Main definitions

- `ByteReader.Exact` — a reader takes just the bytes that are written for its value
- `Constant.Spelled` — the bytes of constants, where a text keeps any bytes that spell it
- `ClassFile.writeAround` — the bytes of a class file with a given constant pool
- `ClassFile.poolCount` — the count in front of the constants
- `Constant.EndsWide` — the last of some slots holds a wide constant

## Main results

- `ByteReader.exact_table` — tables are written as they are read
- `ClassFile.length_of_constants` — how many slots are read
- `ClassFile.read_written_again` — a class file is written as it was read, unless it ends wide
-/

namespace LinkCheck

/-- Bytes are the digits of the number that they spell. -/
theorem spellNumber_bigEndian (bytes : List UInt8) :
    spellNumber bytes.length (bigEndian bytes) = bytes := by
  induction bytes using List.reverseRecOn with
  | nil => rfl
  | append_singleton bytes byte ih =>
    have hbyte : byte.toNat < 256 := byte.toNat_lt
    have hhigh : (256 * bigEndian bytes + byte.toNat) / 256 = bigEndian bytes := by omega
    have hlow : (256 * bigEndian bytes + byte.toNat) % 256 = byte.toNat := by omega
    rw [List.length_append, List.length_singleton, spellNumber, bigEndian_concat, hhigh, hlow, ih,
      UInt8.ofNat_toNat]

namespace ByteReader

variable {α β γ : Type} {reader : ByteReader α} {write : α → List UInt8}

/-- A reader takes just the bytes that are written for the value it gives. -/
def Exact (reader : ByteReader α) (write : α → List UInt8) : Prop :=
  ∀ ⦃bytes value rest⦄, reader bytes = .ok (value, rest) → bytes = write value ++ rest

theorem map_eq_ok_iff {change : α → β} {bytes rest : List UInt8} {result : β} :
    (reader >>= fun value => pure (change value)) bytes = .ok (result, rest) ↔
      ∃ value, reader bytes = .ok (value, rest) ∧ change value = result := by
  rw [bind_apply_eq_ok_iff]
  constructor
  · rintro ⟨value, middle, hvalue, h⟩
    cases h
    exact ⟨value, hvalue, rfl⟩
  · rintro ⟨value, hvalue, rfl⟩
    exact ⟨value, rest, hvalue, rfl⟩

theorem exact_number {width : Nat} {ofNat : Nat → α} {toNat : α → Nat}
    (h : ∀ number < 256 ^ width, toNat (ofNat number) = number) :
    Exact (take width >>= fun bytes => pure (ofNat (bigEndian bytes)))
      (fun number => spellNumber width (toNat number)) := by
  intro bytes number rest hread
  obtain ⟨digits, hdigits, rfl⟩ := map_eq_ok_iff.1 hread
  obtain ⟨rfl, rfl⟩ := take_eq_ok_iff.1 hdigits
  dsimp only
  rw [h _ (Bytecode.bigEndian_lt digits), spellNumber_bigEndian]

theorem exact_u1 : Exact u1 fun number => spellNumber 1 number.toNat :=
  exact_number fun _ => UInt8.toNat_ofNat_of_lt'

theorem exact_u2 : Exact u2 fun number => spellNumber 2 number.toNat :=
  exact_number fun _ => UInt16.toNat_ofNat_of_lt'

theorem exact_u4 : Exact u4 fun number => spellNumber 4 number.toNat :=
  exact_number fun _ => UInt32.toNat_ofNat_of_lt'

theorem exact_u8 : Exact u8 fun number => spellNumber 8 number.toNat :=
  exact_number fun _ => UInt64.toNat_ofNat_of_lt'

theorem counted_eq_ok (h : Exact reader write) {count : Nat} {bytes rest : List UInt8} {values : List α}
    (hread : counted reader count bytes = .ok (values, rest)) :
    values.length = count ∧ bytes = values.flatMap write ++ rest := by
  induction count generalizing bytes values with
  | zero =>
    cases hread
    exact ⟨rfl, rfl⟩
  | succ count ih =>
    obtain ⟨value, middle, hvalue, hrest⟩ := bind_apply_eq_ok_iff.1 hread
    obtain ⟨others, hothers, hsame⟩ := map_eq_ok_iff.1 hrest
    cases hsame
    obtain ⟨rfl, rfl⟩ := ih hothers
    rw [h hvalue, List.flatMap_cons, List.append_assoc]
    exact ⟨rfl, rfl⟩

/-- A table is written as it is read. -/
theorem exact_table (h : Exact reader write) : Exact (table reader) (writeTable write) := by
  intro bytes values rest hread
  obtain ⟨count, middle, hcount, hvalues⟩ := bind_apply_eq_ok_iff.1 hread
  obtain ⟨hlength, rfl⟩ := counted_eq_ok h hvalues
  rw [exact_u2 hcount, writeTable, hlength, List.append_assoc]

theorem pair_eq_ok {first : ByteReader α} {second : ByteReader β} {make : α → β → γ}
    {other : β → List UInt8} (h : Exact first write) (h' : Exact second other) {bytes rest : List UInt8}
    {result : γ}
    (hread : (first >>= fun value => second >>= fun next => pure (make value next)) bytes =
      .ok (result, rest)) :
    ∃ value next, make value next = result ∧ bytes = write value ++ other next ++ rest := by
  obtain ⟨value, middle, hvalue, hnext⟩ := bind_apply_eq_ok_iff.1 hread
  obtain ⟨next, hnext, hresult⟩ := map_eq_ok_iff.1 hnext
  refine ⟨value, next, hresult, ?_⟩
  rw [h hvalue, h' hnext, List.append_assoc]

end ByteReader

open ByteReader

namespace Constant

/-- The bytes of constants one after the other. A text keeps any bytes that spell it. -/
inductive Spelled : List Constant → List UInt8 → Prop
  | nil : Spelled [] []
  | text {text : String} {payload bytes : List UInt8} {constants : List Constant}
      (spells : Utf8Text.decode? payload = some text) (fits : payload.length < 65536)
      (rest : Spelled constants bytes) :
      Spelled (utf8 text :: constants)
        (spellNumber 1 1 ++ (spellNumber 2 payload.length ++ payload) ++ bytes)
  | other {constant : Constant} {bytes : List UInt8} {constants : List Constant}
      (untexted : ∀ text, constant ≠ utf8 text) (rest : Spelled constants bytes) :
      Spelled (constant :: constants) (constant.write ++ bytes)

theorem Spelled.append {first second : List Constant} {bytes others : List UInt8}
    (h : Spelled first bytes) (h' : Spelled second others) : Spelled (first ++ second) (bytes ++ others) := by
  induction h with
  | nil => exact h'
  | text hspells hfits _ ih =>
    rw [List.append_assoc]
    exact .text hspells hfits ih
  | other huntexted _ ih =>
    rw [List.append_assoc]
    exact .other huntexted ih

/-- The last of some slots holds a wide constant, so that its second slot is one too many. -/
def EndsWide (slots : Nat) (constants : List Constant) : Prop :=
  0 < slots ∧ constants[slots - 1]?.any isWide = true

instance (slots : Nat) (constants : List Constant) : Decidable (EndsWide slots constants) :=
  inferInstanceAs (Decidable (_ ∧ _))

end Constant

namespace ClassFile

variable {bytes middle rest : List UInt8} {constant : Constant}

theorem spelled_of_utf8 (h : utf8Reader middle = .ok (constant, rest)) :
    ∃ front, spellNumber 1 1 ++ middle = front ++ rest ∧ Constant.Spelled [constant] front := by
  obtain ⟨length, after, hlength, hrest⟩ := bind_apply_eq_ok_iff.1 h
  obtain ⟨payload, left, hpayload, hdecoded⟩ := bind_apply_eq_ok_iff.1 hrest
  obtain ⟨hsplit, hcount⟩ := take_eq_ok_iff.1 hpayload
  cases htext : Utf8Text.decode? payload with
  | none =>
    rw [htext] at hdecoded
    cases hdecoded
  | some text =>
    rw [htext] at hdecoded
    cases hdecoded
    have hfits : payload.length < 65536 := hcount ▸ length.toNat_lt
    refine ⟨_, ?_, .text htext hfits .nil⟩
    rw [exact_u2 hlength, hsplit, hcount]
    simp only [List.append_assoc, List.append_nil]

/-- A constant that is written as its tag and what stands behind it. -/
theorem spelled_of_write {tag : Nat} {taken : List UInt8}
    (huntexted : ∀ text, constant ≠ .utf8 text) (hwrite : constant.write = spellNumber 1 tag ++ taken) :
    ∃ front, spellNumber 1 tag ++ (taken ++ rest) = front ++ rest ∧ Constant.Spelled [constant] front := by
  refine ⟨_, ?_, .other huntexted .nil⟩
  rw [hwrite, List.append_nil, List.append_assoc]

theorem spelled_of_map {α : Type} {reader : ByteReader α} {write : α → List UInt8} {make : α → Constant}
    {tag : Nat} (h : (reader >>= fun value => pure (make value)) middle = .ok (constant, rest))
    (hexact : Exact reader write)
    (hmake : ∀ value, (∀ text, make value ≠ .utf8 text) ∧
      (make value).write = spellNumber 1 tag ++ write value) :
    ∃ front, spellNumber 1 tag ++ middle = front ++ rest ∧ Constant.Spelled [constant] front := by
  obtain ⟨value, hvalue, rfl⟩ := map_eq_ok_iff.1 h
  obtain ⟨huntexted, hwrite⟩ := hmake value
  rw [hexact hvalue]
  exact spelled_of_write huntexted hwrite

theorem spelled_of_pair {α : Type} {first : ByteReader α} {write : α → List UInt8}
    {make : α → UInt16 → Constant} {tag : Nat}
    (h : (first >>= fun value => u2 >>= fun index => pure (make value index)) middle = .ok (constant, rest))
    (hexact : Exact first write)
    (hmake : ∀ value index, (∀ text, make value index ≠ .utf8 text) ∧
      (make value index).write = spellNumber 1 tag ++ (write value ++ spellNumber 2 index.toNat)) :
    ∃ front, spellNumber 1 tag ++ middle = front ++ rest ∧ Constant.Spelled [constant] front := by
  obtain ⟨value, index, rfl, rfl⟩ := pair_eq_ok hexact exact_u2 h
  obtain ⟨huntexted, hwrite⟩ := hmake value index
  exact spelled_of_write huntexted hwrite

/-- A constant is spelled by the bytes that are taken for it. -/
theorem spelled_of_constant (h : constantReader bytes = .ok (constant, rest)) :
    ∃ front, bytes = front ++ rest ∧ Constant.Spelled [constant] front := by
  obtain ⟨tag, middle, htag, h⟩ := bind_apply_eq_ok_iff.1 h
  rw [exact_u1 htag]
  split at h
  · exact spelled_of_utf8 h
  · exact spelled_of_map h exact_u4 fun _ => ⟨nofun, rfl⟩
  · exact spelled_of_map h exact_u4 fun _ => ⟨nofun, rfl⟩
  · exact spelled_of_map h exact_u8 fun _ => ⟨nofun, rfl⟩
  · exact spelled_of_map h exact_u8 fun _ => ⟨nofun, rfl⟩
  · exact spelled_of_map h exact_u2 fun _ => ⟨nofun, rfl⟩
  · exact spelled_of_map h exact_u2 fun _ => ⟨nofun, rfl⟩
  · exact spelled_of_pair h exact_u2 fun _ _ => ⟨nofun, rfl⟩
  · exact spelled_of_pair h exact_u2 fun _ _ => ⟨nofun, rfl⟩
  · exact spelled_of_pair h exact_u2 fun _ _ => ⟨nofun, rfl⟩
  · exact spelled_of_pair h exact_u2 fun _ _ => ⟨nofun, rfl⟩
  · exact spelled_of_pair h exact_u1 fun _ _ => ⟨nofun, rfl⟩
  · exact spelled_of_map h exact_u2 fun _ => ⟨nofun, rfl⟩
  · exact spelled_of_pair h exact_u2 fun _ _ => ⟨nofun, rfl⟩
  · exact spelled_of_pair h exact_u2 fun _ _ => ⟨nofun, rfl⟩
  · exact spelled_of_map h exact_u2 fun _ => ⟨nofun, rfl⟩
  · exact spelled_of_map h exact_u2 fun _ => ⟨nofun, rfl⟩
  · cases h

variable {constants : List Constant} {slots : Nat}

theorem spelled_slots {front : List UInt8} (h : Constant.Spelled [constant] front) :
    Constant.Spelled constant.slots front := by
  cases hwide : constant.isWide with
  | false => rwa [Constant.slots_of_not_isWide hwide]
  | true =>
    have hsecond : Constant.Spelled [.secondSlot] [] := .other nofun .nil
    rw [Constant.slots_of_isWide hwide, ← List.append_nil front]
    exact h.append hsecond

/-- Where two slots or more are left, a constant is read and then the slots that it leaves. -/
theorem constantsReader_eq_ok (h : constantsReader (slots + 2) bytes = .ok (constants, rest)) :
    ∃ constant middle others, constantReader bytes = .ok (constant, middle) ∧
      constantsReader (if constant.isWide then slots else slots + 1) middle = .ok (others, rest) ∧
      constants = constant.slots ++ others := by
  obtain ⟨constant, middle, hconstant, hrest⟩ := bind_apply_eq_ok_iff.1 h
  refine ⟨constant, middle, ?_⟩
  cases hwide : constant.isWide with
  | false =>
    rw [Constant.slots_of_not_isWide hwide] at hrest ⊢
    obtain ⟨others, hothers, hsame⟩ := map_eq_ok_iff.1 hrest
    exact ⟨others, hconstant, hothers, hsame.symm⟩
  | true =>
    rw [Constant.slots_of_isWide hwide] at hrest ⊢
    obtain ⟨others, hothers, hsame⟩ := map_eq_ok_iff.1 hrest
    exact ⟨others, hconstant, hothers, hsame.symm⟩

/-- Constants are spelled by the bytes that are taken for them. -/
theorem spelled_of_constants (h : constantsReader slots bytes = .ok (constants, rest)) :
    ∃ front, bytes = front ++ rest ∧ Constant.Spelled constants front := by
  induction slots using constantsReader.induct generalizing bytes constants with
  | case1 =>
    cases h
    exact ⟨[], rfl, .nil⟩
  | case2 =>
    obtain ⟨constant, hconstant, rfl⟩ := map_eq_ok_iff.1 h
    obtain ⟨front, hfront, hspelled⟩ := spelled_of_constant hconstant
    exact ⟨front, hfront, spelled_slots hspelled⟩
  | case3 slots ihone ihtwo =>
    obtain ⟨constant, middle, others, hconstant, hothers, rfl⟩ := constantsReader_eq_ok h
    obtain ⟨front, rfl, hspelled⟩ := spelled_of_constant hconstant
    obtain ⟨back, rfl, hback⟩ : ∃ back, middle = back ++ rest ∧ Constant.Spelled others back := by
      cases hwide : constant.isWide with
      | false => exact ihone (by simpa [hwide] using hothers)
      | true => exact ihtwo (by simpa [hwide] using hothers)
    exact ⟨front ++ back, (List.append_assoc front back rest).symm, (spelled_slots hspelled).append hback⟩

/-- There are as many slots as were asked for, and one more if the last of these holds a wide constant. -/
theorem length_of_constants (h : constantsReader slots bytes = .ok (constants, rest)) :
    constants.length = slots + if Constant.EndsWide slots constants then 1 else 0 := by
  induction slots using constantsReader.induct generalizing bytes constants with
  | case1 =>
    cases h
    rfl
  | case2 =>
    obtain ⟨constant, _, rfl⟩ := map_eq_ok_iff.1 h
    cases hwide : constant.isWide with
    | false => simp [Constant.EndsWide, Constant.slots_of_not_isWide hwide, hwide]
    | true => simp [Constant.EndsWide, Constant.slots_of_isWide hwide, hwide]
  | case3 slots ihone ihtwo =>
    obtain ⟨constant, middle, others, hconstant, hothers, rfl⟩ := constantsReader_eq_ok h
    cases hwide : constant.isWide with
    | false =>
      rw [hwide] at hothers
      have hlength := ihone hothers
      have hends : Constant.EndsWide (slots + 2) ([constant] ++ others) ↔
          Constant.EndsWide (slots + 1) others := by simp [Constant.EndsWide]
      simp only [Constant.slots_of_not_isWide hwide, hends, List.length_append, List.length_singleton]
      omega
    | true =>
      rw [hwide] at hothers
      have hlength := ihtwo hothers
      have hends : Constant.EndsWide (slots + 2) ([constant, .secondSlot] ++ others) ↔
          Constant.EndsWide slots others := by
        cases slots with
        | zero => simp [Constant.EndsWide, Constant.isWide]
        | succ slots => simp [Constant.EndsWide]
      simp only [Constant.slots_of_isWide hwide, hends, List.length_append, List.length_cons,
        List.length_nil]
      omega

variable {file : ClassFile}

/-- The bytes of a class file with a given constant pool. -/
def writeAround (file : ClassFile) (pool : List UInt8) : List UInt8 :=
  magic ++ (spellNumber 2 file.minorVersion.toNat ++ (spellNumber 2 file.majorVersion.toNat ++
    (pool ++ (spellNumber 2 file.flags.bits.toNat ++
      (spellNumber 2 file.thisClass.toNat ++ (spellNumber 2 file.superClass.toNat ++
        (writeTable (fun index => spellNumber 2 index.toNat) file.interfaces ++
          (writeTable MemberInfo.write file.fields ++ (writeTable MemberInfo.write file.methods ++
            writeTable Attribute.write file.attributes)))))))))

/-- The count that is stored in front of the constants. It is meant to be one more than the number of their
slots. -/
def poolCount (bytes : List UInt8) : UInt16 :=
  .ofNat (bigEndian ((bytes.drop 8).take 2))

/-- The count stands behind the magic number and the versions. -/
theorem take_drop_writeAround (file : ClassFile) {count pool : List UInt8} (h : count.length = 2) :
    ((file.writeAround (count ++ pool)).drop 8).take 2 = count := by
  have hfront : (magic ++ (spellNumber 2 file.minorVersion.toNat ++
      spellNumber 2 file.majorVersion.toNat)).length = 8 := by
    rw [List.length_append, List.length_append, length_spellNumber, length_spellNumber]
    rfl
  rw [writeAround, ← List.append_assoc (spellNumber 2 file.minorVersion.toNat),
    ← List.append_assoc magic, List.drop_left' hfront, List.append_assoc, List.take_left' h]

theorem poolCount_writeAround (file : ClassFile) (count : UInt16) (pool : List UInt8) :
    poolCount (file.writeAround (spellNumber 2 count.toNat ++ pool)) = count := by
  rw [poolCount, take_drop_writeAround file (length_spellNumber 2 _),
    bigEndian_spellNumber count.toNat_lt, UInt16.ofNat_toNat]

theorem exact_attribute : Exact attributeReader Attribute.write := by
  intro bytes attr rest h
  obtain ⟨nameIndex, middle, hname, h⟩ := bind_apply_eq_ok_iff.1 h
  obtain ⟨length, others, hlength, h⟩ := bind_apply_eq_ok_iff.1 h
  obtain ⟨info, hinfo, hattr⟩ := map_eq_ok_iff.1 h
  obtain ⟨hsplit, hcount⟩ := take_eq_ok_iff.1 hinfo
  cases hattr
  rw [exact_u2 hname, exact_u4 hlength, hsplit, Attribute.write, hcount]
  simp only [List.append_assoc]

theorem exact_member : Exact memberReader MemberInfo.write := by
  intro bytes member rest h
  obtain ⟨bits, first, hbits, h⟩ := bind_apply_eq_ok_iff.1 h
  obtain ⟨nameIndex, second, hname, h⟩ := bind_apply_eq_ok_iff.1 h
  obtain ⟨descriptorIndex, third, hdescriptor, h⟩ := bind_apply_eq_ok_iff.1 h
  obtain ⟨attributes, hattributes, rfl⟩ := map_eq_ok_iff.1 h
  rw [exact_u2 hbits, exact_u2 hname, exact_u2 hdescriptor, exact_table exact_attribute hattributes,
    MemberInfo.write]
  simp only [List.append_assoc]

theorem pool_eq_ok (h : poolReader bytes = .ok (constants, rest)) :
    ∃ (count : UInt16) (pool : List UInt8), count ≠ 0 ∧
      bytes = spellNumber 2 count.toNat ++ pool ++ rest ∧ Constant.Spelled constants pool ∧
      constants.length =
        count.toNat - 1 + if Constant.EndsWide (count.toNat - 1) constants then 1 else 0 := by
  obtain ⟨count, middle, hcount, hconstants⟩ := bind_apply_eq_ok_iff.1 h
  split at hconstants
  · cases hconstants
  · next hzero =>
    obtain ⟨pool, rfl, hspelled⟩ := spelled_of_constants hconstants
    refine ⟨count, pool, hzero, ?_, hspelled, length_of_constants hconstants⟩
    rw [exact_u2 hcount, List.append_assoc]

/-- The content of a class file is written as it is read, with the count that was stored. -/
theorem content_eq_ok (h : contentReader bytes = .ok (file, [])) :
    ∃ (count : UInt16) (pool : List UInt8), count ≠ 0 ∧
      magic ++ bytes = file.writeAround (spellNumber 2 count.toNat ++ pool) ∧
      Constant.Spelled file.constants pool ∧ file.constants.length =
        count.toNat - 1 + if Constant.EndsWide (count.toNat - 1) file.constants then 1 else 0 := by
  obtain ⟨minorVersion, left, hminor, h⟩ := bind_apply_eq_ok_iff.1 h
  obtain ⟨majorVersion, left, hmajor, h⟩ := bind_apply_eq_ok_iff.1 h
  obtain ⟨constants, left, hpool, h⟩ := bind_apply_eq_ok_iff.1 h
  obtain ⟨bits, left, hbits, h⟩ := bind_apply_eq_ok_iff.1 h
  obtain ⟨thisClass, left, hthis, h⟩ := bind_apply_eq_ok_iff.1 h
  obtain ⟨superClass, left, hsuper, h⟩ := bind_apply_eq_ok_iff.1 h
  obtain ⟨interfaces, left, hinterfaces, h⟩ := bind_apply_eq_ok_iff.1 h
  obtain ⟨fields, left, hfields, h⟩ := bind_apply_eq_ok_iff.1 h
  obtain ⟨methods, left, hmethods, h⟩ := bind_apply_eq_ok_iff.1 h
  obtain ⟨attributes, hattributes, hfile⟩ := map_eq_ok_iff.1 h
  obtain ⟨count, pool, hzero, hsplit, hspelled, hlength⟩ := pool_eq_ok hpool
  cases hfile
  refine ⟨count, pool, hzero, ?_, hspelled, hlength⟩
  rw [exact_u2 hminor, exact_u2 hmajor, hsplit, exact_u2 hbits, exact_u2 hthis, exact_u2 hsuper,
    exact_table exact_u2 hinterfaces, exact_table exact_member hfields, exact_table exact_member hmethods,
    exact_table exact_attribute hattributes, writeAround]
  simp only [List.append_assoc, List.append_nil]

/-- A number and the next one are not spelled alike. -/
theorem spellNumber_ne_succ (width number : Nat) :
    spellNumber (width + 1) (number + 1) ≠ spellNumber (width + 1) number := by
  intro h
  have hlast := (List.append_inj' h rfl).2
  have hdigit := congrArg UInt8.toNat (List.cons.inj hlast).1
  have hlt : ∀ value : Nat, value % 256 < 256 := fun value => Nat.mod_lt value (by decide)
  rw [UInt8.toNat_ofNat_of_lt' (hlt _), UInt8.toNat_ofNat_of_lt' (hlt _)] at hdigit
  omega

/-- A class file that is read has the slots that the count in front of its constants allows, or one more if
the last of these holds a wide constant. It is written again byte by byte with that count, and with the count
that its slots ask for just if the last slot is not wide. -/
theorem read_written_again (bytes : List UInt8) (file : ClassFile) (h : read bytes = .ok file) :
    file.constants.length = (poolCount bytes).toNat - 1 +
        (if Constant.EndsWide ((poolCount bytes).toNat - 1) file.constants then 1 else 0) ∧
      (∃ pool, Constant.Spelled file.constants pool ∧
        file.writeAround (spellNumber 2 (poolCount bytes).toNat ++ pool) = bytes) ∧
      ((∃ pool, Constant.Spelled file.constants pool ∧
        file.writeAround (spellNumber 2 (file.constants.length + 1) ++ pool) = bytes) ↔
        ¬Constant.EndsWide ((poolCount bytes).toNat - 1) file.constants) := by
  obtain ⟨content, rfl, hreads⟩ := read_eq_ok_iff.1 h
  obtain ⟨count, pool, hzero, hwritten, hspelled, hlength⟩ := content_eq_ok hreads.apply
  have hpositive : 0 < count.toNat := Nat.pos_of_ne_zero fun h => hzero (UInt16.toNat.inj h)
  rw [hwritten, poolCount_writeAround]
  refine ⟨hlength, ⟨pool, hspelled, rfl⟩, ?_⟩
  constructor
  · rintro ⟨other, _, hother⟩ hwide
    rw [if_pos hwide] at hlength
    have hsame := congrArg (fun bytes => (bytes.drop 8).take 2) hother
    rw [take_drop_writeAround file (length_spellNumber 2 _), take_drop_writeAround file (length_spellNumber 2 _),
      hlength, Nat.sub_add_cancel hpositive] at hsame
    exact spellNumber_ne_succ 1 _ hsame
  · intro hnarrow
    rw [if_neg hnarrow, Nat.add_zero] at hlength
    rw [hlength, Nat.sub_add_cancel hpositive]
    exact ⟨pool, hspelled, rfl⟩

/-- A class file with a wide constant in the last slot that its count allows, and a method that loads the
constant behind that. -/
def overfull : ClassFile where
  minorVersion := 0
  majorVersion := 52
  constants := [.utf8 "p/Wide", .classInfo 1, .utf8 "run", .utf8 "()V", .utf8 "Code", .long 1, .secondSlot]
  flags := ⟨0x0021⟩
  thisClass := 2
  superClass := 0
  interfaces := []
  fields := []
  methods := [⟨⟨0x0009⟩, 3, 4, [⟨5, [0, 2, 0, 0, 0, 0, 0, 3, 0x12, 7, 0xB1, 0, 0, 0, 0]⟩]⟩]
  attributes := []

/-- Its bytes, in which seven is stored as the count. -/
def overfullBytes : List UInt8 :=
  [0xCA, 0xFE, 0xBA, 0xBE, 0, 0, 0, 52, 0, 7, 1, 0, 6, 112, 47, 87, 105, 100, 101, 7, 0, 1, 1, 0, 3, 114,
    117, 110, 1, 0, 3, 40, 41, 86, 1, 0, 4, 67, 111, 100, 101, 5, 0, 0, 0, 0, 0, 0, 0, 1, 0, 33, 0, 2, 0, 0,
    0, 0, 0, 0, 0, 1, 0, 9, 0, 3, 0, 4, 0, 1, 0, 5, 0, 0, 0, 15, 0, 2, 0, 0, 0, 0, 0, 3, 18, 7, 177, 0, 0, 0,
    0, 0, 0]

/-- One class file that is written again with the count of its slots, and one that is not. -/
theorem read_written_again_overfull :
    (read widened.write = .ok widened ∧ widened.constants.length = (poolCount widened.write).toNat - 1 ∧
      ∃ pool, Constant.Spelled widened.constants pool ∧
        widened.writeAround (spellNumber 2 (widened.constants.length + 1) ++ pool) = widened.write) ∧
    (read overfullBytes = .ok overfull ∧ overfull.constants.length = (poolCount overfullBytes).toNat ∧
      (∃ pool, Constant.Spelled overfull.constants pool ∧
        overfull.writeAround (spellNumber 2 (poolCount overfullBytes).toNat ++ pool) = overfullBytes)) := by
  have hread : read widened.write = .ok widened := by decide +kernel
  have hread' : read overfullBytes = .ok overfull := by decide +kernel
  obtain ⟨hlength, -, hagain⟩ := read_written_again _ _ hread
  obtain ⟨hlength', hagain', -⟩ := read_written_again _ _ hread'
  have hnarrow : ¬Constant.EndsWide ((poolCount widened.write).toNat - 1) widened.constants := by
    decide +kernel
  have hwide : Constant.EndsWide ((poolCount overfullBytes).toNat - 1) overfull.constants := by
    decide +kernel
  rw [if_neg hnarrow] at hlength
  rw [if_pos hwide] at hlength'
  exact ⟨⟨hread, hlength, hagain.2 hnarrow⟩, hread', hlength', hagain'⟩

/-- There are more slots than the count allows, so that a constant is loaded that should not be there, and the
class file is not written again. -/
theorem read_overfull :
    read overfullBytes = .ok overfull ∧ overfull.constants.length ≠ (poolCount overfullBytes).toNat - 1 ∧
      (¬∃ pool, overfull.writeAround (spellNumber 2 (overfull.constants.length + 1) ++ pool) =
        overfullBytes) ∧
      (ClassDefinition.parse overfullBytes).map
        (fun definition => definition.methods.map MethodDefinition.references) = .ok [[]] := by
  refine ⟨by decide +kernel, by decide +kernel, ?_, by decide +kernel⟩
  rintro ⟨pool, hpool⟩
  have hcount := congrArg (fun bytes => (bytes.drop 8).take 2) hpool
  rw [take_drop_writeAround overfull (length_spellNumber 2 _)] at hcount
  revert hcount
  decide +kernel

end ClassFile

end LinkCheck
