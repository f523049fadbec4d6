import LinkCheck.Bytecode
import LinkCheck.Proofs.WrittenClassFiles
import Mathlib.Data.List.Induction

/-!
# How instructions are laid out

The bytes of a method body are well formed if they are instructions one after the other, each with the
operands that its opcode asks for. A scan that meets no fault lists these instructions, and it meets none in
well-formed code.

## Main definitions

- `operandLength?` — how many bytes follow the opcodes that always have the same number of them
- `Encodes` — the bytes behind an opcode, and which of them are operands
- `Laid` — instructions one after the other

## Main results

- `laid_scanFrom`, `scanFrom_of_laid` — a scan without a fault lists the instructions of well-formed code
-/

namespace LinkCheck.Bytecode

/-- The signed number that four bytes spell. -/
def signedNumber (bytes : List UInt8) : Int :=
  Int.bmod (bigEndian bytes) 0x100000000

/-- How many bytes follow an opcode, for opcodes that always have the same number of them. -/
def operandLength? (opcode : UInt8) : Option Nat :=
  if opcode ∈ [0x10, 0x12, 0xA9, 0xBC] ∨ 0x15 ≤ opcode ∧ opcode ≤ 0x19 ∨
      0x36 ≤ opcode ∧ opcode ≤ 0x3A then some 1
  else if opcode ∈ [0x11, 0x13, 0x14, 0x84, 0xBB, 0xBD, 0xC0, 0xC1, 0xC6, 0xC7] ∨
      0x99 ≤ opcode ∧ opcode ≤ 0xA8 ∨ 0xB2 ≤ opcode ∧ opcode ≤ 0xB8 then some 2
  else if opcode = 0xC5 then some 3
  else if opcode ∈ [0xB9, 0xBA, 0xC8, 0xC9] then some 4
  else if opcode ∈ [0xAA, 0xAB, 0xC4] ∨ 0xCB ≤ opcode ∧ opcode ≤ 0xFD then none
  else some 0

/-- The bytes that follow an opcode at a position, and those of them that are operands. A switch has padding
up to a position divisible by four. -/
inductive Encodes (position : Nat) : UInt8 → List UInt8 → List UInt8 → Prop
  | fixed {opcode : UInt8} {operands : List UInt8}
      (length : operandLength? opcode = some operands.length) : Encodes position opcode operands operands
  | tableSwitch {gap target low high offsets : List UInt8} (aligned : gap.length = 3 - position % 4)
      (widths : target.length = 4 ∧ low.length = 4 ∧ high.length = 4)
      (ascending : signedNumber low ≤ signedNumber high)
      (length : (offsets.length : Int) = 4 * (signedNumber high - signedNumber low + 1)) :
      Encodes position 0xAA (gap ++ (target ++ low ++ high ++ offsets)) (target ++ low ++ high ++ offsets)
  | lookupSwitch {gap target count pairs : List UInt8} (aligned : gap.length = 3 - position % 4)
      (widths : target.length = 4 ∧ count.length = 4) (counted : 0 ≤ signedNumber count)
      (length : (pairs.length : Int) = 8 * signedNumber count) :
      Encodes position 0xAB (gap ++ (target ++ count ++ pairs)) (target ++ count ++ pairs)
  | wide {widened : UInt8} {operands : List UInt8}
      (length : operands.length = if widened = 0x84 then 4 else 2) :
      Encodes position 0xC4 (widened :: operands) (widened :: operands)

/-- Code that starts at a position and consists of these instructions, one after the other. -/
inductive Laid : Nat → List Instruction → List UInt8 → Prop
  | done {position : Nat} : Laid position [] []
  | next {position : Nat} {opcode : UInt8} {bytes operands code : List UInt8}
      {instructions : List Instruction} (encoded : Encodes position opcode bytes operands)
      (rest : Laid (position + 1 + bytes.length) instructions code) :
      Laid position (⟨position, opcode, operands⟩ :: instructions) (opcode :: (bytes ++ code))

/-- The shapes of the opcodes, where those that have no operand length of their own are listed. -/
theorem shape?_eq (opcode : UInt8) : shape? opcode =
    ((operandLength? opcode).map Shape.operands).or
      ([(0xAA, .tableSwitch), (0xAB, .lookupSwitch), (0xC4, .wide)].lookup opcode) := by
  have hall : ∀ code < 256, shape? (UInt8.ofNat code) =
      ((operandLength? (UInt8.ofNat code)).map Shape.operands).or
        ([(0xAA, .tableSwitch), (0xAB, .lookupSwitch), (0xC4, .wide)].lookup (UInt8.ofNat code)) := by
    decide +kernel
  simpa using hall opcode.toNat opcode.toNat_lt

theorem cases_of_shape? {opcode : UInt8} {shape : Shape} (h : shape? opcode = some shape) :
    (∃ count, shape = .operands count ∧ operandLength? opcode = some count) ∨
      (opcode, shape) ∈ [(0xAA, Shape.tableSwitch), (0xAB, .lookupSwitch), (0xC4, .wide)] := by
  rw [shape?_eq] at h
  cases hlength : operandLength? opcode with
  | some count =>
    rw [hlength] at h
    exact .inl ⟨count, (Option.some.inj h).symm, rfl⟩
  | none =>
    rw [hlength] at h
    obtain ⟨before, after, hsplit, _⟩ := List.lookup_eq_some_iff.1 h
    rw [hsplit]
    exact .inr (List.mem_append_right _ List.mem_cons_self)

theorem bigEndian_lt (bytes : List UInt8) : bigEndian bytes < 256 ^ bytes.length := by
  induction bytes using List.reverseRecOn with
  | nil => decide
  | append_singleton bytes byte ih =>
    rw [bigEndian_concat, List.length_append, List.length_singleton, Nat.pow_succ]
    have hbyte : byte.toNat < 256 := byte.toNat_lt
    omega

/-- The upper half of the numbers of four bytes stands for negative ones. -/
theorem bmod_word {value : Nat} (h : value < 0x100000000) : Int.bmod value 0x100000000 =
    if value < 0x80000000 then (value : Int) else (value : Int) - 0x100000000 := by
  have hmodulus : ((0x100000000 : Nat) : Int) = 0x100000000 := rfl
  rw [Int.bmod_def, hmodulus, Int.emod_eq_of_lt (by omega) (by omega)]
  by_cases hhalf : value < 0x80000000
  · rw [if_pos hhalf, if_pos (by omega)]
  · rw [if_neg hhalf, if_neg (by omega)]

theorem bigEndian_lt_word {bytes : List UInt8} (h : bytes.length = 4) :
    bigEndian bytes < 0x100000000 := by
  have hlt := bigEndian_lt bytes
  rw [h] at hlt
  simpa only [Nat.reducePow] using hlt

theorem signed32?_eq (bytes : List UInt8) : signed32? bytes =
    if (bytes.take 4).length = 4 then some (signedNumber (bytes.take 4)) else none := by
  unfold signed32? signedNumber
  split
  · next hlength =>
    dsimp only
    rw [bmod_word (bigEndian_lt_word hlength)]
  · rfl

/-- A field of a switch is the signed number of the four bytes where it stands. -/
theorem switchField_eq_ok_iff {position offset : Nat} {bytes : List UInt8} {value : Int} :
    switchField position offset bytes = .ok value ↔
      ((bytes.drop (padding position + offset)).take 4).length = 4 ∧
        signedNumber ((bytes.drop (padding position + offset)).take 4) = value := by
  unfold switchField
  rw [signed32?_eq]
  by_cases hlength : ((bytes.drop (padding position + offset)).take 4).length = 4
  · rw [if_pos hlength]
    exact ⟨fun h => ⟨hlength, Except.ok.inj h⟩, fun h => congrArg Except.ok h.2⟩
  · rw [if_neg hlength]
    constructor
    · intro h
      cases h
    · intro h
      exact absurd h.1 hlength

variable {position offset count : Nat} {opcode : UInt8}
  {bytes operands gap target low field rest : List UInt8}

/-- The field behind the default target of a switch. -/
theorem switchField_first (hgap : gap.length = padding position) (htarget : target.length = 4)
    (hfield : field.length = 4) :
    switchField position 4 (gap ++ (target ++ (field ++ rest))) = .ok (signedNumber field) := by
  have hfront : (gap ++ target).length = padding position + 4 := by
    rw [List.length_append, hgap, htarget]
  rw [switchField_eq_ok_iff, ← List.append_assoc, List.drop_left' hfront, List.take_left' hfield]
  exact ⟨hfield, rfl⟩

/-- The field behind that. -/
theorem switchField_second (hgap : gap.length = padding position) (htarget : target.length = 4)
    (hlow : low.length = 4) (hfield : field.length = 4) :
    switchField position 8 (gap ++ (target ++ (low ++ (field ++ rest)))) = .ok (signedNumber field) := by
  have hfront : (gap ++ (target ++ low)).length = padding position + 8 := by
    rw [List.length_append, List.length_append, hgap, htarget, hlow]
  have hsplit : gap ++ (target ++ (low ++ (field ++ rest))) =
      gap ++ (target ++ low) ++ (field ++ rest) := by simp only [List.append_assoc]
  rw [switchField_eq_ok_iff, hsplit, List.drop_left' hfront, List.take_left' hfield]
  exact ⟨hfield, rfl⟩

theorem exists_front (bytes : List UInt8) (count : Nat) (h : count ≤ bytes.length) :
    ∃ front rest, bytes = front ++ rest ∧ front.length = count :=
  ⟨bytes.take count, bytes.drop count, (List.take_append_drop count bytes).symm,
    List.length_take_of_le h⟩

theorem operandCount_operands_iff (h : shape? opcode = some (.operands offset)) :
    operandCount position opcode bytes = .ok count ↔ offset = count := by
  simp only [operandCount, h, Except.ok.injEq]

theorem operandCount_tableSwitch_iff (h : shape? opcode = some .tableSwitch) :
    operandCount position opcode bytes = .ok count ↔
      ∃ low high, switchField position 4 bytes = .ok low ∧ switchField position 8 bytes = .ok high ∧
        low ≤ high ∧ padding position + 12 + 4 * (high - low + 1).toNat = count := by
  simp only [operandCount, h]
  cases switchField position 4 bytes with
  | error fault => simp [bind, Except.bind]
  | ok low =>
    cases switchField position 8 bytes with
    | error fault => simp [bind, Except.bind]
    | ok high =>
      by_cases horder : high < low
      · simp [bind, Except.bind, horder, Int.not_le.2 horder]
      · simp [bind, Except.bind, pure, Except.pure, horder, Int.not_lt.1 horder]

theorem operandCount_lookupSwitch_iff (h : shape? opcode = some .lookupSwitch) :
    operandCount position opcode bytes = .ok count ↔
      ∃ pairs, switchField position 4 bytes = .ok pairs ∧ 0 ≤ pairs ∧
        padding position + 8 + 8 * pairs.toNat = count := by
  simp only [operandCount, h]
  cases switchField position 4 bytes with
  | error fault => simp [bind, Except.bind]
  | ok pairs =>
    by_cases hsign : pairs < 0
    · simp [bind, Except.bind, hsign, Int.not_le.2 hsign]
    · simp [bind, Except.bind, pure, Except.pure, hsign, Int.not_lt.1 hsign]

theorem operandCount_wide_iff (h : shape? opcode = some .wide) :
    operandCount position opcode bytes = .ok count ↔
      ∃ widened rest, bytes = widened :: rest ∧ (if widened = 0x84 then 5 else 3) = count := by
  simp only [operandCount, h]
  cases bytes with
  | nil => simp
  | cons widened rest => simp [pure, Except.pure]

/-- The bytes that an opcode asks for are counted, whatever follows them. -/
theorem Encodes.operandCount_eq (h : Encodes position opcode bytes operands) (rest : List UInt8) :
    operandCount position opcode (bytes ++ rest) = .ok bytes.length ∧
      bytes.drop (paddingOf position opcode) = operands := by
  cases h with
  | fixed hlength =>
    have hshape : shape? opcode = some (.operands bytes.length) := by
      rw [shape?_eq, hlength]
      rfl
    refine ⟨(operandCount_operands_iff hshape).2 rfl, ?_⟩
    simp only [paddingOf, hshape, List.drop_zero]
  | @tableSwitch gap target low high offsets haligned hwidths hascending hlength =>
    obtain ⟨htarget, hlow, hhigh⟩ := hwidths
    have hshape : shape? 0xAA = some .tableSwitch := by decide
    refine ⟨?_, ?_⟩
    · simp only [List.append_assoc, List.length_append, haligned, htarget, hlow, hhigh]
      refine (operandCount_tableSwitch_iff hshape).2 ⟨_, _, switchField_first haligned htarget hlow,
        switchField_second haligned htarget hlow hhigh, hascending, ?_⟩
      rw [padding]
      omega
    · simp only [paddingOf, hshape]
      exact List.drop_left' haligned
  | @lookupSwitch gap target pairCount pairs haligned hwidths hcounted hlength =>
    obtain ⟨htarget, hcount⟩ := hwidths
    have hshape : shape? 0xAB = some .lookupSwitch := by decide
    refine ⟨?_, ?_⟩
    · simp only [List.append_assoc, List.length_append, haligned, htarget, hcount]
      refine (operandCount_lookupSwitch_iff hshape).2
        ⟨_, switchField_first haligned htarget hcount, hcounted, ?_⟩
      rw [padding]
      omega
    · simp only [paddingOf, hshape]
      exact List.drop_left' haligned
  | @wide widened operands hlength =>
    have hshape : shape? 0xC4 = some .wide := by decide
    refine ⟨(operandCount_wide_iff hshape).2 ⟨widened, operands ++ rest, rfl, ?_⟩, ?_⟩
    · rw [List.length_cons, hlength]
      split <;> rfl
    · simp only [paddingOf, hshape, List.drop_zero]

theorem encodes_of_tableSwitch (hshape : shape? 0xAA = some .tableSwitch)
    (h : operandCount position 0xAA (bytes ++ rest) = .ok bytes.length) :
    Encodes position 0xAA bytes (bytes.drop (padding position)) := by
  obtain ⟨lowest, highest, hlowest, hhighest, hascending, hlength⟩ :=
    (operandCount_tableSwitch_iff hshape).1 h
  obtain ⟨gap, operands, rfl, hgap⟩ := exists_front bytes (padding position) (by omega)
  rw [List.length_append, hgap] at hlength
  obtain ⟨target, operands, rfl, htarget⟩ := exists_front operands 4 (by omega)
  rw [List.length_append, htarget] at hlength
  obtain ⟨low, operands, rfl, hlow⟩ := exists_front operands 4 (by omega)
  rw [List.length_append, hlow] at hlength
  obtain ⟨high, offsets, rfl, hhigh⟩ := exists_front operands 4 (by omega)
  rw [List.length_append, hhigh] at hlength
  simp only [List.append_assoc] at hlowest hhighest
  obtain rfl : signedNumber low = lowest :=
    Except.ok.inj ((switchField_first hgap htarget hlow).symm.trans hlowest)
  obtain rfl : signedNumber high = highest :=
    Except.ok.inj ((switchField_second hgap htarget hlow hhigh).symm.trans hhighest)
  rw [List.drop_left' hgap]
  have hencodes : Encodes position 0xAA (gap ++ (target ++ low ++ high ++ offsets))
      (target ++ low ++ high ++ offsets) :=
    .tableSwitch hgap ⟨htarget, hlow, hhigh⟩ hascending (by omega)
  simpa only [List.append_assoc] using hencodes

theorem encodes_of_lookupSwitch (hshape : shape? 0xAB = some .lookupSwitch)
    (h : operandCount position 0xAB (bytes ++ rest) = .ok bytes.length) :
    Encodes position 0xAB bytes (bytes.drop (padding position)) := by
  obtain ⟨number, hnumber, hcounted, hlength⟩ := (operandCount_lookupSwitch_iff hshape).1 h
  obtain ⟨gap, operands, rfl, hgap⟩ := exists_front bytes (padding position) (by omega)
  rw [List.length_append, hgap] at hlength
  obtain ⟨target, operands, rfl, htarget⟩ := exists_front operands 4 (by omega)
  rw [List.length_append, htarget] at hlength
  obtain ⟨pairCount, pairs, rfl, hcount⟩ := exists_front operands 4 (by omega)
  rw [List.length_append, hcount] at hlength
  simp only [List.append_assoc] at hnumber
  obtain rfl : signedNumber pairCount = number :=
    Except.ok.inj ((switchField_first hgap htarget hcount).symm.trans hnumber)
  rw [List.drop_left' hgap]
  have hencodes : Encodes position 0xAB (gap ++ (target ++ pairCount ++ pairs))
      (target ++ pairCount ++ pairs) :=
    .lookupSwitch hgap ⟨htarget, hcount⟩ hcounted (by omega)
  simpa only [List.append_assoc] using hencodes

theorem encodes_of_wide (hshape : shape? 0xC4 = some .wide)
    (h : operandCount position 0xC4 (bytes ++ rest) = .ok bytes.length) :
    Encodes position 0xC4 bytes bytes := by
  obtain ⟨widened, others, hbytes, hlength⟩ := (operandCount_wide_iff hshape).1 h
  cases bytes with
  | nil => split at hlength <;> cases hlength
  | cons first operands =>
    cases hbytes
    rw [List.length_cons] at hlength
    refine .wide ?_
    split at hlength <;> split <;> grind

/-- The bytes that are counted for an opcode are those that it asks for. -/
theorem encodes_of_operandCount
    (h : operandCount position opcode (bytes ++ rest) = .ok bytes.length) :
    Encodes position opcode bytes (bytes.drop (paddingOf position opcode)) := by
  cases hshape : shape? opcode with
  | none => simp only [operandCount, hshape, reduceCtorEq] at h
  | some shape =>
    simp only [paddingOf, hshape]
    have hcases := cases_of_shape? hshape
    cases shape with
    | operands length =>
      obtain ⟨_, hsame, hlength⟩ : ∃ count, Shape.operands length = .operands count ∧
          operandLength? opcode = some count := by simpa using hcases
      cases hsame
      rw [(operandCount_operands_iff hshape).1 h] at hlength
      exact .fixed hlength
    | tableSwitch =>
      obtain rfl : opcode = 0xAA := by simpa using hcases
      exact encodes_of_tableSwitch hshape h
    | lookupSwitch =>
      obtain rfl : opcode = 0xAB := by simpa using hcases
      exact encodes_of_lookupSwitch hshape h
    | wide =>
      obtain rfl : opcode = 0xC4 := by simpa using hcases
      exact encodes_of_wide hshape h

/-- Well-formed code is listed as it is laid out, without a fault. -/
theorem scanFrom_of_laid {instructions : List Instruction} {code : List UInt8}
    (h : Laid position instructions code) : scanFrom position code = ⟨instructions, none⟩ := by
  induction h with
  | done => rw [scanFrom]
  | next hencoded _ ih =>
    obtain ⟨hcount, hoperands⟩ := hencoded.operandCount_eq _
    rw [scanFrom, hcount]
    simp only [List.take_left', List.drop_left', hoperands, ih, if_true]

/-- Code that is listed without a fault is laid out as it is listed. -/
theorem laid_scanFrom {code : List UInt8} (h : (scanFrom position code).fault = none) :
    Laid position (scanFrom position code).instructions code := by
  fun_induction scanFrom position code with
  | case1 => exact .done
  | case2 => cases h
  | case3 position opcode rest count hcount bytes hlength listing instruction ih =>
    have hsplit : bytes ++ rest.drop count = rest := List.take_append_drop count rest
    have hcounted : operandCount position opcode (bytes ++ rest.drop count) = .ok bytes.length := by
      rw [hsplit, hcount, hlength]
    have hlaid : Laid (position + 1 + bytes.length) listing.instructions (rest.drop count) := by
      rw [hlength]
      exact ih h
    rw [← hsplit]
    exact .next (encodes_of_operandCount hcounted) hlaid
  | case4 => cases h

end LinkCheck.Bytecode
