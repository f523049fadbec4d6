import LinkCheck.ClassDefinition.References
import LinkCheck.Proofs.InstructionLayout

/-!
# Well-formed code

A walk over the bytes of a method body yields its instructions one after the other. It goes to the end of
well-formed code. In other code it yields the instructions that stand in front of the first byte where none
starts, and then a single fault. The lengths on the way fit machine words, whatever a switch says.

## Main definitions

- `Listing.items` — what a walk yields, one item after the other
- `Stuck` — bytes with no instruction at their start
- `stopInWords` — where an instruction ends, computed in words of 64 bits
- `Operand.index`, `indexWidth` — the index of a constant, and how many bytes spell it

## Main results

- `stuck_of_fault` — a walk that meets a fault has come as far as the code is well formed
- `stopInWords_eq` — no step of the computation in words wraps
- `index_of_mem_scan` — the bytes of an index are there, and spell it
- `scan_exact` — a walk accepts exactly the well-formed code
-/

namespace LinkCheck.Bytecode

/-- What a walk over code yields, one item after the other. -/
def Listing.items (listing : Listing) : List (Except BytecodeFault Instruction) :=
  listing.instructions.map .ok ++ listing.fault.toList.map .error

/-- There are bytes at a position, but no instruction at their start. -/
structure Stuck (position : Nat) (code : List UInt8) : Prop where
  nonempty : code ≠ []
  unencoded : ∀ opcode bytes operands rest, code = opcode :: (bytes ++ rest) →
    ¬Encodes position opcode bytes operands

variable {position count : Nat} {opcode : UInt8} {rest : List UInt8}

/-- No instruction starts with an opcode for which the bytes cannot be counted. -/
theorem stuck_of_operandCount_error {fault : BytecodeFault}
    (h : operandCount position opcode rest = .error fault) : Stuck position (opcode :: rest) where
  nonempty := List.cons_ne_nil opcode rest
  unencoded := by
    intro other bytes operands tail hsplit hencodes
    cases hsplit
    cases h.symm.trans (hencodes.operandCount_eq tail).1

/-- No instruction starts where more bytes are counted than there are. -/
theorem stuck_of_overrun (h : operandCount position opcode rest = .ok count)
    (hlength : (rest.take count).length ≠ count) : Stuck position (opcode :: rest) where
  nonempty := List.cons_ne_nil opcode rest
  unencoded := by
    intro other bytes operands tail hsplit hencodes
    cases hsplit
    cases h.symm.trans (hencodes.operandCount_eq tail).1
    exact hlength (congrArg List.length List.take_left)

/-- A walk that meets a fault has come as far as the code is well formed. -/
theorem stuck_of_fault {code : List UInt8} {fault : BytecodeFault}
    (h : (scanFrom position code).fault = some fault) :
    ∃ front rest, code = front ++ rest ∧ Laid position (scanFrom position code).instructions front ∧
      Stuck (position + front.length) rest := by
  fun_induction scanFrom position code with
  | case1 => cases h
  | case2 position opcode rest other hcount =>
    exact ⟨[], opcode :: rest, rfl, .done, stuck_of_operandCount_error hcount⟩
  | case3 position opcode rest count hcount bytes hlength listing instruction ih =>
    obtain ⟨front, others, hsplit, hlaid, hstuck⟩ := ih h
    have hrest : rest = bytes ++ rest.drop count := (List.take_append_drop count rest).symm
    have hcounted : operandCount position opcode (bytes ++ rest.drop count) = .ok bytes.length := by
      rw [← hrest, hcount, hlength]
    have hplace : position + (opcode :: (bytes ++ front)).length =
        position + 1 + count + front.length := by
      rw [List.length_cons, List.length_append, hlength]
      omega
    refine ⟨opcode :: (bytes ++ front), others, ?_, ?_, hplace ▸ hstuck⟩
    · rw [List.cons_append, List.append_assoc, ← hsplit, ← hrest]
    · refine .next (encodes_of_operandCount hcounted) ?_
      rw [hlength]
      exact hlaid
  | case4 position opcode rest count hcount bytes hlength =>
    exact ⟨[], opcode :: rest, rfl, .done, stuck_of_overrun hcount hlength⟩

/-- The result of a step of arithmetic on words without a sign, unless it wraps. -/
def word? (value : Int) : Option Nat :=
  if 0 ≤ value ∧ value < 0x10000000000000000 then some value.toNat else none

/-- The result of a step of arithmetic on words with a sign, unless it wraps. -/
def signedWord? (value : Int) : Option Int :=
  if -0x8000000000000000 ≤ value ∧ value < 0x8000000000000000 then some value else none

/-- Where the bytes behind the padding of a switch start. -/
def tableStart? (position : Nat) : Option Nat := do
  let next ← word? (position + 1)
  let gap ← word? (3 - (position % 4 : Nat))
  word? (next + gap)

/-- The field of a switch at an offset from there, read from a range of four bytes. -/
def fieldInWords (position start offset : Nat) (rest : List UInt8) :
    ExceptT BytecodeFault Option Int := do
  let first ← word? (start + offset)
  let _stop ← word? (first + 4)
  ExceptT.mk (some (switchField position offset rest))

/-- The length of a switch with a table. The number of its entries is computed with a sign. -/
def tableLength? (position start : Nat) (low high : Int) : Option Nat := do
  let entries ← word? (← signedWord? ((← signedWord? (high - low)) + 1))
  let front ← word? (start + 12)
  let stop ← word? (front + (← word? (entries * 4)))
  word? (stop - position)

/-- The length of a switch with pairs. -/
def lookupLength? (position start : Nat) (pairs : Int) : Option Nat := do
  let front ← word? (start + 8)
  let stop ← word? (front + (← word? ((← word? pairs) * 8)))
  word? (stop - position)

/-- The length of an instruction, computed in words of 64 bits. There is no answer if a step wraps. -/
def lengthInWords (position : Nat) (opcode : UInt8) (rest : List UInt8) :
    ExceptT BytecodeFault Option Nat :=
  match shape? opcode with
  | none => throw (.unknownOpcode opcode position)
  | some (.operands count) => return 1 + count
  | some .tableSwitch => do
    let start ← tableStart? position
    let low ← fieldInWords position start 4 rest
    let high ← fieldInWords position start 8 rest
    if high < low then throw (.descendingTable position) else tableLength? position start low high
  | some .lookupSwitch => do
    let start ← tableStart? position
    let pairs ← fieldInWords position start 4 rest
    if pairs < 0 then throw (.negativePairCount position) else lookupLength? position start pairs
  | some .wide => do
    let _next ← word? (position + 1)
    match rest with
    | [] => throw (.bareWide position)
    | widened :: _ => return if widened = 0x84 then 6 else 4

/-- Where the bytes of an instruction end, computed in words of 64 bits. -/
def stopInWords (position : Nat) (opcode : UInt8) (rest : List UInt8) :
    ExceptT BytecodeFault Option Nat := do
  let length ← lengthInWords position opcode rest
  word? (position + length)

variable {α β : Type} {value : Int}

/-- A step that does not wrap gives the number itself. -/
theorem word?_eq (word : Nat) (h : value = word) (hfits : word < 0x10000000000000000) :
    word? value = some word := by
  rw [word?, if_pos (by omega), h, Int.toNat_natCast]

theorem signedWord?_eq (h : -0x8000000000000000 ≤ value) (hfits : value < 0x8000000000000000) :
    signedWord? value = some value :=
  if_pos ⟨h, hfits⟩

theorem bind_of_eq_some {first : Option α} {next : α → Option β} {item : α} {result : Option β}
    (h : first = some item) (hnext : next item = result) : (first >>= next) = result := by
  rw [h]
  exact hnext

theorem liftM_bind_of_eq_some {first : Option α} {item : α} (h : first = some item)
    (next : α → ExceptT BytecodeFault Option β) :
    ((liftM first : ExceptT BytecodeFault Option α) >>= next) = next item := by
  rw [h]
  rfl

theorem run_mk_ok_bind_liftM {next : α → Option β} {first : α} {item : β} (h : next first = some item) :
    (ExceptT.mk (some (.ok first)) >>= fun result => liftM (next result) :
      ExceptT BytecodeFault Option β).run = some (.ok item) := by
  show (liftM (next first) : ExceptT BytecodeFault Option β).run = _
  rw [h]
  rfl

/-- A field of a switch is a number of 32 bits. -/
theorem switchField_bounds {offset : Nat} (h : switchField position offset rest = .ok value) :
    -0x80000000 ≤ value ∧ value < 0x80000000 := by
  obtain ⟨_, rfl⟩ := switchField_eq_ok_iff.1 h
  exact ⟨Int.le_bmod (by decide), Int.bmod_lt (by decide)⟩

theorem length_le_of_shape? {length : Nat} (h : shape? opcode = some (.operands length)) : length ≤ 4 := by
  obtain ⟨_, hsame, hlength⟩ | hswitch := cases_of_shape? h
  · cases hsame
    unfold operandLength? at hlength
    grind
  · simp at hswitch

theorem padding_le (position : Nat) : padding position ≤ 3 :=
  Nat.sub_le 3 (position % 4)

section Fitting

variable (h : position < 0x8000000000000000)

include h

theorem tableStart?_eq : tableStart? position = some (position + 1 + padding position) := by
  have hgap := padding_le position
  refine bind_of_eq_some (word?_eq (position + 1) (by omega) (by omega)) ?_
  refine bind_of_eq_some (word?_eq (padding position) (by rw [padding]; omega) (by omega)) ?_
  exact word?_eq (position + 1 + padding position) (by omega) (by omega)

theorem fieldInWords_eq {offset : Nat} (hoffset : offset ≤ 8) :
    fieldInWords position (position + 1 + padding position) offset rest =
      ExceptT.mk (some (switchField position offset rest)) := by
  have hgap := padding_le position
  have hfirst := word?_eq (position + 1 + padding position + offset) rfl (by omega)
  have hstop := word?_eq (position + 1 + padding position + offset + 4) rfl (by omega)
  exact (liftM_bind_of_eq_some hfirst _).trans (liftM_bind_of_eq_some hstop _)

/-- The table of a switch may have up to `2 ^ 32` entries. -/
theorem tableLength?_eq {low high : Int} (hlow : -0x80000000 ≤ low) (hhigh : high < 0x80000000)
    (horder : low ≤ high) :
    tableLength? position (position + 1 + padding position) low high =
      some (1 + (padding position + 12 + 4 * (high - low + 1).toNat)) := by
  have hgap := padding_le position
  refine bind_of_eq_some (signedWord?_eq (by omega) (by omega)) ?_
  refine bind_of_eq_some (signedWord?_eq (by omega) (by omega)) ?_
  refine bind_of_eq_some (word?_eq (high - low + 1).toNat (by omega) (by omega)) ?_
  refine bind_of_eq_some (word?_eq (position + 1 + padding position + 12) (by omega) (by omega)) ?_
  refine bind_of_eq_some (word?_eq (4 * (high - low + 1).toNat) (by omega) (by omega)) ?_
  refine bind_of_eq_some (word?_eq
    (position + 1 + padding position + 12 + 4 * (high - low + 1).toNat) (by omega) (by omega)) ?_
  exact word?_eq _ (by omega) (by omega)

theorem lookupLength?_eq {pairs : Int} (hpairs : 0 ≤ pairs) (hfits : pairs < 0x80000000) :
    lookupLength? position (position + 1 + padding position) pairs =
      some (1 + (padding position + 8 + 8 * pairs.toNat)) := by
  have hgap := padding_le position
  refine bind_of_eq_some (word?_eq (position + 1 + padding position + 8) (by omega) (by omega)) ?_
  refine bind_of_eq_some (word?_eq pairs.toNat (by omega) (by omega)) ?_
  refine bind_of_eq_some (word?_eq (8 * pairs.toNat) (by omega) (by omega)) ?_
  refine bind_of_eq_some (word?_eq
    (position + 1 + padding position + 8 + 8 * pairs.toNat) (by omega) (by omega)) ?_
  exact word?_eq _ (by omega) (by omega)

/-- The computation in words gives the exact length. -/
theorem lengthInWords_eq : lengthInWords position opcode rest =
    ExceptT.mk (some ((operandCount position opcode rest).map (1 + ·))) := by
  unfold lengthInWords operandCount
  cases shape? opcode with
  | none => rfl
  | some shape =>
    cases shape with
    | operands count => rfl
    | tableSwitch =>
      refine (liftM_bind_of_eq_some (tableStart?_eq h) _).trans ?_
      rw [fieldInWords_eq h (by decide), fieldInWords_eq h (by decide)]
      cases hlow : switchField position 4 rest with
      | error fault => rfl
      | ok low =>
        cases hhigh : switchField position 8 rest with
        | error fault => rfl
        | ok high =>
          show (if high < low then _ else _ : ExceptT BytecodeFault Option Nat) =
            ExceptT.mk (some (Except.map _ (if high < low then _ else _)))
          by_cases horder : high < low
          · rw [if_pos horder, if_pos horder]
            rfl
          · have hlength := tableLength?_eq h (switchField_bounds hlow).1 (switchField_bounds hhigh).2
              (Int.not_lt.1 horder)
            rw [if_neg horder, if_neg horder, hlength]
            rfl
    | lookupSwitch =>
      refine (liftM_bind_of_eq_some (tableStart?_eq h) _).trans ?_
      rw [fieldInWords_eq h (by decide)]
      cases hpairs : switchField position 4 rest with
      | error fault => rfl
      | ok pairs =>
        show (if pairs < 0 then _ else _ : ExceptT BytecodeFault Option Nat) =
          ExceptT.mk (some (Except.map _ (if pairs < 0 then _ else _)))
        by_cases hsign : pairs < 0
        · rw [if_pos hsign, if_pos hsign]
          rfl
        · have hlength := lookupLength?_eq h (Int.not_lt.1 hsign) (switchField_bounds hpairs).2
          rw [if_neg hsign, if_neg hsign, hlength]
          rfl
    | wide =>
      refine (liftM_bind_of_eq_some (word?_eq (position + 1) rfl (by omega)) _).trans ?_
      cases rest with
      | nil => rfl
      | cons widened others =>
        show pure (if widened = 0x84 then 6 else 4) =
          ExceptT.mk (some (Except.map (1 + ·) (pure (if widened = 0x84 then 5 else 3))))
        split <;> rfl

/-- No instruction is so long that its end does not fit a word. -/
theorem operandCount_fits (hcount : operandCount position opcode rest = .ok count) :
    position + 1 + count < 0x10000000000000000 := by
  have hgap := padding_le position
  cases hshape : shape? opcode with
  | none => simp only [operandCount, hshape, reduceCtorEq] at hcount
  | some shape =>
    cases shape with
    | operands length =>
      have hlength := length_le_of_shape? hshape
      rw [← (operandCount_operands_iff hshape).1 hcount]
      omega
    | tableSwitch =>
      obtain ⟨low, high, hlow, hhigh, _, rfl⟩ := (operandCount_tableSwitch_iff hshape).1 hcount
      have hlowest := (switchField_bounds hlow).1
      have hhighest := (switchField_bounds hhigh).2
      omega
    | lookupSwitch =>
      obtain ⟨pairs, hpairs, _, rfl⟩ := (operandCount_lookupSwitch_iff hshape).1 hcount
      have hmost := (switchField_bounds hpairs).2
      omega
    | wide =>
      obtain ⟨widened, others, _, rfl⟩ := (operandCount_wide_iff hshape).1 hcount
      split <;> omega

/-- Where an instruction ends can be computed in words, and no step wraps. -/
theorem stopInWords_eq : (stopInWords position opcode rest).run =
    some ((operandCount position opcode rest).map (position + 1 + ·)) := by
  rw [stopInWords, lengthInWords_eq h]
  cases hcount : operandCount position opcode rest with
  | error fault => rfl
  | ok count =>
    have hstop : word? (position + (1 + count : Nat)) = some (position + 1 + count) :=
      word?_eq _ (by omega) (operandCount_fits h hcount)
    exact run_mk_ok_bind_liftM hstop

end Fitting

/-- The index of the constant that is asked for. -/
def Operand.index : Operand → UInt16
  | .type _ index | .loadable index | .field _ index | .method _ index | .dynamicCall index => index

/-- How many operand bytes spell the index of the constant that an opcode asks for. -/
def indexWidth (opcode : UInt8) : Nat :=
  if opcode = 0x12 then 1 else 2

/-- An opcode that asks for a constant has operands of a fixed length, with room for the index. -/
theorem indexWidth_le {instruction : Instruction} {operand : Operand}
    (h : instruction.operand? = some operand) :
    operand.index = .ofNat (bigEndian (instruction.operands.take (indexWidth instruction.opcode))) ∧
      ∃ length, operandLength? instruction.opcode = some length ∧ indexWidth instruction.opcode ≤ length := by
  obtain ⟨position, opcode, operands⟩ := instruction
  unfold Instruction.operand? at h
  dsimp only at h ⊢
  split at h <;> cases h <;> exact ⟨rfl, _, rfl, by decide⟩

theorem Encodes.length_eq {bytes operands : List UInt8} {length : Nat}
    (h : Encodes position opcode bytes operands) (hlength : operandLength? opcode = some length) :
    operands.length = length := by
  cases h with
  | fixed hfixed => exact Option.some.inj (hfixed.symm.trans hlength)
  | tableSwitch => cases hlength
  | lookupSwitch => cases hlength
  | wide => cases hlength

theorem Laid.encodes {instructions : List Instruction} {code : List UInt8}
    (h : Laid position instructions code) {instruction : Instruction} (hmem : instruction ∈ instructions) :
    ∃ bytes, Encodes instruction.position instruction.opcode bytes instruction.operands := by
  induction h with
  | done => cases hmem
  | @next position opcode bytes operands code instructions hencoded _ ih =>
    rcases List.mem_cons.1 hmem with rfl | hmem
    · exact ⟨bytes, hencoded⟩
    · exact ih hmem

/-- What is listed in front of a fault is laid out too. -/
theorem exists_laid_scan (code : List UInt8) : ∃ front, Laid 0 (scan code).instructions front := by
  cases hfault : (scan code).fault with
  | none => exact ⟨code, laid_scanFrom hfault⟩
  | some fault =>
    obtain ⟨front, _, _, hlaid, _⟩ := stuck_of_fault hfault
    exact ⟨front, hlaid⟩

/-- The bytes that spell an index are there. -/
theorem index_of_mem_scan {code : List UInt8} {instruction : Instruction} {operand : Operand}
    (hmem : instruction ∈ (scan code).instructions) (hoperand : instruction.operand? = some operand) :
    indexWidth instruction.opcode ≤ instruction.operands.length ∧
      operand.index = .ofNat (bigEndian (instruction.operands.take (indexWidth instruction.opcode))) := by
  obtain ⟨front, hlaid⟩ := exists_laid_scan code
  obtain ⟨bytes, hencodes⟩ := hlaid.encodes hmem
  obtain ⟨hindex, length, hlength, hwidth⟩ := indexWidth_le hoperand
  rw [hencodes.length_eq hlength]
  exact ⟨hwidth, hindex⟩

theorem fault_eq_none_iff {listing : Listing} :
    listing.fault = none ↔ ∀ fault, .error fault ∉ listing.items := by
  cases hfault : listing.fault with
  | none => simp [Listing.items, hfault]
  | some fault => simp [Listing.items, hfault]

/-- A walk goes through exactly the well-formed code without a fault, and yields its instructions. In other
code it yields the instructions in front of the first byte where none starts, and then one fault. Where an
instruction ends can be computed in words of 64 bits without wrapping, whatever the bytes behind its opcode,
and an instruction that asks for a constant has all the bytes of the index. -/
theorem scan_exact (code : List UInt8) :
    ((∀ fault, .error fault ∉ (scan code).items) ↔ ∃ instructions, Laid 0 instructions code) ∧
      (∀ instructions, Laid 0 instructions code → (scan code).items = instructions.map .ok) ∧
      ((¬∃ instructions, Laid 0 instructions code) →
        ∃ instructions front rest fault, code = front ++ rest ∧ Laid 0 instructions front ∧
          Stuck front.length rest ∧ (scan code).items = instructions.map .ok ++ [.error fault]) ∧
      (∀ position opcode rest, position < 0x8000000000000000 →
        (stopInWords position opcode rest).run =
          some ((operandCount position opcode rest).map (position + 1 + ·))) ∧
      ∀ instruction ∈ (scan code).instructions, ∀ operand, instruction.operand? = some operand →
        indexWidth instruction.opcode ≤ instruction.operands.length ∧
          operand.index =
            .ofNat (bigEndian (instruction.operands.take (indexWidth instruction.opcode))) := by
  refine ⟨?_, fun instructions hlaid => ?_, fun hnone => ?_, fun position opcode rest => stopInWords_eq,
    fun instruction hmem operand => index_of_mem_scan hmem⟩
  · rw [← fault_eq_none_iff]
    constructor
    · intro hfault
      exact ⟨_, laid_scanFrom hfault⟩
    · rintro ⟨instructions, hlaid⟩
      rw [scan, scanFrom_of_laid hlaid]
  · rw [scan, scanFrom_of_laid hlaid]
    exact List.append_nil _
  · cases hfault : (scan code).fault with
    | none => exact absurd ⟨_, laid_scanFrom hfault⟩ hnone
    | some fault =>
      obtain ⟨front, rest, hsplit, hlaid, hstuck⟩ := stuck_of_fault hfault
      rw [Nat.zero_add] at hstuck
      refine ⟨(scan code).instructions, front, rest, fault, hsplit, hlaid, hstuck, ?_⟩
      rw [Listing.items, hfault]
      rfl

/-- Two switches at different distances from their tables, a wide instruction and a constant that is loaded. -/
def switches : List UInt8 :=
  [0x00, 0xAA, 0, 0, 0, 0, 0, 9, 0xFF, 0xFF, 0xFF, 0xFF, 0, 0, 0, 0, 0, 0, 0, 7, 0, 0, 0, 8,
    0xAB, 0, 0, 0, 0, 0, 0, 9, 0, 0, 0, 0, 0xC4, 0x84, 0, 1, 0, 1, 0x12, 7]

def switchInstructions : List Instruction :=
  [⟨0, 0x00, []⟩, ⟨1, 0xAA, [0, 0, 0, 9, 0xFF, 0xFF, 0xFF, 0xFF, 0, 0, 0, 0, 0, 0, 0, 7, 0, 0, 0, 8]⟩,
    ⟨24, 0xAB, [0, 0, 0, 9, 0, 0, 0, 0]⟩, ⟨36, 0xC4, [0x84, 0, 1, 0, 1]⟩, ⟨42, 0x12, [7]⟩]

/-- The bytes behind the opcode of a switch with as many entries as there can be. -/
def fullTable : List UInt8 :=
  [0, 0, 0, 9, 0x80, 0, 0, 0, 0x7F, 0xFF, 0xFF, 0xFF]

/-- The instructions of well-formed code, the same in front of an opcode that is not defined, the end of the
longest switch at the last position, and the index of the constant that is loaded. -/
theorem scan_exact_switches :
    (Laid 0 switchInstructions switches ∧ (scan switches).items = switchInstructions.map .ok) ∧
      ((¬∃ instructions, Laid 0 instructions (switches ++ [0xCB])) ∧
        ∃ instructions front rest fault, switches ++ [0xCB] = front ++ rest ∧
          Laid 0 instructions front ∧ Stuck front.length rest ∧
          (scan (switches ++ [0xCB])).items = instructions.map .ok ++ [.error fault]) ∧
      (0x7FFFFFFFFFFFFFFF < 0x8000000000000000 ∧
        (stopInWords 0x7FFFFFFFFFFFFFFF 0xAA fullTable).run = some (.ok 0x800000040000000C)) ∧
      (⟨42, 0x12, [7]⟩ ∈ (scan switches).instructions ∧
        Instruction.operand? ⟨42, 0x12, [7]⟩ = some (.loadable 7) ∧
        indexWidth 0x12 ≤ [(7 : UInt8)].length) := by
  obtain ⟨-, hlisted, -, hwords, hindex⟩ := scan_exact switches
  obtain ⟨hsound, -, hbroken, -⟩ := scan_exact (switches ++ [0xCB])
  have hlaid : Laid 0 switchInstructions switches := by
    have hscan : scan switches = ⟨switchInstructions, none⟩ := by decide +kernel
    have hlaid : Laid 0 (scan switches).instructions switches := laid_scanFrom (by rw [← scan, hscan])
    rwa [hscan] at hlaid
  have hnone : ¬∃ instructions, Laid 0 instructions (switches ++ [0xCB]) := by
    rw [← hsound, ← fault_eq_none_iff]
    decide +kernel
  have hmem : ⟨42, 0x12, [7]⟩ ∈ (scan switches).instructions := by decide +kernel
  have hcount : operandCount 0x7FFFFFFFFFFFFFFF 0xAA fullTable = .ok 0x40000000C := by decide +kernel
  refine ⟨⟨hlaid, hlisted _ hlaid⟩, ⟨hnone, hbroken hnone⟩, ⟨by decide, ?_⟩, hmem, rfl,
    (hindex _ hmem (.loadable 7) rfl).1⟩
  rw [hwords _ _ _ (by decide), hcount]
  rfl

end LinkCheck.Bytecode
