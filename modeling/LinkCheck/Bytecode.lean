import LinkCheck.ClassFile.ByteReader

/-!
# Bytecode

The code of a method is a sequence of instructions without gaps. How long an instruction is follows
from its opcode, for switches also from its position and its table.

## Main definitions

- `Instruction` — an opcode with its position and operands
- `Shape`, `shape?` — how the length of an instruction is found
- `Listing`, `scan` — the instructions of some code, as far as they are well formed
-/

namespace LinkCheck.Bytecode

/-- An instruction at its position. -/
structure Instruction where
  position : Nat
  opcode : UInt8
  /-- The bytes behind the opcode, for switches behind the padding. -/
  operands : List UInt8
deriving DecidableEq, Inhabited, Repr

/-- The first operand byte as a constant-pool index. -/
def Instruction.shortIndex (instruction : Instruction) : UInt16 :=
  .ofNat (bigEndian (instruction.operands.take 1))

/-- The first two operand bytes as a constant-pool index. -/
def Instruction.index (instruction : Instruction) : UInt16 :=
  .ofNat (bigEndian (instruction.operands.take 2))

/-- How the number of operand bytes is found. -/
inductive Shape where
  | operands (count : Nat)
  | tableSwitch
  | lookupSwitch
  | wide
deriving DecidableEq, Inhabited, Repr

/-- Runs of opcodes of one shape, each by its last opcode. Opcodes without a shape are not
defined. -/
def shapes : List (Nat × Option Shape) :=
  [ (0x0F, some (.operands 0)), (0x10, some (.operands 1)), (0x11, some (.operands 2)),
    (0x12, some (.operands 1)), (0x14, some (.operands 2)), (0x19, some (.operands 1)),
    (0x35, some (.operands 0)), (0x3A, some (.operands 1)), (0x83, some (.operands 0)),
    (0x84, some (.operands 2)), (0x98, some (.operands 0)), (0xA8, some (.operands 2)),
    (0xA9, some (.operands 1)), (0xAA, some .tableSwitch), (0xAB, some .lookupSwitch),
    (0xB1, some (.operands 0)), (0xB8, some (.operands 2)), (0xBA, some (.operands 4)),
    (0xBB, some (.operands 2)), (0xBC, some (.operands 1)), (0xBD, some (.operands 2)),
    (0xBF, some (.operands 0)), (0xC1, some (.operands 2)), (0xC3, some (.operands 0)),
    (0xC4, some .wide), (0xC5, some (.operands 3)), (0xC7, some (.operands 2)),
    (0xC9, some (.operands 4)), (0xCA, some (.operands 0)), (0xFD, none),
    (0xFF, some (.operands 0)) ]

/-- The shape of the instructions with an opcode. -/
def shape? (opcode : UInt8) : Option Shape :=
  (shapes.find? fun run => opcode.toNat ≤ run.1).bind Prod.snd

/-- The signed number that the first four bytes spell. -/
def signed32? (bytes : List UInt8) : Option Int :=
  if (bytes.take 4).length = 4 then
    let value := bigEndian (bytes.take 4)
    some (if value < 0x80000000 then value else (value : Int) - 0x100000000)
  else none

/-- The bytes between the opcode of a switch and the next position divisible by four. -/
def padding (position : Nat) : Nat :=
  3 - position % 4

/-- The signed number `offset` bytes behind the padding of a switch at `position`. -/
def switchField (position offset : Nat) (operands : List UInt8) : Except BytecodeFault Int :=
  match signed32? (operands.drop (padding position + offset)) with
  | some value => .ok value
  | none => .error (.truncatedSwitch (position + 1 + padding position + offset))

/-- The number of bytes behind the opcode of an instruction at `position`, when `operands` are all
bytes that follow. -/
def operandCount (position : Nat) (opcode : UInt8) (operands : List UInt8) :
    Except BytecodeFault Nat :=
  match shape? opcode with
  | none => .error (.unknownOpcode opcode position)
  | some (.operands count) => .ok count
  | some .tableSwitch => do
    let low ← switchField position 4 operands
    let high ← switchField position 8 operands
    if high < low then .error (.descendingTable position)
    else return padding position + 12 + 4 * (high - low + 1).toNat
  | some .lookupSwitch => do
    let pairs ← switchField position 4 operands
    if pairs < 0 then .error (.negativePairCount position)
    else return padding position + 8 + 8 * pairs.toNat
  | some .wide =>
    match operands with
    | [] => .error (.bareWide position)
    | widened :: _ => return if widened = 0x84 then 5 else 3

/-- How many of the bytes behind an opcode are padding. -/
def paddingOf (position : Nat) (opcode : UInt8) : Nat :=
  match shape? opcode with
  | some .tableSwitch | some .lookupSwitch => padding position
  | _ => 0

/-- The instructions at the start of some code, and what is wrong with the bytes behind them if they
are not all of it. -/
structure Listing where
  instructions : List Instruction
  fault : Option BytecodeFault
deriving DecidableEq, Inhabited, Repr

/-- Lists the instructions of code that starts at `position`. -/
def scanFrom (position : Nat) : List UInt8 → Listing
  | [] => ⟨[], none⟩
  | opcode :: rest =>
    match operandCount position opcode rest with
    | .error fault => ⟨[], some fault⟩
    | .ok count =>
      let bytes := rest.take count
      if bytes.length = count then
        let listing := scanFrom (position + 1 + count) (rest.drop count)
        let instruction := ⟨position, opcode, bytes.drop (paddingOf position opcode)⟩
        ⟨instruction :: listing.instructions, listing.fault⟩
      else ⟨[], some (.overrun position)⟩
termination_by code => code.length
decreasing_by simp only [List.length_drop, List.length_cons]; omega

/-- Lists the instructions of some code. -/
def scan (code : List UInt8) : Listing :=
  scanFrom 0 code

end LinkCheck.Bytecode
