import LinkCheck.ClassDefinition.OfClassFile
import LinkCheck.Proofs.Runs

/-!
# What instructions refer to

An instruction may name a constant, and the constant names a class, a field or a method through other
constants. This is told here by relations between constants and references. An instruction is read exactly if
every constant on the way is there and of a kind that its use accepts.

## Main definitions

- `ClassFile.NamesClass`, `ClassFile.NamesMember` — what constants name
- `ClassFile.LoadRefers` — what a constant that is loaded refers to
- `ClassFile.Asks`, `ClassFile.OperandRefers` — the constant that an instruction asks for, and its references
- `ClassFile.InstructionRefers` — what an instruction refers to

## Main results

- `ClassFile.instructionReferences_eq_ok_iff` — reading an instruction gives what it refers to
-/

namespace LinkCheck

namespace ClassFile

/-- A class constant with this name. -/
def NamesClass (file : ClassFile) (index : UInt16) (text : String) : Prop :=
  ∃ nameIndex, file.constant? index = some (.classInfo nameIndex) ∧
    file.constant? nameIndex = some (.utf8 text)

/-- The class and the name and type of a constant for a field or method, and whether it is for a method of an
interface. -/
inductive MemberParts : Constant → UInt16 → UInt16 → Bool → Prop
  | field (classIndex typeIndex : UInt16) :
      MemberParts (.fieldRef classIndex typeIndex) classIndex typeIndex false
  | method (classIndex typeIndex : UInt16) :
      MemberParts (.methodRef classIndex typeIndex) classIndex typeIndex false
  | interfaceMethod (classIndex typeIndex : UInt16) :
      MemberParts (.interfaceMethodRef classIndex typeIndex) classIndex typeIndex true

/-- A constant for a field or method with this owner, name and descriptor. -/
inductive NamesMember (file : ClassFile) (index : UInt16) : MemberRef → Bool → Prop
  | intro {constant : Constant} {classIndex typeIndex nameIndex descriptorIndex : UInt16}
      {ofInterface : Bool} {owner name descriptor : String}
      (here : file.constant? index = some constant)
      (parts : MemberParts constant classIndex typeIndex ofInterface)
      (pair : file.constant? typeIndex = some (.nameAndType nameIndex descriptorIndex))
      (named : file.constant? nameIndex = some (.utf8 name))
      (typed : file.constant? descriptorIndex = some (.utf8 descriptor))
      (owned : file.NamesClass classIndex owner) :
      NamesMember file index ⟨.ofText owner, name, descriptor⟩ ofInterface

variable {file : ClassFile} {index : UInt16}

theorem MemberParts.unique {constant : Constant} {first first' second second' : UInt16}
    {kept kept' : Bool} (h : MemberParts constant first second kept)
    (h' : MemberParts constant first' second' kept') :
    first = first' ∧ second = second' ∧ kept = kept' := by
  cases h <;> cases h' <;> exact ⟨rfl, rfl, rfl⟩

theorem utf8_eq_ok_iff {text : String} :
    file.utf8 index = .ok text ↔ file.constant? index = some (.utf8 text) := by
  unfold utf8
  split
  · next other hother => simp [hother]
  · next hother =>
    constructor
    · intro h
      cases h
    · intro h
      exact absurd h (hother text)

theorem classNameText_eq_ok_iff {text : String} :
    file.classNameText index = .ok text ↔ file.NamesClass index text := by
  unfold classNameText NamesClass
  split
  · next nameIndex hclass => simp [hclass, utf8_eq_ok_iff]
  · next hother =>
    constructor
    · intro h
      cases h
    · rintro ⟨nameIndex, h, _⟩
      exact absurd h (hother nameIndex)

theorem nameAndType_eq_ok_iff {name descriptor : String} :
    file.nameAndType index = .ok (name, descriptor) ↔ ∃ nameIndex descriptorIndex,
      file.constant? index = some (.nameAndType nameIndex descriptorIndex) ∧
        file.constant? nameIndex = some (.utf8 name) ∧
        file.constant? descriptorIndex = some (.utf8 descriptor) := by
  unfold nameAndType
  split
  · next nameIndex descriptorIndex hpair =>
    simp only [bind_eq_ok_iff, pure_eq_ok_iff, utf8_eq_ok_iff, hpair, Option.some.injEq,
      Constant.nameAndType.injEq, Prod.mk.injEq]
    grind
  · next hother =>
    constructor
    · intro h
      cases h
    · rintro ⟨nameIndex, descriptorIndex, h, _⟩
      exact absurd h (hother nameIndex descriptorIndex)

theorem ofParts_eq_ok_iff {classIndex typeIndex : UInt16} {kept ofInterface : Bool}
    {member : MemberRef} :
    memberRef.ofParts file classIndex typeIndex kept = .ok (member, ofInterface) ↔
      ∃ owner name descriptor, file.nameAndType typeIndex = .ok (name, descriptor) ∧
        file.NamesClass classIndex owner ∧ member = ⟨.ofText owner, name, descriptor⟩ ∧
        ofInterface = kept := by
  simp only [memberRef.ofParts, className, bind_eq_ok_iff, pure_eq_ok_iff, classNameText_eq_ok_iff,
    Prod.mk.injEq]
  grind

theorem memberRef_eq_ok_iff {member : MemberRef} {ofInterface : Bool} :
    file.memberRef index = .ok (member, ofInterface) ↔
      file.NamesMember index member ofInterface := by
  have hparts : ∀ {constant classIndex typeIndex kept}, file.constant? index = some constant →
      MemberParts constant classIndex typeIndex kept →
      (memberRef.ofParts file classIndex typeIndex kept = .ok (member, ofInterface) ↔
        file.NamesMember index member ofInterface) := by
    intro constant classIndex typeIndex kept hhere hparts
    rw [ofParts_eq_ok_iff]
    constructor
    · rintro ⟨owner, name, descriptor, hpair, howner, rfl, rfl⟩
      obtain ⟨nameIndex, descriptorIndex, hpair, hname, hdescriptor⟩ := nameAndType_eq_ok_iff.1 hpair
      exact .intro hhere hparts hpair hname hdescriptor howner
    · rintro ⟨hother, hotherParts, hpair, hname, hdescriptor, howner⟩
      cases hhere.symm.trans hother
      obtain ⟨rfl, rfl, rfl⟩ := hparts.unique hotherParts
      exact ⟨_, _, _, nameAndType_eq_ok_iff.2 ⟨_, _, hpair, hname, hdescriptor⟩, howner, rfl, rfl⟩
  unfold memberRef
  split
  · next hfield => exact hparts hfield (.field _ _)
  · next hmethod => exact hparts hmethod (.method _ _)
  · next hmethod => exact hparts hmethod (.interfaceMethod _ _)
  · next hfield hmethod hinterface =>
    constructor
    · intro h
      cases h
    · rintro ⟨here, parts, _⟩
      cases parts with
      | field => exact absurd here (hfield _ _)
      | method => exact absurd here (hmethod _ _)
      | interfaceMethod => exact absurd here (hinterface _ _)

/-- The reference to a type by its name: to the element class of an array, and none to primitives. -/
def typeReferences (text : String) (usage : TypeUsage) : List Reference :=
  (ClassName.ofText text).elementClass?.toList.map (.type · usage)

/-- What a method handle of a kind refers to. -/
inductive HandleRefers (member : MemberRef) (ofInterface : Bool) (kind : UInt8) : List Reference → Prop
  | field {instruction : FieldInstruction} (known : (kind, instruction) ∈
        [(1, .getField), (2, .getStatic), (3, .putField), (4, FieldInstruction.putStatic)]) :
      HandleRefers member ofInterface kind [.field member instruction]
  | method {invocation : Invocation} (known : (kind, invocation) ∈
        [(5, .virtual), (6, .static), (7, .special), (8, .special), (9, Invocation.interface)]) :
      HandleRefers member ofInterface kind [.method member invocation ofInterface]
  | other (unknown : kind ∉ [1, 2, 3, 4, 5, 6, 7, 8, 9]) : HandleRefers member ofInterface kind []

/-- What a constant that is loaded refers to. Only classes and method handles refer to anything. -/
inductive LoadRefers (file : ClassFile) (index : UInt16) : List Reference → Prop
  | ofClass {text : String} (named : file.NamesClass index text) :
      LoadRefers file index (typeReferences text .classLiteral)
  | ofHandle {kind : UInt8} {memberIndex : UInt16} {member : MemberRef} {ofInterface : Bool}
      {references : List Reference} (here : file.constant? index = some (.methodHandle kind memberIndex))
      (named : file.NamesMember memberIndex member ofInterface)
      (refers : HandleRefers member ofInterface kind references) : LoadRefers file index references
  | other {constant : Constant} (here : file.constant? index = some constant)
      (noClass : ∀ nameIndex, constant ≠ .classInfo nameIndex)
      (noHandle : ∀ kind memberIndex, constant ≠ .methodHandle kind memberIndex) :
      LoadRefers file index []

theorem toList_typeReference? (text : String) (usage : TypeUsage) :
    (typeReference? text usage).toList = typeReferences text usage := by
  unfold typeReference? typeReferences
  cases (ClassName.ofText text).elementClass? <;> rfl

theorem handleRefers_iff {member : MemberRef} {ofInterface : Bool} {kind : UInt8}
    {references : List Reference} : HandleRefers member ofInterface kind references ↔
      (handleReference? kind member ofInterface).toList = references := by
  constructor
  · rintro (hknown | hknown | hunknown)
    · simp only [List.mem_cons, Prod.mk.injEq, List.not_mem_nil, or_false] at hknown
      obtain ⟨rfl, rfl⟩ | ⟨rfl, rfl⟩ | ⟨rfl, rfl⟩ | ⟨rfl, rfl⟩ := hknown <;> rfl
    · simp only [List.mem_cons, Prod.mk.injEq, List.not_mem_nil, or_false] at hknown
      obtain ⟨rfl, rfl⟩ | ⟨rfl, rfl⟩ | ⟨rfl, rfl⟩ | ⟨rfl, rfl⟩ | ⟨rfl, rfl⟩ := hknown <;> rfl
    · unfold handleReference?
      split <;> simp_all
  · rintro rfl
    unfold handleReference?
    split
    iterate 4 · exact .field (by decide)
    iterate 5 · exact .method (by decide)
    · exact .other (by simp_all)

theorem loadRefers_iff (index : UInt16) (references : List Reference) :
    file.LoadRefers index references ↔ ∃ reference,
      file.loadableReference? index = .ok reference ∧ reference.toList = references := by
  unfold loadableReference?
  split
  · next hmissing =>
    constructor
    · rintro (⟨_, hhere, _⟩ | ⟨hhere, _, _⟩ | ⟨hhere, _, _⟩) <;> cases hmissing.symm.trans hhere
    · rintro ⟨_, h, _⟩
      cases h
  · next nameIndex hclass =>
    simp only [bind_eq_ok_iff, pure_eq_ok_iff, utf8_eq_ok_iff]
    constructor
    · rintro (⟨_, hhere, htext⟩ | ⟨hhere, _, _⟩ | ⟨hhere, hother, _⟩)
      · cases hclass.symm.trans hhere
        exact ⟨_, ⟨_, htext, rfl⟩, toList_typeReference? _ _⟩
      · cases hclass.symm.trans hhere
      · cases hclass.symm.trans hhere
        exact absurd rfl (hother nameIndex)
    · rintro ⟨_, ⟨text, htext, rfl⟩, rfl⟩
      rw [toList_typeReference?]
      exact .ofClass ⟨nameIndex, hclass, htext⟩
  · next kind memberIndex hhandle =>
    simp only [bind_eq_ok_iff, pure_eq_ok_iff, Prod.exists, memberRef_eq_ok_iff]
    constructor
    · rintro (⟨_, hhere, _⟩ | ⟨hhere, hnamed, hrefers⟩ | ⟨hhere, _, hother⟩)
      · cases hhandle.symm.trans hhere
      · cases hhandle.symm.trans hhere
        exact ⟨_, ⟨_, _, hnamed, rfl⟩, handleRefers_iff.1 hrefers⟩
      · cases hhandle.symm.trans hhere
        exact absurd rfl (hother kind memberIndex)
    · rintro ⟨_, ⟨member, ofInterface, hnamed, rfl⟩, rfl⟩
      exact .ofHandle hhandle hnamed (handleRefers_iff.2 rfl)
  · next constant hclass hhandle hhere =>
    constructor
    · rintro (⟨_, hother, _⟩ | ⟨hother, _, _⟩ | ⟨_, _, _⟩)
      · cases hhere.symm.trans hother
        exact absurd rfl (hclass _)
      · cases hhere.symm.trans hother
        exact absurd rfl (hhandle _ _)
      · exact ⟨none, rfl, rfl⟩
    · rintro ⟨_, h, rfl⟩
      cases h
      exact .other hhere hclass hhandle

open Bytecode

/-- The instructions that name a type, with how they use it. -/
def typeOpcodes : List (UInt8 × TypeUsage) :=
  [(0xBB, .instantiation), (0xBD, .newArray), (0xC0, .cast), (0xC1, .typeTest), (0xC5, .multiNewArray)]

/-- The instructions that name a field. -/
def fieldOpcodes : List (UInt8 × FieldInstruction) :=
  [(0xB2, .getStatic), (0xB3, .putStatic), (0xB4, .getField), (0xB5, .putField)]

/-- The instructions that name a method. -/
def callOpcodes : List (UInt8 × Invocation) :=
  [(0xB6, .virtual), (0xB7, .special), (0xB8, .static), (0xB9, .interface)]

/-- The constants that instructions ask for. -/
inductive Asks (instruction : Instruction) : Operand → Prop
  | type {usage : TypeUsage} (known : (instruction.opcode, usage) ∈ typeOpcodes) :
      Asks instruction (.type usage instruction.index)
  | load (known : instruction.opcode = 0x12) : Asks instruction (.loadable instruction.shortIndex)
  | wideLoad (known : instruction.opcode = 0x13) : Asks instruction (.loadable instruction.index)
  | field {access : FieldInstruction} (known : (instruction.opcode, access) ∈ fieldOpcodes) :
      Asks instruction (.field access instruction.index)
  | call {invocation : Invocation} (known : (instruction.opcode, invocation) ∈ callOpcodes) :
      Asks instruction (.method invocation instruction.index)
  | dynamicCall (known : instruction.opcode = 0xBA) : Asks instruction (.dynamicCall instruction.index)

/-- What the constant that an instruction asks for refers to. A dynamic call refers to what its bootstrap
method and then each of the arguments refer to. -/
inductive OperandRefers (file : ClassFile) (bootstraps : List BootstrapMethod) :
    Operand → List Reference → Prop
  | type {usage : TypeUsage} {index : UInt16} {text : String} (named : file.NamesClass index text) :
      OperandRefers file bootstraps (.type usage index) (typeReferences text usage)
  | load {index : UInt16} {references : List Reference} (refers : file.LoadRefers index references) :
      OperandRefers file bootstraps (.loadable index) references
  | field {access : FieldInstruction} {index : UInt16} {member : MemberRef} {ofInterface : Bool}
      (named : file.NamesMember index member ofInterface) :
      OperandRefers file bootstraps (.field access index) [.field member access]
  | call {invocation : Invocation} {index : UInt16} {member : MemberRef} {ofInterface : Bool}
      (named : file.NamesMember index member ofInterface) :
      OperandRefers file bootstraps (.method invocation index) [.method member invocation ofInterface]
  | dynamicCall {index bootstrapIndex typeIndex : UInt16} {bootstrap : BootstrapMethod}
      {references : List (List Reference)}
      (here : file.constant? index = some (.invokeDynamic bootstrapIndex typeIndex))
      (linked : bootstraps[bootstrapIndex.toNat]? = some bootstrap)
      (refers : List.Forall₂ file.LoadRefers (bootstrap.handle :: bootstrap.arguments) references) :
      OperandRefers file bootstraps (.dynamicCall index) references.flatten

/-- What an instruction refers to. -/
inductive InstructionRefers (file : ClassFile) (bootstraps : List BootstrapMethod)
    (instruction : Instruction) : List Reference → Prop
  | operand {operand : Operand} {references : List Reference} (asked : Asks instruction operand)
      (refers : file.OperandRefers bootstraps operand references) :
      InstructionRefers file bootstraps instruction references
  | nothing (unasked : ∀ operand, ¬Asks instruction operand) :
      InstructionRefers file bootstraps instruction []

variable {bootstraps : List BootstrapMethod} {instruction : Instruction} {operand : Operand}
  {references : List Reference}

theorem operand?_eq_some_iff : instruction.operand? = some operand ↔ Asks instruction operand := by
  constructor
  · intro h
    unfold Instruction.operand? at h
    dsimp only at h
    -- the cases come in the order of the opcodes
    split at h <;> cases h
    · next hopcode => exact .load hopcode
    · next hopcode => exact .wideLoad hopcode
    iterate 4 next hopcode => exact .field (by rw [hopcode]; decide)
    iterate 4 next hopcode => exact .call (by rw [hopcode]; decide)
    · next hopcode => exact .dynamicCall hopcode
    all_goals next hopcode => exact .type (by rw [hopcode]; decide)
  · rintro (hknown | hknown | hknown | hknown | hknown | hknown)
    · simp only [typeOpcodes, List.mem_cons, Prod.mk.injEq, List.not_mem_nil, or_false] at hknown
      obtain ⟨h, rfl⟩ | ⟨h, rfl⟩ | ⟨h, rfl⟩ | ⟨h, rfl⟩ | ⟨h, rfl⟩ := hknown <;>
        simp only [Instruction.operand?, h]
    · simp only [Instruction.operand?, hknown]
    · simp only [Instruction.operand?, hknown]
    · simp only [fieldOpcodes, List.mem_cons, Prod.mk.injEq, List.not_mem_nil, or_false] at hknown
      obtain ⟨h, rfl⟩ | ⟨h, rfl⟩ | ⟨h, rfl⟩ | ⟨h, rfl⟩ := hknown <;> simp only [Instruction.operand?, h]
    · simp only [callOpcodes, List.mem_cons, Prod.mk.injEq, List.not_mem_nil, or_false] at hknown
      obtain ⟨h, rfl⟩ | ⟨h, rfl⟩ | ⟨h, rfl⟩ | ⟨h, rfl⟩ := hknown <;> simp only [Instruction.operand?, h]
    · simp only [Instruction.operand?, hknown]

theorem flatten_map_toList {α : Type} (values : List (Option α)) :
    (values.map Option.toList).flatten = values.filterMap id := by
  induction values with
  | nil => rfl
  | cons value values ih => cases value <;> simp [ih]

theorem dynamicReferences_eq_ok_iff {method : String} :
    file.dynamicReferences bootstraps method index = .ok references ↔
      file.OperandRefers bootstraps (.dynamicCall index) references := by
  unfold dynamicReferences
  split
  · next bootstrapIndex typeIndex hhere =>
    split
    · next hmissing =>
      constructor
      · intro h
        cases h
      · intro h
        cases h with
        | dynamicCall hother hlinked _ =>
          cases hhere.symm.trans hother
          cases hmissing.symm.trans hlinked
    · next bootstrap hlinked =>
      rw [bind_eq_ok_iff]
      constructor
      · rintro ⟨results, hresults, h⟩
        rw [← pure_eq_ok_iff.1 h, ← flatten_map_toList]
        exact .dynamicCall hhere hlinked ((forall₂_iff_mapM loadRefers_iff).2 ⟨results, hresults, rfl⟩)
      · intro h
        cases h with
        | dynamicCall hother hotherLinked hrefers =>
          cases hhere.symm.trans hother
          cases hlinked.symm.trans hotherLinked
          obtain ⟨results, hresults, rfl⟩ := (forall₂_iff_mapM loadRefers_iff).1 hrefers
          exact ⟨results, hresults, pure_eq_ok_iff.2 (flatten_map_toList results).symm⟩
  · next hother =>
    constructor
    · intro h
      cases h
    · intro h
      cases h with
      | dynamicCall hhere _ _ => exact absurd hhere (hother _ _)

theorem instructionRefers_iff (h : instruction.operand? = some operand) :
    file.InstructionRefers bootstraps instruction references ↔
      file.OperandRefers bootstraps operand references := by
  constructor
  · rintro (⟨hasked, hrefers⟩ | hunasked)
    · rw [← operand?_eq_some_iff, h, Option.some.injEq] at hasked
      rwa [hasked]
    · exact absurd (operand?_eq_some_iff.1 h) (hunasked operand)
  · exact .operand (operand?_eq_some_iff.1 h)

/-- Reading an instruction gives what it refers to. -/
theorem instructionReferences_eq_ok_iff {method : String} :
    file.instructionReferences bootstraps method instruction = .ok references ↔
      file.InstructionRefers bootstraps instruction references := by
  unfold instructionReferences
  split
  · next hnone =>
    constructor
    · intro h
      cases h
      refine .nothing fun operand hasked => ?_
      cases hnone.symm.trans (operand?_eq_some_iff.2 hasked)
    · rintro (⟨hasked, _⟩ | _)
      · cases hnone.symm.trans (operand?_eq_some_iff.2 hasked)
      · rfl
  · next usage index htype =>
    rw [instructionRefers_iff htype]
    simp only [bind_eq_ok_iff, pure_eq_ok_iff, classNameText_eq_ok_iff, toList_typeReference?]
    constructor
    · rintro ⟨text, hnamed, rfl⟩
      exact .type hnamed
    · intro h
      cases h with
      | type hnamed => exact ⟨_, hnamed, rfl⟩
  · next index hload =>
    rw [instructionRefers_iff hload]
    simp only [bind_eq_ok_iff, pure_eq_ok_iff, ← loadRefers_iff]
    constructor
    · exact .load
    · intro h
      cases h with
      | load hrefers => exact hrefers
  · next access index hfield =>
    rw [instructionRefers_iff hfield]
    simp only [bind_eq_ok_iff, pure_eq_ok_iff, Prod.exists, memberRef_eq_ok_iff]
    constructor
    · rintro ⟨member, ofInterface, hnamed, rfl⟩
      exact .field hnamed
    · intro h
      cases h with
      | field hnamed => exact ⟨_, _, hnamed, rfl⟩
  · next invocation index hcall =>
    rw [instructionRefers_iff hcall]
    simp only [bind_eq_ok_iff, pure_eq_ok_iff, Prod.exists, memberRef_eq_ok_iff]
    constructor
    · rintro ⟨member, ofInterface, hnamed, rfl⟩
      exact .call hnamed
    · intro h
      cases h with
      | call hnamed => exact ⟨_, _, hnamed, rfl⟩
  · next index hdynamic =>
    rw [instructionRefers_iff hdynamic, dynamicReferences_eq_ok_iff]

end ClassFile

end LinkCheck
