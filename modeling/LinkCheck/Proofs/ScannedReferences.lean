import LinkCheck.Proofs.InstructionLayout
import LinkCheck.Proofs.InstructionReferences

/-!
# What methods refer to

The references of a method are those of its instructions in their order, then of its handlers, then of its
tables of local variables, each where it comes first. A class file is read only if every constant that a body
needs is there and of a kind that its use accepts.

## Main definitions

- `ClassFile.BodyRefers`, `ClassFile.MethodRefers` — what a body and a method refer to
- `ClassFile.DeclaresBootstraps` — the bootstrap methods of a class file
- `ClassFile.BodyLacks` — a constant that a body needs is not there, or of another kind

## Main results

- `ClassFile.codeReferences_eq_ok_iff` — reading a body gives what it refers to
- `ClassDefinition.parse_references` — what the methods of a class file refer to, and when it is not read
-/

namespace LinkCheck

/-- The references of a body, if the part is one. -/
def MethodPart.code? : MethodPart → Option (List Reference)
  | .code references => some references
  | _ => none

theorem MethodPart.flatten_code? (parts : List MethodPart) :
    (parts.filterMap code?).flatten = parts.flatMap MethodPart.references := by
  induction parts with
  | nil => rfl
  | cons part parts ih =>
    rw [List.flatMap_cons, ← ih]
    cases part <;> rfl

/-- Where only some items contribute to what is seen of the results, it belongs to these. -/
theorem forall₂_filter_filterMap {α β γ : Type} {relation : α → β → Prop} {contributes : α → γ → Prop}
    {keep : α → Prop} [DecidablePred keep] {view : β → Option γ}
    (hview : ∀ item result, relation item result →
      if keep item then ∃ seen, view result = some seen ∧ contributes item seen else view result = none)
    {items : List α} {results : List β} (h : List.Forall₂ relation items results) :
    List.Forall₂ contributes (items.filter (keep ·)) (results.filterMap view) := by
  induction h with
  | nil => exact .nil
  | @cons item result items results hfirst _ ih =>
    have hseen := hview item result hfirst
    by_cases hkeep : keep item
    · rw [if_pos hkeep] at hseen
      obtain ⟨seen, hseen, hcontributes⟩ := hseen
      rw [List.filter_cons_of_pos (by simpa using hkeep), List.filterMap_cons_some hseen]
      exact .cons hcontributes ih
    · rw [if_neg hkeep] at hseen
      rwa [List.filter_cons_of_neg (by simpa using hkeep), List.filterMap_cons_none hseen]

namespace ClassFile

open Bytecode

variable {file : ClassFile} {index : UInt16} {bootstraps : List BootstrapMethod} {references : List Reference}

/-- What a handler refers to. One for everything has the index zero. -/
inductive HandlerRefers (file : ClassFile) (index : UInt16) : List Reference → Prop
  | everything (zero : index = 0) : HandlerRefers file index []
  | ofClass {text : String} (nonzero : index ≠ 0) (named : file.NamesClass index text) :
      HandlerRefers file index (typeReferences text .handler)

/-- The name of an attribute. -/
def Named (file : ClassFile) (attr : Attribute) (name : String) : Prop :=
  file.constant? attr.nameIndex = some (.utf8 name)

instance (file : ClassFile) (attr : Attribute) (name : String) : Decidable (file.Named attr name) :=
  inferInstanceAs (Decidable (file.constant? attr.nameIndex = some (.utf8 name)))

/-- The class that the type of a local variable names, if it names one. -/
def VariableNames (file : ClassFile) (index : UInt16) (classes : List ClassName) : Prop :=
  ∃ descriptor type, file.constant? index = some (.utf8 descriptor) ∧
    FieldType.parse? descriptor = some type ∧ type.elementClass?.toList = classes

/-- The classes that a well-formed table of local variables names. -/
def TableNames (file : ClassFile) (attr : Attribute) (classes : List ClassName) : Prop :=
  ∃ indices names, localTypeReader.runOn attr.info = .ok indices ∧
    List.Forall₂ file.VariableNames indices names ∧ names.flatten = classes

/-- What an attribute of a body refers to. Only tables of local variables refer to anything, and only if all
their entries are well formed. -/
inductive AttributeRefers (file : ClassFile) (attr : Attribute) : List Reference → Prop
  | table {classes : List ClassName} (named : file.Named attr "LocalVariableTable")
      (names : file.TableNames attr classes) :
      AttributeRefers file attr (classes.map (.type · .localVariable))
  | malformed (named : file.Named attr "LocalVariableTable")
      (nameless : ∀ classes, ¬file.TableNames attr classes) : AttributeRefers file attr []
  | other {name : String} (named : file.Named attr name) (unlike : name ≠ "LocalVariableTable") :
      AttributeRefers file attr []

/-- What a body refers to: its instructions, then its handlers, then its attributes, each in their order. -/
inductive BodyRefers (file : ClassFile) (bootstraps : List BootstrapMethod) (body : CodeBody) :
    List Reference → Prop
  | intro {instructions : List Instruction} {ofInstructions ofHandlers ofAttributes : List (List Reference)}
      (laid : Laid 0 instructions body.bytes)
      (refers : List.Forall₂ (file.InstructionRefers bootstraps) instructions ofInstructions)
      (caught : List.Forall₂ file.HandlerRefers body.catchTypes ofHandlers)
      (described : List.Forall₂ file.AttributeRefers body.attributes ofAttributes) :
      BodyRefers file bootstraps body
        (ofInstructions.flatten ++ ofHandlers.flatten ++ ofAttributes.flatten)

theorem handlerRefers_iff (index : UInt16) (references : List Reference) :
    file.HandlerRefers index references ↔ ∃ reference,
      file.handlerReference? index = .ok reference ∧ reference.toList = references := by
  unfold handlerReference?
  split
  · next hzero =>
    constructor
    · rintro (_ | ⟨hnonzero, _⟩)
      · exact ⟨none, rfl, rfl⟩
      · exact absurd hzero hnonzero
    · rintro ⟨_, h, rfl⟩
      cases h
      exact .everything hzero
  · next hnonzero =>
    simp only [bind_eq_ok_iff, pure_eq_ok_iff, classNameText_eq_ok_iff]
    constructor
    · rintro (hzero | ⟨_, hnamed⟩)
      · exact absurd hzero hnonzero
      · exact ⟨_, ⟨_, hnamed, rfl⟩, toList_typeReference? _ _⟩
    · rintro ⟨_, ⟨text, hnamed, rfl⟩, rfl⟩
      rw [toList_typeReference?]
      exact .ofClass hnonzero hnamed

theorem variableNames_iff (index : UInt16) (classes : List ClassName) :
    file.VariableNames index classes ↔ ∃ name,
      file.localVariableClass? index = .ok name ∧ name.toList = classes := by
  simp only [localVariableClass?, bind_eq_ok_iff, utf8_eq_ok_iff]
  constructor
  · rintro ⟨descriptor, type, hdescriptor, htype, rfl⟩
    refine ⟨_, ⟨descriptor, hdescriptor, ?_⟩, rfl⟩
    rw [htype]
    rfl
  · rintro ⟨name, ⟨descriptor, hdescriptor, h⟩, rfl⟩
    cases htype : FieldType.parse? descriptor with
    | none =>
      rw [htype] at h
      cases h
    | some type =>
      rw [htype] at h
      cases h
      exact ⟨descriptor, type, hdescriptor, htype, rfl⟩

theorem localVariableClasses_eq_ok_iff {attr : Attribute} {classes : List ClassName} :
    file.localVariableClasses attr = .ok classes ↔ file.TableNames attr classes := by
  simp only [localVariableClasses, bind_eq_ok_iff, pure_eq_ok_iff, TableNames,
    forall₂_iff_mapM variableNames_iff]
  constructor
  · rintro ⟨indices, hindices, results, hresults, rfl⟩
    exact ⟨indices, _, hindices, ⟨results, hresults, rfl⟩, flatten_map_toList results⟩
  · rintro ⟨indices, _, hindices, ⟨results, hresults, rfl⟩, rfl⟩
    exact ⟨indices, hindices, results, hresults, (flatten_map_toList results).symm⟩

theorem codeAttributeReferences_eq_ok_iff {attr : Attribute} :
    file.codeAttributeReferences attr = .ok references ↔ file.AttributeRefers attr references := by
  simp only [codeAttributeReferences, attributeName, bind_eq_ok_iff, utf8_eq_ok_iff]
  constructor
  · rintro ⟨name, hname, h⟩
    split at h
    · next htable =>
      subst htable
      cases hclasses : file.localVariableClasses attr with
      | ok classes =>
        rw [hclasses] at h
        cases h
        exact .table hname (localVariableClasses_eq_ok_iff.1 hclasses)
      | error failure =>
        rw [hclasses] at h
        cases h
        refine .malformed hname fun classes hnames => ?_
        cases hclasses.symm.trans (localVariableClasses_eq_ok_iff.2 hnames)
    · next hother =>
      cases h
      exact .other hname hother
  · intro h
    cases h with
    | table hnamed hnames =>
      refine ⟨_, hnamed, ?_⟩
      rw [if_pos rfl, localVariableClasses_eq_ok_iff.2 hnames]
      rfl
    | malformed hnamed hnameless =>
      refine ⟨_, hnamed, ?_⟩
      rw [if_pos rfl]
      cases hclasses : file.localVariableClasses attr with
      | ok classes => exact absurd (localVariableClasses_eq_ok_iff.1 hclasses) (hnameless classes)
      | error failure => rfl
    | other hnamed hother =>
      refine ⟨_, hnamed, ?_⟩
      rw [if_neg hother]
      rfl

theorem laid_iff_scan {instructions : List Instruction} {code : List UInt8} :
    Laid 0 instructions code ↔ (scan code).fault = none ∧ (scan code).instructions = instructions := by
  constructor
  · intro hlaid
    rw [scan, scanFrom_of_laid hlaid]
    exact ⟨rfl, rfl⟩
  · rintro ⟨hfault, rfl⟩
    exact laid_scanFrom hfault

/-- Reading a body gives what it refers to. -/
theorem codeReferences_eq_ok_iff {method : String} {body : CodeBody} :
    file.codeReferences bootstraps method body = .ok references ↔
      file.BodyRefers bootstraps body references := by
  have hread : file.codeReferences bootstraps method body = .ok references ↔
      ∃ ofInstructions ofHandlers ofAttributes,
        (scan body.bytes).instructions.mapM (file.instructionReferences bootstraps method) =
          .ok ofInstructions ∧
        (scan body.bytes).fault = none ∧
        body.catchTypes.mapM file.handlerReference? = .ok ofHandlers ∧
        body.attributes.mapM file.codeAttributeReferences = .ok ofAttributes ∧
        ofInstructions.flatten ++ ofHandlers.filterMap id ++ ofAttributes.flatten = references := by
    unfold codeReferences
    cases hfault : (scan body.bytes).fault with
    | none => simp only [hfault, bind_eq_ok_iff, pure_eq_ok_iff, true_and, exists_and_left]
    | some fault =>
      simp only [hfault, bind_eq_ok_iff, reduceCtorEq, false_and, and_false, exists_false]
  rw [hread]
  simp only [mapM_eq_ok_iff, instructionReferences_eq_ok_iff, codeAttributeReferences_eq_ok_iff]
  constructor
  · rintro ⟨ofInstructions, ofHandlers, ofAttributes, hinstructions, hfault, hhandlers, hattributes, rfl⟩
    rw [← flatten_map_toList]
    exact .intro (laid_iff_scan.2 ⟨hfault, rfl⟩) hinstructions
      ((forall₂_iff_mapM handlerRefers_iff).2 ⟨ofHandlers, mapM_eq_ok_iff.2 hhandlers, rfl⟩) hattributes
  · rintro ⟨hlaid, hinstructions, hhandlers, hattributes⟩
    obtain ⟨hfault, rfl⟩ := laid_iff_scan.1 hlaid
    obtain ⟨results, hresults, rfl⟩ := (forall₂_iff_mapM handlerRefers_iff).1 hhandlers
    exact ⟨_, results, _, hinstructions, hfault, mapM_eq_ok_iff.1 hresults, hattributes,
      by rw [flatten_map_toList]⟩

/-- What an attribute with code refers to. -/
def CodeRefers (file : ClassFile) (bootstraps : List BootstrapMethod) (attr : Attribute)
    (references : List Reference) : Prop :=
  ∃ body, codeReader.runOn attr.info = .ok body ∧ file.BodyRefers bootstraps body references

/-- What a method refers to. If it has several bodies, they follow each other. -/
def MethodRefers (file : ClassFile) (bootstraps : List BootstrapMethod) (info : MemberInfo)
    (references : List Reference) : Prop :=
  ∃ ofBodies, List.Forall₂ (file.CodeRefers bootstraps) (info.attributes.filter (file.Named · "Code"))
    ofBodies ∧ ofBodies.flatten = references

/-- The bootstrap methods of a class are those of the last attribute for them. -/
def DeclaresBootstraps (file : ClassFile) (bootstraps : List BootstrapMethod) : Prop :=
  (file.attributes.filter (file.Named · "BootstrapMethods")).getLast?.elim (bootstraps = [])
    fun attr => bootstrapReader.runOn attr.info = .ok bootstraps

/-- A constant that a body needs is missing, or not of a kind that its use accepts. -/
def BodyLacks (file : ClassFile) (bootstraps : List BootstrapMethod) (body : CodeBody) : Prop :=
  (∃ instructions, Laid 0 instructions body.bytes ∧ ∃ instruction ∈ instructions, ∃ operand,
    Asks instruction operand ∧ ∀ references, ¬file.OperandRefers bootstraps operand references) ∨
  ∃ index ∈ body.catchTypes, index ≠ 0 ∧ ∀ text, ¬file.NamesClass index text

theorem named_iff_of_named {attr : Attribute} {name other : String} (h : file.Named attr name) :
    file.Named attr other ↔ name = other := by
  rw [Named] at h ⊢
  rw [h, Option.some.injEq, Constant.utf8.injEq]

theorem code?_of_methodPart {method : String} (attr : Attribute) (part : MethodPart)
    (h : file.methodPart bootstraps method attr = .ok part) :
    if file.Named attr "Code" then
      ∃ references, part.code? = some references ∧ file.CodeRefers bootstraps attr references
    else part.code? = none := by
  simp only [methodPart, attributeName, bind_eq_ok_iff, utf8_eq_ok_iff] at h
  obtain ⟨name, hname, h⟩ := h
  simp only [named_iff_of_named hname]
  split at h
  · obtain ⟨body, hbody, h⟩ := bind_eq_ok_iff.1 h
    obtain ⟨references, hreferences, h⟩ := bind_eq_ok_iff.1 h
    cases h
    exact ⟨references, rfl, body, hbody, codeReferences_eq_ok_iff.1 hreferences⟩
  · obtain ⟨indices, _, h⟩ := bind_eq_ok_iff.1 h
    obtain ⟨names, _, h⟩ := bind_eq_ok_iff.1 h
    cases h
    rfl
  · cases h
    rfl
  · next hcode _ _ =>
    cases h
    rw [if_neg hcode]
    rfl

theorem references_of_method {info : MemberInfo} {method : MethodDefinition}
    (h : file.method bootstraps info = .ok method) :
    ∃ references, file.MethodRefers bootstraps info references ∧
      method.references = references.eraseDups := by
  simp only [ClassFile.method, bind_eq_ok_iff] at h
  obtain ⟨name, _, descriptor, _, h⟩ := h
  split at h
  · cases h
  · obtain ⟨parts, hparts, h⟩ := bind_eq_ok_iff.1 h
    cases h
    have hrefers := forall₂_filter_filterMap code?_of_methodPart (mapM_eq_ok_iff.1 hparts)
    exact ⟨_, ⟨_, hrefers, MethodPart.flatten_code? parts⟩, rfl⟩

theorem rightUnique_codeRefers : Relator.RightUnique (file.CodeRefers bootstraps) := by
  rintro attr references others ⟨body, hbody, hreferences⟩ ⟨other, hother, hothers⟩
  cases hbody.symm.trans hother
  have hread : file.codeReferences bootstraps "" body = .ok references :=
    codeReferences_eq_ok_iff.2 hreferences
  exact Except.ok.inj (hread.symm.trans (codeReferences_eq_ok_iff.2 hothers))

/-- A method refers to one list of references only. -/
theorem MethodRefers.unique {info : MemberInfo} {others : List Reference}
    (h : file.MethodRefers bootstraps info references) (h' : file.MethodRefers bootstraps info others) :
    references = others := by
  obtain ⟨ofBodies, hrefers, rfl⟩ := h
  obtain ⟨ofOthers, hrefers', rfl⟩ := h'
  rw [rightUnique_codeRefers.forall₂ hrefers hrefers']

theorem BodyRefers.not_bodyLacks {body : CodeBody} (h : file.BodyRefers bootstraps body references) :
    ¬file.BodyLacks bootstraps body := by
  obtain ⟨hlaid, hrefers, hcaught, _⟩ := h
  rintro (⟨others, hothers, instruction, hmem, operand, hasked, hlacks⟩ | ⟨index, hmem, hnonzero, hlacks⟩)
  · obtain rfl := (laid_iff_scan.1 hlaid).2.symm.trans (laid_iff_scan.1 hothers).2
    obtain ⟨_, _, hinstruction⟩ := exists_of_forall₂ hrefers hmem
    cases hinstruction with
    | operand hother hoperand =>
      rw [← operand?_eq_some_iff] at hasked hother
      cases hasked.symm.trans hother
      exact hlacks _ hoperand
    | nothing hunasked => exact hunasked operand hasked
  · obtain ⟨_, _, hhandler⟩ := exists_of_forall₂ hcaught hmem
    cases hhandler with
    | everything hzero => exact hnonzero hzero
    | ofClass _ hnamed => exact hlacks _ hnamed

/-- A method whose body lacks a constant refers to no list of references. -/
theorem MethodRefers.not_bodyLacks {info : MemberInfo}
    (h : file.MethodRefers bootstraps info references) {attr : Attribute} (hattr : attr ∈ info.attributes)
    (hcode : file.Named attr "Code") {body : CodeBody} (hbody : codeReader.runOn attr.info = .ok body) :
    ¬file.BodyLacks bootstraps body := by
  obtain ⟨ofBodies, hrefers, _⟩ := h
  obtain ⟨_, _, other, hother, hrefers⟩ :=
    exists_of_forall₂ hrefers (List.mem_filter.2 ⟨hattr, by simpa using hcode⟩)
  cases hbody.symm.trans hother
  exact hrefers.not_bodyLacks

theorem bootstraps?_of_classPart (attr : Attribute) (part : ClassPart) (h : file.classPart attr = .ok part) :
    if file.Named attr "BootstrapMethods" then
      ∃ methods, part.bootstraps? = some methods ∧ bootstrapReader.runOn attr.info = .ok methods
    else part.bootstraps? = none := by
  simp only [classPart, attributeName, bind_eq_ok_iff, utf8_eq_ok_iff] at h
  obtain ⟨name, hname, h⟩ := h
  simp only [named_iff_of_named hname]
  split at h
  · obtain ⟨index, _, h⟩ := bind_eq_ok_iff.1 h
    obtain ⟨host, _, h⟩ := bind_eq_ok_iff.1 h
    cases h
    rfl
  · cases h
    rfl
  · obtain ⟨methods, hmethods, h⟩ := bind_eq_ok_iff.1 h
    cases h
    exact ⟨methods, rfl, hmethods⟩
  · next hbootstraps =>
    cases h
    rw [if_neg hbootstraps]
    rfl

theorem declaresBootstraps_of_parts {parts : List ClassPart}
    (h : file.attributes.mapM file.classPart = .ok parts) :
    file.DeclaresBootstraps ((lastGiven (parts.map ClassPart.bootstraps?)).getD []) := by
  have hreversed := List.rel_reverse
    (forall₂_filter_filterMap bootstraps?_of_classPart (mapM_eq_ok_iff.1 h))
  rw [DeclaresBootstraps, lastGiven, List.filterMap_map, Function.id_comp, ← List.head?_reverse,
    ← List.head?_reverse]
  generalize (file.attributes.filter _).reverse = attributes at hreversed
  generalize (parts.filterMap _).reverse = declared at hreversed
  cases hreversed with
  | nil => rfl
  | cons hlast _ => exact hlast

theorem DeclaresBootstraps.unique {others : List BootstrapMethod}
    (h : file.DeclaresBootstraps bootstraps) (h' : file.DeclaresBootstraps others) :
    bootstraps = others := by
  unfold DeclaresBootstraps at h h'
  cases hlast : (file.attributes.filter (file.Named · "BootstrapMethods")).getLast? with
  | none =>
    rw [hlast] at h h'
    exact h.trans h'.symm
  | some attr =>
    rw [hlast] at h h'
    exact Except.ok.inj (h.symm.trans h')

theorem methods_of_definition {definition : ClassDefinition} (h : file.definition = .ok definition) :
    ∃ bootstraps, file.DeclaresBootstraps bootstraps ∧
      List.Forall₂ (fun info method => file.method bootstraps info = .ok method) file.methods
        definition.methods := by
  simp only [ClassFile.definition, bind_eq_ok_iff] at h
  obtain ⟨name, _, h⟩ := h
  split at h <;>
  · simp only [bind_eq_ok_iff, pure_eq_ok_iff] at h
    obtain ⟨_, _, interfaces, _, parts, hparts, fields, _, methods, hmethods, rfl⟩ := h
    exact ⟨_, declaresBootstraps_of_parts hparts, mapM_eq_ok_iff.1 hmethods⟩

end ClassFile

/-- The methods of a class file refer to what their instructions, handlers and tables of local variables refer
to, in their order and each where it comes first. A class file is not read where a constant that a body needs
is missing, or not of a kind that its use accepts. -/
theorem ClassDefinition.parse_references (bytes : List UInt8) :
    (∀ definition, ClassDefinition.parse bytes = .ok definition →
      ∃ file bootstraps, ClassFile.read bytes = .ok file ∧ file.DeclaresBootstraps bootstraps ∧
        List.Forall₂ (fun info method => ∃ references,
          (∀ others, file.MethodRefers bootstraps info others ↔ others = references) ∧
            method.references = references.eraseDups) file.methods definition.methods) ∧
      ∀ file bootstraps, ClassFile.read bytes = .ok file → file.DeclaresBootstraps bootstraps →
        ∀ info ∈ file.methods, ∀ attr ∈ info.attributes, file.Named attr "Code" →
        ∀ body, ClassFile.codeReader.runOn attr.info = .ok body → file.BodyLacks bootstraps body →
        ∃ failure, ClassDefinition.parse bytes = .error failure := by
  refine ⟨fun definition hparse => ?_, fun file bootstraps hread hbootstraps => ?_⟩
  · obtain ⟨file, hread, hdefinition⟩ := bind_eq_ok_iff.1 hparse
    obtain ⟨bootstraps, hbootstraps, hmethods⟩ := ClassFile.methods_of_definition hdefinition
    refine ⟨file, bootstraps, hread, hbootstraps, hmethods.imp fun info method hmethod => ?_⟩
    obtain ⟨references, hrefers, hsame⟩ := ClassFile.references_of_method hmethod
    refine ⟨references, fun others => ⟨fun hothers => hothers.unique hrefers, ?_⟩, hsame⟩
    rintro rfl
    exact hrefers
  · intro info hinfo attr hattr hcode body hbody hlacks
    cases hparse : ClassDefinition.parse bytes with
    | error failure => exact ⟨failure, rfl⟩
    | ok definition =>
      obtain ⟨other, hother, hdefinition⟩ := bind_eq_ok_iff.1 hparse
      cases hread.symm.trans hother
      obtain ⟨others, hothers, hmethods⟩ := ClassFile.methods_of_definition hdefinition
      obtain rfl := hbootstraps.unique hothers
      obtain ⟨method, _, hmethod⟩ := exists_of_forall₂ hmethods hinfo
      obtain ⟨references, hrefers, _⟩ := ClassFile.references_of_method hmethod
      exact absurd hlacks (hrefers.not_bodyLacks hattr hcode hbody)

/-- A class file with one method, whose body has the given instructions, a handler and a table of one local
variable. The twelfth constant is for a method that is called. -/
def callerFile (called : Constant) (code : List UInt8) : ClassFile where
  minorVersion := 0
  majorVersion := 52
  constants := [.utf8 "p/Caller", .classInfo 1, .utf8 "java/lang/Object", .classInfo 3, .utf8 "run",
    .utf8 "()V", .utf8 "Code", .utf8 "q/Called", .classInfo 8, .utf8 "open", .nameAndType 10 6, called,
    .utf8 "[[Lq/Loaded;", .classInfo 13, .methodHandle 6 12, .invokeDynamic 0 11, .utf8 "BootstrapMethods",
    .utf8 "LocalVariableTable", .utf8 "Lq/Local;", .integer 7]
  flags := ⟨0x0021⟩
  thisClass := 2
  superClass := 4
  interfaces := []
  fields := []
  methods := [{
    flags := ⟨0x0009⟩
    nameIndex := 5
    descriptorIndex := 6
    attributes := [⟨7, [0, 2, 0, 1] ++ spellNumber 4 code.length ++ code ++
      [0, 2, 0, 0, 0, 1, 0, 1, 0, 9, 0, 0, 0, 1, 0, 1, 0, 0] ++
      [0, 1, 0, 18, 0, 0, 0, 12, 0, 1, 0, 0, 0, 1, 0, 5, 0, 19, 0, 0]⟩] }]
  attributes := [⟨17, [0, 1, 0, 15, 0, 2, 0, 14, 0, 20]⟩]

/-- A new object, a class and a number that are loaded, a call and a dynamic call. -/
def callerCode : List UInt8 :=
  [0xBB, 0, 9, 0x12, 14, 0x12, 20, 0xB8, 0, 12, 0xBA, 0, 16, 0, 0, 0xB1]

def callerBody : CodeBody where
  bytes := callerCode
  catchTypes := [9, 0]
  attributes := [⟨18, [0, 1, 0, 0, 0, 1, 0, 5, 0, 19, 0, 0]⟩]

theorem bodyLacks_caller : (callerFile (.integer 7) callerCode).BodyLacks [⟨15, [14, 20]⟩] callerBody := by
  refine .inl ⟨_, Bytecode.laid_scanFrom (by decide +kernel), ⟨7, 0xB8, [0, 12]⟩, by decide +kernel,
    .method .static 12, .call (by decide), fun references hrefers => ?_⟩
  cases hrefers with
  | call hnamed =>
    obtain ⟨hhere, hparts, _⟩ := hnamed
    cases hhere
    cases hparts

/-- The references of a method that is read, and a method that is not read because it calls a number. -/
theorem ClassDefinition.parse_references_caller :
    (∃ definition, ClassDefinition.parse (callerFile (.methodRef 9 11) callerCode).write = .ok definition ∧
      definition.methods.map MethodDefinition.references =
        [[.type ⟨"q/Called"⟩ .instantiation, .type ⟨"q/Loaded"⟩ .classLiteral,
          .method ⟨⟨"q/Called"⟩, "open", "()V"⟩ .static false, .type ⟨"q/Called"⟩ .handler,
          .type ⟨"q/Local"⟩ .localVariable]] ∧
      ∃ file bootstraps, ClassFile.read (callerFile (.methodRef 9 11) callerCode).write = .ok file ∧
        file.DeclaresBootstraps bootstraps ∧
        List.Forall₂ (fun info method => ∃ references,
          (∀ others, file.MethodRefers bootstraps info others ↔ others = references) ∧
            method.references = references.eraseDups) file.methods definition.methods) ∧
      ClassFile.read (callerFile (.integer 7) callerCode).write =
        .ok (callerFile (.integer 7) callerCode) ∧
      (callerFile (.integer 7) callerCode).DeclaresBootstraps [⟨15, [14, 20]⟩] ∧
      (callerFile (.integer 7) callerCode).BodyLacks [⟨15, [14, 20]⟩] callerBody ∧
      ∃ failure, ClassDefinition.parse (callerFile (.integer 7) callerCode).write = .error failure := by
  have hreferences : (ClassDefinition.parse (callerFile (.methodRef 9 11) callerCode).write).map
      (fun definition => definition.methods.map MethodDefinition.references) =
        .ok [[.type ⟨"q/Called"⟩ .instantiation, .type ⟨"q/Loaded"⟩ .classLiteral,
          .method ⟨⟨"q/Called"⟩, "open", "()V"⟩ .static false, .type ⟨"q/Called"⟩ .handler,
          .type ⟨"q/Local"⟩ .localVariable]] := by decide +kernel
  have hread : ClassFile.read (callerFile (.integer 7) callerCode).write =
      .ok (callerFile (.integer 7) callerCode) := by decide +kernel
  have hbootstraps : (callerFile (.integer 7) callerCode).DeclaresBootstraps [⟨15, [14, 20]⟩] := by
    have hdeclared : ClassFile.bootstrapReader.runOn [0, 1, 0, 15, 0, 2, 0, 14, 0, 20] =
        .ok [⟨15, [14, 20]⟩] := by decide +kernel
    exact hdeclared
  refine ⟨?_, hread, hbootstraps, bodyLacks_caller, ?_⟩
  · cases hparse : ClassDefinition.parse (callerFile (.methodRef 9 11) callerCode).write with
    | error failure =>
      rw [hparse] at hreferences
      cases hreferences
    | ok definition =>
      rw [hparse] at hreferences
      exact ⟨definition, rfl, Except.ok.inj hreferences,
        (ClassDefinition.parse_references _).1 definition hparse⟩
  · refine (ClassDefinition.parse_references _).2 _ _ hread hbootstraps _ (List.mem_singleton_self _) _
      (List.mem_singleton_self _) rfl callerBody ?_ bodyLacks_caller
    decide +kernel

/-- A field may be asked for by the constant of a method. -/
theorem ClassDefinition.parse_method_as_field :
    ClassFile.read (callerFile (.methodRef 9 11) [0xB4, 0, 12, 0xB1]).write =
        .ok (callerFile (.methodRef 9 11) [0xB4, 0, 12, 0xB1]) ∧
      Bytecode.Laid 0 [⟨0, 0xB4, [0, 12]⟩, ⟨3, 0xB1, []⟩] [0xB4, 0, 12, 0xB1] ∧
      ClassFile.Asks ⟨0, 0xB4, [0, 12]⟩ (.field .getField 12) ∧
      (callerFile (.methodRef 9 11) [0xB4, 0, 12, 0xB1]).constant? 12 = some (.methodRef 9 11) ∧
      (ClassDefinition.parse (callerFile (.methodRef 9 11) [0xB4, 0, 12, 0xB1]).write).map
          (fun definition => definition.methods.map MethodDefinition.references) =
        .ok [[.field ⟨⟨"q/Called"⟩, "open", "()V"⟩ .getField, .type ⟨"q/Called"⟩ .handler,
          .type ⟨"q/Local"⟩ .localVariable]] :=
  ⟨by decide +kernel, .next (.fixed rfl) (.next (.fixed rfl) .done), .field (by decide), by decide,
    by decide +kernel⟩

end LinkCheck
