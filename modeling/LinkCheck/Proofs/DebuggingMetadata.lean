import LinkCheck.Proofs.ScannedReferences
import LinkCheck.Proofs.ShownArchives
import LinkCheck.Proofs.TruncatedClassFiles

/-!
# Generic signatures and tables of local variables

Generic signatures and tables of local variables are there for compilers and debuggers. Whatever bytes stand
in them, a class file is read with the same outcome, and what linking needs of the definition is the same.

## Main definitions

- `EndAlike` — two computations fail for the same reason, or both give results that are related
- `ClassFile.VariesIn`, `ClassFile.BodyVaries` — attributes and bodies with other bytes in such places
- `ClassFile.MetadataVaries` — class files that differ in such places only
- `ClassDefinition.linkage` — a definition without what such places tell
- `LinkedAlike` — references that are the same but for the types of local variables

## Main results

- `ClassFile.VariesIn.endAlike` — attributes that vary in metadata are read alike
- `ClassFile.codeReader_alike`, `ClassFile.codeReferences_alike` — bodies are read alike
- `ClassFile.methodPart_alike`, `ClassFile.method_alike` — methods are read alike
- `ClassDefinition.parse_metadata` — class files are read alike
-/

namespace LinkCheck

section Computations

variable {ε α β γ δ : Type}

/-- Two computations fail for the same reason, or both give results that are related. -/
inductive EndAlike (relation : α → β → Prop) : Except ε α → Except ε β → Prop
  | failed (failure : ε) : EndAlike relation (.error failure) (.error failure)
  | done {result : α} {other : β} (related : relation result other) :
      EndAlike relation (.ok result) (.ok other)

variable {relation : α → β → Prop} {related : γ → δ → Prop}

theorem EndAlike.of_forall {relation : α → α → Prop} (h : ∀ result, relation result result)
    (computation : Except ε α) : EndAlike relation computation computation := by
  cases computation with
  | error failure => exact .failed failure
  | ok result => exact .done (h result)

theorem EndAlike.same (computation : Except ε α) : EndAlike Eq computation computation :=
  .of_forall (fun _ => rfl) computation

theorem EndAlike.bind {first : Except ε α} {second : Except ε β} {next : α → Except ε γ}
    {other : β → Except ε δ} (h : EndAlike relation first second)
    (hnext : ∀ result otherResult, relation result otherResult →
      EndAlike related (next result) (other otherResult)) :
    EndAlike related (first >>= next) (second >>= other) := by
  cases h with
  | failed failure => exact .failed failure
  | done hrelated => exact hnext _ _ hrelated

theorem EndAlike.elim {first : Except ε α} {second : Except ε β} (h : EndAlike relation first second) :
    (∃ failure, first = .error failure ∧ second = .error failure) ∨
      ∃ result other, first = .ok result ∧ second = .ok other ∧ relation result other := by
  cases h with
  | failed failure => exact .inl ⟨failure, rfl, rfl⟩
  | done hrelated => exact .inr ⟨_, _, rfl, rfl, hrelated⟩

/-- What is done for each item of two lists ends alike if it does so item by item. -/
theorem EndAlike.mapM {step : α → Except ε γ} {other : β → Except ε δ}
    {items : List α} {others : List β} (hall : List.Forall₂ relation items others)
    (h : ∀ item otherItem, relation item otherItem → EndAlike related (step item) (other otherItem)) :
    EndAlike (List.Forall₂ related) (items.mapM step) (others.mapM other) := by
  induction hall with
  | nil => exact .done .nil
  | cons hfirst _ ih =>
    rw [List.mapM_cons, List.mapM_cons]
    refine (h _ _ hfirst).bind fun result otherResult hresult => ?_
    refine ih.bind fun results otherResults hresults => ?_
    exact .done (.cons hresult hresults)

theorem map_eq_of_forall₂ {view : α → γ} {relation : α → α → Prop}
    (h : ∀ item other, relation item other → view item = view other) {items others : List α}
    (hall : List.Forall₂ relation items others) : items.map view = others.map view := by
  induction hall with
  | nil => rfl
  | cons hfirst _ ih => rw [List.map_cons, List.map_cons, h _ _ hfirst, ih]

theorem flatMap_eq_of_forall₂ {items : α → List γ} {relation : α → α → Prop}
    (h : ∀ item other, relation item other → items item = items other) {first second : List α}
    (hall : List.Forall₂ relation first second) : first.flatMap items = second.flatMap items := by
  rw [List.flatMap_def, List.flatMap_def, map_eq_of_forall₂ h hall]

end Computations

namespace ClassFile

open ByteReader

/-- Attributes that are equal, or have the same name and length where that is the name of metadata. -/
inductive VariesIn (file : ClassFile) (name : String) : Attribute → Attribute → Prop
  | same (attr : Attribute) : VariesIn file name attr attr
  | named {nameIndex : UInt16} {info other : List UInt8} (named : file.Named ⟨nameIndex, info⟩ name)
      (length : info.length = other.length) : VariesIn file name ⟨nameIndex, info⟩ ⟨nameIndex, other⟩

/-- Reads what stands in front of the attributes of a body: its code, the classes that it catches and the
number of attributes. -/
def bodyFrontReader : ByteReader (List UInt8 × List UInt16 × UInt16) := do
  let _maxStack ← u2
  let _maxLocals ← u2
  let length ← u4
  let bytes ← take length.toNat
  let catchTypes ← table handlerReader
  let count ← u2
  return (bytes, catchTypes, count)

/-- Bodies that differ only within tables of local variables. What stands behind the attributes listed here
need not be well formed. -/
inductive BodyVaries (file : ClassFile) : List UInt8 → List UInt8 → Prop
  | intro {front code rest : List UInt8} {catchTypes : List UInt16} {count : UInt16}
      {attributes others : List Attribute} (opens : Reads bodyFrontReader front (code, catchTypes, count))
      (within : attributes.length ≤ count.toNat) (fits : ∀ attr ∈ attributes, attr.info.length < 2 ^ 32)
      (varies : List.Forall₂ (file.VariesIn "LocalVariableTable") attributes others) :
      BodyVaries file (front ++ (attributes.flatMap Attribute.write ++ rest))
        (front ++ (others.flatMap Attribute.write ++ rest))

/-- Attributes of a method that differ only within signatures and tables of local variables. -/
inductive MethodAttributeVaries (file : ClassFile) : Attribute → Attribute → Prop
  | signature {attr other : Attribute} (varies : file.VariesIn "Signature" attr other) :
      MethodAttributeVaries file attr other
  | code {nameIndex : UInt16} {info other : List UInt8} (named : file.Named ⟨nameIndex, info⟩ "Code")
      (varies : file.BodyVaries info other) :
      MethodAttributeVaries file ⟨nameIndex, info⟩ ⟨nameIndex, other⟩

/-- Fields or methods that differ only within attributes. -/
structure MemberVaries (varies : Attribute → Attribute → Prop) (member other : MemberInfo) : Prop where
  flags : member.flags = other.flags
  nameIndex : member.nameIndex = other.nameIndex
  descriptorIndex : member.descriptorIndex = other.descriptorIndex
  attributes : List.Forall₂ varies member.attributes other.attributes

/-- Class files that differ only within the signatures of the class, its fields and its methods, and within
tables of local variables. -/
structure MetadataVaries (file other : ClassFile) : Prop where
  minorVersion : file.minorVersion = other.minorVersion
  majorVersion : file.majorVersion = other.majorVersion
  constants : file.constants = other.constants
  flags : file.flags = other.flags
  thisClass : file.thisClass = other.thisClass
  superClass : file.superClass = other.superClass
  interfaces : file.interfaces = other.interfaces
  fields : List.Forall₂ (MemberVaries (file.VariesIn "Signature")) file.fields other.fields
  methods : List.Forall₂ (MemberVaries file.MethodAttributeVaries) file.methods other.methods
  attributes : List.Forall₂ (file.VariesIn "Signature") file.attributes other.attributes

end ClassFile

/-- Whether a reference is no type of a local variable. -/
def Reference.isLinked : Reference → Bool
  | .type _ .localVariable => false
  | _ => true

/-- References that are the same, in the same order, but for the types of local variables. -/
def LinkedAlike (references others : List Reference) : Prop :=
  references.filter Reference.isLinked = others.filter Reference.isLinked

theorem LinkedAlike.refl (references : List Reference) : LinkedAlike references references :=
  rfl

theorem linkedAlike_localVariables (classes others : List ClassName) :
    LinkedAlike (classes.map (.type · .localVariable)) (others.map (.type · .localVariable)) := by
  have hnone : ∀ classes : List ClassName,
      (classes.map (Reference.type · .localVariable)).filter Reference.isLinked = [] := by
    intro classes
    rw [List.filter_map]
    exact List.map_eq_nil_iff.2 (List.filter_eq_nil_iff.2 fun _ _ => Bool.false_ne_true)
  exact (hnone classes).trans (hnone others).symm

/-- A field without its signature. -/
def FieldDefinition.linkage (field : FieldDefinition) : FieldDefinition :=
  { field with signatureClasses := [] }

/-- A method without its signature and the types of its local variables. -/
def MethodDefinition.linkage (method : MethodDefinition) : MethodDefinition :=
  { method with
    signatureClasses := []
    references := method.references.filter Reference.isLinked }

/-- A class without signatures and the types of local variables. -/
def ClassDefinition.linkage (definition : ClassDefinition) : ClassDefinition :=
  { definition with
    fields := definition.fields.map FieldDefinition.linkage
    methods := definition.methods.map MethodDefinition.linkage
    signatureClasses := [] }

/-- What attributes contribute to a class, but for signatures. -/
inductive ClassPart.Alike : ClassPart → ClassPart → Prop
  | same (part : ClassPart) : Alike part part
  | signature (classes others : List ClassName) : Alike (.signature classes) (.signature others)

/-- What attributes contribute to a method, but for signatures and the types of local variables. -/
inductive MethodPart.Alike : MethodPart → MethodPart → Prop
  | same (part : MethodPart) : Alike part part
  | signature (classes others : List ClassName) : Alike (.signature classes) (.signature others)
  | code {references others : List Reference} (linked : LinkedAlike references others) :
      Alike (.code references) (.code others)

theorem MethodPart.Alike.exceptionNames_eq (first second : MethodPart) (h : first.Alike second) :
    first.exceptionNames = second.exceptionNames := by
  cases h <;> rfl

theorem MethodPart.Alike.linkedAlike (first second : MethodPart) (h : first.Alike second) :
    LinkedAlike first.references second.references := by
  cases h with
  | same | signature => rfl
  | code hlinked => exact hlinked

theorem ClassPart.Alike.nestHost?_eq (first second : ClassPart) (h : first.Alike second) :
    first.nestHost? = second.nestHost? := by
  cases h <;> rfl

theorem ClassPart.Alike.bootstraps?_eq (first second : ClassPart) (h : first.Alike second) :
    first.bootstraps? = second.bootstraps? := by
  cases h <;> rfl

theorem ByteReader.counted_add {α : Type} (reader : ByteReader α) (first second : Nat) :
    counted reader (first + second) = (do
      let values ← counted reader first
      let others ← counted reader second
      return values ++ others) := by
  induction first with
  | zero => simp only [Nat.zero_add, counted, pure_bind, List.nil_append, bind_pure]
  | succ first ih =>
    rw [Nat.succ_add, counted, ih]
    simp only [counted, bind_assoc, pure_bind, List.cons_append]

namespace ClassFile

open ByteReader

variable {file : ClassFile} {bootstraps : List BootstrapMethod}

theorem codeReader_eq : codeReader = (do
    let (bytes, catchTypes, count) ← bodyFrontReader
    let attributes ← counted attributeReader count.toNat
    return { bytes, catchTypes, attributes }) := by
  simp only [codeReader, bodyFrontReader, table, bind_assoc, pure_bind]

/-- Once some of its attributes are read, what is left of a body decides how reading it ends. -/
theorem codeReader_append {front code : List UInt8} {catchTypes : List UInt16} {count : UInt16}
    {attributes : List Attribute} (hopens : Reads bodyFrontReader front (code, catchTypes, count))
    (hwithin : attributes.length ≤ count.toNat)
    (hfits : ∀ attr ∈ attributes, attr.info.length < 2 ^ 32) (rest : List UInt8) :
    codeReader (front ++ (attributes.flatMap Attribute.write ++ rest)) = (do
      let others ← counted attributeReader (count.toNat - attributes.length)
      return CodeBody.mk code catchTypes (attributes ++ others)) rest := by
  have hcount : count.toNat = attributes.length + (count.toNat - attributes.length) := by omega
  have hread : Reads (counted attributeReader attributes.length) (attributes.flatMap Attribute.write)
      attributes := reads_counted fun attr hattr => reads_attribute (hfits attr hattr)
  rw [codeReader_eq, hopens.bind_append]
  dsimp only
  rw [hcount, counted_add]
  simp only [bind_assoc, pure_bind]
  rw [hread.bind_append, Nat.add_sub_cancel_left]

theorem VariesIn.length_eq {name : String} {attr other : Attribute} (h : file.VariesIn name attr other) :
    attr.info.length = other.info.length := by
  cases h with
  | same => rfl
  | named _ hlength => exact hlength

theorem VariesIn.eq_or_named {name : String} {attr other : Attribute} (h : file.VariesIn name attr other) :
    attr = other ∨ file.Named attr name ∧ file.Named other name := by
  cases h with
  | same => exact .inl rfl
  | named hnamed _ => exact .inr ⟨hnamed, hnamed⟩

theorem length_write (attr : Attribute) : attr.write.length = 6 + attr.info.length := by
  simp only [Attribute.write, List.length_append, length_spellNumber]
  omega

theorem length_flatMap_write {name : String} {attributes others : List Attribute}
    (h : List.Forall₂ (file.VariesIn name) attributes others) :
    (attributes.flatMap Attribute.write).length = (others.flatMap Attribute.write).length := by
  induction h with
  | nil => rfl
  | cons hfirst _ ih =>
    rw [List.flatMap_cons, List.flatMap_cons, List.length_append, List.length_append, ih, length_write,
      length_write, hfirst.length_eq]

theorem fits_of_varies {name : String} {attributes others : List Attribute}
    (h : List.Forall₂ (file.VariesIn name) attributes others)
    (hfits : ∀ attr ∈ attributes, attr.info.length < 2 ^ 32) :
    ∀ attr ∈ others, attr.info.length < 2 ^ 32 := by
  intro other hother
  obtain ⟨attr, hattr, hvaries⟩ := exists_of_forall₂ h.flip hother
  exact hvaries.length_eq ▸ hfits attr hattr

/-- The parts of a body, but for what stands in tables of local variables. -/
structure PartsVary (file : ClassFile) (body other : CodeBody) : Prop where
  bytes : body.bytes = other.bytes
  catchTypes : body.catchTypes = other.catchTypes
  attributes : List.Forall₂ (file.VariesIn "LocalVariableTable") body.attributes other.attributes

theorem codeReader_alike {info other : List UInt8} (h : file.BodyVaries info other) :
    EndAlike file.PartsVary (codeReader.runOn info) (codeReader.runOn other) := by
  cases h with
  | @intro front code rest catchTypes count attributes others hopens hwithin hfits hvaries =>
    have hcount : attributes.length = others.length := hvaries.length_eq
    have hlength := length_flatMap_write hvaries
    simp only [runOn, codeReader_append hopens hwithin hfits,
      codeReader_append hopens (hcount ▸ hwithin) (fits_of_varies hvaries hfits), List.length_append, hlength,
      ← hcount]
    cases hrest : counted attributeReader (count.toNat - attributes.length) rest with
    | error failure =>
      rw [bind_apply_of_error hrest, bind_apply_of_error hrest]
      exact .failed _
    | ok result =>
      rw [bind_apply_of_ok hrest, bind_apply_of_ok hrest]
      exact .done ⟨rfl, rfl, List.rel_append hvaries (List.forall₂_same.2 fun attr _ => .same attr)⟩

theorem attributeName_of_named {name : String} {attr : Attribute} (h : file.Named attr name) :
    file.attributeName attr = .ok name :=
  utf8_eq_ok_iff.2 h

/-- Where metadata of a name always tells some classes, and it does not matter which ones, two attributes that
vary in it are read alike. -/
theorem VariesIn.endAlike {α : Type} {name : String} {attr other : Attribute} {relation : α → α → Prop}
    {step : Attribute → Except ReadError α} {tell : List ClassName → α} (h : file.VariesIn name attr other)
    (hsame : ∀ result, relation result result)
    (hstep : ∀ {attr}, file.Named attr name → ∃ classes, step attr = .ok (tell classes))
    (htell : ∀ classes others, relation (tell classes) (tell others)) :
    EndAlike relation (step attr) (step other) := by
  obtain rfl | ⟨hnamed, hother⟩ := h.eq_or_named
  · exact .of_forall hsame _
  · obtain ⟨classes, hclasses⟩ := hstep hnamed
    obtain ⟨others, hothers⟩ := hstep hother
    rw [hclasses, hothers]
    exact .done (htell classes others)

theorem codeAttributeReferences_of_table {attr : Attribute} (h : file.Named attr "LocalVariableTable") :
    ∃ classes : List ClassName,
      file.codeAttributeReferences attr = .ok (classes.map (.type · .localVariable)) := by
  rw [codeAttributeReferences, attributeName_of_named h]
  cases hclasses : file.localVariableClasses attr with
  | error failure => exact ⟨[], rfl⟩
  | ok classes => exact ⟨classes, rfl⟩

theorem codeAttributeReferences_alike (attr other : Attribute)
    (h : file.VariesIn "LocalVariableTable" attr other) :
    EndAlike LinkedAlike (file.codeAttributeReferences attr) (file.codeAttributeReferences other) :=
  h.endAlike .refl codeAttributeReferences_of_table linkedAlike_localVariables

theorem codeReferences_alike {method : String} {body other : CodeBody} (h : file.PartsVary body other) :
    EndAlike LinkedAlike (file.codeReferences bootstraps method body)
      (file.codeReferences bootstraps method other) := by
  simp only [codeReferences, h.bytes, h.catchTypes]
  refine (EndAlike.same _).bind ?_
  rintro ofInstructions _ rfl
  cases (Bytecode.scan other.bytes).fault with
  | some fault => exact .failed _
  | none =>
    refine (EndAlike.same _).bind ?_
    rintro ofHandlers _ rfl
    refine (EndAlike.mapM h.attributes codeAttributeReferences_alike).bind ?_
    intro references others hlinked
    refine .done ?_
    rw [LinkedAlike, List.filter_append, List.filter_append _ others.flatten, List.filter_flatten,
      List.filter_flatten, map_eq_of_forall₂ (fun _ _ hsame => hsame) hlinked]

theorem classPart_of_signature {attr : Attribute} (h : file.Named attr "Signature") :
    ∃ classes, file.classPart attr = .ok (.signature classes) := by
  rw [classPart, attributeName_of_named h]
  exact ⟨_, rfl⟩

theorem fieldSignature?_of_signature {attr : Attribute} (h : file.Named attr "Signature") :
    ∃ classes, file.fieldSignature? attr = .ok (some classes) := by
  rw [fieldSignature?, attributeName_of_named h]
  exact ⟨_, rfl⟩

theorem methodPart_of_signature {method : String} {attr : Attribute} (h : file.Named attr "Signature") :
    ∃ classes, file.methodPart bootstraps method attr = .ok (.signature classes) := by
  rw [methodPart, attributeName_of_named h]
  exact ⟨_, rfl⟩

theorem methodPart_of_code {method : String} {attr : Attribute} (h : file.Named attr "Code") :
    file.methodPart bootstraps method attr = (do
      let body ← codeReader.runOn attr.info
      return .code (← file.codeReferences bootstraps method body)) := by
  rw [methodPart, attributeName_of_named h]
  rfl

theorem classPart_alike (attr other : Attribute) (h : file.VariesIn "Signature" attr other) :
    EndAlike ClassPart.Alike (file.classPart attr) (file.classPart other) :=
  h.endAlike .same classPart_of_signature .signature

/-- The classes of a signature are all that attributes of fields tell, so only failures matter. -/
theorem fieldSignature?_alike (attr other : Attribute) (h : file.VariesIn "Signature" attr other) :
    EndAlike (fun _ _ => True) (file.fieldSignature? attr) (file.fieldSignature? other) :=
  h.endAlike (fun _ => trivial) fieldSignature?_of_signature fun _ _ => trivial

theorem methodPart_alike {method : String} (attr other : Attribute)
    (h : file.MethodAttributeVaries attr other) :
    EndAlike MethodPart.Alike (file.methodPart bootstraps method attr)
      (file.methodPart bootstraps method other) := by
  cases h with
  | signature hvaries => exact hvaries.endAlike .same methodPart_of_signature .signature
  | @code nameIndex info other hnamed hvaries =>
    have hother : file.Named ⟨nameIndex, other⟩ "Code" := hnamed
    rw [methodPart_of_code hnamed, methodPart_of_code hother]
    refine (codeReader_alike hvaries).bind fun body otherBody hbody => ?_
    refine (codeReferences_alike hbody).bind fun references others hlinked => ?_
    exact .done (.code hlinked)

theorem field_alike (member other : MemberInfo)
    (h : MemberVaries (file.VariesIn "Signature") member other) :
    EndAlike (fun field otherField => field.linkage = otherField.linkage) (file.field member)
      (file.field other) := by
  simp only [field, h.flags, h.nameIndex, h.descriptorIndex]
  refine (EndAlike.same _).bind ?_
  rintro name _ rfl
  refine (EndAlike.same _).bind ?_
  rintro descriptor _ rfl
  cases FieldType.parse? descriptor with
  | none => exact .failed _
  | some type =>
    refine (EndAlike.mapM h.attributes fieldSignature?_alike).bind ?_
    intro signatures others _
    exact .done rfl

theorem method_alike (member other : MemberInfo) (h : MemberVaries file.MethodAttributeVaries member other) :
    EndAlike (fun method otherMethod => method.linkage = otherMethod.linkage)
      (file.method bootstraps member) (file.method bootstraps other) := by
  simp only [method, h.flags, h.nameIndex, h.descriptorIndex]
  refine (EndAlike.same _).bind ?_
  rintro name _ rfl
  refine (EndAlike.same _).bind ?_
  rintro descriptor _ rfl
  cases MethodDescriptor.parse? descriptor with
  | none => exact .failed _
  | some type =>
    refine (EndAlike.mapM h.attributes methodPart_alike).bind ?_
    intro parts others hparts
    refine .done ?_
    have hexceptions := flatMap_eq_of_forall₂ MethodPart.Alike.exceptionNames_eq hparts
    have hreferences := flatMap_eq_of_forall₂ MethodPart.Alike.linkedAlike hparts
    -- Repetitions go away before the types of local variables are left out, or after: it is the same.
    simp only [MethodDefinition.linkage, filter_eraseDups, List.filter_flatMap, hexceptions, hreferences]

section Constants

variable {other : ClassFile} (h : file.constants = other.constants)
include h

theorem className_of_constants : file.className = other.className := by
  cases file
  cases other
  cases h
  rfl

theorem classPart_of_constants : file.classPart = other.classPart := by
  cases file
  cases other
  cases h
  rfl

theorem field_of_constants : file.field = other.field := by
  cases file
  cases other
  cases h
  rfl

theorem method_of_constants : file.method = other.method := by
  cases file
  cases other
  cases h
  rfl

end Constants

/-- The definition of a class whose name and superclass are known. -/
def definitionOf (file : ClassFile) (name : ClassName) (superName : Option ClassName) :
    Except ReadError ClassDefinition := do
  let interfaces ← file.interfaces.mapM file.className
  let parts ← file.attributes.mapM file.classPart
  let fields ← file.fields.mapM file.field
  let methods ← file.methods.mapM (file.method ((lastGiven (parts.map ClassPart.bootstraps?)).getD []))
  return {
    name, superName, interfaces, fields, methods
    flags := file.flags
    declaredNestHost := lastGiven (parts.map ClassPart.nestHost?)
    signatureClasses := (lastGiven (parts.map ClassPart.signature?)).getD []
    majorVersion := file.majorVersion
    minorVersion := file.minorVersion }

theorem definition_eq (file : ClassFile) : file.definition = (do
    let name ← file.className file.thisClass
    if file.superClass = 0 then file.definitionOf name none
    else file.definitionOf name (some (← file.className file.superClass))) := by
  simp only [definition, definitionOf, pure_bind, bind_map_left]

theorem definitionOf_alike {other : ClassFile} (h : file.MetadataVaries other) (name : ClassName)
    (superName : Option ClassName) :
    EndAlike (fun found otherFound => found.linkage = otherFound.linkage) (file.definitionOf name superName)
      (other.definitionOf name superName) := by
  simp only [definitionOf, ← className_of_constants h.constants, ← classPart_of_constants h.constants,
    ← field_of_constants h.constants, ← method_of_constants h.constants, ← h.minorVersion, ← h.majorVersion,
    ← h.flags, ← h.interfaces]
  refine (EndAlike.same _).bind ?_
  rintro interfaces _ rfl
  refine (EndAlike.mapM h.attributes classPart_alike).bind ?_
  intro parts others hparts
  rw [← map_eq_of_forall₂ ClassPart.Alike.bootstraps?_eq hparts,
    ← map_eq_of_forall₂ ClassPart.Alike.nestHost?_eq hparts]
  refine (EndAlike.mapM h.fields field_alike).bind ?_
  intro fields otherFields hfields
  refine (EndAlike.mapM h.methods method_alike).bind ?_
  intro methods otherMethods hmethods
  refine .done ?_
  simp only [ClassDefinition.linkage, map_eq_of_forall₂ (fun _ _ hsame => hsame) hfields,
    map_eq_of_forall₂ (fun _ _ hsame => hsame) hmethods]

theorem definition_alike {other : ClassFile} (h : file.MetadataVaries other) :
    EndAlike (fun found otherFound => found.linkage = otherFound.linkage) file.definition
      other.definition := by
  rw [definition_eq, definition_eq, ← className_of_constants h.constants, ← h.thisClass, ← h.superClass]
  refine (EndAlike.same _).bind ?_
  rintro name _ rfl
  by_cases hsuper : file.superClass = 0
  · rw [if_pos hsuper, if_pos hsuper]
    exact definitionOf_alike h name none
  · rw [if_neg hsuper, if_neg hsuper]
    refine (EndAlike.same _).bind ?_
    rintro superName _ rfl
    exact definitionOf_alike h name (some superName)

end ClassFile

/-- Whatever bytes stand in generic signatures and tables of local variables, a class file is read with the same
outcome: it fails for the same reason, or its definition is the same but for the classes that signatures mention
and for the types of local variables among the references, which are in the same order otherwise. -/
theorem ClassDefinition.parse_metadata {bytes others : List UInt8} {file other : ClassFile}
    (hread : ClassFile.read bytes = .ok file) (hother : ClassFile.read others = .ok other)
    (hvaries : file.MetadataVaries other) :
    (∃ failure, ClassDefinition.parse bytes = .error failure ∧
      ClassDefinition.parse others = .error failure) ∨
    ∃ definition otherDefinition, ClassDefinition.parse bytes = .ok definition ∧
      ClassDefinition.parse others = .ok otherDefinition ∧
      definition.linkage = otherDefinition.linkage := by
  rw [ClassDefinition.parse, hread, ClassDefinition.parse, hother]
  exact (ClassFile.definition_alike hvaries).elim

/-- The front of a body that makes an object and has one attribute. -/
def tracedFront : List UInt8 :=
  [0, 2, 0, 1, 0, 0, 0, 4, 0xBB, 0, 9, 0xB1, 0, 0, 0, 1]

/-- A body with a table of local variables that holds the given bytes. -/
def tracedBody (locals : List UInt8) : List UInt8 :=
  tracedFront ++ ([⟨11, locals⟩].flatMap Attribute.write ++ [])

/-- A class file with a field and a method, where the bytes of all signatures and of the table of local
variables are given. -/
def tracedFile (signature locals : List UInt8) : ClassFile where
  minorVersion := 0
  majorVersion := 52
  constants := [.utf8 "p/Traced", .classInfo 1, .utf8 "java/lang/Object", .classInfo 3, .utf8 "run",
    .utf8 "()V", .utf8 "Code", .utf8 "q/Shop", .classInfo 8, .utf8 "Signature", .utf8 "LocalVariableTable",
    .utf8 "Lq/Coin;", .utf8 "coin"]
  flags := ⟨0x0021⟩
  thisClass := 2
  superClass := 4
  interfaces := []
  fields := [⟨⟨0x0001⟩, 13, 12, [⟨10, signature⟩]⟩]
  methods := [⟨⟨0x0009⟩, 5, 6, [⟨10, signature⟩, ⟨7, tracedBody locals⟩]⟩]
  attributes := [⟨10, signature⟩]

/-- A table of one local variable. -/
def coinLocals : List UInt8 :=
  [0, 1, 0, 0, 0, 1, 0, 5, 0, 12, 0, 0]

/-- A table that ends long before its last entry. -/
def brokenLocals : List UInt8 :=
  [0xFF, 0xFF, 0, 0, 0, 0, 0, 0, 0, 0, 0, 0]

theorem metadataVaries_traced :
    (tracedFile [0, 12] coinLocals).MetadataVaries (tracedFile [0, 99] brokenLocals) := by
  have hsignature : (tracedFile [0, 12] coinLocals).VariesIn "Signature" ⟨10, [0, 12]⟩ ⟨10, [0, 99]⟩ :=
    .named rfl rfl
  have hlocals : (tracedFile [0, 12] coinLocals).VariesIn "LocalVariableTable" ⟨11, coinLocals⟩
      ⟨11, brokenLocals⟩ := .named rfl rfl
  have hopens : ByteReader.Reads ClassFile.bodyFrontReader tracedFront ([0xBB, 0, 9, 0xB1], [], 1) :=
    fun _ => rfl
  have hbody : (tracedFile [0, 12] coinLocals).BodyVaries (tracedBody coinLocals) (tracedBody brokenLocals) :=
    .intro hopens (by decide) (by decide) (.cons hlocals .nil)
  exact {
    minorVersion := rfl
    majorVersion := rfl
    constants := rfl
    flags := rfl
    thisClass := rfl
    superClass := rfl
    interfaces := rfl
    fields := .cons ⟨rfl, rfl, rfl, .cons hsignature .nil⟩ .nil
    methods := .cons ⟨rfl, rfl, rfl, .cons (.signature hsignature) (.cons (.code rfl hbody) .nil)⟩ .nil
    attributes := .cons hsignature .nil }

/-- Signatures that are at no constant, and a broken table of local variables: the classes that they mention are
lost, and nothing else. -/
theorem ClassDefinition.parse_metadata_traced :
    ClassFile.read (tracedFile [0, 12] coinLocals).write = .ok (tracedFile [0, 12] coinLocals) ∧
      ClassFile.read (tracedFile [0, 99] brokenLocals).write = .ok (tracedFile [0, 99] brokenLocals) ∧
      (tracedFile [0, 12] coinLocals).MetadataVaries (tracedFile [0, 99] brokenLocals) ∧
      ∃ definition other, ClassDefinition.parse (tracedFile [0, 12] coinLocals).write = .ok definition ∧
        ClassDefinition.parse (tracedFile [0, 99] brokenLocals).write = .ok other ∧
        definition.linkage = other.linkage ∧
        definition.signatureClasses = [⟨"q/Coin"⟩] ∧ other.signatureClasses = [] ∧
        definition.methods.map MethodDefinition.references =
          [[.type ⟨"q/Shop"⟩ .instantiation, .type ⟨"q/Coin"⟩ .localVariable]] ∧
        other.methods.map MethodDefinition.references = [[.type ⟨"q/Shop"⟩ .instantiation]] := by
  have hread : ClassFile.read (tracedFile [0, 12] coinLocals).write =
      .ok (tracedFile [0, 12] coinLocals) := by decide +kernel
  have hother : ClassFile.read (tracedFile [0, 99] brokenLocals).write =
      .ok (tracedFile [0, 99] brokenLocals) := by decide +kernel
  have hseen : (ClassDefinition.parse (tracedFile [0, 12] coinLocals).write).map (fun definition =>
      (definition.signatureClasses, definition.methods.map MethodDefinition.references)) =
        .ok ([⟨"q/Coin"⟩], [[.type ⟨"q/Shop"⟩ .instantiation, .type ⟨"q/Coin"⟩ .localVariable]]) := by
    decide +kernel
  have hotherSeen : (ClassDefinition.parse (tracedFile [0, 99] brokenLocals).write).map (fun definition =>
      (definition.signatureClasses, definition.methods.map MethodDefinition.references)) =
        .ok ([], [[.type ⟨"q/Shop"⟩ .instantiation]]) := by
    decide +kernel
  refine ⟨hread, hother, metadataVaries_traced, ?_⟩
  obtain ⟨failure, hfailed, _⟩ | ⟨definition, other, hparse, hparseOther, hsame⟩ :=
    ClassDefinition.parse_metadata hread hother metadataVaries_traced
  · rw [hfailed] at hseen
    cases hseen
  · rw [hparse] at hseen
    rw [hparseOther] at hotherSeen
    have hparts := Prod.mk.inj (Except.ok.inj hseen)
    have hotherParts := Prod.mk.inj (Except.ok.inj hotherSeen)
    exact ⟨definition, other, hparse, hparseOther, hsame, hparts.1, hotherParts.1, hparts.2, hotherParts.2⟩

end LinkCheck
