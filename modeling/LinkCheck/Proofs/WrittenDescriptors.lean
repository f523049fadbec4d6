import LinkCheck.Descriptor
import LinkCheck.Proofs.TextReading

/-!
# Descriptors that are written and read

A text is read as a type or a method descriptor just if it is what is written for it. Names of classes may
be any text without a semicolon.

## Main definitions

- `FieldType.Writable`, `MethodDescriptor.Writable` — no name has a semicolon
- `FieldType.arrayOf` — arrays of a number of dimensions

## Main results

- `FieldType.reader_eq_some_iff`, `returnReader_eq_some_iff`, `MethodDescriptor.reader_eq_some_iff` — what
  is read is what is written
- `FieldType.elementClass?_eq_some_iff` — the element class is the class below the array dimensions
- `MethodDescriptor.parse?_exact` — what whole texts are read as, and the classes that they name
-/

namespace LinkCheck

open TextReader

theorem BaseType.ofCode?_eq_some_iff {c : Char} {type : BaseType} :
    ofCode? c = some type ↔ c = type.code := by
  constructor
  · intro h
    unfold ofCode? at h
    split at h <;> cases h <;> rfl
  · rintro rfl
    cases type <;> rfl

namespace FieldType

/-- Names end at the first semicolon, so none may have one. -/
def Writable : FieldType → Prop
  | base _ => True
  | object name => ';' ∉ name.toList
  | array element => element.Writable

@[simp]
theorem toList_render_base (type : BaseType) : (base type).render.toList = [type.code] := by
  simp [render]

@[simp]
theorem toList_render_object (name : String) :
    (object name).render.toList = 'L' :: (name.toList ++ [';']) := by
  simp [render]

@[simp]
theorem toList_render_array (element : FieldType) :
    (array element).render.toList = '[' :: element.render.toList := by
  simp [render]

theorem toList_render_ne_nil (type : FieldType) : type.render.toList ≠ [] := by
  cases type <;> simp

theorem reader_code (type : BaseType) (rest : List Char) :
    reader (type.code :: rest) = some (base type, rest) := by
  cases type <;> rfl

theorem reader_close (rest : List Char) : reader (')' :: rest) = none :=
  rfl

theorem reader_name {name : List Char} (h : ';' ∉ name) (rest : List Char) :
    reader ('L' :: (name ++ ';' :: rest)) = some (object (String.ofList name), rest) := by
  have hname : ∀ c ∈ name, decide (c ≠ ';') = true :=
    fun c hc => decide_eq_true fun heq => h (heq ▸ hc)
  rw [reader, List.takeWhile_append_of_pos hname, List.dropWhile_append_of_pos hname]
  simp

/-- A type that is written is read back. -/
theorem reader_render {type : FieldType} (h : type.Writable) (rest : List Char) :
    reader (type.render.toList ++ rest) = some (type, rest) := by
  induction type with
  | base type => rw [toList_render_base, List.singleton_append, reader_code]
  | object name =>
    rw [toList_render_object, List.cons_append, List.append_assoc, List.singleton_append,
      reader_name h, String.ofList_toList]
  | array element ih => rw [toList_render_array, List.cons_append, reader, ih h, Option.map_some]

/-- What is read as a type is what is written for it. -/
theorem eq_render_of_reader {input rest : List Char} {type : FieldType}
    (h : reader input = some (type, rest)) :
    type.Writable ∧ input = type.render.toList ++ rest := by
  fun_induction reader input generalizing type rest with
  | case1 => cases h
  | case2 => cases h
  | case3 input c others hdrop =>
    cases h
    have hfree : ';' ∉ input.takeWhile (· ≠ ';') := by
      intro hmem
      simpa using List.all_eq_true.1 List.all_takeWhile _ hmem
    have hends := List.head?_dropWhile_not (· ≠ ';') input
    rw [hdrop] at hends
    obtain rfl : c = ';' := by simpa using hends
    have hsplit := List.takeWhile_append_dropWhile (p := (· ≠ ';')) (l := input)
    rw [hdrop] at hsplit
    refine ⟨by rwa [Writable, String.toList_ofList], ?_⟩
    rw [toList_render_object, String.toList_ofList, List.cons_append, List.append_assoc,
      List.singleton_append, hsplit]
  | case4 input ih =>
    obtain ⟨⟨element, others⟩, hread, heq⟩ := Option.map_eq_some_iff.1 h
    cases heq
    obtain ⟨hwritable, rfl⟩ := ih hread
    exact ⟨hwritable, by rw [toList_render_array, List.cons_append]⟩
  | case5 c input hname hbracket =>
    obtain ⟨base, hcode, heq⟩ := Option.map_eq_some_iff.1 h
    cases heq
    obtain rfl := BaseType.ofCode?_eq_some_iff.1 hcode
    exact ⟨trivial, by rw [toList_render_base, List.singleton_append]⟩

/-- A type is read from just what is written for it. -/
theorem reader_eq_some_iff {input rest : List Char} {type : FieldType} :
    reader input = some (type, rest) ↔ type.Writable ∧ input = type.render.toList ++ rest := by
  refine ⟨eq_render_of_reader, ?_⟩
  rintro ⟨hwritable, rfl⟩
  exact reader_render hwritable rest

/-- An array of a number of dimensions. -/
def arrayOf : Nat → FieldType → FieldType
  | 0, element => element
  | dimensions + 1, element => array (arrayOf dimensions element)

theorem elementClass?_arrayOf (dimensions : Nat) (element : FieldType) :
    (arrayOf dimensions element).elementClass? = element.elementClass? := by
  induction dimensions with
  | zero => rfl
  | succ dimensions ih => exact ih

/-- The element class is the class that is left below the array dimensions. -/
theorem elementClass?_eq_some_iff {type : FieldType} {class_ : ClassName} :
    type.elementClass? = some class_ ↔
      ∃ dimensions name, type = arrayOf dimensions (object name) ∧ class_ = .ofText name := by
  constructor
  · intro h
    induction type with
    | base type => cases h
    | object name => exact ⟨0, name, rfl, (Option.some.inj h).symm⟩
    | array element ih =>
      obtain ⟨dimensions, name, rfl, hname⟩ := ih h
      exact ⟨dimensions + 1, name, rfl, hname⟩
  · rintro ⟨dimensions, name, rfl, rfl⟩
    exact elementClass?_arrayOf dimensions (object name)

end FieldType

open FieldType

theorem returnReader_void (rest : List Char) : returnReader ('V' :: rest) = some (none, rest) :=
  rfl

/-- A result that does not start with the letter for none is a type. -/
theorem returnReader_of_head?_ne {input : List Char} (h : input.head? ≠ some 'V') :
    returnReader input = (FieldType.reader input).map fun (type, rest) => (some type, rest) := by
  unfold returnReader
  split
  · exact absurd rfl h
  · rfl

/-- A result is read from just what is written for it. -/
theorem returnReader_eq_some_iff {input rest : List Char} {result : Option FieldType} :
    returnReader input = some (result, rest) ↔
      (∀ type ∈ result, type.Writable) ∧
        input = (MethodDescriptor.renderResult result).toList ++ rest := by
  by_cases hvoid : input.head? = some 'V'
  · obtain ⟨others, rfl⟩ := List.head?_eq_some_iff.1 hvoid
    rw [returnReader_void]
    cases result with
    | none => simp [MethodDescriptor.renderResult]
    | some type =>
      -- No type is read from that letter.
      have hnone : 'V' :: others ≠ type.render.toList ++ rest := by
        cases type with
        | base type => cases type <;> simp [BaseType.code]
        | object name => simp
        | array element => simp
      simp [MethodDescriptor.renderResult, hnone]
  · rw [returnReader_of_head?_ne hvoid, Option.map_eq_some_iff]
    constructor
    · rintro ⟨⟨type, others⟩, hread, heq⟩
      cases heq
      obtain ⟨hwritable, rfl⟩ := FieldType.reader_eq_some_iff.1 hread
      exact ⟨by simpa using hwritable, rfl⟩
    · rintro ⟨hwritable, rfl⟩
      cases result with
      | none => exact absurd rfl hvoid
      | some type =>
        exact ⟨(type, rest), FieldType.reader_eq_some_iff.2 ⟨hwritable type rfl, rfl⟩, rfl⟩

namespace MethodDescriptor

/-- No name has a semicolon, in the parameters or in the result. -/
def Writable (descriptor : MethodDescriptor) : Prop :=
  (∀ type ∈ descriptor.parameters, type.Writable) ∧ ∀ type ∈ descriptor.result, type.Writable

theorem toList_render (descriptor : MethodDescriptor) :
    descriptor.render.toList =
      '(' :: (descriptor.parameters.flatMap (fun type => type.render.toList) ++
        ')' :: (renderResult descriptor.result).toList) := by
  simp [render, List.flatMap_def, Function.comp_def]

/-- A method descriptor is read from just what is written for it. -/
theorem reader_eq_some_iff {input rest : List Char} {descriptor : MethodDescriptor} :
    reader input = some (descriptor, rest) ↔
      descriptor.Writable ∧ input = descriptor.render.toList ++ rest := by
  have hparameters {input between : List Char} {types : List FieldType} :
      many FieldType.reader input = some (types, between) ↔ _ :=
    many_eq_some_iff toList_render_ne_nil FieldType.reader_eq_some_iff
  constructor
  · intro h
    obtain ⟨_, afterOpen, hopen, h⟩ := bind_eq_some_iff.1 h
    obtain ⟨parameters, afterParameters, hread, h⟩ := bind_eq_some_iff.1 h
    obtain ⟨_, afterClose, hclose, h⟩ := bind_eq_some_iff.1 h
    obtain ⟨result, afterResult, hresult, h⟩ := bind_eq_some_iff.1 h
    obtain ⟨rfl, rfl⟩ := pure_eq_some_iff.1 h
    obtain rfl := token_eq_some_iff.1 hopen
    obtain ⟨hwritable, rfl, -⟩ := hparameters.1 hread
    obtain rfl := token_eq_some_iff.1 hclose
    obtain ⟨hwritableResult, rfl⟩ := returnReader_eq_some_iff.1 hresult
    refine ⟨⟨hwritable, hwritableResult⟩, ?_⟩
    simp [toList_render]
  · rintro ⟨⟨hwritable, hwritableResult⟩, rfl⟩
    have hread := hparameters.2
      ⟨hwritable, rfl, reader_close ((renderResult descriptor.result).toList ++ rest)⟩
    have hresult : returnReader ((renderResult descriptor.result).toList ++ rest) = some (_, rest) :=
      returnReader_eq_some_iff.2 ⟨hwritableResult, rfl⟩
    rw [toList_render, List.cons_append, List.append_assoc, List.cons_append, reader,
      bind_of_some (token_cons _ _), bind_of_some hread, bind_of_some (token_cons _ _),
      bind_of_some hresult]
    rfl

/-- The classes that the parameters name stand before the one that the result names. -/
theorem referencedClasses_eq (descriptor : MethodDescriptor) :
    descriptor.referencedClasses =
      descriptor.parameters.filterMap elementClass? ++ descriptor.result.toList.filterMap elementClass? :=
  List.filterMap_append

/-- A text is read as a type, a method descriptor or a result just if it is what is written for it, so that
reading and writing are inverse to each other. The classes that a method descriptor names are those below
the array dimensions of its parameters and then of its result. -/
theorem parse?_exact :
    (∀ text type, FieldType.parse? text = some type ↔ type.Writable ∧ text = type.render) ∧
    (∀ text descriptor, parse? text = some descriptor ↔
      descriptor.Writable ∧ text = descriptor.render) ∧
    (∀ (text rest : String) result, returnReader text.toList = some (result, rest.toList) ↔
      (∀ type ∈ result, type.Writable) ∧ text = renderResult result ++ rest) ∧
    (∀ descriptor : MethodDescriptor, descriptor.referencedClasses =
      descriptor.parameters.filterMap elementClass? ++ descriptor.result.toList.filterMap elementClass?) ∧
    ∀ (type : FieldType) (named : ClassName), type.elementClass? = some named ↔
      ∃ dimensions name, type = arrayOf dimensions (object name) ∧ named = .ofText name := by
  refine ⟨fun text type => ?_, fun text descriptor => ?_, fun text rest result => ?_,
    referencedClasses_eq, fun type named => elementClass?_eq_some_iff⟩
  · rw [FieldType.parse?, parse?_eq_some_iff, FieldType.reader_eq_some_iff, List.append_nil,
      String.toList_inj]
  · rw [parse?, parse?_eq_some_iff, reader_eq_some_iff, List.append_nil, String.toList_inj]
  · rw [returnReader_eq_some_iff, ← String.toList_append, String.toList_inj]

end MethodDescriptor

end LinkCheck
