import LinkCheck.Proofs.TypeParameters

/-!
# Signatures of classes and methods

The signature of a class or a method is read, and its classes are those that it mentions, unless a type
parameter without bounds is read together with the one after it.

## Main definitions

- `Grammar.ReadsOn` — how a declaration is read after its type parameters

## Main results

- `Grammar.ReadsOn.parse?_map_eq_some_iff` — a declaration is read as it is written if none of its type
  parameters swallows another, and only then
- `Grammar.declarations_classes_iff` — which signatures are read with the classes that they mention
-/

namespace LinkCheck.Grammar

open TextReader Signature

theorem not_spoiled_nil : ¬ Spoiled [] := by
  rintro ⟨name, hmem, -⟩
  exact absurd hmem List.not_mem_nil

theorem not_spoiled_append {names others : List ClassName} (h : ¬ Spoiled names)
    (hothers : ¬ Spoiled others) : ¬ Spoiled (names ++ others) := by
  rw [spoiled_append_iff]
  exact not_or.2 ⟨h, hothers⟩

theorem not_spoiled_flatMap {α : Type} {mentions : α → List ClassName} (h : ∀ item, ¬ Spoiled (mentions item))
    (items : List α) : ¬ Spoiled (items.flatMap mentions) := by
  induction items with
  | nil => exact not_spoiled_nil
  | cons item items ih =>
    rw [List.flatMap_cons]
    exact not_spoiled_append (h item) ih

theorem not_spoiled_binaryName (package : List Identifier) (outermost : Identifier)
    (inner : List SimpleClass) : ¬ Spoiled [⟨String.ofList (binaryChars package outermost inner)⟩] := by
  rintro ⟨name, hmem, hcolon⟩
  rw [List.mem_singleton.1 hmem, String.toList_ofList] at hcolon
  exact not_mem_binaryChars (by decide : ':' ∈ dividers) (by decide) package outermost inner hcolon

mutual

theorem SimpleClass.not_spoiled_mentions (form : SimpleClass) : ¬ Spoiled form.mentions := by
  cases form with
  | mk name arguments =>
    rw [SimpleClass.mentions]
    exact Argument.not_spoiled_listMentions arguments

theorem SimpleClass.not_spoiled_listMentions (forms : List SimpleClass) :
    ¬ Spoiled (SimpleClass.listMentions forms) := by
  cases forms with
  | nil =>
    rw [SimpleClass.listMentions]
    exact not_spoiled_nil
  | cons form forms =>
    rw [SimpleClass.listMentions]
    exact not_spoiled_append (SimpleClass.not_spoiled_mentions form)
      (SimpleClass.not_spoiled_listMentions forms)

theorem ClassForm.not_spoiled_mentions (form : ClassForm) : ¬ Spoiled form.mentions := by
  cases form with
  | mk package outermost inner =>
    rw [ClassForm.mentions]
    exact not_spoiled_append (not_spoiled_binaryName package outermost.name inner)
      (not_spoiled_append (SimpleClass.not_spoiled_mentions outermost)
        (SimpleClass.not_spoiled_listMentions inner))

theorem Reference.not_spoiled_mentions (form : Reference) : ¬ Spoiled form.mentions := by
  cases form with
  | ofClass form =>
    rw [Reference.mentions]
    exact ClassForm.not_spoiled_mentions form
  | typeVariable name =>
    rw [Reference.mentions]
    exact not_spoiled_nil
  | array element =>
    rw [Reference.mentions]
    exact AnyType.not_spoiled_mentions element

theorem AnyType.not_spoiled_mentions (form : AnyType) : ¬ Spoiled form.mentions := by
  cases form with
  | base type =>
    rw [AnyType.mentions]
    exact not_spoiled_nil
  | reference form =>
    rw [AnyType.mentions]
    exact Reference.not_spoiled_mentions form

theorem Argument.not_spoiled_mentions (argument : Argument) : ¬ Spoiled argument.mentions := by
  cases argument with
  | wildcard =>
    rw [Argument.mentions]
    exact not_spoiled_nil
  | bounded variance bound =>
    rw [Argument.mentions]
    exact Reference.not_spoiled_mentions bound

theorem Argument.not_spoiled_listMentions (arguments : List Argument) :
    ¬ Spoiled (Argument.listMentions arguments) := by
  cases arguments with
  | nil =>
    rw [Argument.listMentions]
    exact not_spoiled_nil
  | cons argument arguments =>
    rw [Argument.listMentions]
    exact not_spoiled_append (Argument.not_spoiled_mentions argument)
      (Argument.not_spoiled_listMentions arguments)

end

theorem Parameter.not_spoiled_mentions (parameter : Parameter) : ¬ Spoiled parameter.mentions :=
  not_spoiled_append (not_spoiled_flatMap Reference.not_spoiled_mentions _)
    (not_spoiled_flatMap Reference.not_spoiled_mentions _)

theorem Thrown.not_spoiled_mentions (thrown : Thrown) : ¬ Spoiled thrown.mentions := by
  cases thrown with
  | ofClass form => exact form.not_spoiled_mentions
  | typeVariable name => exact not_spoiled_nil

variable {depth : Nat}

/-- How a declaration is read once its type parameters have been read. -/
structure ReadsOn {α : Type} (next : Option (List TypeParameter) → TextReader α)
    (view : α → List ClassName) (tail : List Char) (mentions : List ClassName) : Prop where
  /-- What stands after the type parameters is read to its end. -/
  reads : ∀ found, ∃ tree, view tree = (found.getD []).flatMap TypeParameter.classes ++ mentions ∧
    next found tail = some (tree, [])
  /-- Nothing is read from type parameters that are still there. -/
  fails : ∀ found input, input.head? = some '<' → next found input = none
  /-- The classes of the type parameters are among those of the declaration. -/
  keeps : ∀ found input tree rest, next found input = some (tree, rest) →
    ∀ name ∈ (found.getD []).flatMap TypeParameter.classes, name ∈ view tree

theorem ReadsOn.head?_ne {α : Type} {next : Option (List TypeParameter) → TextReader α}
    {view : α → List ClassName} {tail : List Char} {mentions : List ClassName}
    (h : ReadsOn next view tail mentions) : tail.head? ≠ some '<' := by
  intro hhead
  obtain ⟨tree, -, hread⟩ := h.reads none
  rw [h.fails none tail hhead] at hread
  cases hread

/-- A declaration is read with the classes that it mentions if none of its type parameters swallows another,
and only then. -/
theorem ReadsOn.parse?_map_eq_some_iff {α : Type} {next : Option (List TypeParameter) → TextReader α}
    {view : α → List ClassName} {tail : List Char} {mentions : List ClassName}
    (h : ReadsOn next view tail mentions) {parameters : List Parameter} (htail : Settled tail)
    (hdepth : 4 * (Parameter.listChars parameters ++ tail).length ≤ depth) (hclear : ¬ Spoiled mentions) :
    (TextReader.parse? (TextReader.optional (typeParameters depth) >>= next)
        (String.ofList (Parameter.listChars parameters ++ tail))).map view =
      some (parameters.flatMap Parameter.mentions ++ mentions) ↔ ¬ Swallows parameters tail := by
  rw [TextReader.parse?_map_eq_some_iff]
  constructor
  · rintro ⟨tree, hview, hread⟩ hswallows
    obtain ⟨found, rest, hfound, hnext⟩ := bind_eq_some_iff.1 hread
    -- A class with a colon in its name has been read, or the type parameters are still there.
    rcases spoiled_optional htail hdepth hswallows hfound with ⟨name, hmem, hcolon⟩ | hhead
    · have hspoiled : Spoiled (view tree) := ⟨name, h.keeps found rest tree [] hnext name hmem, hcolon⟩
      rw [hview] at hspoiled
      exact not_spoiled_append (not_spoiled_flatMap Parameter.not_spoiled_mentions _) hclear hspoiled
    · rw [h.fails found rest hhead] at hnext
      cases hnext
  · intro hnot
    obtain ⟨found, hclasses, hfound⟩ := optional_typeParameters htail h.head?_ne hdepth hnot
    obtain ⟨tree, hview, hread⟩ := h.reads found
    refine ⟨tree, ?_, ?_⟩
    · rw [hview, hclasses]
    · rw [bind_of_some hfound, hread]

/-- Reads the superclass and the interfaces of a class. -/
def supertypes (depth : Nat) (parameters : Option (List TypeParameter)) : TextReader ClassSignature := do
  let superclass ← classType depth
  let interfaces ← many (classType depth)
  return { parameters := parameters.getD [], superclass, interfaces }

theorem classSignature_eq (depth : Nat) :
    classSignature depth = TextReader.optional (typeParameters depth) >>= supertypes depth :=
  rfl

theorem parameters_of_supertypes {found : Option (List TypeParameter)} {input rest : List Char}
    {tree : ClassSignature} (h : supertypes depth found input = some (tree, rest)) :
    tree.parameters = found.getD [] := by
  obtain ⟨_, _, -, h⟩ := bind_eq_some_iff.1 h
  obtain ⟨_, _, -, h⟩ := bind_eq_some_iff.1 h
  obtain ⟨rfl, -⟩ := pure_eq_some_iff.1 h
  rfl

namespace ClassDeclaration

variable (declaration : ClassDeclaration)

theorem settled_supertypeChars : Settled declaration.supertypeChars :=
  .inr (declaration.superclass.closes_chars.append _)

theorem not_spoiled_supertypes :
    ¬ Spoiled (declaration.superclass.mentions ++ declaration.interfaces.flatMap ClassForm.mentions) :=
  not_spoiled_append declaration.superclass.not_spoiled_mentions
    (not_spoiled_flatMap ClassForm.not_spoiled_mentions _)

theorem readsOn_supertypes (hdepth : 4 * declaration.supertypeChars.length ≤ depth) :
    ReadsOn (supertypes depth) ClassSignature.classes declaration.supertypeChars
      (declaration.superclass.mentions ++ declaration.interfaces.flatMap ClassForm.mentions) := by
  refine ⟨fun found => ?_, fun found input hhead => ?_, fun found input tree rest hread name hname => ?_⟩
  · rw [supertypeChars, List.length_append] at hdepth
    obtain ⟨superclass, hsuperclass, hread⟩ := declaration.superclass.shows (by omega : _ ≤ depth)
    obtain ⟨interfaces, hinterfaces, hrepeats⟩ :=
      showsAll_of_depth declaration.interfaces 0 ClassForm.chars_ne_nil (by omega : _ ≤ depth)
        fun form h => form.shows h
    have hmany := hrepeats []
    rw [List.append_nil] at hmany
    refine ⟨⟨found.getD [], superclass, interfaces⟩, ?_, ?_⟩
    · rw [ClassSignature.classes, hsuperclass, hinterfaces, List.append_assoc]
    · rw [supertypeChars, supertypes, bind_of_some (hread _),
        bind_of_some (many_of_repeats hmany (classType_of_head?_ne (by simp)))]
      rfl
  · exact bind_of_none (classType_of_head?_ne (by simp [hhead]))
  · rw [ClassSignature.classes, List.append_assoc, parameters_of_supertypes hread]
    exact List.mem_append_left _ hname

theorem parse?_classes_iff :
    (ClassSignature.parse? (String.ofList declaration.chars)).map ClassSignature.classes =
      some declaration.mentions ↔ ¬ Swallows declaration.parameters declaration.supertypeChars := by
  rw [ClassSignature.parse?, classSignature_eq, depthFor_ofList, chars, mentions]
  refine ReadsOn.parse?_map_eq_some_iff (declaration.readsOn_supertypes ?_)
    declaration.settled_supertypeChars (by omega) declaration.not_spoiled_supertypes
  rw [List.length_append]
  omega

/-- A semicolon stands in every class type, so that it is always there to swallow up to. -/
theorem swallows_iff :
    Swallows declaration.parameters declaration.supertypeChars ↔
      ∃ before unbounded next others, declaration.parameters = before ++ unbounded :: next :: others ∧
        unbounded.Boundless ∧ next.name.chars.head? = some 'L' := by
  have hmem (parameters : List Parameter) : ';' ∈ Parameter.listed parameters declaration.supertypeChars := by
    obtain ⟨run, arguments, inner, rest, -, hchars⟩ := declaration.superclass.closes_chars
    simp [Parameter.listed, supertypeChars, hchars]
  simp only [Swallows, hmem, and_true]

end ClassDeclaration

/-- Reads the arguments, the result and the throws clauses of a method. -/
def methodTypes (depth : Nat) (parameters : Option (List TypeParameter)) : TextReader MethodSignature := do
  token '('
  let arguments ← many (javaType depth)
  token ')'
  let result ← resultType depth
  let throwsTypes ← many (throwsType depth)
  return { parameters := parameters.getD [], arguments, result, throwsTypes }

theorem methodSignature_eq (depth : Nat) :
    methodSignature depth = TextReader.optional (typeParameters depth) >>= methodTypes depth :=
  rfl

theorem parameters_of_methodTypes {found : Option (List TypeParameter)} {input rest : List Char}
    {tree : MethodSignature} (h : methodTypes depth found input = some (tree, rest)) :
    tree.parameters = found.getD [] := by
  obtain ⟨_, _, -, h⟩ := bind_eq_some_iff.1 h
  obtain ⟨_, _, -, h⟩ := bind_eq_some_iff.1 h
  obtain ⟨_, _, -, h⟩ := bind_eq_some_iff.1 h
  obtain ⟨_, _, -, h⟩ := bind_eq_some_iff.1 h
  obtain ⟨_, _, -, h⟩ := bind_eq_some_iff.1 h
  obtain ⟨rfl, -⟩ := pure_eq_some_iff.1 h
  rfl

/-- No type starts where no reference type starts and no letter stands for a base type. -/
theorem javaType_of_none {input : List Char} (h : ∀ c ∈ ['L', 'T', '['], input.head? ≠ some c)
    (hbase : BaseType.reader input = none) : javaType depth input = none := by
  cases depth with
  | zero =>
    rw [javaType]
    rfl
  | succ depth =>
    rw [javaType, orElse_of_none (bind_of_none (referenceType_of_head?_ne h))]
    exact bind_of_none hbase

theorem shows_result (result : Option AnyType)
    (hdepth : 4 * (MethodDeclaration.resultChars result).length + 2 ≤ depth) :
    Shows (resultType depth) (fun found => found.toList.flatMap JavaType.classes)
      (MethodDeclaration.resultChars result) (result.toList.flatMap AnyType.mentions) := by
  cases result with
  | none =>
    refine ⟨none, rfl, fun rest => ?_⟩
    have hnone : javaType depth ('V' :: rest) = none := javaType_of_none (by simp) rfl
    exact (orElse_of_none (bind_of_none hnone)).trans (bind_of_some (token_cons _ _))
  | some form =>
    obtain ⟨tree, hclasses, hread⟩ := form.shows hdepth
    refine ⟨some tree, by simpa using hclasses, fun rest => ?_⟩
    exact orElse_of_some (bind_of_some (hread rest))

theorem Thrown.shows (thrown : Thrown) (hdepth : 4 * thrown.chars.length ≤ depth) :
    Shows (throwsType depth) ThrowsType.classes thrown.chars thrown.mentions := by
  cases thrown with
  | ofClass form =>
    rw [chars, List.length_cons] at hdepth
    obtain ⟨tree, hclasses, hread⟩ := form.shows (by omega : _ ≤ depth)
    refine ⟨.ofClass tree, hclasses, fun rest => ?_⟩
    rw [chars, List.cons_append, throwsType, bind_of_some (token_cons _ _)]
    exact orElse_of_some (bind_of_some (hread rest))
  | typeVariable name =>
    refine ⟨.typeVariable (String.ofList name.chars), rfl, fun rest => ?_⟩
    rw [chars, List.cons_append, List.cons_append, List.append_assoc, List.singleton_append, throwsType,
      bind_of_some (token_cons _ _), orElse_of_none (bind_of_none (classType_of_head?_ne (by simp))),
      bind_of_some (typeVariable_append name rest)]
    rfl

theorem Thrown.settled_chars (thrown : Thrown) : Settled thrown.chars := by
  cases thrown with
  | ofClass form => exact .cons (by decide) (.inr form.closes_chars)
  | typeVariable name => exact .cons (by decide) (.inr (closes_typeVariable name))

theorem Thrown.chars_ne_nil (thrown : Thrown) : thrown.chars ≠ [] := by
  cases thrown <;> exact List.cons_ne_nil _ _

namespace MethodDeclaration

theorem settled_resultChars (result : Option AnyType) : Settled (resultChars result) := by
  cases result with
  | none => exact .inl (by simp [Bare, resultChars]; decide)
  | some form => exact form.settled_chars

variable (declaration : MethodDeclaration)

theorem settled_typeChars : Settled declaration.typeChars :=
  .cons (by decide) (.append (settled_flatMap AnyType.settled_chars _)
    (.cons (by decide) (.append (settled_resultChars _) (settled_flatMap Thrown.settled_chars _))))

theorem not_spoiled_types :
    ¬ Spoiled (declaration.arguments.flatMap AnyType.mentions ++
      (declaration.result.toList.flatMap AnyType.mentions ++
        declaration.throwables.flatMap Thrown.mentions)) :=
  not_spoiled_append (not_spoiled_flatMap AnyType.not_spoiled_mentions _)
    (not_spoiled_append (not_spoiled_flatMap AnyType.not_spoiled_mentions _)
      (not_spoiled_flatMap Thrown.not_spoiled_mentions _))

theorem readsOn_types (hdepth : 4 * declaration.typeChars.length ≤ depth) :
    ReadsOn (methodTypes depth) MethodSignature.classes declaration.typeChars
      (declaration.arguments.flatMap AnyType.mentions ++
        (declaration.result.toList.flatMap AnyType.mentions ++
          declaration.throwables.flatMap Thrown.mentions)) := by
  refine ⟨fun found => ?_, fun found input hhead => ?_, fun found input tree rest hread name hname => ?_⟩
  · simp only [typeChars, List.length_append, List.length_cons] at hdepth
    obtain ⟨arguments, harguments, hargument⟩ :=
      showsAll_of_depth declaration.arguments 2 AnyType.chars_ne_nil (by omega : _ ≤ depth)
        fun form h => form.shows h
    obtain ⟨result, hresult, hreadResult⟩ := shows_result declaration.result (by omega : _ ≤ depth)
    obtain ⟨throwsTypes, hthrowsTypes, hthrown⟩ :=
      showsAll_of_depth declaration.throwables 0 Thrown.chars_ne_nil (by omega : _ ≤ depth)
        fun thrown h => thrown.shows h
    have hclose (rest : List Char) : javaType depth (')' :: rest) = none := javaType_of_none (by simp) rfl
    have hmany := hthrown []
    rw [List.append_nil] at hmany
    refine ⟨⟨found.getD [], arguments, result, throwsTypes⟩, ?_, ?_⟩
    · simp only [MethodSignature.classes, List.flatMap_append, harguments, hresult, hthrowsTypes,
        List.append_assoc]
    · rw [typeChars, methodTypes, bind_of_some (token_cons _ _),
        bind_of_some (many_of_repeats (hargument _) (hclose _)), bind_of_some (token_cons _ _),
        bind_of_some (hreadResult _),
        bind_of_some (many_of_repeats hmany (bind_of_none (token_of_head?_ne (by simp))))]
      rfl
  · exact bind_of_none (token_of_head?_ne (by simp [hhead]))
  · rw [MethodSignature.classes, List.append_assoc, parameters_of_methodTypes hread]
    exact List.mem_append_left _ hname

theorem parse?_classes_iff :
    (MethodSignature.parse? (String.ofList declaration.chars)).map MethodSignature.classes =
      some declaration.mentions ↔ ¬ Swallows declaration.parameters declaration.typeChars := by
  rw [MethodSignature.parse?, methodSignature_eq, depthFor_ofList, chars, mentions]
  refine ReadsOn.parse?_map_eq_some_iff (declaration.readsOn_types ?_) declaration.settled_typeChars (by omega)
    declaration.not_spoiled_types
  rw [List.length_append]
  omega

end MethodDeclaration

/-- The signature of a class or a method is read with the classes that it mentions, unless a type parameter
without bounds stands before one whose name starts with an `L`. What follows the colon of the former is then
read as a class type up to the next semicolon. In the signature of a class there always is a semicolon; in that
of a method there may be none, and then it is read as it is written. -/
theorem declarations_classes_iff (declaration : ClassDeclaration) (method : MethodDeclaration) :
    ((ClassSignature.parse? (String.ofList declaration.chars)).map ClassSignature.classes =
        some declaration.mentions ↔
      ¬ ∃ before unbounded next others, declaration.parameters = before ++ unbounded :: next :: others ∧
        unbounded.Boundless ∧ next.name.chars.head? = some 'L') ∧
    ((MethodSignature.parse? (String.ofList method.chars)).map MethodSignature.classes =
        some method.mentions ↔
      ¬ Swallows method.parameters method.typeChars) := by
  refine ⟨?_, method.parse?_classes_iff⟩
  rw [← declaration.swallows_iff]
  exact declaration.parse?_classes_iff

/-- The class type `Ljava/lang/Object;`. -/
def objectForm : ClassForm :=
  .mk
    [⟨['j', 'a', 'v', 'a'], by simp, by simp [dividers]⟩, ⟨['l', 'a', 'n', 'g'], by simp, by simp [dividers]⟩]
    (.mk ⟨['O', 'b', 'j', 'e', 'c', 't'], by simp, by simp [dividers]⟩ []) []

/-- A class whose type parameter `A` has no bounds and stands before a type parameter `LB`. -/
def boundlessBefore : ClassDeclaration where
  parameters := [⟨⟨['A'], by simp, by simp [dividers]⟩, none, []⟩,
    ⟨⟨['L', 'B'], by simp, by simp [dividers]⟩, some (.ofClass objectForm), []⟩]
  superclass := objectForm
  interfaces := []

/-- Its signature is read with a class that it does not mention. -/
theorem boundlessBefore_classes :
    String.ofList boundlessBefore.chars = "<A:LB:Ljava/lang/Object;>Ljava/lang/Object;" ∧
      boundlessBefore.mentions = [⟨"java/lang/Object"⟩, ⟨"java/lang/Object"⟩] ∧
      (ClassSignature.parse? "<A:LB:Ljava/lang/Object;>Ljava/lang/Object;").map ClassSignature.classes =
        some [⟨"B:Ljava/lang/Object"⟩, ⟨"java/lang/Object"⟩] := by
  decide +kernel

end LinkCheck.Grammar
