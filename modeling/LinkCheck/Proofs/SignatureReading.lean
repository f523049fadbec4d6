import LinkCheck.Proofs.ClassFilePaths
import LinkCheck.Proofs.SignatureGrammar
import LinkCheck.Proofs.TextReading

/-!
# Types in signatures that are read

Every type of the grammar is read from its text, and the classes of what is read are those that it mentions.

## Main definitions

- `Grammar.Shows`, `Grammar.ShowsAll` — a reader reads just some text, and what it reads looks as given

## Main results

- `Grammar.classType_shows` — a class type is read, whatever its outermost name is made of
- `Grammar.ClassForm.shows`, `Grammar.Reference.shows`, `Grammar.AnyType.shows` — types are read
- `Grammar.Reference.parse?_classes` — the classes of a field's signature
-/

namespace LinkCheck.Grammar

open TextReader Signature

theorem isIdentifierChar_iff {c : Char} : isIdentifierChar c = true ↔ c ∉ dividers :=
  decide_eq_true_iff

/-- The characters of a name may also stand in the name of an outermost class. -/
theorem isClassNameChar_of_undivided {c : Char} (h : c ∉ dividers) : isClassNameChar c = true := by
  refine decide_eq_true fun hmem => h ?_
  have hsubset : ['<', ';', '.'] ⊆ dividers := by decide
  exact hsubset hmem

/-- A name is read up to a character that divides. -/
theorem identifier_append (name : Identifier) (rest : List Char)
    (h : ∀ c ∈ rest.head?, c ∈ dividers) :
    identifier (name.chars ++ rest) = some (String.ofList name.chars, rest) := by
  refine takeWhile1_append name.nonempty (fun c hc => isIdentifierChar_iff.2 (name.undivided c hc)) rest ?_
  intro c hc
  rw [← Bool.not_eq_true, isIdentifierChar_iff]
  exact fun hnot => hnot (h c hc)

theorem identifier_of_head? {input : List Char} (h : ∀ c ∈ input.head?, c ∈ dividers) :
    identifier input = none := by
  refine takeWhile1_of_head? fun c hc => ?_
  rw [← Bool.not_eq_true, isIdentifierChar_iff]
  exact fun hnot => hnot (h c hc)

/-- The name of an outermost class may have slashes for its package. -/
theorem isClassNameChar_packageChars (package : List Identifier) (name : Identifier) :
    ∀ c ∈ packageChars package ++ name.chars, isClassNameChar c = true := by
  intro c hc
  rcases List.mem_append.1 hc with hc | hc
  · obtain ⟨segment, -, hc⟩ := List.mem_flatMap.1 hc
    rcases List.mem_append.1 hc with hc | hc
    · exact isClassNameChar_of_undivided (segment.undivided c hc)
    · rw [List.mem_singleton.1 hc]
      decide
  · exact isClassNameChar_of_undivided (name.undivided c hc)

variable {depth : Nat} {input : List Char}

theorem classType_of_head?_ne (h : input.head? ≠ some 'L') : classType depth input = none := by
  cases depth with
  | zero =>
    rw [classType]
    rfl
  | succ depth =>
    rw [classType]
    exact bind_of_none (token_of_head?_ne h)

theorem typeArguments_of_head?_ne (h : input.head? ≠ some '<') : typeArguments depth input = none := by
  cases depth with
  | zero =>
    rw [typeArguments]
    rfl
  | succ depth =>
    rw [typeArguments]
    exact bind_of_none (token_of_head?_ne h)

theorem typeVariable_of_head?_ne (h : input.head? ≠ some 'T') : typeVariable input = none :=
  bind_of_none (token_of_head?_ne h)

/-- A reference type is a class type, a type variable or an array, and nothing else. -/
theorem referenceType_of_none (hclass : ∀ below, classType below input = none)
    (hvariable : typeVariable input = none) (harray : input.head? ≠ some '[') :
    referenceType depth input = none := by
  cases depth with
  | zero =>
    rw [referenceType]
    rfl
  | succ depth =>
    rw [referenceType, orElse_of_none (bind_of_none (hclass depth)),
      orElse_of_none (bind_of_none hvariable)]
    exact bind_of_none (token_of_head?_ne harray)

theorem referenceType_of_head?_ne (h : ∀ c ∈ ['L', 'T', '['], input.head? ≠ some c) :
    referenceType depth input = none :=
  referenceType_of_none (fun _ => classType_of_head?_ne (h 'L' (by decide)))
    (typeVariable_of_head?_ne (h 'T' (by decide))) (h '[' (by decide))

/-- No type argument starts where the brackets close. -/
theorem typeArgument_close (rest : List Char) : typeArgument depth ('>' :: rest) = none := by
  cases depth with
  | zero =>
    rw [typeArgument]
    rfl
  | succ depth =>
    have hnone : referenceType depth ('>' :: rest) = none := referenceType_of_head?_ne (by simp)
    rw [typeArgument, orElse_of_none (bind_of_none (token_of_head?_ne (by simp))),
      bind_of_some (optional_of_none rfl)]
    exact bind_of_none hnone

section

variable {α β γ : Type} {reader : TextReader α} {view : α → β} {text : List Char} {seen : β}

/-- A reader takes just some text, whatever follows it, and what it reads looks as given. -/
def Shows (reader : TextReader α) (view : α → β) (text : List Char) (seen : β) : Prop :=
  ∃ tree, view tree = seen ∧ ∀ rest, reader (text ++ rest) = some (tree, rest)

/-- A reader takes just some text in repetition, and what it reads mentions the given classes. -/
def ShowsAll (reader : TextReader α) (classes : α → List ClassName) (text : List Char)
    (mentions : List ClassName) : Prop :=
  ∃ trees, trees.flatMap classes = mentions ∧ ∀ rest, Repeats reader (text ++ rest) trees rest

variable {classes : α → List ClassName} {others : List Char} {mentions more : List ClassName}

theorem showsAll_nil : ShowsAll reader classes [] [] :=
  ⟨[], rfl, fun _ => .nil⟩

theorem Shows.cons_all (hne : text ≠ []) (h : Shows reader classes text mentions)
    (hothers : ShowsAll reader classes others more) :
    ShowsAll reader classes (text ++ others) (mentions ++ more) := by
  obtain ⟨tree, rfl, hread⟩ := h
  obtain ⟨trees, rfl, hrepeats⟩ := hothers
  refine ⟨tree :: trees, rfl, fun rest => ?_⟩
  have hfirst := hread (others ++ rest)
  rw [← List.append_assoc] at hfirst
  refine .cons hfirst ?_ (hrepeats rest)
  have hpos := List.length_pos_iff.2 hne
  simp only [List.length_append]
  omega

theorem showsAll_flatMap {items : List γ} {chars : γ → List Char} {listed : γ → List ClassName}
    (hne : ∀ item, chars item ≠ [])
    (h : ∀ item ∈ items, Shows reader classes (chars item) (listed item)) :
    ShowsAll reader classes (items.flatMap chars) (items.flatMap listed) := by
  induction items with
  | nil => exact showsAll_nil
  | cons item items ih =>
    obtain ⟨hfirst, hothers⟩ := List.forall_mem_cons.1 h
    rw [List.flatMap_cons, List.flatMap_cons]
    exact hfirst.cons_all (hne item) (ih hothers)

theorem length_chars_le (chars : γ → List Char) {item : γ} {items : List γ} (h : item ∈ items) :
    (chars item).length ≤ (items.flatMap chars).length := by
  obtain ⟨before, after, rfl⟩ := List.append_of_mem h
  simp only [List.flatMap_append, List.flatMap_cons, List.length_append]
  omega

/-- What is read at a depth that fits its length is read in repetition at one that fits the whole. -/
theorem showsAll_of_depth (items : List γ) (slack : Nat) {chars : γ → List Char}
    {listed : γ → List ClassName} {depth : Nat} (hne : ∀ item, chars item ≠ [])
    (hdepth : 4 * (items.flatMap chars).length + slack ≤ depth)
    (h : ∀ item, 4 * (chars item).length + slack ≤ depth → Shows reader classes (chars item) (listed item)) :
    ShowsAll reader classes (items.flatMap chars) (items.flatMap listed) := by
  refine showsAll_flatMap hne fun item hitem => h item ?_
  have hlength := length_chars_le chars hitem
  omega

end

theorem listClasses_eq (arguments : List TypeArgument) :
    TypeArgument.listClasses arguments = arguments.flatMap TypeArgument.classes := by
  induction arguments with
  | nil => rw [TypeArgument.listClasses, List.flatMap_nil]
  | cons argument arguments ih => rw [TypeArgument.listClasses, ih, List.flatMap_cons]

/-- Where there are type arguments they are read, and otherwise nothing is read. -/
def ShowsArguments (depth : Nat) (arguments : List Argument) : Prop :=
  ∃ found : Option (List TypeArgument),
    TypeArgument.listClasses (found.getD []) = Argument.listMentions arguments ∧
      ∀ rest : List Char, rest.head? ≠ some '<' →
        TextReader.optional (typeArguments depth)
          (bracketed arguments (Argument.listChars arguments) ++ rest) = some (found, rest)

/-- Type arguments are read in their brackets if each of them is read at a depth that is left there. -/
theorem showsArguments_of_all {arguments : List Argument}
    (hdepth : 4 * (bracketed arguments (Argument.listChars arguments)).length ≤ depth)
    (h : ∀ below, 4 * (Argument.listChars arguments).length + 2 ≤ below →
      ShowsAll (typeArgument below) TypeArgument.classes (Argument.listChars arguments)
        (Argument.listMentions arguments)) : ShowsArguments depth arguments := by
  cases arguments with
  | nil =>
    refine ⟨none, ?_, fun rest hrest => ?_⟩
    · rw [Option.getD_none, TypeArgument.listClasses, Argument.listMentions]
    · rw [bracketed_nil, List.nil_append, optional_of_none (typeArguments_of_head?_ne hrest)]
  | cons argument arguments =>
    rw [bracketed_cons, List.length_cons, List.length_append] at hdepth
    obtain ⟨below, rfl⟩ : ∃ below, depth = below + 1 := ⟨depth - 1, by omega⟩
    obtain ⟨trees, hmentions, hrepeats⟩ := h below (by omega)
    refine ⟨some trees, ?_, fun rest _ => optional_of_some ?_⟩
    · rw [Option.getD_some, listClasses_eq, hmentions]
    · have hne : Argument.listChars (argument :: arguments) ≠ [] := by
        rw [Argument.listChars]
        exact List.append_ne_nil_of_left_ne_nil argument.chars_ne_nil _
      have hmany := many1_of_repeats (hrepeats ('>' :: rest)) (by simpa using hne) (typeArgument_close rest)
      rw [bracketed_cons, List.cons_append, List.append_assoc, List.singleton_append, typeArguments,
        bind_of_some (token_cons _ _), bind_of_some hmany, bind_of_some (token_cons _ _)]
      rfl

/-- Reads the name of an inner class after its dot, with its type arguments. -/
def innerClass (depth : Nat) : TextReader (String × List TypeArgument) := do
  token '.'
  let name ← identifier
  let arguments ← TextReader.optional (typeArguments depth)
  return (name, arguments.getD [])

theorem classType_succ (depth : Nat) : classType (depth + 1) = do
    token 'L'
    let name ← takeWhile1 isClassNameChar
    let arguments ← TextReader.optional (typeArguments depth)
    let names ← many (innerClass depth)
    token ';'
    return nest (.outer name (arguments.getD [])) names := by
  rw [classType]
  rfl

/-- Inner classes are read up to the semicolon. -/
def ShowsInner (depth : Nat) (inner : List SimpleClass) : Prop :=
  ∃ names : List (String × List TypeArgument),
    names.map Prod.fst = inner.map (fun form => String.ofList form.name.chars) ∧
      names.flatMap (fun named => TypeArgument.listClasses named.2) = SimpleClass.listMentions inner ∧
      ∀ rest : List Char,
        Repeats (innerClass depth) (SimpleClass.listChars inner ++ ';' :: rest) names (';' :: rest)

theorem showsInner_nil : ShowsInner depth [] := by
  refine ⟨[], rfl, ?_, fun rest => ?_⟩
  · rw [SimpleClass.listMentions, List.flatMap_nil]
  · rw [SimpleClass.listChars, List.nil_append]
    exact .nil

/-- After the type arguments of a class stands an inner class or the semicolon. -/
theorem head?_inner {inner : List SimpleClass} {rest : List Char} {c : Char}
    (h : c ∈ (SimpleClass.listChars inner ++ ';' :: rest).head?) : c = '.' ∨ c = ';' := by
  cases inner with
  | nil =>
    rw [SimpleClass.listChars] at h
    exact .inr (Option.some.inj h).symm
  | cons form inner =>
    rw [SimpleClass.listChars] at h
    exact .inl (Option.some.inj h).symm

theorem head?_inner_ne (inner : List SimpleClass) (rest : List Char) :
    (SimpleClass.listChars inner ++ ';' :: rest).head? ≠ some '<' := by
  intro h
  rcases head?_inner h with hdot | hend
  · exact absurd hdot (by decide)
  · exact absurd hend (by decide)

/-- After the name of a class stand its type arguments, or what stands after these. -/
theorem head?_bracketed {α : Type} {items : List α} {text rest : List Char} {c : Char}
    (h : c ∈ (bracketed items text ++ rest).head?) : c = '<' ∨ c ∈ rest.head? := by
  cases items with
  | nil => exact .inr h
  | cons item items => exact .inl (Option.some.inj h).symm

theorem ShowsInner.cons {name : Identifier} {arguments : List Argument} {inner : List SimpleClass}
    (h : ShowsArguments depth arguments) (hinner : ShowsInner depth inner) :
    ShowsInner depth (.mk name arguments :: inner) := by
  obtain ⟨found, hfound, hread⟩ := h
  obtain ⟨names, hnames, hmentions, hrepeats⟩ := hinner
  refine ⟨(String.ofList name.chars, found.getD []) :: names, ?_, ?_, fun rest => ?_⟩
  · rw [List.map_cons, List.map_cons, hnames]
    rfl
  · rw [List.flatMap_cons, hmentions, hfound, SimpleClass.listMentions, SimpleClass.mentions]
  · have hname := identifier_append name
      (bracketed arguments (Argument.listChars arguments) ++ (SimpleClass.listChars inner ++ ';' :: rest))
      (by
        intro c hc
        rcases head?_bracketed hc with rfl | hc
        · decide
        · rcases head?_inner hc with rfl | rfl <;> decide)
    have harguments := hread _ (head?_inner_ne inner rest)
    rw [SimpleClass.listChars, SimpleClass.chars, List.cons_append, List.append_assoc, List.append_assoc]
    refine .cons ?_ ?_ (hrepeats rest)
    · rw [innerClass, bind_of_some (token_cons _ _), bind_of_some hname, bind_of_some harguments]
      rfl
    · simp only [List.length_cons, List.length_append]
      omega

theorem binaryName_nest (outermost : ClassType) (names : List (String × List TypeArgument)) :
    (nest outermost names).binaryName =
      outermost.binaryName ++ String.join (names.map fun named => "$" ++ named.1) := by
  induction names generalizing outermost with
  | nil => simp [nest]
  | cons named names ih =>
    rw [nest, List.foldl_cons]
    change (nest (.inner outermost named.1 named.2) names).binaryName = _
    rw [ih, ClassType.binaryName, List.map_cons]
    simp [String.append_assoc]

theorem argumentClasses_nest (outermost : ClassType) (names : List (String × List TypeArgument)) :
    (nest outermost names).argumentClasses =
      outermost.argumentClasses ++ names.flatMap fun named => TypeArgument.listClasses named.2 := by
  induction names generalizing outermost with
  | nil => rw [List.flatMap_nil, List.append_nil, nest, List.foldl_nil]
  | cons named names ih =>
    rw [nest, List.foldl_cons]
    change (nest (.inner outermost named.1 named.2) names).argumentClasses = _
    rw [ih, ClassType.argumentClasses, List.flatMap_cons, List.append_assoc]

/-- A class type is read, whatever its outermost name is made of. -/
theorem classType_shows {run : List Char} {arguments : List Argument} {inner : List SimpleClass}
    (hne : run ≠ []) (hrun : ∀ c ∈ run, isClassNameChar c = true) (h : ShowsArguments depth arguments)
    (hinner : ShowsInner depth inner) :
    Shows (classType (depth + 1)) ClassType.classes
      ('L' :: (run ++ bracketed arguments (Argument.listChars arguments) ++
        SimpleClass.listChars inner ++ [';']))
      (.ofText (String.ofList (run ++ innerChars inner)) ::
        (Argument.listMentions arguments ++ SimpleClass.listMentions inner)) := by
  obtain ⟨found, hfound, hread⟩ := h
  obtain ⟨names, hnames, hmentions, hrepeats⟩ := hinner
  refine ⟨nest (.outer (String.ofList run) (found.getD [])) names, ?_, fun rest => ?_⟩
  · have hbinary : String.ofList run ++ String.join (names.map fun named => "$" ++ named.1) =
        String.ofList (run ++ innerChars inner) := by
      have hsplit : (names.map fun named => "$" ++ named.1) = (names.map Prod.fst).map ("$" ++ ·) := by
        rw [List.map_map]
        rfl
      apply String.toList_injective
      rw [hsplit, hnames]
      simp [innerChars, List.flatMap_def, Function.comp_def]
    rw [ClassType.classes, binaryName_nest, argumentClasses_nest, hmentions, ClassType.binaryName,
      ClassType.argumentClasses, hfound, hbinary]
  · have hname := takeWhile1_append hne hrun
      (bracketed arguments (Argument.listChars arguments) ++ (SimpleClass.listChars inner ++ ';' :: rest))
      (by
        intro c hc
        rcases head?_bracketed hc with rfl | hc
        · decide
        · rcases head?_inner hc with rfl | rfl <;> decide)
    have hend : innerClass depth (';' :: rest) = none := bind_of_none (token_of_head?_ne (by simp))
    rw [List.cons_append, List.append_assoc, List.append_assoc, List.append_assoc, List.singleton_append,
      classType_succ, bind_of_some (token_cons _ _), bind_of_some hname,
      bind_of_some (hread _ (head?_inner_ne inner rest)),
      bind_of_some (many_of_repeats (hrepeats rest) hend), bind_of_some (token_cons _ _)]
    rfl

/-- The class of a form is named as it is written, because its name has no dots. -/
theorem ClassForm.mentions_mk (package : List Identifier) (name : Identifier) (arguments : List Argument)
    (inner : List SimpleClass) :
    (ClassForm.mk package (.mk name arguments) inner).mentions =
      .ofText (String.ofList (packageChars package ++ name.chars ++ innerChars inner)) ::
        (Argument.listMentions arguments ++ SimpleClass.listMentions inner) := by
  have hundotted := not_mem_binaryChars (by decide : '.' ∈ dividers) (by decide) package name inner
  rw [ClassForm.mentions, SimpleClass.mentions, SimpleClass.name, ClassName.ofText_of_not_mem]
  · rfl
  · rwa [String.toList_ofList]

theorem typeVariable_append (name : Identifier) (rest : List Char) :
    typeVariable ('T' :: (name.chars ++ ';' :: rest)) = some (String.ofList name.chars, rest) := by
  have hname := identifier_append name (';' :: rest) (by
    rintro c ⟨⟩
    decide)
  rw [typeVariable, bind_of_some (token_cons _ _), bind_of_some hname, bind_of_some (token_cons _ _)]
  rfl

/-- A reference type starts with one of three characters. -/
theorem Reference.head?_chars_ne (form : Reference) (rest : List Char) {c : Char}
    (h : c ∉ ['L', 'T', '[']) : (form.chars ++ rest).head? ≠ some c := by
  cases form with
  | ofClass form =>
    cases form
    rw [Reference.chars, ClassForm.chars]
    rintro ⟨⟩
    exact h (by decide)
  | typeVariable name =>
    rw [Reference.chars]
    rintro ⟨⟩
    exact h (by decide)
  | array element =>
    rw [Reference.chars]
    rintro ⟨⟩
    exact h (by decide)

theorem optional_variance_sign (sign : Option Variance) (h : ∀ c ∈ ['+', '-'], input.head? ≠ some c) :
    TextReader.optional variance (signChars sign ++ input) = some (sign, input) := by
  cases sign with
  | none =>
    rw [signChars, List.nil_append]
    refine optional_of_none ?_
    unfold variance
    split
    · exact absurd rfl (h '+' (by decide))
    · exact absurd rfl (h '-' (by decide))
    · rfl
  | some sign => cases sign <;> rfl

section

variable {text : List Char} {mentions : List ClassName}

theorem shows_wildcard : Shows (typeArgument (depth + 1)) TypeArgument.classes ['*'] [] := by
  refine ⟨.wildcard, by rw [TypeArgument.classes], fun rest => ?_⟩
  rw [typeArgument]
  exact orElse_of_some (bind_of_some (token_cons '*' rest))

theorem Shows.bounded (sign : Option Variance) {form : Reference}
    (h : Shows (referenceType depth) ReferenceType.classes form.chars mentions) :
    Shows (typeArgument (depth + 1)) TypeArgument.classes (signChars sign ++ form.chars) mentions := by
  obtain ⟨tree, rfl, hread⟩ := h
  refine ⟨.bounded sign tree, by rw [TypeArgument.classes], fun rest => ?_⟩
  have hsign := optional_variance_sign sign fun c hc =>
    form.head?_chars_ne rest ((by simp : ∀ c ∈ ['+', '-'], c ∉ ['L', 'T', '[']) c hc)
  have hstar : (signChars sign ++ (form.chars ++ rest)).head? ≠ some '*' := by
    cases sign with
    | none => exact form.head?_chars_ne rest (by decide)
    | some sign => cases sign <;> simp [signChars]
  rw [List.append_assoc, typeArgument, orElse_of_none (bind_of_none (token_of_head?_ne hstar)),
    bind_of_some hsign, bind_of_some (hread rest)]
  rfl

theorem Shows.ofClass (h : Shows (classType depth) ClassType.classes text mentions) :
    Shows (referenceType (depth + 1)) ReferenceType.classes text mentions := by
  obtain ⟨tree, rfl, hread⟩ := h
  refine ⟨.ofClass tree, by rw [ReferenceType.classes, ClassType.classes], fun rest => ?_⟩
  rw [referenceType]
  exact orElse_of_some (bind_of_some (hread rest))

theorem shows_typeVariable (name : Identifier) :
    Shows (referenceType (depth + 1)) ReferenceType.classes ('T' :: (name.chars ++ [';'])) [] := by
  refine ⟨.typeVariable (String.ofList name.chars), by rw [ReferenceType.classes], fun rest => ?_⟩
  rw [List.cons_append, List.append_assoc, List.singleton_append, referenceType,
    orElse_of_none (bind_of_none (classType_of_head?_ne (by simp)))]
  exact orElse_of_some (bind_of_some (typeVariable_append name rest))

theorem Shows.array (h : Shows (javaType depth) JavaType.classes text mentions) :
    Shows (referenceType (depth + 1)) ReferenceType.classes ('[' :: text) mentions := by
  obtain ⟨tree, rfl, hread⟩ := h
  refine ⟨.array tree, by rw [ReferenceType.classes], fun rest => ?_⟩
  rw [List.cons_append, referenceType, orElse_of_none (bind_of_none (classType_of_head?_ne (by simp))),
    orElse_of_none (bind_of_none (typeVariable_of_head?_ne (by simp))), bind_of_some (token_cons _ _),
    bind_of_some (hread rest)]
  rfl

theorem shows_base (type : BaseType) :
    Shows (javaType (depth + 1)) JavaType.classes [type.code] [] := by
  refine ⟨.base type, by rw [JavaType.classes], fun rest => ?_⟩
  have hnone : referenceType depth (type.code :: rest) = none := by
    refine referenceType_of_head?_ne ?_
    cases type <;> simp [BaseType.code]
  have hread : BaseType.reader (type.code :: rest) = some (type, rest) := by
    cases type <;> rfl
  rw [List.singleton_append, javaType, orElse_of_none (bind_of_none hnone), bind_of_some hread]
  rfl

theorem Shows.reference (h : Shows (referenceType depth) ReferenceType.classes text mentions) :
    Shows (javaType (depth + 1)) JavaType.classes text mentions := by
  obtain ⟨tree, rfl, hread⟩ := h
  refine ⟨.reference tree, by rw [JavaType.classes], fun rest => ?_⟩
  rw [javaType]
  exact orElse_of_some (bind_of_some (hread rest))

end

mutual

theorem Argument.showsAll {depth : Nat} (arguments : List Argument)
    (h : 4 * (Argument.listChars arguments).length + 2 ≤ depth) :
    ShowsAll (typeArgument depth) TypeArgument.classes (Argument.listChars arguments)
      (Argument.listMentions arguments) := by
  cases arguments with
  | nil =>
    rw [Argument.listChars, Argument.listMentions]
    exact showsAll_nil
  | cons argument arguments =>
    rw [Argument.listChars, List.length_append] at h
    rw [Argument.listChars, Argument.listMentions]
    exact (Argument.shows argument (by omega)).cons_all argument.chars_ne_nil
      (Argument.showsAll arguments (by omega))

theorem Argument.shows {depth : Nat} (argument : Argument) (h : 4 * argument.chars.length + 2 ≤ depth) :
    Shows (typeArgument depth) TypeArgument.classes argument.chars argument.mentions := by
  obtain ⟨below, rfl⟩ : ∃ below, depth = below + 1 := ⟨depth - 1, by omega⟩
  cases argument with
  | wildcard =>
    rw [Argument.chars, Argument.mentions]
    exact shows_wildcard
  | bounded variance bound =>
    rw [Argument.chars, List.length_append] at h
    rw [Argument.chars, Argument.mentions]
    exact (Reference.shows bound (by omega)).bounded variance

theorem SimpleClass.showsInner {depth : Nat} (inner : List SimpleClass)
    (h : 4 * (SimpleClass.listChars inner).length ≤ depth) : ShowsInner depth inner := by
  cases inner with
  | nil => exact showsInner_nil
  | cons form inner =>
    cases form with
    | mk name arguments =>
      simp only [SimpleClass.listChars, SimpleClass.chars, List.length_cons, List.length_append] at h
      exact .cons (showsArguments_of_all (by omega) fun below hbelow => Argument.showsAll arguments hbelow)
        (SimpleClass.showsInner inner (by omega))

theorem ClassForm.shows {depth : Nat} (form : ClassForm) (h : 4 * form.chars.length ≤ depth) :
    Shows (classType depth) ClassType.classes form.chars form.mentions := by
  cases form with
  | mk package outermost inner =>
    cases outermost with
    | mk name arguments =>
      simp only [ClassForm.chars, SimpleClass.chars, List.length_cons, List.length_append] at h
      obtain ⟨below, rfl⟩ : ∃ below, depth = below + 1 := ⟨depth - 1, by omega⟩
      have harguments : ShowsArguments below arguments :=
        showsArguments_of_all (by omega) fun below hbelow => Argument.showsAll arguments hbelow
      have hread := classType_shows (List.append_ne_nil_of_right_ne_nil _ name.nonempty)
        (isClassNameChar_packageChars package name) harguments (SimpleClass.showsInner inner (by omega))
      rw [ClassForm.mentions_mk, ClassForm.chars, SimpleClass.chars, ← List.append_assoc]
      exact hread

theorem Reference.shows {depth : Nat} (form : Reference) (h : 4 * form.chars.length + 1 ≤ depth) :
    Shows (referenceType depth) ReferenceType.classes form.chars form.mentions := by
  obtain ⟨below, rfl⟩ : ∃ below, depth = below + 1 := ⟨depth - 1, by omega⟩
  cases form with
  | ofClass form =>
    rw [Reference.chars] at h
    rw [Reference.chars, Reference.mentions]
    exact (ClassForm.shows form (by omega)).ofClass
  | typeVariable name =>
    rw [Reference.chars, Reference.mentions]
    exact shows_typeVariable name
  | array element =>
    rw [Reference.chars, List.length_cons] at h
    rw [Reference.chars, Reference.mentions]
    exact (AnyType.shows element (by omega)).array

theorem AnyType.shows {depth : Nat} (form : AnyType) (h : 4 * form.chars.length + 2 ≤ depth) :
    Shows (javaType depth) JavaType.classes form.chars form.mentions := by
  obtain ⟨below, rfl⟩ : ∃ below, depth = below + 1 := ⟨depth - 1, by omega⟩
  cases form with
  | base type =>
    rw [AnyType.chars, AnyType.mentions]
    exact shows_base type
  | reference form =>
    rw [AnyType.chars] at h
    rw [AnyType.chars, AnyType.mentions]
    exact (Reference.shows form (by omega)).reference

end

/-- What is read of a whole text. -/
theorem Shows.parse?_map {α β : Type} {reader : TextReader α} {view : α → β} {text : List Char} {seen : β}
    (h : Shows reader view text seen) : (TextReader.parse? reader (String.ofList text)).map view = some seen := by
  obtain ⟨tree, hview, hread⟩ := h
  exact parse?_map_eq_some_iff.2 ⟨tree, hview, by simpa using hread []⟩

theorem depthFor_ofList (text : List Char) : depthFor (String.ofList text) = 4 * text.length + 4 := by
  rw [depthFor, String.length_ofList]

/-- The signature of a field is read, and its classes are those that its type mentions: a class type before
its type arguments, by the name that has all its inner classes. -/
theorem Reference.parse?_classes (form : Reference) :
    (ReferenceType.parse? (String.ofList form.chars)).map ReferenceType.classes = some form.mentions := by
  refine (form.shows ?_).parse?_map
  rw [depthFor_ofList]
  omega

example : (ReferenceType.parse? "Lp/Outer<[TT;>.Inner<+Lq/Bound<*>;>;").map ReferenceType.classes =
    some [⟨"p/Outer$Inner"⟩, ⟨"q/Bound"⟩] := by
  decide +kernel

end LinkCheck.Grammar
