import LinkCheck.Proofs.SignatureReading

/-!
# Type parameters in signatures

Type parameters are read one after the other, unless one without bounds stands before one whose name starts
with an `L`: what follows its colon is then read as a class type, as far as the next semicolon.

## Main definitions

- `Grammar.Bare`, `Grammar.Closes` — texts that end no class type, and texts that end one
- `Grammar.Parameter.Boundless` — a type parameter without bounds
- `Grammar.Spoiled` — classes of which one has a colon in its name
- `Grammar.Swallows` — type parameters of which one is read as the bound of another

## Main results

- `Grammar.referenceType_after`, `Grammar.referenceType_swallows` — what stands after a type parameter without
  bounds is read as its bound, or not
- `Grammar.optional_typeParameters` — type parameters are read
- `Grammar.spoiled_optional` — those of which one swallows another are not
-/

namespace LinkCheck.Grammar

open TextReader Signature

/-- No character ends the name of an outermost class. -/
def Bare (text : List Char) : Prop :=
  ∀ c ∈ text, isClassNameChar c = true

/-- The first character that ends the name of an outermost class starts what may stand after such a name in
a class type. -/
def Closes (text : List Char) : Prop :=
  ∃ (run : List Char) (arguments : List Argument) (inner : List SimpleClass) (rest : List Char),
    Bare run ∧ text = run ++ (bracketed arguments (Argument.listChars arguments) ++
      (SimpleClass.listChars inner ++ ';' :: rest))

theorem bare_of_undivided {text : List Char} (h : ∀ c ∈ text, c ∉ dividers) : Bare text :=
  fun c hc => isClassNameChar_of_undivided (h c hc)

theorem Bare.append {text others : List Char} (h : Bare text) (hothers : Bare others) :
    Bare (text ++ others) := by
  intro c hc
  exact (List.mem_append.1 hc).elim (h c) (hothers c)

theorem Bare.append_closes {text others : List Char} (h : Bare text) (hothers : Closes others) :
    Closes (text ++ others) := by
  obtain ⟨run, arguments, inner, rest, hrun, rfl⟩ := hothers
  exact ⟨text ++ run, arguments, inner, rest, h.append hrun, by rw [List.append_assoc]⟩

theorem Closes.append {text : List Char} (h : Closes text) (others : List Char) :
    Closes (text ++ others) := by
  obtain ⟨run, arguments, inner, rest, hrun, rfl⟩ := h
  exact ⟨run, arguments, inner, rest ++ others, hrun, by simp⟩

/-- A text that ends no class type, or one. -/
def Settled (text : List Char) : Prop :=
  Bare text ∨ Closes text

theorem Settled.append {text others : List Char} (h : Settled text) (hothers : Settled others) :
    Settled (text ++ others) := by
  rcases h with h | h
  · exact hothers.imp h.append h.append_closes
  · exact .inr (h.append others)

theorem settled_flatMap {α : Type} {chars : α → List Char} (h : ∀ item, Settled (chars item))
    (items : List α) : Settled (items.flatMap chars) := by
  induction items with
  | nil => exact .inl fun c hc => absurd hc List.not_mem_nil
  | cons item items ih =>
    rw [List.flatMap_cons]
    exact (h item).append ih

theorem Settled.cons {c : Char} {text : List Char} (hc : isClassNameChar c = true) (h : Settled text) :
    Settled (c :: text) := by
  have hfirst : Settled [c] := .inl (List.forall_mem_singleton.2 hc)
  exact hfirst.append h

/-- A text with a semicolon ends a class type. -/
theorem Settled.closes {text : List Char} (h : Settled text) (hmem : ';' ∈ text) : Closes text :=
  h.resolve_left fun hbare => absurd (hbare _ hmem) (by decide)

/-- A text without a semicolon ends none. -/
theorem Settled.bare {text : List Char} (h : Settled text) (hmem : ';' ∉ text) : Bare text := by
  refine h.resolve_right ?_
  rintro ⟨run, arguments, inner, rest, -, rfl⟩
  exact hmem (by simp)

theorem ClassForm.closes_chars (form : ClassForm) : Closes form.chars := by
  cases form with
  | mk package outermost inner =>
    cases outermost with
    | mk name arguments =>
      have hrun := isClassNameChar_packageChars package name
      refine ⟨'L' :: (packageChars package ++ name.chars), arguments, inner, [],
        List.forall_mem_cons.2 ⟨by decide, hrun⟩, ?_⟩
      rw [ClassForm.chars, SimpleClass.chars]
      simp

theorem closes_typeVariable (name : Identifier) : Closes ('T' :: (name.chars ++ [';'])) :=
  ⟨'T' :: name.chars, [], [], [],
    List.forall_mem_cons.2 ⟨by decide, bare_of_undivided name.undivided⟩, by simp [SimpleClass.listChars]⟩

mutual

theorem Reference.settled_chars (form : Reference) : Settled form.chars := by
  cases form with
  | ofClass form =>
    rw [Reference.chars]
    exact .inr form.closes_chars
  | typeVariable name =>
    rw [Reference.chars]
    exact .inr (closes_typeVariable name)
  | array element =>
    rw [Reference.chars]
    exact .cons (by decide) (AnyType.settled_chars element)

theorem AnyType.settled_chars (form : AnyType) : Settled form.chars := by
  cases form with
  | base type =>
    rw [AnyType.chars]
    exact .inl (by cases type <;> simp [Bare, BaseType.code] <;> decide)
  | reference form =>
    rw [AnyType.chars]
    exact Reference.settled_chars form

end

variable {depth : Nat}

/-- A type parameter without bounds ends with its colon. -/
def Parameter.Boundless (parameter : Parameter) : Prop :=
  parameter.classBound = none ∧ parameter.interfaceBounds = []

theorem Parameter.settled_chars (parameter : Parameter) : Settled parameter.chars := by
  rw [Parameter.chars]
  refine .append (.inl (bare_of_undivided parameter.name.undivided)) (.cons (by decide) (.append ?_ ?_))
  · exact settled_flatMap Reference.settled_chars _
  · exact settled_flatMap (fun bound => .cons (by decide) bound.settled_chars) _

theorem Parameter.chars_ne_nil (parameter : Parameter) : parameter.chars ≠ [] := by
  rw [Parameter.chars]
  exact List.append_ne_nil_of_left_ne_nil parameter.name.nonempty _

/-- Type parameters with the bracket that closes them, and what stands after it. -/
def Parameter.listed (parameters : List Parameter) (tail : List Char) : List Char :=
  parameters.flatMap Parameter.chars ++ '>' :: tail

theorem listed_cons (next : Parameter) (parameters : List Parameter) (tail : List Char) :
    Parameter.listed (next :: parameters) tail = next.chars ++ Parameter.listed parameters tail := by
  rw [Parameter.listed, Parameter.listed, List.flatMap_cons, List.append_assoc]

theorem listChars_append (first : Parameter) (parameters : List Parameter) (tail : List Char) :
    Parameter.listChars (first :: parameters) ++ tail =
      '<' :: Parameter.listed (first :: parameters) tail := by
  rw [Parameter.listChars, bracketed_cons, Parameter.listed]
  simp

theorem settled_listed (parameters : List Parameter) {tail : List Char} (h : Settled tail) :
    Settled (Parameter.listed parameters tail) :=
  (settled_flatMap Parameter.settled_chars parameters).append (h.cons (by decide))

/-- A type parameter starts with its name and a colon. -/
theorem exists_listed_eq (next : Parameter) (parameters : List Parameter) (tail : List Char) :
    ∃ rest, Parameter.listed (next :: parameters) tail = next.name.chars ++ ':' :: rest := by
  simp only [listed_cons, Parameter.chars, List.append_assoc, List.cons_append]
  exact ⟨_, rfl⟩

/-- No class type is read from a text that ends none. -/
theorem classType_of_bare {text : List Char} (h : Bare text) : classType depth text = none := by
  by_cases hhead : text.head? = some 'L'
  · obtain ⟨run, rfl⟩ := List.head?_eq_some_iff.1 hhead
    have hrun : ∀ c ∈ run, isClassNameChar c = true := fun c hc => h c (.tail _ hc)
    cases depth with
    | zero =>
      rw [classType]
      rfl
    | succ depth =>
      rw [classType_succ, bind_of_some (token_cons _ _)]
      by_cases hne : run = []
      · subst hne
        exact bind_of_none rfl
      · -- The name takes all that is left.
        have hname := takeWhile1_append hne hrun [] (fun c hc => absurd hc (Option.not_mem_none c))
        have hmany : many (innerClass depth) [] = some ([], []) := rfl
        rw [List.append_nil] at hname
        rw [bind_of_some hname, bind_of_some (optional_of_none (typeArguments_of_head?_ne (by simp))),
          bind_of_some hmany]
        exact bind_of_none rfl
  · exact classType_of_head?_ne hhead

/-- The name of a type parameter is no type variable, because a colon follows it. -/
theorem typeVariable_name (name : Identifier) (rest : List Char) :
    typeVariable (name.chars ++ ':' :: rest) = none := by
  have hcolon : ∀ c ∈ (':' :: rest).head?, c ∈ dividers := by
    rintro c ⟨⟩
    decide
  by_cases hhead : (name.chars ++ ':' :: rest).head? = some 'T'
  · obtain ⟨others, heq⟩ := List.head?_eq_some_iff.1 hhead
    obtain ⟨chars, hnonempty, hundivided⟩ := name
    cases chars with
    | nil => exact absurd rfl hnonempty
    | cons c chars =>
      obtain ⟨rfl, rfl⟩ := List.cons.inj heq
      rw [List.cons_append, typeVariable, bind_of_some (token_cons _ _)]
      by_cases hne : chars = []
      · subst hne
        exact bind_of_none (identifier_of_head? hcolon)
      · have hname := identifier_append ⟨chars, hne, fun c hc => hundivided c (.tail _ hc)⟩ _ hcolon
        rw [bind_of_some hname]
        exact bind_of_none (token_of_head?_ne (by simp))
  · exact typeVariable_of_head?_ne hhead

/-- What stands after a type parameter without bounds is no type, unless a name that starts with an `L`
stands there and a semicolon follows. -/
theorem referenceType_after {parameters : List Parameter} {tail : List Char} (htail : Settled tail)
    (h : (∃ next ∈ parameters.head?, next.name.chars.head? = some 'L') →
      ';' ∉ Parameter.listed parameters tail) :
    referenceType depth (Parameter.listed parameters tail) = none := by
  cases parameters with
  | nil => exact referenceType_of_head?_ne (by simp [Parameter.listed])
  | cons next parameters =>
    have hsettled := settled_listed (next :: parameters) htail
    obtain ⟨rest, hrest⟩ := exists_listed_eq next parameters tail
    have hhead : (next.name.chars ++ ':' :: rest).head? = next.name.chars.head? := by
      obtain ⟨c, chars, hchars⟩ := List.exists_cons_of_ne_nil next.name.nonempty
      rw [hchars]
      rfl
    rw [hrest] at h hsettled ⊢
    refine referenceType_of_none (fun below => ?_) (typeVariable_name next.name rest) ?_
    · by_cases hname : next.name.chars.head? = some 'L'
      · exact classType_of_bare (hsettled.bare (h ⟨next, rfl, hname⟩))
      · exact classType_of_head?_ne (hhead ▸ hname)
    · rw [hhead]
      intro hbracket
      exact next.name.undivided '[' (List.mem_of_mem_head? hbracket) (by decide)

/-- A run of characters ends where a character stands that is not accepted. -/
theorem eq_append_of_run {accept : Char → Bool} {front run back stop : List Char} {c : Char}
    (hfront : ∀ d ∈ front, accept d = true) (hc : accept c = true) (hrun : ∀ d ∈ run, accept d = true)
    (hstop : ∀ d ∈ stop.head?, accept d = false) (h : front ++ c :: back = run ++ stop) :
    ∃ middle, run = front ++ c :: middle := by
  rcases List.append_eq_append_iff.1 h with ⟨middle, rfl, hback⟩ | ⟨middle, rfl, rfl⟩
  · cases middle with
    | nil =>
      have hfalse := hstop c (by rw [← List.nil_append stop, ← hback]; rfl)
      rw [hc] at hfalse
      cases hfalse
    | cons d middle =>
      obtain ⟨rfl, -⟩ := List.cons.inj hback
      exact ⟨middle, rfl⟩
  · cases middle with
    | nil =>
      rw [hstop c rfl] at hc
      cases hc
    | cons d middle =>
      have hd := hfront d (List.mem_append_right _ List.mem_cons_self)
      rw [hstop d rfl] at hd
      cases hd

/-- A class that is listed has a colon in its name, which no signature mentions. -/
def Spoiled (names : List ClassName) : Prop :=
  ∃ name ∈ names, ':' ∈ name.text.toList

theorem mem_ofText {c : Char} {text : String} (hdot : c ≠ '.') (h : c ∈ text.toList) :
    c ∈ (ClassName.ofText text).text.toList := by
  unfold ClassName.ofText
  split
  · exact h
  · rw [ClassName.replaceChar, String.toList_map]
    exact List.mem_map.2 ⟨c, h, if_neg hdot⟩

/-- A name that starts with an `L` is read as a class type as far as the next semicolon, together with the
colon after the name. -/
theorem referenceType_swallows {next : Parameter} {parameters : List Parameter} {tail : List Char}
    (htail : Settled tail) (hname : next.name.chars.head? = some 'L')
    (hmem : ';' ∈ Parameter.listed (next :: parameters) tail)
    (hdepth : 4 * (Parameter.listed (next :: parameters) tail).length + 1 ≤ depth) :
    ∃ tree rest, referenceType depth (Parameter.listed (next :: parameters) tail) =
      some (tree, rest) ∧ Spoiled tree.classes := by
  obtain ⟨run, arguments, inner, rest, hrun, htext⟩ :=
    (settled_listed (next :: parameters) htail).closes hmem
  obtain ⟨back, hback⟩ := exists_listed_eq next parameters tail
  -- The colon after the name stands before the first character that ends the name of a class.
  obtain ⟨middle, rfl⟩ : ∃ middle, run = next.name.chars ++ ':' :: middle := by
    refine eq_append_of_run (bare_of_undivided next.name.undivided) (by decide) hrun ?_ (hback.symm.trans htext)
    intro c hc
    rcases head?_bracketed hc with rfl | hc
    · decide
    · rcases head?_inner hc with rfl | rfl <;> decide
  obtain ⟨chars, hchars⟩ := List.head?_eq_some_iff.1 hname
  rw [hchars, List.cons_append] at htext hrun
  rw [htext] at hdepth ⊢
  simp only [List.length_cons, List.length_append] at hdepth
  obtain ⟨below, rfl⟩ : ∃ below, depth = below + 2 := ⟨depth - 2, by omega⟩
  have harguments : ShowsArguments below arguments :=
    showsArguments_of_all (by omega) fun below hbelow => Argument.showsAll arguments hbelow
  obtain ⟨tree, hclasses, hread⟩ := (classType_shows (by simp) (fun c hc => hrun c (.tail _ hc)) harguments
    (SimpleClass.showsInner inner (by omega))).ofClass
  refine ⟨tree, rest, ?_, ?_⟩
  · simpa using hread rest
  · rw [hclasses]
    refine ⟨_, List.mem_cons_self, mem_ofText (by decide) ?_⟩
    simp

/-- Reads an interface bound after its colon. -/
def interfaceBound (depth : Nat) : TextReader ReferenceType := do
  token ':'
  referenceType depth

theorem typeParameter_eq (depth : Nat) : typeParameter depth = do
    let name ← identifier
    token ':'
    let classBound ← TextReader.optional (referenceType depth)
    let interfaceBounds ← many (interfaceBound depth)
    return { name, classBound, interfaceBounds } :=
  rfl

theorem showsAll_interfaceBounds (bounds : List Reference)
    (hdepth : 4 * (bounds.flatMap fun bound => ':' :: bound.chars).length ≤ depth) :
    ShowsAll (interfaceBound depth) ReferenceType.classes (bounds.flatMap fun bound => ':' :: bound.chars)
      (bounds.flatMap Reference.mentions) := by
  refine showsAll_of_depth bounds 0 (fun bound => List.cons_ne_nil _ _) hdepth fun bound hbound => ?_
  rw [List.length_cons] at hbound
  obtain ⟨tree, hclasses, hread⟩ := bound.shows (by omega : 4 * bound.chars.length + 1 ≤ depth)
  refine ⟨tree, hclasses, fun rest => ?_⟩
  rw [List.cons_append, interfaceBound, bind_of_some (token_cons _ _), hread]

/-- The class bound is read where there is one. Where there is none, the colon of an interface bound follows,
or what stands after the type parameter. -/
theorem optional_classBound (parameter : Parameter) (hdepth : 4 * parameter.chars.length ≤ depth) :
    ∃ found : Option ReferenceType,
      found.toList.flatMap ReferenceType.classes =
        parameter.classBound.toList.flatMap Reference.mentions ∧
      ∀ rest : List Char, (parameter.Boundless → referenceType depth rest = none) →
        TextReader.optional (referenceType depth)
          (parameter.classBound.toList.flatMap Reference.chars ++
            ((parameter.interfaceBounds.flatMap fun bound => ':' :: bound.chars) ++ rest)) =
          some (found, (parameter.interfaceBounds.flatMap fun bound => ':' :: bound.chars) ++ rest) := by
  obtain ⟨name, classBound, interfaceBounds⟩ := parameter
  cases classBound with
  | none =>
    refine ⟨none, rfl, fun rest hrest => optional_of_none ?_⟩
    cases interfaceBounds with
    | nil => exact hrest ⟨rfl, rfl⟩
    | cons bound bounds => exact referenceType_of_head?_ne (by simp)
  | some bound =>
    simp only [Parameter.chars, Option.toList_some, List.flatMap_cons, List.flatMap_nil, List.append_nil,
      List.length_append, List.length_cons] at hdepth
    obtain ⟨tree, hclasses, hread⟩ := bound.shows (by omega : 4 * bound.chars.length + 1 ≤ depth)
    refine ⟨some tree, ?_, fun rest _ => ?_⟩
    · simpa using hclasses
    · simpa using optional_of_some (hread _)

/-- The name of a type parameter is read with its colon. -/
theorem typeParameter_append (parameter : Parameter) (rest : List Char) :
    typeParameter depth (parameter.chars ++ rest) =
      (do
        let classBound ← TextReader.optional (referenceType depth)
        let interfaceBounds ← many (interfaceBound depth)
        return { name := String.ofList parameter.name.chars, classBound, interfaceBounds } :
          TextReader TypeParameter)
        (parameter.classBound.toList.flatMap Reference.chars ++
          ((parameter.interfaceBounds.flatMap fun bound => ':' :: bound.chars) ++ rest)) := by
  have hname := identifier_append parameter.name
    (':' :: (parameter.classBound.toList.flatMap Reference.chars ++
      ((parameter.interfaceBounds.flatMap fun bound => ':' :: bound.chars) ++ rest)))
    (by
      rintro c ⟨⟩
      decide)
  rw [Parameter.chars, List.append_assoc, List.cons_append, List.append_assoc, typeParameter_eq,
    bind_of_some hname, bind_of_some (token_cons _ _)]

/-- A type parameter is read, unless it has no bounds and what follows it is a type. -/
theorem Parameter.shows (parameter : Parameter) (hdepth : 4 * parameter.chars.length ≤ depth) :
    ∃ tree : TypeParameter, tree.classes = parameter.mentions ∧ ∀ rest : List Char,
      rest.head? ≠ some ':' → (parameter.Boundless → referenceType depth rest = none) →
        typeParameter depth (parameter.chars ++ rest) = some (tree, rest) := by
  have hlength : 4 * (parameter.interfaceBounds.flatMap fun bound => ':' :: bound.chars).length ≤ depth := by
    simp only [Parameter.chars, List.length_append, List.length_cons] at hdepth
    omega
  obtain ⟨found, hfound, hbound⟩ := optional_classBound parameter hdepth
  obtain ⟨trees, htrees, hrepeats⟩ := showsAll_interfaceBounds parameter.interfaceBounds hlength
  refine ⟨⟨String.ofList parameter.name.chars, found, trees⟩, ?_, fun rest hcolon hrest => ?_⟩
  · rw [TypeParameter.classes, List.flatMap_append, hfound, htrees, Parameter.mentions]
  · have hend : interfaceBound depth rest = none := bind_of_none (token_of_head?_ne hcolon)
    rw [typeParameter_append, bind_of_some (hbound rest hrest),
      bind_of_some (many_of_repeats (hrepeats rest) hend)]
    rfl

/-- What follows a type parameter without bounds becomes its bound where it is a type. -/
theorem typeParameter_swallows {parameter : Parameter} (h : parameter.Boundless) {input rest : List Char}
    {bound : ReferenceType} (hread : referenceType depth input = some (bound, rest)) :
    ∃ (tree : TypeParameter) (others : List Char),
      typeParameter depth (parameter.chars ++ input) = some (tree, others) ∧
        ∀ name ∈ bound.classes, name ∈ tree.classes := by
  refine ⟨⟨String.ofList parameter.name.chars, some bound, (upTo (interfaceBound depth) rest.length rest).1⟩,
    (upTo (interfaceBound depth) rest.length rest).2, ?_, fun name hname => ?_⟩
  · rw [typeParameter_append, h.1, h.2, Option.toList_none, List.flatMap_nil, List.flatMap_nil,
      List.nil_append, List.nil_append, bind_of_some (optional_of_some hread)]
    rfl
  · rw [TypeParameter.classes, Option.toList_some, List.singleton_append, List.flatMap_cons]
    exact List.mem_append_left _ hname

/-- A type parameter without bounds stands before one whose name starts with an `L`, and a semicolon stands
somewhere after its colon. -/
def Swallows (parameters : List Parameter) (tail : List Char) : Prop :=
  ∃ before unbounded next others, parameters = before ++ unbounded :: next :: others ∧
    unbounded.Boundless ∧ next.name.chars.head? = some 'L' ∧
      ';' ∈ Parameter.listed (next :: others) tail

/-- The first type parameter has no bounds, and what follows it is read as a class type. -/
def SwallowsFirst (first : Parameter) (parameters : List Parameter) (tail : List Char) : Prop :=
  first.Boundless ∧ (∃ next ∈ parameters.head?, next.name.chars.head? = some 'L') ∧
    ';' ∈ Parameter.listed parameters tail

theorem not_swallows_nil (tail : List Char) : ¬ Swallows [] tail := by
  rintro ⟨before, unbounded, next, others, heq, -⟩
  simp at heq

theorem swallows_cons_iff {first : Parameter} {parameters : List Parameter} {tail : List Char} :
    Swallows (first :: parameters) tail ↔
      SwallowsFirst first parameters tail ∨ Swallows parameters tail := by
  constructor
  · rintro ⟨before, unbounded, next, others, heq, hboundless, hname, hmem⟩
    cases before with
    | nil =>
      obtain ⟨rfl, rfl⟩ := List.cons.inj heq
      exact .inl ⟨hboundless, ⟨next, rfl, hname⟩, hmem⟩
    | cons parameter before =>
      obtain ⟨rfl, rfl⟩ := List.cons.inj heq
      exact .inr ⟨before, unbounded, next, others, rfl, hboundless, hname, hmem⟩
  · rintro (⟨hboundless, ⟨next, hnext, hname⟩, hmem⟩ | ⟨before, unbounded, next, others, rfl, hswallows⟩)
    · obtain ⟨others, rfl⟩ := List.head?_eq_some_iff.1 hnext
      exact ⟨[], first, next, others, rfl, hboundless, hname, hmem⟩
    · exact ⟨first :: before, unbounded, next, others, rfl, hswallows⟩

variable {parameters : List Parameter} {tail : List Char}

theorem head?_listed_ne (parameters : List Parameter) (tail : List Char) :
    (Parameter.listed parameters tail).head? ≠ some ':' := by
  cases parameters with
  | nil => simp [Parameter.listed]
  | cons next parameters =>
    obtain ⟨rest, hrest⟩ := exists_listed_eq next parameters tail
    obtain ⟨c, chars, hchars⟩ := List.exists_cons_of_ne_nil next.name.nonempty
    rw [hrest, hchars]
    rintro ⟨⟩
    exact next.name.undivided ':' (by rw [hchars]; exact List.mem_cons_self) (by decide)

/-- A type parameter is read unless it swallows what follows. -/
theorem Parameter.shows_first (first : Parameter) (htail : Settled tail)
    (hdepth : 4 * first.chars.length ≤ depth) (h : ¬ SwallowsFirst first parameters tail) :
    ∃ tree : TypeParameter, tree.classes = first.mentions ∧
      typeParameter depth (first.chars ++ Parameter.listed parameters tail) =
        some (tree, Parameter.listed parameters tail) := by
  obtain ⟨tree, hclasses, hread⟩ := first.shows hdepth
  refine ⟨tree, hclasses, hread _ (head?_listed_ne parameters tail) fun hboundless => ?_⟩
  exact referenceType_after htail fun hname hmem => h ⟨hboundless, hname, hmem⟩

/-- Type parameters are read one after the other where none swallows what follows. -/
theorem repeats_parameters (htail : Settled tail)
    (hdepth : 4 * (Parameter.listed parameters tail).length ≤ depth) (h : ¬ Swallows parameters tail) :
    ∃ trees : List TypeParameter,
      trees.flatMap TypeParameter.classes = parameters.flatMap Parameter.mentions ∧
        Repeats (typeParameter depth) (Parameter.listed parameters tail) trees ('>' :: tail) := by
  induction parameters with
  | nil => exact ⟨[], rfl, .nil⟩
  | cons first parameters ih =>
    rw [swallows_cons_iff, not_or] at h
    rw [listed_cons, List.length_append] at hdepth
    obtain ⟨trees, htrees, hrepeats⟩ := ih (by omega) h.2
    obtain ⟨tree, htree, hread⟩ := first.shows_first htail (by omega : _ ≤ depth) h.1
    refine ⟨tree :: trees, ?_, ?_⟩
    · rw [List.flatMap_cons, List.flatMap_cons, htree, htrees]
    · rw [listed_cons]
      refine .cons hread ?_ hrepeats
      rw [List.length_append]
      exact Nat.lt_add_of_pos_left (List.length_pos_iff.2 first.chars_ne_nil)

/-- Where a type parameter swallows what follows, the first is read, and then it is spoiled or one of the
others swallows. -/
theorem typeParameter_of_swallows {first : Parameter} (htail : Settled tail)
    (hdepth : 4 * (Parameter.listed (first :: parameters) tail).length + 1 ≤ depth)
    (h : Swallows (first :: parameters) tail) :
    ∃ (tree : TypeParameter) (rest : List Char),
      typeParameter depth (Parameter.listed (first :: parameters) tail) = some (tree, rest) ∧
        (Spoiled tree.classes ∨ rest = Parameter.listed parameters tail ∧ Swallows parameters tail) := by
  rw [listed_cons] at hdepth ⊢
  rw [List.length_append] at hdepth
  by_cases hfirst : SwallowsFirst first parameters tail
  · obtain ⟨hboundless, ⟨next, hnext, hname⟩, hmem⟩ := hfirst
    obtain ⟨others, rfl⟩ := List.head?_eq_some_iff.1 hnext
    obtain ⟨bound, rest, hbound, name, hmemName, hcolon⟩ :=
      referenceType_swallows htail hname hmem (by omega : _ ≤ depth)
    obtain ⟨tree, others, hread, hclasses⟩ := typeParameter_swallows hboundless hbound
    exact ⟨tree, others, hread, .inl ⟨name, hclasses name hmemName, hcolon⟩⟩
  · obtain ⟨tree, -, hread⟩ := first.shows_first htail (by omega : _ ≤ depth) hfirst
    exact ⟨tree, _, hread, .inr ⟨rfl, (swallows_cons_iff.1 h).resolve_left hfirst⟩⟩

theorem spoiled_append_iff {names others : List ClassName} :
    Spoiled (names ++ others) ↔ Spoiled names ∨ Spoiled others := by
  simp only [Spoiled, List.mem_append, or_and_right, exists_or]

/-- A repetition comes to the type parameter that swallows. -/
theorem spoiled_upTo (htail : Settled tail)
    (hdepth : 4 * (Parameter.listed parameters tail).length + 1 ≤ depth) (h : Swallows parameters tail)
    {limit : Nat} (hlimit : (Parameter.listed parameters tail).length ≤ limit) :
    Spoiled ((upTo (typeParameter depth) limit (Parameter.listed parameters tail)).1.flatMap
      TypeParameter.classes) := by
  induction parameters generalizing limit with
  | nil => exact absurd h (not_swallows_nil tail)
  | cons first parameters ih =>
    obtain ⟨tree, rest, hread, hrest⟩ := typeParameter_of_swallows htail hdepth h
    have hpos := List.length_pos_iff.2 first.chars_ne_nil
    rw [listed_cons, List.length_append] at hdepth hlimit
    cases limit with
    | zero => omega
    | succ limit =>
      rw [upTo, hread]
      simp only [List.flatMap_cons, spoiled_append_iff]
      refine hrest.imp_right ?_
      rintro ⟨rfl, hswallows⟩
      exact ih (by omega) hswallows (by omega)

/-- Type parameters of which one swallows what follows are read, if at all, with a class that none
mentions. -/
theorem spoiled_typeParameters (htail : Settled tail)
    (hdepth : 4 * (Parameter.listed parameters tail).length + 1 ≤ depth) (h : Swallows parameters tail)
    {trees : List TypeParameter} {rest : List Char}
    (hread : typeParameters depth ('<' :: Parameter.listed parameters tail) = some (trees, rest)) :
    Spoiled (trees.flatMap TypeParameter.classes) := by
  cases parameters with
  | nil => exact absurd h (not_swallows_nil tail)
  | cons first parameters =>
    -- The first is read on its own, and the others by a repetition from where it ends.
    obtain ⟨tree, between, hfirst, hbetween⟩ := typeParameter_of_swallows htail hdepth h
    rw [typeParameters, bind_of_some (token_cons _ _), bind_of_some (many1_of_some hfirst)] at hread
    obtain ⟨_, _, -, hpure⟩ := bind_eq_some_iff.1 hread
    obtain ⟨rfl, -⟩ := pure_eq_some_iff.1 hpure
    rw [listed_cons, List.length_append] at hdepth
    rw [List.flatMap_cons, spoiled_append_iff]
    refine hbetween.imp_right ?_
    rintro ⟨rfl, hswallows⟩
    exact spoiled_upTo htail (by omega) hswallows (Nat.le_refl _)

theorem typeParameters_listed (htail : Settled tail) (hne : parameters ≠ [])
    (hdepth : 4 * (Parameter.listed parameters tail).length ≤ depth) (h : ¬ Swallows parameters tail) :
    ∃ trees : List TypeParameter,
      trees.flatMap TypeParameter.classes = parameters.flatMap Parameter.mentions ∧
        typeParameters depth ('<' :: Parameter.listed parameters tail) = some (trees, tail) := by
  obtain ⟨trees, htrees, hrepeats⟩ := repeats_parameters htail hdepth h
  have hsome : Parameter.listed parameters tail ≠ '>' :: tail := by
    obtain ⟨first, others, rfl⟩ := List.exists_cons_of_ne_nil hne
    intro heq
    have hnil := List.append_left_eq_self.1 heq
    exact first.chars_ne_nil (List.append_eq_nil_iff.1 hnil).1
  have hend : typeParameter depth ('>' :: tail) = none := by
    rw [typeParameter_eq]
    refine bind_of_none (identifier_of_head? ?_)
    rintro c ⟨⟩
    decide
  refine ⟨trees, htrees, ?_⟩
  rw [typeParameters, bind_of_some (token_cons _ _), bind_of_some (many1_of_repeats hrepeats hsome hend),
    bind_of_some (token_cons _ _)]
  rfl

/-- Type parameters are read where there are some and none swallows what follows. -/
theorem optional_typeParameters (htail : Settled tail) (hhead : tail.head? ≠ some '<')
    (hdepth : 4 * (Parameter.listChars parameters ++ tail).length ≤ depth) (h : ¬ Swallows parameters tail) :
    ∃ found : Option (List TypeParameter),
      (found.getD []).flatMap TypeParameter.classes = parameters.flatMap Parameter.mentions ∧
        TextReader.optional (typeParameters depth) (Parameter.listChars parameters ++ tail) =
          some (found, tail) := by
  cases parameters with
  | nil => exact ⟨none, rfl, optional_of_none (bind_of_none (token_of_head?_ne hhead))⟩
  | cons first parameters =>
    rw [listChars_append] at hdepth ⊢
    rw [List.length_cons] at hdepth
    obtain ⟨trees, htrees, hread⟩ :=
      typeParameters_listed htail (List.cons_ne_nil _ _) (by omega : _ ≤ depth) h
    exact ⟨some trees, htrees, optional_of_some hread⟩

/-- Type parameters of which one swallows what follows are not read, or with a class that none mentions. -/
theorem spoiled_optional (htail : Settled tail)
    (hdepth : 4 * (Parameter.listChars parameters ++ tail).length ≤ depth) (h : Swallows parameters tail)
    {found : Option (List TypeParameter)} {rest : List Char}
    (hread : TextReader.optional (typeParameters depth) (Parameter.listChars parameters ++ tail) =
      some (found, rest)) :
    Spoiled ((found.getD []).flatMap TypeParameter.classes) ∨ rest.head? = some '<' := by
  cases parameters with
  | nil => exact absurd h (not_swallows_nil tail)
  | cons first parameters =>
    rw [listChars_append] at hdepth hread
    rw [List.length_cons] at hdepth
    cases htrees : typeParameters depth ('<' :: Parameter.listed (first :: parameters) tail) with
    | none =>
      rw [optional_of_none htrees] at hread
      cases hread
      exact .inr rfl
    | some trees =>
      rw [optional_of_some htrees] at hread
      cases hread
      exact .inl (spoiled_typeParameters htail (by omega) h htrees)

end LinkCheck.Grammar
