import LinkCheck.TextReader

/-!
# How texts are read

What the readers of characters do in sequence, in choice and in repetition.

## Main definitions

- `TextReader.Repeats` — a reader reads some values one after the other

## Main results

- `TextReader.bind_eq_some_iff` — readers in sequence
- `TextReader.many_of_repeats`, `TextReader.many_eq_some_iff` — readers in repetition
- `TextReader.takeWhile1_append` — a run of characters up to one that ends it
-/

namespace LinkCheck.TextReader

/-- A reader reads some values one after the other, each of at least one character. -/
inductive Repeats {α : Type} (reader : TextReader α) : List Char → List α → List Char → Prop
  | nil {input : List Char} : Repeats reader input [] input
  | cons {input between rest : List Char} {value : α} {values : List α}
      (reads : reader input = some (value, between)) (shorter : between.length < input.length)
      (others : Repeats reader between values rest) : Repeats reader input (value :: values) rest

variable {α β : Type} {reader first second : TextReader α} {next : α → TextReader β}
  {input between rest : List Char} {value : α} {values : List α} {result : β}

/-- What follows a reader starts where the reader has stopped. -/
theorem bind_of_some (h : reader input = some (value, between)) :
    (reader >>= next) input = next value between := by
  change (reader input >>= fun found => next found.1 found.2) = _
  rw [h]
  rfl

theorem bind_of_none (h : reader input = none) : (reader >>= next) input = none := by
  change (reader input >>= fun found => next found.1 found.2) = _
  rw [h]
  rfl

/-- Readers in sequence. -/
theorem bind_eq_some_iff :
    (reader >>= next) input = some (result, rest) ↔
      ∃ value between, reader input = some (value, between) ∧
        next value between = some (result, rest) := by
  constructor
  · intro h
    cases hread : reader input with
    | none =>
      rw [bind_of_none hread] at h
      cases h
    | some found =>
      rw [bind_of_some hread] at h
      exact ⟨found.1, found.2, rfl, h⟩
  · rintro ⟨value, between, hread, hnext⟩
    rw [bind_of_some hread, hnext]

theorem pure_eq_some_iff {found : α} :
    (pure found : TextReader α) input = some (value, rest) ↔ found = value ∧ input = rest := by
  change some (found, input) = some (value, rest) ↔ _
  rw [Option.some.injEq, Prod.mk.injEq]

theorem orElse_of_some (h : first input = some (value, rest)) :
    (first <|> second) input = some (value, rest) := by
  change (first input <|> second input) = _
  rw [h]
  rfl

theorem orElse_of_none (h : first input = none) : (first <|> second) input = second input := by
  change (first input <|> second input) = _
  rw [h]
  rfl

theorem optional_of_some (h : reader input = some (value, rest)) :
    optional reader input = some (some value, rest) := by
  rw [optional, h]

theorem optional_of_none (h : reader input = none) : optional reader input = some (none, input) := by
  rw [optional, h]

theorem token_cons (c : Char) (rest : List Char) : token c (c :: rest) = some ((), rest) :=
  if_pos rfl

/-- A character is not read where another stands, nor at the end. -/
theorem token_of_head?_ne {c : Char} (h : input.head? ≠ some c) : token c input = none := by
  cases input with
  | nil => rfl
  | cons d input => exact if_neg fun heq => h (congrArg some heq)

/-- A character is read from just itself. -/
theorem token_eq_some_iff {c : Char} {read : Unit} :
    token c input = some (read, rest) ↔ input = c :: rest := by
  by_cases h : input.head? = some c
  · obtain ⟨others, rfl⟩ := List.head?_eq_some_iff.1 h
    simp [token_cons]
  · rw [token_of_head?_ne h]
    constructor
    · intro hread
      cases hread
    · rintro rfl
      exact absurd rfl h

theorem takeWhile1_of_head? {accept : Char → Bool} (h : ∀ c ∈ input.head?, accept c = false) :
    takeWhile1 accept input = none := by
  cases input with
  | nil => rfl
  | cons c input =>
    have hc := h c rfl
    simp [takeWhile1, hc]

/-- A run of characters ends before the first that it does not accept. -/
theorem takeWhile1_append {accept : Char → Bool} {run : List Char} (hne : run ≠ [])
    (hrun : ∀ c ∈ run, accept c = true) (rest : List Char) (hrest : ∀ c ∈ rest.head?, accept c = false) :
    takeWhile1 accept (run ++ rest) = some (String.ofList run, rest) := by
  have hnone : rest.takeWhile accept = [] ∧ rest.dropWhile accept = rest := by
    cases rest with
    | nil => exact ⟨rfl, rfl⟩
    | cons c rest =>
      have hc := hrest c rfl
      simp [hc]
  rw [takeWhile1, List.takeWhile_append_of_pos hrun, List.dropWhile_append_of_pos hrun, hnone.1, hnone.2,
    List.append_nil]
  cases run with
  | nil => exact absurd rfl hne
  | cons c run => rfl

/-- A repetition reads on where it has come to. -/
theorem upTo_of_repeats (h : Repeats reader input values between) {limit : Nat}
    (hlimit : input.length ≤ limit) :
    ∃ left, between.length ≤ left ∧ upTo reader limit input =
      (values ++ (upTo reader left between).1, (upTo reader left between).2) := by
  induction h generalizing limit with
  | nil => exact ⟨limit, hlimit, rfl⟩
  | cons reads shorter _ ih =>
    cases limit with
    | zero => omega
    | succ limit =>
      obtain ⟨left, hleft, heq⟩ := ih (by omega : _ ≤ limit)
      refine ⟨left, hleft, ?_⟩
      rw [upTo, reads]
      simp only [heq, List.cons_append]

theorem upTo_of_none (h : reader input = none) (limit : Nat) : upTo reader limit input = ([], input) := by
  cases limit with
  | zero => rfl
  | succ limit => rw [upTo, h]

/-- Values that are read one after the other, up to where the reader fails, are read by repetition. -/
theorem many_of_repeats (h : Repeats reader input values rest) (hfails : reader rest = none) :
    many reader input = some (values, rest) := by
  obtain ⟨left, -, heq⟩ := upTo_of_repeats h (Nat.le_refl _)
  rw [many, heq, upTo_of_none hfails, List.append_nil]

theorem many1_of_some (h : reader input = some (value, between)) :
    many1 reader input = some (value :: (upTo reader between.length between).1,
      (upTo reader between.length between).2) := by
  rw [many1, bind_of_some h]
  rfl

theorem many1_of_repeats (h : Repeats reader input values rest) (hne : input ≠ rest)
    (hfails : reader rest = none) : many1 reader input = some (values, rest) := by
  cases h with
  | nil => exact absurd rfl hne
  | cons reads _ others =>
    rw [many1, bind_of_some reads, bind_of_some (many_of_repeats others hfails)]
    rfl

/-- Where each success takes a character, a repetition ends where the reader fails. -/
theorem repeats_of_upTo (hshorter : ∀ {input rest : List Char} {value : α},
      reader input = some (value, rest) → rest.length < input.length)
    {limit : Nat} (hlimit : input.length ≤ limit) (h : upTo reader limit input = (values, rest)) :
    Repeats reader input values rest ∧ reader rest = none := by
  induction limit generalizing input values with
  | zero =>
    cases h
    refine ⟨.nil, Option.eq_none_iff_forall_ne_some.2 fun found hread => ?_⟩
    have hlength := hshorter hread
    omega
  | succ limit ih =>
    cases hread : reader input with
    | none =>
      rw [upTo_of_none hread] at h
      cases h
      exact ⟨.nil, hread⟩
    | some found =>
      obtain ⟨value, between⟩ := found
      rw [upTo, hread] at h
      cases h
      have hlength := hshorter hread
      obtain ⟨hrepeats, hfails⟩ := ih (by omega) rfl
      exact ⟨.cons hread hlength hrepeats, hfails⟩

/-- Where a value is read from just what is written for it, a repetition reads what is written for its
values one after the other, and stops where no value is written. -/
theorem many_eq_some_iff {admits : α → Prop} {write : α → List Char} (hne : ∀ value, write value ≠ [])
    (hread : ∀ {input rest : List Char} {value : α},
      reader input = some (value, rest) ↔ admits value ∧ input = write value ++ rest) :
    many reader input = some (values, rest) ↔
      (∀ value ∈ values, admits value) ∧ input = values.flatMap write ++ rest ∧ reader rest = none := by
  have hshorter {input rest : List Char} {value : α} (h : reader input = some (value, rest)) :
      rest.length < input.length := by
    rw [(hread.1 h).2, List.length_append]
    exact Nat.lt_add_of_pos_left (List.length_pos_iff.2 (hne value))
  constructor
  · intro h
    obtain ⟨hrepeats, hfails⟩ := repeats_of_upTo hshorter (Nat.le_refl _) (Option.some.inj h)
    refine and_assoc.1 ⟨?_, hfails⟩
    clear h
    induction hrepeats with
    | nil => exact ⟨fun _ hmem => absurd hmem List.not_mem_nil, rfl⟩
    | cons reads _ _ ih =>
      obtain ⟨hadmits, rfl⟩ := hread.1 reads
      obtain ⟨hall, rfl⟩ := ih hfails
      exact ⟨List.forall_mem_cons.2 ⟨hadmits, hall⟩, by rw [List.flatMap_cons, List.append_assoc]⟩
  · rintro ⟨hall, rfl, hfails⟩
    refine many_of_repeats ?_ hfails
    induction values with
    | nil => exact .nil
    | cons value values ih =>
      obtain ⟨hadmits, hothers⟩ := List.forall_mem_cons.1 hall
      rw [List.flatMap_cons, List.append_assoc]
      have hfirst : reader (write value ++ (values.flatMap write ++ rest)) = some (value, _) :=
        hread.2 ⟨hadmits, rfl⟩
      exact .cons hfirst (hshorter hfirst) (ih hothers)

/-- The value of a text is what is read up to its end. -/
theorem parse?_eq_some_iff {text : String} :
    parse? reader text = some value ↔ reader text.toList = some (value, []) := by
  unfold parse?
  cases reader text.toList with
  | none => simp
  | some found =>
    obtain ⟨found, rest⟩ := found
    cases rest with
    | nil => simp
    | cons c rest => simp

/-- What is seen of a whole text. -/
theorem parse?_map_eq_some_iff {text : List Char} {view : α → β} {seen : β} :
    (parse? reader (String.ofList text)).map view = some seen ↔
      ∃ tree, view tree = seen ∧ reader text = some (tree, []) := by
  simp only [Option.map_eq_some_iff, parse?_eq_some_iff, String.toList_ofList, and_comm]

end LinkCheck.TextReader
