import LinkCheck.Proofs.ModifiedUtf8
import Mathlib.Algebra.Group.Nat.Defs

/-!
# Texts that bytes stand for

Bytes are decoded as plain UTF-8 without U+0000 or else as modified UTF-8. Either way the bytes that are
accepted are just those that spell a text, and no bytes spell two.

## Main definitions

- `Utf8Text.spellWide` — a number in a given count of bytes
- `Utf8Text.plainBytes` — a text in plain UTF-8

## Main results

- `Utf8Text.unit?_eq_some_iff` — the bytes that are read as a number are those that spell it
- `Utf8Text.plainChar?_eq_some_iff`, `Utf8Text.modifiedChar?_eq_some_iff` — likewise for a character
- `Utf8Text.chars?_eq_some_iff` — likewise for a text, from what holds of its characters
- `Utf8Text.decode?_exact` — what is decoded, and that both ways to decode agree
-/

namespace LinkCheck.Utf8Text

/-- The continuation bytes of a number, the highest bits first. -/
def spellTail : Nat → Nat → List UInt8
  | 0, _ => []
  | count + 1, value => spellContinuation (value / 64 ^ count) :: spellTail count value

/-- What the leading byte of a number in `width` bytes adds to the number's highest bits. -/
def leadMark : Nat → Nat
  | 2 => 0xC0
  | 3 => 0xE0
  | 4 => 0xF0
  | _ => 0

/-- How many values the highest bits can take that the leading byte of `width` bytes has room for. -/
def leadRoom : Nat → Nat
  | 1 => 0x80
  | 2 => 0x20
  | 3 => 0x10
  | 4 => 0x08
  | _ => 0

/-- A number in `width` bytes, whether or not it needs as many. -/
def spellWide (width value : Nat) : List UInt8 :=
  .ofNat (leadMark width + value / 64 ^ (width - 1)) :: spellTail (width - 1) value

theorem toNat_spellContinuation (bits : Nat) :
    (spellContinuation bits).toNat = 0x80 + bits % 64 := by
  rw [spellContinuation, UInt8.toNat_ofNat_of_lt' (by simp [UInt8.size]; omega)]

/-- A byte carries six bits if it is the byte that spells them. -/
theorem continuation?_eq_some_iff {byte : UInt8} {bits : Nat} :
    continuation? byte = some bits ↔ bits < 64 ∧ byte = spellContinuation bits := by
  constructor
  · intro h
    unfold continuation? at h
    split at h
    · next hrange =>
      have hlow : 0x80 ≤ byte.toNat := UInt8.le_iff_toNat_le.1 hrange.1
      have hhigh : byte.toNat < 0xC0 := UInt8.lt_iff_toNat_lt.1 hrange.2
      have hbits : byte.toNat - 0x80 = bits := Option.some.inj h
      refine ⟨by omega, UInt8.toNat_inj.1 ?_⟩
      rw [toNat_spellContinuation]
      omega
    · cases h
  · rintro ⟨hbits, rfl⟩
    rw [continuation?_spellContinuation, Nat.mod_eq_of_lt hbits]

/-- Continuation bytes lead from the highest bits of a number to the number that they spell. -/
theorem continue?_eq_some_iff {count high value : Nat} {bytes rest : List UInt8} :
    continue? count high bytes = some (value, rest) ↔
      value / 64 ^ count = high ∧ bytes = spellTail count value ++ rest := by
  induction count generalizing high bytes with
  | zero =>
    rw [continue?, Option.some.injEq, Prod.mk.injEq, Nat.pow_zero, Nat.div_one, eq_comm]
    rfl
  | succ count ih =>
    have hdiv : value / 64 ^ (count + 1) = value / 64 ^ count / 64 := by
      rw [Nat.pow_succ, Nat.div_div_eq_div_mul]
    rw [hdiv, spellTail]
    cases bytes with
    | nil => simp [continue?]
    | cons byte bytes =>
      rw [continue?, Option.bind_eq_bind, Option.bind_eq_some_iff, List.cons_append, List.cons.injEq]
      constructor
      · rintro ⟨bits, hbits, hrest⟩
        obtain ⟨hlt, rfl⟩ := continuation?_eq_some_iff.1 hbits
        obtain ⟨hvalue, rfl⟩ := ih.1 hrest
        refine ⟨by omega, ?_, rfl⟩
        rw [hvalue, spellContinuation, spellContinuation, Nat.mul_add_mod]
      · rintro ⟨hhigh, rfl, rfl⟩
        refine ⟨value / 64 ^ count % 64, ?_, ih.2 ⟨by omega, rfl⟩⟩
        rw [continuation?_spellContinuation]

theorem wide_eq_some_iff {width high value count : Nat} {bytes rest : List UInt8} :
    unit?.wide width high bytes = some (⟨value, count⟩, rest) ↔
      count = width ∧ value / 64 ^ (width - 1) = high ∧
        bytes = spellTail (width - 1) value ++ rest := by
  rw [unit?.wide, Option.map_eq_some_iff, ← continue?_eq_some_iff]
  constructor
  · rintro ⟨⟨found, others⟩, hread, heq⟩
    cases heq
    exact ⟨rfl, hread⟩
  · rintro ⟨rfl, hread⟩
    exact ⟨_, hread, rfl⟩

/-- A leading byte tells the width and the highest bits. -/
theorem unit?_lead {width high : Nat} (h : high < leadRoom width) (bytes : List UInt8) :
    unit? (.ofNat (leadMark width + high) :: bytes) = unit?.wide width high bytes := by
  unfold leadRoom at h
  split at h
  · change unit? (.ofNat (0 + high) :: bytes) = some (⟨high, 1⟩, bytes)
    rw [Nat.zero_add, unit?_cons (by omega), if_pos h]
  · rw [leadMark, unit?_cons (by omega), if_neg (by omega), if_neg (by omega), if_pos (by omega),
      Nat.add_sub_cancel_left]
  · rw [leadMark, unit?_cons (by omega), if_neg (by omega), if_neg (by omega), if_neg (by omega),
      if_pos (by omega), Nat.add_sub_cancel_left]
  · rw [leadMark, unit?_cons (by omega), if_neg (by omega), if_neg (by omega), if_neg (by omega),
      if_neg (by omega), if_pos (by omega), Nat.add_sub_cancel_left]
  · exact absurd h (Nat.not_lt_zero _)

/-- A byte that leads no number is refused. -/
theorem unit?_cons_cases (byte : UInt8) (bytes : List UInt8) :
    unit? (byte :: bytes) = none ∨
      ∃ width high, high < leadRoom width ∧ byte = .ofNat (leadMark width + high) := by
  obtain ⟨lead, hlead, rfl⟩ : ∃ lead, lead < 256 ∧ byte = UInt8.ofNat lead :=
    ⟨byte.toNat, byte.toNat_lt, UInt8.ofNat_toNat.symm⟩
  have hwidth (width : Nat) (hlow : leadMark width ≤ lead)
      (hhigh : lead < leadMark width + leadRoom width) :
      ∃ width high, high < leadRoom width ∧ UInt8.ofNat lead = .ofNat (leadMark width + high) :=
    ⟨width, lead - leadMark width, by omega, by rw [Nat.add_sub_cancel' hlow]⟩
  rw [unit?_cons hlead]
  split
  · exact .inr (hwidth 1 (Nat.zero_le _) (by simp only [leadMark, leadRoom]; omega))
  split
  · exact .inl rfl
  split
  · exact .inr (hwidth 2 (by simp only [leadMark]; omega) (by simp only [leadMark, leadRoom]; omega))
  split
  · exact .inr (hwidth 3 (by simp only [leadMark]; omega) (by simp only [leadMark, leadRoom]; omega))
  split
  · exact .inr (hwidth 4 (by simp only [leadMark]; omega) (by simp only [leadMark, leadRoom]; omega))
  · exact .inl rfl

/-- Bytes are read as a number if they start with the bytes that spell it in that width. -/
theorem unit?_eq_some_iff {value width : Nat} {bytes rest : List UInt8} :
    unit? bytes = some (⟨value, width⟩, rest) ↔
      value / 64 ^ (width - 1) < leadRoom width ∧ bytes = spellWide width value ++ rest := by
  constructor
  · intro h
    cases bytes with
    | nil => cases h
    | cons byte bytes =>
      rcases unit?_cons_cases byte bytes with hnone | ⟨found, high, hroom, rfl⟩
      · rw [hnone] at h
        cases h
      · rw [unit?_lead hroom, wide_eq_some_iff] at h
        obtain ⟨rfl, rfl, rfl⟩ := h
        exact ⟨hroom, rfl⟩
  · rintro ⟨hroom, rfl⟩
    rw [spellWide, List.cons_append, unit?_lead hroom, wide_eq_some_iff]
    exact ⟨rfl, rfl, rfl⟩

theorem char?_eq_some_iff {value : Nat} {c : Char} : char? value = some c ↔ value = c.toNat := by
  constructor
  · intro h
    by_cases hvalid : value.isValidChar
    · rw [char?, dif_pos hvalid] at h
      cases h
      rfl
    · rw [char?, dif_neg hvalid] at h
      cases h
  · rintro rfl
    exact char?_toNat c

/-- The count of bytes that plain UTF-8 has for a number. -/
def plainWidth (value : Nat) : Nat :=
  if value < 0x80 then 1 else if value < 0x800 then 2 else if value < 0x10000 then 3 else 4

/-- The bytes of a character in plain UTF-8 spell its number in the fewest bytes. -/
theorem utf8EncodeChar_eq (c : Char) :
    String.utf8EncodeChar c = spellWide (plainWidth c.toNat) c.toNat := by
  have hcases := toNat_cases c
  have hval : c.val.toNat = c.toNat := rfl
  unfold String.utf8EncodeChar plainWidth
  rw [hval]
  by_cases hone : c.toNat < 0x80
  · rw [if_pos (by omega), if_pos hone]
    simp [spellWide, leadMark, spellTail]
  by_cases htwo : c.toNat < 0x800
  · rw [if_neg (by omega), if_pos (by omega), if_neg hone, if_pos htwo]
    have hlead : c.toNat / 64 % 32 + 192 = 192 + c.toNat / 64 := by omega
    simp [spellWide, leadMark, spellTail, spellContinuation, hlead, Nat.add_comm]
  by_cases hthree : c.toNat < 0x10000
  · rw [if_neg (by omega), if_neg (by omega), if_pos (by omega), if_neg hone, if_neg htwo, if_pos hthree]
    have hlead : c.toNat / 4096 % 16 + 224 = 224 + c.toNat / 4096 := by omega
    simp [spellWide, leadMark, spellTail, spellContinuation, hlead, Nat.add_comm]
  · rw [if_neg (by omega), if_neg (by omega), if_neg (by omega), if_neg hone, if_neg htwo, if_neg hthree]
    have hlead : c.toNat / 262144 % 8 + 240 = 240 + c.toNat / 262144 := by omega
    simp [spellWide, leadMark, spellTail, spellContinuation, hlead, Nat.add_comm]

/-- A number that fits plain UTF-8 is in its shortest form in just one width. -/
theorem isShortest_iff {value width : Nat} (h : value < 0x110000) :
    value / 64 ^ (width - 1) < leadRoom width ∧ (⟨value, width⟩ : Unit).isShortest = true ↔
      width = plainWidth value := by
  rw [Unit.isShortest, decide_eq_true_eq]
  constructor
  · rintro ⟨hroom, hleast⟩
    unfold leadRoom at hroom
    split at hroom
    · rw [plainWidth, if_pos (by simpa using hroom)]
    · simp only [leastOfWidth] at hleast
      rw [plainWidth, if_neg (by omega), if_pos (by omega)]
    · simp only [leastOfWidth] at hleast
      rw [plainWidth, if_neg (by omega), if_neg (by omega), if_pos (by omega)]
    · simp only [leastOfWidth] at hleast
      rw [plainWidth, if_neg (by omega), if_neg (by omega), if_neg (by omega)]
    · exact absurd hroom (Nat.not_lt_zero _)
  · rintro rfl
    unfold plainWidth
    split
    · simpa [leadRoom, leastOfWidth]
    split
    · simp only [leadRoom, leastOfWidth]
      omega
    split
    · simp only [leadRoom, leastOfWidth]
      omega
    · simp only [leadRoom, leastOfWidth]
      omega

/-- Three bytes have room for sixteen bits. -/
theorem lt_of_leadRoom {value width : Nat} (hroom : value / 64 ^ (width - 1) < leadRoom width)
    (hwidth : width ≤ 3) : value < 0x10000 := by
  unfold leadRoom at hroom
  split at hroom
  case h_5 => exact absurd hroom (Nat.not_lt_zero _)
  all_goals omega

/-- A number is spelled in modified UTF-8 in just one width. -/
theorem isModified_iff {value width : Nat} :
    value / 64 ^ (width - 1) < leadRoom width ∧ (⟨value, width⟩ : Unit).isModified = true ↔
      value < 0x10000 ∧ width = (spellUnit value).length := by
  rw [Unit.isModified]
  by_cases hzero : value = 0
  · subst hzero
    simp only [if_true, decide_eq_true_eq, length_spellUnit, Nat.zero_div]
    constructor
    · rintro ⟨-, rfl⟩
      decide
    · rintro ⟨-, rfl⟩
      decide
  · have hlength (h : value < 0x10000) : (spellUnit value).length = plainWidth value := by
      rw [length_spellUnit, plainWidth, if_pos h]
      simp [Nat.pos_of_ne_zero hzero]
    rw [if_neg hzero, Bool.and_eq_true, decide_eq_true_eq]
    constructor
    · rintro ⟨hroom, hshort, hwidth⟩
      have hvalue := lt_of_leadRoom hroom hwidth
      exact ⟨hvalue, ((isShortest_iff (by omega)).1 ⟨hroom, hshort⟩).trans (hlength hvalue).symm⟩
    · rintro ⟨hvalue, rfl⟩
      obtain ⟨hroom, hshort⟩ := (isShortest_iff (by omega)).2 (hlength hvalue)
      refine ⟨hroom, hshort, ?_⟩
      change (spellUnit value).length ≤ 3
      rw [length_spellUnit]
      split
      · decide
      · split <;> decide

theorem spellUnit_eq (value : Nat) : spellUnit value = spellWide (spellUnit value).length value := by
  rw [length_spellUnit, spellUnit]
  split
  · simp [spellWide, leadMark, spellTail]
  split
  · simp [spellWide, leadMark, spellTail]
  · simp [spellWide, leadMark, spellTail]

/-- A character other than U+0000 is read as plain UTF-8 from just the bytes that encode it. -/
theorem plainChar?_eq_some_iff {bytes rest : List UInt8} {c : Char} :
    plainChar? bytes = some (c, rest) ↔
      c ≠ '\x00' ∧ bytes = String.utf8EncodeChar c ++ rest := by
  have hlimit : c.toNat < 0x110000 := by
    have hcases := toNat_cases c
    omega
  have hnul : c ≠ '\x00' ↔ c.toNat ≠ 0 := not_congr (Char.toNat_inj (d := '\x00')).symm
  rw [hnul, utf8EncodeChar_eq]
  constructor
  · intro h
    cases hunit : unit? bytes with
    | none =>
      rw [plainChar?, hunit] at h
      cases h
    | some found =>
      obtain ⟨⟨value, width⟩, others⟩ := found
      rw [plainChar?_of_unit hunit] at h
      split at h
      · next hshort =>
        rw [Bool.and_eq_true, decide_eq_true_eq] at hshort
        obtain ⟨d, hchar, heq⟩ := Option.map_eq_some_iff.1 h
        cases heq
        obtain rfl := char?_eq_some_iff.1 hchar
        obtain ⟨hroom, rfl⟩ := unit?_eq_some_iff.1 hunit
        exact ⟨hshort.2, by rw [(isShortest_iff hlimit).1 ⟨hroom, hshort.1⟩]⟩
      · cases h
  · rintro ⟨hzero, rfl⟩
    obtain ⟨hroom, hshort⟩ := (isShortest_iff hlimit).2 rfl
    rw [plainChar?_of_unit (unit?_eq_some_iff.2 ⟨hroom, rfl⟩), if_pos, char?_toNat]
    · rfl
    · rw [hshort, decide_eq_true hzero]
      rfl

theorem isHighSurrogate_iff {value : Nat} :
    isHighSurrogate value = true ↔ 0xD800 ≤ value ∧ value < 0xDC00 := by
  rw [isHighSurrogate, Bool.and_eq_true, decide_eq_true_eq, decide_eq_true_eq]

theorem isLowSurrogate_iff {value : Nat} :
    isLowSurrogate value = true ↔ 0xDC00 ≤ value ∧ value < 0xE000 := by
  rw [isLowSurrogate, Bool.and_eq_true, decide_eq_true_eq, decide_eq_true_eq]

/-- Two surrogates are those of the character that they stand for. -/
theorem spellChar_ofSurrogates {high low : Nat} {c : Char} (hhigh : isHighSurrogate high = true)
    (hlow : isLowSurrogate low = true) (h : ofSurrogates high low = c.toNat) :
    spellChar c = spellUnit high ++ spellUnit low := by
  rw [isHighSurrogate_iff] at hhigh
  rw [isLowSurrogate_iff] at hlow
  unfold ofSurrogates at h
  have hfirst : highSurrogate c = high := by
    unfold highSurrogate
    omega
  have hsecond : lowSurrogate c = low := by
    unfold lowSurrogate
    omega
  rw [spellChar, if_neg (by omega), hfirst, hsecond]

/-- What modified UTF-8 asks of the first number, and of the second where the first is a surrogate. -/
theorem modifiedChar?_cases {bytes rest : List UInt8} {c : Char}
    (h : modifiedChar? bytes = some (c, rest)) :
    ∃ first between, unit? bytes = some (first, between) ∧ first.isModified = true ∧
      (first.value = c.toNat ∧ between = rest ∨
        ∃ second, unit? between = some (second, rest) ∧ second.width = 3 ∧
          isHighSurrogate first.value = true ∧ isLowSurrogate second.value = true ∧
          ofSurrogates first.value second.value = c.toNat) := by
  cases hfirst : unit? bytes with
  | none =>
    rw [modifiedChar?, hfirst] at h
    cases h
  | some found =>
    obtain ⟨first, between⟩ := found
    refine ⟨first, between, rfl, ?_⟩
    cases hmodified : first.isModified with
    | false =>
      rw [modifiedChar?_eq hfirst, hmodified] at h
      cases h
    | true =>
      refine ⟨rfl, ?_⟩
      cases hhigh : isHighSurrogate first.value with
      | false =>
        rw [modifiedChar?_of_unit hfirst hmodified hhigh] at h
        obtain ⟨d, hchar, heq⟩ := Option.map_eq_some_iff.1 h
        cases heq
        exact .inl ⟨char?_eq_some_iff.1 hchar, rfl⟩
      | true =>
        cases hsecond : unit? between with
        | none =>
          rw [modifiedChar?_eq hfirst, hmodified, hhigh, hsecond] at h
          cases h
        | some found =>
          obtain ⟨second, others⟩ := found
          cases hlow : (second.width = 3 && isLowSurrogate second.value : Bool) with
          | false =>
            rw [modifiedChar?_eq hfirst, hmodified, hhigh, hsecond, if_pos rfl, Option.bind_some, hlow] at h
            cases h
          | true =>
            rw [modifiedChar?_of_surrogates hfirst hsecond hmodified hhigh hlow] at h
            obtain ⟨d, hchar, heq⟩ := Option.map_eq_some_iff.1 h
            cases heq
            rw [Bool.and_eq_true, decide_eq_true_eq] at hlow
            exact .inr ⟨second, rfl, hlow.1, rfl, hlow.2, char?_eq_some_iff.1 hchar⟩

/-- A number that modified UTF-8 admits is read from just the bytes that spell it. -/
theorem eq_spellUnit_of_isModified {bytes rest : List UInt8} {unit : Unit}
    (h : unit? bytes = some (unit, rest)) (hmodified : unit.isModified = true) :
    unit.value < 0x10000 ∧ bytes = spellUnit unit.value ++ rest := by
  obtain ⟨hroom, hbytes⟩ := unit?_eq_some_iff.1 h
  obtain ⟨hvalue, hwidth⟩ := isModified_iff.1 ⟨hroom, hmodified⟩
  refine ⟨hvalue, ?_⟩
  rw [hbytes, spellUnit_eq, ← hwidth]

/-- A character is read as modified UTF-8 from just the bytes that spell it. -/
theorem modifiedChar?_eq_some_iff {bytes rest : List UInt8} {c : Char} :
    modifiedChar? bytes = some (c, rest) ↔ bytes = spellChar c ++ rest := by
  constructor
  · intro h
    obtain ⟨first, between, hfirst, hmodified, hplain | hpair⟩ := modifiedChar?_cases h
    · obtain ⟨hchar, rfl⟩ := hplain
      obtain ⟨hsmall, rfl⟩ := eq_spellUnit_of_isModified hfirst hmodified
      rw [hchar] at hsmall ⊢
      rw [spellChar, if_pos hsmall]
    · obtain ⟨second, hsecond, hwidth, hhigh, hlow, hchar⟩ := hpair
      -- A surrogate has no shorter form than three bytes.
      have hshort : second.isModified = true := by
        rw [isLowSurrogate_iff] at hlow
        rw [Unit.isModified, if_neg (by omega), Unit.isShortest, hwidth, leastOfWidth]
        simp
        omega
      obtain ⟨-, rfl⟩ := eq_spellUnit_of_isModified hfirst hmodified
      obtain ⟨-, rfl⟩ := eq_spellUnit_of_isModified hsecond hshort
      rw [spellChar_ofSurrogates hhigh hlow hchar, List.append_assoc]
  · rintro rfl
    exact modifiedChar?_spellChar c rest

/-- A text with at least one byte is its first character and the text of the rest. -/
theorem chars?_cons_eq_some_iff {step : List UInt8 → Option (Char × List UInt8)} {limit : Nat}
    {byte : UInt8} {bytes : List UInt8} {cs : List Char} :
    chars? step (limit + 1) (byte :: bytes) = some cs ↔
      ∃ c rest others, step (byte :: bytes) = some (c, rest) ∧
        chars? step limit rest = some others ∧ c :: others = cs := by
  rw [chars?, Option.bind_eq_bind, Option.bind_eq_some_iff]
  constructor
  · rintro ⟨⟨c, rest⟩, hread, hrest⟩
    obtain ⟨others, hothers, hcs⟩ := Option.bind_eq_some_iff.1 hrest
    exact ⟨c, rest, others, hread, hothers, Option.some.inj hcs⟩
  · rintro ⟨c, rest, others, hread, hothers, rfl⟩
    exact ⟨(c, rest), hread, Option.bind_eq_some_iff.2 ⟨others, hothers, rfl⟩⟩

/-- Where a character is read from just the bytes that `encode` gives for it, so is a text. -/
theorem chars?_eq_some_iff {step : List UInt8 → Option (Char × List UInt8)} {admits : Char → Prop}
    {encode : Char → List UInt8} (hne : ∀ c, encode c ≠ [])
    (hstep : ∀ {bytes rest c}, step bytes = some (c, rest) ↔ admits c ∧ bytes = encode c ++ rest)
    {limit : Nat} {bytes : List UInt8} {cs : List Char} (hlimit : bytes.length ≤ limit) :
    chars? step limit bytes = some cs ↔ (∀ c ∈ cs, admits c) ∧ bytes = cs.flatMap encode := by
  induction limit generalizing bytes cs with
  | zero =>
    obtain rfl := List.length_eq_zero_iff.1 (Nat.le_zero.1 hlimit)
    cases cs with
    | nil => simp [chars?]
    | cons c cs => simp [chars?, hne c]
  | succ limit ih =>
    cases bytes with
    | nil =>
      cases cs with
      | nil => simp [chars?]
      | cons c cs => simp [chars?, hne c]
    | cons byte bytes =>
      rw [chars?_cons_eq_some_iff]
      constructor
      · rintro ⟨c, rest, others, hread, hothers, rfl⟩
        obtain ⟨hadmits, hbytes⟩ := hstep.1 hread
        have hshorter : rest.length ≤ limit := by
          have hlength := congrArg List.length hbytes
          have hpos := List.length_pos_iff.2 (hne c)
          rw [List.length_append] at hlength
          omega
        obtain ⟨hall, rfl⟩ := (ih hshorter).1 hothers
        exact ⟨List.forall_mem_cons.2 ⟨hadmits, hall⟩, hbytes⟩
      · rintro ⟨hall, hbytes⟩
        cases cs with
        | nil => cases hbytes
        | cons c cs =>
          obtain ⟨hadmits, hothers⟩ := List.forall_mem_cons.1 hall
          rw [List.flatMap_cons] at hbytes
          refine ⟨c, cs.flatMap encode, cs, hstep.2 ⟨hadmits, hbytes⟩, ?_, rfl⟩
          refine (ih ?_).2 ⟨hothers, rfl⟩
          have hlength := congrArg List.length hbytes
          have hpos := List.length_pos_iff.2 (hne c)
          rw [List.length_append] at hlength
          omega

/-- A text in plain UTF-8. -/
def plainBytes (text : String) : List UInt8 :=
  text.toUTF8.data.toList

theorem plainBytes_eq (text : String) :
    plainBytes text = text.toList.flatMap String.utf8EncodeChar := by
  have hencode : text.toUTF8 = (text.toList.flatMap String.utf8EncodeChar).toByteArray :=
    String.utf8Encode_toList.symm
  rw [plainBytes, hencode]
  simp

theorem decodeWith?_eq_some_iff {step : List UInt8 → Option (Char × List UInt8)}
    {bytes : List UInt8} {text : String} :
    decodeWith? step bytes = some text ↔ chars? step bytes.length bytes = some text.toList := by
  rw [decodeWith?, Option.map_eq_some_iff]
  constructor
  · rintro ⟨cs, hcs, rfl⟩
    rw [hcs, String.toList_ofList]
  · intro h
    exact ⟨text.toList, h, String.ofList_toList⟩

/-- Bytes are plain UTF-8 of a text if they are its encoding and it has no U+0000. -/
theorem decodeWith?_plainChar?_eq_some_iff {bytes : List UInt8} {text : String} :
    decodeWith? plainChar? bytes = some text ↔
      bytes = plainBytes text ∧ '\x00' ∉ text.toList := by
  rw [decodeWith?_eq_some_iff,
    chars?_eq_some_iff (fun c => String.utf8EncodeChar_ne_nil) plainChar?_eq_some_iff (Nat.le_refl _),
    plainBytes_eq, and_comm]
  refine and_congr_right fun _ => ⟨fun h hnul => h _ hnul rfl, fun h c hc heq => h (heq ▸ hc)⟩

/-- Bytes are modified UTF-8 of a text if they spell it. -/
theorem decodeWith?_modifiedChar?_eq_some_iff {bytes : List UInt8} {text : String} :
    decodeWith? modifiedChar? bytes = some text ↔ bytes = spell text := by
  have hstep {bytes rest : List UInt8} {c : Char} :
      modifiedChar? bytes = some (c, rest) ↔ True ∧ bytes = spellChar c ++ rest := by
    rw [true_and, modifiedChar?_eq_some_iff]
  rw [decodeWith?_eq_some_iff, chars?_eq_some_iff spellChar_ne_nil hstep (Nat.le_refl _), spell]
  exact and_iff_right fun _ _ => trivial

theorem decode?_of_plain {bytes : List UInt8} {text : String}
    (h : decodeWith? plainChar? bytes = some text) : decode? bytes = some text := by
  rw [decode?, h]
  rfl

/-- Both ways to decode agree where neither refuses the bytes. -/
theorem decodeWith?_agree {bytes : List UInt8} {plain modified : String}
    (hplain : decodeWith? plainChar? bytes = some plain)
    (hmodified : decodeWith? modifiedChar? bytes = some modified) : plain = modified := by
  obtain rfl := decodeWith?_modifiedChar?_eq_some_iff.1 hmodified
  exact Option.some.inj ((decode?_of_plain hplain).symm.trans (decode?_spell modified))

/-- Bytes are decoded to a text just if they are its plain UTF-8 and it has no U+0000, or if they are its
modified UTF-8. So both encodings are decoded, and the two ways to decode never give different texts. -/
theorem decode?_exact (bytes : List UInt8) (text : String) :
    (decode? bytes = some text ↔
      bytes = plainBytes text ∧ '\x00' ∉ text.toList ∨ bytes = spell text) ∧
    ('\x00' ∉ text.toList → decode? (plainBytes text) = some text) ∧
    decode? (spell text) = some text ∧
    ∀ plain modified, decodeWith? plainChar? bytes = some plain →
      decodeWith? modifiedChar? bytes = some modified → plain = modified := by
  refine ⟨⟨fun h => ?_, ?_⟩, fun hnul => ?_, decode?_spell text, fun _ _ => decodeWith?_agree⟩
  · cases hplain : decodeWith? plainChar? bytes with
    | some found =>
      obtain rfl := Option.some.inj ((decode?_of_plain hplain).symm.trans h)
      exact .inl (decodeWith?_plainChar?_eq_some_iff.1 hplain)
    | none =>
      rw [decode?, hplain] at h
      exact .inr (decodeWith?_modifiedChar?_eq_some_iff.1 h)
  · rintro (hplain | rfl)
    · exact decode?_of_plain (decodeWith?_plainChar?_eq_some_iff.2 hplain)
    · exact decode?_spell text
  · exact decode?_of_plain (decodeWith?_plainChar?_eq_some_iff.2 ⟨rfl, hnul⟩)

/-- A character beyond U+FFFF takes four bytes in plain UTF-8 and two surrogates in modified UTF-8. What
has neither such a character nor U+0000 is spelled the same way in both. -/
theorem decode?_exact_supplementary :
    ('\x00' ∉ "é😀".toList ∧ plainBytes "é😀" = [0xC3, 0xA9, 0xF0, 0x9F, 0x98, 0x80] ∧
      spell "é😀" = [0xC3, 0xA9, 0xED, 0xA0, 0xBD, 0xED, 0xB8, 0x80] ∧
      decode? (plainBytes "é😀") = some "é😀" ∧ decode? (spell "é😀") = some "é😀") ∧
    decodeWith? plainChar? [0xC3, 0xA9] = some "é" ∧
      decodeWith? modifiedChar? [0xC3, 0xA9] = some "é" := by
  have hnul : '\x00' ∉ "é😀".toList := by decide +kernel
  have hplain : decodeWith? plainChar? [0xC3, 0xA9] = some "é" := by decide +kernel
  obtain ⟨-, hdecodePlain, hdecodeSpell, hagree⟩ := decode?_exact [0xC3, 0xA9] "é😀"
  refine ⟨⟨hnul, by decide +kernel, by decide +kernel, hdecodePlain hnul, hdecodeSpell⟩, hplain, ?_⟩
  obtain ⟨modified, hmodified⟩ : ∃ text, decodeWith? modifiedChar? [0xC3, 0xA9] = some text :=
    ⟨"é", by decide +kernel⟩
  rw [hmodified, hagree _ _ hplain hmodified]

end LinkCheck.Utf8Text
