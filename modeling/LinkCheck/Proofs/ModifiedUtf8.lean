import LinkCheck.ClassFile.Utf8Text

/-!
# Text in modified UTF-8

How a text is spelled in a class file, and that it is read back. A text with U+0000 or with characters beyond
U+FFFF is no plain UTF-8 when it is spelled so, and is then read as modified UTF-8. Any other text is
spelled the same way in both.

## Main definitions

- `Utf8Text.spellUnit` — a number in one to three bytes
- `Utf8Text.spellChar`, `Utf8Text.spell` — a character and a text in modified UTF-8

## Main results

- `Utf8Text.unit?_spellUnit` — a number is read back
- `Utf8Text.modifiedChar?_spellChar` — a character is read back
- `Utf8Text.plainChar?_spellChar` — a character is read back as plain UTF-8, or not at all
- `Utf8Text.decode?_spell` — a text is read back
-/

namespace LinkCheck.Utf8Text

/-- A byte that carries six bits of a number. -/
def spellContinuation (bits : Nat) : UInt8 :=
  .ofNat (0x80 + bits % 64)

/-- A number of at most sixteen bits, in the fewest bytes except that zero takes two. -/
def spellUnit (value : Nat) : List UInt8 :=
  if 0 < value ∧ value < 0x80 then [.ofNat value]
  else if value < 0x800 then [.ofNat (0xC0 + value / 64), spellContinuation value]
  else [.ofNat (0xE0 + value / 4096), spellContinuation (value / 64), spellContinuation value]

theorem continuation?_spellContinuation (bits : Nat) :
    continuation? (spellContinuation bits) = some (bits % 64) := by
  have hbits : bits % 64 < 64 := Nat.mod_lt _ (by decide)
  have hbyte : (spellContinuation bits).toNat = 0x80 + bits % 64 := by
    rw [spellContinuation, UInt8.toNat_ofNat_of_lt' (by simp [UInt8.size]; omega)]
  have hrange : 0x80 ≤ spellContinuation bits ∧ spellContinuation bits < 0xC0 := by
    rw [UInt8.le_iff_toNat_le, UInt8.lt_iff_toNat_lt, hbyte]
    simp
    omega
  rw [continuation?, if_pos hrange, hbyte, Nat.add_sub_cancel_left]

theorem continue?_spellContinuation (count value bits : Nat) (rest : List UInt8) :
    continue? (count + 1) value (spellContinuation bits :: rest) =
      continue? count (64 * value + bits % 64) rest := by
  rw [continue?, continuation?_spellContinuation]
  rfl

/-- A leading byte tells how many bytes follow. -/
theorem unit?_cons {lead : Nat} (h : lead < 256) (bytes : List UInt8) :
    unit? (.ofNat lead :: bytes) =
      if lead < 0x80 then some (⟨lead, 1⟩, bytes)
      else if lead < 0xC0 then none
      else if lead < 0xE0 then unit?.wide 2 (lead - 0xC0) bytes
      else if lead < 0xF0 then unit?.wide 3 (lead - 0xE0) bytes
      else if lead < 0xF8 then unit?.wide 4 (lead - 0xF0) bytes
      else none := by
  have hlead : (UInt8.ofNat lead).toNat = lead := UInt8.toNat_ofNat_of_lt' h
  simp only [unit?, UInt8.lt_iff_toNat_lt, hlead]
  rfl

/-- A number is read back with the count of its bytes. -/
theorem unit?_spellUnit {value : Nat} (h : value < 0x10000) (rest : List UInt8) :
    unit? (spellUnit value ++ rest) = some (⟨value, (spellUnit value).length⟩, rest) := by
  unfold spellUnit
  split
  · next hone =>
    rw [List.singleton_append, unit?_cons (by omega), if_pos hone.2]
    rfl
  · split
    · next htwo =>
      have hsum : 64 * (0xC0 + value / 64 - 0xC0) + value % 64 = value := by omega
      rw [List.cons_append, List.singleton_append, unit?_cons (by omega), if_neg (by omega),
        if_neg (by omega), if_pos (by omega), unit?.wide, continue?_spellContinuation, hsum]
      rfl
    · have hsum : 64 * (64 * (0xE0 + value / 4096 - 0xE0) + value / 64 % 64) + value % 64 = value := by
        omega
      rw [List.cons_append, List.cons_append, List.singleton_append, unit?_cons (by omega),
        if_neg (by omega), if_neg (by omega), if_neg (by omega), if_pos (by omega), unit?.wide,
        continue?_spellContinuation, continue?_spellContinuation, hsum]
      rfl

theorem spellUnit_ne_nil (value : Nat) : spellUnit value ≠ [] := by
  unfold spellUnit
  split
  · exact List.cons_ne_nil _ _
  · split <;> exact List.cons_ne_nil _ _

theorem length_spellUnit (value : Nat) : (spellUnit value).length =
    if 0 < value ∧ value < 0x80 then 1 else if value < 0x800 then 2 else 3 := by
  unfold spellUnit
  split
  · rfl
  · split <;> rfl

/-- Numbers are spelled as modified UTF-8 asks for. -/
theorem isModified_spellUnit (value : Nat) :
    (⟨value, (spellUnit value).length⟩ : Unit).isModified = true := by
  rw [length_spellUnit, Unit.isModified, Unit.isShortest]
  by_cases hzero : value = 0
  · simp [hzero]
  · rw [if_neg hzero]
    split
    · simp [leastOfWidth]
    · split
      · simp [leastOfWidth]
        omega
      · simp [leastOfWidth]
        omega

/-- The first surrogate of a character beyond U+FFFF. -/
def highSurrogate (c : Char) : Nat :=
  0xD800 + (c.toNat - 0x10000) / 0x400

/-- The second surrogate of a character beyond U+FFFF. -/
def lowSurrogate (c : Char) : Nat :=
  0xDC00 + (c.toNat - 0x10000) % 0x400

/-- A character in modified UTF-8: one beyond U+FFFF is spelled as its two surrogates. -/
def spellChar (c : Char) : List UInt8 :=
  if c.toNat < 0x10000 then spellUnit c.toNat
  else spellUnit (highSurrogate c) ++ spellUnit (lowSurrogate c)

theorem spellChar_ne_nil (c : Char) : spellChar c ≠ [] := by
  unfold spellChar
  split
  · exact spellUnit_ne_nil _
  · exact List.append_ne_nil_of_left_ne_nil (spellUnit_ne_nil _) _

/-- A character is no surrogate. -/
theorem toNat_cases (c : Char) : c.toNat < 0xD800 ∨ 0xDFFF < c.toNat ∧ c.toNat < 0x110000 :=
  c.valid

theorem char?_toNat (c : Char) : char? c.toNat = some c := by
  have hvalid : c.toNat.isValidChar := c.valid
  rw [char?, dif_pos hvalid]
  rfl

theorem highSurrogate_range (c : Char) : 0xD800 ≤ highSurrogate c ∧ highSurrogate c < 0xDC00 := by
  have hcases := toNat_cases c
  unfold highSurrogate
  omega

theorem lowSurrogate_range (c : Char) : 0xDC00 ≤ lowSurrogate c ∧ lowSurrogate c < 0xE000 := by
  unfold lowSurrogate
  omega

theorem ofSurrogates_eq {c : Char} (h : ¬ c.toNat < 0x10000) :
    ofSurrogates (highSurrogate c) (lowSurrogate c) = c.toNat := by
  unfold ofSurrogates highSurrogate lowSurrogate
  omega

theorem char?_highSurrogate (c : Char) : char? (highSurrogate c) = none := by
  have hrange := highSurrogate_range c
  rw [char?, dif_neg]
  unfold Nat.isValidChar
  omega

/-- What is done with the first number that is read. -/
theorem modifiedChar?_eq {bytes between : List UInt8} {first : Unit}
    (h : unit? bytes = some (first, between)) :
    modifiedChar? bytes = (guard (first.isModified = true) : Option PUnit).bind fun _ =>
      if isHighSurrogate first.value then
        (unit? between).bind fun found =>
          (guard ((found.1.width = 3 && isLowSurrogate found.1.value) = true) : Option PUnit).bind
            fun _ => (char? (ofSurrogates first.value found.1.value)).bind fun c => some (c, found.2)
      else (char? first.value).bind fun c => some (c, between) := by
  rw [modifiedChar?, h]
  rfl

theorem modifiedChar?_of_unit {bytes rest : List UInt8} {unit : Unit}
    (hunit : unit? bytes = some (unit, rest)) (hmodified : unit.isModified = true)
    (hhigh : isHighSurrogate unit.value = false) :
    modifiedChar? bytes = (char? unit.value).map (·, rest) := by
  rw [modifiedChar?_eq hunit, hmodified, hhigh]
  cases char? unit.value <;> rfl

theorem modifiedChar?_of_surrogates {bytes between rest : List UInt8} {first second : Unit}
    (hfirst : unit? bytes = some (first, between)) (hsecond : unit? between = some (second, rest))
    (hmodified : first.isModified = true) (hhigh : isHighSurrogate first.value = true)
    (hlow : (second.width = 3 && isLowSurrogate second.value) = true) :
    modifiedChar? bytes = (char? (ofSurrogates first.value second.value)).map (·, rest) := by
  rw [modifiedChar?_eq hfirst, hmodified, hhigh, hsecond, Option.bind_some, hlow]
  generalize char? (ofSurrogates first.value second.value) = found
  cases found <;> rfl

theorem plainChar?_of_unit {bytes rest : List UInt8} {unit : Unit}
    (hunit : unit? bytes = some (unit, rest)) :
    plainChar? bytes =
      if (unit.isShortest && unit.value ≠ 0) = true then (char? unit.value).map (·, rest) else none := by
  rw [plainChar?, hunit]
  change ((guard ((unit.isShortest && unit.value ≠ 0) = true) : Option PUnit) >>= fun _ =>
    char? unit.value >>= _) = _
  cases (unit.isShortest && unit.value ≠ 0) with
  | true => cases char? unit.value <;> rfl
  | false => rfl

/-- A character is read back. -/
theorem modifiedChar?_spellChar (c : Char) (rest : List UInt8) :
    modifiedChar? (spellChar c ++ rest) = some (c, rest) := by
  unfold spellChar
  split
  · next hsmall =>
    have hhigh : isHighSurrogate c.toNat = false := by
      have hcases := toNat_cases c
      simp [isHighSurrogate]
      omega
    rw [modifiedChar?_of_unit (unit?_spellUnit hsmall rest) (isModified_spellUnit _) hhigh,
      char?_toNat]
    rfl
  · next hlarge =>
    have hhigh := highSurrogate_range c
    have hlow := lowSurrogate_range c
    have hwidth : (spellUnit (lowSurrogate c)).length = 3 := by
      rw [length_spellUnit, if_neg (by omega), if_neg (by omega)]
    have hfirst := unit?_spellUnit (by omega : highSurrogate c < 0x10000)
      (spellUnit (lowSurrogate c) ++ rest)
    have hsecond := unit?_spellUnit (by omega : lowSurrogate c < 0x10000) rest
    rw [List.append_assoc, modifiedChar?_of_surrogates hfirst hsecond (isModified_spellUnit _)
      (by simpa [isHighSurrogate] using hhigh) (by simpa [isLowSurrogate, hwidth] using hlow),
      ofSurrogates_eq hlarge, char?_toNat]
    rfl

/-- A character is read back as plain UTF-8, or not at all. -/
theorem plainChar?_spellChar (c : Char) (rest : List UInt8) :
    plainChar? (spellChar c ++ rest) = some (c, rest) ∨ plainChar? (spellChar c ++ rest) = none := by
  unfold spellChar
  split
  · next hsmall =>
    rw [plainChar?_of_unit (unit?_spellUnit hsmall rest), char?_toNat]
    split
    · exact .inl rfl
    · exact .inr rfl
  · -- A surrogate that stands first is no character of plain UTF-8.
    have hhigh := highSurrogate_range c
    rw [List.append_assoc, plainChar?_of_unit (unit?_spellUnit (by omega) _), char?_highSurrogate]
    exact .inr (ite_self none)

/-- A text in modified UTF-8. -/
def spell (text : String) : List UInt8 :=
  text.toList.flatMap spellChar

theorem length_le_length_flatMap (cs : List Char) : cs.length ≤ (cs.flatMap spellChar).length := by
  induction cs with
  | nil => exact Nat.le_refl 0
  | cons c cs ih =>
    have hpos := List.length_pos_iff.2 (spellChar_ne_nil c)
    rw [List.flatMap_cons, List.length_append, List.length_cons]
    omega

variable {step : List UInt8 → Option (Char × List UInt8)}

theorem chars?_append {limit : Nat} {c : Char} {rest : List UInt8}
    (h : step (spellChar c ++ rest) = some (c, rest)) :
    chars? step (limit + 1) (spellChar c ++ rest) = (chars? step limit rest).map (c :: ·) := by
  cases hbytes : spellChar c ++ rest with
  | nil => exact absurd (List.append_eq_nil_iff.1 hbytes).1 (spellChar_ne_nil c)
  | cons byte bytes =>
    rw [hbytes] at h
    rw [chars?, h]
    change (chars? step limit rest >>= fun others => some (c :: others)) = _
    cases chars? step limit rest <;> rfl

theorem chars?_append_refused {limit : Nat} {c : Char} {rest : List UInt8}
    (h : step (spellChar c ++ rest) = none) : chars? step limit (spellChar c ++ rest) = none := by
  cases hbytes : spellChar c ++ rest with
  | nil => exact absurd (List.append_eq_nil_iff.1 hbytes).1 (spellChar_ne_nil c)
  | cons byte bytes =>
    rw [hbytes] at h
    cases limit with
    | zero => rfl
    | succ limit =>
      rw [chars?, h]
      rfl

/-- Where each character is read back or refused, so is a text. -/
theorem chars?_flatMap_or
    (h : ∀ c rest, step (spellChar c ++ rest) = some (c, rest) ∨ step (spellChar c ++ rest) = none)
    {limit : Nat} {cs : List Char} (hlimit : cs.length ≤ limit) :
    chars? step limit (cs.flatMap spellChar) = some cs ∨
      chars? step limit (cs.flatMap spellChar) = none := by
  induction cs generalizing limit with
  | nil => cases limit <;> exact .inl rfl
  | cons c cs ih =>
    cases limit with
    | zero => exact absurd hlimit (Nat.not_succ_le_zero _)
    | succ limit =>
      rw [List.flatMap_cons]
      rcases h c (cs.flatMap spellChar) with hread | hrefused
      · rw [chars?_append hread]
        exact (ih (Nat.le_of_succ_le_succ hlimit)).imp (fun hrest => by rw [hrest]; rfl)
          fun hrest => by rw [hrest]; rfl
      · exact .inr (chars?_append_refused hrefused)

/-- Where each character is read back, so is a text. -/
theorem chars?_flatMap (h : ∀ c rest, step (spellChar c ++ rest) = some (c, rest)) {limit : Nat}
    {cs : List Char} (hlimit : cs.length ≤ limit) :
    chars? step limit (cs.flatMap spellChar) = some cs := by
  induction cs generalizing limit with
  | nil => cases limit <;> rfl
  | cons c cs ih =>
    cases limit with
    | zero => exact absurd hlimit (Nat.not_succ_le_zero _)
    | succ limit =>
      rw [List.flatMap_cons, chars?_append (h c _), ih (Nat.le_of_succ_le_succ hlimit)]
      rfl

/-- A text is read back. Where plain UTF-8 does not refuse it, both spellings are the same. -/
theorem decode?_spell (text : String) : decode? (spell text) = some text := by
  have hlimit := length_le_length_flatMap text.toList
  have hmodified : decodeWith? modifiedChar? (spell text) = some text := by
    rw [decodeWith?, spell, chars?_flatMap modifiedChar?_spellChar hlimit, Option.map_some,
      String.ofList_toList]
  rw [decode?, hmodified]
  rcases chars?_flatMap_or plainChar?_spellChar hlimit with hplain | hplain
  · rw [decodeWith?, spell, hplain, Option.map_some, String.ofList_toList]
    rfl
  · rw [decodeWith?, spell, hplain]
    rfl

end LinkCheck.Utf8Text
