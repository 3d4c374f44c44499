import FosKernel.Refinement.Format

/-! # Numerals

What `printnum` emits is the positional representation of a number, and `strtol` reads a
positional representation back.
-/

namespace FosKernel.Text

/-- The digits of a number, from the most significant one on. -/
def Base.digits (base : Base) (num : Nat) : List Char := Nat.toDigits base.value num

/-- Emitted characters as they are stored. -/
def stored (out : List Int) : List Byte := out.map (BitVec.ofInt 8)

@[simp] theorem stored_append (first second : List Int) :
    stored (first ++ second) = stored first ++ stored second := List.map_append

@[simp] theorem stored_replicate (count : Nat) (char : Char) :
    stored (List.replicate count (code char)) = List.replicate count (character char) := by
  rw [stored, List.map_replicate]
  rfl

@[simp] theorem stored_code (text : List Char) :
    stored (text.map code) = text.map character := by
  rw [stored, List.map_map]
  exact List.map_congr_left fun char _ => BitVec.ofInt_natCast ..

section Digits

variable {base : Base} {num : Nat}

theorem Base.digits_of_lt (small : num < base.value) : base.digits num = [num.digitChar] :=
  Nat.toDigits_of_lt_base small

theorem Base.digits_of_le (large : base.value ≤ num) :
    base.digits num = base.digits (num / base.value) ++ [(num % base.value).digitChar] :=
  Nat.toDigits_of_base_le base.two_le large

theorem Base.digits_length_pos : 0 < (base.digits num).length := Nat.length_toDigits_pos

theorem Base.digits_length_le {bits : Nat} (positive : 0 < bits) (small : num < 2 ^ bits) :
    (base.digits num).length ≤ bits := by
  refine (Nat.length_toDigits_le_iff base.two_le positive).mpr ?_
  exact Nat.lt_of_lt_of_le small (Nat.pow_le_pow_left base.two_le bits)

/-- Induction on the digits, from the most significant one on. -/
theorem Base.digits_induction {motive : Nat → Prop} (base : Base)
    (single : ∀ num, num < base.value → motive num)
    (digit : ∀ num, base.value ≤ num → motive (num / base.value) → motive num) (num : Nat) :
    motive num := by
  induction num using Nat.strongRecOn with
  | ind num induction =>
      by_cases small : num < base.value
      · exact single num small
      · have := base.two_le
        exact digit num (by omega) (induction _ (Nat.div_lt_self (by omega) (by omega)))

theorem digitTable_getD {digit : Nat} (small : digit < 16) :
    digitTable.getD digit ' ' = digit.digitChar := by
  revert digit
  decide

theorem Base.mod_lt_sixteen (base : Base) (num : Nat) : num % base.value < 16 :=
  Nat.lt_of_lt_of_le (Nat.mod_lt _ (by have := base.two_le; omega)) base.le_sixteen

/-- The pads come first: the width counts down to the innermost call. -/
theorem numberText_digits {width padc : Int}
    (lower : (base.digits num).length - 2 ^ 31 ≤ width) (upper : width < 2 ^ 31) :
    numberText num base width padc =
      List.replicate (width - (base.digits num).length).toNat padc ++
        (base.digits num).map code := by
  induction num using base.digits_induction generalizing width with
  | single num small =>
      rw [numberText_eq, if_neg (by omega), digitTable_getD (base.mod_lt_sixteen num),
        Nat.mod_eq_of_lt small, base.digits_of_lt small]
      rfl
  | digit num large induction =>
      have more := base.digits_of_le large
      have counted : ((base.digits num).length : Int) =
          (base.digits (num / base.value)).length + 1 := by
        rw [more]
        simp
      have less : int32 (width - 1) = width - 1 := int32_eq (by omega) (by omega)
      have same : width - 1 - ((base.digits (num / base.value)).length : Int) =
          width - (base.digits num).length := by omega
      rw [numberText_eq, if_pos large, digitTable_getD (base.mod_lt_sixteen num), less,
        induction (by omega) (by omega), same]
      rw [more, List.map_append, List.append_assoc]
      rfl

end Digits

/-! ## Reading digits -/

theorem int32_add_int32 (first second : Int) :
    int32 (int32 first + second) = int32 (first + second) :=
  Int.bmod_add_bmod ..

theorem int32_int32_mul (first second : Int) :
    int32 (int32 first * second) = int32 (first * second) := Int.bmod_mul_bmod ..

theorem int32_neg_int32 (value : Int) : int32 (-int32 value) = int32 (-value) := Int.bmod_neg_bmod

section Reading

variable {base : Base} {num : Nat} {tail : List Byte}

theorem digitValue_digitChar {digit : Nat} (small : digit < 16) :
    digitValue (character digit.digitChar) = some (digit : Int) := by
  revert digit
  decide

theorem takeDigits_digit {digit : Nat} {val : Int} (small : digit < base.value) :
    takeDigits base.value (character digit.digitChar :: tail) val =
      takeDigits base.value tail (int32 (val * base.value + digit)) := by
  rw [takeDigits, digitValue_digitChar (Nat.lt_of_lt_of_le small base.le_sixteen)]
  exact if_neg (by omega)

theorem takeDigits_digits :
    takeDigits base.value ((base.digits num).map character ++ tail) 0 =
      takeDigits base.value tail (int32 num) := by
  induction num using base.digits_induction generalizing tail with
  | single num small =>
      rw [base.digits_of_lt small]
      refine (takeDigits_digit small).trans ?_
      rw [Int.zero_mul, Int.zero_add]
      rfl
  | digit num large induction =>
      have positive : 0 < base.value := by have := base.two_le; omega
      have whole : ((num / base.value : Nat) : Int) * base.value + (num % base.value : Nat) =
          num := by
        rw [← Int.natCast_mul, ← Int.natCast_add, Nat.mul_comm, Nat.div_add_mod]
      rw [base.digits_of_le large, List.map_append, List.append_assoc, induction]
      refine (takeDigits_digit (Nat.mod_lt _ positive)).trans ?_
      rw [← int32_add_int32, int32_int32_mul, int32_add_int32, whole]
      rfl

theorem takeDigits_zeros {count : Nat} :
    takeDigits base.value (List.replicate count (character '0') ++ tail) 0 =
      takeDigits base.value tail 0 := by
  induction count with
  | zero => rfl
  | succ count induction =>
      have positive : 0 < base.value := by have := base.two_le; omega
      have zero : takeDigits base.value (character '0' ::
          (List.replicate count (character '0') ++ tail)) 0 = _ := takeDigits_digit positive
      rw [List.replicate_succ, List.cons_append, zero, Int.zero_mul]
      exact induction

/-- Every character is a digit in some base. -/
def IsNumeral (s : List Byte) : Prop :=
  ∀ char ∈ s, ∃ digit < 16, char = character digit.digitChar

theorem digits_numeral (base : Base) (num : Nat) :
    IsNumeral ((base.digits num).map character) := by
  induction num using base.digits_induction with
  | single num small =>
      rw [base.digits_of_lt small]
      intro char member
      exact ⟨num, Nat.lt_of_lt_of_le small base.le_sixteen, List.mem_singleton.mp member⟩
  | digit num large induction =>
      rw [base.digits_of_le large, List.map_append]
      intro char member
      rcases List.mem_append.mp member with before | last
      · exact induction char before
      · exact ⟨_, base.mod_lt_sixteen num, List.mem_singleton.mp last⟩

theorem zeros_numeral {s : List Byte} (numeral : IsNumeral s) (count : Nat) :
    IsNumeral (List.replicate count (character '0') ++ s) := by
  intro char member
  rcases List.mem_append.mp member with zero | other
  · exact ⟨0, by decide, (List.mem_replicate.mp zero).2⟩
  · exact numeral char other

theorem digit_character {digit : Nat} (small : digit < 16) :
    isBlank (character digit.digitChar) = false ∧
      character digit.digitChar ≠ character '+' ∧ character digit.digitChar ≠ character '-' ∧
        character digit.digitChar ≠ character 'x' := by
  revert digit
  decide

theorem strtol_blanks (count : Nat) (s : List Byte) (base : Int) :
    strtol (List.replicate count (character ' ') ++ s) base = strtol s base := by
  induction count with
  | zero => rfl
  | succ count induction =>
      refine Eq.trans ?_ induction
      rw [strtol, strtol, List.replicate_succ, List.cons_append, List.dropWhile_cons_of_pos rfl]

theorem takePrefix_numeral {s : List Byte} (numeral : IsNumeral s) :
    takePrefix base.value s = ((base.value : Int), s) := by
  have positive := base.two_le
  have plain : s[1]? ≠ some (character 'x') := by
    intro same
    rcases numeral _ (List.mem_of_getElem? same) with ⟨digit, small, equal⟩
    exact (digit_character small).2.2.2 equal.symm
  rw [takePrefix, if_neg (fun both => plain both.2.2), if_neg (by omega), if_neg (by omega)]

/-- A numeral is read from its first digit on. -/
theorem strtol_numeral {s : List Byte} (numeral : IsNumeral s) :
    strtol s base.value = takeDigits base.value s 0 := by
  cases s with
  | nil =>
      rw [strtol, List.dropWhile_nil, takeSign]
      simp only [takePrefix_numeral numeral]
      rfl
  | cons char s =>
      rcases numeral char (by simp) with ⟨digit, small, rfl⟩
      have plain := digit_character small
      rw [strtol, List.dropWhile_cons_of_neg (by simp [plain.1]), takeSign,
        if_neg plain.2.1, if_neg plain.2.2.1]
      simp only [takePrefix_numeral numeral]
      rfl

/-- In base 10 whatever follows a minus sign is read and negated. -/
theorem strtol_minus (s : List Byte) :
    strtol (character '-' :: s) 10 =
      (int32 (-(takeDigits 10 s 0).1), (takeDigits 10 s 0).2) := rfl

theorem strtol_digits (zeros : Nat) :
    strtol (List.replicate zeros (character '0') ++ (base.digits num).map character) base.value =
      (int32 num, []) := by
  have whole := @takeDigits_digits base num []
  rw [List.append_nil] at whole
  rw [strtol_numeral (zeros_numeral (digits_numeral base num) zeros), takeDigits_zeros, whole]
  rfl

theorem strtol_minus_digits :
    strtol (character '-' :: (Base.decimal.digits num).map character) 10 =
      (int32 (-num), []) := by
  have whole := @takeDigits_digits Base.decimal num []
  rw [List.append_nil] at whole
  rw [strtol_minus, show (10 : Int) = Base.decimal.value from rfl, whole]
  simp only [takeDigits, int32_neg_int32]

end Reading

end FosKernel.Text
