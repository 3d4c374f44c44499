import FosKernel.Properties.Formatting
import FosKernel.Refinement.Numerals

/-! # Numbers and their texts

What `printnum` emits for a number, and which of the texts of `%d` are read back by `strtol`.
-/

namespace FosKernel.Numbers

open Text Formatting

/-- Pads up to a width, and the digits of a number. -/
def padded (base : Base) (num : Nat) (width padc : Int) : List Int :=
  List.replicate (width - (base.digits num).length).toNat padc ++ (base.digits num).map code

theorem strtol_padded {base : Base} {num : Nat} {width padc : Int}
    (pad : padc = code ' ' ∨ padc = code '0') :
    strtol (stored (padded base num width padc)) base.value = (int32 num, []) := by
  rw [padded, stored_append, stored_code]
  rcases pad with rfl | rfl
  · rw [stored_replicate, strtol_blanks]
    exact strtol_digits 0
  · rw [stored_replicate]
    exact strtol_digits _

/-- `printnum` emits the positional representation, which `strtol` reads back. -/
theorem printnum_padded {num : Nat} {base : Base} {width padc : Int} (word : num < 2 ^ 64)
    (lower : -1 ≤ width) (upper : width < 2 ^ 31) :
    (∀ {σ : Type} (putch : Int → σ → σ) (putdat : σ),
      printnum putch num base width padc putdat =
        emit putch (padded base num width padc) putdat) ∧
    (padc = code ' ' ∨ padc = code '0' →
      strtol (stored (padded base num width padc)) base.value = (int32 num, [])) := by
  refine ⟨fun putch putdat => ?_, strtol_padded⟩
  have counted : (base.digits num).length ≤ 64 := Base.digits_length_le (by decide) word
  rw [printnum_emit, numberText_digits (by omega) upper, padded]

theorem printnum_hexadecimal :
    printnum record 255 .hexadecimal 4 (code '0') [] = "00ff".toList.map code ∧
      strtol (stored (padded .hexadecimal 255 4 (code '0'))) 16 = (255, []) := by
  have both := @printnum_padded 255 .hexadecimal 4 (code '0') (by decide) (by decide) (by decide)
  exact ⟨both.1 record [], both.2 (.inr rfl)⟩

/-! ## `%d` -/

inductive PadFlag
  | none | zero | left
  deriving DecidableEq

def PadFlag.text : PadFlag → List Char
  | none => []
  | zero => ['0']
  | left => ['-']

def PadFlag.padc : PadFlag → Int
  | none => code ' '
  | zero => code '0'
  | left => code '-'

/-- The characters between the percent sign and the `d`. -/
def signedModifiers (flag : PadFlag) (width : Nat) : List Byte :=
  (flag.text ++ Base.decimal.digits width).map character

/-- The text of a number without a width. -/
def plainText (num : Int) : List Int :=
  (if num < 0 then [code '-'] else []) ++ (Base.decimal.digits num.natAbs).map code

/-- The text of a number with a flag and a width. -/
def signedText (flag : PadFlag) (width : Nat) (num : Int) : List Int :=
  (if num < 0 then [code '-'] else []) ++ padded .decimal num.natAbs width flag.padc

section Scanned

theorem decimal_digit {digit : Nat} (small : digit < 10) :
    IsDigit (character digit.digitChar).toNat ∧
      ((character digit.digitChar).toNat : Int) = 48 + digit := by
  revert digit
  decide

theorem digits_decimal {num : Nat} {char : Char} (member : char ∈ Base.decimal.digits num) :
    IsDigit (character char).toNat := by
  induction num using Base.decimal.digits_induction with
  | single num small =>
      rw [Base.digits_of_lt small, List.mem_singleton] at member
      subst member
      exact (decimal_digit small).1
  | digit num large induction =>
      rw [Base.digits_of_le large] at member
      rcases List.mem_append.mp member with before | last
      · exact induction before
      · rw [List.mem_singleton.mp last]
        exact (decimal_digit (Nat.mod_lt _ (by decide))).1

/-- A positive number does not start with a zero. -/
theorem digits_head {num : Nat} (positive : 0 < num) : ∃ first others,
    Base.decimal.digits num = first :: others ∧ (character first).toNat ≠ code '0' := by
  induction num using Base.decimal.digits_induction with
  | single num small =>
      refine ⟨_, [], Base.digits_of_lt small, ?_⟩
      rw [(decimal_digit small).2, show code '0' = 48 from rfl]
      omega
  | digit num large induction =>
      rcases induction (Nat.div_pos large (by decide)) with ⟨first, others, equal, nonzero⟩
      exact ⟨first, others ++ _, by rw [Base.digits_of_le large, equal]; rfl, nonzero⟩

theorem widthValue_digits {width : Nat} :
    widthValue ((Base.decimal.digits width).map character) = int32 width := by
  have step : ∀ (precision : Int) (digit : Nat), digit < 10 →
      addDigit (int32 precision) (character digit.digitChar).toNat =
        int32 (precision * 10 + digit) := by
    intro precision digit small
    rw [addDigit, (decimal_digit small).2, int32_int32_mul, int32_add_int32, Int.sub_eq_add_neg,
      int32_add_int32, show code '0' = 48 from rfl]
    congr 1
    omega
  induction width using Base.decimal.digits_induction with
  | single width small =>
      have last := step 0 width small
      rw [show int32 0 = 0 by decide, Int.zero_mul, Int.zero_add] at last
      rw [widthValue, Base.digits_of_lt small, List.map_singleton, List.foldl_cons, List.foldl_nil,
        last]
  | digit width large induction =>
      have whole := Nat.div_add_mod width 10
      rw [widthValue] at induction
      rw [widthValue, Base.digits_of_le large, List.map_append, List.foldl_append, induction,
        List.map_singleton, List.foldl_cons, List.foldl_nil, show Base.decimal.value = 10 from rfl,
        step _ _ (Nat.mod_lt _ (by decide))]
      congr 1
      omega

theorem settle_flag (flag : PadFlag) (args : Nat → Argument) (rest : List Byte) :
    settle args (flag.text.map character ++ rest) .initial 0 =
      settle args rest { Directive.initial with padc := flag.padc } 0 := by
  cases flag with
  | none => rfl
  | zero =>
      change settle args (character '0' :: rest) .initial 0 = _
      rw [settle]
      rfl
  | left =>
      change settle args (character '-' :: rest) .initial 0 = _
      rw [settle]
      rfl

theorem settle_width {width : Nat} {padc : Int} (positive : 0 < width) (small : width < 2 ^ 31)
    (args : Nat → Argument) :
    settle args ((Base.decimal.digits width).map character)
      { Directive.initial with padc } 0 = (⟨padc, width, -1, 0, false⟩, 0) := by
  have value := @widthValue_digits width
  rcases digits_head positive with ⟨first, others, equal, nonzero⟩
  have all : ∀ char ∈ (first :: others).map character, IsDigit char.toNat := by
    intro char member
    rcases List.mem_map.mp member with ⟨digit, among, rfl⟩
    rw [← equal] at among
    exact digits_decimal among
  have rest : ∀ char ∈ others.map character, IsDigit char.toNat :=
    fun char member => all char (by rw [List.map_cons]; exact List.mem_cons_of_mem _ member)
  have digit : IsDigit (character first).toNat := all _ (by rw [List.map_cons]; exact .head _)
  rw [equal, List.map_cons] at value
  have notMinus : ¬((character first).toNat : Int) = code '-' := by
    intro same
    rw [same] at digit
    revert digit
    decide
  rw [equal, List.map_cons, settle, if_neg notMinus, if_neg nonzero, if_pos digit]
  rw [List.dropWhile_eq_nil_iff.mpr (by simpa using rest),
    List.takeWhile_eq_self_iff.mpr (by simpa using rest), value,
    int32_eq (by omega) (by omega), settle]
  rfl

/-- The variables after the flag and the width: a width 0 is read as a flag. -/
theorem settle_signed (flag : PadFlag) {width : Nat} (small : width < 2 ^ 31)
    (args : Nat → Argument) :
    ∃ (padc left : Int), settle args (signedModifiers flag width) .initial 0 =
        (⟨padc, left, -1, 0, false⟩, 0) ∧ -1 ≤ left ∧ left < 2 ^ 31 ∧
      ∀ num, padded .decimal num left padc = padded .decimal num width flag.padc := by
  rw [signedModifiers, List.map_append, settle_flag]
  cases width with
  | zero =>
      refine ⟨code '0', -1, ?_, by decide, by decide, fun num => ?_⟩
      · change settle args [character '0'] _ 0 = _
        rw [settle, if_neg (by decide), if_pos (by decide), settle]
        rfl
      · rw [padded, padded, Int.toNat_of_nonpos (by omega), Int.toNat_of_nonpos (by omega)]
        rfl
  | succ width =>
      exact ⟨_, _, settle_width (Nat.succ_pos width) small args, by omega, by omega, fun _ => rfl⟩

theorem convert_signed {padc width : Int} {args : Nat → Argument} (lower : -1 ≤ width)
    (upper : width < 2 ^ 31) :
    conversionText (character 'd').toNat ⟨padc, width, -1, 0, false⟩ args 0 =
      some (1, (if (args 0).int.toInt < 0 then [code '-'] else []) ++
        padded .decimal (args 0).int.toInt.natAbs width padc) := by
  have word := (args 0).int.isLt
  have range := BitVec.le_toInt (args 0).int
  have range' := @BitVec.toInt_lt _ (args 0).int
  have counted : (Base.decimal.digits (args 0).int.toInt.natAbs).length ≤ 64 :=
    Base.digits_length_le (by decide) (by omega)
  have text : conversionText (character 'd').toNat ⟨padc, width, -1, 0, false⟩ args 0 =
      some (1, printnum record (args 0).int.toInt.natAbs .decimal width padc
        (if (args 0).int.toInt < 0 then [code '-'] else [])) := rfl
  rw [text, printnum_emit, emit_record, numberText_digits (by omega) upper, padded]

end Scanned

section Signed

variable (flag : PadFlag) (width : Nat)

theorem signedModifiers_digit {char : Byte} (member : char ∈ signedModifiers flag width) :
    IsDigit char.toNat ∨ char = character '-' := by
  rcases List.mem_map.mp member with ⟨char, among, rfl⟩
  rcases List.mem_append.mp among with prefixed | digit
  · cases flag with
    | none => cases prefixed
    | zero =>
        rw [List.mem_singleton.mp prefixed]
        exact .inl (by decide)
    | left =>
        rw [List.mem_singleton.mp prefixed]
        exact .inr rfl
  · exact .inl (digits_decimal digit)

theorem signedModifiers_modifier {char : Byte} (member : char ∈ signedModifiers flag width) :
    IsModifier char.toNat := by
  rcases signedModifiers_digit flag width member with digit | rfl
  · exact .inl digit
  · exact .inr (.inl rfl)

/-- `%d` with a flag and a width. -/
def signedFormat : CString where
  bytes := character '%' :: (signedModifiers flag width ++ [character 'd'])
  nonzero := by
    intro byte member
    rcases List.mem_cons.mp member with rfl | member
    · decide
    · rcases List.mem_append.mp member with modifier | last
      · intro zero
        have modify := signedModifiers_modifier flag width modifier
        rw [zero] at modify
        revert modify
        decide
      · rw [List.mem_singleton.mp last]
        decide

variable {flag width}

theorem knownCodes_signed {args : Nat → Argument} :
    KnownCodes args ((signedFormat flag width).bytes, 0) := by
  intro out modifiers rest ap run _
  have member : character 'e' ∈ (signedFormat flag width).bytes :=
    (FormatRun.suffix run).subset (by simp)
  rcases List.mem_cons.mp member with percent | member
  · exact absurd percent (by decide)
  · rcases List.mem_append.mp member with modifier | last
    · exact absurd (signedModifiers_modifier flag width modifier) (by decide)
    · exact absurd (List.mem_singleton.mp last) (by decide)

theorem prints_signed {args : Nat → Argument} (small : width < 2 ^ 31) :
    Prints (signedFormat flag width) args 0 (signedText flag width (args 0).int.toInt) := by
  rcases settle_signed flag small args with ⟨padc, left, settled, lower, upper, same⟩
  have emits := @convert_signed padc left args lower upper
  rw [same] at emits
  have step : FormatStep args ((signedFormat flag width).bytes, 0)
      (signedText flag width (args 0).int.toInt) ([], 1) :=
    .conversion (fun char member => signedModifiers_modifier flag width member)
      (by rw [settled]; exact emits)
  have run := FormatRun.head step (.refl _)
  rw [List.append_nil] at run
  intro σ
  exact prints_run run knownCodes_signed

/-! The three texts that are not read back: a negative number that is padded, and a positive
number that is padded with minus signs. -/

theorem signedText_length (num : Int) : (signedText flag width num).length =
    (if num < 0 then 1 else 0) + max width (Base.decimal.digits num.natAbs).length := by
  rw [signedText, padded]
  split
  · simp only [List.length_append, List.length_replicate, List.length_map, List.length_cons,
      List.length_nil]
    omega
  · simp only [List.length_append, List.length_replicate, List.length_map, List.length_nil]
    omega

theorem plainText_length (num : Int) : (plainText num).length =
    (if num < 0 then 1 else 0) + (Base.decimal.digits num.natAbs).length := by
  rw [plainText]
  split
  · simp [Nat.add_comm]
  · simp

theorem int32_toInt (num : BitVec 32) : int32 num.toInt = num.toInt := by
  have lower := BitVec.le_toInt num
  have upper := @BitVec.toInt_lt _ num
  exact int32_eq (by omega) (by omega)

/-- Digits without a pad are read back with their sign. -/
theorem strtol_unpadded {num : BitVec 32}
    (unpadded : width ≤ (Base.decimal.digits num.toInt.natAbs).length) :
    (strtol (stored (signedText flag width num.toInt)) 10).1 = num.toInt := by
  have none : ((width : Int) - (Base.decimal.digits num.toInt.natAbs).length).toNat = 0 := by
    omega
  rw [signedText, padded, none, List.replicate_zero, List.nil_append]
  by_cases negative : num.toInt < 0
  · have absolute : -(num.toInt.natAbs : Int) = num.toInt := by omega
    have read := @strtol_minus_digits num.toInt.natAbs
    rw [absolute, int32_toInt] at read
    rw [if_pos negative, stored_append, stored_code]
    exact congrArg Prod.fst read
  · have absolute : (num.toInt.natAbs : Int) = num.toInt := by omega
    have read := @strtol_digits Base.decimal num.toInt.natAbs 0
    rw [absolute, int32_toInt] at read
    rw [if_neg negative, List.nil_append, stored_code]
    exact congrArg Prod.fst read

/-- A number that is not negative is read after blanks and zeros. -/
theorem strtol_right {num : BitVec 32} (nonneg : 0 ≤ num.toInt) (right : flag ≠ .left) :
    (strtol (stored (signedText flag width num.toInt)) 10).1 = num.toInt := by
  have absolute : (num.toInt.natAbs : Int) = num.toInt := by omega
  have pad : flag.padc = code ' ' ∨ flag.padc = code '0' := by
    cases flag with
    | none => exact .inl rfl
    | zero => exact .inr rfl
    | left => exact absurd rfl right
  have read := @strtol_padded Base.decimal num.toInt.natAbs width flag.padc pad
  rw [absolute, int32_toInt] at read
  rw [signedText, if_neg (by omega)]
  exact congrArg Prod.fst read

/-- Minus signs in front of a number are read as its sign or as no number. -/
theorem strtol_left_iff {num : BitVec 32} (nonneg : 0 ≤ num.toInt)
    (pads : (Base.decimal.digits num.toInt.natAbs).length < width) :
    (strtol (stored (signedText .left width num.toInt)) 10).1 = num.toInt ↔ num.toInt = 0 := by
  obtain ⟨more, count⟩ : ∃ more,
      ((width : Int) - (Base.decimal.digits num.toInt.natAbs).length).toNat = more + 1 :=
    ⟨width - (Base.decimal.digits num.toInt.natAbs).length - 1, by omega⟩
  have absolute : (num.toInt.natAbs : Int) = num.toInt := by omega
  rw [signedText, padded, if_neg (by omega), List.nil_append, count, PadFlag.padc, stored_append,
    stored_replicate, stored_code, List.replicate_succ, List.cons_append]
  cases more with
  | zero =>
      have upper := @BitVec.toInt_lt _ num
      have negated : int32 (-num.toInt) = -num.toInt := int32_eq (by omega) (by omega)
      have read := @strtol_minus_digits num.toInt.natAbs
      rw [absolute, negated] at read
      rw [List.replicate_zero, List.nil_append, read]
      simp only
      omega
  | succ more =>
      rw [strtol_minus, List.replicate_succ, List.cons_append]
      exact eq_comm

/-- The text has the width or the length of the plain text, and `strtol` reads the number. -/
def ReadsBack (width : Nat) (num : Int) (out : List Int) : Prop :=
  out.length = max width (plainText num).length ∧ (strtol (stored out) 10).1 = num

/-- A number that needs no pad is read back, and one that is not negative unless it is padded
with minus signs. -/
theorem signed_reads_back_iff {args : Nat → Argument} (small : width < 2 ^ 31) :
    ∃ out, Prints (signedFormat flag width) args 0 out ∧
      (ReadsBack width (args 0).int.toInt out ↔
        (args 0).int.toInt = 0 ∨
          width ≤ (Base.decimal.digits (args 0).int.toInt.natAbs).length ∨
            0 < (args 0).int.toInt ∧ flag ≠ .left) := by
  refine ⟨_, prints_signed small, ?_⟩
  generalize (args 0).int = num
  rw [ReadsBack, signedText_length, plainText_length]
  by_cases short : width ≤ (Base.decimal.digits num.toInt.natAbs).length
  · refine iff_of_true ⟨?_, strtol_unpadded short⟩ (.inr (.inl short))
    rw [Nat.max_eq_right short, Nat.max_eq_right (Nat.le_trans short (Nat.le_add_left ..))]
  · rcases Int.lt_trichotomy num.toInt 0 with negative | zero | positive
    · refine iff_of_false (fun both => ?_) (by omega)
      have longer := both.1
      rw [if_pos negative] at longer
      omega
    · have nonneg := Int.le_of_eq zero.symm
      refine iff_of_true ⟨?_, ?_⟩ (.inl zero)
      · rw [if_neg (by omega), Nat.zero_add, Nat.zero_add]
      · by_cases left : flag = .left
        · rw [left]
          exact (strtol_left_iff nonneg (by omega)).mpr zero
        · exact strtol_right nonneg left
    · have nonneg := Int.le_of_lt positive
      rw [if_neg (by omega), Nat.zero_add, Nat.zero_add]
      by_cases left : flag = .left
      · rw [left, strtol_left_iff nonneg (by omega)]
        refine iff_of_false (fun both => by omega) (fun cases => ?_)
        rcases cases with zero | less | right
        · omega
        · exact short less
        · exact right.2 rfl
      · exact iff_of_true ⟨rfl, strtol_right nonneg left⟩ (.inr (.inr ⟨positive, left⟩))

/-- `%5d` of -5 and `%-5d` of 42 -/
theorem signed_not_read_back :
    (∃ out, Prints (signedFormat .none 5) (fun _ => ⟨BitVec.ofInt 32 (-5), 0, none⟩) 0 out ∧
      ¬ReadsBack 5 (-5) out) ∧
    ∃ out, Prints (signedFormat .left 5) (fun _ => ⟨42, 0, none⟩) 0 out ∧ ¬ReadsBack 5 42 out := by
  refine ⟨⟨_, prints_signed (by decide), ?_⟩, ⟨_, prints_signed (by decide), ?_⟩⟩
  · intro both
    have longer := both.1
    rw [signedText_length, plainText_length] at longer
    revert longer
    decide
  · intro both
    have zero := (@strtol_left_iff 5 42 (by decide) (by decide)).mp both.2
    revert zero
    decide

theorem signed_short : ∃ out, Prints (signedFormat .left 2) (fun _ => ⟨42, 0, none⟩) 0 out ∧
    ReadsBack 2 42 out := by
  rcases @signed_reads_back_iff .left 2 (fun _ => ⟨42, 0, none⟩) (by decide) with
    ⟨out, prints, reads⟩
  exact ⟨out, prints, reads.mpr (.inr (.inl (by decide)))⟩

end Signed

end FosKernel.Numbers
