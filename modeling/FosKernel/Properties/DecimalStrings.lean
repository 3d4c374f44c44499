import FosKernel.Abstract.Strings
import FosKernel.Refinement.Numerals

/-! # Numbers written to strings

`ltostr` keeps the digits of a number up to the first one, from the end, above which there is
a zero.
-/

namespace FosKernel.DecimalStrings

open Text

section Digits

/-- A character that the digit loop stores. -/
def digitChar (mod : Int) : Byte := BitVec.ofInt 8 (mod + 48)

theorem keptDigits_more {value : Int} (more : (value.tdiv 10).tmod 10 ≠ 0) :
    keptDigits value = value.tmod 10 :: keptDigits (value.tdiv 10) := by
  rw [keptDigits, if_pos more]

theorem keptDigits_last {value : Int} (last : ¬(value.tdiv 10).tmod 10 ≠ 0) :
    keptDigits value = [value.tmod 10] := by
  rw [keptDigits, if_neg last]

theorem storeDigits_more {value : Int} {s : Nat} {str : Nat → Byte}
    (more : (value.tdiv 10).tmod 10 ≠ 0) :
    storeDigits value s str = storeDigits (value.tdiv 10) (s + 1)
      (Function.update str s (digitChar (value.tmod 10))) := by
  rw [storeDigits]
  exact dif_pos more

theorem storeDigits_last {value : Int} {s : Nat} {str : Nat → Byte}
    (last : ¬(value.tdiv 10).tmod 10 ≠ 0) :
    storeDigits value s str =
      (s + 1, Function.update str s (digitChar (value.tmod 10))) := by
  rw [storeDigits]
  exact dif_neg last

/-- The digits are stored one after the other, and nothing else. -/
structure Stores (s : Nat) (chars : List Byte) (str : Nat → Byte) (result : Nat × (Nat → Byte)) :
    Prop where
  last : result.1 = s + chars.length
  stored : ∀ index (below : index < chars.length), result.2 (s + index) = chars[index]
  others : ∀ offset, offset < s ∨ s + chars.length ≤ offset → result.2 offset = str offset

theorem Stores.singleton (s : Nat) (char : Byte) (str : Nat → Byte) :
    Stores s [char] str (s + 1, Function.update str s char) where
  last := rfl
  stored index below := by
    rw [List.length_singleton, Nat.lt_one_iff] at below
    subst below
    exact Function.update_self ..
  others offset outside := by
    rw [List.length_singleton] at outside
    exact Function.update_of_ne (by omega) _ _

theorem Stores.cons {s : Nat} {char : Byte} {chars : List Byte} {str : Nat → Byte}
    {result : Nat × (Nat → Byte)}
    (rest : Stores (s + 1) chars (Function.update str s char) result) :
    Stores s (char :: chars) str result where
  last := by
    rw [rest.last, List.length_cons]
    omega
  stored index below := by
    cases index with
    | zero =>
        refine (rest.others s (.inl (Nat.lt_succ_self s))).trans ?_
        exact Function.update_self ..
    | succ index =>
        rw [show s + (index + 1) = s + 1 + index by omega]
        exact rest.stored index (by simpa using below)
  others offset outside := by
    rw [List.length_cons] at outside
    refine (rest.others offset (by omega)).trans ?_
    exact Function.update_of_ne (by omega) _ _

theorem storeDigits_stores (value : Int) (s : Nat) (str : Nat → Byte) :
    Stores s ((keptDigits value).map digitChar) str (storeDigits value s str) := by
  fun_induction keptDigits value generalizing s str with
  | case1 value induction =>
      by_cases more : (value.tdiv 10).tmod 10 ≠ 0
      · rw [if_pos more, storeDigits_more more]
        exact .cons (induction more _ _)
      · rw [if_neg more, storeDigits_last more]
        exact .singleton ..

theorem reverseString_step {start last : Nat} (less : start < last) (str : Nat → Byte) :
    reverseString start last str = reverseString (start + 1) (last - 1)
      (Function.update (Function.update str start (str last)) last (str start)) := by
  rw [reverseString]
  exact if_pos less

theorem reverseString_apply (start last : Nat) (str : Nat → Byte) (index : Nat) :
    reverseString start last str index =
      if start ≤ index ∧ index ≤ last then str (start + last - index) else str index := by
  induction size : last - start using Nat.strongRecOn generalizing start last str with
  | ind size induction =>
      by_cases less : start < last
      · rw [reverseString_step less, induction (last - 1 - (start + 1)) (by omega) _ _ _ rfl]
        by_cases inside : start + 1 ≤ index ∧ index ≤ last - 1
        · rw [if_pos inside, if_pos (by omega), Function.update_of_ne (by omega),
            Function.update_of_ne (by omega)]
          congr 1
          omega
        · rw [if_neg inside]
          by_cases atLast : index = last
          · rw [if_pos (by omega), atLast, Function.update_self]
            congr 1
            omega
          · rw [Function.update_of_ne atLast]
            by_cases atStart : index = start
            · rw [if_pos (by omega), atStart, Function.update_self]
              congr 1
              omega
            · rw [Function.update_of_ne atStart, if_neg (by omega)]
      · rw [reverseString, if_neg less]
        split
        · congr 1
          omega
        · rfl

theorem keptDigits_length {value : Int} {count : Nat} (positive : 0 < count)
    (small : value.natAbs < 10 ^ count) : (keptDigits value).length ≤ count := by
  induction count generalizing value with
  | zero => exact absurd positive (Nat.lt_irrefl 0)
  | succ count induction =>
      rw [keptDigits]
      split
      · next more =>
        have rest : (value.tdiv 10).natAbs < 10 ^ count := by
          rw [Int.natAbs_tdiv]
          rw [Nat.pow_succ] at small
          exact Nat.div_lt_of_lt_mul (by rw [Nat.mul_comm]; exact small)
        have someDigits : 0 < count := by
          cases count with
          | zero =>
              have zero : value.tdiv 10 = 0 := by
                rw [Nat.pow_zero, Nat.lt_one_iff, Int.natAbs_eq_zero] at rest
                exact rest
              rw [zero] at more
              exact absurd rfl more
          | succ count => exact Nat.succ_pos count
        rw [List.length_cons]
        exact Nat.succ_le_succ (induction someDigits rest)
      · exact Nat.succ_le_succ (Nat.zero_le count)

theorem keptDigits_range {value digit : Int} (member : digit ∈ keptDigits value) :
    -10 < digit ∧ digit < 10 := by
  fun_induction keptDigits value with
  | case1 value induction =>
      rcases List.mem_cons.mp member with rfl | later
      · exact ⟨Int.lt_tmod_of_pos _ (by decide), Int.tmod_lt_of_pos _ (by decide)⟩
      · split at later
        · next more => exact induction more later
        · cases later

/-- The number that the kept digits make. -/
def keptValue (num : Nat) : Nat :=
  num % 10 + 10 * if (num / 10) % 10 ≠ 0 then keptValue (num / 10) else 0
termination_by num
decreasing_by omega

theorem keptValue_le (num : Nat) : keptValue num ≤ num := by
  fun_induction keptValue num with
  | case1 num induction =>
      split
      · next more =>
        have := induction more
        omega
      · omega

/-- Every digit but the last one is other than zero. -/
def InnerDigits (num : Nat) : Prop := ∀ digit ∈ (Base.decimal.digits num).dropLast, digit ≠ '0'

instance (num : Nat) : Decidable (InnerDigits num) := inferInstanceAs (Decidable (∀ _ ∈ _, _))

theorem digitChar_eq_zero {digit : Nat} (small : digit < 10) :
    digit.digitChar = '0' ↔ digit = 0 := by
  revert digit
  decide

theorem innerDigits_single {num : Nat} (small : num < 10) : InnerDigits num := by
  intro digit member
  rw [Base.digits_of_lt small] at member
  cases member

theorem innerDigits_iff {num : Nat} (large : 10 ≤ num) :
    InnerDigits num ↔ num / 10 % 10 ≠ 0 ∧ InnerDigits (num / 10) := by
  have split : ∀ rest, (∀ digit ∈ Base.decimal.digits rest, digit ≠ '0') ↔
      rest % 10 ≠ 0 ∧ InnerDigits rest := by
    intro rest
    by_cases small : rest < 10
    · rw [Base.digits_of_lt small, Nat.mod_eq_of_lt small]
      simp [digitChar_eq_zero small, innerDigits_single small]
    · have last : (rest % Base.decimal.value).digitChar = '0' ↔ rest % 10 = 0 :=
        digitChar_eq_zero (Nat.mod_lt _ (by decide))
      have whole := @Base.digits_of_le Base.decimal rest (by change 10 ≤ rest; omega)
      rw [InnerDigits, whole, List.dropLast_concat]
      simp only [List.mem_append, List.mem_singleton, or_imp, forall_and, forall_eq, ne_eq, last]
      exact and_comm
  rw [InnerDigits, Base.digits_of_le large, List.dropLast_concat]
  exact split (num / 10)

/-- The kept digits make the number when no digit above the last one is a zero. -/
theorem keptValue_eq_iff (num : Nat) : keptValue num = num ↔ InnerDigits num := by
  induction num using Nat.strongRecOn with
  | ind num induction =>
      by_cases small : num < 10
      · refine iff_of_true ?_ (innerDigits_single small)
        rw [keptValue, Nat.div_eq_of_lt small]
        simp [Nat.mod_eq_of_lt small]
      · have rest := induction (num / 10) (by omega)
        rw [innerDigits_iff (by omega), keptValue]
        split
        · next more =>
          rw [← rest]
          omega
        · next last => omega

theorem keptDigits_natCast (num : Nat) : (keptDigits num).map digitChar =
    character (num % 10).digitChar ::
      if num / 10 % 10 ≠ 0 then (keptDigits (num / 10 : Nat)).map digitChar else [] := by
  have stored : ∀ digit : Nat, digit < 10 → digitChar digit = character digit.digitChar := by
    decide
  have last : digitChar ((num : Int).tmod 10) = character (num % 10).digitChar :=
    stored (num % 10) (Nat.mod_lt _ (by decide))
  have above : ((num : Int).tdiv 10).tmod 10 = ((num / 10 % 10 : Nat) : Int) := rfl
  rw [keptDigits, above, List.map_cons, last]
  by_cases more : num / 10 % 10 ≠ 0
  · rw [if_pos more, if_pos (by omega)]
    rfl
  · rw [if_neg more, if_neg (by omega)]
    rfl

theorem keptDigits_numeral (num : Nat) : IsNumeral ((keptDigits num).map digitChar).reverse := by
  induction num using Nat.strongRecOn with
  | ind num induction =>
      rw [keptDigits_natCast, List.reverse_cons]
      intro char member
      rcases List.mem_append.mp member with before | last
      · split at before
        · next more => exact induction (num / 10) (by omega) char before
        · cases before
      · exact ⟨num % 10, by omega, List.mem_singleton.mp last⟩

theorem takeDigits_kept (num : Nat) (tail : List Byte) :
    takeDigits Base.decimal.value (((keptDigits num).map digitChar).reverse ++ tail) 0 =
      takeDigits Base.decimal.value tail (int32 (keptValue num)) := by
  induction num using Nat.strongRecOn generalizing tail with
  | ind num induction =>
      have digit : ∀ val,
          takeDigits Base.decimal.value (character (num % 10).digitChar :: tail) val =
            takeDigits Base.decimal.value tail (int32 (val * 10 + (num % 10 : Nat))) :=
        fun _ => takeDigits_digit (Nat.mod_lt _ (by decide))
      rw [keptDigits_natCast, List.reverse_cons, List.append_assoc, List.singleton_append,
        keptValue]
      by_cases more : num / 10 % 10 ≠ 0
      · rw [if_pos more, if_pos more, induction (num / 10) (by omega), digit, ← int32_add_int32,
          int32_int32_mul, int32_add_int32]
        congr 2
        omega
      · rw [if_neg more, if_neg more, List.reverse_nil, List.nil_append, digit, Int.zero_mul,
          Int.zero_add, Nat.mul_zero, Nat.add_zero]

end Digits

/-! ## The string -/

section String

variable {str : Nat → Byte}

/-- The sign and the digits that `ltostr` leaves. -/
def keptText (value : Int) : List Byte :=
  (if value < 0 then [character '-'] else []) ++
    ((keptDigits (if value < 0 then int32 (value * -1) else value)).map digitChar).reverse

theorem digitChar_ne_zero {digit : Int} (lower : -10 < digit) (upper : digit < 10) :
    digitChar digit ≠ 0 := by
  intro zero
  have number := congrArg BitVec.toInt zero
  rw [digitChar, BitVec.toInt_ofInt_eq_self (by decide) (by omega) (by omega)] at number
  change digit + 48 = 0 at number
  omega

theorem keptText_nonzero {value : Int} : ∀ char ∈ keptText value, char ≠ 0 := by
  intro char member
  rcases List.mem_append.mp member with sign | digit
  · split at sign
    · rw [List.mem_singleton.mp sign]
      decide
    · cases sign
  · rcases List.mem_map.mp (List.mem_reverse.mp digit) with ⟨digit, among, rfl⟩
    exact digitChar_ne_zero (keptDigits_range among).1 (keptDigits_range among).2

/-- The digits behind the sign, from the last stored one on. -/
theorem reversed_stored {s : Nat} {chars : List Byte} {result : Nat × (Nat → Byte)}
    (stores : Stores s chars str result) (some : 0 < chars.length) :
    Stores s chars.reverse str (result.1, reverseString s (result.1 - 1) result.2) where
  last := by
    rw [List.length_reverse]
    exact stores.last
  stored index below := by
    rw [List.length_reverse] at below
    refine (reverseString_apply ..).trans ?_
    rw [stores.last, if_pos (by omega), List.getElem_reverse]
    rw [show s + (s + chars.length - 1) - (s + index) = s + (chars.length - 1 - index) by omega]
    exact stores.stored _ _
  others offset outside := by
    rw [List.length_reverse] at outside
    refine (reverseString_apply ..).trans ?_
    rw [stores.last, if_neg (by omega)]
    exact stores.others offset outside

theorem keptDigits_pos (value : Int) : 0 < ((keptDigits value).map digitChar).length := by
  rw [keptDigits, List.map_cons, List.length_cons]
  exact Nat.succ_pos _

theorem ltostr_stores (value : Int) (str : Nat → Byte) :
    ∃ s result, ltostr value str = Function.update result s 0 ∧
      Stores 0 (keptText value) str (s, result) := by
  rw [keptText]
  by_cases negative : value < 0
  · rw [if_pos negative, if_pos negative]
    have stores := reversed_stored (storeDigits_stores (int32 (value * -1)) 1
      (Function.update str 0 (character '-'))) (keptDigits_pos _)
    refine ⟨_, _, ?_, stores.cons⟩
    simp only [ltostr, decide_eq_true negative, if_true]
  · rw [if_neg negative, if_neg negative]
    refine ⟨_, _, ?_, reversed_stored (storeDigits_stores value 0 str) (keptDigits_pos _)⟩
    simp only [ltostr, decide_eq_false negative, Bool.false_eq_true, if_false]

theorem ltostr_text (value : Int) (str : Nat → Byte) :
    StringAt (ltostr value str) 0 (keptText value) ∧
      ∀ offset, (keptText value).length < offset → ltostr value str offset = str offset := by
  rcases ltostr_stores value str with ⟨s, result, equal, stores⟩
  have last := stores.last
  rw [Nat.zero_add] at last
  simp only at last
  subst last
  rw [equal]
  refine ⟨⟨keptText_nonzero, fun index below => ?_, ?_⟩, fun offset above => ?_⟩
  · rw [Function.update_of_ne (by omega)]
    exact stores.stored index below
  · rw [Nat.zero_add]
    exact Function.update_self ..
  · rw [Function.update_of_ne (by omega)]
    exact stores.others offset (by omega)

theorem keptText_negative {value : Int} (negative : value < 0) : keptText value =
    character '-' :: ((keptDigits (int32 (value * -1))).map digitChar).reverse := by
  rw [keptText, if_pos negative, if_pos negative]
  rfl

theorem keptText_nonneg {value : Int} (nonneg : 0 ≤ value) :
    keptText value = ((keptDigits value).map digitChar).reverse := by
  rw [keptText, if_neg (by omega), if_neg (by omega)]
  rfl

theorem keptText_length {value : Int} (lower : -2 ^ 31 ≤ value) (upper : value < 2 ^ 31) :
    (keptText value).length ≤ 11 := by
  by_cases negative : value < 0
  · have least : -(2 ^ 31) ≤ int32 (value * -1) := Int.le_bmod (by decide)
    have most : int32 (value * -1) < 2 ^ 31 := Int.bmod_lt (by decide)
    have digits := @keptDigits_length (int32 (value * -1)) 10 (by decide) (by omega)
    rw [keptText_negative negative, List.length_cons, List.length_reverse, List.length_map]
    omega
  · have digits := @keptDigits_length value 10 (by decide) (by omega)
    rw [keptText_nonneg (by omega), List.length_reverse, List.length_map]
    omega

theorem keptDigits_nonpos {value digit : Int} (nonpos : value ≤ 0)
    (member : digit ∈ keptDigits value) : digit ≤ 0 := by
  fun_induction keptDigits value with
  | case1 value induction =>
      rcases List.mem_cons.mp member with rfl | later
      · have opposite := Int.tmod_nonneg 10 (show 0 ≤ -value by omega)
        rw [Int.neg_tmod] at opposite
        omega
      · split at later
        · next more =>
          have opposite := Int.tdiv_nonneg (show 0 ≤ -value by omega)
            (show (0 : Int) ≤ 10 by decide)
          rw [Int.neg_tdiv] at opposite
          exact induction more (by omega) later
        · cases later

/-- Digits that are stored for a negative number are no digits, or zeros. -/
theorem takeDigits_nonpos {digits : List Int} (range : ∀ digit ∈ digits, -10 < digit ∧ digit ≤ 0) :
    (takeDigits 10 (digits.map digitChar) 0).1 = 0 := by
  have value : ∀ digit : Nat, digit < 10 → digitValue (digitChar (-digit)) =
      if digit = 0 then some 0 else none := by
    decide
  induction digits with
  | nil => rfl
  | cons digit digits induction =>
      have bounds := range digit (by simp)
      have known := value digit.natAbs (by omega)
      rw [show -(digit.natAbs : Int) = digit by omega] at known
      rw [List.map_cons, takeDigits, known]
      by_cases zero : digit.natAbs = 0
      · rw [if_pos zero]
        exact induction fun other member => range other (by simp [member])
      · rw [if_neg zero]

theorem strtol_keptText_nonneg {num : Nat} (small : num < 2 ^ 31) :
    (strtol (keptText num) 10).1 = num ↔ InnerDigits num := by
  have taken := takeDigits_kept num []
  have bound := keptValue_le num
  rw [List.append_nil] at taken
  rw [keptText_nonneg (Int.natCast_nonneg num), ← keptValue_eq_iff]
  have read := @strtol_numeral Base.decimal _ (keptDigits_numeral num)
  rw [taken, takeDigits, int32_eq (by omega) (by omega)] at read
  rw [show (10 : Int) = Base.decimal.value from rfl, read]
  exact Int.natCast_inj

theorem strtol_keptText_negative {num : Nat} (positive : 0 < num) (small : num < 2 ^ 31) :
    (strtol (keptText (-num)) 10).1 = -num ↔ InnerDigits num := by
  have taken := takeDigits_kept num []
  have bound := keptValue_le num
  rw [List.append_nil] at taken
  have absolute : int32 (-(num : Int) * -1) = num := by
    rw [Int.neg_mul_neg, Int.mul_one, int32_eq (by omega) (by omega)]
  rw [keptText_negative (by omega), absolute, strtol_minus,
    show (10 : Int) = Base.decimal.value from rfl, taken, takeDigits, int32_neg_int32,
    int32_eq (by omega) (by omega), ← keptValue_eq_iff]
  exact Int.neg_inj.trans Int.natCast_inj

theorem strtol_keptText_min : (strtol (keptText (-2 ^ 31)) 10).1 ≠ -2 ^ 31 := by
  have same : int32 (-2 ^ 31 * -1) = -2 ^ 31 := by decide
  have zero := @takeDigits_nonpos (keptDigits (-2 ^ 31)).reverse (by
    intro digit member
    rw [List.mem_reverse] at member
    exact ⟨(keptDigits_range member).1, keptDigits_nonpos (by decide) member⟩)
  rw [keptText_negative (by decide), same, strtol_minus, ← List.map_reverse, zero]
  decide

end String

/-- At most 12 bytes are written, and `strtol` reads the number in them. -/
def ReadsBack (value : Int) (str : Nat → Byte) : Prop :=
  (∀ offset, 12 ≤ offset → ltostr value str offset = str offset) ∧
    ∃ text, StringAt (ltostr value str) 0 text ∧ (strtol text 10).1 = value

end FosKernel.DecimalStrings
