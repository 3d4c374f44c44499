import FosKernel.Text.Strings

/-! # Strings in the memory

A string at an address, its words, and the digits that `ltostr` keeps of a number.
-/

namespace FosKernel.Text

/-- The characters of a string at an address, up to its NUL. -/
structure StringAt (memory : Nat → Byte) (address : Nat) (s : List Byte) : Prop where
  nonzero : ∀ char ∈ s, char ≠ 0
  chars : ∀ index (below : index < s.length), memory (address + index) = s[index]
  ended : memory (address + s.length) = 0

theorem StringAt.unique {memory : Nat → Byte} {address : Nat} {first second : List Byte}
    (left : StringAt memory address first) (right : StringAt memory address second) :
    first = second := by
  have shorter : ∀ {first second : List Byte}, StringAt memory address first →
      StringAt memory address second → first.length ≤ second.length := by
    intro first second left right
    by_contra longer
    have char := left.chars second.length (by omega)
    rw [right.ended] at char
    exact left.nonzero _ (List.getElem_mem _) char.symm
  refine List.ext_getElem (Nat.le_antisymm (shorter left right) (shorter right left)) ?_
  intro index below within
  rw [← left.chars index below, right.chars index within]

section Parts

variable {memory other : Nat → Byte} {address : Nat}

theorem StringAt.head_cons {char : Byte} {s : List Byte}
    (at_string : StringAt memory address (char :: s)) : memory address = char :=
  at_string.chars 0 (Nat.succ_pos _)

theorem StringAt.drop {first rest : List Byte}
    (at_string : StringAt memory address (first ++ rest)) :
    StringAt memory (address + first.length) rest where
  nonzero char member := at_string.nonzero char (List.mem_append_right first member)
  chars index below := by
    have char := at_string.chars (first.length + index) (by rw [List.length_append]; omega)
    rw [List.getElem_append_right (by omega)] at char
    simpa only [Nat.add_assoc, Nat.add_sub_cancel_left] using char
  ended := by
    have ended := at_string.ended
    rw [List.length_append] at ended
    rwa [Nat.add_assoc]

theorem StringAt.tail {char : Byte} {s : List Byte}
    (at_string : StringAt memory address (char :: s)) : StringAt memory (address + 1) s :=
  @StringAt.drop memory address [char] s at_string

theorem StringAt.congr {s : List Byte} (at_string : StringAt memory address s)
    (same : ∀ index ≤ s.length, other (address + index) = memory (address + index)) :
    StringAt other address s where
  nonzero := at_string.nonzero
  chars index below := (same index (Nat.le_of_lt below)).trans (at_string.chars index below)
  ended := (same s.length (Nat.le_refl _)).trans at_string.ended

end Parts

theorem textFrom_nonzero {memory : Nat → Byte} {fuel address : Nat} :
    ∀ char ∈ textFrom memory fuel address, char ≠ 0 := by
  induction fuel generalizing address with
  | zero => exact fun char member => absurd member List.not_mem_nil
  | succ fuel induction =>
      rw [textFrom]
      split
      · exact fun char member => absurd member List.not_mem_nil
      · intro char member
        rcases List.mem_cons.mp member with rfl | later
        · assumption
        · exact induction char later

/-- A string ends at the first NUL. -/
theorem textFrom_length_le {memory : Nat → Byte} {fuel address count : Nat}
    (ended : memory (address + count) = 0) : (textFrom memory fuel address).length ≤ count := by
  induction fuel generalizing address count with
  | zero => exact Nat.zero_le _
  | succ fuel induction =>
      rw [textFrom]
      split
      · exact Nat.zero_le _
      · rename_i nonzero
        cases count with
        | zero => exact absurd ended nonzero
        | succ count =>
            rw [List.length_cons]
            apply Nat.succ_le_succ
            apply induction
            rw [← ended]
            congr 1
            omega

theorem StringAt.textFrom {memory : Nat → Byte} {address fuel : Nat} {s : List Byte}
    (at_string : StringAt memory address s) (enough : s.length < fuel) :
    Text.textFrom memory fuel address = s := by
  induction s generalizing address fuel with
  | nil =>
      obtain ⟨fuel, rfl⟩ : ∃ left, fuel = left + 1 := ⟨fuel - 1, by omega⟩
      exact if_pos at_string.ended
  | cons char s induction =>
      obtain ⟨fuel, rfl⟩ : ∃ left, fuel = left + 1 := ⟨fuel - 1, by omega⟩
      have head : memory address = char := at_string.head_cons
      have nonzero : memory address ≠ 0 := by
        rw [head]
        exact at_string.nonzero char List.mem_cons_self
      rw [Text.textFrom, if_neg nonzero, head,
        induction at_string.tail (Nat.lt_of_succ_lt_succ enough)]

/-- A string that is stored at the start of an array. -/
theorem StringAt.ofList {s : List Byte} (nonzero : ∀ char ∈ s, char ≠ 0) :
    StringAt (fun index => s.getD index 0) 0 s where
  nonzero := nonzero
  chars := by
    intro index below
    simp [List.getD_eq_getElem?_getD, below]
  ended := by simp

/-- The maximal runs of characters that do not split. -/
def words (splits : Byte → Bool) (s : List Byte) : List (List Byte) :=
  (s.splitOnP splits).filter (· ≠ [])

section Words

variable {splits : Byte → Bool} {blanks word rest : List Byte}

theorem words_nil : words splits [] = [] := rfl

theorem word_length {s : List Byte} (member : word ∈ words splits s) :
    word.length ≤ s.length := by
  have parts : ∀ part ∈ s.splitOnP splits, part.length ≤ s.length := by
    clear member
    induction s with
    | nil => simp
    | cons char s induction =>
        intro part member
        rw [List.splitOnP_cons_eq_if_modifyHead] at member
        split at member
        · rcases List.mem_cons.mp member with rfl | later
          · exact Nat.zero_le _
          · exact Nat.le_succ_of_le (induction part later)
        · cases parts : s.splitOnP splits with
          | nil => exact absurd parts (List.splitOnP_ne_nil splits s)
          | cons first rest =>
              rw [parts] at member induction
              rw [List.modifyHead_cons] at member
              rcases List.mem_cons.mp member with rfl | later
              · exact Nat.succ_le_succ (induction first List.mem_cons_self)
              · exact Nat.le_succ_of_le (induction part (List.mem_cons_of_mem _ later))
  exact parts word (List.mem_filter.mp member).1

theorem words_blanks (blank : ∀ char ∈ blanks, splits char = true) :
    words splits (blanks ++ rest) = words splits rest := by
  induction blanks with
  | nil => rfl
  | cons char blanks induction =>
      have first : List.splitOnP splits ([] ++ char :: (blanks ++ rest)) = [] :: _ :=
        List.splitOnP_append_cons_of_forall_mem (by simp) char (blank char (by simp)) _
      rw [List.nil_append] at first
      rw [words, List.cons_append, first, List.filter_cons_of_neg (by simp)]
      exact induction fun other member => blank other (by simp [member])

theorem words_word (nonempty : word ≠ []) (plain : ∀ char ∈ word, splits char = false)
    (ended : ∀ char ∈ rest.head?, splits char = true) :
    words splits (word ++ rest) = word :: words splits rest := by
  cases rest with
  | nil =>
      rw [List.append_nil, words, List.splitOnP_eq_singleton plain,
        List.filter_cons_of_pos (by simpa using nonempty)]
      rfl
  | cons char rest =>
      have split := ended char rfl
      have after := @words_blanks splits [char] rest (by simpa using split)
      rw [List.singleton_append] at after
      rw [words, List.splitOnP_append_cons_of_forall_mem plain char split,
        List.filter_cons_of_pos (by simpa using nonempty), after]
      rfl

end Words

/-- The digits of a number from the last one up to the one above which there is a zero. -/
def keptDigits (value : Int) : List Int :=
  value.tmod 10 :: if (value.tdiv 10).tmod 10 ≠ 0 then keptDigits (value.tdiv 10) else []
termination_by value.natAbs
decreasing_by
  rename_i more
  have positive : 0 < value.natAbs := by
    refine Int.natAbs_pos.mpr fun zero => more ?_
    simp [zero]
  rw [Int.natAbs_tdiv]
  exact Nat.div_lt_self positive (by decide)

end FosKernel.Text
