import FosKernel.Abstract.Strings
import Mathlib.Data.List.TakeWhile

/-! # `strsplit` finds the words

The two inner loops go past split characters and past an argument; the outer loop stores the
words one after the other, up to the limit.
-/

namespace FosKernel.StringSplit

open Text

variable {splitChars : CString} {memory : Nat → Byte} {argv : Nat → Nat} {string : Nat}

/-- Whether a character splits. -/
def splits (splitChars : CString) (char : Byte) : Bool := char ∈ splitChars.bytes

theorem strchr_eq_none_iff {s : List Byte} {c : Byte} : strchr s c = none ↔ c ∉ s := by
  induction s with
  | nil => exact iff_of_true rfl List.not_mem_nil
  | cons char s induction =>
      rw [strchr, List.mem_cons, not_or]
      by_cases same : char = c
      · rw [if_pos same]
        exact iff_of_false (by simp) (fun both => both.1 same.symm)
      · rw [if_neg same, induction]
        exact (and_iff_right fun equal => same equal.symm).symm

section Loops

variable {first rest : List Byte} {fuel : Nat}

/-- The split characters in front are overwritten. -/
structure Trimmed (string count : Nat) (memory trimmed : Nat → Byte) : Prop where
  zeros : ∀ index < count, trimmed (string + index) = 0
  others : ∀ address, address < string ∨ string + count ≤ address →
    trimmed address = memory address

theorem trimSplitChars_ok (at_string : StringAt memory string (first ++ rest))
    (blank : ∀ char ∈ first, splits splitChars char = true)
    (stop : ∀ char ∈ rest.head?, splits splitChars char = false) (enough : first.length < fuel) :
    ∃ trimmed, trimSplitChars splitChars fuel string memory =
        .ok (string + first.length, trimmed) ∧ Trimmed string first.length memory trimmed := by
  induction first generalizing string memory fuel with
  | nil =>
      cases fuel with
      | zero => exact absurd enough (Nat.not_lt_zero _)
      | succ fuel =>
          refine ⟨memory, ?_, fun index below => absurd below (Nat.not_lt_zero _), fun _ _ => rfl⟩
          rw [trimSplitChars, if_neg]
          · rfl
          · rintro ⟨nonzero, found⟩
            cases rest with
            | nil => exact nonzero at_string.ended
            | cons char rest =>
                rw [at_string.head_cons] at found
                have plain := stop char rfl
                exact found (strchr_eq_none_iff.mpr (by simpa [splits] using plain))
  | cons char first induction =>
      cases fuel with
      | zero => exact absurd enough (Nat.not_lt_zero _)
      | succ fuel =>
          have head : memory string = char := at_string.head_cons
          have split : char ∈ splitChars.bytes := by simpa [splits] using blank char (by simp)
          have later : StringAt (Function.update memory string 0) (string + 1) (first ++ rest) := by
            refine at_string.tail.congr fun index _ => ?_
            exact Function.update_of_ne (by omega) _ _
          rcases induction later (fun other member => blank other (by simp [member]))
            (by simpa using enough) with ⟨trimmed, ran, zeros, others⟩
          refine ⟨trimmed, ?_, ?_, ?_⟩
          · rw [trimSplitChars, if_pos, ran, List.length_cons]
            · congr 2
              omega
            · rw [head]
              exact ⟨at_string.nonzero char (by simp), fun none => strchr_eq_none_iff.mp none split⟩
          · intro index below
            cases index with
            | zero =>
                refine (others string (.inl (Nat.lt_succ_self _))).trans ?_
                exact Function.update_self ..
            | succ index =>
                rw [show string + (index + 1) = string + 1 + index by omega]
                exact zeros index (by simpa using below)
          · intro address outside
            rw [List.length_cons] at outside
            refine (others address (by omega)).trans ?_
            exact Function.update_of_ne (by omega) _ _

theorem skipArgument_ok (at_string : StringAt memory string (first ++ rest))
    (plain : ∀ char ∈ first, splits splitChars char = false)
    (stop : ∀ char ∈ rest.head?, splits splitChars char = true) (enough : first.length < fuel) :
    skipArgument splitChars memory fuel string = .ok (string + first.length) := by
  induction first generalizing string fuel with
  | nil =>
      cases fuel with
      | zero => exact absurd enough (Nat.not_lt_zero _)
      | succ fuel =>
          rw [skipArgument, if_neg]
          · rfl
          · rintro ⟨nonzero, missing⟩
            cases rest with
            | nil => exact nonzero at_string.ended
            | cons char rest =>
                rw [at_string.head_cons, strchr_eq_none_iff] at missing
                have split := stop char rfl
                exact missing (by simpa [splits] using split)
  | cons char first induction =>
      cases fuel with
      | zero => exact absurd enough (Nat.not_lt_zero _)
      | succ fuel =>
          have head : memory string = char := at_string.head_cons
          have other : char ∉ splitChars.bytes := by simpa [splits] using plain char (by simp)
          rw [skipArgument, if_pos]
          · refine (induction at_string.tail
              (fun other member => plain other (by simp [member])) (by simpa using enough)).trans ?_
            rw [List.length_cons]
            congr 1
            omega
          · rw [head]
            exact ⟨at_string.nonzero char (by simp), strchr_eq_none_iff.mpr other⟩

end Loops

/-! ## The words -/

section Words

/-- A string starts with split characters, and a word follows unless they are all of it. -/
theorem exists_word (splitChars : CString) (s : List Byte) : ∃ blanks word rest,
    s = blanks ++ (word ++ rest) ∧ (∀ char ∈ blanks, splits splitChars char = true) ∧
      (∀ char ∈ word, splits splitChars char = false) ∧
      (∀ char ∈ (word ++ rest).head?, splits splitChars char = false) ∧
      (∀ char ∈ rest.head?, splits splitChars char = true) ∧ (word = [] → rest = []) := by
  let after := s.dropWhile (splits splitChars)
  let plain := fun char => !splits splitChars char
  have whole : after.takeWhile plain ++ after.dropWhile plain = after :=
    List.takeWhile_append_dropWhile
  have head : ∀ char ∈ after.head?, splits splitChars char = false := by
    intro char member
    have stopped := List.head?_dropWhile_not (splits splitChars) s
    rw [Option.mem_def.mp member] at stopped
    simpa using stopped
  refine ⟨s.takeWhile (splits splitChars), after.takeWhile plain, after.dropWhile plain,
    ?_, ?_, ?_, ?_, ?_, ?_⟩
  · rw [whole, List.takeWhile_append_dropWhile]
  · exact fun char member => List.mem_takeWhile_imp member
  · intro char member
    simpa [plain] using List.mem_takeWhile_imp member
  · rw [whole]
    exact head
  · intro char member
    have stopped := List.head?_dropWhile_not plain after
    rw [Option.mem_def.mp member] at stopped
    simpa [plain] using stopped
  · intro empty
    rw [empty, List.nil_append] at whole
    rw [whole]
    cases equal : after with
    | nil => rfl
    | cons char others =>
        have first := head char (by rw [equal]; rfl)
        rw [equal, List.takeWhile_cons_of_pos (by simp [plain, first])] at empty
        cases empty

/-- What the outer loop leaves of a string, with `argc` arguments stored before. -/
structure SplitFrom (splitChars : CString) (string : Nat) (s : List Byte) (memory : Nat → Byte)
    (argv : Nat → Nat) (argc : Nat) (result : Split) : Prop where
  counted : result.argc = min (argc + (words (splits splitChars) s).length) (maxArguments - 1)
  complete : argc + (words (splits splitChars) s).length ≤ maxArguments - 1 →
    result.value = 1 ∧ result.argv result.argc = 0
  incomplete : maxArguments - 1 < argc + (words (splits splitChars) s).length → result.value = 0
  arguments : ∀ k (below : k < (words (splits splitChars) s).length),
    argc + k < maxArguments - 1 →
      StringAt result.memory (result.argv (argc + k)) (words (splits splitChars) s)[k]
  earlier : ∀ k < argc, result.argv k = argv k
  overwritten : ∀ address, result.memory address ≠ memory address →
    ∃ index, ∃ below : index < s.length, address = string + index ∧ s[index] ∈ splitChars.bytes
  ended : (∀ char ∈ s.head?, splits splitChars char = true) → result.memory string = 0

section Step

variable {blanks word rest : List Byte} {argc : Nat} {trimmed : Nat → Byte}

theorem Trimmed.overwritten {s : List Byte} (trims : Trimmed string blanks.length memory trimmed)
    (blank : ∀ char ∈ blanks, splits splitChars char = true) {address : Nat}
    (changed : trimmed address ≠ memory address) :
    ∃ index, ∃ below : index < (blanks ++ s).length, address = string + index ∧
      (blanks ++ s)[index] ∈ splitChars.bytes := by
  have inside : string ≤ address ∧ address < string + blanks.length := by
    by_contra outside
    exact changed (trims.others address (by omega))
  have member : address - string < blanks.length := by omega
  refine ⟨address - string, by rw [List.length_append]; omega, by omega, ?_⟩
  rw [List.getElem_append_left member]
  simpa [splits] using blank _ (List.getElem_mem member)

/-- A string that starts with a split character has one in front of its word. -/
theorem blanks_pos (nonempty : word ≠ []) (plain : ∀ char ∈ word, splits splitChars char = false)
    (first : ∀ char ∈ (blanks ++ (word ++ rest)).head?, splits splitChars char = true) :
    0 < blanks.length := by
  cases blanks with
  | nil =>
      cases word with
      | nil => exact absurd rfl nonempty
      | cons char word =>
          have splitting := first char rfl
          rw [plain char (by simp)] at splitting
          cases splitting
  | cons char blanks => exact Nat.succ_pos _

theorem words_next (blank : ∀ char ∈ blanks, splits splitChars char = true)
    (nonempty : word ≠ []) (plain : ∀ char ∈ word, splits splitChars char = false)
    (stop : ∀ char ∈ rest.head?, splits splitChars char = true) :
    words (splits splitChars) (blanks ++ (word ++ rest)) =
      word :: words (splits splitChars) rest := by
  rw [words_blanks blank, words_word nonempty plain stop]

/-- The string has no word left. -/
theorem SplitFrom.blank (at_string : StringAt memory string blanks)
    (trims : Trimmed string blanks.length memory trimmed)
    (blank : ∀ char ∈ blanks, splits splitChars char = true) (within : argc ≤ maxArguments - 1) :
    SplitFrom splitChars string blanks memory argv argc
      ⟨1, trimmed, Function.update argv argc 0, argc⟩ := by
  have none : words (splits splitChars) blanks = [] := by
    have same := @words_blanks (splits splitChars) blanks [] blank
    rwa [List.append_nil] at same
  constructor
  case counted =>
    rw [none, List.length_nil, Nat.add_zero]
    exact (Nat.min_eq_left within).symm
  case complete => exact fun _ => ⟨rfl, Function.update_self ..⟩
  case incomplete =>
    intro more
    rw [none] at more
    exact absurd more (Nat.not_lt.mpr within)
  case arguments =>
    intro k below
    rw [none] at below
    cases below
  case earlier => exact fun k before => Function.update_of_ne (Nat.ne_of_lt before) _ _
  case overwritten =>
    intro address changed
    have found := @Trimmed.overwritten _ _ _ _ _ [] trims blank address changed
    simpa only [List.append_nil] using found
  case ended =>
    intro _
    cases blanks with
    | nil => exact (trims.others string (.inr (Nat.le_refl _))).trans at_string.ended
    | cons char blanks => exact trims.zeros 0 (Nat.succ_pos _)

/-- There is a word left and no place for it. -/
theorem SplitFrom.full (trims : Trimmed string blanks.length memory trimmed)
    (blank : ∀ char ∈ blanks, splits splitChars char = true) (nonempty : word ≠ [])
    (plain : ∀ char ∈ word, splits splitChars char = false)
    (stop : ∀ char ∈ rest.head?, splits splitChars char = true) :
    SplitFrom splitChars string (blanks ++ (word ++ rest)) memory argv (maxArguments - 1)
      ⟨0, trimmed, argv, maxArguments - 1⟩ := by
  have more := words_next blank nonempty plain stop
  constructor
  case counted => exact (Nat.min_eq_right (Nat.le_add_right _ _)).symm
  case complete =>
    intro room
    rw [more, List.length_cons] at room
    omega
  case incomplete => exact fun _ => rfl
  case arguments => exact fun k _ room => absurd room (by omega)
  case earlier => exact fun _ _ => rfl
  case overwritten => exact fun address changed => trims.overwritten blank changed
  case ended => exact fun first => trims.zeros 0 (blanks_pos nonempty plain first)

/-- A word is stored and the rest is gone through. -/
theorem SplitFrom.next {result : Split}
    (at_string : StringAt memory string (blanks ++ (word ++ rest)))
    (trims : Trimmed string blanks.length memory trimmed)
    (blank : ∀ char ∈ blanks, splits splitChars char = true) (nonempty : word ≠ [])
    (plain : ∀ char ∈ word, splits splitChars char = false)
    (stop : ∀ char ∈ rest.head?, splits splitChars char = true)
    (after : SplitFrom splitChars (string + blanks.length + word.length) rest trimmed
      (Function.update argv argc (string + blanks.length)) (argc + 1) result) :
    SplitFrom splitChars string (blanks ++ (word ++ rest)) memory argv argc result := by
  have more := words_next blank nonempty plain stop
  have kept : ∀ address, address < string + blanks.length + word.length →
      result.memory address = trimmed address := by
    intro address below
    by_contra changed
    rcases after.overwritten address changed with ⟨index, _, equal, _⟩
    omega
  constructor
  case counted =>
    rw [after.counted, more, List.length_cons]
    congr 1
    omega
  case complete =>
    intro fits
    rw [more, List.length_cons] at fits
    exact after.complete (by omega)
  case incomplete =>
    intro beyond
    rw [more, List.length_cons] at beyond
    exact after.incomplete (by omega)
  case arguments =>
    intro k below within
    simp only [more, List.length_cons] at below ⊢
    cases k with
    | zero =>
        have pointer : result.argv argc = string + blanks.length :=
          (after.earlier argc (Nat.lt_succ_self _)).trans (Function.update_self ..)
        have moved := at_string.drop
        rw [Nat.add_zero, pointer]
        change StringAt _ _ word
        refine ⟨fun char member => moved.nonzero char (List.mem_append_left _ member), ?_, ?_⟩
        · intro index inside
          have char := moved.chars index (by rw [List.length_append]; omega)
          rw [List.getElem_append_left inside] at char
          rw [kept _ (by omega), trims.others _ (by omega)]
          exact char
        · exact after.ended stop
    | succ k =>
        rw [show argc + (k + 1) = argc + 1 + k by omega]
        exact after.arguments k (by omega) (by omega)
  case earlier =>
    intro k before
    rw [after.earlier k (by omega)]
    exact Function.update_of_ne (Nat.ne_of_lt before) _ _
  case overwritten =>
    intro address changed
    by_cases same : result.memory address = trimmed address
    · exact trims.overwritten blank (same ▸ changed)
    · rcases after.overwritten address same with ⟨index, below, equal, split⟩
      refine ⟨blanks.length + (word.length + index), by simp only [List.length_append]; omega,
        by omega, ?_⟩
      rw [List.getElem_append_right (by omega), List.getElem_append_right (by omega)]
      simpa only [Nat.add_sub_cancel_left] using split
  case ended =>
    intro first
    have positive := blanks_pos nonempty plain first
    rw [kept string (by omega)]
    exact trims.zeros 0 positive

end Step

theorem storeArgument_ok {index : Nat} (below : index < maxArguments) (string : Nat) :
    storeArgument argv index string = .ok (Function.update argv index string) := if_pos below

theorem splitLoop_ok {s : List Byte} {argc fuel : Nat} (at_string : StringAt memory string s)
    (within : argc ≤ maxArguments - 1) (enough : s.length + 2 ≤ fuel) :
    ∃ result, splitLoop splitChars fuel string memory argv argc = .ok result ∧
      SplitFrom splitChars string s memory argv argc result := by
  induction size : s.length using Nat.strongRecOn generalizing s string memory argv argc fuel with
  | ind size induction =>
  obtain ⟨fuel, rfl⟩ : ∃ left, fuel = left + 1 := ⟨fuel - 1, by omega⟩
  rcases exists_word splitChars s with ⟨blanks, word, rest, rfl, blank, plain, head, stop, whole⟩
  have sizes : (blanks ++ (word ++ rest)).length = blanks.length + (word.length + rest.length) := by
    simp only [List.length_append]
  have limit : maxArguments - 1 < maxArguments := by decide
  rcases trimSplitChars_ok at_string blank head (by omega : blanks.length < fuel) with
    ⟨trimmed, ran, trims⟩
  have later : StringAt trimmed (string + blanks.length) (word ++ rest) :=
    at_string.drop.congr fun index _ => trims.others _ (by omega)
  rw [splitLoop, ran]
  simp only [bind, Except.bind]
  by_cases nonempty : word = []
  · have finished := whole nonempty
    subst nonempty finished
    rw [List.append_nil, List.append_nil] at at_string ⊢
    have ended : trimmed (string + blanks.length) = 0 := later.ended
    rw [if_pos ended, storeArgument_ok (Nat.lt_of_le_of_lt within limit)]
    exact ⟨_, rfl, .blank at_string trims blank within⟩
  · have nonzero : trimmed (string + blanks.length) ≠ 0 := by
      cases word with
      | nil => exact absurd rfl nonempty
      | cons char word =>
          rw [later.head_cons]
          exact later.nonzero char (by simp)
    have positive := List.length_pos_iff.mpr nonempty
    rw [if_neg nonzero]
    by_cases full : argc = maxArguments - 1
    · subst full
      rw [if_pos rfl]
      exact ⟨_, rfl, .full trims blank nonempty plain stop⟩
    · have skipped := skipArgument_ok later plain stop (by omega : word.length < fuel)
      rw [if_neg full, storeArgument_ok (by omega)]
      simp only [skipped]
      rcases @induction rest.length (by omega) trimmed
        (Function.update argv argc (string + blanks.length))
        (string + blanks.length + word.length) rest (argc + 1) fuel later.drop (by omega)
        (by omega) rfl with ⟨result, finished, after⟩
      exact ⟨result, finished, .next at_string trims blank nonempty plain stop after⟩

theorem strsplit_ok {s : List Byte} (at_string : StringAt memory string s) {fuel : Nat}
    (enough : s.length + 2 ≤ fuel) :
    ∃ result, strsplit splitChars fuel string memory argv = .ok result ∧
      SplitFrom splitChars string s memory (Function.update argv 0 0) 0 result := by
  rcases @splitLoop_ok splitChars memory (Function.update argv 0 0) string s 0 fuel at_string
    (Nat.zero_le _) enough with ⟨result, ran, split⟩
  refine ⟨result, ?_, split⟩
  rw [strsplit, storeArgument_ok (by decide)]
  exact ran

end Words

/-- The words of a string are its arguments, as far as there is place for them. -/
structure Tokenised (splitChars : CString) (string : Nat) (s : List Byte) (memory : Nat → Byte)
    (result : Split) : Prop where
  argc : result.argc = min (words (splits splitChars) s).length (maxArguments - 1)
  arguments : ∀ k < result.argc, ∃ word, (words (splits splitChars) s)[k]? = some word ∧
    StringAt result.memory (result.argv k) word
  complete : result.value = 1 ∧ result.argv result.argc = 0 ↔
    (words (splits splitChars) s).length ≤ maxArguments - 1
  incomplete : ¬(words (splits splitChars) s).length ≤ maxArguments - 1 → result.value = 0
  overwritten : ∀ address, result.memory address ≠ memory address →
    ∃ index, ∃ below : index < s.length, address = string + index ∧ s[index] ∈ splitChars.bytes

/-- `strsplit` ends, stores no pointer past the end of `argv`, and finds the words. -/
theorem strsplit_tokenised {s : List Byte} (at_string : StringAt memory string s) {fuel : Nat}
    (enough : s.length + 2 ≤ fuel) :
    ∃ result, strsplit splitChars fuel string memory argv = .ok result ∧
      Tokenised splitChars string s memory result := by
  rcases @strsplit_ok splitChars memory argv string s at_string fuel enough with
    ⟨result, ran, split⟩
  refine ⟨result, ran, ?_⟩
  have counted := split.counted
  rw [Nat.zero_add] at counted
  refine ⟨counted, fun k below => ?_, ?_, fun beyond => split.incomplete (by omega),
    split.overwritten⟩
  · have inside : k < (words (splits splitChars) s).length := by omega
    have argument := split.arguments k inside (by omega)
    rw [Nat.zero_add] at argument
    exact ⟨_, List.getElem?_eq_getElem inside, argument⟩
  · constructor
    · rintro ⟨one, _⟩
      by_contra beyond
      rw [split.incomplete (by omega)] at one
      cases one
    · exact fun fits => split.complete (by omega)

theorem strsplit_two : ∃ result,
    strsplit ⟨[32], by decide⟩ 6 0 (fun address => [97, 32, 32, 98].getD address 0) (fun _ => 7) =
      .ok result ∧ result.argc = 2 ∧ result.argv 2 = 0 ∧
        StringAt result.memory (result.argv 1) [98] := by
  have at_string : StringAt (fun address => [97, 32, 32, 98].getD address 0) 0
      [97, 32, 32, 98] := .ofList (by decide)
  rcases @strsplit_tokenised ⟨[32], by decide⟩ _ (fun _ => 7) 0 _ at_string 6 (by decide) with
    ⟨result, ran, tokens⟩
  have two : result.argc = 2 := tokens.argc
  rcases tokens.arguments 1 (by omega) with ⟨word, found, at_word⟩
  have last := (tokens.complete.mpr (by decide)).2
  rw [two] at last
  cases found
  exact ⟨result, ran, two, last, at_word⟩

end FosKernel.StringSplit
