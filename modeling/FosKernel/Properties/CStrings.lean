import FosKernel.Abstract.Comparison
import FosKernel.Abstract.Strings
import FosKernel.Text.Pointers

/-! # Strings that are compared and copied

The comparisons follow the order of the dictionary on unsigned characters, and the loops in the
memory agree with those on lists. The copies of strings arrive where they do not overwrite what
they read later.
-/

namespace FosKernel.Text.Pointers

/-! ## Comparisons -/

theorem difference_compares {left right : Byte} {first second : List Byte} (differ : left ≠ right) :
    Compares ((left.toNat : Int) - right.toNat) (left :: first) (right :: second) := by
  apply Compares.heads differ
  · intro zero
    exact differ (BitVec.eq_of_toNat_eq (by omega))
  · rw [BitVec.lt_def]
    omega

/-- The cells of a block. -/
def block (memory : Nat → Byte) (s n : Nat) : List Byte :=
  (List.range n).map fun index => memory (s + index)

theorem block_succ (memory : Nat → Byte) (s n : Nat) :
    block memory s (n + 1) = memory s :: block memory (s + 1) n := by
  simp [block, List.range_succ_eq_map, Function.comp_def, Nat.add_assoc, Nat.add_comm 1]

theorem memcmp_compares (memory : Nat → Byte) (s1 s2 n : Nat) :
    Compares (memcmp memory s1 s2 n) (block memory s1 n) (block memory s2 n) := by
  induction n generalizing s1 s2 with
  | zero => exact .nil
  | succ n induction =>
      rw [block_succ, block_succ, memcmp]
      split
      · next differ => exact difference_compares differ
      · next same =>
          rw [not_not.mp same]
          exact (induction (s1 + 1) (s2 + 1)).cons (memory s2)

/-- The first character of a string, or its NUL. -/
theorem first_character {memory : Nat → Byte} {address : Nat} {s : List Byte}
    (string : StringAt memory address s) : memory address = s.headD 0 := by
  cases s with
  | nil => exact string.ended
  | cons char s => exact string.head_cons

/-- A character is the first one of a string exactly if it is the head of its list. -/
theorem head_iff {char : Byte} (nonzero : char ≠ 0) (s : List Byte) :
    char = s.headD 0 ↔ s.head? = some char := by
  cases s with
  | nil => simpa using nonzero
  | cons head s => simp [eq_comm]

section Strings

variable {memory : Nat → Byte} {p q : Nat} {x y : List Byte}

/-- The loop in the memory is the one on lists. -/
theorem strcmp_eq (left : StringAt memory p x) (right : StringAt memory q y) {fuel : Nat}
    (enough : x.length < fuel) : strcmp memory fuel p q = some (Text.strcmp x y) := by
  induction x generalizing p q y fuel with
  | nil =>
      obtain ⟨fuel, rfl⟩ := Nat.exists_eq_add_of_lt enough
      have ended : memory p = 0 := left.ended
      rw [strcmp, if_neg (by simp [ended]), Text.strcmp, ended, first_character right]
      simp
  | cons char x induction =>
      obtain ⟨fuel, rfl⟩ : ∃ left, fuel = left + 1 := ⟨fuel - 1, by omega⟩
      have nonzero := left.nonzero char List.mem_cons_self
      have decides := head_iff nonzero y
      rw [strcmp, left.head_cons, first_character right, Text.strcmp]
      by_cases same : y.head? = some char
      · rw [if_pos ⟨nonzero, decides.mpr same⟩, if_pos same]
        cases y with
        | nil => cases same
        | cons head y => exact induction left.tail right.tail (Nat.lt_of_succ_lt_succ enough)
      · rw [if_neg (fun both => same (decides.mp both.2)), if_neg same]

theorem strncmp_eq (left : StringAt memory p x) (right : StringAt memory q y) (n : Nat) :
    strncmp memory p q n = Text.strncmp x y n := by
  induction n generalizing p q x y with
  | zero => simp [strncmp, Text.strncmp]
  | succ n induction =>
      cases x with
      | nil =>
          have ended : memory p = 0 := left.ended
          rw [strncmp, if_neg (by simp [ended]), Text.strncmp, ended, first_character right]
          simp
      | cons char x =>
          have nonzero := left.nonzero char List.mem_cons_self
          have decides := head_iff nonzero y
          rw [strncmp, left.head_cons, first_character right, Text.strncmp]
          by_cases same : y.head? = some char
          · rw [if_pos ⟨nonzero, decides.mpr same⟩, if_pos same]
            cases y with
            | nil => cases same
            | cons head y => exact induction left.tail right.tail
          · rw [if_neg (fun both => same (decides.mp both.2)), if_neg same]

end Strings

theorem strncmp_compares {x y : List Byte} (left : ∀ char ∈ x, char ≠ 0)
    (right : ∀ char ∈ y, char ≠ 0) (n : Nat) :
    Compares (Text.strncmp x y n) (x.take n) (y.take n) := by
  have positive : ∀ char : Byte, char ≠ 0 → 0 < (char.toNat : Int) := by
    intro char nonzero
    have : char.toNat ≠ 0 := fun zero => nonzero (BitVec.eq_of_toNat_eq zero)
    omega
  induction n generalizing x y with
  | zero => simpa [Text.strncmp] using Compares.nil
  | succ n induction =>
      cases x with
      | nil =>
          cases y with
          | nil => simpa [Text.strncmp] using Compares.nil
          | cons char y =>
              have := positive char (right char List.mem_cons_self)
              apply Compares.shorter
              simpa [Text.strncmp] using this
      | cons char x =>
          rw [Text.strncmp]
          cases y with
          | nil =>
              have := positive char (left char List.mem_cons_self)
              rw [if_neg (by simp)]
              apply Compares.longer
              simpa using this
          | cons head y =>
              by_cases same : head = char
              · subst same
                rw [if_pos (by simp)]
                exact (induction (fun char member => left char (List.mem_cons_of_mem _ member))
                  (fun char member => right char (List.mem_cons_of_mem _ member))).cons head
              · rw [if_neg (by simpa using same)]
                exact difference_compares fun equal => same equal.symm

/-- `strcmp` is `strncmp` without a bound. -/
theorem strncmp_eq_strcmp {x : List Byte} (y : List Byte) {n : Nat} (enough : x.length < n) :
    Text.strncmp x y n = Text.strcmp x y := by
  induction x generalizing y n with
  | nil =>
      obtain ⟨n, rfl⟩ : ∃ left, n = left + 1 := ⟨n - 1, by omega⟩
      rfl
  | cons char x induction =>
      obtain ⟨n, rfl⟩ : ∃ left, n = left + 1 := ⟨n - 1, by omega⟩
      rw [Text.strncmp, Text.strcmp, induction y.tail (Nat.lt_of_succ_lt_succ enough)]

/-- On any two strings in the memory `strcmp` returns, and its sign says which of them comes
first; `strncmp` and `memcmp` do the same for the characters that they are to look at. -/
theorem comparisons_follow_order {memory : Nat → Byte} {p q : Nat} {x y : List Byte}
    (left : StringAt memory p x) (right : StringAt memory q y) (n : Nat) :
    (∃ result, (∀ fuel, x.length < fuel → strcmp memory fuel p q = some result) ∧
      Compares result x y) ∧
    Compares (strncmp memory p q n) (x.take n) (y.take n) ∧
    Compares (memcmp memory p q n) (block memory p n) (block memory q n) := by
  refine ⟨⟨Text.strcmp x y, fun fuel enough => strcmp_eq left right enough, ?_⟩, ?_,
    memcmp_compares memory p q n⟩
  · have all := strncmp_compares left.nonzero right.nonzero (x.length + y.length + 1)
    rwa [strncmp_eq_strcmp y (by omega), List.take_of_length_le (by omega),
      List.take_of_length_le (by omega)] at all
  · rw [strncmp_eq left right]
    exact strncmp_compares left.nonzero right.nonzero n

/-- Two strings, the second one at the address 4. -/
def samples : Nat → Byte := fun address => [97, 98, 0, 0, 97, 99, 0].getD address 0

theorem samples_first : StringAt samples 0 [97, 98] :=
  ⟨by decide, by decide, rfl⟩

theorem samples_second : StringAt samples 4 [97, 99] :=
  ⟨by decide, by decide, rfl⟩

theorem comparisons_follow_order_sample :
    (∃ result, (∀ fuel, 2 < fuel → strcmp samples fuel 0 4 = some result) ∧
      Compares result ([97, 98] : List Byte) [97, 99]) ∧
    Compares (strncmp samples 0 4 1) (List.take 1 ([97, 98] : List Byte)) [97] := by
  have all := comparisons_follow_order samples_first samples_second 1
  exact ⟨all.1, all.2.1⟩

/-! ## Searches -/

section Searches

variable {memory : Nat → Byte} {address : Nat} {s : List Byte}

theorem strnlen_eq (string : StringAt memory address s) (size : Nat) :
    strnlen memory address size = min s.length size := by
  induction size generalizing address s with
  | zero => simp [strnlen]
  | succ size induction =>
      rw [strnlen]
      cases s with
      | nil =>
          have ended : memory address = 0 := string.ended
          simp [ended]
      | cons char s =>
          have nonzero : memory address ≠ 0 := by
            rw [string.head_cons]
            exact string.nonzero char List.mem_cons_self
          rw [if_pos nonzero, induction string.tail, List.length_cons, Nat.succ_min_succ]

theorem memfindLoop_eq (memory : Nat → Byte) (c : Byte) (s rest : Nat) :
    memfindLoop memory c s rest = s + (block memory s rest).idxOf c := by
  induction rest generalizing s with
  | zero => rfl
  | succ rest induction =>
      rw [memfindLoop, block_succ]
      by_cases found : memory s = c
      · rw [if_pos found, List.idxOf_cons_eq _ found, Nat.add_zero]
      · rw [if_neg found, induction, List.idxOf_cons_ne _ found]
        omega

theorem strfind_eq (string : StringAt memory address s) (c : Byte) {fuel : Nat}
    (enough : s.length < fuel) :
    strfind memory c fuel address = some (address + s.idxOf c) := by
  induction s generalizing address fuel with
  | nil =>
      obtain ⟨fuel, rfl⟩ : ∃ left, fuel = left + 1 := ⟨fuel - 1, by omega⟩
      have ended : memory address = 0 := string.ended
      simp [strfind, ended]
  | cons char s induction =>
      obtain ⟨fuel, rfl⟩ : ∃ left, fuel = left + 1 := ⟨fuel - 1, by omega⟩
      rw [strfind, string.head_cons, if_neg (string.nonzero char List.mem_cons_self)]
      by_cases found : char = c
      · rw [if_pos found, List.idxOf_cons_eq _ found, Nat.add_zero]
      · rw [if_neg found, induction string.tail (Nat.lt_of_succ_lt_succ enough),
          List.idxOf_cons_ne _ found, Nat.add_assoc, Nat.add_comm 1]

/-- `strchr` is `strfind`, except that it has no pointer to the NUL. -/
theorem strchr_eq (string : StringAt memory address s) (c : Byte) {fuel : Nat}
    (enough : s.length < fuel) :
    strchr memory c fuel address =
      some (if c ∈ s then some (address + s.idxOf c) else none) := by
  induction s generalizing address fuel with
  | nil =>
      obtain ⟨fuel, rfl⟩ : ∃ left, fuel = left + 1 := ⟨fuel - 1, by omega⟩
      have ended : memory address = 0 := string.ended
      simp [strchr, ended]
  | cons char s induction =>
      obtain ⟨fuel, rfl⟩ : ∃ left, fuel = left + 1 := ⟨fuel - 1, by omega⟩
      rw [strchr, string.head_cons, if_neg (string.nonzero char List.mem_cons_self)]
      by_cases found : char = c
      · rw [if_pos found, List.idxOf_cons_eq _ found, if_pos (by simp [found]), Nat.add_zero]
      · rw [if_neg found, induction string.tail (Nat.lt_of_succ_lt_succ enough),
          List.idxOf_cons_ne _ found]
        simp [Ne.symm found, Nat.add_assoc, Nat.add_comm 1]

end Searches

/-! ## Copies -/

section Copies

variable {memory : Nat → Byte} {dst src : Nat} {s : List Byte}

/-- A string at its new place, where the copy did not go over the rest of it. -/
theorem moved_string (string : StringAt memory src s) :
    StringAt (moved memory dst src (s.length + 1)) dst s where
  nonzero := string.nonzero
  chars := by
    intro index below
    rw [moved_inside (by omega)]
    exact string.chars index below
  ended := by
    rw [moved_inside (by omega)]
    exact string.ended

/-- A write in front of the string or behind it. -/
theorem updated_string (string : StringAt memory src s) {address : Nat} (char : Byte)
    (outside : address < src ∨ src + s.length < address) :
    StringAt (Function.update memory address char) src s := by
  apply string.congr
  intro index within
  exact Function.update_of_ne (by omega) _ _

theorem strcpy_eq_copyUp (string : StringAt memory src s)
    (order : dst ≤ src ∨ src + s.length < dst) {fuel : Nat} (enough : s.length < fuel) :
    strcpy memory fuel dst src = some (copyUp memory dst src (s.length + 1)) := by
  induction s generalizing memory dst src fuel with
  | nil =>
      obtain ⟨fuel, rfl⟩ : ∃ left, fuel = left + 1 := ⟨fuel - 1, by omega⟩
      have ended : memory src = 0 := string.ended
      simp [strcpy, ended, copyUp]
  | cons char s induction =>
      obtain ⟨fuel, rfl⟩ : ∃ left, fuel = left + 1 := ⟨fuel - 1, by omega⟩
      have nonzero := string.nonzero char List.mem_cons_self
      rw [List.length_cons] at order enough
      have rest := updated_string string.tail (memory src) (show dst < src + 1 ∨ _ by omega)
      have copied := induction rest (show dst + 1 ≤ src + 1 ∨ _ by omega)
        (Nat.lt_of_succ_lt_succ enough)
      rw [strcpy, List.length_cons, copyUp]
      simp only [string.head_cons] at copied ⊢
      rw [if_pos nonzero, copied]

/-- A copy that goes over the NUL of its own source finds no other. -/
theorem strcpy_endless {distance : Nat} (apart : 0 < distance)
    (nonzero : ∀ step < distance, memory (src + step) ≠ 0) (fuel : Nat) :
    strcpy memory fuel (src + distance) src = none := by
  induction fuel generalizing memory src with
  | zero => rfl
  | succ fuel induction =>
      have first : memory src ≠ 0 := nonzero 0 apart
      rw [strcpy, if_pos first, Nat.add_right_comm]
      apply induction
      intro step inside
      by_cases last : src + 1 + step = src + distance
      · rw [last, Function.update_self]
        exact first
      · rw [Function.update_of_ne last, Nat.add_assoc, Nat.add_comm 1]
        exact nonzero (step + 1) (by omega)

theorem strcpy_monotone {memory result : Nat → Byte} {fuel more dst src : Nat}
    (returns : strcpy memory fuel dst src = some result) (enough : fuel ≤ more) :
    strcpy memory more dst src = some result := by
  induction fuel generalizing memory more dst src with
  | zero => cases returns
  | succ fuel induction =>
      obtain ⟨more, rfl⟩ : ∃ left, more = left + 1 := ⟨more - 1, by omega⟩
      rw [strcpy] at returns ⊢
      split at returns
      · next next =>
          rw [if_pos next]
          exact induction returns (Nat.le_of_succ_le_succ enough)
      · next last => rw [if_neg last, returns]

/-- `strcpy` returns exactly if it does not start within its source behind the first character,
and then the string is at its new place and nothing else has changed. -/
theorem strcpy_returns_iff (string : StringAt memory src s) (dst : Nat) :
    ((∃ fuel, (strcpy memory fuel dst src).isSome) ↔ dst ≤ src ∨ src + s.length < dst) ∧
    ∀ fuel result, strcpy memory fuel dst src = some result →
      StringAt result dst s ∧
      ∀ address, address < dst ∨ dst + s.length < address → result address = memory address := by
  have endless : ¬(dst ≤ src ∨ src + s.length < dst) →
      ∀ fuel, strcpy memory fuel dst src = none := by
    intro overlap fuel
    obtain ⟨distance, rfl⟩ := Nat.exists_eq_add_of_le (show src ≤ dst by omega)
    apply strcpy_endless (by omega)
    intro step inside
    rw [string.chars step (by omega)]
    exact string.nonzero _ (List.getElem_mem _)
  constructor
  · constructor
    · rintro ⟨fuel, returns⟩
      by_contra overlap
      rw [endless overlap fuel] at returns
      cases returns
    · intro order
      exact ⟨s.length + 1, by rw [strcpy_eq_copyUp string order (Nat.lt_succ_self _)]; rfl⟩
  · intro fuel result returns
    have order : dst ≤ src ∨ src + s.length < dst := by
      by_contra overlap
      rw [endless overlap fuel] at returns
      cases returns
    have more := strcpy_monotone returns (Nat.le_max_left fuel (s.length + 1))
    rw [strcpy_eq_copyUp string order (Nat.le_max_right _ _)] at more
    cases more
    rw [copyUp_eq_moved (by omega)]
    exact ⟨moved_string string, fun address outside => moved_outside (by omega)⟩

/-- Onto the second character there is no end, onto the one behind the NUL there is. -/
theorem strcpy_returns_iff_sample :
    (¬∃ fuel, (strcpy samples fuel 1 0).isSome) ∧ ∃ fuel, (strcpy samples fuel 3 0).isSome := by
  constructor
  · exact mt (strcpy_returns_iff samples_first 1).1.mp (by decide)
  · exact (strcpy_returns_iff samples_first 3).1.mpr (by decide)

/-! ## Copies with a bound -/

/-- The characters of a string, then NULs. -/
theorem strncpy_eq (string : StringAt memory src s) (order : dst ≤ src ∨ src + s.length < dst)
    (size address : Nat) :
    strncpy memory dst src size address =
      if dst ≤ address ∧ address < dst + size then s.getD (address - dst) 0
      else memory address := by
  induction size generalizing memory dst src s with
  | zero => rw [strncpy, if_neg (by omega)]
  | succ size induction =>
      have first := first_character string
      have same : Function.update memory dst (memory src) src = memory src := by
        by_cases here : src = dst
        · rw [here, Function.update_self]
        · exact Function.update_of_ne here _ _
      simp only [strncpy, same]
      cases s with
      | nil =>
          have ended : memory src = 0 := first
          have rest : StringAt (Function.update memory dst (memory src)) src [] :=
            ⟨nofun, nofun, same.trans ended⟩
          rw [if_neg (by simp [ended]), induction rest (by simp only [List.length_nil]; omega)]
          by_cases here : address = dst
          · subst here
            rw [if_neg (by omega), if_pos (by omega), Function.update_self, ended]
            simp
          · rw [Function.update_of_ne here]
            simp only [List.getD_nil]
            congr 1
            exact propext (by omega)
      | cons char s =>
          have nonzero : memory src ≠ 0 := by
            rw [first]
            exact string.nonzero char List.mem_cons_self
          rw [List.length_cons] at order
          have rest := updated_string string.tail (memory src) (show dst < src + 1 ∨ _ by omega)
          rw [if_pos nonzero, induction rest (by omega)]
          by_cases here : address = dst
          · subst here
            rw [if_neg (by omega), if_pos (by omega), Function.update_self, first]
            simp
          · rw [Function.update_of_ne here]
            by_cases inside : dst ≤ address ∧ address < dst + (size + 1)
            · rw [if_pos (by omega), if_pos inside,
                show address - dst = address - (dst + 1) + 1 by omega, List.getD_cons_succ]
            · rw [if_neg (by omega), if_neg inside]

theorem strlcpyLoop_eq (string : StringAt memory src s) (order : dst ≤ src ∨ src + s.length < dst)
    (size : Nat) :
    strlcpyLoop memory dst src size =
      (copyUp memory dst src (min s.length size), dst + min s.length size) := by
  induction size generalizing memory dst src s with
  | zero => simp [strlcpyLoop, copyUp]
  | succ size induction =>
      rw [strlcpyLoop]
      cases s with
      | nil =>
          have ended : memory src = 0 := string.ended
          rw [if_neg (by simp [ended])]
          simp [copyUp]
      | cons char s =>
          have nonzero : memory src ≠ 0 := by
            rw [string.head_cons]
            exact string.nonzero char List.mem_cons_self
          rw [List.length_cons] at order
          have rest := updated_string string.tail (memory src) (show dst < src + 1 ∨ _ by omega)
          rw [if_pos nonzero, induction rest (by omega), List.length_cons,
            Nat.succ_min_succ, copyUp, Nat.add_right_comm, Nat.add_assoc]

/-- The loop goes up, one cell at a time. -/
theorem strlcpyLoop_outside (memory : Nat → Byte) (dst src size : Nat) :
    (dst ≤ (strlcpyLoop memory dst src size).2 ∧
      (strlcpyLoop memory dst src size).2 ≤ dst + size) ∧
    ∀ address, address < dst ∨ (strlcpyLoop memory dst src size).2 ≤ address →
      (strlcpyLoop memory dst src size).1 address = memory address := by
  induction size generalizing memory dst src with
  | zero => exact ⟨⟨Nat.le_refl _, Nat.le_refl _⟩, fun address _ => rfl⟩
  | succ size induction =>
      rw [strlcpyLoop]
      split
      · have ⟨range, outside⟩ :=
          induction (Function.update memory dst (memory src)) (dst + 1) (src + 1)
        constructor
        · omega
        · intro address other
          rw [outside address (by omega), Function.update_of_ne (by omega)]
      · exact ⟨⟨Nat.le_refl _, Nat.le_add_right _ _⟩, fun address _ => rfl⟩

/-- Whatever the source is, `strlcpy` ends its copy with a NUL inside the buffer and writes
nowhere else. -/
theorem strlcpy_contained (memory : Nat → Byte) (dst src : Nat) {size : Nat} (room : 0 < size) :
    (strlcpy memory dst src size).2 < size ∧
    (strlcpy memory dst src size).1 (dst + (strlcpy memory dst src size).2) = 0 ∧
    ∀ address, address < dst ∨ dst + (strlcpy memory dst src size).2 < address →
      (strlcpy memory dst src size).1 address = memory address := by
  have ⟨range, outside⟩ := strlcpyLoop_outside memory dst src (size - 1)
  rw [strlcpy, if_pos room]
  dsimp only
  constructor
  · omega
  · constructor
    · rw [show dst + (_ - dst) = _ from Nat.add_sub_cancel' range.1, Function.update_self]
    · intro address other
      rw [Function.update_of_ne (by omega), outside address (by omega)]

/-- The first `size - 1` characters, or all of them, are at the new place. -/
theorem strlcpy_string (string : StringAt memory src s)
    (order : dst ≤ src ∨ src + s.length < dst) {size : Nat} (room : 0 < size) :
    StringAt (strlcpy memory dst src size).1 dst (s.take (size - 1)) ∧
    (strlcpy memory dst src size).2 = min s.length (size - 1) := by
  have copied := strlcpyLoop_eq string order (size - 1)
  have value : (strlcpy memory dst src size).2 = min s.length (size - 1) := by
    rw [strlcpy, if_pos room]
    simp only [copied]
    omega
  have cells : (strlcpy memory dst src size).1 =
      Function.update (copyUp memory dst src (min s.length (size - 1)))
        (dst + min s.length (size - 1)) 0 := by
    rw [strlcpy, if_pos room]
    simp only [copied]
  have taken : (s.take (size - 1)).length = min s.length (size - 1) := by
    rw [List.length_take, Nat.min_comm]
  refine ⟨⟨?_, ?_, ?_⟩, value⟩
  · exact fun char member => string.nonzero char (List.mem_of_mem_take member)
  · intro index below
    rw [cells, Function.update_of_ne (by omega), copyUp_eq_moved (by omega),
      moved_inside (by omega), string.chars index (by omega), List.getElem_take]
  · rw [cells, taken, Function.update_self]

/-- Both copies keep to their buffer. `strlcpy` always leaves a string there, cut to fit, and
says how long it is; `strncpy` leaves the string if there is room for its NUL, and no NUL
otherwise. -/
theorem bounded_copies (string : StringAt memory src s)
    (order : dst ≤ src ∨ src + s.length < dst) {size : Nat} (room : 0 < size) :
    StringAt (strlcpy memory dst src size).1 dst (s.take (size - 1)) ∧
    (strlcpy memory dst src size).2 = min s.length (size - 1) ∧
    (s.length < size → StringAt (strncpy memory dst src size) dst s) ∧
    (size ≤ s.length → ∀ index < size, strncpy memory dst src size (dst + index) ≠ 0) ∧
    ∀ address, address < dst ∨ dst + size ≤ address →
      (strlcpy memory dst src size).1 address = memory address ∧
      strncpy memory dst src size address = memory address := by
  have ⟨cut, value⟩ := strlcpy_string string order room
  have ⟨_, _, outside⟩ := strlcpy_contained memory dst src room
  have cells := strncpy_eq string order size
  refine ⟨cut, value, ?_, ?_, ?_⟩
  · intro fits
    refine ⟨string.nonzero, ?_, ?_⟩
    · intro index below
      rw [cells, if_pos (by omega), Nat.add_sub_cancel_left, List.getD_eq_getElem _ _ below]
    · rw [cells, if_pos (by omega), Nat.add_sub_cancel_left, List.getD_eq_default _ _ (by omega)]
  · intro long index inside
    have below : index < s.length := by omega
    rw [cells, if_pos (by omega), Nat.add_sub_cancel_left, List.getD_eq_getElem _ _ below]
    exact string.nonzero _ (List.getElem_mem _)
  · intro address other
    constructor
    · exact outside address (by omega)
    · rw [cells, if_neg (by omega)]

theorem bounded_copies_sample :
    StringAt (strlcpy samples 8 4 2).1 8 [97] ∧ (strlcpy samples 8 4 2).2 = 1 ∧
    StringAt (strncpy samples 8 4 3) 8 [97, 99] ∧ strncpy samples 8 4 2 (8 + 1) ≠ 0 := by
  have short := @bounded_copies samples 8 4 [97, 99] samples_second (by decide) 2 (by decide)
  have long := @bounded_copies samples 8 4 [97, 99] samples_second (by decide) 3 (by decide)
  exact ⟨short.1, short.2.1, long.2.2.1 (by decide), short.2.2.2.1 (by decide) 1 (by decide)⟩

/-! ## Concatenation -/

theorem strlen_eq (string : StringAt memory src s) {fuel : Nat} (enough : s.length < fuel) :
    strlen memory fuel src = some s.length := by
  induction s generalizing src fuel with
  | nil =>
      obtain ⟨fuel, rfl⟩ : ∃ left, fuel = left + 1 := ⟨fuel - 1, by omega⟩
      have ended : memory src = 0 := string.ended
      simp [strlen, ended]
  | cons char s induction =>
      obtain ⟨fuel, rfl⟩ : ∃ left, fuel = left + 1 := ⟨fuel - 1, by omega⟩
      have nonzero := string.nonzero char List.mem_cons_self
      rw [strlen, string.head_cons, if_pos nonzero,
        induction string.tail (Nat.lt_of_succ_lt_succ enough)]
      rfl

/-- `strcconcat` puts the one string behind the other, also behind itself in its own buffer. -/
theorem strcconcat_joins {first second final : Nat} {x y : List Byte}
    (left : StringAt memory first x) (right : StringAt memory second y)
    (before : final ≤ first ∨ first + x.length ≤ final)
    (behind : final + x.length ≤ second ∨ second + y.length ≤ final) {fuel : Nat}
    (enough : x.length < fuel ∧ y.length < fuel) :
    ∃ result, strcconcat memory fuel first second final = some result ∧
      StringAt result final (x ++ y) ∧
      ∀ address, address < final ∨ final + (x ++ y).length < address →
        result address = memory address := by
  have joined : strcconcat memory fuel first second final = some (Function.update
      (copyUp (copyUp memory final first x.length) (final + x.length) second y.length)
      (final + x.length + y.length) 0) := by
    simp [strcconcat, strlen_eq left enough.1, strlen_eq right enough.2]
  refine ⟨_, joined, ?_, ?_⟩
  · rw [copyUp_eq_moved before, copyUp_eq_moved (by omega)]
    refine ⟨?_, ?_, ?_⟩
    · intro char member
      rcases List.mem_append.mp member with here | here
      · exact left.nonzero char here
      · exact right.nonzero char here
    · intro index below
      rw [List.length_append] at below
      rw [Function.update_of_ne (by omega)]
      by_cases here : index < x.length
      · rw [moved_outside (by omega), moved_inside here, left.chars index here,
          List.getElem_append_left here]
      · obtain ⟨index, rfl⟩ := Nat.exists_eq_add_of_le (show x.length ≤ index by omega)
        rw [← Nat.add_assoc, moved_inside (by omega), moved_outside (by omega),
          right.chars index (by omega), List.getElem_append_right (by omega)]
        simp
    · rw [List.length_append, ← Nat.add_assoc, Function.update_self]
  · intro address outside
    rw [List.length_append] at outside
    rw [Function.update_of_ne (by omega), copyUp_eq_moved before, copyUp_eq_moved (by omega),
      moved_outside (by omega), moved_outside (by omega)]

end Copies

end FosKernel.Text.Pointers
