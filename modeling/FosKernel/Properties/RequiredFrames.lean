import FosKernel.Properties.HeapHistory

/-! # The frames that an allocation needs

`calculate_required_frames` walks over the tables and then over the pages of a range,
with an end that is reduced modulo `2 ^ 32`.
-/

namespace FosKernel.RequiredFrames

section Loop

variable {missing : Nat → Except Stop Bool} {unit count bound fuel index number result : Nat}

def isMissing (missing : Nat → Except Stop Bool) (address : Nat) : Bool :=
  match missing address with
  | .ok counted => counted
  | .error _ => false

/-- What the loop has ahead of it. -/
def ahead (missing : Nat → Except Stop Bool) (unit count bound index : Nat) : Finset Nat :=
  (Finset.range count).filter fun other =>
    index ≤ other ∧ other * unit < bound ∧ isMissing missing (other * unit) = true

theorem ahead_done (past : bound ≤ index * unit) :
    ahead missing unit count bound index = ∅ := by
  refine Finset.filter_eq_empty_iff.mpr ?_
  rintro other - ⟨above, below, -⟩
  have within : index * unit ≤ other * unit := Nat.mul_le_mul_right unit above
  omega

theorem index_inside (space : unit * count = 2 ^ 32) (fits : bound ≤ 2 ^ 32)
    (below : index * unit < bound) : index < count := by
  by_contra outside
  have large : count * unit ≤ index * unit := Nat.mul_le_mul_right unit (by omega)
  rw [Nat.mul_comm] at space
  omega

theorem ahead_step (space : unit * count = 2 ^ 32) (fits : bound ≤ 2 ^ 32)
    (below : index * unit < bound) {counted : Bool}
    (found : missing (index * unit) = .ok counted) :
    (ahead missing unit count bound index).card =
      (if counted then 1 else 0) + (ahead missing unit count bound (index + 1)).card := by
  have inside := index_inside space fits below
  have equal : isMissing missing (index * unit) = counted := by
    rw [isMissing, found]
  cases counted with
  | false =>
      rw [if_neg (by simp), Nat.zero_add]
      refine congrArg Finset.card (Finset.filter_congr fun other _ => ?_)
      constructor
      · rintro ⟨above, rest⟩
        have different : index ≠ other := by
          rintro rfl
          rw [equal] at rest
          exact absurd rest.2 (by simp)
        exact ⟨by omega, rest⟩
      · exact fun ⟨above, rest⟩ => ⟨by omega, rest⟩
  | true =>
      have grows : ahead missing unit count bound index =
          insert index (ahead missing unit count bound (index + 1)) := by
        ext other
        simp only [ahead, Finset.mem_filter, Finset.mem_insert, Finset.mem_range]
        constructor
        · rintro ⟨within, above, rest⟩
          rcases Nat.eq_or_lt_of_le above with same | later
          · exact .inl same.symm
          · exact .inr ⟨within, later, rest⟩
        · rintro (rfl | ⟨within, above, rest⟩)
          · exact ⟨inside, le_rfl, below, equal⟩
          · exact ⟨within, by omega, rest⟩
      have fresh : index ∉ ahead missing unit count bound (index + 1) := by
        intro member
        have above := (Finset.mem_filter.mp member).2.1
        omega
      rw [grows, Finset.card_insert_of_notMem fresh, if_pos rfl, Nat.add_comm]

/-- The next address of a loop whose bound is not within the last unit. -/
theorem next_index (fits : bound + unit ≤ 2 ^ 32) (below : index * unit < bound) :
    (index * unit + unit) % 2 ^ 32 = (index + 1) * unit := by
  rw [Nat.add_mul, Nat.one_mul]
  exact Nat.mod_eq_of_lt (by omega)

/-- A loop that returns has looked everywhere ahead and has counted what was missing. -/
theorem countMissing_ok (space : unit * count = 2 ^ 32) (fits : bound + unit ≤ 2 ^ 32)
    (returned : countMissing missing unit bound fuel (index * unit) number = .ok result) :
    (∀ other, index ≤ other → other * unit < bound →
      ∃ counted, missing (other * unit) = .ok counted) ∧
    result = number + (ahead missing unit count bound index).card := by
  induction fuel generalizing index number with
  | zero => cases returned
  | succ fuel induction =>
      rw [countMissing] at returned
      split at returned
      · next below =>
        rcases Except.bind_ok.mp returned with ⟨counted, found, rest⟩
        rw [next_index fits below] at rest
        rcases induction rest with ⟨looked, total⟩
        refine ⟨fun other above otherBelow => ?_, ?_⟩
        · rcases Nat.eq_or_lt_of_le above with rfl | later
          · exact ⟨counted, found⟩
          · exact looked other later otherBelow
        · rw [total, ahead_step space (by omega) below found]
          split <;> omega
      · next past =>
        have done : bound ≤ index * unit := by omega
        refine ⟨fun other above otherBelow => ?_, ?_⟩
        · have within : index * unit ≤ other * unit := Nat.mul_le_mul_right unit above
          omega
        · rw [ahead_done done, Finset.card_empty, Nat.add_zero]
          exact (Except.ok.inj returned).symm

theorem countMissing_returns (space : unit * count = 2 ^ 32) (fits : bound + unit ≤ 2 ^ 32)
    (inside : index ≤ count) (enough : count < fuel + index)
    (looks : ∀ other, index ≤ other → other * unit < bound →
      ∃ counted, missing (other * unit) = .ok counted) :
    ∃ result, countMissing missing unit bound fuel (index * unit) number = .ok result := by
  induction fuel generalizing index number with
  | zero => omega
  | succ fuel induction =>
      rw [countMissing]
      split
      · next below =>
        have earlier := index_inside space (by omega) below
        rcases looks index le_rfl below with ⟨counted, found⟩
        rw [found]
        change ∃ result, countMissing missing unit bound fuel _ _ = .ok result
        rw [next_index fits below]
        exact induction (by omega) (by omega) fun other above => looks other (by omega)
      · exact ⟨number, rfl⟩

/-- A bound within the last unit is never reached: the address wraps first. -/
theorem countMissing_endless (space : unit * count = 2 ^ 32) (late : 2 ^ 32 < bound + unit)
    (inside : index < count) :
    countMissing missing unit bound fuel (index * unit) number ≠ .ok result := by
  induction fuel generalizing index number with
  | zero => nofun
  | succ fuel induction =>
      intro returned
      have within : (index + 1) * unit ≤ count * unit := Nat.mul_le_mul_right unit (by omega)
      rw [Nat.mul_comm count, space, Nat.add_mul, Nat.one_mul] at within
      have below : index * unit < bound := by omega
      rw [countMissing, if_pos below] at returned
      rcases Except.bind_ok.mp returned with ⟨counted, -, rest⟩
      have next : (index * unit + unit) % 2 ^ 32 = (index + 1) % count * unit := by
        rw [← space, ← Nat.mul_mod_mul_right, Nat.add_mul, Nat.one_mul, Nat.mul_comm count]
      rw [next] at rest
      exact induction (Nat.mod_lt _ (by omega)) rest

end Loop

section Requirement

variable {state : State} {directory : Directory}

/-- A user table is missing when its directory entry is zero, or when no page of the kernel
heap below the next-fit pointer maps it. -/
theorem tableMissing_user {address : Nat} {counted : Bool} (user : address < userTop)
    (returned : tableMissing state directory address = .ok counted) :
    counted = true ↔ directoryEntry state directory address = 0 ∨
      kheapVirtualAddress state (frameOf (directoryEntry state directory address)) = .ok 0 := by
  rcases Except.bind_ok.mp returned with ⟨⟨status, pointer⟩, found, ended⟩
  rcases Except.bind_ok.mp found with ⟨located, pointed, stated⟩
  rw [tablePointer, if_neg (not_le.mpr user)] at pointed
  rcases Except.bind_ok.mp pointed with ⟨page, searched, made⟩
  have isPointer : TablePointer.ofAddress page = located := Except.ok.inj made
  have equal : decide (pointer = .null) = counted := Except.ok.inj ended
  rw [← equal, decide_eq_true_eq, searched, Except.ok.injEq]
  rcases tableStatus_ok stated with ⟨present, -, rfl⟩ | ⟨zero, -, rfl⟩
  · have nonzero : directoryEntry state directory address ≠ 0 := ne_zero_of_present present
    have null : TablePointer.ofAddress page = .null ↔ page = 0 := by
      rw [TablePointer.ofAddress]
      split <;> simp_all
    rw [← isPointer, null]
    exact ⟨.inr, fun either => either.resolve_left nonzero⟩
  · exact ⟨fun _ => .inl zero, fun _ => rfl⟩

/-- The unit with this index has an address in the range. -/
def Intersects (unit start stop index : Nat) : Prop :=
  max start (index * unit) < min stop ((index + 1) * unit)

instance (unit start stop index : Nat) : Decidable (Intersects unit start stop index) :=
  inferInstanceAs (Decidable (_ < _))

/-- The units that are missing in the range, cut off at the top of the address space. -/
def required (missing : Nat → Except Stop Bool) (unit count start size : Nat) : Finset Nat :=
  (Finset.range count).filter fun index =>
    Intersects unit start (min (start + size) (2 ^ 32)) index ∧
      isMissing missing (index * unit) = true

/-- The call ends and counts the missing tables and pages of the range. -/
def CountsRange (state : State) (directory : Directory) (start size : BitVec 32) : Prop :=
  ∃ fuel, calculateRequiredFrames fuel state directory start.toNat size.toNat =
    .ok ((required (tableMissing state directory) tableSpan 1024 start.toNat size.toNat).card +
      (required (pageMissing state directory) 4096 (2 ^ 20) start.toNat size.toNat).card)

/-- The units that the loop looks at. -/
def Visited (unit start bound index : Nat) : Prop :=
  start / unit ≤ index ∧ index * unit < bound

/-- One loop looks everything up, and it misses no table or page of the range and counts
none outside. -/
structure LoopFits (missing : Nat → Except Stop Bool) (unit count start size : Nat) : Prop where
  looks : ∀ index, Visited unit start ((start + size) % 2 ^ 32) index →
    ∃ counted, missing (index * unit) = .ok counted
  same : ∀ index < count, isMissing missing (index * unit) = true →
    (Visited unit start ((start + size) % 2 ^ 32) index ↔
      Intersects unit start (min (start + size) (2 ^ 32)) index)

/-- The reduced end is at most the address of the last table. -/
structure RangeFits (state : State) (directory : Directory) (start size : BitVec 32) :
    Prop where
  ends : (start.toNat + size.toNat) % 2 ^ 32 ≤ 1023 * tableSpan
  tables : LoopFits (tableMissing state directory) tableSpan 1024 start.toNat size.toNat
  pages : LoopFits (pageMissing state directory) 4096 (2 ^ 20) start.toNat size.toNat

variable {missing : Nat → Except Stop Bool} {unit count start size index : Nat}

/-- Without a wrap the loop looks at least at the whole range. -/
theorem visited_of_intersects (short : start + size < 2 ^ 32)
    (intersects : Intersects unit start (min (start + size) (2 ^ 32)) index) :
    Visited unit start ((start + size) % 2 ^ 32) index := by
  unfold Intersects at intersects
  rw [Nat.mod_eq_of_lt short]
  have above : start < (index + 1) * unit := by omega
  refine ⟨?_, by omega⟩
  exact Nat.lt_succ_iff.mp (Nat.div_lt_of_lt_mul (by rwa [Nat.mul_comm]))

/-- After a wrap it looks at nothing outside the range. -/
theorem intersects_of_visited (space : unit * count = 2 ^ 32) (startBound : start < 2 ^ 32)
    (sizeBound : size < 2 ^ 32) (wraps : 2 ^ 32 ≤ start + size)
    (visited : Visited unit start ((start + size) % 2 ^ 32) index) :
    Intersects unit start (min (start + size) (2 ^ 32)) index := by
  have reduced : (start + size) % 2 ^ 32 < start := by omega
  have positive : 0 < unit := Nat.pos_of_ne_zero (by rintro rfl; omega)
  have above : start < (index + 1) * unit :=
    (Nat.div_lt_iff_lt_mul positive).mp (Nat.lt_succ_of_le visited.1)
  have below := visited.2
  unfold Intersects
  omega

/-- What the loop counts from the start of the range on. -/
abbrev counted (missing : Nat → Except Stop Bool) (unit count start size : Nat) : Finset Nat :=
  ahead missing unit count ((start + size) % 2 ^ 32) (start / unit)

theorem required_subset_counted (short : start + size < 2 ^ 32) :
    required missing unit count start size ⊆ counted missing unit count start size := by
  intro index member
  rcases Finset.mem_filter.mp member with ⟨inside, intersects, isMissing⟩
  have visited := visited_of_intersects short intersects
  exact Finset.mem_filter.mpr ⟨inside, visited.1, visited.2, isMissing⟩

theorem counted_subset_required (space : unit * count = 2 ^ 32) (startBound : start < 2 ^ 32)
    (sizeBound : size < 2 ^ 32) (wraps : 2 ^ 32 ≤ start + size) :
    counted missing unit count start size ⊆ required missing unit count start size := by
  intro index member
  rcases Finset.mem_filter.mp member with ⟨inside, first, below, isMissing⟩
  exact Finset.mem_filter.mpr ⟨inside,
    intersects_of_visited space startBound sizeBound wraps ⟨first, below⟩, isMissing⟩

/-- The loop counts the units of the range if and only if it errs on none that is missing. -/
theorem counted_eq_required_iff :
    counted missing unit count start size = required missing unit count start size ↔
      ∀ index < count, isMissing missing (index * unit) = true →
        (Visited unit start ((start + size) % 2 ^ 32) index ↔
          Intersects unit start (min (start + size) (2 ^ 32)) index) := by
  constructor
  · intro equal index inside isMissing
    have member := Finset.ext_iff.mp equal index
    simp only [counted, ahead, required, Finset.mem_filter, Finset.mem_range, inside, isMissing,
      and_true, true_and] at member
    exact member
  · intro same
    refine Finset.filter_congr fun index member => ?_
    have inside := Finset.mem_range.mp member
    constructor
    · rintro ⟨first, below, isMissing⟩
      exact ⟨(same index inside isMissing).mp ⟨first, below⟩, isMissing⟩
    · rintro ⟨intersects, isMissing⟩
      have visited := (same index inside isMissing).mpr intersects
      exact ⟨visited.1, visited.2, isMissing⟩

theorem roundedStart (start unit : Nat) : start - start % unit = start / unit * unit := by
  have parts := Nat.div_add_mod start unit
  rw [Nat.mul_comm]
  omega

/-- The two counts cannot make up for each other's errors. -/
theorem both_equal (startBound : start < 2 ^ 32) (sizeBound : size < 2 ^ 32)
    {tables pages : Nat → Except Stop Bool}
    (total : (counted tables tableSpan 1024 start size).card +
      (counted pages 4096 (2 ^ 20) start size).card =
        (required tables tableSpan 1024 start size).card +
          (required pages 4096 (2 ^ 20) start size).card) :
    counted tables tableSpan 1024 start size = required tables tableSpan 1024 start size ∧
      counted pages 4096 (2 ^ 20) start size = required pages 4096 (2 ^ 20) start size := by
  rcases Nat.lt_or_ge (start + size) (2 ^ 32) with short | wraps
  · have inTables : required tables tableSpan 1024 start size ⊆
        counted tables tableSpan 1024 start size := required_subset_counted short
    have inPages : required pages 4096 (2 ^ 20) start size ⊆
        counted pages 4096 (2 ^ 20) start size := required_subset_counted short
    have tableCards := Finset.card_le_card inTables
    have pageCards := Finset.card_le_card inPages
    exact ⟨(Finset.eq_of_subset_of_card_le inTables (by omega)).symm,
      (Finset.eq_of_subset_of_card_le inPages (by omega)).symm⟩
  · have inTables : counted tables tableSpan 1024 start size ⊆
        required tables tableSpan 1024 start size :=
      counted_subset_required (by decide) startBound sizeBound wraps
    have inPages : counted pages 4096 (2 ^ 20) start size ⊆
        required pages 4096 (2 ^ 20) start size :=
      counted_subset_required (by decide) startBound sizeBound wraps
    have tableCards := Finset.card_le_card inTables
    have pageCards := Finset.card_le_card inPages
    exact ⟨Finset.eq_of_subset_of_card_le inTables (by omega),
      Finset.eq_of_subset_of_card_le inPages (by omega)⟩

theorem tableSpan_space : tableSpan * 1024 = 2 ^ 32 := rfl

theorem pages_space : 4096 * 2 ^ 20 = 2 ^ 32 := rfl

theorem not_counts_of_late {start size : BitVec 32}
    (late : 1023 * tableSpan < (start.toNat + size.toNat) % 2 ^ 32) :
    ¬CountsRange state directory start size := by
  rintro ⟨fuel, returned⟩
  have startBound := start.isLt
  have space := tableSpan_space
  have inside : start.toNat / tableSpan < 1024 := Nat.div_lt_of_lt_mul (by omega)
  rcases Except.bind_ok.mp returned with ⟨number, tables, -⟩
  rw [roundedStart] at tables
  exact countMissing_endless space (by omega) inside tables

end Requirement

end FosKernel.RequiredFrames
