import FosKernel.Foundation.Cycle
import Mathlib.Logic.Function.Basic

/-! # Ring buffers

A ring of `size` cells with a position to read at and a position to write at. There is no
count: equal positions mean that nothing is pending, so that a ring with `size - 1` pending
elements is empty after one more is put.
-/

namespace FosKernel

structure RingBuffer (α : Type) (size : Nat) where
  cells : Nat → α
  rpos : Nat
  wpos : Nat
  rpos_lt : rpos < size
  wpos_lt : wpos < size

namespace RingBuffer

variable {α : Type} {size : Nat}

/-- The position after another one. -/
def next (size position : Nat) : Nat := if position + 1 = size then 0 else position + 1

theorem next_lt {position : Nat} (inside : position < size) : next size position < size := by
  unfold next
  split <;> omega

def put (ring : RingBuffer α size) (value : α) : RingBuffer α size where
  cells := Function.update ring.cells ring.wpos value
  rpos := ring.rpos
  wpos := next size ring.wpos
  rpos_lt := ring.rpos_lt
  wpos_lt := next_lt ring.wpos_lt

def take (ring : RingBuffer α size) : Option (α × RingBuffer α size) :=
  if ring.rpos = ring.wpos then none
  else some (ring.cells ring.rpos,
    { ring with rpos := next size ring.rpos, rpos_lt := next_lt ring.rpos_lt })

/-- The number of pending elements. -/
def length (ring : RingBuffer α size) : Nat :=
  if ring.rpos ≤ ring.wpos then ring.wpos - ring.rpos else size - ring.rpos + ring.wpos

/-- The elements from the position to read at to the one to write at. -/
def pending (ring : RingBuffer α size) : List α :=
  (List.range ring.length).map fun step => ring.cells (ahead size ring.rpos step)

/-! ## The positions -/

theorem length_lt (ring : RingBuffer α size) : ring.length < size := by
  have rpos := ring.rpos_lt
  have wpos := ring.wpos_lt
  unfold length
  split <;> omega

@[simp] theorem pending_length (ring : RingBuffer α size) : ring.pending.length = ring.length := by
  simp [pending]

theorem next_eq_ahead {position : Nat} (inside : position < size) :
    next size position = ahead size position 1 := by
  unfold next ahead
  by_cases last : position + 1 = size
  · rw [if_pos last, last, Nat.mod_self]
  · rw [if_neg last, Nat.mod_eq_of_lt (by omega)]

theorem ahead_length (ring : RingBuffer α size) : ahead size ring.rpos ring.length = ring.wpos := by
  have rpos := ring.rpos_lt
  have wpos := ring.wpos_lt
  unfold ahead length
  split
  · rw [Nat.add_sub_of_le (by assumption), Nat.mod_eq_of_lt wpos]
  · rw [show ring.rpos + (size - ring.rpos + ring.wpos) = ring.wpos + size by omega,
      Nat.add_mod_right, Nat.mod_eq_of_lt wpos]

theorem length_put (ring : RingBuffer α size) (value : α) :
    (ring.put value).length = if ring.length + 1 = size then 0 else ring.length + 1 := by
  have rpos := ring.rpos_lt
  have wpos := ring.wpos_lt
  simp only [length, put, next]
  split_ifs <;> omega

/-! ## The pending elements -/

/-- A put into a ring with room appends. -/
theorem pending_put {ring : RingBuffer α size} (room : ring.length + 1 < size) (value : α) :
    (ring.put value).pending = ring.pending ++ [value] := by
  have grown : (ring.put value).length = ring.length + 1 := by
    rw [length_put, if_neg (by omega)]
  have written : (ring.put value).cells (ahead size ring.rpos ring.length) = value := by
    rw [ahead_length]
    exact Function.update_self _ _ _
  have kept : ∀ step ∈ List.range ring.length,
      (ring.put value).cells (ahead size ring.rpos step) =
        ring.cells (ahead size ring.rpos step) := by
    intro step member
    have before := List.mem_range.mp member
    refine Function.update_of_ne (fun same => ?_) _ _
    rw [← ahead_length] at same
    have := ahead_injective (by omega) (by omega) same
    omega
  unfold pending
  rw [grown, List.range_succ, List.map_append, List.map_singleton]
  rw [show (ring.put value).rpos = ring.rpos from rfl, written, List.map_congr_left kept]

/-- A put into a full ring drops all that is pending, and what is put. -/
theorem pending_put_full {ring : RingBuffer α size} (full : ring.length + 1 = size) (value : α) :
    (ring.put value).pending = [] := by
  have emptied : (ring.put value).length = 0 := by
    rw [length_put, if_pos full]
  simp [pending, emptied]

theorem length_eq_zero {ring : RingBuffer α size} : ring.length = 0 ↔ ring.rpos = ring.wpos := by
  have rpos := ring.rpos_lt
  have wpos := ring.wpos_lt
  unfold length
  split <;> omega

theorem take_eq_none {ring : RingBuffer α size} : ring.take = none ↔ ring.pending = [] := by
  rw [← List.length_eq_zero_iff, pending_length, length_eq_zero, take]
  split <;> simp_all

/-- A take removes the first pending element. -/
theorem pending_take {ring rest : RingBuffer α size} {value : α}
    (taken : ring.take = some (value, rest)) : ring.pending = value :: rest.pending := by
  have rpos := ring.rpos_lt
  have wpos := ring.wpos_lt
  unfold take at taken
  split at taken
  · cases taken
  next different =>
    cases taken
    set rest : RingBuffer α size :=
      { ring with rpos := next size ring.rpos, rpos_lt := next_lt ring.rpos_lt } with restEqual
    have shrunk : ring.length = rest.length + 1 := by
      simp only [restEqual, length, next]
      split_ifs <;> omega
    have moved : ∀ step, ahead size ring.rpos (step + 1) = ahead size rest.rpos step := by
      intro step
      rw [show rest.rpos = ahead size ring.rpos 1 from next_eq_ahead rpos]
      simp only [ahead, Nat.mod_add_mod]
      congr 1
      omega
    unfold pending
    rw [shrunk, List.range_succ_eq_map, List.map_cons, ahead_zero rpos, List.map_map]
    simp only [Function.comp_def, Nat.succ_eq_add_one, moved]
    rfl

theorem mem_pending_put {ring : RingBuffer α size} {value other : α}
    (member : other ∈ (ring.put value).pending) : other ∈ ring.pending ∨ other = value := by
  have bound := ring.length_lt
  by_cases full : ring.length + 1 = size
  · rw [pending_put_full full] at member
    cases member
  · rw [pending_put (by omega)] at member
    simpa using member

/-! ## Runs -/

/-- What is left of a sequence after `count` times `size` consecutive elements were dropped. -/
inductive Kept (size : Nat) : Nat → List α → List α → Prop
  | nil : Kept size 0 [] []
  | keep {count offered kept} (value : α) : Kept size count offered kept →
      Kept size count (offered ++ [value]) (kept ++ [value])
  | drop {count offered kept} (block : List α) : block.length = size →
      Kept size count offered kept → Kept size (count + 1) (offered ++ block) kept

/-- The elements that were offered to a ring and those that it served, in their order, and how
often it overflowed. -/
inductive Traffic : List α → List α → Nat → RingBuffer α size → Prop
  | idle {ring} : ring.pending = [] → Traffic [] [] 0 ring
  | put {offered served overflows ring} (value : α) : Traffic offered served overflows ring →
      Traffic (offered ++ [value]) served
        (if ring.length + 1 = size then overflows + 1 else overflows) (ring.put value)
  | take {offered served overflows ring rest} {value : α} :
      Traffic offered served overflows ring → ring.take = some (value, rest) →
      Traffic offered (served ++ [value]) overflows rest

theorem Kept.length {count : Nat} {offered kept : List α}
    (relation : Kept size count offered kept) :
    offered.length = kept.length + size * count := by
  induction relation with
  | nil => rfl
  | keep value _ induction =>
      simp only [List.length_append, List.length_singleton, induction]
      omega
  | drop block length _ induction =>
      rw [List.length_append, induction, length, Nat.mul_succ]
      omega

theorem Kept.sublist {count : Nat} {offered kept : List α}
    (relation : Kept size count offered kept) : kept.Sublist offered := by
  induction relation with
  | nil => exact List.Sublist.slnil
  | keep value _ induction => exact induction.append (List.Sublist.refl _)
  | drop block _ _ induction => exact induction.trans (List.sublist_append_left _ _)

theorem Kept.eq_of_zero {offered kept : List α} (relation : Kept size 0 offered kept) :
    offered = kept := by
  refine (relation.sublist.eq_of_length ?_).symm
  have := relation.length
  omega

/-- A ring serves what it was offered in order, but for blocks of `size` consecutive elements,
one for each overflow; what is pending is the end of what it was offered. -/
theorem Traffic.kept {offered served : List α} {overflows : Nat} {ring : RingBuffer α size}
    (traffic : Traffic offered served overflows ring) :
    ∃ front, offered = front ++ ring.pending ∧ Kept size overflows front served := by
  induction traffic with
  | idle empty => exact ⟨[], by rw [empty]; rfl, .nil⟩
  | @put offered served overflows ring value _ induction =>
      rcases induction with ⟨front, split, kept⟩
      have bound := ring.length_lt
      by_cases full : ring.length + 1 = size
      · refine ⟨front ++ (ring.pending ++ [value]), ?_, ?_⟩
        · rw [pending_put_full full, split]
          simp
        · rw [if_pos full]
          exact .drop _ (by simpa using full) kept
      · refine ⟨front, ?_, ?_⟩
        · rw [pending_put (by omega), split, List.append_assoc]
        · rwa [if_neg full]
  | @take offered served overflows ring rest value _ taken induction =>
      rcases induction with ⟨front, split, kept⟩
      refine ⟨front ++ [value], ?_, .keep value kept⟩
      rw [split, pending_take taken]
      simp

theorem Traffic.length {offered served : List α} {overflows : Nat} {ring : RingBuffer α size}
    (traffic : Traffic offered served overflows ring) :
    offered.length = served.length + ring.length + size * overflows := by
  rcases traffic.kept with ⟨front, split, kept⟩
  rw [split, List.length_append, kept.length, pending_length]
  omega

/-- Nothing was lost exactly when the ring never overflowed. -/
theorem Traffic.eq_iff {offered served : List α} {overflows : Nat} {ring : RingBuffer α size}
    (traffic : Traffic offered served overflows ring) :
    offered = served ++ ring.pending ↔ overflows = 0 := by
  have positive : 0 < size := Nat.zero_lt_of_lt ring.rpos_lt
  constructor
  · intro equal
    have lengths := traffic.length
    rw [equal, List.length_append, pending_length] at lengths
    have : size * overflows = 0 := by omega
    rcases Nat.mul_eq_zero.mp this with zero | zero <;> omega
  · rintro rfl
    rcases traffic.kept with ⟨front, split, kept⟩
    rw [split, kept.eq_of_zero]

/-! ## Rounds -/

/-- Elements that are put one after the other, and whether one is taken then. -/
structure Round (α : Type) where
  offered : List α
  takes : Bool

def putAll (ring : RingBuffer α size) (values : List α) : RingBuffer α size := values.foldl put ring

@[simp] theorem putAll_append (ring : RingBuffer α size) (first second : List α) :
    ring.putAll (first ++ second) = (ring.putAll first).putAll second := List.foldl_append

theorem mem_pending_putAll {ring : RingBuffer α size} {values : List α} {other : α}
    (member : other ∈ (ring.putAll values).pending) : other ∈ ring.pending ∨ other ∈ values := by
  induction values generalizing ring with
  | nil => exact .inl member
  | cons value values induction =>
      rcases induction member with first | rest
      · rcases mem_pending_put first with before | same
        · exact .inl before
        · exact .inr (by simp [same])
      · exact .inr (List.mem_cons_of_mem _ rest)

theorem length_putAll {ring : RingBuffer α size} {values : List α}
    (room : ring.length + values.length < size) :
    (ring.putAll values).length = ring.length + values.length := by
  induction values generalizing ring with
  | nil => rfl
  | cons value values induction =>
      rw [List.length_cons] at room ⊢
      have grown : (ring.put value).length = ring.length + 1 := by
        rw [length_put, if_neg (by omega)]
      have rest : (ring.put value).length + values.length < size →
          ((ring.put value).putAll values).length = (ring.put value).length + values.length :=
        fun room => induction room
      rw [grown] at rest
      exact (rest (by omega)).trans (by omega)

/-- What a round takes, and the ring after it. -/
def serve (ring : RingBuffer α size) (round : Round α) : List α × RingBuffer α size :=
  let ring := ring.putAll round.offered
  if round.takes then
    match ring.take with
    | some (value, rest) => ([value], rest)
    | none => ([], ring)
  else ([], ring)

def serveAll (ring : RingBuffer α size) : List (Round α) → List α × RingBuffer α size
  | [] => ([], ring)
  | round :: rounds =>
      let (first, ring) := ring.serve round
      let (rest, ring) := ring.serveAll rounds
      (first ++ rest, ring)

def offeredBy (rounds : List (Round α)) : List α := rounds.flatMap Round.offered

/-- In no round the elements that were offered and not taken fill the ring. -/
def Keeps (ring : RingBuffer α size) (rounds : List (Round α)) : Prop :=
  ∀ count < rounds.length, ring.length + (offeredBy (rounds.take (count + 1))).length <
    (ring.serveAll (rounds.take count)).1.length + size

theorem Traffic.putAll {offered served : List α} {overflows : Nat} {ring : RingBuffer α size}
    (traffic : Traffic offered served overflows ring) (values : List α) :
    ∃ after, Traffic (offered ++ values) served after (ring.putAll values) ∧
      overflows ≤ after ∧ (after = overflows ↔ ring.length + values.length < size) := by
  have bound := ring.length_lt
  induction values generalizing offered overflows ring with
  | nil =>
      refine ⟨overflows, ?_, le_refl _, by simpa using bound⟩
      rwa [List.append_nil]
  | cons value values induction =>
      rcases induction (traffic.put value) (ring.put value).length_lt with
        ⟨after, rest, above, same⟩
      rw [List.append_assoc] at rest
      refine ⟨after, rest, ?_, ?_⟩
      · split_ifs at above <;> omega
      · rw [length_put] at same
        simp only [List.length_cons]
        split_ifs at above same <;> omega

theorem Traffic.serve {offered served : List α} {overflows : Nat} {ring : RingBuffer α size}
    (traffic : Traffic offered served overflows ring) (round : Round α) :
    ∃ after, Traffic (offered ++ round.offered) (served ++ (ring.serve round).1) after
        (ring.serve round).2 ∧
      overflows ≤ after ∧ (after = overflows ↔ ring.length + round.offered.length < size) := by
  rcases traffic.putAll round.offered with ⟨after, put, above, same⟩
  refine ⟨after, ?_, above, same⟩
  unfold RingBuffer.serve
  by_cases takes : round.takes
  · cases taken : (ring.putAll round.offered).take with
    | none => simpa [takes, taken] using put
    | some found =>
        rcases found with ⟨value, rest⟩
        simpa [takes, taken] using put.take taken
  · simpa [takes] using put

/-- A run of rounds overflows exactly when some round fills the ring. -/
theorem Traffic.serveAll {offered served : List α} {overflows : Nat} {ring : RingBuffer α size}
    (traffic : Traffic offered served overflows ring) (rounds : List (Round α)) :
    ∃ after, Traffic (offered ++ offeredBy rounds) (served ++ (ring.serveAll rounds).1) after
        (ring.serveAll rounds).2 ∧
      overflows ≤ after ∧ (after = overflows ↔ ring.Keeps rounds) := by
  induction rounds generalizing offered served overflows ring with
  | nil =>
      refine ⟨overflows, by simpa [offeredBy, RingBuffer.serveAll] using traffic, le_refl _, ?_⟩
      simp [Keeps]
  | cons round rounds induction =>
      rcases traffic.serve round with ⟨middle, first, above, firstSame⟩
      rcases induction first with ⟨after, rest, restAbove, restSame⟩
      refine ⟨after, by simpa [offeredBy, RingBuffer.serveAll] using rest, by omega, ?_⟩
      have before := traffic.length
      have between := first.length
      simp only [List.length_append] at between
      constructor
      · rintro same (_ | count) inside
        · simpa [offeredBy, RingBuffer.serveAll] using firstSame.mp (by omega)
        · have := restSame.mp (by omega) count (Nat.lt_of_succ_lt_succ inside)
          simp only [offeredBy, List.take_succ_cons, List.flatMap_cons, List.length_append,
            RingBuffer.serveAll] at this ⊢
          obtain rfl : middle = overflows := by omega
          omega
      · intro keeps
        have same := firstSame.mpr
          (by simpa [offeredBy, RingBuffer.serveAll] using keeps 0 (Nat.succ_pos _))
        subst same
        refine restSame.mpr fun count inside => ?_
        have := keeps (count + 1) (Nat.succ_lt_succ inside)
        simp only [offeredBy, List.take_succ_cons, List.flatMap_cons, List.length_append,
          RingBuffer.serveAll] at this ⊢
        omega

theorem mem_pending_serve {ring : RingBuffer α size} {round : Round α} {other : α}
    (member : other ∈ (ring.serve round).2.pending) :
    other ∈ ring.pending ∨ other ∈ round.offered := by
  refine mem_pending_putAll ?_
  by_cases takes : round.takes
  · cases taken : (ring.putAll round.offered).take with
    | none => simpa [serve, takes, taken] using member
    | some found =>
        rcases found with ⟨value, rest⟩
        rw [pending_take taken]
        exact List.mem_cons_of_mem _ (by simpa [serve, takes, taken] using member)
  · simpa [serve, takes] using member

theorem length_take {ring rest : RingBuffer α size} {value : α}
    (taken : ring.take = some (value, rest)) : ring.length = rest.length + 1 := by
  rw [← pending_length, pending_take taken, List.length_cons, pending_length]

/-- A round that leaves room takes one of the elements, if there is any. -/
theorem length_serve {ring : RingBuffer α size} {round : Round α}
    (room : ring.length + round.offered.length < size) :
    (ring.serve round).1.length + (ring.serve round).2.length =
        ring.length + round.offered.length ∧
      (ring.serve round).1.length =
        if round.takes = true ∧ 0 < ring.length + round.offered.length then 1 else 0 := by
  have put := length_putAll room
  by_cases takes : round.takes
  · cases taken : (ring.putAll round.offered).take with
    | none =>
        have empty := take_eq_none.mp taken
        rw [← List.length_eq_zero_iff, pending_length, put] at empty
        simp [serve, takes, taken, put, empty]
    | some found =>
        rcases found with ⟨value, rest⟩
        have := length_take taken
        have positive : 0 < ring.length + round.offered.length := by omega
        simp only [serve, takes, taken, if_true, List.length_singleton, positive, and_self]
        exact ⟨by omega, trivial⟩
  · simp [serve, takes, put]

/-- What an empty ring serves in a run of rounds. -/
theorem serveAll_kept {ring : RingBuffer α size} (idle : ring.pending = [])
    (rounds : List (Round α)) :
    ∃ overflows front, offeredBy rounds = front ++ (ring.serveAll rounds).2.pending ∧
      Kept size overflows front (ring.serveAll rounds).1 := by
  rcases (Traffic.idle idle).serveAll rounds with ⟨overflows, traffic, -, -⟩
  exact ⟨overflows, by simpa using traffic.kept⟩

/-- Nothing is lost exactly when no round fills the ring. -/
theorem serveAll_eq_iff {ring : RingBuffer α size} (idle : ring.pending = [])
    (rounds : List (Round α)) :
    offeredBy rounds = (ring.serveAll rounds).1 ++ (ring.serveAll rounds).2.pending ↔
      ring.Keeps rounds := by
  rcases (Traffic.idle idle).serveAll rounds with ⟨overflows, traffic, -, keeps⟩
  rw [← keeps, ← traffic.eq_iff]
  rfl

end RingBuffer

end FosKernel
