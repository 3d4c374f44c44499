import Mathlib.Data.Nat.Bitwise
import Mathlib.Data.Nat.Find
import Mathlib.Order.Basic

/-! # Reference histories

Time is divided into intervals. What is known of a page is in which of them it was used, the
newest first. A stamp is the start of this history, two bits an interval with the newest on
top, so that the order of the stamps is the order in which the pages were last needed.
-/

namespace FosKernel.ReferenceHistory

/-- The use of a page in the current interval and in the intervals before. -/
structure Track where
  used : Bool
  past : List Bool

/-- The current interval ends. -/
def Track.close (track : Track) : Track := ⟨false, track.used :: track.past⟩

def Track.use (track : Track) : Track := { track with used := true }

/-- A page is used, or the interval of an owner of pages ends. -/
inductive Event (π ω : Type)
  | use (page : π)
  | close (owner : ω)

section Tracks

variable {π ω : Type} [DecidableEq π] [DecidableEq ω]

def Track.note (owner : π → ω) (page : π) (track : Track) : Event π ω → Track
  | .use other => if other = page then track.use else track
  | .close who => if who = owner page then track.close else track

def Track.after (owner : π → ω) (page : π) (track : Track) (events : List (Event π ω)) : Track :=
  events.foldl (Track.note owner page) track

theorem Track.after_append (owner : π → ω) (page : π) (track : Track)
    (first second : List (Event π ω)) : track.after owner page (first ++ second) =
      (track.after owner page first).after owner page second :=
  List.foldl_append

end Tracks

/-- An older interval counts a quarter. -/
def age (stamp : Nat) (used : Bool) : Nat :=
  stamp >>> 2 ||| if used then 2 ^ 31 else 0

def stamp : List Bool → Nat
  | [] => 0
  | used :: past => age (stamp past) used

/-- Whether the page was used in the interval that is so many intervals old. -/
def usedIn (past : List Bool) (interval : Nat) : Bool := past.getD interval false

variable {past other : List Bool} {interval bit : Nat}

theorem testBit_age (stamp : Nat) (used : Bool) (bit : Nat) :
    (age stamp used).testBit bit = (stamp.testBit (bit + 2) || (used && decide (bit = 31))) := by
  rw [age, Nat.testBit_or, Nat.testBit_shiftRight, Nat.add_comm 2 bit]
  congr 1
  cases used with
  | false => simp
  | true =>
      rw [if_pos rfl, Nat.testBit_two_pow, Bool.true_and, decide_eq_decide]
      exact eq_comm

/-- The odd bits of a stamp are the newest intervals. -/
theorem testBit_stamp (past : List Bool) (bit : Nat) :
    (stamp past).testBit bit =
      (decide (bit % 2 = 1 ∧ bit < 32) && usedIn past ((31 - bit) / 2)) := by
  induction past generalizing bit with
  | nil => simp [stamp, usedIn]
  | cons used past induction =>
      rw [stamp, testBit_age, induction]
      by_cases top : bit = 31
      · subst top
        simp [usedIn]
      by_cases inside : bit % 2 = 1 ∧ bit < 32
      · have next : (31 - bit) / 2 = (31 - (bit + 2)) / 2 + 1 := by omega
        have still : (bit + 2) % 2 = 1 ∧ bit + 2 < 32 := by omega
        rw [next, usedIn, usedIn, List.getD_cons_succ]
        simp [top, inside, still]
      · have outside : ¬((bit + 2) % 2 = 1 ∧ bit + 2 < 32) := by omega
        rw [decide_eq_false inside, decide_eq_false outside, decide_eq_false top]
        simp

theorem stamp_lt (past : List Bool) : stamp past < 2 ^ 32 := by
  apply Nat.lt_pow_two_of_testBit
  intro bit above
  rw [testBit_stamp]
  have outside : ¬(bit % 2 = 1 ∧ bit < 32) := by omega
  simp [outside]

/-- The second page was needed more recently: from the newest interval back, it is the first one
that was used without the other. -/
def LessRecent (past other : List Bool) : Prop :=
  ∃ interval < 16, (∀ newer < interval, usedIn past newer = usedIn other newer) ∧
    usedIn past interval = false ∧ usedIn other interval = true

theorem LessRecent.stamp_lt (less : LessRecent past other) : stamp past < stamp other := by
  rcases less with ⟨interval, bound, newer, unused, used⟩
  have inside : (31 - 2 * interval) % 2 = 1 ∧ 31 - 2 * interval < 32 := by omega
  have here : (31 - (31 - 2 * interval)) / 2 = interval := by omega
  apply Nat.lt_of_testBit (31 - 2 * interval)
  · rw [testBit_stamp, here, unused, Bool.and_false]
  · rw [testBit_stamp, here, used, decide_eq_true inside]
    rfl
  · intro bit above
    rw [testBit_stamp, testBit_stamp]
    by_cases odd : bit % 2 = 1 ∧ bit < 32
    · rw [newer ((31 - bit) / 2) (by omega)]
    · simp [odd]

theorem stamp_congr (same : ∀ interval < 16, usedIn past interval = usedIn other interval) :
    stamp past = stamp other := by
  apply Nat.eq_of_testBit_eq
  intro bit
  rw [testBit_stamp, testBit_stamp, same ((31 - bit) / 2) (by omega)]

/-- Two pages differ in one of the newest intervals, or their stamps are equal. -/
theorem lessRecent_total (past other : List Bool) :
    LessRecent past other ∨ LessRecent other past ∨
      ∀ interval < 16, usedIn past interval = usedIn other interval := by
  by_cases differ : ∃ interval, interval < 16 ∧ usedIn past interval ≠ usedIn other interval
  · have first := Nat.find_spec differ
    have newer : ∀ interval < Nat.find differ,
        usedIn past interval = usedIn other interval := by
      intro interval before
      by_contra apart
      exact Nat.find_min differ before ⟨before.trans first.1, apart⟩
    cases here : usedIn past (Nat.find differ) with
    | false =>
        refine .inl ⟨_, first.1, newer, here, ?_⟩
        have apart := first.2
        rw [here] at apart
        exact Bool.eq_true_of_not_eq_false (Ne.symm apart)
    | true =>
        refine .inr (.inl ⟨_, first.1, fun interval before => (newer interval before).symm, ?_,
          here⟩)
        have apart := first.2
        rw [here] at apart
        exact Bool.eq_false_of_not_eq_true (Ne.symm apart)
  · refine .inr (.inr fun interval bound => ?_)
    by_contra apart
    exact differ ⟨interval, bound, apart⟩

/-- Stamps compare as the last sixteen intervals do. -/
theorem stamp_lt_iff : stamp past < stamp other ↔ LessRecent past other := by
  refine ⟨fun below => ?_, LessRecent.stamp_lt⟩
  rcases lessRecent_total past other with less | more | same
  · exact less
  · exact absurd more.stamp_lt (Nat.lt_asymm below)
  · exact absurd (stamp_congr same) (Nat.ne_of_lt below)

end FosKernel.ReferenceHistory
