import Mathlib.Logic.Function.Basic

/-! # Journals of a store

A store keeps at most one value under each key. A journal lists what was done to it, the
newest event first, and determines the values from those at its beginning.
-/

namespace FosKernel.Journal

inductive Event (κ ν : Type)
  | added (key : κ) (value : ν)
  | updated (key : κ) (value : ν)
  | removed (key : κ)

def Event.key : Event κ ν → κ
  | .added key _ => key
  | .updated key _ => key
  | .removed key => key

variable [DecidableEq κ] {begin : κ → Option ν} {journal : List (Event κ ν)} {key : κ}

/-- The value that was stored last. -/
def last (begin : κ → Option ν) : List (Event κ ν) → κ → Option ν
  | [] => begin
  | .added key value :: earlier => Function.update (last begin earlier) key (some value)
  | .updated key value :: earlier => Function.update (last begin earlier) key (some value)
  | .removed key :: earlier => Function.update (last begin earlier) key none

/-- The key was added after it was last removed. -/
def Present (begin : κ → Option ν) (key : κ) : List (Event κ ν) → Prop
  | [] => begin key ≠ none
  | .added other _ :: earlier => other = key ∨ Present begin key earlier
  | .updated _ _ :: earlier => Present begin key earlier
  | .removed other :: earlier => other ≠ key ∧ Present begin key earlier

/-- Updates are of present keys only. -/
def Sound (begin : κ → Option ν) : List (Event κ ν) → Prop
  | [] => True
  | .added _ _ :: earlier => Sound begin earlier
  | .updated key _ :: earlier => last begin earlier key ≠ none ∧ Sound begin earlier
  | .removed _ :: earlier => Sound begin earlier

/-- An event concerns no other key. -/
theorem last_other {event : Event κ ν} (other : event.key ≠ key) :
    last begin (event :: journal) key = last begin journal key := by
  cases event with
  | added some value => exact Function.update_of_ne (Ne.symm other) _ _
  | updated some value => exact Function.update_of_ne (Ne.symm other) _ _
  | removed some => exact Function.update_of_ne (Ne.symm other) _ _

theorem present_iff (sound : Sound begin journal) :
    Present begin key journal ↔ last begin journal key ≠ none := by
  induction journal with
  | nil => exact Iff.rfl
  | cons event earlier induction =>
      by_cases other : event.key ≠ key
      · rw [last_other other]
        cases event with
        | added some value => exact (or_iff_right other).trans (induction sound)
        | updated some value => exact induction sound.2
        | removed some => exact (and_iff_right other).trans (induction sound)
      · replace other := not_not.mp other
        subst other
        cases event with
        | added key value => simp [Present, last, Event.key]
        | updated key value =>
            have before := (induction sound.2).mpr sound.1
            simpa [Present, last, Event.key] using before
        | removed key => simp [Present, last, Event.key]

/-! ## One journal after the other -/

variable {earlier later : List (Event κ ν)}

theorem last_append : last begin (later ++ earlier) = last (last begin earlier) later := by
  induction later with
  | nil => rfl
  | cons event later induction =>
      rw [List.cons_append]
      cases event with
      | added key value => rw [last, last, induction]
      | updated key value => rw [last, last, induction]
      | removed key => rw [last, last, induction]

theorem Sound.append (second : Sound (last begin earlier) later) (first : Sound begin earlier) :
    Sound begin (later ++ earlier) := by
  induction later with
  | nil => exact first
  | cons event later induction =>
      cases event with
      | added key value => exact induction second
      | updated key value =>
          have before : last begin (later ++ earlier) key ≠ none := by
            rw [last_append]
            exact second.1
          exact ⟨before, induction second.2⟩
      | removed key => exact induction second

/-- Events that concern other keys. -/
theorem last_others (others : ∀ event ∈ later, event.key ≠ key) :
    last begin (later ++ earlier) key = last begin earlier key := by
  induction later with
  | nil => rfl
  | cons event later induction =>
      rw [List.cons_append, last_other (others event List.mem_cons_self)]
      exact induction fun event member => others event (List.mem_cons_of_mem _ member)

end FosKernel.Journal
