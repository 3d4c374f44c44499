import Mathlib.Data.Finset.Card

/-! # Reference holders

Cells refer to keys; the holders of a key are the cells that refer to it. The rules
say how the holders change when one cell begins or ceases to refer to a key, which
is what a reference count has to follow.
-/

namespace FosKernel

/-- `holders key` are exactly the cells whose target is `key`. -/
def Holds (target : σ → Option κ) (holders : κ → Finset σ) : Prop :=
  ∀ key cell, cell ∈ holders key ↔ target cell = some key

namespace Holds

variable {target : σ → Option κ} {holders : κ → Finset σ} {cell : σ} {key : κ}

theorem congr (holds : Holds target holders) {after : σ → Option κ}
    (equal : ∀ cell, after cell = target cell) : Holds after holders := by
  intro key cell
  rw [equal cell]
  exact holds key cell

theorem unique (holds : Holds target holders) {other : κ}
    (member : cell ∈ holders key) (otherMember : cell ∈ holders other) :
    key = other := by
  have atKey := (holds key cell).mp member
  have atOther := (holds other cell).mp otherMember
  exact Option.some.inj (atKey.symm.trans atOther)

variable [DecidableEq σ]

/-- A cell without a target begins to refer to `key`. -/
theorem attach [DecidableEq κ] (holds : Holds target holders) (idle : target cell = none)
    {after : σ → Option κ} (own : after cell = some key)
    (others : ∀ other, other ≠ cell → after other = target other) :
    Holds after (Function.update holders key (insert cell (holders key))) := by
  intro someKey other
  by_cases same : other = cell
  · subst same
    have absent : other ∉ holders someKey := by
      intro member
      have := (holds someKey other).mp member
      simp [idle] at this
    by_cases sameKey : someKey = key
    · subst sameKey
      simp [own]
    · simp only [Function.update_of_ne sameKey, own, Option.some.injEq]
      exact ⟨fun member => absurd member absent, fun equal => absurd equal.symm sameKey⟩
  · rw [others other same, ← holds someKey other]
    by_cases sameKey : someKey = key
    · subst sameKey
      simp [same]
    · rw [Function.update_of_ne sameKey]

/-- A cell ceases to refer to its target. -/
theorem detach (holds : Holds target holders)
    {after : σ → Option κ} (own : after cell = none)
    (others : ∀ other, other ≠ cell → after other = target other) :
    Holds after fun key => (holders key).erase cell := by
  intro key other
  by_cases same : other = cell
  · subst same
    simp [own]
  · rw [others other same, ← holds key other]
    simp [same]

theorem card_attach (holds : Holds target holders) (idle : target cell = none) :
    (insert cell (holders key)).card = (holders key).card + 1 := by
  apply Finset.card_insert_of_notMem
  intro member
  have := (holds key cell).mp member
  simp [idle] at this

end Holds

end FosKernel
