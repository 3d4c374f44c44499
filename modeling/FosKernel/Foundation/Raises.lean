import FosKernel.Foundation.Ensures
import FosKernel.Foundation.Preserves

/-! # Exceptions of state transformers

`Raises allowed action` says which exceptions an action may end with, from any state. The
rules follow the structure of a program, like those for invariants.
-/

namespace FosKernel

/-- If the outcome is an exception, it is an allowed one. -/
def RaisesOnly (allowed : ε → Prop) (outcome : Except ε α) : Prop :=
  ∀ error, outcome = .error error → allowed error

namespace RaisesOnly

variable {allowed : ε → Prop}

theorem ok (value : α) : RaisesOnly allowed (.ok value : Except ε α) := by
  intro error raised
  cases raised

theorem pure (value : α) : RaisesOnly allowed (pure value : Except ε α) := ok value

theorem error {raised : ε} (holds : allowed raised) :
    RaisesOnly allowed (.error raised : Except ε α) := by
  intro error equal
  cases equal
  exact holds

theorem bind {first : Except ε α} {rest : α → Except ε β} (head : RaisesOnly allowed first)
    (tail : ∀ value, RaisesOnly allowed (rest value)) : RaisesOnly allowed (first >>= rest) := by
  intro error raised
  cases begun : first with
  | error stop =>
      rw [begun] at raised
      cases raised
      exact head error begun
  | ok value =>
      rw [begun] at raised
      exact tail value error raised

theorem ite {condition : Prop} [Decidable condition] {yes no : Except ε α}
    (whenTrue : RaisesOnly allowed yes) (whenFalse : RaisesOnly allowed no) :
    RaisesOnly allowed (if condition then yes else no) := by
  split
  · exact whenTrue
  · exact whenFalse

end RaisesOnly

def Raises (allowed : ε → Prop) (action : StateT σ (Except ε) α) : Prop :=
  ∀ state, RaisesOnly allowed (action state)

namespace Raises

variable {allowed : ε → Prop}

theorem bind {first : StateT σ (Except ε) α} {rest : α → StateT σ (Except ε) β}
    (head : Raises allowed first) (tail : ∀ value, Raises allowed (rest value)) :
    Raises allowed (first >>= rest) := by
  intro state
  exact RaisesOnly.bind (head state) fun pair => tail pair.1 pair.2

theorem pure (value : α) : Raises allowed (pure value : StateT σ (Except ε) α) :=
  fun state => .ok (value, state)

theorem throw {raised : ε} (holds : allowed raised) :
    Raises allowed (throw raised : StateT σ (Except ε) α) :=
  fun _ => .error holds

theorem get : Raises allowed (get : StateT σ (Except ε) σ) :=
  fun state => .ok (state, state)

theorem modify (change : σ → σ) :
    Raises allowed (modify change : StateT σ (Except ε) PUnit) :=
  fun state => .ok (PUnit.unit, change state)

theorem ite {condition : Prop} [Decidable condition] {yes no : StateT σ (Except ε) α}
    (whenTrue : Raises allowed yes) (whenFalse : Raises allowed no) :
    Raises allowed (if condition then yes else no) := by
  split
  · exact whenTrue
  · exact whenFalse

/-- What holds when the action returns, and what it may raise, say how it ends. -/
theorem ensures {action : StateT σ (Except ε) α} {state : σ} {returned : α → σ → Prop}
    (raises : Raises allowed action)
    (whenReturned : ∀ value final, action state = .ok (value, final) → returned value final) :
    Ensures action state returned allowed := by
  unfold Ensures
  split
  · exact whenReturned _ _ ‹_›
  · exact raises state _ ‹_›

end Raises

/-- What an action may raise from the states where an invariant holds. -/
def RaisesWithin (invariant : σ → Prop) (allowed : ε → Prop) (action : StateT σ (Except ε) α) :
    Prop :=
  ∀ state, invariant state → RaisesOnly allowed (action state)

namespace RaisesWithin

variable {invariant : σ → Prop} {allowed : ε → Prop}

theorem ofRaises {action : StateT σ (Except ε) α} (raises : Raises allowed action) :
    RaisesWithin invariant allowed action := fun state _ => raises state

theorem bind {first : StateT σ (Except ε) α} {rest : α → StateT σ (Except ε) β}
    (head : RaisesWithin invariant allowed first) (kept : Preserves invariant first)
    (tail : ∀ value, RaisesWithin invariant allowed (rest value)) :
    RaisesWithin invariant allowed (first >>= rest) := by
  intro state holds error raised
  change (first state >>= fun pair => rest pair.1 pair.2) = _ at raised
  cases begun : first state with
  | error stop =>
      rw [begun] at raised
      cases raised
      exact head state holds error begun
  | ok pair =>
      rw [begun] at raised
      exact tail pair.1 pair.2 (kept state pair.1 pair.2 holds begun) error raised

theorem ite {condition : Prop} [Decidable condition] {yes no : StateT σ (Except ε) α}
    (whenTrue : RaisesWithin invariant allowed yes)
    (whenFalse : RaisesWithin invariant allowed no) :
    RaisesWithin invariant allowed (if condition then yes else no) := by
  split
  · exact whenTrue
  · exact whenFalse

end RaisesWithin

end FosKernel
