/-! # Invariants of state transformers

An action keeps an invariant when it holds after every returning call from a state in
which it holds. The rules follow the structure of a program.
-/

namespace FosKernel

def Preserves (invariant : σ → Prop) (action : StateT σ (Except ε) α) : Prop :=
  ∀ state result final, invariant state → action state = .ok (result, final) →
    invariant final

namespace Preserves

variable {invariant : σ → Prop}

theorem bind {first : StateT σ (Except ε) α} {rest : α → StateT σ (Except ε) β}
    (head : Preserves invariant first) (tail : ∀ value, Preserves invariant (rest value)) :
    Preserves invariant (first >>= rest) := by
  intro state result final holds returned
  change (first state >>= fun pair => rest pair.1 pair.2) = _ at returned
  cases begun : first state with
  | error stop => simp [begun, Bind.bind, Except.bind] at returned
  | ok pair =>
      rw [begun] at returned
      exact tail pair.1 pair.2 result final (head state pair.1 pair.2 holds begun) returned

theorem pure (value : α) : Preserves invariant (pure value : StateT σ (Except ε) α) := by
  intro state result final holds returned
  cases returned
  exact holds

theorem throw (stop : ε) : Preserves invariant (throw stop : StateT σ (Except ε) α) := by
  intro state result final holds returned
  cases returned

theorem get : Preserves invariant (get : StateT σ (Except ε) σ) := by
  intro state result final holds returned
  cases returned
  exact holds

theorem modify {change : σ → σ} (kept : ∀ state, invariant state → invariant (change state)) :
    Preserves invariant (modify change : StateT σ (Except ε) PUnit) := by
  intro state result final holds returned
  cases returned
  exact kept state holds

theorem ite {condition : Prop} [Decidable condition] {yes no : StateT σ (Except ε) α}
    (whenTrue : Preserves invariant yes) (whenFalse : Preserves invariant no) :
    Preserves invariant (if condition then yes else no) := by
  split
  · exact whenTrue
  · exact whenFalse

/-- Reading is no change. -/
theorem readOnly {action : StateT σ (Except ε) α}
    (same : ∀ state result final, action state = .ok (result, final) → final = state) :
    Preserves invariant action := by
  intro state result final holds returned
  rw [same state result final returned]
  exact holds

end Preserves

end FosKernel
