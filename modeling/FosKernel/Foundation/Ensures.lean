/-! # Total correctness of state transformers

`Ensures program state returned raised` says how a program ends: by returning a value in
a state with `returned`, or by an exception with `raised`. The rules follow the structure
of a program.
-/

namespace FosKernel

def Ensures (program : StateT σ (Except ε) α) (state : σ) (returned : α → σ → Prop)
    (raised : ε → Prop) : Prop :=
  match program state with
  | .ok (value, final) => returned value final
  | .error error => raised error

namespace Ensures

variable {state : σ} {returned : α → σ → Prop} {raised : ε → Prop}

theorem pure {value : α} (holds : returned value state) :
    Ensures (Pure.pure value : StateT σ (Except ε) α) state returned raised := holds

theorem throw {error : ε} (holds : raised error) :
    Ensures (MonadExcept.throw error : StateT σ (Except ε) α) state returned raised := holds

theorem bind_modify {change : σ → σ} {rest : PUnit → StateT σ (Except ε) α}
    (tail : Ensures (rest ⟨⟩) (change state) returned raised) :
    Ensures (modify change >>= rest) state returned raised := tail

theorem get {returned : σ → σ → Prop} (holds : returned state state) :
    Ensures (MonadState.get : StateT σ (Except ε) σ) state returned raised := holds

theorem modify {change : σ → σ} {returned : PUnit → σ → Prop}
    (holds : returned ⟨⟩ (change state)) :
    Ensures (modify change : StateT σ (Except ε) PUnit) state returned raised := holds

theorem mono {program : StateT σ (Except ε) α} {weaker : α → σ → Prop} {weakerRaised : ε → Prop}
    (ensures : Ensures program state returned raised)
    (whenReturned : ∀ value final, returned value final → weaker value final)
    (whenRaised : ∀ error, raised error → weakerRaised error) :
    Ensures program state weaker weakerRaised := by
  unfold Ensures at *
  split
  · rename_i equal
    rw [equal] at ensures
    exact whenReturned _ _ ensures
  · rename_i equal
    rw [equal] at ensures
    exact whenRaised _ ensures

theorem bind {first : StateT σ (Except ε) α} {rest : α → StateT σ (Except ε) β}
    {middle : α → σ → Prop} {returned : β → σ → Prop}
    (head : Ensures first state middle raised)
    (tail : ∀ value final, middle value final → Ensures (rest value) final returned raised) :
    Ensures (first >>= rest) state returned raised := by
  unfold Ensures at *
  change match first state >>= fun pair => rest pair.1 pair.2 with
    | .ok (value, final) => returned value final
    | .error error => raised error
  cases begun : first state with
  | error error =>
      rw [begun] at head
      exact head
  | ok pair =>
      rw [begun] at head
      exact tail pair.1 pair.2 head

theorem bind_get {rest : σ → StateT σ (Except ε) α}
    (tail : Ensures (rest state) state returned raised) :
    Ensures (MonadState.get >>= rest) state returned raised := tail

theorem ite {condition : Prop} [Decidable condition] {yes no : StateT σ (Except ε) α}
    (whenTrue : condition → Ensures yes state returned raised)
    (whenFalse : ¬condition → Ensures no state returned raised) :
    Ensures (if condition then yes else no) state returned raised := by
  split
  · exact whenTrue ‹_›
  · exact whenFalse ‹_›

/-- A counted loop keeps an invariant on the number of rounds. -/
theorem counted {body : Nat → StateT σ (Except ε) PUnit} (invariant : Nat → σ → Prop)
    (count start : Nat) {state : σ} (holds : invariant start state)
    (step : ∀ index state, start ≤ index → index < start + count → invariant index state →
      Ensures (body index) state (fun _ => invariant (index + 1)) raised) :
    Ensures ((List.range' start count).forM body) state
      (fun _ => invariant (start + count)) raised := by
  induction count generalizing start state with
  | zero => exact .pure holds
  | succ count induction =>
      refine .bind (step start state (by omega) (by omega) holds) fun _ next kept => ?_
      have rest := induction (start + 1) kept fun index state lower upper =>
        step index state (by omega) (by omega)
      rwa [show start + 1 + count = start + (count + 1) by omega] at rest

theorem of_ok {program : StateT σ (Except ε) α} {value : α} {final : σ}
    (ensures : Ensures program state returned raised)
    (ok : program state = .ok (value, final)) : returned value final := by
  unfold Ensures at ensures
  rwa [ok] at ensures

theorem ofOk {program : StateT σ (Except ε) α} {value : α} {final : σ}
    (ok : program state = .ok (value, final)) (holds : returned value final) :
    Ensures program state returned raised := by
  unfold Ensures
  rw [ok]
  exact holds

/-- The first action is known to return. -/
theorem bind_ok {first : StateT σ (Except ε) α} {rest : α → StateT σ (Except ε) β} {value : α}
    {middle : σ} {returned : β → σ → Prop} (ok : first state = .ok (value, middle))
    (tail : Ensures (rest value) middle returned raised) :
    Ensures (first >>= rest) state returned raised := by
  have head : Ensures first state (fun other final => other = value ∧ final = middle) raised :=
    ofOk ok ⟨rfl, rfl⟩
  refine head.bind ?_
  rintro _ _ ⟨rfl, rfl⟩
  exact tail

theorem ofError {program : StateT σ (Except ε) α} {error : ε}
    (failed : program state = .error error) (holds : raised error) :
    Ensures program state returned raised := by
  unfold Ensures
  rw [failed]
  exact holds

theorem of_error {program : StateT σ (Except ε) α} {error : ε}
    (ensures : Ensures program state returned raised) (failed : program state = .error error) :
    raised error := by
  unfold Ensures at ensures
  rwa [failed] at ensures

/-- A program that cannot raise an exception returns. -/
theorem returns {program : StateT σ (Except ε) α}
    (ensures : Ensures program state returned fun _ => False) :
    ∃ value final, program state = .ok (value, final) ∧ returned value final := by
  unfold Ensures at ensures
  split at ensures
  · exact ⟨_, _, ‹_›, ensures⟩
  · exact ensures.elim

/-- A program that cannot return ends by an exception. -/
theorem raises {program : StateT σ (Except ε) α}
    (ensures : Ensures program state (fun _ _ => False) raised) :
    ∃ error, program state = .error error ∧ raised error := by
  unfold Ensures at ensures
  split at ensures
  · exact ensures.elim
  · exact ⟨_, ‹_›, ensures⟩

end Ensures

end FosKernel
