import FosKernel.Paging.FaultHandler
import FosKernel.Refinement.Quiet

/-! # Buffering and the environments

Buffering a victim page, restoring a buffered page and loading a page change no working
set and no clock hand.
-/

namespace FosKernel

open Kernel

/-- The environments are the same but for their disk page directories. -/
def SameEnvs (before after : State) : Prop :=
  ∀ env, after.envs env =
    { before.envs env with diskEnvPgdir := (after.envs env).diskEnvPgdir }

namespace SameEnvs

variable {before after : State} {env : Nat}

theorem refl (state : State) : SameEnvs state state := fun _ => rfl

theorem trans {middle : State} (first : SameEnvs before middle) (second : SameEnvs middle after) :
    SameEnvs before after := by
  intro env
  rw [second env, first env]

variable (same : SameEnvs before after)

include same

theorem elements : (after.envs env).ptrPageWorkingSet = (before.envs env).ptrPageWorkingSet := by
  rw [same env]

theorem size : (after.envs env).pageWSMaxSize = (before.envs env).pageWSMaxSize := by
  rw [same env]

theorem hand : (after.envs env).pageLastWSIndex = (before.envs env).pageLastWSIndex := by
  rw [same env]

end SameEnvs

section Handler

variable {base : State}

theorem Quiet.sameEnvs {action : Kernel α} (quiet : ∀ {base}, Preserves (Quiet base) action) :
    Preserves (SameEnvs base) action := by
  intro state result final same returned
  exact same.trans (quiet state result final (Quiet.refl state) returned).envs

theorem sameEnvs_modify {change : State → State}
    (envs : ∀ state, (change state).envs = state.envs) :
    Preserves (SameEnvs base) (modify change : Kernel PUnit) :=
  .modify fun state same env => by rw [envs]; exact same env

theorem flushFrame_sameEnvs (env frame : Nat) :
    Preserves (SameEnvs base) (flushFrame env frame) :=
  .bind .get fun _ => .bind (Quiet.sameEnvs (pfUpdateEnvPage_quiet _ _ _)) fun _ =>
    .bind (Quiet.sameEnvs (ptSetPagePermissions_quiet _ _ _ _)) fun _ =>
      .bind (sameEnvs_modify fun _ => rfl) fun _ => sameEnvs_modify fun _ => rfl

theorem forEachModified_sameEnvs {body : Nat → Kernel Unit}
    (kept : ∀ frame, Preserves (SameEnvs base) (body frame)) (fuel : Nat)
    (next : Option Nat) : Preserves (SameEnvs base) (forEachModified body fuel next) := by
  induction fuel generalizing next with
  | zero =>
      cases next with
      | none => exact sameEnvs_modify fun _ => rfl
      | some frame => exact .throw _
  | succ fuel induction =>
      cases next with
      | none => exact sameEnvs_modify fun _ => rfl
      | some frame =>
          exact .bind (sameEnvs_modify fun _ => rfl) fun _ => .bind (kept frame) fun _ =>
            .bind .get fun _ => induction _

theorem bufferVictim_sameEnvs (env victim frame : Nat) :
    Preserves (SameEnvs base) (bufferVictim env victim frame) := by
  refine .bind .get fun _ => ?_
  refine .bind (sameEnvs_modify fun _ => rfl) fun _ => ?_
  refine .bind (Quiet.sameEnvs (ptSetPagePermissions_quiet _ _ _ _)) fun _ => ?_
  refine .bind (preserves_observe _) fun _ => .ite ?_ (sameEnvs_modify fun _ => rfl)
  refine .bind (sameEnvs_modify fun _ => rfl) fun _ => .bind .get fun _ => ?_
  exact .ite (forEachModified_sameEnvs (flushFrame_sameEnvs env) _ _) (.pure _)

theorem restorePage_sameEnvs (env faultVa : Nat) (permissions : Word) (frame : Option Nat) :
    Preserves (SameEnvs base) (restorePage env faultVa permissions frame) := by
  refine .bind (Quiet.sameEnvs (ptSetPagePermissions_quiet _ _ _ _)) fun _ => ?_
  cases frame with
  | none => exact .throw _
  | some frame =>
      exact .bind (sameEnvs_modify fun _ => rfl) fun _ =>
        .ite (sameEnvs_modify fun _ => rfl) (sameEnvs_modify fun _ => rfl)

theorem loadPage_sameEnvs (env faultVa : Nat) :
    Preserves (SameEnvs base) (loadPage env faultVa) :=
  .bind (Quiet.sameEnvs allocateFrame_quiet) fun _ =>
    .bind (Quiet.sameEnvs (mapFrame_quiet _ _ _ _)) fun _ =>
      .bind (Quiet.sameEnvs (pfReadEnvPage_quiet _ _)) fun _ => .ite
        (.ite (.bind (Quiet.sameEnvs (pfAddEmptyEnvPage_quiet _ _ _)) fun _ => .pure _)
          (.throw _)) (.pure _)

end Handler

/-! ## Slots -/

theorem envPageWsSetEntry_ok {state final : State} {env index address : Nat}
    (returned : envPageWsSetEntry env index address state = .ok ((), final)) :
    final = state.setEnv env
      ((state.envs env).setElement index ⟨roundDown address, false, 0x80000000⟩) := by
  replace returned := bind_get_ok.mp returned
  rcases ite_ok.mp returned with ⟨-, stopped⟩ | ⟨-, inside⟩
  · rcases bind_ok.mp stopped with ⟨_, _, thrown, -⟩
    exact absurd thrown (by simp [throw_ok])
  · rcases ite_ok.mp inside with ⟨-, stopped⟩ | ⟨-, entered⟩
    · rcases bind_ok.mp stopped with ⟨_, _, thrown, -⟩
      exact absurd thrown (by simp [throw_ok])
    · exact (modify_ok.mp entered).symm

theorem envPageWsClearEntry_ok {state final : State} {env index : Nat}
    (returned : envPageWsClearEntry env index state = .ok ((), final)) :
    index < (state.envs env).pageWSMaxSize ∧
      final = state.setEnv env ((state.envs env).setElement index .cleared) := by
  replace returned := bind_get_ok.mp returned
  rcases ite_ok.mp returned with ⟨-, stopped⟩ | ⟨inside, cleared⟩
  · rcases bind_ok.mp stopped with ⟨_, _, thrown, -⟩
    exact (throw_ok.mp thrown).elim
  · exact ⟨Nat.lt_of_not_le inside, (modify_ok.mp cleared).symm⟩

theorem setLastWSIndexAfter_ok {state final : State} {env index : Nat}
    (inside : index < (state.envs env).pageWSMaxSize)
    (bounded : (state.envs env).pageWSMaxSize < 2 ^ 32)
    (returned : setLastWSIndexAfter env index state = .ok ((), final)) :
    final = state.setEnv env
      { state.envs env with
        pageLastWSIndex := (index + 1) % (state.envs env).pageWSMaxSize } := by
  replace returned := bind_get_ok.mp returned
  have last : ((state.envs env).pageWSMaxSize + (2 ^ 32 - 1)) % 2 ^ 32 =
      (state.envs env).pageWSMaxSize - 1 := by
    omega
  have next : (if index = ((state.envs env).pageWSMaxSize + (2 ^ 32 - 1)) % 2 ^ 32 then 0
      else (index + 1) % 2 ^ 32) = (index + 1) % (state.envs env).pageWSMaxSize := by
    rw [last]
    split
    · next wrapped =>
      rw [show index + 1 = (state.envs env).pageWSMaxSize by omega, Nat.mod_self]
    · rw [Nat.mod_eq_of_lt (show index + 1 < 2 ^ 32 by omega),
        Nat.mod_eq_of_lt (show index + 1 < (state.envs env).pageWSMaxSize by omega)]
  rw [next] at returned
  exact (modify_ok.mp returned).symm

end FosKernel
