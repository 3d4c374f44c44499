import FosKernel.Process.EnvTable
import Mathlib.Data.List.Perm.Subperm

/-! # Environment ids

Runs of creations and releases. Releasing a slot clears its id, so that all
environments of a slot get the same one; the masks that take ids apart do not fit the
number of slots.
-/

namespace FosKernel.EnvironmentIds

open LinkedList EnvTable

inductive TableCall
  | create
  | release (env : Nat)
  /-- The scheduler changes the status of a live environment. -/
  | setStatus (env : Nat) (status : EnvStatus)
  /-- Another environment runs. -/
  | setCurenv (curenv : Option Nat)

def Live (table : EnvTable) (env : Nat) : Prop := env < nenv ∧ table.envStatus env ≠ .free

/-- The runs from `env_init` on, with the slot and the id of each environment created. -/
inductive Run : List TableCall → EnvTable → List (Nat × BitVec 32) → Prop
  | init : Run [] (envInit .zero) []
  | create {calls table history env allocated} :
      Run calls table history → table.allocateEnvironment = some (env, allocated) →
      Run (calls ++ [.create]) (allocated.completeEnvironmentInitialization env)
        (history ++ [(env, (allocated.completeEnvironmentInitialization env).envId env)])
  | release {calls table history env} :
      Run calls table history → Live table env →
      Run (calls ++ [.release env]) (table.freeEnvironment env) history
  | setStatus {calls table history env status} :
      Run calls table history → Live table env → status ≠ .free →
      Run (calls ++ [.setStatus env status]) (table.setStatus env status) history
  | setCurenv {calls table history} (curenv : Option Nat) :
      Run calls table history →
      Run (calls ++ [.setCurenv curenv]) { table with curenv } history

/-- The id of every environment of a slot. -/
def slotId (env : Nat) : BitVec 32 := 0x1000#32 ||| BitVec.ofNat 32 env

/-- Free slots are on the free list with id zero; the others have the id of their slot. -/
structure Sound (table : EnvTable) (free : List Nat) : Prop where
  list : Represents table.links table.envFreeList free
  slots : ∀ env ∈ free, env < nenv
  freed : ∀ env ∈ free, table.envStatus env = .free ∧ table.envId env = 0
  live : ∀ env, env < nenv → env ∉ free →
    table.envStatus env ≠ .free ∧ table.envId env = slotId env

section Steps

variable {table allocated : EnvTable} {free : List Nat} {env : Nat}

theorem room {slots : List Nat} (nodup : slots.Nodup) (bounded : ∀ slot ∈ slots, slot < nenv) :
    slots.length + 1 < 2 ^ 32 := by
  have within : slots ⊆ List.range nenv := fun slot member =>
    List.mem_range.mpr (bounded slot member)
  have length := (nodup.subperm within).length_le
  rw [List.length_range] at length
  have few : nenv + 1 < 2 ^ 32 := by decide
  omega

/-! ## Boot -/

/-- The table while `env_init` fills the free list. -/
structure Filling (table : EnvTable) (free : List Nat) : Prop where
  list : Represents table.links table.envFreeList free
  slots : ∀ env ∈ free, env < nenv
  zero : ∀ env, table.envStatus env = .free ∧ table.envId env = 0

theorem Filling.initSlot (filling : Filling table free) (fresh : env ∉ free)
    (bound : env < nenv) : Filling (table.initSlot env) (env :: free) where
  list := filling.list.listInsertHead fresh (room filling.list.nodup filling.slots)
  slots := by
    intro slot member
    rcases List.mem_cons.mp member with rfl | before
    · exact bound
    · exact filling.slots slot before
  zero := by
    intro slot
    by_cases same : slot = env
    · simp [EnvTable.initSlot, EnvTable.setStatus, withFreeList, same]
    · simpa [EnvTable.initSlot, EnvTable.setStatus, withFreeList, same] using filling.zero slot

theorem Filling.foldl {slots : List Nat} (filling : Filling table free)
    (nodup : (slots.reverse ++ free).Nodup) (bounded : ∀ slot ∈ slots, slot < nenv) :
    Filling (slots.foldl EnvTable.initSlot table) (slots.reverse ++ free) := by
  induction slots generalizing table free with
  | nil => exact filling
  | cons slot slots induction =>
      rw [List.reverse_cons, List.append_assoc, List.singleton_append] at nodup ⊢
      have fresh : slot ∉ free := (List.nodup_cons.mp (List.nodup_append.mp nodup).2.1).1
      exact induction (filling.initSlot fresh (bounded slot (by simp))) nodup
        fun other member => bounded other (by simp [member])

theorem envInit_sound : Sound (envInit .zero) (List.range nenv) := by
  have start : Filling .zero [] :=
    ⟨⟨.nil _, .nil, rfl, rfl, rfl⟩, fun _ member => absurd member List.not_mem_nil,
      fun _ => ⟨rfl, rfl⟩⟩
  have filled : Filling ((List.range nenv).reverse.foldl EnvTable.initSlot .zero)
      ((List.range nenv).reverse.reverse ++ []) := by
    refine start.foldl ?_ fun slot member => List.mem_range.mp (List.mem_reverse.mp member)
    rw [List.reverse_reverse, List.append_nil]
    exact List.nodup_range
  rw [List.reverse_reverse, List.append_nil] at filled
  rw [envInit]
  refine ⟨filled.list, filled.slots, fun env _ => filled.zero env, ?_⟩
  intro env bound absent
  exact absurd (List.mem_range.mpr bound) absent

/-! ## Calls -/

/-- A cleared slot always gets the same id. -/
theorem nextId_zero (env : Nat) : nextId 0#32 env = slotId env := by
  have generation :
      (0#32 + 1#32 <<< envGenShift) &&& ~~~BitVec.ofNat 32 (nenv - 1) = 0x1000#32 := by
    decide
  simp only [nextId, generation, slotId]
  rfl

theorem Sound.create (sound : Sound table free)
    (returned : table.allocateEnvironment = some (env, allocated)) :
    ∃ rest, free = env :: rest ∧
      Sound (allocated.completeEnvironmentInitialization env) rest := by
  rcases Option.map_eq_some_iff.mp returned with ⟨first, head, pair⟩
  rw [Prod.mk.injEq] at pair
  rcases pair with ⟨rfl, rfl⟩
  rw [sound.list.first] at head
  cases list : free with
  | nil => simp [list] at head
  | cons slot rest =>
      have same : slot = first := by simpa [list] using head
      subst same
      have member : slot ∈ free := by simp [list]
      have removed := sound.list.listRemove member
        (by have := room sound.list.nodup sound.slots; omega)
      rw [list, List.erase_cons_head] at removed
      have nodup := sound.list.nodup
      rw [list, List.nodup_cons] at nodup
      refine ⟨rest, rfl, removed, ?_, ?_, ?_⟩
      · exact fun other inRest => sound.slots other (by simp [list, inRest])
      · intro other inRest
        have different : other ≠ slot := fun equal => nodup.1 (equal ▸ inRest)
        simpa [completeEnvironmentInitialization, EnvTable.setStatus, withFreeList,
          different] using sound.freed other (by simp [list, inRest])
      · intro other bound absent
        by_cases same : other = slot
        · subst same
          have old := (sound.freed other member).2
          simp [completeEnvironmentInitialization, EnvTable.setStatus, withFreeList, old,
            nextId_zero]
        · simpa [completeEnvironmentInitialization, EnvTable.setStatus, withFreeList,
            same] using sound.live other bound (by simp [list, same, absent])

theorem Sound.release (sound : Sound table free) (live : Live table env) :
    Sound (table.freeEnvironment env) (env :: free) := by
  have absent : env ∉ free := fun member => live.2 (sound.freed env member).1
  have cleared : Represents (Function.update table.links env Link.null) table.envFreeList
      free := by
    refine sound.list.congr fun value member => ?_
    have different : value ≠ env := fun equal => absent (equal ▸ member)
    exact Function.update_of_ne different _ _
  refine ⟨cleared.listInsertHead absent (room sound.list.nodup sound.slots), ?_, ?_, ?_⟩
  · intro other member
    rcases List.mem_cons.mp member with rfl | before
    · exact live.1
    · exact sound.slots other before
  · intro other member
    by_cases same : other = env
    · simp [freeEnvironment, EnvTable.setStatus, withFreeList, same]
    · simpa [freeEnvironment, EnvTable.setStatus, withFreeList, same] using
        sound.freed other ((List.mem_cons.mp member).resolve_left same)
  · intro other bound outside
    rw [List.mem_cons, not_or] at outside
    simpa [freeEnvironment, EnvTable.setStatus, withFreeList, outside.1] using
      sound.live other bound outside.2

theorem Sound.setStatus {status : EnvStatus} (sound : Sound table free) (live : Live table env)
    (notFree : status ≠ .free) : Sound (table.setStatus env status) free := by
  have absent : env ∉ free := fun member => live.2 (sound.freed env member).1
  refine ⟨sound.list, sound.slots, ?_, ?_⟩
  · intro other member
    have different : other ≠ env := fun equal => absent (equal ▸ member)
    simpa [EnvTable.setStatus, different] using sound.freed other member
  · intro other bound outside
    by_cases same : other = env
    · subst same
      simpa [EnvTable.setStatus, notFree] using (sound.live other bound outside).2
    · simpa [EnvTable.setStatus, same] using sound.live other bound outside

end Steps

section Runs

variable {calls : List TableCall} {table : EnvTable} {history : List (Nat × BitVec 32)}

theorem Run.sound (run : Run calls table history) : ∃ free, Sound table free := by
  induction run with
  | init => exact ⟨_, envInit_sound⟩
  | create _ returned induction =>
      rcases induction with ⟨free, sound⟩
      rcases sound.create returned with ⟨rest, -, later⟩
      exact ⟨rest, later⟩
  | release _ live induction =>
      rcases induction with ⟨free, sound⟩
      exact ⟨_, sound.release live⟩
  | setStatus _ live notFree induction =>
      rcases induction with ⟨free, sound⟩
      exact ⟨_, sound.setStatus live notFree⟩
  | setCurenv _ _ induction =>
      rcases induction with ⟨free, sound⟩
      exact ⟨free, { sound with }⟩

/-! ## Lookup -/

theorem slotId_toNat {env : Nat} (bound : env < nenv) : (slotId env).toNat = 0x1000 + env := by
  have small : env < 2 ^ 12 := lt_trans bound (by decide)
  have index : (BitVec.ofNat 32 env).toNat = env := by
    rw [BitVec.toNat_ofNat, Nat.mod_eq_of_lt (by omega)]
  rw [slotId, BitVec.toNat_or, index]
  exact (Nat.two_pow_add_eq_or_of_lt small 1).symm

theorem slotId_inj {left right : Nat} (leftBound : left < nenv) (rightBound : right < nenv)
    (equal : slotId left = slotId right) : left = right := by
  have same := congrArg BitVec.toNat equal
  rw [slotId_toNat leftBound, slotId_toNat rightBound] at same
  omega

theorem slotId_positive {env : Nat} (bound : env < nenv) : 0 < (slotId env).toInt := by
  have small : env < 2 ^ 12 := lt_trans bound (by decide)
  have value := slotId_toNat bound
  rw [BitVec.toInt_eq_toNat_of_lt (by omega)]
  omega

/-- The mask drops the bits of the index that are not set in `NENV - 1`. -/
theorem envx_slotId (env : Nat) (bound : env < nenv) :
    envx (slotId env) = env &&& (nenv - 1) := by
  have small : env < 2 ^ 12 := lt_trans bound (by decide)
  have index : (BitVec.ofNat 32 env).toNat = env := by
    rw [BitVec.toNat_ofNat, Nat.mod_eq_of_lt (by omega)]
  have mask : (BitVec.ofNat 32 (nenv - 1)).toNat = nenv - 1 := by decide
  rw [envx, BitVec.toNat_and, mask, slotId, BitVec.toNat_or, index,
    Nat.and_or_distrib_right]
  have disjoint : (0x1000#32).toNat &&& (nenv - 1) = 0 := by decide
  rw [disjoint, Nat.zero_or]

/-- The id of the environment is positive, belongs to it alone and leads back to it. -/
structure Resolves (table : EnvTable) (env : Nat) : Prop where
  positive : 0 < (table.envId env).toInt
  unique : ∀ other, Live table other → other ≠ env → table.envId other ≠ table.envId env
  found : table.envid2env (table.envId env) false = .found (some env)

theorem Run.live_id (run : Run calls table history) {env : Nat} (live : Live table env) :
    table.envId env = slotId env := by
  rcases run.sound with ⟨free, sound⟩
  exact (sound.live env live.1 fun member => live.2 (sound.freed env member).1).2

theorem envid2env_slotId {env : Nat} (bound : env < nenv) :
    table.envid2env (slotId env) false =
      if table.envStatus (env &&& (nenv - 1)) = .free ∨
        table.envId (env &&& (nenv - 1)) ≠ slotId env then .badEnv
      else .found (some (env &&& (nenv - 1))) := by
  have nonzero : slotId env ≠ 0 := by
    intro zero
    have := slotId_positive bound
    rw [zero] at this
    exact absurd this (by decide)
  simp only [EnvTable.envid2env, nonzero, if_false, envx_slotId env bound,
    Bool.false_eq_true, false_and]

/-- An id leads back to its environment exactly when the index of the slot has no bit
outside the mask. -/
theorem resolves_iff_index_in_mask (run : Run calls table history) {env : Nat}
    (live : Live table env) : Resolves table env ↔ env &&& (nenv - 1) = env := by
  have bound := live.1
  have own := run.live_id live
  constructor
  · intro resolves
    have found := resolves.found
    rw [own, envid2env_slotId bound] at found
    split at found
    · cases found
    · rw [EnvLookup.found.injEq, Option.some.injEq] at found
      exact found
  · intro inMask
    refine ⟨?_, ?_, ?_⟩
    · rw [own]
      exact slotId_positive bound
    · intro other otherLive different equal
      rw [own, run.live_id otherLive] at equal
      exact different (slotId_inj otherLive.1 bound equal)
    · rw [own, envid2env_slotId bound, inMask, if_neg]
      rintro (isFree | stale)
      · exact live.2 isFree
      · exact stale own

theorem Run.create_first {env : Nat} {rest : List Nat} (run : Run calls table history)
    (sound : Sound table (env :: rest)) :
    ∃ later, Run (calls ++ [.create]) later (history ++ [(env, slotId env)]) ∧
      Sound later rest ∧ Live later env := by
  have returned : table.allocateEnvironment = some (env, table.setStatus env .unknown) := by
    rw [allocateEnvironment, sound.list.first]
    rfl
  rcases sound.create returned with ⟨others, equal, later⟩
  rw [List.cons.injEq] at equal
  rcases equal with ⟨-, rfl⟩
  have bound := sound.slots env List.mem_cons_self
  have absent := (List.nodup_cons.mp sound.list.nodup).1
  have live := later.live env bound absent
  have longer := run.create returned
  rw [live.2] at longer
  exact ⟨_, longer, later, bound, live.1⟩

theorem envInit_first_slots : ∃ rest, Sound (envInit .zero) (0 :: 1 :: 2 :: rest) := by
  have count : nenv = 3 + (nenv - 3) := by decide
  have slots : List.range nenv = 0 :: 1 :: 2 :: (List.range (nenv - 3)).map (3 + ·) := by
    conv_lhs => rw [count, List.range_add]
    rfl
  have sound := envInit_sound
  rw [slots] at sound
  exact ⟨_, sound⟩

theorem resolves_iff_index_in_mask_first_slot :
    ∃ table history, Run [.create] table history ∧ Live table 0 ∧ Resolves table 0 := by
  rcases envInit_first_slots with ⟨rest, sound⟩
  rcases Run.init.create_first sound with ⟨table, run, -, live⟩
  exact ⟨table, _, run, live, (resolves_iff_index_in_mask run live).mpr (by decide)⟩

/-- The third environment has the id `0x1002`, which leads to the first slot. -/
theorem third_environment_not_found :
    ∃ table history, Run [.create, .create, .create] table history ∧ Live table 2 ∧
      table.envid2env (table.envId 2) false = .badEnv ∧ ¬Resolves table 2 := by
  rcases envInit_first_slots with ⟨rest, sound⟩
  rcases Run.init.create_first sound with ⟨one, runOne, soundOne, -⟩
  rcases runOne.create_first soundOne with ⟨two, runTwo, soundTwo, -⟩
  rcases runTwo.create_first soundTwo with ⟨three, runThree, soundThree, live⟩
  have nodup := sound.list.nodup
  have outside : 0 ∉ rest := by
    intro member
    exact (List.nodup_cons.mp nodup).1 (by simp [member])
  have other := (soundThree.live 0 (by decide) outside).2
  have index : 2 &&& (nenv - 1) = 0 := by decide
  have lookup : three.envid2env (three.envId 2) false = .badEnv := by
    rw [runThree.live_id live, envid2env_slotId live.1, index, if_pos (Or.inr ?_)]
    rw [other]
    decide
  refine ⟨three, _, runThree, live, lookup, ?_⟩
  intro resolves
  rw [resolves.found] at lookup
  cases lookup

end Runs

section Reuse

variable {calls : List TableCall} {table : EnvTable} {history : List (Nat × BitVec 32)}
variable {free rest : List Nat} {env : Nat}

/-- No environment is created once one has been released. -/
def CreatesFirst (calls : List TableCall) : Prop :=
  calls.Pairwise fun earlier later => ∀ env, earlier = .release env → later ≠ .create

/-- The ids of the environments of one slot differ, and none leads to an environment
created later. -/
structure StaleRejected (table : EnvTable) (history : List (Nat × BitVec 32)) : Prop where
  differ : history.Pairwise fun earlier later => earlier.1 = later.1 → earlier.2 ≠ later.2
  rejected : history.Pairwise fun earlier later =>
    table.envid2env earlier.2 false ≠ .found (some later.1)

/-- The slots used so far, against the calls and the free list. -/
structure Tracked (calls : List TableCall) (slots free : List Nat) : Prop where
  recorded : ∀ env, env < nenv → env ∉ free → env ∈ slots
  fresh : (∀ env, .release env ∉ calls) → ∀ slot ∈ slots, slot ∉ free
  reuse : CreatesFirst calls → ∀ env, .release env ∈ calls →
    ∃ slot rest, free = slot :: rest ∧ slot ∈ slots
  nodup : slots.Nodup ↔ CreatesFirst calls

theorem createsFirst_append (call : TableCall) :
    CreatesFirst (calls ++ [call]) ↔
      CreatesFirst calls ∧ ∀ env, .release env ∈ calls → call ≠ .create := by
  rw [CreatesFirst, List.pairwise_append]
  constructor
  · rintro ⟨before, -, cross⟩
    exact ⟨before, fun env member => cross _ member call (by simp) env rfl⟩
  · rintro ⟨before, cross⟩
    refine ⟨before, List.pairwise_singleton _ _, ?_⟩
    rintro earlier member later single env rfl
    rw [List.mem_singleton.mp single]
    exact cross env member

variable {slots : List Nat}

theorem Tracked.create (tracked : Tracked calls slots (env :: rest))
    (nodup : (env :: rest).Nodup) : Tracked (calls ++ [.create]) (slots ++ [env]) rest := by
  have absent := (List.nodup_cons.mp nodup).1
  have unreleased : (∀ other, TableCall.release other ∉ calls ++ [.create]) →
      ∀ other, TableCall.release other ∉ calls := by
    intro none other member
    exact none other (List.mem_append_left _ member)
  refine ⟨?_, ?_, ?_, ?_⟩
  · intro other bound outside
    by_cases same : other = env
    · simp [same]
    · exact List.mem_append_left _ (tracked.recorded other bound (by simp [same, outside]))
  · intro none slot member
    rcases List.mem_append.mp member with before | new
    · intro inRest
      exact tracked.fresh (unreleased none) slot before (List.mem_cons_of_mem _ inRest)
    · rw [List.mem_singleton.mp new]
      exact absent
  · intro first other member
    rcases List.mem_append.mp member with before | new
    · exact absurd rfl (((createsFirst_append _).mp first).2 other before)
    · cases List.mem_singleton.mp new
  · rw [createsFirst_append, ← tracked.nodup, List.nodup_append]
    constructor
    · rintro ⟨distinct, -, apart⟩
      refine ⟨distinct, fun other released => ?_⟩
      rcases tracked.reuse (tracked.nodup.mp distinct) other released with
        ⟨slot, _, equal, used⟩
      rw [List.cons.injEq] at equal
      exact absurd equal.1.symm (apart slot used env (by simp))
    · rintro ⟨distinct, none⟩
      refine ⟨distinct, List.nodup_singleton _, ?_⟩
      rintro slot used other single rfl
      rw [List.mem_singleton.mp single] at used
      exact tracked.fresh (fun other released => none other released rfl) env used
        List.mem_cons_self

theorem Tracked.release (tracked : Tracked calls slots free) (bound : env < nenv)
    (absent : env ∉ free) : Tracked (calls ++ [.release env]) slots (env :: free) := by
  have used := tracked.recorded env bound absent
  refine ⟨?_, ?_, ?_, ?_⟩
  · intro other otherBound outside
    rw [List.mem_cons, not_or] at outside
    exact tracked.recorded other otherBound outside.2
  · intro none
    exact absurd (by simp) (none env)
  · intro _ _ _
    exact ⟨env, free, rfl, used⟩
  · rw [createsFirst_append, tracked.nodup]
    simp

/-- Other calls neither take nor give back a slot. -/
theorem Tracked.other {call : TableCall} (tracked : Tracked calls slots free)
    (notCreate : call ≠ .create) (notRelease : ∀ env, call ≠ .release env) :
    Tracked (calls ++ [call]) slots free := by
  have released : ∀ env, TableCall.release env ∈ calls ++ [call] ↔ .release env ∈ calls := by
    intro other
    simp [(notRelease other).symm]
  have first : CreatesFirst (calls ++ [call]) ↔ CreatesFirst calls := by
    simp [createsFirst_append, notCreate]
  refine ⟨tracked.recorded, ?_, ?_, tracked.nodup.trans first.symm⟩
  · intro none
    exact tracked.fresh fun other member => none other ((released other).mpr member)
  · intro before other member
    exact tracked.reuse (first.mp before) other ((released other).mp member)

theorem Run.tracked (run : Run calls table history) :
    ∃ free, Sound table free ∧ Tracked calls (history.map Prod.fst) free ∧
      ∀ entry ∈ history, entry.1 < nenv ∧ entry.2 = slotId entry.1 := by
  induction run with
  | init =>
      refine ⟨_, envInit_sound, ⟨?_, ?_, ?_, ?_⟩, ?_⟩
      · intro env bound absent
        exact absurd (List.mem_range.mpr bound) absent
      · intro _ slot member
        exact absurd member List.not_mem_nil
      · intro _ env member
        exact absurd member List.not_mem_nil
      · exact iff_of_true .nil .nil
      · intro entry member
        exact absurd member List.not_mem_nil
  | create _ returned induction =>
      rcases induction with ⟨free, sound, tracked, recorded⟩
      rcases sound.create returned with ⟨rest, rfl, later⟩
      have nodup := sound.list.nodup
      have bound := sound.slots _ List.mem_cons_self
      refine ⟨rest, later, ?_, ?_⟩
      · rw [List.map_append]
        exact tracked.create nodup
      · intro entry member
        rcases List.mem_append.mp member with before | new
        · exact recorded entry before
        · rw [List.mem_singleton.mp new]
          exact ⟨bound, (later.live _ bound (List.nodup_cons.mp nodup).1).2⟩
  | release _ live induction =>
      rcases induction with ⟨free, sound, tracked, recorded⟩
      have absent := fun member => live.2 (sound.freed _ member).1
      exact ⟨_, sound.release live, tracked.release live.1 absent, recorded⟩
  | setStatus _ live notFree induction =>
      rcases induction with ⟨free, sound, tracked, recorded⟩
      exact ⟨free, sound.setStatus live notFree, tracked.other (by simp) (by simp), recorded⟩
  | setCurenv _ _ induction =>
      rcases induction with ⟨free, sound, tracked, recorded⟩
      exact ⟨free, { sound with }, tracked.other (by simp) (by simp), recorded⟩

/-- An id is only ever found in its own slot. -/
theorem Run.found_slot (run : Run calls table history) {other : Nat} (bound : env < nenv)
    (found : table.envid2env (slotId env) false = .found (some other)) : other = env := by
  rw [envid2env_slotId bound] at found
  split at found
  · cases found
  · rename_i valid
    rw [EnvLookup.found.injEq, Option.some.injEq] at found
    rw [found, not_or, not_not] at valid
    have otherBound : other < nenv := found ▸ lt_of_le_of_lt Nat.and_le_left bound
    have own := run.live_id ⟨otherBound, valid.1⟩
    exact slotId_inj otherBound bound (own.symm.trans valid.2)

/-- Released ids stay unused exactly in the runs that create no environment after a
release. -/
theorem stale_rejected_iff_creates_first (run : Run calls table history) :
    StaleRejected table history ↔ CreatesFirst calls := by
  rcases run.tracked with ⟨free, sound, tracked, recorded⟩
  rw [← tracked.nodup, List.Nodup, List.pairwise_map]
  constructor
  · intro stale
    refine stale.differ.imp_of_mem ?_
    intro earlier later earlierIn laterIn differ same
    apply differ same
    rw [(recorded earlier earlierIn).2, (recorded later laterIn).2, same]
  · intro distinct
    refine ⟨distinct.imp fun different same => absurd same different, ?_⟩
    refine distinct.imp_of_mem ?_
    intro earlier later earlierIn _ different found
    rw [(recorded earlier earlierIn).2] at found
    exact different (run.found_slot (recorded earlier earlierIn).1 found).symm

theorem stale_rejected_after_release :
    ∃ table history, Run [.create, .create, .release 0] table history ∧
      StaleRejected table history := by
  rcases envInit_first_slots with ⟨rest, sound⟩
  rcases Run.init.create_first sound with ⟨one, runOne, soundOne, -⟩
  rcases runOne.create_first soundOne with ⟨two, runTwo, soundTwo, -⟩
  have outside : 0 ∉ 2 :: rest := by
    intro member
    exact (List.nodup_cons.mp sound.list.nodup).1 (List.mem_cons_of_mem _ member)
  have live : Live two 0 := ⟨by decide, (soundTwo.live 0 (by decide) outside).1⟩
  have run := runTwo.release live
  refine ⟨_, _, run, (stale_rejected_iff_creates_first run).mpr ?_⟩
  simp [CreatesFirst]

/-- A slot that is used again gives the id it gave before. -/
theorem stale_id_resolves :
    ∃ table history, Run [.create, .release 0, .create] table history ∧
      history = [(0, 0x1000#32), (0, 0x1000#32)] ∧
      table.envid2env 0x1000#32 false = .found (some 0) ∧ ¬StaleRejected table history := by
  rcases envInit_first_slots with ⟨rest, sound⟩
  rcases Run.init.create_first sound with ⟨one, runOne, soundOne, live⟩
  rcases (runOne.release live).create_first (soundOne.release live) with
    ⟨two, runTwo, soundTwo, liveTwo⟩
  have same : slotId 0 = 0x1000#32 := by decide
  have lookup : two.envid2env 0x1000#32 false = .found (some 0) := by
    have index : 0 &&& (nenv - 1) = 0 := by decide
    rw [← same, envid2env_slotId (by decide), index, if_neg]
    rintro (isFree | stale)
    · exact liveTwo.2 isFree
    · exact stale (runTwo.live_id liveTwo)
  rw [same] at runTwo
  refine ⟨two, _, runTwo, rfl, lookup, ?_⟩
  intro stale
  have different := stale.rejected
  simp [lookup] at different

end Reuse

end FosKernel.EnvironmentIds
