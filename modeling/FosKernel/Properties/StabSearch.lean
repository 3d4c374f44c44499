import FosKernel.Debug.Stabs
import Mathlib.Logic.Relation

/-! # The search for a stab

`stab_binsearch` looks for the last stab of a type at or below an address. After an exact
match it goes on with the address of the next word, in the range that is left then.
-/

namespace FosKernel.StabSearch

open Relation

section Search

variable (stabs : Int → Stab) (type left right : Int)

/-- The table as the search may see it. -/
def window : Int → Option Stab := fun index =>
  if left ≤ index ∧ index ≤ right then some (stabs index) else none

def OfType (index : Int) : Prop := ((stabs index).nType.toNat : Int) = type

def value (index : Int) : Nat := (stabs index).nValue.toNat

/-- The stabs of the type have strictly increasing values. -/
def Increasing : Prop :=
  ∀ first second, left ≤ first → first < second → second ≤ right →
    OfType stabs type first → OfType stabs type second → value stabs first < value stabs second

/-- No stab of the type from `lower` to `upper`. -/
def NoneOfType (lower upper : Int) : Prop :=
  ∀ index, lower ≤ index → index ≤ upper → ¬OfType stabs type index

/-- The last stab of the type from `lower` to `upper`. -/
structure LastOfType (lower upper index : Int) : Prop where
  last : NoneOfType stabs type (index + 1) upper
  ofType : OfType stabs type index
  lower : lower ≤ index
  upper : index ≤ upper

/-! ## What the search should find -/

/-- The last stab of the type at or below the address. -/
structure Containing (addr : Word) (index : Int) : Prop where
  lower : left ≤ index
  upper : index ≤ right
  ofType : OfType stabs type index
  atMost : value stabs index ≤ addr.toNat
  above : ∀ other, index < other → other ≤ right → OfType stabs type other →
    addr.toNat < value stabs other

/-- The place just before the next stab of the type, or the end of the range. -/
def BeforeNext (index regionRight : Int) : Prop :=
  index ≤ regionRight ∧ NoneOfType stabs type (index + 1) regionRight ∧
    (regionRight = right ∨ regionRight + 1 ≤ right ∧ OfType stabs type (regionRight + 1))

/-- The address lies at or above a stab of the type. -/
def HasContaining (addr : Word) : Prop :=
  ∃ index, left ≤ index ∧ index ≤ right ∧ OfType stabs type index ∧
    value stabs index ≤ addr.toNat

/-- The search ends inside the range with the containing stab, or with an empty region. -/
def Finds (addr : Word) : Prop :=
  ∃ regionLeft regionRight,
    stabBinsearch (window stabs left right) type left right addr =
      .ok (regionLeft, regionRight) ∧
    (HasContaining stabs type left right addr →
      Containing stabs type left right addr regionLeft ∧
        BeforeNext stabs type right regionLeft regionRight) ∧
    (¬HasContaining stabs type left right addr → regionRight < regionLeft)

/-! ## When it does -/

/-- How the bisection of a range goes on while it meets no exact match. -/
inductive Narrows (addr : Word) : Int × Int → Int × Int → Prop
  | nothing {l r : Int} (order : l ≤ r) (none : NoneOfType stabs type l ((l + r) / 2)) :
      Narrows addr (l, r) ((l + r) / 2 + 1, r)
  | below {l r m : Int} (order : l ≤ r) (last : LastOfType stabs type l ((l + r) / 2) m)
      (less : value stabs m < addr.toNat) : Narrows addr (l, r) ((l + r) / 2 + 1, r)
  | above {l r m : Int} (order : l ≤ r) (last : LastOfType stabs type l ((l + r) / 2) m)
      (greater : addr.toNat < value stabs m) : Narrows addr (l, r) (l, m - 1)

/-- The bisection meets the stab at the address itself while its range ends at `r`. -/
def Meets (addr : Word) (m r : Int) : Prop :=
  ∃ l, ReflTransGen (Narrows stabs type addr) (left, right) (l, r) ∧ l ≤ r ∧
    LastOfType stabs type l ((l + r) / 2) m ∧ value stabs m = addr.toNat

/-- In the rest of the range the next stab of the type is more than a word away. At the
end of the address space two adjacent stabs, a word apart, do no harm either. -/
def Apart (addr : Word) (m r : Int) : Prop :=
  (addr.toNat + 4 < 2 ^ 32 ∧ ∀ index, m < index → index ≤ r → OfType stabs type index →
    addr.toNat + 4 < value stabs index) ∨
  (addr.toNat + 4 < 2 ^ 32 ∧ 2 ^ 32 ≤ addr.toNat + 8 ∧ m + 1 ≤ r ∧ OfType stabs type (m + 1) ∧
    value stabs (m + 1) = addr.toNat + 4)

/-- The range has no stab of the type at all, or one at or below the address and after an
exact match none within the next word. -/
def Fits (addr : Word) : Prop :=
  NoneOfType stabs type left right ∨
    HasContaining stabs type left right addr ∧
      ∀ m r, Meets stabs type left right addr m r → Apart stabs type addr m r

/-! ## One iteration -/

/-- What an iteration does. -/
inductive Step (search : StabSearch) : StabSearch → Prop
  | nothing (none : NoneOfType stabs type search.l ((search.l + search.r) / 2)) :
      Step search { search with l := (search.l + search.r) / 2 + 1 }
  | below {m : Int} (last : LastOfType stabs type search.l ((search.l + search.r) / 2) m)
      (less : value stabs m < search.addr.toNat) :
      Step search { search with
        anyMatches := true, regionLeft := m, l := (search.l + search.r) / 2 + 1 }
  | above {m : Int} (last : LastOfType stabs type search.l ((search.l + search.r) / 2) m)
      (greater : search.addr.toNat < value stabs m) :
      Step search { search with anyMatches := true, regionRight := m - 1, r := m - 1 }
  | exact {m : Int} (last : LastOfType stabs type search.l ((search.l + search.r) / 2) m)
      (equal : value stabs m = search.addr.toNat) :
      Step search { search with
        anyMatches := true, regionLeft := m, l := m, addr := search.addr + 4 }

/-- An iteration of the loop. -/
def Turn (search next : StabSearch) : Prop := search.l ≤ search.r ∧ Step stabs type search next

variable {stabs type left right}

theorem readStab_window {index : Int} (lower : left ≤ index) (upper : index ≤ right) :
    readStab (window stabs left right) index = .ok (stabs index) := by
  rw [readStab, window, if_pos ⟨lower, upper⟩]
  rfl

theorem earliestStab_ok {l : Int} {count : Nat} (lower : left ≤ l)
    (upper : l + count ≤ right + 1) :
    ∃ m, earliestStab (window stabs left right) type l count = .ok m ∧
      (m = l - 1 ∧ NoneOfType stabs type l (l + count - 1) ∨
        LastOfType stabs type l (l + count - 1) m) := by
  induction count with
  | zero =>
      refine ⟨l - 1, rfl, .inl ⟨rfl, fun index above below => ?_⟩⟩
      omega
  | succ count induction =>
      have read : readStab (window stabs left right) (l + count) = .ok (stabs (l + count)) :=
        readStab_window (by omega) (by omega)
      by_cases ofType : OfType stabs type (l + count)
      · refine ⟨l + count, ?_, .inr ⟨fun index above below => ?_, ofType, by omega, by omega⟩⟩
        · rw [earliestStab, read]
          exact if_neg (not_not.mpr ofType)
        · omega
      · rcases induction (by omega) with ⟨m, returned, found⟩
        refine ⟨m, ?_, ?_⟩
        · rw [earliestStab, read, ← returned]
          exact if_pos ofType
        · have extend : ∀ lower, NoneOfType stabs type lower (l + count - 1) →
              NoneOfType stabs type lower (l + (count + 1 : Nat) - 1) := by
            intro lower none index above below
            by_cases last : index = l + count
            · rwa [last]
            · exact none index above (by omega)
          rcases found with ⟨before, none⟩ | last
          · exact .inl ⟨before, extend l none⟩
          · have upper := last.upper
            exact .inr ⟨extend _ last.last, last.ofType, last.lower, by omega⟩

theorem stabStep_ok {search : StabSearch} (lower : left ≤ search.l) (upper : search.r ≤ right)
    (order : search.l ≤ search.r) :
    ∃ next, stabStep (window stabs left right) type search = .ok next ∧
      Step stabs type search next := by
  have count : search.l + ((search.l + search.r) / 2 + 1 - search.l).toNat - 1 =
      (search.l + search.r) / 2 := by omega
  have searched : ∃ m, earliestStab (window stabs left right) type search.l
      ((search.l + search.r) / 2 + 1 - search.l).toNat = .ok m ∧ _ :=
    earliestStab_ok lower (by omega)
  rcases searched with ⟨m, returned, found⟩
  rw [count] at found
  simp only [stabStep]
  rw [returned]
  rcases found with ⟨before, none⟩ | last
  · exact ⟨_, if_pos (by omega), .nothing none⟩
  · have first := last.lower
    have final := last.upper
    have read : readStab (window stabs left right) m = .ok (stabs m) :=
      readStab_window (by omega) (by omega)
    have inside : ¬m < search.l := by omega
    simp only [bind, Except.bind, if_neg inside, read]
    by_cases less : (stabs m).nValue < search.addr
    · exact ⟨_, if_pos less, .below last (BitVec.lt_def.mp less)⟩
    · rw [if_neg less]
      by_cases greater : search.addr < (stabs m).nValue
      · exact ⟨_, if_pos greater, .above last (BitVec.lt_def.mp greater)⟩
      · rw [if_neg greater]
        have equal : (stabs m).nValue.toNat = search.addr.toNat := by
          rw [BitVec.lt_def] at less greater
          omega
        exact ⟨_, rfl, .exact last equal⟩

/-! ## The whole loop -/

/-- The number of stabs that are left. -/
def size (search : StabSearch) : Nat := (search.r + 1 - search.l).toNat

theorem LastOfType.unique {lower upper first second : Int}
    (one : LastOfType stabs type lower upper first)
    (two : LastOfType stabs type lower upper second) : first = second := by
  by_contra different
  rcases lt_or_gt_of_ne different with less | greater
  · exact one.last second (by omega) two.upper two.ofType
  · exact two.last first (by omega) one.upper one.ofType

theorem Step.range {search next : StabSearch} (step : Step stabs type search next)
    (order : search.l ≤ search.r) :
    search.l ≤ next.l ∧ next.r ≤ search.r ∧ next.l ≤ next.r + 1 := by
  cases step with
  | nothing none => exact ⟨by simp only; omega, le_refl _, by simp only; omega⟩
  | below last less => exact ⟨by simp only; omega, le_refl _, by simp only; omega⟩
  | above last greater =>
      have lower := last.lower
      have upper := last.upper
      exact ⟨le_refl _, by simp only; omega, by simp only; omega⟩
  | exact last equal =>
      have upper := last.upper
      exact ⟨last.lower, le_refl _, by simp only; omega⟩

theorem addr_add_four (addr : Word) : (addr + 4).toNat = (addr.toNat + 4) % 2 ^ 32 :=
  BitVec.toNat_add addr 4

/-- The next probe is no exact match. -/
def NoExact (stabs : Int → Stab) (type : Int) (search : StabSearch) : Prop :=
  ∀ m, LastOfType stabs type search.l ((search.l + search.r) / 2) m →
    value stabs m ≠ search.addr.toNat

/-- An iteration makes the range smaller, or it is an exact match and the next one is not. -/
theorem Step.progress {search next : StabSearch} (step : Step stabs type search next)
    (order : search.l ≤ search.r) :
    size next < size search ∨
      ¬NoExact stabs type search ∧ size next = size search ∧ NoExact stabs type next := by
  unfold size
  cases step with
  | nothing none => exact .inl (by simp only; omega)
  | below last less => exact .inl (by simp only; omega)
  | above last greater =>
      have upper := last.upper
      exact .inl (by simp only; omega)
  | @exact m last equal =>
      by_cases same : m = search.l
      · refine .inr ⟨fun none => none m last equal, by rw [same], fun other found => ?_⟩
        have unique : other = m := by
          subst same
          exact found.unique last
        rw [unique, equal, addr_add_four]
        have bound := search.addr.isLt
        omega
      · have lower := last.lower
        have upper := last.upper
        exact .inl (by simp only; omega)

theorem stabLoop_ok {fuel : Nat} {search : StabSearch} (lower : left ≤ search.l)
    (upper : search.r ≤ right)
    (enough : 2 * size search + 2 ≤ fuel ∨
      NoExact stabs type search ∧ 2 * size search + 1 ≤ fuel) :
    ∃ final, stabLoop (window stabs left right) type fuel search = .ok final ∧
      ReflTransGen (Turn stabs type) search final ∧ final.r < final.l := by
  induction fuel generalizing search with
  | zero => omega
  | succ fuel induction =>
      by_cases order : search.l ≤ search.r
      · have stepped : ∃ next, stabStep (window stabs left right) type search = .ok next ∧
            Step stabs type search next := stabStep_ok lower upper order
        rcases stepped with ⟨next, returned, step⟩
        have range := step.range order
        have fueled : 2 * size next + 2 ≤ fuel ∨
            NoExact stabs type next ∧ 2 * size next + 1 ≤ fuel := by
          rcases step.progress order with smaller | ⟨exact, same, noExact⟩
          · exact .inl (by omega)
          · rcases enough with enough | ⟨none, -⟩
            · exact .inr ⟨noExact, by omega⟩
            · exact absurd none exact
        rcases induction (by omega) (by omega) fueled with ⟨final, rest, run, ends⟩
        refine ⟨final, ?_, .head ⟨order, step⟩ run, ends⟩
        rw [stabLoop, if_pos order, returned]
        exact rest
      · refine ⟨search, ?_, .refl, by omega⟩
        rw [stabLoop, if_neg order]
        rfl

/-! ## What the loop keeps -/

/-- The range is inside the given one and the regions are around it. -/
structure Bracket (stabs : Int → Stab) (type left right : Int) (search : StabSearch) :
    Prop where
  lower : left ≤ search.l
  upper : search.r ≤ right
  order : search.l ≤ search.r + 1
  regionRight : search.regionRight = search.r
  next : search.r = right ∨ search.r + 1 ≤ right ∧ OfType stabs type (search.r + 1)
  region : search.regionLeft = left ∧ NoneOfType stabs type left (search.l - 1) ∨
    OfType stabs type search.regionLeft ∧ left ≤ search.regionLeft ∧
      search.regionLeft ≤ search.l ∧
      NoneOfType stabs type (search.regionLeft + 1) (search.l - 1)
  matched : search.anyMatches = true → ¬NoneOfType stabs type left right
  unmatched : search.anyMatches = false →
    NoneOfType stabs type left (search.l - 1) ∧ search.r = right ∧ search.regionLeft = left

theorem NoneOfType.append {lower middle upper : Int}
    (first : NoneOfType stabs type lower (middle - 1))
    (second : NoneOfType stabs type middle upper) : NoneOfType stabs type lower upper := by
  intro index above below
  by_cases before : index < middle
  · exact first index above (by omega)
  · exact second index (by omega) below

theorem LastOfType.found {lower upper m : Int} (last : LastOfType stabs type lower upper m)
    (above : left ≤ lower) (below : upper ≤ right) : ¬NoneOfType stabs type left right := by
  have first := last.lower
  have final := last.upper
  exact fun none => none m (by omega) (by omega) last.ofType

theorem Bracket.step {search next : StabSearch} (bracket : Bracket stabs type left right search)
    (order : search.l ≤ search.r) (step : Step stabs type search next) :
    Bracket stabs type left right next := by
  have lower := bracket.lower
  have upper := bracket.upper
  have range := step.range order
  cases step with
  | nothing none =>
      refine ⟨by omega, by omega, by omega, bracket.regionRight, bracket.next, ?_,
        bracket.matched, fun unmatched => ?_⟩
      · simp only [Int.add_sub_cancel]
        rcases bracket.region with ⟨same, before⟩ | ⟨ofType, above, below, before⟩
        · exact .inl ⟨same, before.append none⟩
        · exact .inr ⟨ofType, above, by omega, before.append none⟩
      · simp only [Int.add_sub_cancel]
        have before := bracket.unmatched unmatched
        exact ⟨before.1.append none, before.2⟩
  | below last less =>
      have first := last.lower
      have final := last.upper
      refine ⟨by omega, by omega, by omega, bracket.regionRight, bracket.next, ?_,
        fun _ => last.found lower (by omega), nofun⟩
      simp only [Int.add_sub_cancel]
      exact .inr ⟨last.ofType, by omega, by omega, last.last⟩
  | @above m last greater =>
      have first := last.lower
      have final := last.upper
      refine ⟨by omega, by omega, by omega, rfl, .inr ?_, bracket.region,
        fun _ => last.found lower (by omega), nofun⟩
      simp only [Int.sub_add_cancel]
      exact ⟨by omega, last.ofType⟩
  | @exact m last equal =>
      have first := last.lower
      have final := last.upper
      refine ⟨by omega, by omega, by omega, bracket.regionRight, bracket.next, .inr ?_,
        fun _ => last.found lower (by omega), nofun⟩
      refine ⟨last.ofType, by simp only; omega, le_refl _, fun index above below => ?_⟩
      simp only at above below
      omega

/-- What each iteration keeps holds to the end. -/
theorem run_keeps {start final : StabSearch} (keeps : StabSearch → Prop)
    (run : ReflTransGen (Turn stabs type) start final) (begins : keeps start)
    (step : ∀ search next, keeps search → search.l ≤ search.r → Step stabs type search next →
      keeps next) : keeps final := by
  induction run with
  | refl => exact begins
  | tail _ turn induction => exact step _ _ induction turn.1 turn.2

/-! ## Before and after the exact match -/

/-- No exact match has been met. -/
structure Plain (stabs : Int → Stab) (type left right : Int) (addr : Word)
    (search : StabSearch) : Prop where
  address : search.addr = addr
  narrows : ReflTransGen (Narrows stabs type addr) (left, right) (search.l, search.r)
  below : ∀ index, left ≤ index → index < search.l → OfType stabs type index →
    value stabs index < addr.toNat
  above : ∀ index, search.r < index → index ≤ right → OfType stabs type index →
    addr.toNat < value stabs index
  strict : NoneOfType stabs type left (search.l - 1) ∨ search.regionLeft < search.l

/-- The search after the exact match at `m`. -/
def hit (search : StabSearch) (m : Int) : StabSearch :=
  { search with anyMatches := true, regionLeft := m, l := m, addr := search.addr + 4 }

/-- The exact match at `m` in a search that ends in `final`. -/
structure Hit (stabs : Int → Stab) (type left right : Int) (addr : Word) (m r : Int)
    (final : StabSearch) : Prop where
  meets : Meets stabs type left right addr m r
  lower : left ≤ m
  upper : m ≤ r
  within : r ≤ right
  run : ∃ before, before.r = r ∧ before.addr = addr ∧
    ReflTransGen (Turn stabs type) (hit before m) final

variable {addr : Word}

theorem Plain.step (increasing : Increasing stabs type left right)
    {search next : StabSearch} (bracket : Bracket stabs type left right search)
    (plain : Plain stabs type left right addr search) (order : search.l ≤ search.r)
    (step : Step stabs type search next) :
    Plain stabs type left right addr next ∨
      ∃ m, Hit stabs type left right addr m search.r next := by
  have lower := bracket.lower
  have upper := bracket.upper
  cases step with
  | nothing none =>
      refine .inl ⟨plain.address, plain.narrows.tail (.nothing order none), ?_, plain.above, ?_⟩
      swap
      · simp only [Int.add_sub_cancel]
        rcases plain.strict with before | before
        · exact .inl (before.append none)
        · exact .inr (by omega)
      intro index above below ofType
      by_cases before : index < search.l
      · exact plain.below index above before ofType
      · exact absurd ofType (none index (by omega) (by simp only at below; omega))
  | @below m last less =>
      rw [plain.address] at less
      have first := last.lower
      have final := last.upper
      refine .inl ⟨plain.address, plain.narrows.tail (.below order last less), ?_, plain.above,
        .inr (by simp only; omega)⟩
      intro index above below ofType
      simp only at below
      by_cases before : index < search.l
      · exact plain.below index above before ofType
      · rcases lt_trichotomy index m with earlier | rfl | later
        · exact (increasing index m above earlier (by omega) ofType last.ofType).trans less
        · exact less
        · exact absurd ofType (last.last index (by omega) (by omega))
  | @above m last greater =>
      rw [plain.address] at greater
      have first := last.lower
      have final := last.upper
      refine .inl ⟨plain.address, plain.narrows.tail (.above order last greater), plain.below,
        ?_, plain.strict⟩
      intro index above below ofType
      simp only at above
      by_cases same : index = m
      · rwa [same]
      · exact greater.trans (increasing m index (by omega) (by omega) below last.ofType ofType)
  | @exact m last equal =>
      rw [plain.address] at equal
      have first := last.lower
      have final := last.upper
      exact .inr ⟨m, ⟨search.l, plain.narrows, order, last, equal⟩, by omega, by omega, upper,
        search, rfl, plain.address, .refl⟩

theorem run_split (increasing : Increasing stabs type left right)
    {start final : StabSearch} (run : ReflTransGen (Turn stabs type) start final)
    (bracket : Bracket stabs type left right start)
    (plain : Plain stabs type left right addr start) :
    Bracket stabs type left right final ∧
      (Plain stabs type left right addr final ∨
        ∃ m r, Hit stabs type left right addr m r final) := by
  induction run with
  | refl => exact ⟨bracket, .inl plain⟩
  | tail run turn induction =>
      refine ⟨induction.1.step turn.1 turn.2, ?_⟩
      rcases induction.2 with still | ⟨m, r, hit⟩
      · rcases still.step increasing induction.1 turn.1 turn.2 with plain | ⟨m, hit⟩
        · exact .inl plain
        · exact .inr ⟨m, _, hit⟩
      · rcases hit.run with ⟨before, same, address, rest⟩
        exact .inr ⟨m, r, hit.meets, hit.lower, hit.upper, hit.within, before, same, address,
          rest.tail turn⟩

theorem narrows_deterministic : Relator.RightUnique (Narrows stabs type addr) := by
  intro range first second one two
  cases one with
  | nothing order none =>
      cases two with
      | nothing => rfl
      | below => rfl
      | above _ last => exact absurd last.ofType (none _ last.lower last.upper)
  | below order last less =>
      cases two with
      | nothing => rfl
      | below => rfl
      | above _ found greater =>
          rw [found.unique last] at greater
          omega
  | above order last greater =>
      cases two with
      | nothing _ none => exact absurd last.ofType (none _ last.lower last.upper)
      | below _ found less =>
          rw [found.unique last] at less
          omega
      | above _ found => rw [found.unique last]

theorem Narrows.order {l r : Int} {range : Int × Int}
    (narrows : Narrows stabs type addr (l, r) range) : l ≤ r := by
  cases narrows with
  | nothing order => exact order
  | below order => exact order
  | above order => exact order

/-- The bisection stops at an exact match. -/
theorem stuck {l r m : Int} {range : Int × Int}
    (last : LastOfType stabs type l ((l + r) / 2) m) (equal : value stabs m = addr.toNat) :
    ¬Narrows stabs type addr (l, r) range := by
  intro narrows
  cases narrows with
  | nothing order none => exact none m last.lower last.upper last.ofType
  | below order found less =>
      rw [found.unique last] at less
      omega
  | above order found greater =>
      rw [found.unique last] at greater
      omega

/-- A bisection that meets an exact match does not come to an empty range. -/
theorem Meets.not_plain {final : StabSearch} {m r : Int}
    (meets : Meets stabs type left right addr m r) (ends : final.r < final.l) :
    ¬Plain stabs type left right addr final := by
  intro plain
  rcases meets with ⟨l, narrows, order, last, equal⟩
  rcases ReflTransGen.total_of_right_unique narrows_deterministic narrows plain.narrows with
    rest | rest
  · rcases rest.cases_head with same | ⟨range, step, -⟩
    · rw [Prod.mk.injEq] at same
      omega
    · exact stuck last equal step
  · rcases rest.cases_head with same | ⟨range, step, -⟩
    · rw [Prod.mk.injEq] at same
      omega
    · have := step.order
      omega

/-- The bisection can meet only one exact match. -/
theorem Meets.unique {first second r other : Int}
    (one : Meets stabs type left right addr first r)
    (two : Meets stabs type left right addr second other) : first = second ∧ r = other := by
  rcases one with ⟨l, narrows, order, last, equal⟩
  rcases two with ⟨l', narrows', order', last', equal'⟩
  have same : (l, r) = (l', other) := by
    rcases ReflTransGen.total_of_right_unique narrows_deterministic narrows narrows' with
      rest | rest
    · rcases rest.cases_head with same | ⟨range, step, -⟩
      · exact same
      · exact absurd step (stuck last equal)
    · rcases rest.cases_head with same | ⟨range, step, -⟩
      · exact same.symm
      · exact absurd step (stuck last' equal')
  rw [Prod.mk.injEq] at same
  rcases same with ⟨rfl, rfl⟩
  exact ⟨last.unique last', rfl⟩

/-! ## The result -/

theorem rightmostStab_ok {regionLeft : Int} {count : Nat} (lower : left ≤ regionLeft)
    (upper : regionLeft + count ≤ right)
    (none : NoneOfType stabs type (regionLeft + 1) (regionLeft + count)) :
    rightmostStab (window stabs left right) type regionLeft count = .ok regionLeft := by
  induction count with
  | zero => rfl
  | succ count induction =>
      have read : readStab (window stabs left right) (regionLeft + (count + 1)) =
          .ok (stabs (regionLeft + (count + 1))) := readStab_window (by omega) (by omega)
      have other : ¬OfType stabs type (regionLeft + (count + 1)) :=
        none _ (by omega) (by omega)
      rw [rightmostStab, read]
      refine (if_pos other).trans (induction (by omega) fun index above below => ?_)
      exact none index above (by omega)

/-- The ways in which the search ends. -/
inductive Outcome (stabs : Int → Stab) (type left right : Int) (final : StabSearch) :
    Int × Int → Prop
  | empty (none : NoneOfType stabs type left right) :
      Outcome stabs type left right final (left, left - 1)
  | found (some : ¬NoneOfType stabs type left right)
      (last : LastOfType stabs type left final.r final.regionLeft) :
      Outcome stabs type left right final (final.regionLeft, final.r)
  | past (some : ¬NoneOfType stabs type left right)
      (beyond : final.regionLeft = final.r + 1) :
      Outcome stabs type left right final (final.r, final.r)
  | missing {regionLeft : Int} (some : ¬NoneOfType stabs type left right)
      (none : NoneOfType stabs type left final.r) (order : regionLeft ≤ final.r) :
      Outcome stabs type left right final (regionLeft, final.r)

theorem Bracket.none_left {search : StabSearch}
    (bracket : Bracket stabs type left right search) (ends : search.r < search.l)
    (unmatched : search.anyMatches = false) : NoneOfType stabs type left right := by
  have order := bracket.order
  rcases bracket.unmatched unmatched with ⟨none, last, -⟩
  intro index above below
  exact none index above (by omega)

theorem stabBinsearch_outcome {final : StabSearch}
    (bracket : Bracket stabs type left right final) (ends : final.r < final.l)
    (returned : stabLoop (window stabs left right) type (2 * (right + 1 - left).toNat + 2)
      ⟨left, right, false, addr, left, right⟩ = .ok final) :
    ∃ result, stabBinsearch (window stabs left right) type left right addr = .ok result ∧
      Outcome stabs type left right final result := by
  have order := bracket.order
  have upper := bracket.upper
  have last : final.l = final.r + 1 := by omega
  have region := bracket.region
  rw [last, Int.add_sub_cancel] at region
  unfold stabBinsearch
  rw [returned]
  simp only [bind, Except.bind, bracket.regionRight]
  cases matched : final.anyMatches with
  | false =>
      have none := bracket.none_left ends matched
      rw [(bracket.unmatched matched).2.2]
      exact ⟨_, if_pos rfl, .empty none⟩
  | true =>
      have some := bracket.matched matched
      rw [if_neg (by simp)]
      by_cases less : final.regionLeft < final.r
      · have count : final.regionLeft + (final.r - final.regionLeft).toNat = final.r := by omega
        have scanned : rightmostStab (window stabs left right) type final.regionLeft
            (final.r - final.regionLeft).toNat = .ok final.regionLeft := by
          refine rightmostStab_ok ?_ (by omega) ?_
          · rcases region with ⟨same, -⟩ | ⟨-, above, -⟩ <;> omega
          · rw [count]
            rcases region with ⟨same, none⟩ | ⟨-, -, -, none⟩
            · exact fun index above below => none index (by omega) below
            · exact none
        rw [if_pos less, scanned]
        refine ⟨_, rfl, ?_⟩
        rcases region with ⟨same, none⟩ | ⟨ofType, above, -, none⟩
        · exact .missing some none (by omega)
        · exact .found some ⟨none, ofType, above, by omega⟩
      · rw [if_neg less]
        refine ⟨_, rfl, ?_⟩
        rcases region with ⟨same, none⟩ | ⟨ofType, above, below, none⟩
        · exact .missing some none (le_refl _)
        · by_cases beyond : final.regionLeft = final.r + 1
          · exact .past some beyond
          · have same : final.regionLeft = final.r := by omega
            have found : Outcome stabs type left right final (final.regionLeft, final.r) :=
              .found some ⟨none, ofType, above, by omega⟩
            rwa [same] at found

/-! ## After the exact match -/

theorem value_le (increasing : Increasing stabs type left right) {first second : Int}
    (lower : left ≤ first) (upper : second ≤ right) (order : first ≤ second)
    (ofFirst : OfType stabs type first) (ofSecond : OfType stabs type second) :
    value stabs first ≤ value stabs second := by
  rcases Int.lt_or_eq_of_le order with less | rfl
  · exact (increasing first second lower less upper ofFirst ofSecond).le
  · exact le_refl _

/-- An address that has wrapped around is below all stabs from the first one on, so that
the range shrinks to nothing before it. -/
theorem wrapped_end {start final : StabSearch} {m : Int}
    (run : ReflTransGen (Turn stabs type) start final) (ends : final.r < final.l)
    (first : start.l = m) (region : start.regionLeft = m) (order : m ≤ start.r)
    (ofType : OfType stabs type m)
    (small : ∀ index, m ≤ index → index ≤ start.r → OfType stabs type index →
      start.addr.toNat < value stabs index) :
    final.r = m - 1 ∧ final.regionLeft = m := by
  have kept := run_keeps (fun search => search.l = m ∧ search.regionLeft = m ∧
    search.addr = start.addr ∧ m - 1 ≤ search.r ∧ search.r ≤ start.r) run
    ⟨first, region, rfl, by omega, le_refl _⟩ ?_
  · exact ⟨by omega, kept.2.1⟩
  · rintro search next ⟨atFirst, atRegion, address, above, below⟩ turn step
    have greater : ∀ index, LastOfType stabs type search.l ((search.l + search.r) / 2) index →
        search.addr.toNat < value stabs index := by
      intro index last
      have lower := last.lower
      have upper := last.upper
      rw [address]
      exact small index (by omega) (by omega) last.ofType
    cases step with
    | nothing none => exact absurd ofType (none m (by omega) (by omega))
    | below last less => exact absurd less (by have := greater _ last; omega)
    | above last _ =>
        have lower := last.lower
        have upper := last.upper
        exact ⟨atFirst, atRegion, address, by simp only; omega, by simp only; omega⟩
    | exact last equal => exact absurd equal (by have := greater _ last; omega)

/-- With nothing within the next word the region of the match stays. -/
theorem apart_end {start final : StabSearch} {m : Int}
    (run : ReflTransGen (Turn stabs type) start final)
    (first : start.l = m) (region : start.regionLeft = m) (order : m ≤ start.r)
    (less : value stabs m < start.addr.toNat)
    (apart : ∀ index, m < index → index ≤ start.r → OfType stabs type index →
      start.addr.toNat < value stabs index) :
    m ≤ final.r ∧ final.regionLeft = m := by
  have kept := run_keeps (fun search => m ≤ search.l ∧ search.regionLeft = m ∧
    search.addr = start.addr ∧ m ≤ search.r ∧ search.r ≤ start.r) run
    ⟨by omega, region, rfl, order, le_refl _⟩ ?_
  · exact ⟨kept.2.2.2.1, kept.2.1⟩
  · rintro search next ⟨atFirst, atRegion, address, above, below⟩ turn step
    have own : ∀ index, LastOfType stabs type search.l ((search.l + search.r) / 2) index →
        m < index → search.addr.toNat < value stabs index := by
      intro index last later
      have upper := last.upper
      rw [address]
      exact apart index later (by omega) last.ofType
    cases step with
    | nothing none => exact ⟨by simp only; omega, atRegion, address, above, below⟩
    | @below index last smaller =>
        have lower := last.lower
        have same : index = m := by
          by_contra different
          have := own index last (by omega)
          omega
        exact ⟨by simp only; omega, same, address, above, below⟩
    | @above index last greater =>
        have lower := last.lower
        have upper := last.upper
        have different : index ≠ m := by
          rintro rfl
          rw [address] at greater
          omega
        exact ⟨atFirst, atRegion, address, by simp only; omega, by simp only; omega⟩
    | @exact index last equal =>
        have lower := last.lower
        by_cases same : index = m
        · rw [same, address] at equal
          omega
        · have := own index last (by omega)
          omega

/-- A stab below the new address is never cut off. -/
theorem below_end {start final : StabSearch} {n : Int}
    (run : ReflTransGen (Turn stabs type) start final)
    (within : n ≤ start.r) (less : start.l ≤ n → value stabs n < start.addr.toNat)
    (smaller : ∀ index, start.l ≤ index → index ≤ n → OfType stabs type index →
      value stabs index ≤ value stabs n) : n ≤ final.r := by
  have kept := run_keeps (fun search => start.l ≤ search.l ∧ n ≤ search.r ∧
    (search.l ≤ n → value stabs n < search.addr.toNat)) run ⟨le_refl _, within, less⟩ ?_
  · exact kept.2.1
  · rintro search next ⟨later, inside, below⟩ turn step
    cases step with
    | nothing none => exact ⟨by simp only; omega, inside, fun before => below (by
        simp only at before; omega)⟩
    | below last _ => exact ⟨by simp only; omega, inside, fun before => below (by
        simp only at before; omega)⟩
    | @above index last greater =>
        have lower := last.lower
        refine ⟨later, ?_, below⟩
        by_contra cut
        simp only at cut
        have := smaller index (by omega) (by omega) last.ofType
        have := below (by omega)
        omega
    | @exact index last equal =>
        have lower := last.lower
        refine ⟨by simp only; omega, inside, fun before => ?_⟩
        simp only at before
        have := smaller index (by omega) before last.ofType
        have := below (by omega)
        omega

/-- A stab at the new address itself is matched next. -/
theorem second_hit {start final : StabSearch} {n : Int}
    (run : ReflTransGen (Turn stabs type) start final) (ends : final.r < final.l)
    (before : start.l ≤ n) (within : n ≤ start.r) (ofType : OfType stabs type n)
    (equal : value stabs n = start.addr.toNat)
    (increasing : Increasing stabs type start.l start.r) :
    ∃ search : StabSearch, search.addr = start.addr ∧ n ≤ search.r ∧ search.r ≤ start.r ∧
      ReflTransGen (Turn stabs type) (hit search n) final := by
  have split : (final.addr = start.addr ∧ start.l ≤ final.l ∧ final.l ≤ n ∧ n ≤ final.r ∧
      final.r ≤ start.r) ∨
      ∃ search : StabSearch, search.addr = start.addr ∧ n ≤ search.r ∧ search.r ≤ start.r ∧
        ReflTransGen (Turn stabs type) (hit search n) final := by
    clear ends
    induction run with
    | refl => exact .inl ⟨rfl, le_refl _, before, within, le_refl _⟩
    | @tail search next run turn induction =>
        rcases induction with ⟨address, later, first, inside, bound⟩ |
          ⟨found, address, inside, bound, rest⟩
        swap
        · exact .inr ⟨found, address, inside, bound, rest.tail turn⟩
        have step := turn.2
        cases step with
        | nothing none =>
            have beyond : (search.l + search.r) / 2 < n := by
              by_contra reached
              exact none n first (by omega) ofType
            exact .inl ⟨address, by simp only; omega, by simp only; omega, inside, bound⟩
        | @below m last less =>
            have lower := last.lower
            have upper := last.upper
            have earlier : m < n := by
              by_contra reached
              rw [address, ← equal] at less
              have := value_le increasing before (by omega) (by omega) ofType last.ofType
              omega
            have beyond : (search.l + search.r) / 2 < n := by
              by_contra reached
              exact last.last n (by omega) (by omega) ofType
            exact .inl ⟨address, by simp only; omega, by simp only; omega, inside, bound⟩
        | @above m last greater =>
            have lower := last.lower
            have upper := last.upper
            have after : n < m := by
              by_contra reached
              rw [address, ← equal] at greater
              have := value_le increasing (by omega) within (by omega) last.ofType ofType
              omega
            exact .inl ⟨address, later, first, by simp only; omega, by simp only; omega⟩
        | @exact m last same =>
            have lower := last.lower
            have upper := last.upper
            rw [address, ← equal] at same
            have here : m = n := by
              rcases lt_trichotomy m n with earlier | here | after
              · have := increasing m n (by omega) earlier within last.ofType ofType
                omega
              · exact here
              · have := increasing n m before after (by omega) ofType last.ofType
                omega
            subst here
            exact .inr ⟨search, address, inside, bound, .refl⟩
  rcases split with ⟨-, -, first, inside, -⟩ | found
  · omega
  · exact found

section Ends

variable {final : StabSearch} {m r : Int}

theorem Hit.ofType (hit : Hit stabs type left right addr m r final) :
    OfType stabs type m ∧ value stabs m = addr.toNat := by
  rcases hit.meets with ⟨l, narrows, order, last, equal⟩
  exact ⟨last.ofType, equal⟩

theorem hit_toNat {before : StabSearch} (same : before.addr = addr)
    (room : addr.toNat + 4 < 2 ^ 32) : (hit before m).addr.toNat = addr.toNat + 4 := by
  change (before.addr + 4).toNat = _
  rw [addr_add_four, same, Nat.mod_eq_of_lt room]

theorem hit_toNat_wrapped {before : StabSearch} (same : before.addr = addr)
    (full : 2 ^ 32 ≤ addr.toNat + 4) : (hit before m).addr.toNat < 4 := by
  have bound := addr.isLt
  change (before.addr + 4).toNat < 4
  rw [addr_add_four, same]
  omega

/-- The exact match at the end of the address space is lost. -/
theorem Hit.wrapped (increasing : Increasing stabs type left right)
    (hit : Hit stabs type left right addr m r final) (ends : final.r < final.l)
    (full : 2 ^ 32 ≤ addr.toNat + 4) : final.r = m - 1 ∧ final.regionLeft = m := by
  have within := hit.within
  have upper := hit.upper
  rcases hit.ofType with ⟨ofType, equal⟩
  rcases hit.run with ⟨before, same, address, run⟩
  rw [← same] at within upper
  refine wrapped_end run ends rfl rfl upper ofType fun index above below found => ?_
  have small := hit_toNat_wrapped (m := m) address full
  have := value_le increasing hit.lower (by
    change index ≤ before.r at below
    omega) above ofType found
  omega

/-- A stab a word after the match is matched too. -/
theorem Hit.second (increasing : Increasing stabs type left right)
    (hit : Hit stabs type left right addr m r final) (ends : final.r < final.l)
    (room : addr.toNat + 4 < 2 ^ 32) {n : Int} (after : m < n) (inside : n ≤ r)
    (ofType : OfType stabs type n) (equal : value stabs n = addr.toNat + 4) :
    ∃ search : StabSearch, search.addr = addr + 4 ∧ n ≤ search.r ∧ search.r ≤ r ∧
      ReflTransGen (Turn stabs type) (StabSearch.hit search n) final := by
  have lower := hit.lower
  have within := hit.within
  rcases hit.run with ⟨before, same, address, run⟩
  have rising : Increasing stabs type (StabSearch.hit before m).l (StabSearch.hit before m).r := by
    intro first second above less below
    simp only [StabSearch.hit] at above below
    exact increasing first second (by omega) less (by omega)
  rcases second_hit run ends (by simp only [StabSearch.hit]; omega)
    (by simp only [StabSearch.hit]; omega) ofType (by rw [hit_toNat address room, equal])
    rising with ⟨search, found, above, below, rest⟩
  exact ⟨search, by rw [found, StabSearch.hit, address], above, same ▸ below, rest⟩

theorem Hit.second_wrapped (increasing : Increasing stabs type left right)
    (hit : Hit stabs type left right addr m r final) (ends : final.r < final.l)
    (room : addr.toNat + 4 < 2 ^ 32) (full : 2 ^ 32 ≤ addr.toNat + 8) {n : Int}
    (after : m < n) (inside : n ≤ r) (ofType : OfType stabs type n)
    (equal : value stabs n = addr.toNat + 4) :
    final.r = n - 1 ∧ final.regionLeft = n := by
  have lower := hit.lower
  have within := hit.within
  rcases hit.second increasing ends room after inside ofType equal with
    ⟨search, address, above, below, run⟩
  have next : (addr + 4).toNat = addr.toNat + 4 := by
    rw [addr_add_four, Nat.mod_eq_of_lt room]
  refine wrapped_end run ends rfl rfl above ofType fun index first last found => ?_
  have small := hit_toNat_wrapped (m := n) address (by omega)
  have := value_le increasing (by omega) (by
    change index ≤ search.r at last
    omega) first ofType found
  omega

/-- A stab within the next word that is still in the range stays there. -/
theorem Hit.near (increasing : Increasing stabs type left right)
    (hit : Hit stabs type left right addr m r final) (ends : final.r < final.l)
    (room : addr.toNat + 4 < 2 ^ 32) {n : Int} (after : m < n) (inside : n ≤ r)
    (ofType : OfType stabs type n) (near : value stabs n ≤ addr.toNat + 4)
    (free : value stabs n = addr.toNat + 4 → addr.toNat + 8 < 2 ^ 32) : n ≤ final.r := by
  have lower := hit.lower
  have within := hit.within
  by_cases equal : value stabs n = addr.toNat + 4
  · rcases hit.second increasing ends room after inside ofType equal with
      ⟨search, address, above, below, run⟩
    have next : (addr + 4).toNat = addr.toNat + 4 := by
      rw [addr_add_four, Nat.mod_eq_of_lt room]
    have bound := free equal
    refine below_end run above (fun _ => ?_) fun index first last found => ?_
    · rw [hit_toNat address (by omega)]
      omega
    · have same : index = n := by
        change n ≤ index at first
        omega
      rw [same]
  · rcases hit.run with ⟨before, same, address, run⟩
    refine below_end run (by simp only [StabSearch.hit]; omega) (fun _ => ?_)
      fun index first last found => ?_
    · rw [hit_toNat address room]
      omega
    · change m ≤ index at first
      exact value_le increasing (by omega) (by omega) last found ofType

end Ends

/-! ## The search as a whole -/

/-- The search returns, and what it returns is known from its last range. -/
theorem search_ends (increasing : Increasing stabs type left right) (order : left ≤ right + 1)
    (addr : Word) :
    ∃ final result, stabBinsearch (window stabs left right) type left right addr = .ok result ∧
      Outcome stabs type left right final result ∧ final.r < final.l ∧
      Bracket stabs type left right final ∧
      (Plain stabs type left right addr final ∨
        ∃ m r, Hit stabs type left right addr m r final) := by
  have looped : ∃ final, stabLoop (window stabs left right) type
      (2 * (right + 1 - left).toNat + 2) ⟨left, right, false, addr, left, right⟩ = .ok final ∧
      ReflTransGen (Turn stabs type) ⟨left, right, false, addr, left, right⟩ final ∧
      final.r < final.l := stabLoop_ok (le_refl _) (le_refl _) (.inl (le_refl _))
  rcases looped with ⟨final, returned, run, ends⟩
  have none : NoneOfType stabs type left (left - 1) := by
    intro index above below
    omega
  have begins : Bracket stabs type left right ⟨left, right, false, addr, left, right⟩ :=
    ⟨le_refl _, le_refl _, order, rfl, .inl rfl, .inl ⟨rfl, none⟩, nofun,
      fun _ => ⟨none, rfl, rfl⟩⟩
  have plain : Plain stabs type left right addr ⟨left, right, false, addr, left, right⟩ := by
    refine ⟨rfl, .refl, fun index above below => ?_, fun index above below => ?_, .inl none⟩
    · simp only at below
      omega
    · simp only at above
      omega
  rcases run_split increasing run begins plain with ⟨bracket, split⟩
  rcases stabBinsearch_outcome bracket ends returned with ⟨result, found, outcome⟩
  exact ⟨final, result, found, outcome, ends, bracket, split⟩

/-- The stab at the address itself contains it. -/
theorem containing_of_equal (increasing : Increasing stabs type left right) {m : Int}
    (lower : left ≤ m) (upper : m ≤ right) (ofType : OfType stabs type m)
    (equal : value stabs m = addr.toNat) : Containing stabs type left right addr m :=
  ⟨lower, upper, ofType, equal.le, fun other after below found =>
    equal ▸ increasing m other lower after below ofType found⟩

theorem Containing.unique {first second : Int}
    (one : Containing stabs type left right addr first)
    (two : Containing stabs type left right addr second) : first = second := by
  by_contra different
  rcases lt_or_gt_of_ne different with less | greater
  · have above := one.above second less two.upper two.ofType
    have atMost := two.atMost
    omega
  · have above := two.above first greater one.upper one.ofType
    have atMost := one.atMost
    omega

theorem Bracket.beforeNext {final : StabSearch}
    (bracket : Bracket stabs type left right final) {m : Int} (order : m ≤ final.r)
    (none : NoneOfType stabs type (m + 1) final.r) : BeforeNext stabs type right m final.r :=
  ⟨order, none, bracket.next⟩

theorem Plain.finds {final : StabSearch} {result : Int × Int}
    (plain : Plain stabs type left right addr final)
    (bracket : Bracket stabs type left right final) (last : final.l = final.r + 1)
    (outcome : Outcome stabs type left right final result)
    (has : HasContaining stabs type left right addr) :
    Containing stabs type left right addr result.1 ∧
      BeforeNext stabs type right result.1 result.2 := by
  have upper := bracket.upper
  rcases has with ⟨index, above, below, ofType, atMost⟩
  have inside : index ≤ final.r := by
    by_contra beyond
    have := plain.above index (by omega) below ofType
    omega
  cases outcome with
  | empty none => exact absurd ofType (none index above below)
  | found some found =>
      have lower := found.lower
      have within := found.upper
      refine ⟨⟨lower, by simp only; omega, found.ofType, ?_, fun other after inside isType => ?_⟩,
        bracket.beforeNext within found.last⟩
      · exact (plain.below _ lower (by omega) found.ofType).le
      · by_cases before : other ≤ final.r
        · exact absurd isType (found.last other (by simp only at after; omega) before)
        · exact plain.above other (by omega) inside isType
  | past some beyond =>
      rcases plain.strict with none | strict
      · exact absurd ofType (none index above (by omega))
      · omega
  | missing some none order => exact absurd ofType (none index above inside)

theorem Hit.finds (increasing : Increasing stabs type left right) {final : StabSearch}
    {result : Int × Int} {m r : Int} (hit : Hit stabs type left right addr m r final)
    (ends : final.r < final.l) (bracket : Bracket stabs type left right final)
    (outcome : Outcome stabs type left right final result)
    (apart : Apart stabs type addr m r) :
    Containing stabs type left right addr result.1 ∧
      BeforeNext stabs type right result.1 result.2 := by
  have lower := hit.lower
  have upper := hit.upper
  have within := hit.within
  rcases hit.ofType with ⟨ofType, equal⟩
  have own := containing_of_equal increasing lower (by omega) ofType equal
  rcases apart with ⟨room, free⟩ | ⟨room, full, inside, ofNext, next⟩
  · have stays : m ≤ final.r ∧ final.regionLeft = m := by
      rcases hit.run with ⟨before, same, address, run⟩
      refine apart_end run rfl rfl (by rw [← same] at upper; exact upper) ?_ ?_
      · rw [hit_toNat address room]
        omega
      · intro index after below found
        rw [hit_toNat address room]
        exact free index after (same ▸ below) found
    cases outcome with
    | empty none => exact absurd ofType (none m lower (by omega))
    | found some found =>
        refine ⟨?_, bracket.beforeNext found.upper found.last⟩
        simpa only [stays.2] using own
    | past some beyond => omega
    | missing some none order => exact absurd ofType (none m lower stays.1)
  · rcases hit.second_wrapped increasing ends room full (by omega) inside ofNext next with
      ⟨range, region⟩
    have here : final.r = m := by omega
    cases outcome with
    | empty none => exact absurd ofType (none m lower (by omega))
    | found some found =>
        have := found.upper
        omega
    | past some beyond =>
        refine ⟨?_, bracket.beforeNext (le_refl _) fun index above below => ?_⟩
        · simpa only [here] using own
        · omega
    | missing some none order => exact absurd ofType (none m lower here.ge)

theorem Fits.finds (increasing : Increasing stabs type left right) (order : left ≤ right + 1)
    (fits : Fits stabs type left right addr) : Finds stabs type left right addr := by
  rcases search_ends increasing order addr with
    ⟨final, result, returned, outcome, ends, bracket, split⟩
  have last : final.l = final.r + 1 := by
    have := bracket.order
    omega
  refine ⟨result.1, result.2, returned, ?_⟩
  rcases fits with none | ⟨has, apart⟩
  · have lacks : ¬HasContaining stabs type left right addr := by
      rintro ⟨index, above, below, ofType, -⟩
      exact none index above below ofType
    refine ⟨fun has => absurd has lacks, fun _ => ?_⟩
    cases outcome with
    | empty => simp only; omega
    | found some | past some | missing some => exact absurd none some
  · refine ⟨fun _ => ?_, fun lacks => absurd has lacks⟩
    rcases split with plain | ⟨m, r, hit⟩
    · exact plain.finds bracket last outcome has
    · exact hit.finds increasing ends bracket outcome (apart m r hit.meets)

/-- Without a containing stab the region is never empty, unless there is no stab of the
type at all. -/
theorem Finds.hasContaining (increasing : Increasing stabs type left right)
    (order : left ≤ right + 1) (finds : Finds stabs type left right addr)
    (some : ¬NoneOfType stabs type left right) : HasContaining stabs type left right addr := by
  by_contra lacks
  rcases search_ends increasing order addr with
    ⟨final, result, returned, outcome, ends, bracket, split⟩
  rcases finds with ⟨regionLeft, regionRight, found, -, empty⟩
  rw [returned, Except.ok.injEq] at found
  subst found
  have reversed := empty lacks
  cases outcome with
  | empty none => exact some none
  | found some last =>
      have := last.upper
      omega
  | past some beyond => omega
  | missing some none order => omega

/-- A stab near the matching one hides it. -/
theorem Finds.apart (increasing : Increasing stabs type left right) (order : left ≤ right + 1)
    (finds : Finds stabs type left right addr) {m r : Int}
    (meets : Meets stabs type left right addr m r) : Apart stabs type addr m r := by
  rcases search_ends increasing order addr with
    ⟨final, result, returned, outcome, ends, bracket, split⟩
  rcases split with plain | ⟨other, range, hit⟩
  · exact absurd plain (meets.not_plain ends)
  rcases meets.unique hit.meets with ⟨rfl, rfl⟩
  have lower := hit.lower
  have upper := hit.upper
  have within := hit.within
  rcases hit.ofType with ⟨ofType, equal⟩
  have own := containing_of_equal increasing lower (by omega) ofType equal
  rcases finds with ⟨regionLeft, regionRight, found, region, -⟩
  rw [returned, Except.ok.injEq] at found
  subst found
  rcases region ⟨m, lower, by omega, ofType, equal.le⟩ with ⟨containing, before⟩
  rw [containing.unique own] at before
  -- Whatever the outcome, the right end of the region is the end of the last range.
  have atEnd : regionRight = final.r ∧ (final.regionLeft = final.r + 1 → regionLeft = final.r) := by
    cases outcome with
    | empty none => exact absurd ofType (none m lower (by omega))
    | found some last => exact ⟨rfl, fun beyond => by have := last.upper; omega⟩
    | past some beyond => exact ⟨rfl, fun _ => rfl⟩
    | missing some none last => exact absurd ofType (none m lower before.1)
  rw [atEnd.1] at before
  have stays := before.1
  by_contra close
  by_cases room : addr.toNat + 4 < 2 ^ 32
  swap
  · have := (hit.wrapped increasing ends (Nat.le_of_not_lt room)).1
    omega
  have some : ∃ n, m < n ∧ n ≤ r ∧ OfType stabs type n ∧ value stabs n ≤ addr.toNat + 4 := by
    by_contra free
    refine close (.inl ⟨room, fun n after inside found => ?_⟩)
    by_contra near
    exact free ⟨n, after, inside, found, Nat.le_of_not_lt near⟩
  rcases some with ⟨n, after, inside, found, near⟩
  by_cases second : value stabs n = addr.toNat + 4 ∧ 2 ^ 32 ≤ addr.toNat + 8
  · rcases hit.second_wrapped increasing ends room second.2 after inside found second.1 with
      ⟨last, here⟩
    have same := atEnd.2 (by omega)
    rw [containing.unique own] at same
    have adjacent : n = m + 1 := by omega
    subst adjacent
    exact close (.inr ⟨room, second.2, inside, found, second.1⟩)
  · have kept := hit.near increasing ends room after inside found near
      fun equal => Nat.lt_of_not_le fun full => second ⟨equal, full⟩
    exact before.2.1 n (by omega) kept found

end Search

/-! ## Two stabs -/

/-- Two stabs of functions that are `distance` bytes apart. -/
def twoStabs (distance : Word) (index : Int) : Stab :=
  if index = 0 then ⟨0x24, 0xF0100176⟩ else ⟨0x24, 0xF0100176 + distance⟩

theorem two_increasing {distance : Word}
    (less : (0xF0100176 : Word).toNat < (0xF0100176 + distance).toNat) :
    Increasing (twoStabs distance) 0x24 0 1 := by
  intro first second above order below _ _
  have isFirst : first = 0 := by omega
  have isSecond : second = 1 := by omega
  rw [isFirst, isSecond]
  exact less

end FosKernel.StabSearch
