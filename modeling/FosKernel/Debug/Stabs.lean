import FosKernel.Memory.Layout

/-! # The table of stabs

`stab_binsearch` of `kern/kdebug.c`. The table is read through a partial function:
reading an index at which it has no stab fails. Indices are not negative and two of them
add up to an `int`, so that the midpoint needs no machine arithmetic. Addresses are
pointers to words: `addr++` adds 4 to them.
-/

namespace FosKernel

/-- `struct Stab`, as far as the search reads it. -/
structure Stab where
  nType : BitVec 8
  nValue : Word

inductive StabFault
  | outside | endless
  deriving DecidableEq

/-- The variables of `stab_binsearch`. -/
structure StabSearch where
  l : Int
  r : Int
  anyMatches : Bool
  addr : Word
  regionLeft : Int
  regionRight : Int

section Search

variable (stabs : Int → Option Stab) (type : Int)

def readStab (index : Int) : Except StabFault Stab :=
  match stabs index with
  | none => throw .outside
  | some stab => return stab

/-- The inner loop over the `count` stabs from `l` on, from the last one down. Without a
stab of the type it ends before `l`. -/
def earliestStab (l : Int) : Nat → Except StabFault Int
  | 0 => return l - 1
  | count + 1 => do
      let stab ← readStab stabs (l + count)
      if (stab.nType.toNat : Int) ≠ type then earliestStab l count
      else return l + count

/-- One iteration of the loop. -/
def stabStep (search : StabSearch) : Except StabFault StabSearch := do
  let trueM := (search.l + search.r) / 2
  let m ← earliestStab stabs type search.l (trueM + 1 - search.l).toNat
  if m < search.l then return { search with l := trueM + 1 }
  else
    let stab ← readStab stabs m
    let search := { search with anyMatches := true }
    if stab.nValue < search.addr then return { search with regionLeft := m, l := trueM + 1 }
    else if search.addr < stab.nValue then
      return { search with regionRight := m - 1, r := m - 1 }
    else return { search with regionLeft := m, l := m, addr := search.addr + 4 }

def stabLoop : Nat → StabSearch → Except StabFault StabSearch
  | 0, _ => throw .endless
  | fuel + 1, search =>
      if search.l ≤ search.r then do
        let next ← stabStep stabs type search
        stabLoop fuel next
      else return search

/-- The last loop, at the stab `count` places to the right of `*region_left`. -/
def rightmostStab (regionLeft : Int) : Nat → Except StabFault Int
  | 0 => return regionLeft
  | count + 1 => do
      let stab ← readStab stabs (regionLeft + (count + 1))
      if (stab.nType.toNat : Int) ≠ type then rightmostStab regionLeft count
      else return regionLeft + (count + 1)

/-- The values of `*region_left` and `*region_right` after `stab_binsearch`. -/
def stabBinsearch (left right : Int) (addr : Word) : Except StabFault (Int × Int) := do
  let search ← stabLoop stabs type (2 * (right + 1 - left).toNat + 2)
    ⟨left, right, false, addr, left, right⟩
  if search.anyMatches = false then return (search.regionLeft, search.regionLeft - 1)
  else if search.regionLeft < search.regionRight then
    let l ← rightmostStab stabs type search.regionLeft
      (search.regionRight - search.regionLeft).toNat
    return (l, search.regionRight)
  else return (search.regionRight, search.regionRight)

end Search

end FosKernel
