import Mathlib.Data.List.Nodup
import Mathlib.Logic.Function.Basic

/-! # Intrusive doubly linked sequences

Elements of a type `ι` carry their own link pair, so that several lists share
one table of links. A null pointer is `none`. `Linked` relates the pointers to
the duplicate-free sequence they spell out, and the rules below say how the
sequence changes when an element is put in front, put at the end or unlinked.
-/

namespace FosKernel.LinkedList

@[ext] structure Link (ι : Type) where
  next : Option ι
  prev : Option ι
  deriving DecidableEq

/-- The links of an element that is in no list. -/
@[reducible] def Link.null : Link ι := ⟨none, none⟩

/-- The links along `values` follow the order of `values` in both directions. -/
def Linked (links : ι → Link ι) (values : List ι) : Prop :=
  ∀ (index : Nat) (value : ι), values[index]? = some value →
    (links value).next = values[index + 1]? ∧
    (links value).prev = if index = 0 then none else values[index - 1]?

/-- A value has only one position in a duplicate-free list. -/
theorem position_unique {values : List ι} {left right : Nat} {value : ι}
    (nodup : values.Nodup) (atLeft : values[left]? = some value)
    (atRight : values[right]? = some value) : left = right := by
  rcases List.getElem?_eq_some_iff.mp atLeft with ⟨leftBound, leftEqual⟩
  rcases List.getElem?_eq_some_iff.mp atRight with ⟨rightBound, rightEqual⟩
  exact (nodup.getElem_inj_iff).mp (leftEqual.trans rightEqual.symm)

theorem Linked.nil (links : ι → Link ι) : Linked links [] := by
  intro index value found
  simp at found

/-- Frame rule: links of elements outside the sequence do not matter. -/
theorem Linked.congr {before after : ι → Link ι} {values : List ι}
    (linked : Linked before values)
    (equal : ∀ value ∈ values, after value = before value) :
    Linked after values := by
  intro index value found
  rw [equal value (List.mem_of_getElem? found)]
  exact linked index value found

/-- Put `value` in front of the sequence. -/
theorem Linked.cons {before after : ι → Link ι} {value : ι} {values : List ι}
    (linked : Linked before values) (nodup : values.Nodup)
    (own : after value = ⟨values[0]?, none⟩)
    (first : ∀ head, values[0]? = some head →
      after head = { before head with prev := some value })
    (others : ∀ other ∈ values, values[0]? ≠ some other →
      after other = before other) :
    Linked after (value :: values) := by
  intro index other found
  cases index with
  | zero =>
      simp only [List.getElem?_cons_zero, Option.some.injEq] at found
      subst other
      simp [own]
  | succ index =>
      simp only [List.getElem?_cons_succ] at found
      have previous := linked index other found
      by_cases isFirst : values[0]? = some other
      · have indexZero := position_unique nodup found isFirst
        subst index
        simp [first other isFirst, previous.1]
      · have indexPositive : index ≠ 0 := by
          intro zero
          exact isFirst (zero ▸ found)
        rw [others other (List.mem_of_getElem? found) isFirst]
        grind

/-- Put `value` behind the sequence. -/
theorem Linked.concat {before after : ι → Link ι} {value : ι} {values : List ι}
    (linked : Linked before values) (nodup : values.Nodup)
    (own : after value = ⟨none, values.getLast?⟩)
    (last : ∀ tail, values.getLast? = some tail →
      after tail = { before tail with next := some value })
    (others : ∀ other ∈ values, values.getLast? ≠ some other →
      after other = before other) :
    Linked after (values ++ [value]) := by
  rw [List.getLast?_eq_getElem?] at own last others
  intro index other found
  by_cases within : index < values.length
  · rw [List.getElem?_append_left within] at found
    have previous := linked index other found
    by_cases isLast : values[values.length - 1]? = some other
    · have indexLast := position_unique nodup found isLast
      rw [last other isLast]
      grind
    · have notLast : index ≠ values.length - 1 := by
        intro equal
        exact isLast (equal ▸ found)
      rw [others other (List.mem_of_getElem? found) isLast]
      grind
  · have atEnd : index = values.length := by grind
    have isNew : value = other := by grind
    subst isNew
    rw [own]
    grind

/-- Put the second sequence behind the first one. -/
theorem Linked.append {before after : ι → Link ι} {left right : List ι}
    (leftLinked : Linked before left) (rightLinked : Linked before right)
    (nodup : (left ++ right).Nodup)
    (last : ∀ tail, left.getLast? = some tail →
      after tail = { before tail with next := right[0]? })
    (first : ∀ head, right[0]? = some head →
      after head = { before head with prev := left.getLast? })
    (others : ∀ other ∈ left ++ right, left.getLast? ≠ some other → right[0]? ≠ some other →
      after other = before other) :
    Linked after (left ++ right) := by
  have apart := List.nodup_append.mp nodup
  rw [List.getLast?_eq_getElem?] at last first others
  intro index other found
  by_cases within : index < left.length
  · rw [List.getElem?_append_left within] at found
    have member : other ∈ left := List.mem_of_getElem? found
    have notFirst : right[0]? ≠ some other := fun isFirst =>
      apart.2.2 other member other (List.mem_of_getElem? isFirst) rfl
    have previous := leftLinked index other found
    by_cases isLast : left[left.length - 1]? = some other
    · have indexLast := position_unique apart.1 found isLast
      rw [last other isLast]
      grind
    · have notLast : index ≠ left.length - 1 := by
        intro equal
        exact isLast (equal ▸ found)
      rw [others other (List.mem_append_left _ member) isLast notFirst]
      grind
  · rw [List.getElem?_append_right (Nat.le_of_not_lt within)] at found
    have member : other ∈ right := List.mem_of_getElem? found
    have notLast : left[left.length - 1]? ≠ some other := fun isLast =>
      apart.2.2 other (List.mem_of_getElem? isLast) other member rfl
    have previous := rightLinked (index - left.length) other found
    by_cases isFirst : right[0]? = some other
    · have indexFirst := position_unique apart.2.1 found isFirst
      rw [first other isFirst]
      grind
    · have notFirst : index - left.length ≠ 0 := by
        intro equal
        exact isFirst (equal ▸ found)
      rw [others other (List.mem_append_right _ member) notLast isFirst]
      grind

/-- Unlink the element at `position` by joining its two neighbours. -/
theorem Linked.eraseIdx {after : ι → Link ι} {values : List ι} {position : Nat}
    (nextJoined : ∀ index other, values[index]? = some other → index ≠ position →
      (after other).next =
        if index + 1 = position then values[position + 1]? else values[index + 1]?)
    (prevJoined : ∀ index other, values[index]? = some other → index ≠ position →
      (after other).prev =
        if index = 0 then none
        else if index = position + 1 then
          (if position = 0 then none else values[position - 1]?)
        else values[index - 1]?) :
    Linked after (values.eraseIdx position) := by
  intro index other found
  rw [List.getElem?_eraseIdx] at found
  rw [List.getElem?_eraseIdx, List.getElem?_eraseIdx]
  by_cases below : index < position
  · rw [if_pos below] at found
    have different : index ≠ position := by omega
    have next := nextJoined index other found different
    have prev := prevJoined index other found different
    grind
  · rw [if_neg below] at found
    have different : index + 1 ≠ position := by omega
    have next := nextJoined (index + 1) other found different
    have prev := prevJoined (index + 1) other found different
    grind

/-- Put `value` at `position` between its two new neighbours. -/
theorem Linked.insertIdx {after : ι → Link ι} {values : List ι} {position : Nat} {value : ι}
    (bound : position ≤ values.length)
    (own : after value =
      ⟨values[position]?, if position = 0 then none else values[position - 1]?⟩)
    (nextJoined : ∀ index other, values[index]? = some other →
      (after other).next =
        if index + 1 = position then some value else values[index + 1]?)
    (prevJoined : ∀ index other, values[index]? = some other →
      (after other).prev =
        if index = position then some value
        else if index = 0 then none else values[index - 1]?) :
    Linked after (values.insertIdx position value) := by
  intro index other found
  rw [List.getElem?_insertIdx] at found
  rw [List.getElem?_insertIdx, List.getElem?_insertIdx]
  rcases Nat.lt_trichotomy index position with below | same | above
  · rw [if_pos below] at found
    have next := nextJoined index other found
    have prev := prevJoined index other found
    grind
  · subst same
    have isNew : value = other := by grind
    subst isNew
    rw [own]
    grind
  · have earlier : values[index - 1]? = some other := by grind
    have next := nextJoined (index - 1) other earlier
    have prev := prevJoined (index - 1) other earlier
    grind

end FosKernel.LinkedList
