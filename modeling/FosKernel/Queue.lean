import FosKernel.Foundation.LinkedList
import Mathlib.Algebra.Group.Nat.Defs

/-! # The list macros of `inc/queue.h`

A list head and the link table of its elements are updated statement by
statement, in the order of the macro bodies. `Represents` says that a head and
its links spell out a given sequence; each macro is then one operation on that
sequence, and leaves every disjoint list alone.
-/

namespace FosKernel

open LinkedList

/-- `LIST_HEAD`: `ptrNext` is the scratch field `___ptr_next` of `LIST_FOREACH`. -/
structure ListHead (ι : Type) where
  first : Option ι
  last : Option ι
  ptrNext : Option ι
  size : Nat
  deriving DecidableEq

/-- A list head together with the links of all elements. -/
@[ext] structure ListState (ι : Type) where
  links : ι → Link ι
  head : ListHead ι

namespace ListState

variable [DecidableEq ι]

def setNext (state : ListState ι) (element : ι) (next : Option ι) : ListState ι :=
  { state with
    links := Function.update state.links element { state.links element with next } }

def setPrev (state : ListState ι) (element : ι) (prev : Option ι) : ListState ι :=
  { state with
    links := Function.update state.links element { state.links element with prev } }

def setFirst (state : ListState ι) (first : Option ι) : ListState ι :=
  { state with head := { state.head with first } }

def setLast (state : ListState ι) (last : Option ι) : ListState ι :=
  { state with head := { state.head with last } }

/-- `size` is a `uint32` that the macros count up and down. -/
def addSize (state : ListState ι) (amount : Nat) : ListState ι :=
  { state with head := { state.head with size := (state.head.size + amount) % 2 ^ 32 } }

end ListState

section Macros

variable [DecidableEq ι]

def listInit (state : ListState ι) : ListState ι :=
  { state with head := { state.head with first := none, last := none, size := 0 } }

def listInsertHead (state : ListState ι) (element : ι) : ListState ι :=
  let state := state.setNext element state.head.first
  let state := match state.head.first with
    | some first => state.setPrev first (some element)
    | none => state.setLast (some element)
  let state := state.setFirst (some element)
  let state := state.setPrev element none
  state.addSize 1

def listInsertTail (state : ListState ι) (element : ι) : ListState ι :=
  let state := state.setPrev element state.head.last
  let state := match state.head.last with
    | some last => state.setNext last (some element)
    | none => state.setFirst (some element)
  let state := state.setLast (some element)
  let state := state.setNext element none
  state.addSize 1

def listInsertAfter (state : ListState ι) (listElement element : ι) : ListState ι :=
  let state := state.setNext element (state.links listElement).next
  let state := match (state.links element).next with
    | some next => state.setPrev next (some element)
    | none => state
  let state := state.setNext listElement (some element)
  let state := state.setPrev element (some listElement)
  let state := if (state.links element).next = none then state.setLast (some element)
    else state
  state.addSize 1

def listInsertBefore (state : ListState ι) (listElement element : ι) : ListState ι :=
  let state := state.setPrev element (state.links listElement).prev
  let state := state.setNext element (some listElement)
  let state := match (state.links listElement).prev with
    | some prev => state.setNext prev (some element)
    | none => state.setFirst (some element)
  let state := state.setPrev listElement (some element)
  state.addSize 1

def listRemove (state : ListState ι) (element : ι) : ListState ι :=
  let state := match (state.links element).next with
    | some next => state.setPrev next (state.links element).prev
    | none => state.setLast (state.links element).prev
  let state := match (state.links element).prev with
    | some prev => state.setNext prev (state.links element).next
    | none => state.setFirst (state.links element).next
  let state := state.setNext element none
  let state := state.setPrev element none
  state.addSize (2 ^ 32 - 1)

/-- The heads of two lists together with the links of all elements. -/
structure ListPair (ι : Type) where
  links : ι → Link ι
  list1 : ListHead ι
  list2 : ListHead ι

namespace ListPair

def onFirst (state : ListPair ι) (change : ListState ι → ListState ι) : ListPair ι :=
  let result := change ⟨state.links, state.list1⟩
  { state with links := result.links, list1 := result.head }

def onSecond (state : ListPair ι) (change : ListState ι → ListState ι) : ListPair ι :=
  let result := change ⟨state.links, state.list2⟩
  { state with links := result.links, list2 := result.head }

end ListPair

/-- `none` stands for the use of a null pointer. The second list is reset in one branch
only, and there before its size is read. -/
def listConcat (state : ListPair ι) : Option (ListPair ι) := do
  let state ←
    match state.list1.first, state.list2.first with
    | none, first =>
        let state := state.onFirst fun list => list.setFirst first
        some (state.onFirst fun list => list.setLast state.list2.last)
    | some _, none => some state
    | some _, some first => do
        let last ← state.list1.last
        let state := state.onFirst fun list => list.setNext last (some first)
        let state := state.onFirst fun list => list.setPrev first (some last)
        let state := state.onFirst fun list => list.setLast state.list2.last
        some (state.onSecond listInit)
  return state.onFirst fun list => list.addSize state.list2.size

/-! What the statement sequences come to, as long as `element` is not its own
neighbour. -/

theorem listInsertHead_links (state : ListState ι) (element : ι)
    (fresh : state.head.first ≠ some element) (other : ι) :
    (listInsertHead state element).links other =
      if other = element then ⟨state.head.first, none⟩
      else if state.head.first = some other then
        { state.links other with prev := some element }
      else state.links other := by
  cases first : state.head.first with
  | none =>
      by_cases same : other = element <;>
        simp [listInsertHead, ListState.setNext, ListState.setPrev, ListState.setFirst,
          ListState.setLast, ListState.addSize, first, same]
  | some head =>
      have different : element ≠ head := by
        rintro rfl
        exact fresh first
      by_cases same : other = element
      · simp [listInsertHead, ListState.setNext, ListState.setPrev, ListState.setFirst,
          ListState.addSize, first, same, different]
      · by_cases isHead : head = other
        · subst isHead
          simp [listInsertHead, ListState.setNext, ListState.setPrev, ListState.setFirst,
            ListState.addSize, first, same]
        · simp [listInsertHead, ListState.setNext, ListState.setPrev, ListState.setFirst,
            ListState.addSize, first, same, isHead, Ne.symm isHead]

theorem listInsertHead_head (state : ListState ι) (element : ι) :
    (listInsertHead state element).head =
      { state.head with
        first := some element
        last := if state.head.first = none then some element else state.head.last
        size := (state.head.size + 1) % 2 ^ 32 } := by
  cases first : state.head.first <;>
    simp [listInsertHead, ListState.setNext, ListState.setPrev, ListState.setFirst,
      ListState.setLast, ListState.addSize, first]

theorem listInsertTail_links (state : ListState ι) (element : ι)
    (fresh : state.head.last ≠ some element) (other : ι) :
    (listInsertTail state element).links other =
      if other = element then ⟨none, state.head.last⟩
      else if state.head.last = some other then
        { state.links other with next := some element }
      else state.links other := by
  cases last : state.head.last with
  | none =>
      by_cases same : other = element <;>
        simp [listInsertTail, ListState.setNext, ListState.setPrev, ListState.setFirst,
          ListState.setLast, ListState.addSize, last, same]
  | some tail =>
      have different : element ≠ tail := by
        rintro rfl
        exact fresh last
      by_cases same : other = element
      · simp [listInsertTail, ListState.setNext, ListState.setPrev, ListState.setLast,
          ListState.addSize, last, same, different]
      · by_cases isTail : tail = other
        · subst isTail
          simp [listInsertTail, ListState.setNext, ListState.setPrev, ListState.setLast,
            ListState.addSize, last, same]
        · simp [listInsertTail, ListState.setNext, ListState.setPrev, ListState.setLast,
            ListState.addSize, last, same, isTail, Ne.symm isTail]

theorem listInsertTail_head (state : ListState ι) (element : ι) :
    (listInsertTail state element).head =
      { state.head with
        first := if state.head.last = none then some element else state.head.first
        last := some element
        size := (state.head.size + 1) % 2 ^ 32 } := by
  cases last : state.head.last <;>
    simp [listInsertTail, ListState.setNext, ListState.setPrev, ListState.setFirst,
      ListState.setLast, ListState.addSize, last]

theorem listInsertAfter_links (state : ListState ι) {listElement element : ι}
    (different : listElement ≠ element) (fresh : (state.links listElement).next ≠ some element)
    (other : ι) :
    (listInsertAfter state listElement element).links other =
      if other = element then ⟨(state.links listElement).next, some listElement⟩
      else
        { next := if other = listElement then some element else (state.links other).next
          prev := if (state.links listElement).next = some other then some element
            else (state.links other).prev } := by
  cases next : (state.links listElement).next with
  | none =>
      by_cases same : other = element <;> by_cases isListed : other = listElement <;>
        apply Link.ext <;>
        simp [listInsertAfter, ListState.setNext, ListState.setPrev, ListState.setLast,
          ListState.addSize, next, same, isListed, different, different.symm]
  | some after =>
      have apart : element ≠ after := fun equal => fresh (equal ▸ next)
      apply Link.ext <;>
        simp [listInsertAfter, ListState.setNext, ListState.setPrev, ListState.addSize, next,
          different, different.symm, apart, apart.symm, Function.update_apply] <;> grind

theorem listInsertAfter_head (state : ListState ι) {listElement element : ι}
    (different : listElement ≠ element) (fresh : (state.links listElement).next ≠ some element) :
    (listInsertAfter state listElement element).head =
      { state.head with
        last := if (state.links listElement).next = none then some element
          else state.head.last
        size := (state.head.size + 1) % 2 ^ 32 } := by
  cases next : (state.links listElement).next with
  | none =>
      simp [listInsertAfter, ListState.setNext, ListState.setPrev, ListState.setLast,
        ListState.addSize, next, different.symm]
  | some after =>
      have apart : element ≠ after := fun equal => fresh (equal ▸ next)
      simp [listInsertAfter, ListState.setNext, ListState.setPrev, ListState.addSize, next,
        different.symm, apart]

theorem listInsertBefore_links (state : ListState ι) {listElement element : ι}
    (different : listElement ≠ element) (fresh : (state.links listElement).prev ≠ some element)
    (other : ι) :
    (listInsertBefore state listElement element).links other =
      if other = element then ⟨some listElement, (state.links listElement).prev⟩
      else
        { next := if (state.links listElement).prev = some other then some element
            else (state.links other).next
          prev := if other = listElement then some element
            else (state.links other).prev } := by
  cases prev : (state.links listElement).prev with
  | none =>
      by_cases same : other = element <;> by_cases isListed : other = listElement <;>
        apply Link.ext <;>
        simp [listInsertBefore, ListState.setNext, ListState.setPrev, ListState.setFirst,
          ListState.addSize, prev, same, isListed, different, different.symm]
  | some before =>
      have apart : element ≠ before := fun equal => fresh (equal ▸ prev)
      apply Link.ext <;>
        simp [listInsertBefore, ListState.setNext, ListState.setPrev, ListState.addSize, prev,
          different, apart.symm, Function.update_apply] <;> grind

theorem listInsertBefore_head (state : ListState ι) {listElement element : ι}
    (different : listElement ≠ element) :
    (listInsertBefore state listElement element).head =
      { state.head with
        first := if (state.links listElement).prev = none then some element
          else state.head.first
        size := (state.head.size + 1) % 2 ^ 32 } := by
  cases prev : (state.links listElement).prev <;>
    simp [listInsertBefore, ListState.setNext, ListState.setPrev, ListState.setFirst,
      ListState.addSize, prev, different]

theorem listRemove_links (state : ListState ι) (element : ι)
    (nextOther : (state.links element).next ≠ some element)
    (prevOther : (state.links element).prev ≠ some element) (other : ι) :
    (listRemove state element).links other =
      if other = element then Link.null
      else
        { next := if (state.links element).prev = some other then
              (state.links element).next else (state.links other).next
          prev := if (state.links element).next = some other then
              (state.links element).prev else (state.links other).prev } := by
  by_cases same : other = element
  · simp [listRemove, ListState.setNext, ListState.setPrev, ListState.addSize, same]
  · cases next : (state.links element).next with
    | none =>
        cases prev : (state.links element).prev with
        | none =>
            simp [listRemove, ListState.setNext, ListState.setPrev, ListState.setFirst,
              ListState.setLast, ListState.addSize, next, prev, same]
        | some before =>
            have distinct : before ≠ element := fun equal => prevOther (equal ▸ prev)
            apply Link.ext <;>
              simp [listRemove, ListState.setNext, ListState.setPrev, ListState.setLast,
                ListState.addSize, next, prev, same, Function.update_apply] <;> grind
    | some after =>
        have apart : element ≠ after := fun equal => nextOther (equal ▸ next)
        cases prev : (state.links element).prev with
        | none =>
            apply Link.ext <;>
              simp [listRemove, ListState.setNext, ListState.setPrev, ListState.setFirst,
                ListState.addSize, next, prev, same, apart, Function.update_apply] <;> grind
        | some before =>
            have distinct : before ≠ element := fun equal => prevOther (equal ▸ prev)
            apply Link.ext <;>
              simp [listRemove, ListState.setNext, ListState.setPrev,
                ListState.addSize, next, prev, same, apart, Function.update_apply] <;> grind

theorem listRemove_head (state : ListState ι) (element : ι)
    (nextOther : (state.links element).next ≠ some element) :
    (listRemove state element).head =
      { state.head with
        first := if (state.links element).prev = none then
            (state.links element).next else state.head.first
        last := if (state.links element).next = none then
            (state.links element).prev else state.head.last
        size := (state.head.size + (2 ^ 32 - 1)) % 2 ^ 32 } := by
  cases next : (state.links element).next with
  | none =>
      cases prev : (state.links element).prev <;>
        simp [listRemove, ListState.setNext, ListState.setPrev, ListState.setFirst,
          ListState.setLast, ListState.addSize, next, prev]
  | some after =>
      have apart : element ≠ after := fun equal => nextOther (equal ▸ next)
      cases prev : (state.links element).prev <;>
        simp [listRemove, ListState.setNext, ListState.setPrev, ListState.setFirst,
          ListState.addSize, next, prev, apart]

/-- The first list is empty: the second one keeps its elements, too. -/
theorem listConcat_empty {state : ListPair ι} (empty : state.list1.first = none) :
    listConcat state = some
      { state with
        list1 :=
          { state.list1 with
            first := state.list2.first
            last := state.list2.last
            size := (state.list1.size + state.list2.size) % 2 ^ 32 } } := by
  simp [listConcat, empty, ListPair.onFirst, ListState.setFirst, ListState.setLast,
    ListState.addSize]

theorem listConcat_nothing {state : ListPair ι} {head : ι} (first : state.list1.first = some head)
    (empty : state.list2.first = none) :
    listConcat state = some
      { state with
        list1 :=
          { state.list1 with size := (state.list1.size + state.list2.size) % 2 ^ 32 } } := by
  simp [listConcat, first, empty, ListPair.onFirst, ListState.addSize]

/-- Both lists have elements: nothing is left of the second size when it is added. -/
theorem listConcat_joined {state : ListPair ι} {head tail next : ι}
    (first : state.list1.first = some head) (last : state.list1.last = some tail)
    (second : state.list2.first = some next) (different : tail ≠ next) :
    ∃ links, listConcat state = some
        { links
          list1 :=
            { state.list1 with last := state.list2.last, size := state.list1.size % 2 ^ 32 }
          list2 := { state.list2 with first := none, last := none, size := 0 } } ∧
      links tail = { state.links tail with next := some next } ∧
      links next = { state.links next with prev := some tail } ∧
      ∀ other, other ≠ tail → other ≠ next → links other = state.links other := by
  let relinked := Function.update state.links tail { state.links tail with next := some next }
  refine ⟨Function.update relinked next { relinked next with prev := some tail },
    ?_, ?_, ?_, ?_⟩
  · simp [listConcat, first, last, second, relinked, ListPair.onFirst, ListPair.onSecond,
      ListState.setNext, ListState.setPrev, ListState.setLast, ListState.addSize, listInit]
  · simp [relinked, different]
  · simp [relinked, different.symm]
  · intro other notTail notNext
    simp [relinked, notTail, notNext]

end Macros

/-- The head and the links spell out `values`: both directions agree, the ends
are null, nothing occurs twice and `size` is the number of elements. -/
structure Represents (links : ι → Link ι) (head : ListHead ι) (values : List ι) :
    Prop where
  linked : Linked links values
  nodup : values.Nodup
  first : head.first = values[0]?
  last : head.last = values.getLast?
  size : head.size = values.length

theorem represents_nil {links : ι → Link ι} {head : ListHead ι} :
    Represents links head [] ↔ head.first = none ∧ head.last = none ∧ head.size = 0 := by
  constructor
  · intro represents
    exact ⟨represents.first, represents.last, represents.size⟩
  · rintro ⟨first, last, size⟩
    exact ⟨.nil _, .nil, first, last, size⟩

namespace Represents

variable {links : ι → Link ι} {head : ListHead ι} {values : List ι}

theorem congr (represents : Represents links head values)
    {after : ι → Link ι} (equal : ∀ value ∈ values, after value = links value) :
    Represents after head values :=
  { represents with linked := represents.linked.congr equal }

/-- A list spells out only one sequence. -/
theorem unique (represents : Represents links head values) {others : List ι}
    (also : Represents links head others) : values = others := by
  apply List.ext_getElem?
  intro position
  induction position with
  | zero => exact represents.first.symm.trans also.first
  | succ position induction =>
      cases found : values[position]? with
      | none =>
          have otherFound : others[position]? = none := induction.symm.trans found
          rw [List.getElem?_eq_none_iff] at found otherFound
          rw [List.getElem?_eq_none (by omega), List.getElem?_eq_none (by omega)]
      | some value =>
          have otherFound : others[position]? = some value := induction.symm.trans found
          exact (represents.linked position value found).1.symm.trans
            (also.linked position value otherFound).1

/-- An empty list is as `LIST_INIT` leaves it. -/
theorem reset (represents : Represents links head []) :
    { head with first := none, last := none, size := 0 } = head := by
  rcases head with ⟨first, last, ptrNext, size⟩
  obtain rfl : first = none := represents.first
  obtain rfl : last = none := represents.last
  obtain rfl : size = 0 := represents.size
  rfl

variable {element : ι}

theorem first_mem (represents : Represents links head values)
    (first : head.first = some element) : element ∈ values := by
  rw [represents.first] at first
  exact List.mem_of_getElem? first

theorem last_mem (represents : Represents links head values)
    (last : head.last = some element) : element ∈ values := by
  rw [represents.last] at last
  exact List.mem_of_getLast? last

theorem next_ne (represents : Represents links head values)
    (member : element ∈ values) : (links element).next ≠ some element := by
  rcases List.getElem?_of_mem member with ⟨position, found⟩
  intro equal
  rw [(represents.linked position element found).1] at equal
  have := position_unique represents.nodup equal found
  omega

theorem prev_ne (represents : Represents links head values)
    (member : element ∈ values) : (links element).prev ≠ some element := by
  rcases List.getElem?_of_mem member with ⟨position, found⟩
  intro equal
  rw [(represents.linked position element found).2] at equal
  split at equal
  · simp at equal
  · have := position_unique represents.nodup equal found
    omega

variable [DecidableEq ι]

theorem listInsertHead (represents : Represents links head values)
    (fresh : element ∉ values) (room : values.length + 1 < 2 ^ 32) :
    Represents (FosKernel.listInsertHead ⟨links, head⟩ element).links
      (FosKernel.listInsertHead ⟨links, head⟩ element).head (element :: values) := by
  have notFirst : head.first ≠ some element := fun equal =>
    fresh (represents.first_mem equal)
  have updated := listInsertHead_links ⟨links, head⟩ element notFirst
  have isFirst := represents.first
  refine ⟨represents.linked.cons represents.nodup ?_ ?_ ?_,
    List.nodup_cons.mpr ⟨fresh, represents.nodup⟩, ?_, ?_, ?_⟩
  · simp [updated, isFirst]
  · intro value first
    have different : value ≠ element := by
      rintro rfl
      exact fresh (List.mem_of_getElem? first)
    simp [updated, isFirst, first, different]
  · intro other member notHead
    have different : other ≠ element := by
      rintro rfl
      exact fresh member
    simp [updated, isFirst, notHead, different]
  · simp [listInsertHead_head]
  · cases values <;> simp [listInsertHead_head, isFirst, represents.last]
  · simp only [listInsertHead_head, represents.size, List.length_cons]
    exact Nat.mod_eq_of_lt room

theorem listInsertTail (represents : Represents links head values)
    (fresh : element ∉ values) (room : values.length + 1 < 2 ^ 32) :
    Represents (FosKernel.listInsertTail ⟨links, head⟩ element).links
      (FosKernel.listInsertTail ⟨links, head⟩ element).head (values ++ [element]) := by
  have notLast : head.last ≠ some element := fun equal =>
    fresh (represents.last_mem equal)
  have updated := listInsertTail_links ⟨links, head⟩ element notLast
  have isLast := represents.last
  refine ⟨represents.linked.concat represents.nodup ?_ ?_ ?_, ?_, ?_, ?_, ?_⟩
  · simp [updated, isLast]
  · intro value last
    have different : value ≠ element := by
      rintro rfl
      exact fresh (List.mem_of_getLast? last)
    simp [updated, isLast, last, different]
  · intro other member notTail
    have different : other ≠ element := by
      rintro rfl
      exact fresh member
    simp [updated, isLast, notTail, different]
  · rw [← List.concat_eq_append]
    exact represents.nodup.concat fresh
  · cases values <;> simp [listInsertTail_head, isLast, represents.first]
  · simp [listInsertTail_head]
  · simp only [listInsertTail_head, represents.size, List.length_append,
      List.length_singleton]
    exact Nat.mod_eq_of_lt room

theorem listRemove (represents : Represents links head values)
    (member : element ∈ values) (room : values.length < 2 ^ 32) :
    Represents (FosKernel.listRemove ⟨links, head⟩ element).links
      (FosKernel.listRemove ⟨links, head⟩ element).head (values.erase element) := by
  rcases List.getElem?_of_mem member with ⟨position, found⟩
  have unique := @position_unique ι values
  have bound : position < values.length := (List.getElem?_eq_some_iff.mp found).1
  have erased : values.erase element = values.eraseIdx position := by
    rw [List.erase_eq_eraseIdx_of_idxOf]
    exact unique represents.nodup
      (List.getElem?_idxOf member) found
  have own := represents.linked position element found
  have nextOther := represents.next_ne member
  have prevOther := represents.prev_ne member
  have updated := listRemove_links ⟨links, head⟩ element nextOther prevOther
  rw [erased]
  refine ⟨Linked.eraseIdx ?_ ?_, represents.nodup.eraseIdx position, ?_, ?_, ?_⟩
  · intro index other atIndex apart
    have different : other ≠ element := by
      rintro rfl
      exact apart (unique represents.nodup atIndex found)
    have links := represents.linked index other atIndex
    have isPrev : (if position = 0 then none else values[position - 1]?) = some other ↔
        index + 1 = position := by
      constructor
      · intro equal
        split at equal
        · simp at equal
        · have := unique represents.nodup equal atIndex
          omega
      · intro equal
        subst equal
        simpa using atIndex
    simp only [updated, different, if_false, own.1, own.2, links.1, isPrev]
  · intro index other atIndex apart
    have different : other ≠ element := by
      rintro rfl
      exact apart (unique represents.nodup atIndex found)
    have links := represents.linked index other atIndex
    have isNext : values[position + 1]? = some other ↔ index = position + 1 := by
      constructor
      · exact fun equal => unique represents.nodup atIndex equal
      · rintro rfl
        exact atIndex
    simp only [updated, different, if_false, own.1, own.2, links.2, isNext]
    grind
  · simp only [listRemove_head ⟨links, head⟩ element nextOther, own.1, own.2,
      represents.first, List.getElem?_eraseIdx]
    grind
  · simp only [listRemove_head ⟨links, head⟩ element nextOther, own.1, own.2,
      represents.last, List.getLast?_eq_getElem?, List.getElem?_eraseIdx,
      List.length_eraseIdx]
    grind
  · simp only [listRemove_head ⟨links, head⟩ element nextOther, represents.size,
      List.length_eraseIdx, bound, if_true]
    omega

/-- What the neighbours of a listed element are. -/
theorem neighbours (represents : Represents links head values) (member : element ∈ values) :
    (links element).next = values[values.idxOf element + 1]? ∧
      (links element).prev = if values.idxOf element = 0 then none
        else values[values.idxOf element - 1]? :=
  represents.linked _ _ (List.getElem?_idxOf member)

theorem next_mem (represents : Represents links head values) (member : element ∈ values)
    {other : ι} (next : (links element).next = some other) : other ∈ values := by
  rw [(represents.neighbours member).1] at next
  exact List.mem_of_getElem? next

theorem prev_mem (represents : Represents links head values) (member : element ∈ values)
    {other : ι} (prev : (links element).prev = some other) : other ∈ values := by
  rw [(represents.neighbours member).2] at prev
  split at prev
  · simp at prev
  · exact List.mem_of_getElem? prev

section Insertion

variable {listElement : ι}

theorem listInsertAfter (represents : Represents links head values)
    (member : listElement ∈ values) (fresh : element ∉ values)
    (room : values.length + 1 < 2 ^ 32) :
    Represents (FosKernel.listInsertAfter ⟨links, head⟩ listElement element).links
      (FosKernel.listInsertAfter ⟨links, head⟩ listElement element).head
      (values.insertIdx (values.idxOf listElement + 1) element) := by
  have different : listElement ≠ element := fun equal => fresh (equal ▸ member)
  have notNext : (links listElement).next ≠ some element := fun equal =>
    fresh (represents.next_mem member equal)
  have updated := listInsertAfter_links ⟨links, head⟩ different notNext
  have updatedHead := listInsertAfter_head ⟨links, head⟩ different notNext
  have located := List.getElem?_idxOf member
  have bound := List.idxOf_lt_length_of_mem member
  have own := represents.neighbours member
  have positionOf : ∀ {index : Nat} {other}, values[index]? = some other →
      (other = listElement ↔ index = values.idxOf listElement) := by
    intro index other found
    constructor
    · rintro rfl
      exact position_unique represents.nodup found located
    · rintro rfl
      exact Option.some.inj (found.symm.trans located)
  have apart : ∀ {index : Nat} {other}, values[index]? = some other → other ≠ element := by
    rintro index other found rfl
    exact fresh (List.mem_of_getElem? found)
  refine ⟨Linked.insertIdx (by omega) ?_ ?_ ?_, ?_, ?_, ?_, ?_⟩
  · simp only [updated, if_true, own.1]
    simp [located]
  · intro index other found
    simp only [updated, apart found, if_false, positionOf found, Nat.add_right_cancel_iff,
      (represents.linked index other found).1]
  · intro index other found
    have isNext : (links listElement).next = some other ↔
        index = values.idxOf listElement + 1 := by
      rw [own.1]
      constructor
      · exact fun equal => position_unique represents.nodup found equal
      · rintro rfl
        exact found
    simp only [updated, apart found, if_false, isNext, (represents.linked index other found).2]
  · exact (List.perm_insertIdx element values (by omega)).nodup_iff.mpr
      (List.nodup_cons.mpr ⟨fresh, represents.nodup⟩)
  · simp only [updatedHead, represents.first, List.getElem?_insertIdx]
    grind
  · simp only [updatedHead, own.1, represents.last, List.getLast?_eq_getElem?,
      List.length_insertIdx, List.getElem?_insertIdx]
    grind
  · simp only [updatedHead, represents.size, List.length_insertIdx]
    grind

theorem listInsertBefore (represents : Represents links head values)
    (member : listElement ∈ values) (fresh : element ∉ values)
    (room : values.length + 1 < 2 ^ 32) :
    Represents (FosKernel.listInsertBefore ⟨links, head⟩ listElement element).links
      (FosKernel.listInsertBefore ⟨links, head⟩ listElement element).head
      (values.insertIdx (values.idxOf listElement) element) := by
  have different : listElement ≠ element := fun equal => fresh (equal ▸ member)
  have notPrev : (links listElement).prev ≠ some element := fun equal =>
    fresh (represents.prev_mem member equal)
  have updated := listInsertBefore_links ⟨links, head⟩ different notPrev
  have updatedHead := listInsertBefore_head ⟨links, head⟩ different
  have located := List.getElem?_idxOf member
  have bound := List.idxOf_lt_length_of_mem member
  have own := represents.neighbours member
  have positionOf : ∀ {index : Nat} {other}, values[index]? = some other →
      (other = listElement ↔ index = values.idxOf listElement) := by
    intro index other found
    constructor
    · rintro rfl
      exact position_unique represents.nodup found located
    · rintro rfl
      exact Option.some.inj (found.symm.trans located)
  have apart : ∀ {index : Nat} {other}, values[index]? = some other → other ≠ element := by
    rintro index other found rfl
    exact fresh (List.mem_of_getElem? found)
  refine ⟨Linked.insertIdx (by omega) ?_ ?_ ?_, ?_, ?_, ?_, ?_⟩
  · simp only [updated, if_true, own.2, located]
  · intro index other found
    have isPrev : (links listElement).prev = some other ↔
        index + 1 = values.idxOf listElement := by
      rw [own.2]
      constructor
      · intro equal
        split at equal
        · simp at equal
        · have := position_unique represents.nodup found equal
          omega
      · intro equal
        rw [← equal]
        simpa using found
    simp only [updated, apart found, if_false, isPrev, (represents.linked index other found).1]
  · intro index other found
    simp only [updated, apart found, if_false, positionOf found,
      (represents.linked index other found).2]
  · exact (List.perm_insertIdx element values (by omega)).nodup_iff.mpr
      (List.nodup_cons.mpr ⟨fresh, represents.nodup⟩)
  · simp only [updatedHead, own.2, represents.first, List.getElem?_insertIdx]
    grind
  · simp only [updatedHead, represents.last, List.getLast?_eq_getElem?,
      List.length_insertIdx, List.getElem?_insertIdx]
    grind
  · simp only [updatedHead, represents.size, List.length_insertIdx]
    grind

end Insertion

/-! Elements outside the list keep their links. -/

theorem listInsertAfter_frame (represents : Represents links head values) {listElement : ι}
    (member : listElement ∈ values) (fresh : element ∉ values) {other : ι}
    (outside : other ∉ values) (apart : other ≠ element) :
    (FosKernel.listInsertAfter ⟨links, head⟩ listElement element).links other =
      links other := by
  have different : listElement ≠ element := fun equal => fresh (equal ▸ member)
  rw [listInsertAfter_links ⟨links, head⟩ different fun equal =>
    fresh (represents.next_mem member equal)]
  have notListed : other ≠ listElement := fun equal => outside (equal ▸ member)
  have notNext : (links listElement).next ≠ some other := fun equal =>
    outside (represents.next_mem member equal)
  simp [apart, notListed, notNext]

theorem listInsertBefore_frame (represents : Represents links head values) {listElement : ι}
    (member : listElement ∈ values) (fresh : element ∉ values) {other : ι}
    (outside : other ∉ values) (apart : other ≠ element) :
    (FosKernel.listInsertBefore ⟨links, head⟩ listElement element).links other =
      links other := by
  have different : listElement ≠ element := fun equal => fresh (equal ▸ member)
  rw [listInsertBefore_links ⟨links, head⟩ different fun equal =>
    fresh (represents.prev_mem member equal)]
  have notListed : other ≠ listElement := fun equal => outside (equal ▸ member)
  have notPrev : (links listElement).prev ≠ some other := fun equal =>
    outside (represents.prev_mem member equal)
  simp [apart, notListed, notPrev]

theorem listInsertHead_frame (represents : Represents links head values)
    (fresh : element ∉ values) {other : ι} (outside : other ∉ values)
    (different : other ≠ element) :
    (FosKernel.listInsertHead ⟨links, head⟩ element).links other = links other := by
  rw [listInsertHead_links ⟨links, head⟩ element fun equal =>
    fresh (represents.first_mem equal)]
  have notFirst : head.first ≠ some other := fun equal =>
    outside (represents.first_mem equal)
  simp [different, notFirst]

theorem listInsertTail_frame (represents : Represents links head values)
    (fresh : element ∉ values) {other : ι} (outside : other ∉ values)
    (different : other ≠ element) :
    (FosKernel.listInsertTail ⟨links, head⟩ element).links other = links other := by
  rw [listInsertTail_links ⟨links, head⟩ element fun equal =>
    fresh (represents.last_mem equal)]
  have notLast : head.last ≠ some other := fun equal =>
    outside (represents.last_mem equal)
  simp [different, notLast]

/-- The scratch field of the head is left alone. -/
theorem listRemove_ptrNext (represents : Represents links head values)
    (member : element ∈ values) :
    (FosKernel.listRemove ⟨links, head⟩ element).head.ptrNext = head.ptrNext := by
  rw [listRemove_head ⟨links, head⟩ element (represents.next_ne member)]

theorem listRemove_frame (represents : Represents links head values)
    (member : element ∈ values) {other : ι} (outside : other ∉ values) :
    (FosKernel.listRemove ⟨links, head⟩ element).links other = links other := by
  rcases List.getElem?_of_mem member with ⟨position, found⟩
  have own := represents.linked position element found
  have inside : ∀ neighbour, (links element).next = some neighbour ∨
      (links element).prev = some neighbour → neighbour ∈ values := by
    rintro neighbour (next | prev)
    · rw [own.1] at next
      exact List.mem_of_getElem? next
    · rw [own.2] at prev
      split at prev
      · simp at prev
      · exact List.mem_of_getElem? prev
  have different : other ≠ element := by
    rintro rfl
    exact outside member
  rw [listRemove_links ⟨links, head⟩ element (represents.next_ne member)
    (represents.prev_ne member)]
  have notNext : (links element).next ≠ some other := fun equal =>
    outside (inside other (.inl equal))
  have notPrev : (links element).prev ≠ some other := fun equal =>
    outside (inside other (.inr equal))
  simp [different, notNext, notPrev]

end Represents

/-! ## Two lists over one table of links -/

/-- Two disjoint lists share the links of their elements. -/
structure TwoLists (links : ι → Link ι) (first second : ListHead ι)
    (left right : List ι) : Prop where
  first : Represents links first left
  second : Represents links second right
  apart : ∀ value ∈ left, value ∉ right

namespace TwoLists

variable {links : ι → Link ι} {first second : ListHead ι} {left right : List ι}

theorem symm (lists : TwoLists links first second left right) :
    TwoLists links second first right left :=
  ⟨lists.second, lists.first, fun value inRight inLeft =>
    lists.apart value inLeft inRight⟩

/-- Links of elements in neither list do not matter. -/
theorem congr (lists : TwoLists links first second left right)
    {after : ι → Link ι}
    (equal : ∀ value, value ∈ left ∨ value ∈ right → after value = links value) :
    TwoLists after first second left right where
  first := lists.first.congr fun value member => equal value (.inl member)
  second := lists.second.congr fun value member => equal value (.inr member)
  apart := lists.apart

variable [DecidableEq ι] {element : ι}

theorem update (lists : TwoLists links first second left right) (link : Link ι)
    (notLeft : element ∉ left) (notRight : element ∉ right) :
    TwoLists (Function.update links element link) first second left right := by
  apply lists.congr
  intro value member
  rw [Function.update_of_ne]
  rintro rfl
  exact member.elim notLeft notRight

theorem listInsertHead (lists : TwoLists links first second left right)
    (notLeft : element ∉ left) (notRight : element ∉ right)
    (room : left.length + 1 < 2 ^ 32) :
    TwoLists (FosKernel.listInsertHead ⟨links, first⟩ element).links
      (FosKernel.listInsertHead ⟨links, first⟩ element).head second
      (element :: left) right where
  first := lists.first.listInsertHead notLeft room
  second := lists.second.congr fun value member =>
    lists.first.listInsertHead_frame notLeft
      (fun inLeft => lists.apart value inLeft member)
      (fun equal => notRight (equal ▸ member))
  apart := by
    intro value member
    rcases List.mem_cons.mp member with rfl | inLeft
    · exact notRight
    · exact lists.apart value inLeft

theorem listInsertTail (lists : TwoLists links first second left right)
    (notLeft : element ∉ left) (notRight : element ∉ right)
    (room : left.length + 1 < 2 ^ 32) :
    TwoLists (FosKernel.listInsertTail ⟨links, first⟩ element).links
      (FosKernel.listInsertTail ⟨links, first⟩ element).head second
      (left ++ [element]) right where
  first := lists.first.listInsertTail notLeft room
  second := lists.second.congr fun value member =>
    lists.first.listInsertTail_frame notLeft
      (fun inLeft => lists.apart value inLeft member)
      (fun equal => notRight (equal ▸ member))
  apart := by
    intro value member
    rcases List.mem_append.mp member with inLeft | isNew
    · exact lists.apart value inLeft
    · rw [List.mem_singleton.mp isNew]
      exact notRight

theorem listRemove (lists : TwoLists links first second left right)
    (member : element ∈ left) (room : left.length < 2 ^ 32) :
    TwoLists (FosKernel.listRemove ⟨links, first⟩ element).links
      (FosKernel.listRemove ⟨links, first⟩ element).head second
      (left.erase element) right where
  first := lists.first.listRemove member room
  second := lists.second.congr fun value inRight =>
    lists.first.listRemove_frame member fun inLeft => lists.apart value inLeft inRight
  apart := fun value inErased => lists.apart value (List.mem_of_mem_erase inErased)

/-- What `LIST_CONCAT` makes of two lists. The first one gets the elements of both, and one
of the other two parts is right only if a list was empty. -/
structure Concatenated (links : ι → Link ι) (list2 : ListHead ι) (left right : List ι)
    (result : ListPair ι) : Prop where
  linked : Linked result.links (left ++ right)
  first : result.list1.first = (left ++ right)[0]?
  last : result.list1.last = (left ++ right).getLast?
  size : result.list1.size = if left = [] then right.length else left.length
  second : result.list2 =
    if left = [] then list2 else { list2 with first := none, last := none, size := 0 }
  others : ∀ other, other ∉ left → other ∉ right → result.links other = links other

omit [DecidableEq ι] in
theorem nodup_append (lists : TwoLists links first second left right) :
    (left ++ right).Nodup :=
  List.nodup_append.mpr ⟨lists.first.nodup, lists.second.nodup,
    fun value inLeft _ inRight equal => lists.apart value inLeft (equal ▸ inRight)⟩

omit [DecidableEq ι] in
/-- The last element of the first list and the first one of the second refer to each other. -/
theorem joined (lists : TwoLists links first second left right) {after : ι → Link ι}
    {tail next : ι} (atEnd : left.getLast? = some tail) (atStart : right[0]? = some next)
    (atTail : after tail = { links tail with next := some next })
    (atNext : after next = { links next with prev := some tail })
    (elsewhere : ∀ other, other ≠ tail → other ≠ next → after other = links other) :
    Linked after (left ++ right) := by
  refine lists.first.linked.append lists.second.linked lists.nodup_append ?_ ?_ ?_
  · intro value isLast
    rw [atEnd, Option.some.injEq] at isLast
    rw [← isLast, atStart]
    exact atTail
  · intro value isFirst
    rw [atStart, Option.some.injEq] at isFirst
    rw [← isFirst, atEnd]
    exact atNext
  · intro other _ notLast notFirst
    refine elsewhere other (fun equal => ?_) fun equal => ?_
    · exact notLast (equal ▸ atEnd)
    · exact notFirst (equal ▸ atStart)

theorem listConcat (lists : TwoLists links first second left right)
    (leftRoom : left.length < 2 ^ 32) (rightRoom : right.length < 2 ^ 32) :
    ∃ result, FosKernel.listConcat ⟨links, first, second⟩ = some result ∧
      Concatenated links second left right result := by
  have firstSize := lists.first.size
  have secondSize := lists.second.size
  cases left with
  | nil =>
      refine ⟨_, listConcat_empty lists.first.first, lists.second.linked, lists.second.first,
        lists.second.last, ?_, rfl, fun _ _ _ => rfl⟩
      calc (first.size + second.size) % 2 ^ 32
          _ = right.length % 2 ^ 32 := by rw [firstSize, secondSize, List.length_nil, Nat.zero_add]
          _ = right.length := Nat.mod_eq_of_lt rightRoom
  | cons head rest =>
      have firstHead : first.first = some head := lists.first.first
      cases right with
      | nil =>
          refine ⟨_, listConcat_nothing firstHead lists.second.first, ?_, ?_, ?_, ?_,
            lists.second.reset.symm, fun _ _ _ => rfl⟩
          · simpa using lists.first.linked
          · simpa using firstHead
          · simpa using lists.first.last
          · calc (first.size + second.size) % 2 ^ 32
              _ = (head :: rest).length % 2 ^ 32 := by
                rw [firstSize, secondSize, List.length_nil, Nat.add_zero]
              _ = (head :: rest).length := Nat.mod_eq_of_lt leftRoom
      | cons next others =>
          obtain ⟨tail, atEnd⟩ : ∃ tail, (head :: rest).getLast? = some tail :=
            ⟨_, List.getLast?_eq_getLast_of_ne_nil (by simp)⟩
          have tailMember : tail ∈ head :: rest := List.mem_of_getLast? atEnd
          have different : tail ≠ next := fun equal =>
            lists.apart tail tailMember (equal ▸ List.mem_cons_self)
          rcases @listConcat_joined ι _ ⟨links, first, second⟩ _ _ _ firstHead
            (lists.first.last.trans atEnd) lists.second.first different with
            ⟨after, result, atTail, atNext, elsewhere⟩
          refine ⟨_, result, lists.joined atEnd rfl atTail atNext elsewhere, firstHead, ?_, ?_,
            rfl, ?_⟩
          · rw [List.getLast?_append_of_ne_nil _ (by simp)]
            exact lists.second.last
          · exact (congrArg (fun size => size % 2 ^ 32) firstSize).trans
              (Nat.mod_eq_of_lt leftRoom)
          · intro other notLeft notRight
            refine elsewhere other (fun equal => ?_) fun equal => ?_
            · exact notLeft (equal ▸ tailMember)
            · exact notRight (equal ▸ List.mem_cons_self)

end TwoLists

/-! ## A family of lists over one table of links -/

/-- The lists with a name in `known` are disjoint and share the links of their elements. -/
structure Lists (links : ι → Link ι) (heads : κ → ListHead ι) (known : κ → Prop)
    (contents : κ → List ι) : Prop where
  represents : ∀ name, known name → Represents links (heads name) (contents name)
  apart : ∀ left right, known left → known right → left ≠ right →
    ∀ value ∈ contents left, value ∉ contents right

namespace Lists

variable {links : ι → Link ι} {heads : κ → ListHead ι} {known : κ → Prop}
variable {contents : κ → List ι}

/-- The scratch field of a head does not matter. -/
theorem congr {others : κ → ListHead ι} (lists : Lists links heads known contents)
    (equal : ∀ name, (others name).first = (heads name).first ∧
      (others name).last = (heads name).last ∧ (others name).size = (heads name).size) :
    Lists links others known contents where
  represents := by
    intro name isKnown
    have represents := lists.represents name isKnown
    exact ⟨represents.linked, represents.nodup, (equal name).1.trans represents.first,
      (equal name).2.1.trans represents.last, (equal name).2.2.trans represents.size⟩
  apart := lists.apart

variable [DecidableEq κ]

/-- One list is changed as its sequence is; elements of other lists keep their links. -/
theorem update (lists : Lists links heads known contents) {name : κ} {result : ListState ι}
    {values : List ι} (changed : Represents result.links result.head values)
    (members : ∀ value ∈ values, ∀ other, known other → other ≠ name → value ∉ contents other)
    (frame : ∀ other, known other → other ≠ name → ∀ value ∈ contents other,
      result.links value = links value) :
    Lists result.links (Function.update heads name result.head) known
      (Function.update contents name values) where
  represents := by
    intro other isKnown
    by_cases same : other = name
    · subst same
      rw [Function.update_self, Function.update_self]
      exact changed
    · rw [Function.update_of_ne same, Function.update_of_ne same]
      exact (lists.represents other isKnown).congr (frame other isKnown same)
  apart := by
    intro left right leftKnown rightKnown different value inLeft
    by_cases leftSame : left = name
    · subst leftSame
      rw [Function.update_self] at inLeft
      rw [Function.update_of_ne different.symm]
      exact members value inLeft right rightKnown different.symm
    · rw [Function.update_of_ne leftSame] at inLeft
      by_cases rightSame : right = name
      · subst rightSame
        rw [Function.update_self]
        exact fun inRight => members value inRight left leftKnown leftSame inLeft
      · rw [Function.update_of_ne rightSame]
        exact lists.apart left right leftKnown rightKnown different value inLeft

variable [DecidableEq ι] {name : κ} {element : ι}

theorem listInsertHead (lists : Lists links heads known contents) (isKnown : known name)
    (fresh : ∀ other, known other → element ∉ contents other)
    (room : (contents name).length + 1 < 2 ^ 32) :
    Lists (FosKernel.listInsertHead ⟨links, heads name⟩ element).links
      (Function.update heads name (FosKernel.listInsertHead ⟨links, heads name⟩ element).head)
      known (Function.update contents name (element :: contents name)) := by
  have represents := lists.represents name isKnown
  refine lists.update (represents.listInsertHead (fresh name isKnown) room) ?_ ?_
  · intro value member other otherKnown different
    rcases List.mem_cons.mp member with rfl | before
    · exact fresh other otherKnown
    · exact lists.apart name other isKnown otherKnown different.symm value before
  · intro other otherKnown different value member
    refine represents.listInsertHead_frame (fresh name isKnown) ?_ ?_
    · exact lists.apart other name otherKnown isKnown different value member
    · exact fun equal => fresh other otherKnown (equal ▸ member)

theorem listRemove (lists : Lists links heads known contents) (isKnown : known name)
    (member : element ∈ contents name) (room : (contents name).length < 2 ^ 32) :
    Lists (FosKernel.listRemove ⟨links, heads name⟩ element).links
      (Function.update heads name (FosKernel.listRemove ⟨links, heads name⟩ element).head)
      known (Function.update contents name ((contents name).erase element)) := by
  have represents := lists.represents name isKnown
  refine lists.update (represents.listRemove member room) ?_ ?_
  · intro value inErased other otherKnown different
    exact lists.apart name other isKnown otherKnown different.symm value
      (List.mem_of_mem_erase inErased)
  · intro other otherKnown different value inOther
    exact represents.listRemove_frame member
      (lists.apart other name otherKnown isKnown different value inOther)

end Lists

end FosKernel
