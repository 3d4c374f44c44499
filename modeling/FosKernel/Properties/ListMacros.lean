import FosKernel.Queue
import Mathlib.Data.List.Perm.Subperm

/-! # Lists as sequences

Any number of lists over one heap of nodes. Every run of the list macros does to the
lists what the corresponding operations do to sequences.
-/

namespace FosKernel.ListMacros

open LinkedList

/-- A pointer to a node: an address other than `NULL`. -/
structure Node where
  address : BitVec 32
  nonnull : address ≠ 0
  deriving DecidableEq

/-- The links of all nodes and the heads of all lists. -/
structure Memory (κ : Type) where
  links : Node → Link Node
  heads : κ → ListHead Node

inductive Macro (κ : Type)
  | init (list : κ)
  | insertHead (list : κ) (element : Node)
  | insertTail (list : κ) (element : Node)
  | insertAfter (list : κ) (listElement element : Node)
  | insertBefore (list : κ) (listElement element : Node)
  | remove (list : κ) (element : Node)

/-- The sequence of each list that has been initialised. -/
abbrev Contents (κ : Type) := κ → Option (List Node)

section Semantics

variable {κ : Type} [DecidableEq κ]

/-- Let a macro work on one of the lists. -/
def Memory.update (memory : Memory κ) (list : κ) (change : ListState Node → ListState Node) :
    Memory κ :=
  let result := change ⟨memory.links, memory.heads list⟩
  ⟨result.links, Function.update memory.heads list result.head⟩

namespace Macro

def list : Macro κ → κ
  | .init list | .insertHead list _ | .insertTail list _ | .insertAfter list _ _
  | .insertBefore list _ _ | .remove list _ => list

def change : Macro κ → ListState Node → ListState Node
  | .init _, state => listInit state
  | .insertHead _ element, state => listInsertHead state element
  | .insertTail _ element, state => listInsertTail state element
  | .insertAfter _ listElement element, state => listInsertAfter state listElement element
  | .insertBefore _ listElement element, state => listInsertBefore state listElement element
  | .remove _ element, state => listRemove state element

def run (call : Macro κ) (memory : Memory κ) : Memory κ :=
  memory.update call.list call.change

/-- The operation on the sequence. -/
def edit : Macro κ → List Node → List Node
  | .init _, _ => []
  | .insertHead _ element, values => element :: values
  | .insertTail _ element, values => values ++ [element]
  | .insertAfter _ listElement element, values =>
      values.insertIdx (values.idxOf listElement + 1) element
  | .insertBefore _ listElement element, values =>
      values.insertIdx (values.idxOf listElement) element
  | .remove _ element, values => values.erase element

/-- All other lists keep their sequence. -/
def apply (call : Macro κ) (contents : Contents κ) : Contents κ :=
  Function.update contents call.list (some (call.edit ((contents call.list).getD [])))

end Macro

def InNoList (contents : Contents κ) (element : Node) : Prop :=
  ∀ list values, contents list = some values → element ∉ values

def InList (contents : Contents κ) (list : κ) (element : Node) : Prop :=
  ∃ values, contents list = some values ∧ element ∈ values

/-- What the callers of a macro have to see to. -/
def Macro.Allowed (contents : Contents κ) : Macro κ → Prop
  | .init _ => True
  | .insertHead list element | .insertTail list element =>
      (contents list).isSome ∧ InNoList contents element
  | .insertAfter list listElement element | .insertBefore list listElement element =>
      InList contents list listElement ∧ InNoList contents element
  | .remove list element => InList contents list element

/-- Every list spells out its sequence, and no node is in two lists. -/
structure WellFormed (memory : Memory κ) (contents : Contents κ) : Prop where
  represents : ∀ list values, contents list = some values →
    Represents memory.links (memory.heads list) values
  apart : ∀ left right leftValues rightValues, left ≠ right →
    contents left = some leftValues → contents right = some rightValues →
    ∀ value ∈ leftValues, value ∉ rightValues

inductive Run : Memory κ → Contents κ → Memory κ → Contents κ → Prop
  | nil (memory contents) : Run memory contents memory contents
  | cons {memory contents call final finalContents} :
      Macro.Allowed contents call →
      Run (call.run memory) (call.apply contents) final finalContents →
      Run memory contents final finalContents

/-! ## One macro -/

theorem nodup_length {values : List Node} (nodup : values.Nodup) :
    values.length < 2 ^ 32 := by
  have injective : Function.Injective fun node : Node => node.address.toNat := by
    rintro ⟨left, _⟩ ⟨right, _⟩ equal
    rw [Node.mk.injEq]
    exact BitVec.eq_of_toNat_eq equal
  have within : values.map (fun node => node.address.toNat) ⊆ List.range' 1 (2 ^ 32 - 1) := by
    intro address member
    rcases List.mem_map.mp member with ⟨node, -, rfl⟩
    have bound := node.address.isLt
    have nonzero : node.address.toNat ≠ 0 := fun zero =>
      node.nonnull (BitVec.eq_of_toNat_eq zero)
    rw [List.mem_range'_1]
    omega
  have := ((nodup.map injective).subperm within).length_le
  rw [List.length_map, List.length_range'] at this
  omega

omit [DecidableEq κ] in
theorem WellFormed.room {memory : Memory κ} {contents : Contents κ}
    (wellFormed : WellFormed memory contents) {list : κ} {values : List Node} {element : Node}
    (listed : contents list = some values) (fresh : element ∉ values) :
    values.length + 1 < 2 ^ 32 :=
  nodup_length (List.nodup_cons.mpr ⟨fresh, (wellFormed.represents list values listed).nodup⟩)

/-- One list is changed as its sequence is; nodes outside it keep their links. -/
theorem WellFormed.update {memory : Memory κ} {contents : Contents κ}
    (wellFormed : WellFormed memory contents) {list : κ} {values : List Node}
    {change : ListState Node → ListState Node}
    (changed : Represents (change ⟨memory.links, memory.heads list⟩).links
      (change ⟨memory.links, memory.heads list⟩).head values)
    (members : ∀ value ∈ values, ∀ other otherValues, other ≠ list →
      contents other = some otherValues → value ∉ otherValues)
    (frame : ∀ other otherValues, other ≠ list → contents other = some otherValues →
      ∀ value ∈ otherValues,
        (change ⟨memory.links, memory.heads list⟩).links value = memory.links value) :
    WellFormed (memory.update list change) (Function.update contents list (some values)) where
  represents := by
    intro other otherValues listed
    by_cases same : other = list
    · subst same
      rw [Function.update_self, Option.some.injEq] at listed
      simpa [Memory.update, ← listed] using changed
    · rw [Function.update_of_ne same] at listed
      simpa [Memory.update, same] using
        (wellFormed.represents other otherValues listed).congr
          (frame other otherValues same listed)
  apart := by
    intro left right leftValues rightValues different leftListed rightListed value inLeft inRight
    by_cases leftSame : left = list
    · subst leftSame
      rw [Function.update_self, Option.some.injEq] at leftListed
      rw [Function.update_of_ne different.symm] at rightListed
      subst leftListed
      exact members value inLeft right rightValues different.symm rightListed inRight
    · rw [Function.update_of_ne leftSame] at leftListed
      by_cases rightSame : right = list
      · subst rightSame
        rw [Function.update_self, Option.some.injEq] at rightListed
        subst rightListed
        exact members value inRight left leftValues leftSame leftListed inLeft
      · rw [Function.update_of_ne rightSame] at rightListed
        exact wellFormed.apart left right leftValues rightValues different leftListed rightListed
          value inLeft inRight

/-- A node is added to a list. -/
theorem WellFormed.insert {memory : Memory κ} {contents : Contents κ}
    (wellFormed : WellFormed memory contents) {list : κ} {values edited : List Node}
    {element : Node} {change : ListState Node → ListState Node}
    (listed : contents list = some values) (fresh : InNoList contents element)
    (changed : Represents (change ⟨memory.links, memory.heads list⟩).links
      (change ⟨memory.links, memory.heads list⟩).head edited)
    (members : ∀ value ∈ edited, value = element ∨ value ∈ values)
    (frame : ∀ value, value ∉ values → value ≠ element →
      (change ⟨memory.links, memory.heads list⟩).links value = memory.links value) :
    WellFormed (memory.update list change) (Function.update contents list (some edited)) := by
  refine wellFormed.update changed ?_ ?_
  · intro value inEdited other otherValues different otherListed
    rcases members value inEdited with rfl | before
    · exact fresh other otherValues otherListed
    · exact wellFormed.apart list other values otherValues different.symm listed otherListed
        value before
  · intro other otherValues different otherListed value member
    refine frame value ?_ ?_
    · exact wellFormed.apart other list otherValues values different otherListed listed value
        member
    · rintro rfl
      exact fresh other otherValues otherListed member

theorem mem_insertIdx {values : List Node} {position : Nat} {element value : Node}
    (bound : position ≤ values.length) (member : value ∈ values.insertIdx position element) :
    value = element ∨ value ∈ values :=
  List.mem_cons.mp ((List.perm_insertIdx element values bound).mem_iff.mp member)

theorem WellFormed.run {memory : Memory κ} {contents : Contents κ} {call : Macro κ}
    (wellFormed : WellFormed memory contents) (allowed : call.Allowed contents) :
    WellFormed (call.run memory) (call.apply contents) := by
  cases call with
  | init list =>
      refine wellFormed.update (represents_nil.mpr ⟨rfl, rfl, rfl⟩) ?_ fun _ _ _ _ _ _ => rfl
      exact fun value member => absurd member List.not_mem_nil
  | insertHead list element =>
      rcases allowed with ⟨some, fresh⟩
      rcases Option.isSome_iff_exists.mp some with ⟨values, listed⟩
      have represents := wellFormed.represents list values listed
      have absent := fresh list values listed
      simp only [Macro.apply, Macro.list, Macro.edit, listed, Option.getD_some]
      exact wellFormed.insert listed fresh
        (represents.listInsertHead absent (wellFormed.room listed absent))
        (fun value member => List.mem_cons.mp member)
        fun value outside different => represents.listInsertHead_frame absent outside different
  | insertTail list element =>
      rcases allowed with ⟨some, fresh⟩
      rcases Option.isSome_iff_exists.mp some with ⟨values, listed⟩
      have represents := wellFormed.represents list values listed
      have absent := fresh list values listed
      simp only [Macro.apply, Macro.list, Macro.edit, listed, Option.getD_some]
      exact wellFormed.insert listed fresh
        (represents.listInsertTail absent (wellFormed.room listed absent))
        (fun value member => by simpa [or_comm] using member)
        fun value outside different => represents.listInsertTail_frame absent outside different
  | insertAfter list listElement element =>
      rcases allowed with ⟨⟨values, listed, member⟩, fresh⟩
      have represents := wellFormed.represents list values listed
      have absent := fresh list values listed
      have bound := List.idxOf_lt_length_of_mem member
      simp only [Macro.apply, Macro.list, Macro.edit, listed, Option.getD_some]
      exact wellFormed.insert listed fresh
        (represents.listInsertAfter member absent (wellFormed.room listed absent))
        (fun value => mem_insertIdx (by omega))
        fun value outside different =>
          represents.listInsertAfter_frame member absent outside different
  | insertBefore list listElement element =>
      rcases allowed with ⟨⟨values, listed, member⟩, fresh⟩
      have represents := wellFormed.represents list values listed
      have absent := fresh list values listed
      have bound := List.idxOf_lt_length_of_mem member
      simp only [Macro.apply, Macro.list, Macro.edit, listed, Option.getD_some]
      exact wellFormed.insert listed fresh
        (represents.listInsertBefore member absent (wellFormed.room listed absent))
        (fun value => mem_insertIdx (by omega))
        fun value outside different =>
          represents.listInsertBefore_frame member absent outside different
  | remove list element =>
      rcases allowed with ⟨values, listed, member⟩
      have represents := wellFormed.represents list values listed
      simp only [Macro.apply, Macro.list, Macro.edit, listed, Option.getD_some]
      refine wellFormed.update
        (represents.listRemove member (nodup_length represents.nodup)) ?_ ?_
      · intro value inErased other otherValues different otherListed
        exact wellFormed.apart list other values otherValues different.symm listed otherListed
          value (List.mem_of_mem_erase inErased)
      · intro other otherValues different otherListed value inOther
        exact represents.listRemove_frame member
          (wellFormed.apart other list otherValues values different otherListed listed value
            inOther)

/-! ## Runs -/

/-- After every run each list spells out the sequence that the operations on sequences
give. -/
theorem macros_implement_sequences {memory final : Memory κ}
    {contents finalContents : Contents κ} (wellFormed : WellFormed memory contents)
    (run : Run memory contents final finalContents) : WellFormed final finalContents := by
  induction run with
  | nil => exact wellFormed
  | cons allowed _ induction => exact induction (wellFormed.run allowed)

end Semantics

/-- Nothing is known of the heap before the first `LIST_INIT`. -/
theorem uninitialised_wellFormed {κ : Type} [DecidableEq κ] (memory : Memory κ) :
    WellFormed memory fun _ => none where
  represents := by simp
  apart := by simp

/-- A list of three nodes that loses the first. -/
theorem macros_implement_sequences_three_nodes :
    ∃ (second third : Node) (final : Memory Unit) (contents : Contents Unit),
      Run ⟨fun _ => Link.null, fun _ => ⟨none, none, none, 7⟩⟩ (fun _ => none) final contents ∧
      contents () = some [third, second] ∧ WellFormed final contents := by
  let first : Node := ⟨8, by decide⟩
  let second : Node := ⟨12, by decide⟩
  let third : Node := ⟨16, by decide⟩
  have run : Run (⟨fun _ => Link.null, fun _ => ⟨none, none, none, 7⟩⟩ : Memory Unit)
      (fun _ => none) _ _ :=
    .cons (show Macro.Allowed _ (.init ()) from trivial) <|
    .cons (show Macro.Allowed _ (.insertHead () first) from
      ⟨rfl, by rintro ⟨⟩ values ⟨⟩; decide⟩) <|
    .cons (show Macro.Allowed _ (.insertAfter () first second) from
      ⟨⟨_, rfl, by decide⟩, by rintro ⟨⟩ values ⟨⟩; decide⟩) <|
    .cons (show Macro.Allowed _ (.insertBefore () second third) from
      ⟨⟨_, rfl, by decide⟩, by rintro ⟨⟩ values ⟨⟩; decide⟩) <|
    .cons (show Macro.Allowed _ (.remove () first) from ⟨_, rfl, by decide⟩) <|
    .nil _ _
  exact ⟨second, third, _, _, run, by decide,
    macros_implement_sequences (uninitialised_wellFormed _) run⟩

/-! ## `LIST_CONCAT` -/

section Concat

variable {links : Node → Link Node} {list1 list2 : ListHead Node} {left right : List Node}

/-- The first list has the elements of both, and the second one is empty. -/
structure Joined (left right : List Node) (result : ListPair Node) : Prop where
  first : Represents result.links result.list1 (left ++ right)
  second : Represents result.links result.list2 []

/-- A second list that is not empty is joined with its size lost, or it stays as it is. -/
theorem concat_joins_iff (lists : TwoLists links list1 list2 left right) :
    (∃ result, listConcat ⟨links, list1, list2⟩ = some result ∧ Joined left right result) ↔
      right = [] := by
  rcases lists.listConcat (nodup_length lists.first.nodup) (nodup_length lists.second.nodup)
    with ⟨result, returned, concatenated⟩
  have size := concatenated.size
  have second := concatenated.second
  constructor
  · rintro ⟨other, also, joined⟩
    rw [returned, Option.some.injEq] at also
    subst also
    by_cases empty : left = []
    · rw [if_pos empty] at second
      have none := joined.second.first
      rw [second, lists.second.first] at none
      exact List.eq_nil_of_length_eq_zero (by simpa using none)
    · rw [if_neg empty] at size
      have sum := joined.first.size
      rw [size, List.length_append] at sum
      exact List.eq_nil_of_length_eq_zero (by omega)
  · rintro rfl
    refine ⟨result, returned, ⟨concatenated.linked, lists.nodup_append, concatenated.first,
      concatenated.last, ?_⟩, ?_⟩
    · rw [size, List.append_nil]
      split
      · next empty => rw [empty]
      · rfl
    · rw [second]
      split
      · exact lists.second.congr fun _ member => absurd member List.not_mem_nil
      · exact represents_nil.mpr ⟨rfl, rfl, rfl⟩

/-- The head of a list of one node. -/
def single (node : Node) : ListHead Node := ⟨some node, some node, none, 1⟩

theorem single_represents (node : Node) : Represents (fun _ => Link.null) (single node) [node] where
  linked index value found := by
    cases index with
    | zero => exact ⟨rfl, rfl⟩
    | succ index => simp at found
  nodup := List.nodup_singleton node
  first := rfl
  last := rfl
  size := rfl

/-- Nothing is put behind a node. -/
theorem concat_joins_nothing :
    ∃ result, listConcat ⟨fun _ => Link.null, single ⟨8, by decide⟩, ⟨none, none, none, 0⟩⟩ =
      some result ∧ Joined [⟨8, by decide⟩] [] result :=
  (concat_joins_iff ⟨single_represents _, represents_nil.mpr ⟨rfl, rfl, rfl⟩,
    fun _ _ => List.not_mem_nil⟩).mpr rfl

/-- The list of two nodes has size 1. -/
theorem concat_loses_size :
    let left : Node := ⟨8, by decide⟩
    let right : Node := ⟨12, by decide⟩
    TwoLists (fun _ => Link.null) (single left) (single right) [left] [right] ∧
      ¬∃ result, listConcat ⟨fun _ => Link.null, single left, single right⟩ = some result ∧
        Joined [left] [right] result := by
  intro left right
  refine ⟨⟨single_represents left, single_represents right, by decide⟩, ?_⟩
  rintro ⟨result, returned, joined⟩
  have size := joined.first.size
  cases returned
  revert size
  decide

end Concat

end FosKernel.ListMacros
