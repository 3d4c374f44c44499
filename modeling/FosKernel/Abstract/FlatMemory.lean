import Mathlib.Logic.Function.Basic

/-! # A memory of pages

What a program knows of its memory: the word that it wrote last is the one that it reads. A
page that was not there may appear with any words.
-/

namespace FosKernel

/-- What happens to one page of a memory. -/
inductive MemoryAccess (π ι α : Type)
  | read (page : π) (index : ι) (word : α)
  | write (page : π) (index : ι) (word : α)
  /-- The page is used, and appears if it was not there. -/
  | touch (page : π)
  deriving DecidableEq

abbrev FlatMemory (π ι α : Type) := π → Option (ι → α)

namespace FlatMemory

section Words

variable {π ι α : Type} {memory middle : FlatMemory π ι α} {page : π} {index : ι} {word : α}

/-- Every page is as it was; a page that was not there may have appeared. -/
structure Appears (memory : FlatMemory π ι α) (page : π) (after : FlatMemory π ι α) : Prop where
  others : ∀ other, other ≠ page → after other = memory other
  kept : ∀ contents, memory page = some contents → after page = some contents

/-- The page is there and has the word. -/
def Holds (memory : FlatMemory π ι α) (page : π) (index : ι) (word : α) : Prop :=
  ∃ contents, memory page = some contents ∧ contents index = word

theorem Holds.unique {other : α} (holds : Holds memory page index word)
    (again : Holds memory page index other) : word = other := by
  rcases holds with ⟨contents, found, rfl⟩
  rcases again with ⟨_, foundAgain, rfl⟩
  rw [found] at foundAgain
  cases foundAgain
  rfl

theorem Appears.holds (appears : Appears memory page middle) {other : π}
    (holds : Holds memory other index word) : Holds middle other index word := by
  rcases holds with ⟨contents, found, rfl⟩
  by_cases same : other = page
  · subst same
    exact ⟨contents, appears.kept contents found, rfl⟩
  · exact ⟨contents, (appears.others other same).trans found, rfl⟩

end Words

variable {π ι α : Type} [DecidableEq π] [DecidableEq ι]

/-- Change one word of a page. -/
def put (memory : FlatMemory π ι α) (page : π) (contents : ι → α) (index : ι) (word : α) :
    FlatMemory π ι α :=
  Function.update memory page (some (Function.update contents index word))

inductive Step (memory : FlatMemory π ι α) : MemoryAccess π ι α → FlatMemory π ι α → Prop
  | read {page contents} (index) : memory page = some contents →
      Step memory (.read page index (contents index)) memory
  | write {page contents} (index word) : memory page = some contents →
      Step memory (.write page index word) (memory.put page contents index word)
  | touch {page after} : Appears memory page after → Step memory (.touch page) after

inductive Steps : FlatMemory π ι α → List (MemoryAccess π ι α) → FlatMemory π ι α → Prop
  | nil {memory} : Steps memory [] memory
  | cons {memory middle final access accesses} : Step memory access middle →
      Steps middle accesses final → Steps memory (access :: accesses) final

/-- The word that was written last. -/
def lastWritten (page : π) (index : ι) : List (MemoryAccess π ι α) → Option α
  | [] => none
  | .write other at' word :: accesses =>
      (lastWritten page index accesses).or (if other = page ∧ at' = index then some word else none)
  | .read _ _ _ :: accesses | .touch _ :: accesses => lastWritten page index accesses

section Last

variable {memory middle final : FlatMemory π ι α} {accesses : List (MemoryAccess π ι α)}
variable {page : π} {index : ι} {word : α} {contents : ι → α}

theorem holds_put_self : Holds (memory.put page contents index word) page index word :=
  ⟨_, Function.update_self _ _ _, Function.update_self _ _ _⟩

theorem Holds.put {other : π} {at' : ι} {value : α} (holds : Holds memory page index word)
    (found : memory other = some contents) (apart : ¬(other = page ∧ at' = index)) :
    Holds (memory.put other contents at' value) page index word := by
  rcases holds with ⟨before, foundPage, rfl⟩
  by_cases same : other = page
  · subst same
    rw [found] at foundPage
    cases foundPage
    refine ⟨_, Function.update_self _ _ _, Function.update_of_ne ?_ _ _⟩
    exact fun equal => apart ⟨rfl, equal.symm⟩
  · exact ⟨before, (Function.update_of_ne (Ne.symm same) _ _).trans foundPage, rfl⟩

/-- A word stays until another one is written. -/
theorem Steps.holds (steps : Steps memory accesses final) :
    (∀ word, Holds memory page index word → lastWritten page index accesses = none →
      Holds final page index word) ∧
    ∀ word, lastWritten page index accesses = some word → Holds final page index word := by
  induction steps with
  | nil => exact ⟨fun word holds _ => holds, nofun⟩
  | @cons memory middle final access accesses step steps induction =>
      cases step with
      | read at' found => exact induction
      | touch appears =>
          refine ⟨fun word holds unwritten => ?_, induction.2⟩
          exact induction.1 word (appears.holds holds) unwritten
      | @write other contents at' value found =>
          simp only [lastWritten]
          cases later : lastWritten page index accesses with
          | some word =>
              rw [later] at induction
              exact ⟨nofun, induction.2⟩
          | none =>
              rw [Option.none_or]
              by_cases own : other = page ∧ at' = index
              · rw [if_pos own]
                rcases own with ⟨rfl, rfl⟩
                refine ⟨nofun, ?_⟩
                rintro _ ⟨⟩
                exact induction.1 value holds_put_self later
              · rw [if_neg own]
                exact ⟨fun word holds _ => induction.1 word (holds.put found own) later, nofun⟩

theorem Steps.append_cons {before after : List (MemoryAccess π ι α)} {access : MemoryAccess π ι α}
    (steps : Steps memory (before ++ access :: after) final) :
    ∃ middle next, Steps memory before middle ∧ Step middle access next := by
  induction before generalizing memory with
  | nil =>
      cases steps with
      | cons step _ => exact ⟨memory, _, .nil, step⟩
  | cons first before induction =>
      cases steps with
      | cons step steps =>
          rcases induction steps with ⟨middle, next, reached, last⟩
          exact ⟨middle, next, .cons step reached, last⟩

theorem Steps.append {later : List (MemoryAccess π ι α)} (steps : Steps memory accesses middle)
    (continued : Steps middle later final) : Steps memory (accesses ++ later) final := by
  induction steps with
  | nil => exact continued
  | cons step _ induction => exact .cons step (induction continued)

/-- The word that is read is the one that was written last, or the one that was there at the
start. -/
theorem Steps.read_last {before after : List (MemoryAccess π ι α)}
    (steps : Steps memory (before ++ .read page index word :: after) final) :
    (∀ written, lastWritten page index before = some written → word = written) ∧
    (lastWritten page index before = none → ∀ contents, memory page = some contents →
      word = contents index) := by
  rcases steps.append_cons with ⟨middle, next, reached, read⟩
  have now : Holds middle page index word := by
    cases read with
    | read at' found => exact ⟨_, found, rfl⟩
  constructor
  · intro written last
    exact now.unique (reached.holds.2 written last)
  · intro unwritten contents found
    exact now.unique (reached.holds.1 _ ⟨contents, found, rfl⟩ unwritten)

end Last

end FlatMemory

end FosKernel
