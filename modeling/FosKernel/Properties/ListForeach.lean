import FosKernel.Properties.ListMacros

/-! # Traversal with removal

`LIST_FOREACH` keeps the next element in the head of the list while the body works on the
current one.
-/

namespace FosKernel.ListMacros

open LinkedList

section Traversal

variable {κ : Type} [DecidableEq κ]

/-- Store into the field `___ptr_next` of a list head. -/
def Memory.setPtrNext (memory : Memory κ) (list : κ) (next : Option Node) : Memory κ :=
  { memory with
    heads := Function.update memory.heads list { memory.heads list with ptrNext := next } }

def Memory.setLink (memory : Memory κ) (element : Node) (link : Link Node) : Memory κ :=
  { memory with links := Function.update memory.links element link }

/-- One execution of the body: the element it was given and the memory it left. -/
structure Visit (κ : Type) where
  element : Node
  after : Memory κ

/-- `LIST_FOREACH`. The body may work on more than the lists. The loop goes on as long as
the scratch pointer or the variable is not `NULL`, and after `NULL` the scratch pointer is
`NULL` as well. -/
def listForeach (list : κ) (body : Node → Memory κ × α → Memory κ × α) :
    Nat → Option Node → Memory κ × α → Option (List (Visit κ) × (Memory κ × α))
  | 0, _, _ => none
  | fuel + 1, var, (memory, others) =>
      let next := var.bind fun element => (memory.links element).next
      let memory := memory.setPtrNext list next
      match var with
      | none => some ([], (memory, others))
      | some element =>
          let state := body element (memory, others)
          match listForeach list body fuel (state.1.heads list).ptrNext state with
          | none => none
          | some (visits, final) => some (⟨element, state.1⟩ :: visits, final)

/-- What a body does to the lists when it is given `element` of `list`: it works on other
lists, traverses them, removes the element, or writes to a node that is in no list. -/
inductive BodyStep (list : κ) (element : Node) :
    Memory κ → Contents κ → Memory κ → Contents κ → Prop
  | elsewhere {memory contents} (call : Macro κ) (different : call.list ≠ list)
      (allowed : call.Allowed contents) :
      BodyStep list element memory contents (call.run memory) (call.apply contents)
  | traverse {memory contents} (other : κ) (next : Option Node) (different : other ≠ list) :
      BodyStep list element memory contents (memory.setPtrNext other next) contents
  | remove {memory contents} (member : InList contents list element) :
      BodyStep list element memory contents ((Macro.remove list element).run memory)
        ((Macro.remove list element).apply contents)
  | write {memory contents} (node : Node) (link : Link Node) (free : InNoList contents node) :
      BodyStep list element memory contents (memory.setLink node link) contents

inductive BodyRun (list : κ) (element : Node) :
    Memory κ → Contents κ → Memory κ → Contents κ → Prop
  | nil (memory contents) : BodyRun list element memory contents memory contents
  | cons {memory contents middle middleContents final finalContents} :
      BodyStep list element memory contents middle middleContents →
      BodyRun list element middle middleContents final finalContents →
      BodyRun list element memory contents final finalContents

/-- Whenever the loop executes the body, the body keeps to the permitted steps and sees to
what it needs the next time, with the next value of the variable. -/
def Permitted (list : κ) (body : Node → Memory κ × α → Memory κ × α)
    (needs : Option Node → Contents κ → Memory κ × α → Prop) : Prop :=
  ∀ element memory others contents, WellFormed memory contents →
    InList contents list element → needs (some element) contents (memory, others) →
    let called := (memory.setPtrNext list (memory.links element).next, others)
    let after := body element called
    ∃ contentsAfter, BodyRun list element called.1 contents after.1 contentsAfter ∧
      needs (after.1.heads list).ptrNext contentsAfter after

/-- The body left its element in the list. -/
def Visit.Kept (visit : Visit κ) (list : κ) : Prop :=
  ∃ values, Represents visit.after.links (visit.after.heads list) values ∧
    visit.element ∈ values

/-! ## The body -/

theorem WellFormed.setPtrNext {memory : Memory κ} {contents : Contents κ}
    (wellFormed : WellFormed memory contents) (list : κ) (next : Option Node) :
    WellFormed (memory.setPtrNext list next) contents where
  represents := by
    intro other values listed
    have represents := wellFormed.represents other values listed
    by_cases same : other = list
    · subst same
      simp only [Memory.setPtrNext, Function.update_self]
      exact ⟨represents.linked, represents.nodup, represents.first, represents.last,
        represents.size⟩
    · simpa only [Memory.setPtrNext, Function.update_of_ne same] using represents
  apart := wellFormed.apart

omit [DecidableEq κ] in
theorem WellFormed.setLink {memory : Memory κ} {contents : Contents κ}
    (wellFormed : WellFormed memory contents) {node : Node} (free : InNoList contents node)
    (link : Link Node) : WellFormed (memory.setLink node link) contents where
  represents := by
    intro other values listed
    apply (wellFormed.represents other values listed).congr
    intro value member
    apply Function.update_of_ne
    rintro rfl
    exact free other values listed member
  apart := wellFormed.apart

/-- An element that was removed from its list is free for other lists. -/
theorem WellFormed.removed_free {memory : Memory κ} {contents : Contents κ}
    (wellFormed : WellFormed memory contents) {list : κ} {element : Node}
    (member : InList contents list element) :
    InNoList ((Macro.remove list element).apply contents) element := by
  rcases member with ⟨values, listed, inValues⟩
  intro other otherValues otherListed
  by_cases same : other = list
  · subst same
    simp only [Macro.apply, Macro.list, Macro.edit, listed, Option.getD_some,
      Function.update_self, Option.some.injEq] at otherListed
    subst otherListed
    exact (wellFormed.represents other values listed).nodup.not_mem_erase
  · rw [Macro.apply, Macro.list, Function.update_of_ne same] at otherListed
    exact wellFormed.apart list other values otherValues (Ne.symm same) listed otherListed
      element inValues

/-- The lists stay well formed, the list that is traversed keeps its scratch pointer and
loses at most the element. -/
theorem BodyStep.effect {memory after : Memory κ} {contents contentsAfter : Contents κ}
    {list : κ} {element : Node}
    (step : BodyStep list element memory contents after contentsAfter)
    (wellFormed : WellFormed memory contents) :
    WellFormed after contentsAfter ∧
    (after.heads list).ptrNext = (memory.heads list).ptrNext ∧
    (contentsAfter list = contents list ∨
      ∃ values, contents list = some values ∧ element ∈ values ∧
        contentsAfter list = some (values.erase element)) := by
  cases step with
  | elsewhere call different allowed =>
      refine ⟨wellFormed.run allowed, ?_, .inl ?_⟩
      · simp [Macro.run, Memory.update, Function.update_of_ne different.symm]
      · exact Function.update_of_ne different.symm _ _
  | traverse other next different =>
      refine ⟨wellFormed.setPtrNext other next, ?_, .inl rfl⟩
      simp [Memory.setPtrNext, Function.update_of_ne different.symm]
  | remove member =>
      refine ⟨wellFormed.run member, ?_, .inr ?_⟩
      · rcases member with ⟨values, listed, inValues⟩
        have represents := wellFormed.represents list values listed
        simpa [Macro.run, Memory.update, Macro.list, Macro.change] using
          represents.listRemove_ptrNext inValues
      · rcases member with ⟨values, listed, inValues⟩
        exact ⟨values, listed, inValues, by simp [Macro.apply, Macro.list, Macro.edit, listed]⟩
  | write node link free => exact ⟨wellFormed.setLink free link, rfl, .inl rfl⟩

theorem BodyRun.effect {memory after : Memory κ} {contents contentsAfter : Contents κ}
    {list : κ} {element : Node} {values current : List Node}
    (run : BodyRun list element memory contents after contentsAfter)
    (wellFormed : WellFormed memory contents) (nodup : values.Nodup)
    (listed : contents list = some current)
    (known : current = values ∨ current = values.erase element) :
    WellFormed after contentsAfter ∧
    (after.heads list).ptrNext = (memory.heads list).ptrNext ∧
    (contentsAfter list = some values ∨ contentsAfter list = some (values.erase element)) := by
  induction run generalizing current with
  | nil memory contents =>
      refine ⟨wellFormed, rfl, ?_⟩
      exact known.imp (fun equal => listed.trans (congrArg some equal))
        fun equal => listed.trans (congrArg some equal)
  | cons step _ induction =>
      rcases step.effect wellFormed with ⟨middleWellFormed, scratch, same | removed⟩
      · rcases induction middleWellFormed (same.trans listed) known with
          ⟨finalWellFormed, finalScratch, left⟩
        exact ⟨finalWellFormed, finalScratch.trans scratch, left⟩
      · rcases removed with ⟨before, beforeListed, member, erased⟩
        obtain rfl : before = current := Option.some.inj (beforeListed.symm.trans listed)
        -- The element can be taken out of the list only once.
        have untouched : before = values := by
          rcases known with equal | gone
          · exact equal
          · rw [gone] at member
            exact absurd member nodup.not_mem_erase
        subst untouched
        rcases induction middleWellFormed erased (.inr rfl) with
          ⟨finalWellFormed, finalScratch, left⟩
        exact ⟨finalWellFormed, finalScratch.trans scratch, left⟩

/-! ## The loop -/

theorem erase_middle {before after : List Node} {element : Node}
    (nodup : (before ++ element :: after).Nodup) :
    (before ++ element :: after).erase element = before ++ after := by
  have fresh : element ∉ before := by
    intro member
    exact (List.nodup_append.mp nodup).2.2 element member element List.mem_cons_self rfl
  rw [List.erase_append_right _ fresh, List.erase_cons_head]

section Loop

variable {list : κ} {body : Node → Memory κ × α → Memory κ × α}
variable {needs : Option Node → Contents κ → Memory κ × α → Prop}

/-- The element behind `kept` is given to the body, which leaves it in the list or not. -/
theorem Permitted.once (permitted : Permitted list body needs) {kept tail : List Node}
    {element : Node} {memory : Memory κ} {others : α} {contents : Contents κ}
    (wellFormed : WellFormed memory contents)
    (listed : contents list = some (kept ++ element :: tail))
    (ready : needs (some element) contents (memory, others)) :
    (memory.links element).next = tail.head? ∧
    ∃ after contentsAfter, body element (memory.setPtrNext list tail.head?, others) = after ∧
      WellFormed after.1 contentsAfter ∧ (after.1.heads list).ptrNext = tail.head? ∧
      needs tail.head? contentsAfter after ∧
      (contentsAfter list = some ((kept ++ [element]) ++ tail) ∨
        contentsAfter list = some (kept ++ tail)) := by
  have represents := wellFormed.represents list _ listed
  have nodup := represents.nodup
  have next : (memory.links element).next = tail.head? := by
    have placed : (kept ++ element :: tail)[kept.length]? = some element := by simp
    rw [(represents.linked kept.length element placed).1,
      List.getElem?_append_right (by omega)]
    simp [List.head?_eq_getElem?]
  have member : InList contents list element := ⟨_, listed, by simp⟩
  obtain ⟨contentsAfter, run, again⟩ :=
    permitted element memory others contents wellFormed member ready
  rw [next] at run again
  obtain ⟨afterWellFormed, scratch, left⟩ :=
    run.effect (wellFormed.setPtrNext list _) nodup listed (.inl rfl)
  rw [erase_middle nodup] at left
  have following : ((body element (memory.setPtrNext list tail.head?, others)).1.heads
      list).ptrNext = tail.head? := by
    rw [scratch]
    simp [Memory.setPtrNext]
  rw [following] at again
  refine ⟨next, _, contentsAfter, rfl, afterWellFormed, following, again, ?_⟩
  rwa [List.append_assoc, List.singleton_append]

/-- From any point of the traversal on: `kept` has been visited and stays, the elements of
`rest` are visited in order and those that their bodies leave stay. -/
theorem listForeach_from (permitted : Permitted list body needs) {rest : List Node} :
    ∀ {fuel : Nat} {kept : List Node} {memory : Memory κ} {others : α} {contents : Contents κ},
    rest.length < fuel → WellFormed memory contents → contents list = some (kept ++ rest) →
    needs rest.head? contents (memory, others) →
    ∃ visits final finalContents survivors,
      listForeach list body fuel rest.head? (memory, others) = some (visits, final) ∧
      visits.map Visit.element = rest ∧ WellFormed final.1 finalContents ∧
      finalContents list = some (kept ++ survivors) ∧ survivors.Sublist rest ∧
      ∀ visit ∈ visits, visit.element ∈ survivors ↔ visit.Kept list := by
  induction rest with
  | nil =>
      intro fuel kept memory others contents enough wellFormed listed _
      cases fuel with
      | zero => simp at enough
      | succ fuel =>
          exact ⟨[], _, contents, [], rfl, rfl, wellFormed.setPtrNext list _, listed,
            List.Sublist.refl _, by simp⟩
  | cons element tail induction =>
      intro fuel kept memory others contents enough wellFormed listed ready
      cases fuel with
      | zero => simp at enough
      | succ fuel =>
          have nodup := (wellFormed.represents list _ listed).nodup
          obtain ⟨next, after, contentsAfter, state, afterWellFormed, following, again, left⟩ :=
            permitted.once wellFormed listed ready
          have unfolded : ∀ {visits final},
              listForeach list body fuel tail.head? after = some (visits, final) →
              listForeach list body (fuel + 1) (element :: tail).head? (memory, others) =
                some (⟨element, after.1⟩ :: visits, final) := by
            intro visits final found
            simp only [listForeach, List.head?_cons, Option.bind_some, next, state, following,
              found]
          have fresh : element ∉ tail :=
            (List.nodup_cons.mp (List.nodup_append.mp nodup).2.1).1
          have enough : tail.length < fuel := by
            simp only [List.length_cons] at enough
            omega
          rcases left with stays | gone
          · obtain ⟨visits, final, finalContents, survivors, found, order, finalWellFormed,
              remaining, sublist, outcome⟩ := induction enough afterWellFormed stays again
            refine ⟨_, final, finalContents, element :: survivors, unfolded found, ?_,
              finalWellFormed, ?_, sublist.cons_cons element, ?_⟩
            · simp [order]
            · simpa using remaining
            · intro visit visited
              rcases List.mem_cons.mp visited with rfl | later
              · have spelled := afterWellFormed.represents list _ stays
                exact iff_of_true List.mem_cons_self ⟨_, spelled, by simp⟩
              · have inTail : visit.element ∈ tail := order ▸ List.mem_map_of_mem later
                have different : visit.element ≠ element := fun equal => fresh (equal ▸ inTail)
                rw [List.mem_cons, or_iff_right different]
                exact outcome visit later
          · obtain ⟨visits, final, finalContents, survivors, found, order, finalWellFormed,
              remaining, sublist, outcome⟩ := induction enough afterWellFormed gone again
            refine ⟨_, final, finalContents, survivors, unfolded found, ?_, finalWellFormed,
              remaining, sublist.cons element, ?_⟩
            · simp [order]
            · intro visit visited
              rcases List.mem_cons.mp visited with rfl | later
              · refine iff_of_false (fun survives => fresh (sublist.subset survives)) ?_
                rintro ⟨values, spelled, inValues⟩
                have equal := spelled.unique (afterWellFormed.represents list _ gone)
                rw [equal] at inValues
                have apart := (List.nodup_append.mp nodup).2.2
                rcases List.mem_append.mp inValues with inKept | inTail
                · exact apart element inKept element List.mem_cons_self rfl
                · exact fresh inTail
              · exact outcome visit later

end Loop

end Traversal

/-- The loop visits the elements that the list has at the start, each once and in order,
it ends, and the list is left with the elements that the body did not remove. -/
theorem foreach_tolerates_removal {κ : Type} [DecidableEq κ] {list : κ}
    {body : Node → Memory κ × α → Memory κ × α}
    {needs : Option Node → Contents κ → Memory κ × α → Prop} {memory : Memory κ} {others : α}
    {contents : Contents κ} {values : List Node} {fuel : Nat}
    (wellFormed : WellFormed memory contents) (listed : contents list = some values)
    (permitted : Permitted list body needs)
    (ready : needs (memory.heads list).first contents (memory, others))
    (enough : values.length < fuel) :
    ∃ visits final finalContents remaining,
      listForeach list body fuel (memory.heads list).first (memory, others) =
        some (visits, final) ∧
      visits.map Visit.element = values ∧ values.Nodup ∧
      WellFormed final.1 finalContents ∧ finalContents list = some remaining ∧
      remaining.Sublist values ∧
      ∀ visit ∈ visits, visit.element ∈ remaining ↔ visit.Kept list := by
  have represents := wellFormed.represents list values listed
  have first : (memory.heads list).first = values.head? :=
    represents.first.trans List.head?_eq_getElem?.symm
  obtain ⟨visits, final, finalContents, survivors, found, order, finalWellFormed, remaining,
    sublist, outcome⟩ := listForeach_from permitted enough wellFormed
      (show contents list = some ([] ++ values) from listed) (first ▸ ready)
  refine ⟨visits, final, finalContents, survivors, ?_, order, represents.nodup,
    finalWellFormed, remaining, sublist, outcome⟩
  rw [first]
  exact found

/-- A body that moves one node to the end of another list. -/
def moveNode (moved : Node) (element : Node) (state : Memory Bool × Unit) :
    Memory Bool × Unit :=
  if element = moved then
    ((Macro.insertTail false element).run ((Macro.remove true element).run state.1), ())
  else state

theorem moveNode_permitted (moved : Node) :
    Permitted true (moveNode moved) fun _ contents _ => (contents false).isSome := by
  intro element memory others contents wellFormed member ready called after
  by_cases same : element = moved
  · have insertion : (Macro.insertTail false element).Allowed
        ((Macro.remove true element).apply contents) := by
      constructor
      · simpa [Macro.apply, Macro.list] using ready
      · exact wellFormed.removed_free member
    refine ⟨(Macro.insertTail false element).apply ((Macro.remove true element).apply contents),
      ?_, ?_⟩
    · have moves : after = _ := if_pos same
      rw [moves]
      apply BodyRun.cons (.remove member)
      apply BodyRun.cons (.elsewhere _ (by simp [Macro.list]) insertion)
      exact .nil _ _
    · simp [Macro.apply, Macro.list]
  · refine ⟨contents, ?_, ready⟩
    have stays : after = called := if_neg same
    rw [stays]
    exact .nil _ _

theorem foreach_tolerates_removal_three_nodes :
    ∃ (first second third : Node) (memory : Memory Bool) (contents : Contents Bool),
      contents true = some [first, second, third] ∧
      ∃ visits final finalContents remaining,
        listForeach true (moveNode second) 4 (memory.heads true).first (memory, ()) =
          some (visits, final) ∧
        visits.map Visit.element = [first, second, third] ∧ [first, second, third].Nodup ∧
        WellFormed final.1 finalContents ∧ finalContents true = some remaining ∧
        remaining.Sublist [first, second, third] ∧
        ∀ visit ∈ visits, visit.element ∈ remaining ↔ visit.Kept true := by
  let first : Node := ⟨8, by decide⟩
  let second : Node := ⟨12, by decide⟩
  let third : Node := ⟨16, by decide⟩
  have wellFormed := ((((uninitialised_wellFormed
    (⟨fun _ => Link.null, fun _ => ⟨none, none, none, 7⟩⟩ : Memory Bool)).run
    (show Macro.Allowed _ (.init true) from trivial)).run
    (show Macro.Allowed _ (.init false) from trivial)).run
    (show Macro.Allowed _ (.insertHead true third) from
      ⟨rfl, by rintro ⟨⟩ values ⟨⟩ <;> decide⟩)).run
    (show Macro.Allowed _ (.insertHead true second) from
      ⟨rfl, by rintro ⟨⟩ values ⟨⟩ <;> decide⟩)
  have wellFormed := wellFormed.run (show Macro.Allowed _ (.insertHead true first) from
    ⟨rfl, by rintro ⟨⟩ values ⟨⟩ <;> decide⟩)
  obtain ⟨memory, contents, wellFormed, listed, ready⟩ :
      ∃ (memory : Memory Bool) (contents : Contents Bool), WellFormed memory contents ∧
        contents true = some [first, second, third] ∧ (contents false).isSome :=
    ⟨_, _, wellFormed, rfl, rfl⟩
  exact ⟨first, second, third, memory, contents, listed,
    foreach_tolerates_removal wellFormed listed (moveNode_permitted second) ready (by decide)⟩

end FosKernel.ListMacros
