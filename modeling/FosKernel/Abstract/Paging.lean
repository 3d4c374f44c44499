import FosKernel.Abstract.Consistency

/-! # Paging on consistent memory

Eviction to the two lists, restoring of buffered pages, creation and removal of page
tables, the window on the working set, and the working set itself.
-/

namespace FosKernel.Consistent

open LinkedList

variable {ghost : Ghost} {view : View} {frame : Nat} {slot : Slot} {word : Word}

/-- Flags of a present entry change. -/
theorem reflag (consistent : Consistent ghost view)
    (before : hasPerm (view.entry slot) permPresent = true)
    (after : hasPerm word permPresent = true)
    (same : frameOf word = frameOf (view.entry slot)) :
    Consistent ghost (view.setEntry slot word) := by
  have entryOf : ∀ other, other ≠ slot →
      (view.setEntry slot word).entry other = view.entry other := by
    intro other different
    simp [View.setEntry, different]
  have ownEntry : (view.setEntry slot word).entry slot = word := by
    simp [View.setEntry]
  have presentOf : ∀ other,
      hasPerm ((view.setEntry slot word).entry other) permPresent =
        hasPerm (view.entry other) permPresent := by
    intro other
    by_cases own : other = slot
    · rw [own, ownEntry, before, after]
    · rw [entryOf other own]
  have frameSame : ∀ other, frameOf ((view.setEntry slot word).entry other) =
      frameOf (view.entry other) := by
    intro other
    by_cases own : other = slot
    · rw [own, ownEntry, same]
    · rw [entryOf other own]
  exact
    { lists := consistent.lists
      listedManaged := consistent.listedManaged
      bounded := consistent.bounded
      anonymous := consistent.anonymous
      holds := by
        refine consistent.holds.congr fun other => ?_
        by_cases own : other = slot
        · subst own
          simp only [View.target, ownEntry, same, ne_zero_of_present before,
            ne_zero_of_present after]
        · simp only [View.target, entryOf other own]
      heldManaged := consistent.heldManaged
      counted := consistent.counted
      unbuffered := consistent.unbuffered
      present := by
        intro other unlisted someSlot held
        rw [presentOf]
        exact consistent.present other unlisted someSlot held
      idle := consistent.idle
      buffered := by
        intro other listed someSlot held
        have different : someSlot ≠ slot := by
          rintro rfl
          exact consistent.not_listed_of_present held before listed
        rw [entryOf someSlot different]
        exact consistent.buffered other listed someSlot held
      modifiedBuffered := consistent.modifiedBuffered
      toHeapLayout := { consistent.toHeapLayout with }
      toPlacement := consistent.toPlacement.congr rfl fun _ _ => rfl
      toResidency := consistent.toResidency.congr rfl rfl rfl (fun _ _ => Iff.rfl)
        (fun other hidden => (presentOf other).trans (consistent.window other hidden))
        (fun env _ page _ => ⟨presentOf _, frameSame _, rfl⟩)
        fun env page _ _ isPresent => (presentOf _).symm.trans isPresent }

/-! ## Eviction -/

/-- The frame of a present page goes to the end of a list. The page is no longer in
the working set. -/
theorem evict (consistent : Consistent ghost view) {toModified : Bool}
    (userSlot : ∃ env page, slot = .user env page)
    (held : ghost.holders frame = {slot}) (unlisted : ¬ghost.Listed frame)
    (refers : frameOf word = frame) (nonzero : word ≠ 0)
    (entry : View.BufferedEntry word (toModified = true))
    (notResident : ∀ (env page : Nat), slot = .user env page → env ∈ ghost.active →
      ¬view.Resident env page) :
    Consistent (ghost.evict frame toModified)
      (view.evict frame slot word toModified) := by
  have slotHeld : slot ∈ ghost.holders frame := by simp [held]
  have managed := consistent.heldManaged frame ⟨slot, slotHeld⟩
  have visible := (consistent.mem_holders.mp slotHeld).1
  have notFree : frame ∉ ghost.free := fun member => unlisted (.inl member)
  have notModified : frame ∉ ghost.modified := fun member => unlisted (.inr member)
  have entryOf : ∀ other, other ≠ slot →
      (view.evict frame slot word toModified).entry other = view.entry other := by
    intro other different
    cases toModified <;>
      simp [View.evict, View.setEntry, View.setBuffered, View.setInfo, View.withModified,
        View.withFree, different]
  have ownEntry : (view.evict frame slot word toModified).entry slot = word := by
    cases toModified <;>
      simp [View.evict, View.setEntry, View.withModified, View.withFree]
  have infoOf : ∀ other, other ≠ frame →
      (view.evict frame slot word toModified).info other = view.info other := by
    intro other different
    cases toModified <;>
      simp [View.evict, View.setEntry, View.setBuffered, View.setInfo, View.withModified,
        View.withFree, different]
  have ownInfo : (view.evict frame slot word toModified).info frame =
      { view.info frame with isBuffered := true } := by
    cases toModified <;>
      simp [View.evict, View.setEntry, View.setBuffered, View.setInfo, View.withModified,
        View.withFree]
  have modifiedOf : ∀ other, other ≠ frame →
      (other ∈ (ghost.evict frame toModified).modified ↔ other ∈ ghost.modified) := by
    intro other different
    cases toModified <;> simp [Ghost.evict, different]
  exact
    { lists := by
        cases toModified with
        | false =>
            exact consistent.lists.listInsertTail notFree notModified consistent.freeRoom
        | true =>
            exact (consistent.lists.symm.listInsertTail notModified notFree
              consistent.modifiedRoom).symm
      listedManaged := by
        intro other listed
        rw [Ghost.evict_managed]
        rcases Ghost.evict_listed.mp listed with before | rfl
        · exact consistent.listedManaged other before
        · exact managed
      bounded := by
        rw [Ghost.evict_managed]
        exact consistent.bounded
      anonymous := by
        intro other
        by_cases same : other = frame
        · rw [same, ownInfo]
          exact consistent.anonymous frame
        · rw [infoOf other same]
          exact consistent.anonymous other
      holds := by
        rw [Ghost.evict_holders, Ghost.evict_uncounted]
        refine consistent.holds.congr fun other => ?_
        by_cases own : other = slot
        · have target := (consistent.holds frame slot).mp slotHeld
          rw [own, target, View.target_eq_some, ownEntry]
          exact ⟨visible, nonzero, refers⟩
        · simp only [View.target, entryOf other own]
      heldManaged := by
        rw [Ghost.evict_holders, Ghost.evict_managed]
        exact consistent.heldManaged
      counted := by
        intro other otherManaged otherUnlisted
        rw [Ghost.evict_listed, not_or] at otherUnlisted
        rw [infoOf other otherUnlisted.2, Ghost.evict_holders]
        rw [Ghost.evict_managed] at otherManaged
        exact consistent.counted other otherManaged otherUnlisted.1
      unbuffered := by
        intro other otherManaged otherUnlisted
        rw [Ghost.evict_listed, not_or] at otherUnlisted
        rw [infoOf other otherUnlisted.2]
        rw [Ghost.evict_managed] at otherManaged
        exact consistent.unbuffered other otherManaged otherUnlisted.1
      present := by
        intro other otherUnlisted someSlot member
        rw [Ghost.evict_listed, not_or] at otherUnlisted
        rw [Ghost.evict_holders] at member
        have different : someSlot ≠ slot := by
          rintro rfl
          exact otherUnlisted.2 (consistent.holds.unique member slotHeld)
        rw [entryOf someSlot different]
        exact consistent.present other otherUnlisted.1 someSlot member
      idle := by
        intro other listed plain
        have different : other ≠ frame := by
          rintro rfl
          simp [ownInfo] at plain
        rw [infoOf other different] at plain
        rw [Ghost.evict_holders]
        exact consistent.idle other ((Ghost.evict_listed.mp listed).resolve_right different)
          plain
      buffered := by
        intro other listed someSlot member
        rw [Ghost.evict_holders] at member ⊢
        by_cases same : other = frame
        · subst same
          rw [held, Finset.mem_singleton] at member
          subst member
          have count := consistent.counted other managed unlisted
          rw [held, Finset.card_singleton] at count
          refine ⟨userSlot, held, ?_, ?_⟩
          · rw [ownInfo]
            exact count
          · rw [ownEntry]
            refine ⟨entry.buffered, entry.absent, entry.modified.trans ?_⟩
            cases toModified <;> simp [Ghost.evict, notModified]
        · have different : someSlot ≠ slot := by
            rintro rfl
            exact same (consistent.holds.unique member slotHeld)
          have before := consistent.buffered other
            ((Ghost.evict_listed.mp listed).resolve_right same) someSlot member
          rw [infoOf other same, entryOf someSlot different]
          refine ⟨before.1, before.2.1, before.2.2.1, before.2.2.2.buffered,
            before.2.2.2.absent, before.2.2.2.modified.trans (modifiedOf other same).symm⟩
      modifiedBuffered := by
        intro other inModified
        by_cases same : other = frame
        · rw [same, ownInfo]
        · rw [infoOf other same]
          exact consistent.modifiedBuffered other ((modifiedOf other same).mp inModified)
      toHeapLayout := by
        cases toModified <;> exact { consistent.toHeapLayout with }
      toPlacement := by
        refine consistent.toPlacement.congr ?_ fun _ _ => by rw [Ghost.evict_holders]
        cases toModified <;> rfl
      toResidency := by
        refine consistent.toResidency.congr ?_ Ghost.evict_active Ghost.evict_loose
          (fun _ _ => by rw [Ghost.evict_uncounted]) ?_ ?_ ?_
        · cases toModified <;> rfl
        · rw [Ghost.evict_uncounted]
          intro other hidden
          rw [entryOf _ fun equal => visible (equal ▸ hidden)]
          exact consistent.window other hidden
        · intro env active page resident
          rw [entryOf _ fun equal => notResident env page equal.symm active resident,
            Ghost.evict_holders]
          exact ⟨rfl, rfl, rfl⟩
        · intro env page _ _ isPresent
          have different : Slot.user env page ≠ slot := by
            rintro rfl
            rw [ownEntry, entry.absent] at isPresent
            contradiction
          rwa [entryOf _ different] at isPresent }

/-! ## Restoring -/

/-- The frame of a buffered page leaves its list and the page is present again. -/
theorem restore (consistent : Consistent ghost view) {fromModified : Bool}
    (held : slot ∈ ghost.holders frame) (listed : ghost.Listed frame)
    (list : fromModified = true ↔ frame ∈ ghost.modified)
    (refers : frameOf word = frame) (present : hasPerm word permPresent = true)
    (loose : slot ∈ ghost.loose) :
    Consistent (ghost.restore frame fromModified)
      (view.restore frame slot word fromModified) := by
  rcases consistent.buffered frame listed slot held with
    ⟨userSlot, single, one, entry⟩
  have managed := consistent.listedManaged frame listed
  have visible := (consistent.mem_holders.mp held).1
  have entryOf : ∀ other, other ≠ slot →
      (view.restore frame slot word fromModified).entry other = view.entry other := by
    intro other different
    cases fromModified <;>
      simp [View.restore, View.setEntry, View.setBuffered, View.setInfo,
        View.withModified, View.withFree, different]
  have ownEntry : (view.restore frame slot word fromModified).entry slot = word := by
    cases fromModified <;>
      simp [View.restore, View.setEntry, View.setBuffered, View.setInfo,
        View.withModified, View.withFree]
  have infoOf : ∀ other, other ≠ frame →
      (view.restore frame slot word fromModified).info other = view.info other := by
    intro other different
    cases fromModified <;>
      simp [View.restore, View.setEntry, View.setBuffered, View.setInfo,
        View.withModified, View.withFree, different]
  have ownInfo : (view.restore frame slot word fromModified).info frame =
      { view.info frame with isBuffered := false } := by
    cases fromModified <;>
      simp [View.restore, View.setEntry, View.setBuffered, View.setInfo,
        View.withModified, View.withFree]
  have inList : if fromModified then frame ∈ ghost.modified else frame ∈ ghost.free := by
    cases fromModified with
    | true => simpa using list
    | false =>
        have notModified : frame ∉ ghost.modified := by simpa using list
        simpa using listed.resolve_right notModified
  have listedOf : ∀ other, (ghost.restore frame fromModified).Listed other ↔
      ghost.Listed other ∧ other ≠ frame := by
    intro other
    have nodupFree := consistent.lists.first.nodup
    have nodupModified := consistent.lists.second.nodup
    have apart := consistent.lists.apart
    cases fromModified with
    | true =>
        simp only [Ghost.restore, Ghost.Listed, if_true, nodupModified.mem_erase_iff]
        grind
    | false =>
        simp only [Ghost.restore, Ghost.Listed, Bool.false_eq_true, if_false,
          nodupFree.mem_erase_iff]
        grind
  have modifiedOf : ∀ other, other ≠ frame →
      (other ∈ (ghost.restore frame fromModified).modified ↔ other ∈ ghost.modified) := by
    intro other different
    cases fromModified with
    | true => simp [Ghost.restore, List.mem_erase_of_ne different]
    | false => simp [Ghost.restore]
  exact
    { lists := by
        cases fromModified with
        | false =>
            have member : frame ∈ ghost.free := by simpa using inList
            have removed := consistent.lists.listRemove member
              (Nat.lt_of_succ_lt consistent.freeRoom)
            exact removed
        | true =>
            have member : frame ∈ ghost.modified := by simpa using inList
            have removed := consistent.lists.symm.listRemove member
              (Nat.lt_of_succ_lt consistent.modifiedRoom)
            exact removed.symm
      listedManaged := by
        intro other otherListed
        rw [Ghost.restore_managed]
        exact consistent.listedManaged other ((listedOf other).mp otherListed).1
      bounded := by
        rw [Ghost.restore_managed]
        exact consistent.bounded
      anonymous := by
        intro other
        by_cases same : other = frame
        · rw [same, ownInfo]
          exact consistent.anonymous frame
        · rw [infoOf other same]
          exact consistent.anonymous other
      holds := by
        rw [Ghost.restore_holders, Ghost.restore_uncounted]
        refine consistent.holds.congr fun other => ?_
        by_cases own : other = slot
        · have target := (consistent.holds frame slot).mp held
          rw [own, target, View.target_eq_some, ownEntry]
          exact ⟨visible, ne_zero_of_present present, refers⟩
        · simp only [View.target, entryOf other own]
      heldManaged := by
        rw [Ghost.restore_holders, Ghost.restore_managed]
        exact consistent.heldManaged
      counted := by
        intro other otherManaged otherUnlisted
        rw [Ghost.restore_holders]
        by_cases same : other = frame
        · rw [same, ownInfo, single, Finset.card_singleton]
          exact one
        · rw [infoOf other same]
          rw [Ghost.restore_managed] at otherManaged
          exact consistent.counted other otherManaged fun before =>
            otherUnlisted ((listedOf other).mpr ⟨before, same⟩)
      unbuffered := by
        intro other otherManaged otherUnlisted
        by_cases same : other = frame
        · rw [same, ownInfo]
        · rw [infoOf other same]
          rw [Ghost.restore_managed] at otherManaged
          exact consistent.unbuffered other otherManaged fun before =>
            otherUnlisted ((listedOf other).mpr ⟨before, same⟩)
      present := by
        intro other otherUnlisted someSlot member
        rw [Ghost.restore_holders] at member
        by_cases own : someSlot = slot
        · rw [own, ownEntry]
          exact present
        · rw [entryOf someSlot own]
          refine consistent.present other (fun before => ?_) someSlot member
          have same : other ≠ frame := by
            rintro rfl
            rw [single, Finset.mem_singleton] at member
            exact own member
          exact otherUnlisted ((listedOf other).mpr ⟨before, same⟩)
      idle := by
        intro other otherListed plain
        rcases (listedOf other).mp otherListed with ⟨before, same⟩
        rw [infoOf other same] at plain
        rw [Ghost.restore_holders]
        exact consistent.idle other before plain
      buffered := by
        intro other otherListed someSlot member
        rcases (listedOf other).mp otherListed with ⟨before, same⟩
        rw [Ghost.restore_holders] at member ⊢
        have different : someSlot ≠ slot := by
          rintro rfl
          exact same (consistent.holds.unique member held)
        have stays := consistent.buffered other before someSlot member
        rw [infoOf other same, entryOf someSlot different]
        exact ⟨stays.1, stays.2.1, stays.2.2.1, stays.2.2.2.buffered,
          stays.2.2.2.absent, stays.2.2.2.modified.trans (modifiedOf other same).symm⟩
      modifiedBuffered := by
        intro other inModified
        rcases (listedOf other).mp (.inr inModified) with ⟨-, same⟩
        rw [infoOf other same]
        exact consistent.modifiedBuffered other ((modifiedOf other same).mp inModified)
      toHeapLayout := by
        cases fromModified <;> exact { consistent.toHeapLayout with }
      toPlacement := by
        refine consistent.toPlacement.congr ?_ fun _ _ => by rw [Ghost.restore_holders]
        cases fromModified <;> rfl
      toResidency := by
        refine consistent.toResidency.congr ?_ Ghost.restore_active Ghost.restore_loose
          (fun _ _ => by rw [Ghost.restore_uncounted]) ?_ ?_ ?_
        · cases fromModified <;> rfl
        · rw [Ghost.restore_uncounted]
          intro other hidden
          rw [entryOf _ fun equal => visible (equal ▸ hidden)]
          exact consistent.window other hidden
        · intro env active page resident
          rcases resident with ⟨index, residentAt⟩
          have present := (consistent.resident env active index page residentAt).2.1
          have different : Slot.user env page ≠ slot := by
            rintro rfl
            rw [entry.absent] at present
            contradiction
          rw [entryOf _ different, Ghost.restore_holders]
          exact ⟨rfl, rfl, rfl⟩
        · intro env page tight _ isPresent
          have different : Slot.user env page ≠ slot := fun equal => tight (equal ▸ loose)
          rwa [entryOf _ different] at isPresent }

/-! ## Page tables -/

/-- A page table is entered in a directory; its frame is that of a heap page. -/
theorem setTable (consistent : Consistent ghost view) {table : Table} {page : Nat}
    (free : view.table table = 0) (present : hasPerm word permPresent = true)
    (held : ghost.holders (frameOf word) = {.heap page})
    (fresh : ∀ other, view.table other ≠ 0 →
      frameOf (view.table other) ≠ frameOf word) :
    Consistent ghost (view.setTable table word) where
  toHeapLayout := { consistent.toHeapLayout with }
  toAccounting := { consistent.toAccounting with }
  tablePresent := by
    intro other nonzero
    by_cases same : other = table
    · simpa [View.setTable, same] using present
    · simp only [View.setTable, Function.update_of_ne same] at nonzero ⊢
      exact consistent.tablePresent other nonzero
  tableHeld := by
    intro other nonzero
    by_cases same : other = table
    · exact ⟨page, by simpa [View.setTable, same] using held⟩
    · simp only [View.setTable, Function.update_of_ne same] at nonzero ⊢
      exact consistent.tableHeld other nonzero
  tableDistinct := by
    intro left right leftNonzero rightNonzero equal
    by_cases leftSame : left = table <;> by_cases rightSame : right = table
    · rw [leftSame, rightSame]
    · subst leftSame
      simp only [View.setTable, Function.update_self,
        Function.update_of_ne rightSame] at rightNonzero equal
      exact absurd equal.symm (fresh right rightNonzero)
    · subst rightSame
      simp only [View.setTable, Function.update_self,
        Function.update_of_ne leftSame] at leftNonzero equal
      exact absurd equal (fresh left leftNonzero)
    · simp only [View.setTable, Function.update_of_ne leftSame,
        Function.update_of_ne rightSame] at leftNonzero rightNonzero equal
      exact consistent.tableDistinct left right leftNonzero rightNonzero equal
  toResidency := { consistent.toResidency with }

/-- A directory forgets a table. -/
theorem clearTable (consistent : Consistent ghost view) (table : Table) :
    Consistent ghost (view.setTable table 0) := by
  have kept : ∀ other, (view.setTable table 0).table other ≠ 0 →
      (view.setTable table 0).table other = view.table other := by
    intro other nonzero
    apply Function.update_of_ne
    rintro rfl
    simp [View.setTable] at nonzero
  exact
    { toHeapLayout := { consistent.toHeapLayout with }
      toAccounting := { consistent.toAccounting with }
      tablePresent := by
        intro other nonzero
        have same := kept other nonzero
        rw [same] at nonzero ⊢
        exact consistent.tablePresent other nonzero
      tableHeld := by
        intro other nonzero
        have same := kept other nonzero
        rw [same] at nonzero ⊢
        exact consistent.tableHeld other nonzero
      tableDistinct := by
        intro left right leftNonzero rightNonzero equal
        have leftSame := kept left leftNonzero
        have rightSame := kept right rightNonzero
        rw [leftSame] at leftNonzero equal
        rw [rightSame] at rightNonzero equal
        exact consistent.tableDistinct left right leftNonzero rightNonzero equal
      toResidency := { consistent.toResidency with } }

/-- A page table without present entries is removed from its directory. -/
theorem dropTable (consistent : Consistent ghost view) {env index page : Nat}
    (nonzero : view.table (.page env index) ≠ 0)
    (refers : frameOf (view.table (.page env index)) = frame)
    (held : ghost.holders frame = {.heap page})
    (absent : ∀ slot : Slot, slot.InTable env index →
      hasPerm (view.entry slot) permPresent = false) :
    Consistent (ghost.dropTable env index page)
      ((view.setInfo frame { view.info frame with references := 0 }).dropTable
        env index) := by
  have unlisted : ¬ghost.Listed frame := refers ▸ consistent.table_not_listed nonzero
  have heapHeld : Slot.heap page ∈ ghost.holders frame := by simp [held]
  have outside : ∀ {slot : Slot}, hasPerm (view.entry slot) permPresent = true →
      ¬slot.InTable env index := by
    intro slot present inside
    rw [absent slot inside] at present
    contradiction
  have entryOf : ∀ slot : Slot, ¬slot.InTable env index →
      ((view.setInfo frame { view.info frame with references := 0 }).dropTable
        env index).entry slot = view.entry slot := by
    intro slot notInside
    simp [View.dropTable, View.setInfo, notInside]
  have infoOf : ∀ other, other ≠ frame →
      ((view.setInfo frame { view.info frame with references := 0 }).dropTable
        env index).info other = view.info other := by
    intro other different
    simp [View.dropTable, View.setInfo, different]
  have memHolders : ∀ {other slot}, slot ∈ (ghost.dropTable env index page).holders other ↔
      slot ∈ ghost.holders other ∧ slot ≠ .heap page ∧ ¬slot.InTable env index := by
    intro other slot
    simp [Ghost.dropTable]
  have unheld := ghost.dropTable_holders env index held
  -- Frames on neither list keep their entries, for these are present.
  have holdersOf : ∀ other, other ≠ frame → ¬ghost.Listed other →
      (ghost.dropTable env index page).holders other = ghost.holders other := by
    intro other different otherUnlisted
    refine Finset.filter_eq_self.mpr fun slot member => ?_
    refine ⟨?_, outside (consistent.present other otherUnlisted slot member)⟩
    rintro rfl
    exact different (consistent.holds.unique member heapHeld)
  exact
    { lists := consistent.lists
      listedManaged := consistent.listedManaged
      bounded := consistent.bounded
      anonymous := by
        intro other
        by_cases same : other = frame
        · simpa [View.dropTable, View.setInfo, same] using consistent.anonymous frame
        · rw [infoOf other same]
          exact consistent.anonymous other
      holds := by
        intro other slot
        rw [memHolders, View.target_eq_some, consistent.mem_holders]
        by_cases inside : slot.InTable env index
        · simp [View.dropTable, inside]
        · rw [entryOf slot inside]
          simp only [Ghost.dropTable, Finset.mem_insert, not_or]
          tauto
      heldManaged := by
        rintro other ⟨slot, member⟩
        exact consistent.heldManaged other ⟨slot, (memHolders.mp member).1⟩
      counted := by
        intro other managed otherUnlisted
        by_cases same : other = frame
        · subst same
          rw [unheld]
          simp [View.dropTable, View.setInfo]
        · rw [infoOf other same, holdersOf other same otherUnlisted]
          exact consistent.counted other managed otherUnlisted
      unbuffered := by
        intro other managed otherUnlisted
        by_cases same : other = frame
        · subst same
          simpa [View.dropTable, View.setInfo] using
            consistent.unbuffered other managed otherUnlisted
        · rw [infoOf other same]
          exact consistent.unbuffered other managed otherUnlisted
      present := by
        intro other otherUnlisted slot member
        rcases memHolders.mp member with ⟨before, -, notInside⟩
        rw [entryOf slot notInside]
        exact consistent.present other otherUnlisted slot before
      idle := by
        intro other listed plain
        have same : other ≠ frame := fun equal => unlisted (equal ▸ listed)
        rw [infoOf other same] at plain
        have none := consistent.idle other listed plain
        simp [Ghost.dropTable, none]
      buffered := by
        intro other listed slot member
        have same : other ≠ frame := fun equal => unlisted (equal ▸ listed)
        rcases memHolders.mp member with ⟨before, notHeap, notInside⟩
        rcases consistent.buffered other listed slot before with
          ⟨userSlot, single, one, entry⟩
        rw [infoOf other same, entryOf slot notInside]
        refine ⟨userSlot, ?_, one, entry⟩
        refine Finset.eq_singleton_iff_unique_mem.mpr ⟨member, fun someSlot someMember => ?_⟩
        have inBefore := (memHolders.mp someMember).1
        rwa [single, Finset.mem_singleton] at inBefore
      modifiedBuffered := by
        intro other inModified
        have same : other ≠ frame := fun equal => unlisted (equal ▸ .inr inModified)
        rw [infoOf other same]
        exact consistent.modifiedBuffered other inModified
      toHeapLayout := { consistent.toHeapLayout with }
      tablePresent := by
        intro table tableNonzero
        by_cases same : table = .page env index
        · simp [View.dropTable, same] at tableNonzero
        · simp only [View.dropTable, Function.update_of_ne same] at tableNonzero ⊢
          exact consistent.tablePresent table tableNonzero
      tableHeld := by
        intro table tableNonzero
        by_cases same : table = .page env index
        · simp [View.dropTable, same] at tableNonzero
        · simp only [View.dropTable, Function.update_of_ne same] at tableNonzero ⊢
          have different : frameOf (view.table table) ≠ frame := by
            rw [← refers]
            exact fun equal =>
              same (consistent.tableDistinct _ _ tableNonzero nonzero equal)
          rw [show (view.setInfo frame { view.info frame with references := 0 }).table =
            view.table from rfl,
            holdersOf _ different (consistent.table_not_listed tableNonzero)]
          exact consistent.tableHeld table tableNonzero
      tableDistinct := by
        intro left right leftNonzero rightNonzero equal
        by_cases leftSame : left = .page env index
        · simp [View.dropTable, leftSame] at leftNonzero
        · by_cases rightSame : right = .page env index
          · simp [View.dropTable, rightSame] at rightNonzero
          · simp only [View.dropTable, Function.update_of_ne leftSame,
              Function.update_of_ne rightSame] at leftNonzero rightNonzero equal
            exact consistent.tableDistinct left right leftNonzero rightNonzero equal
      toResidency := by
        refine consistent.toResidency.congr rfl rfl rfl
          (fun _ _ => by simp [Ghost.dropTable]) ?_ ?_ ?_
        · intro slot hidden
          have before : hasPerm (view.entry slot) permPresent = true := by
            rcases Finset.mem_insert.mp hidden with rfl | counted
            · exact consistent.present frame unlisted _ heapHeld
            · exact consistent.window slot counted
          rwa [entryOf slot (outside before)]
        · intro someEnv active somePage resident
          rcases resident with ⟨someIndex, residentAt⟩
          rcases consistent.resident someEnv active someIndex somePage residentAt with
            ⟨-, present, single⟩
          rw [entryOf _ (outside present)]
          refine ⟨rfl, rfl, holdersOf _ ?_ ?_⟩
          · intro equal
            rw [equal, held] at single
            have := Finset.singleton_inj.mp single
            contradiction
          · exact consistent.not_listed_of_present (by rw [single]; simp) present
        · intro someEnv somePage _ _ isPresent
          by_cases inside : (Slot.user someEnv somePage).InTable env index
          · simp [View.dropTable, inside] at isPresent
          · rwa [entryOf _ inside] at isPresent }

/-! ## Losing a buffered page -/

/-- The entry of a buffered page is given up while its frame stays on its list. -/
theorem forget (consistent : Consistent ghost view) (held : slot ∈ ghost.holders frame)
    (listed : ghost.Listed frame) :
    Consistent (ghost.detach slot) (view.setEntry slot 0) := by
  have buffered := consistent.buffered frame listed slot held
  have visible := (consistent.mem_holders.mp held).1
  have entryOf : ∀ other, other ≠ slot →
      (view.setEntry slot 0).entry other = view.entry other := by
    intro other different
    simp [View.setEntry, different]
  have holdersOf : ∀ other, slot ∉ ghost.holders other →
      (ghost.detach slot).holders other = ghost.holders other := by
    intro other absent
    exact Finset.erase_eq_of_notMem absent
  have heldOnce : ∀ other, slot ∈ ghost.holders other → other = frame := by
    intro other member
    rw [← (consistent.mem_holders.mp member).2.2, (consistent.mem_holders.mp held).2.2]
  have unlistedOther : ∀ other, ¬ghost.Listed other → slot ∉ ghost.holders other := by
    intro other unlisted member
    exact unlisted (heldOnce other member ▸ listed)
  exact
    { lists := consistent.lists
      listedManaged := consistent.listedManaged
      bounded := consistent.bounded
      anonymous := consistent.anonymous
      holds := by
        intro other someSlot
        by_cases own : someSlot = slot
        · simp [Ghost.detach, View.target, View.setEntry, own]
        · rw [show (ghost.detach slot).holders other = (ghost.holders other).erase slot from rfl,
            Finset.mem_erase, consistent.holds other someSlot, View.target_eq_some,
            View.target_eq_some, entryOf someSlot own]
          exact and_iff_right own
      heldManaged := fun other nonempty => consistent.heldManaged other
        (nonempty.mono (Finset.erase_subset _ _))
      counted := by
        intro other managed unlisted
        rw [holdersOf other (unlistedOther other unlisted)]
        exact consistent.counted other managed unlisted
      unbuffered := consistent.unbuffered
      present := by
        intro other unlisted someSlot member
        rcases Finset.mem_erase.mp member with ⟨different, before⟩
        rw [entryOf someSlot different]
        exact consistent.present other unlisted someSlot before
      idle := by
        intro other someListed plain
        rw [show (ghost.detach slot).holders other = (ghost.holders other).erase slot from rfl,
          consistent.idle other someListed plain, Finset.erase_empty]
      buffered := by
        intro other someListed someSlot member
        rcases Finset.mem_erase.mp member with ⟨different, before⟩
        have same := consistent.buffered other someListed someSlot before
        have absent : slot ∉ ghost.holders other := by
          rw [same.2.1, Finset.mem_singleton]
          exact different.symm
        rw [entryOf someSlot different, holdersOf other absent]
        exact same
      modifiedBuffered := consistent.modifiedBuffered
      toHeapLayout := { consistent.toHeapLayout with }
      toPlacement := by
        refine consistent.toPlacement.congr rfl fun table nonzero => holdersOf _ ?_
        exact unlistedOther _ (consistent.table_not_listed nonzero)
      toResidency := by
        refine consistent.toResidency.congr rfl rfl rfl (fun _ _ => Iff.rfl) ?_ ?_ ?_
        · intro other hidden
          have different : other ≠ slot := fun equal => visible (equal ▸ hidden)
          rw [entryOf other different]
          exact consistent.window other hidden
        · rintro env active page ⟨index, residentAt⟩
          rcases consistent.resident env active index page residentAt with
            ⟨-, isPresent, single⟩
          have different : Slot.user env page ≠ slot := by
            rintro rfl
            rw [buffered.2.2.2.absent] at isPresent
            contradiction
          rw [entryOf _ different]
          refine ⟨rfl, rfl, holdersOf _ ?_⟩
          rw [single, Finset.mem_singleton]
          exact different.symm
        · intro env page _ _ isPresent
          by_cases own : Slot.user env page = slot
          · simp [View.setEntry, own] at isPresent
          · rwa [entryOf _ own] at isPresent }

/-! ## Window on the working set -/

/-- An entry is added that does not count as a reference. -/
theorem share (consistent : Consistent ghost view) (empty : view.entry slot = 0)
    (present : hasPerm word permPresent = true)
    (inWindow : ∀ env page, slot = .user env page → InWindow page) :
    Consistent { ghost with uncounted := insert slot ghost.uncounted }
      (view.setEntry slot word) := by
  have notHeld : ∀ frame, slot ∉ ghost.holders frame := by
    intro frame held
    exact (consistent.mem_holders.mp held).2.1 empty
  have entryOf : ∀ other, other ≠ slot →
      (view.setEntry slot word).entry other = view.entry other := by
    intro other different
    simp [View.setEntry, different]
  have heldOther : ∀ {frame other}, other ∈ ghost.holders frame → other ≠ slot := by
    rintro frame other held rfl
    exact notHeld frame held
  exact
    { lists := consistent.lists
      listedManaged := consistent.listedManaged
      bounded := consistent.bounded
      anonymous := consistent.anonymous
      holds := by
        refine consistent.holds.congr fun other => ?_
        by_cases own : other = slot
        · simp [View.target, own, empty]
        · simp only [View.target, entryOf other own, Finset.mem_insert, own, false_or]
      heldManaged := consistent.heldManaged
      counted := consistent.counted
      unbuffered := consistent.unbuffered
      present := by
        intro frame unlisted other held
        rw [entryOf other (heldOther held)]
        exact consistent.present frame unlisted other held
      idle := consistent.idle
      buffered := by
        intro frame listed other held
        rw [entryOf other (heldOther held)]
        exact consistent.buffered frame listed other held
      modifiedBuffered := consistent.modifiedBuffered
      toHeapLayout := { consistent.toHeapLayout with }
      toPlacement := { consistent.toPlacement with }
      window := by
        intro other hidden
        by_cases own : other = slot
        · rw [own]
          simpa [View.setEntry] using present
        · rw [entryOf _ own]
          exact consistent.window other ((Finset.mem_insert.mp hidden).resolve_left own)
      windowPages := by
        intro env page hidden
        rcases Finset.mem_insert.mp hidden with own | before
        · exact inWindow env page own.symm
        · exact consistent.windowPages env page before
      lastIndex := consistent.lastIndex
      resident := by
        intro env active index page residentAt
        rcases consistent.resident env active index page residentAt with
          ⟨visible, isPresent, single⟩
        have different : Slot.user env page ≠ slot := by
          rintro rfl
          exact ne_zero_of_present isPresent empty
        rw [entryOf _ different]
        exact ⟨by simp [different, visible], isPresent, single⟩
      residentPage := consistent.residentPage
      residentOnce := consistent.residentOnce
      cleared := consistent.cleared
      tracked := by
        intro env active page isPresent visible tight
        rw [Finset.mem_insert, not_or] at visible
        rw [entryOf _ visible.1] at isPresent
        exact consistent.tracked env active page isPresent visible.2 tight }

/-! ## Working set -/

section WorkingSets

variable {env index page : Nat} {workingSet : WorkingSet}

/-- Working sets matter only through the pages they record. -/
theorem setWorkingSet (consistent : Consistent ghost view)
    (lastIndex : env ∈ ghost.active → workingSet.lastIndex < workingSet.maxSize)
    (resident : env ∈ ghost.active → ∀ index page, index < workingSet.maxSize →
      (workingSet.element index).empty = false →
      (workingSet.element index).virtualAddress = page * 4096 →
      Slot.user env page ∉ ghost.uncounted ∧
      hasPerm (view.entry (.user env page)) permPresent = true ∧
      ghost.holders (frameOf (view.entry (.user env page))) = {.user env page})
    (residentPage : env ∈ ghost.active → ∀ index, index < workingSet.maxSize →
      (workingSet.element index).empty = false →
      ∃ page, (workingSet.element index).virtualAddress = page * 4096)
    (once : env ∈ ghost.active → ∀ left right, left < workingSet.maxSize →
      right < workingSet.maxSize → (workingSet.element left).empty = false →
      (workingSet.element right).empty = false →
      (workingSet.element left).virtualAddress =
        (workingSet.element right).virtualAddress → left = right)
    (cleared : env ∈ ghost.active → ∀ index, index < workingSet.maxSize →
      (workingSet.element index).empty = true →
      (workingSet.element index).virtualAddress = 0)
    (tracked : env ∈ ghost.active → ∀ page, view.Resident env page →
      Slot.user env page ∉ ghost.loose → ∃ index, index < workingSet.maxSize ∧
        (workingSet.element index).empty = false ∧
        (workingSet.element index).virtualAddress = page * 4096) :
    Consistent ghost (view.setWorkingSet env workingSet) where
  toHeapLayout := { consistent.toHeapLayout with }
  toAccounting := { consistent.toAccounting with }
  toPlacement := { consistent.toPlacement with }
  window := consistent.window
  windowPages := consistent.windowPages
  lastIndex := by
    intro other active
    by_cases same : other = env
    · subst same
      simpa [View.setWorkingSet] using lastIndex active
    · simpa [View.setWorkingSet, same] using consistent.lastIndex other active
  resident := by
    intro other active someIndex somePage residentAt
    by_cases same : other = env
    · subst same
      simp only [View.ResidentAt, View.setWorkingSet, Function.update_self] at residentAt
      exact resident active someIndex somePage residentAt.1 residentAt.2.1 residentAt.2.2
    · simp only [View.ResidentAt, View.setWorkingSet, Function.update_of_ne same]
        at residentAt
      exact consistent.resident other active someIndex somePage residentAt
  residentPage := by
    intro other active someIndex
    by_cases same : other = env
    · subst same
      simpa [View.setWorkingSet] using residentPage active someIndex
    · simpa [View.setWorkingSet, same] using
        consistent.residentPage other active someIndex
  residentOnce := by
    intro other active left right somePage atLeft atRight
    by_cases same : other = env
    · subst same
      simp only [View.ResidentAt, View.setWorkingSet, Function.update_self] at atLeft atRight
      exact once active left right atLeft.1 atRight.1 atLeft.2.1 atRight.2.1
        (atLeft.2.2.trans atRight.2.2.symm)
    · simp only [View.ResidentAt, View.setWorkingSet, Function.update_of_ne same]
        at atLeft atRight
      exact consistent.residentOnce other active left right somePage atLeft atRight
  cleared := by
    intro other active someIndex
    by_cases same : other = env
    · subst same
      simpa [View.setWorkingSet] using cleared active someIndex
    · simpa [View.setWorkingSet, same] using consistent.cleared other active someIndex
  tracked := by
    intro other active somePage isPresent visible tight
    have before := consistent.tracked other active somePage isPresent visible tight
    by_cases same : other = env
    · subst same
      simpa [View.Resident, View.ResidentAt, View.setWorkingSet] using
        tracked active somePage before tight
    · simpa [View.Resident, View.ResidentAt, View.setWorkingSet, same] using before

/-- The working set of an environment that is not in use yet. -/
theorem setInactive (consistent : Consistent ghost view) (inactive : env ∉ ghost.active) :
    Consistent ghost (view.setWorkingSet env workingSet) :=
  consistent.setWorkingSet (fun active => absurd active inactive)
    (fun active => absurd active inactive) (fun active => absurd active inactive)
    (fun active => absurd active inactive) (fun active => absurd active inactive) fun active => absurd active inactive

/-- The clock hand moves. -/
theorem setLastIndex (consistent : Consistent ghost view) {lastIndex : Nat}
    (bound : env ∈ ghost.active → lastIndex < (view.workingSet env).maxSize) :
    Consistent ghost (view.setWorkingSet env { view.workingSet env with lastIndex }) := by
  refine consistent.setWorkingSet bound ?_ ?_ ?_ ?_ ?_
  · intro active index page bound filled address
    exact consistent.resident env active index page ⟨bound, filled, address⟩
  · intro active
    exact consistent.residentPage env active
  · intro active left right leftBound rightBound leftFilled rightFilled equal
    rcases consistent.residentPage env active right rightBound rightFilled with ⟨page, address⟩
    exact consistent.residentOnce env active left right page
      ⟨leftBound, leftFilled, equal.trans address⟩ ⟨rightBound, rightFilled, address⟩
  · intro active
    exact consistent.cleared env active
  · intro active page resident _
    exact resident

/-- A page leaves the working set. -/
theorem clearElement (consistent : Consistent ghost view)
    (loose : env ∈ ghost.active → ∀ page, view.ResidentAt env index page →
      Slot.user env page ∈ ghost.loose) :
    Consistent ghost
      (view.setWorkingSet env ((view.workingSet env).set index .cleared)) := by
  have filledOther : ∀ {other}, (((view.workingSet env).set index .cleared).element
      other).empty = false → other ≠ index := by
    rintro other filled rfl
    simp [WorkingSet.set, WorkingSetElement.cleared] at filled
  have elementOf : ∀ other, other ≠ index →
      ((view.workingSet env).set index .cleared).element other =
        (view.workingSet env).element other := by
    intro other different
    simp [WorkingSet.set, different]
  refine consistent.setWorkingSet (fun active => consistent.lastIndex env active)
    ?_ ?_ ?_ ?_ ?_
  · intro active other page bound filled address
    have different := filledOther filled
    rw [elementOf other different] at filled address
    exact consistent.resident env active other page ⟨bound, filled, address⟩
  · intro active other bound filled
    have different := filledOther filled
    rw [elementOf other different] at filled ⊢
    exact consistent.residentPage env active other bound filled
  · intro active left right leftBound rightBound leftFilled rightFilled equal
    have leftDifferent := filledOther leftFilled
    have rightDifferent := filledOther rightFilled
    rw [elementOf left leftDifferent] at leftFilled equal
    rw [elementOf right rightDifferent] at rightFilled equal
    rcases consistent.residentPage env active right rightBound rightFilled with ⟨page, address⟩
    exact consistent.residentOnce env active left right page
      ⟨leftBound, leftFilled, equal.trans address⟩ ⟨rightBound, rightFilled, address⟩
  · intro active other bound filled
    by_cases same : other = index
    · simp [WorkingSet.set, WorkingSetElement.cleared, same]
    · rw [elementOf other same] at filled ⊢
      exact consistent.cleared env active other bound filled
  · rintro active page ⟨other, residentAt⟩ tight
    have different : other ≠ index := by
      rintro rfl
      exact tight (loose active page residentAt)
    refine ⟨other, residentAt.1, ?_⟩
    rw [elementOf other different]
    exact residentAt.2

/-- A present page with a frame of its own enters the working set. -/
theorem enterElement (consistent : Consistent ghost view) {timeStamp : Nat}
    (visible : Slot.user env page ∉ ghost.uncounted)
    (present : hasPerm (view.entry (.user env page)) permPresent = true)
    (single : ghost.holders (frameOf (view.entry (.user env page))) = {.user env page})
    (absent : ∀ other, other ≠ index → ¬view.ResidentAt env other page)
    (loose : env ∈ ghost.active → ∀ other, view.ResidentAt env index other →
      Slot.user env other ∈ ghost.loose) :
    Consistent ghost (view.setWorkingSet env
      ((view.workingSet env).set index ⟨page * 4096, false, timeStamp⟩)) := by
  have elementOf : ∀ other, other ≠ index →
      ((view.workingSet env).set index ⟨page * 4096, false, timeStamp⟩).element other =
        (view.workingSet env).element other := by
    intro other different
    simp [WorkingSet.set, different]
  have own : ((view.workingSet env).set index ⟨page * 4096, false, timeStamp⟩).element
      index = ⟨page * 4096, false, timeStamp⟩ := by
    simp [WorkingSet.set]
  refine consistent.setWorkingSet (fun active => consistent.lastIndex env active)
    ?_ ?_ ?_ ?_ ?_
  · intro active other somePage bound filled address
    by_cases same : other = index
    · rw [same, own] at address
      have samePage : somePage = page := by
        simp only at address
        omega
      rw [samePage]
      exact ⟨visible, present, single⟩
    · rw [elementOf other same] at filled address
      exact consistent.resident env active other somePage ⟨bound, filled, address⟩
  · intro active other bound filled
    by_cases same : other = index
    · exact ⟨page, by rw [same, own]⟩
    · rw [elementOf other same] at filled ⊢
      exact consistent.residentPage env active other bound filled
  · intro active left right leftBound rightBound leftFilled rightFilled equal
    by_cases leftSame : left = index <;> by_cases rightSame : right = index
    · rw [leftSame, rightSame]
    · rw [elementOf right rightSame] at rightFilled equal
      rw [leftSame, own] at equal
      exact absurd ⟨rightBound, rightFilled, equal.symm⟩ (absent right rightSame)
    · rw [elementOf left leftSame] at leftFilled equal
      rw [rightSame, own] at equal
      exact absurd ⟨leftBound, leftFilled, equal⟩ (absent left leftSame)
    · rw [elementOf left leftSame] at leftFilled equal
      rw [elementOf right rightSame] at rightFilled equal
      rcases consistent.residentPage env active right rightBound rightFilled with
        ⟨somePage, address⟩
      exact consistent.residentOnce env active left right somePage
        ⟨leftBound, leftFilled, equal.trans address⟩ ⟨rightBound, rightFilled, address⟩
  · intro active other bound filled
    by_cases same : other = index
    · rw [same, own] at filled
      contradiction
    · rw [elementOf other same] at filled ⊢
      exact consistent.cleared env active other bound filled
  · rintro active somePage ⟨other, residentAt⟩ tight
    have different : other ≠ index := by
      rintro rfl
      exact tight (loose active somePage residentAt)
    refine ⟨other, residentAt.1, ?_⟩
    rw [elementOf other different]
    exact residentAt.2

/-- An environment with an empty working set comes into use. -/
theorem activate (consistent : Consistent ghost view)
    (lastIndex : (view.workingSet env).lastIndex < (view.workingSet env).maxSize)
    (empty : ∀ index, index < (view.workingSet env).maxSize →
      (view.workingSet env).element index = .cleared)
    (loose : ∀ page, hasPerm (view.entry (.user env page)) permPresent = true →
      Slot.user env page ∉ ghost.uncounted → Slot.user env page ∈ ghost.loose) :
    Consistent { ghost with active := insert env ghost.active } view where
  toHeapLayout := { consistent.toHeapLayout with }
  toAccounting := { consistent.toAccounting with }
  toPlacement := { consistent.toPlacement with }
  window := consistent.window
  windowPages := consistent.windowPages
  lastIndex := by
    intro other active
    rcases Finset.mem_insert.mp active with rfl | before
    · exact lastIndex
    · exact consistent.lastIndex other before
  resident := by
    intro other active someIndex somePage residentAt
    rcases Finset.mem_insert.mp active with rfl | before
    · have filled := residentAt.2.1
      rw [empty someIndex residentAt.1] at filled
      contradiction
    · exact consistent.resident other before someIndex somePage residentAt
  residentPage := by
    intro other active someIndex bound filled
    rcases Finset.mem_insert.mp active with rfl | before
    · rw [empty someIndex bound] at filled
      contradiction
    · exact consistent.residentPage other before someIndex bound filled
  residentOnce := by
    intro other active left right somePage atLeft atRight
    rcases Finset.mem_insert.mp active with rfl | before
    · have filled := atLeft.2.1
      rw [empty left atLeft.1] at filled
      contradiction
    · exact consistent.residentOnce other before left right somePage atLeft atRight
  cleared := by
    intro other active someIndex bound isEmpty
    rcases Finset.mem_insert.mp active with rfl | before
    · rw [empty someIndex bound]
      rfl
    · exact consistent.cleared other before someIndex bound isEmpty
  tracked := by
    intro other active somePage isPresent visible tight
    rcases Finset.mem_insert.mp active with rfl | before
    · exact absurd (loose somePage isPresent visible) tight
    · exact consistent.tracked other before somePage isPresent visible tight

/-- An environment is not in use. -/
theorem deactivate (consistent : Consistent ghost view) (env : Nat) :
    Consistent { ghost with active := ghost.active.erase env } view where
  toHeapLayout := { consistent.toHeapLayout with }
  toAccounting := { consistent.toAccounting with }
  toPlacement := { consistent.toPlacement with }
  window := consistent.window
  windowPages := consistent.windowPages
  lastIndex other active := consistent.lastIndex other (Finset.mem_of_mem_erase active)
  resident other active := consistent.resident other (Finset.mem_of_mem_erase active)
  residentPage other active := consistent.residentPage other (Finset.mem_of_mem_erase active)
  residentOnce other active := consistent.residentOnce other (Finset.mem_of_mem_erase active)
  cleared other active := consistent.cleared other (Finset.mem_of_mem_erase active)
  tracked other active := consistent.tracked other (Finset.mem_of_mem_erase active)

/-- A page may leave the working set. -/
theorem loosen (consistent : Consistent ghost view) (slot : Slot) :
    Consistent { ghost with loose := insert slot ghost.loose } view where
  toHeapLayout := { consistent.toHeapLayout with }
  toAccounting := { consistent.toAccounting with }
  toPlacement := { consistent.toPlacement with }
  window := consistent.window
  windowPages := consistent.windowPages
  lastIndex := consistent.lastIndex
  resident := consistent.resident
  residentPage := consistent.residentPage
  residentOnce := consistent.residentOnce
  cleared := consistent.cleared
  tracked := by
    intro env active somePage isPresent visible tight
    exact consistent.tracked env active somePage isPresent visible fun before =>
      tight (Finset.mem_insert_of_mem before)

/-- A page in the working set, or not present, needs no exception. -/
theorem tighten (consistent : Consistent ghost view) {slot : Slot}
    (settled : ∀ (env page : Nat), slot = .user env page → env ∈ ghost.active →
      hasPerm (view.entry slot) permPresent = true → view.Resident env page) :
    Consistent { ghost with loose := ghost.loose.erase slot } view where
  toHeapLayout := { consistent.toHeapLayout with }
  toAccounting := { consistent.toAccounting with }
  toPlacement := { consistent.toPlacement with }
  window := consistent.window
  windowPages := consistent.windowPages
  lastIndex := consistent.lastIndex
  resident := consistent.resident
  residentPage := consistent.residentPage
  residentOnce := consistent.residentOnce
  cleared := consistent.cleared
  tracked := by
    intro env active somePage isPresent visible tight
    by_cases same : Slot.user env somePage = slot
    · exact settled env somePage same.symm active (same ▸ isPresent)
    · exact consistent.tracked env active somePage isPresent visible fun member =>
        tight (Finset.mem_erase.mpr ⟨same, member⟩)

end WorkingSets

end FosKernel.Consistent
