import FosKernel.Abstract.Paging

/-! # Steps of the memory manager

How consistent memory develops: frames that are on no list stay as they are unless
the step touches them. Mapped heap pages keep their entries and go on counting, and
the window on the working set stays as it is.
-/

namespace FosKernel

structure Evolves (touched : Nat → Prop) (ghost : Ghost) (view : View) (after : Ghost)
    (final : View) : Prop where
  consistent : Consistent after final
  managed : after.managed = ghost.managed
  active : after.active = ghost.active
  loose : after.loose = ghost.loose
  kept : ∀ frame, ¬ghost.Listed frame → ¬touched frame →
    ¬after.Listed frame ∧ after.holders frame = ghost.holders frame ∧
      final.info frame = view.info frame
  heap : ∀ page, view.entry (.heap page) ≠ 0 →
    final.entry (.heap page) = view.entry (.heap page)
  stale : ∀ page, Slot.heap page ∈ after.uncounted → Slot.heap page ∈ ghost.uncounted
  window : ∀ env page, Slot.user env page ∈ ghost.uncounted →
    Slot.user env page ∈ after.uncounted ∧
      final.entry (.user env page) = view.entry (.user env page)

namespace Evolves

variable {touched : Nat → Prop} {ghost middle after : Ghost} {view between final : View}
variable {frame : Nat} {slot : Slot} {word : Word}

theorem refl (consistent : Consistent ghost view) : Evolves touched ghost view ghost view where
  consistent := consistent
  managed := rfl
  active := rfl
  loose := rfl
  kept _ unlisted _ := ⟨unlisted, rfl, rfl⟩
  heap _ _ := rfl
  stale _ hidden := hidden
  window _ _ hidden := ⟨hidden, rfl⟩

/-- The second step may also touch frames that were on a list at the start. -/
theorem trans {later : Nat → Prop} (first : Evolves touched ghost view middle between)
    (second : Evolves later middle between after final)
    (covered : ∀ frame, later frame → touched frame ∨ ghost.Listed frame) :
    Evolves touched ghost view after final where
  consistent := second.consistent
  managed := second.managed.trans first.managed
  active := second.active.trans first.active
  loose := second.loose.trans first.loose
  kept := by
    intro frame unlisted untouched
    rcases first.kept frame unlisted untouched with ⟨unlistedNow, holders, info⟩
    have notLater : ¬later frame := fun now =>
      (covered frame now).elim untouched unlisted
    rcases second.kept frame unlistedNow notLater with ⟨unlistedLater, holdersLater, infoLater⟩
    exact ⟨unlistedLater, holdersLater.trans holders, infoLater.trans info⟩
  heap := by
    intro page mapped
    have same := first.heap page mapped
    rw [second.heap page (by rwa [same]), same]
  stale page hidden := first.stale page (second.stale page hidden)
  window := by
    intro env page hidden
    rcases first.window env page hidden with ⟨still, entry⟩
    rcases second.window env page still with ⟨after, entryLater⟩
    exact ⟨after, entryLater.trans entry⟩

theorem mono {wider : Nat → Prop} (evolves : Evolves touched ghost view after final)
    (wide : ∀ frame, touched frame → wider frame) : Evolves wider ghost view after final :=
  { evolves with
    kept := fun frame unlisted untouched =>
      evolves.kept frame unlisted (mt (wide frame) untouched) }

theorem andThen (first : Evolves touched ghost view middle between)
    (second : Evolves touched middle between after final) :
    Evolves touched ghost view after final :=
  first.trans second fun _ => .inl

/-- Other exceptions from the working set may hold meanwhile. -/
theorem rescope {during outside : Finset Slot}
    (evolves : Evolves touched { ghost with loose := during } view after final)
    (settled : Consistent { after with loose := outside } final) :
    Evolves touched { ghost with loose := outside } view
      { after with loose := outside } final :=
  { evolves with
    consistent := settled
    loose := rfl }

/-! ## The single steps -/

theorem ofAllocate (allocated : Consistent { ghost with free := ghost.free.erase frame }
      (view.allocate frame)) (member : frame ∈ ghost.free) :
    Evolves touched ghost view { ghost with free := ghost.free.erase frame }
      (view.allocate frame) where
  consistent := allocated
  managed := rfl
  active := rfl
  loose := rfl
  kept := by
    intro other unlisted _
    have different : other ≠ frame := by
      rintro rfl
      exact unlisted (.inl member)
    refine ⟨fun now => unlisted (now.imp List.mem_of_mem_erase id), rfl, ?_⟩
    simp [View.allocate, View.clearInfo, View.withFree, different]
  heap _ _ := rfl
  stale _ hidden := hidden
  window _ _ hidden := ⟨hidden, rfl⟩

/-- A step that changes the entry of one page. -/
theorem ofEntry (slot : Slot) (consistent : Consistent after final)
    (managed : after.managed = ghost.managed)
    (kept : ∀ frame, ¬ghost.Listed frame → ¬touched frame →
      ¬after.Listed frame ∧ after.holders frame = ghost.holders frame ∧
        final.info frame = view.info frame)
    (active : after.active = ghost.active) (loose : after.loose = ghost.loose)
    (uncounted : after.uncounted = ghost.uncounted)
    (entries : ∀ other, other ≠ slot → final.entry other = view.entry other)
    (visible : slot ∉ ghost.uncounted)
    (heapSlot : ∀ page, slot = .heap page → view.entry slot = 0) :
    Evolves touched ghost view after final where
  consistent := consistent
  managed := managed
  active := active
  loose := loose
  kept := kept
  heap := by
    intro page mapped
    refine entries _ ?_
    rintro rfl
    exact mapped (heapSlot page rfl)
  stale page hidden := uncounted ▸ hidden
  window := by
    intro env page hidden
    exact ⟨uncounted ▸ hidden, entries _ fun equal => visible (equal ▸ hidden)⟩

theorem heapSlot_of_user (userSlot : ∃ env page, slot = .user env page) :
    ∀ page, slot = .heap page → view.entry slot = 0 := by
  rintro page rfl
  rcases userSlot with ⟨env, userPage, equal⟩
  contradiction

theorem ofAttach (consistent : Consistent ghost view)
    (attached : Consistent (ghost.attach frame slot) (view.attach frame slot word))
    (empty : view.entry slot = 0) :
    Evolves (· = frame) ghost view (ghost.attach frame slot)
      (view.attach frame slot word) := by
  refine ofEntry slot attached rfl ?_ rfl rfl rfl ?_
    (consistent.visible_of_empty empty) (fun _ _ => empty)
  · intro other unlisted different
    refine ⟨unlisted, Ghost.attach_holders_of_ne different, ?_⟩
    simp [View.attach, View.setEntry, View.addReferences, View.setInfo, different]
  · intro other different
    simp [View.attach, View.setEntry, View.addReferences, View.setInfo, different]

theorem ofReflag (reflagged : Consistent ghost (view.setEntry slot word))
    (userSlot : ∃ env page, slot = .user env page) (visible : slot ∉ ghost.uncounted) :
    Evolves touched ghost view ghost (view.setEntry slot word) := by
  refine ofEntry slot reflagged rfl (fun _ unlisted _ => ⟨unlisted, rfl, rfl⟩)
    rfl rfl rfl ?_ visible (heapSlot_of_user userSlot)
  intro other different
  simp [View.setEntry, different]

theorem ofForget (consistent : Consistent ghost view)
    (forgotten : Consistent (ghost.detach slot) (view.setEntry slot 0))
    (held : slot ∈ ghost.holders frame) (listed : ghost.Listed frame) :
    Evolves touched ghost view (ghost.detach slot) (view.setEntry slot 0) := by
  refine ofEntry slot forgotten rfl ?_ rfl rfl rfl ?_ (consistent.mem_holders.mp held).1
    (heapSlot_of_user (consistent.buffered frame listed slot held).1)
  · intro other unlisted _
    refine ⟨unlisted, Finset.erase_eq_of_notMem fun member => unlisted ?_, rfl⟩
    exact consistent.holds.unique held member ▸ listed
  · intro other different
    simp [View.setEntry, different]

theorem ofEvict (consistent : Consistent ghost view) {toModified : Bool}
    (evicted : Consistent (ghost.evict frame toModified)
      (view.evict frame slot word toModified))
    (userSlot : ∃ env page, slot = .user env page) (held : slot ∈ ghost.holders frame) :
    Evolves (· = frame) ghost view (ghost.evict frame toModified)
      (view.evict frame slot word toModified) := by
  refine ofEntry slot evicted (by simp) ?_ (by simp) (by simp) (by simp) ?_
    (consistent.mem_holders.mp held).1 (heapSlot_of_user userSlot)
  · intro other unlisted different
    refine ⟨?_, by rw [Ghost.evict_holders], ?_⟩
    · rw [Ghost.evict_listed]
      exact fun now => now.elim unlisted different
    · cases toModified <;>
        simp [View.evict, View.setEntry, View.setBuffered, View.setInfo, View.withModified,
          View.withFree, different]
  · intro other different
    cases toModified <;>
      simp [View.evict, View.setEntry, View.setBuffered, View.setInfo, View.withModified,
        View.withFree, different]

theorem ofRestore (consistent : Consistent ghost view) {fromModified : Bool}
    (restored : Consistent (ghost.restore frame fromModified)
      (view.restore frame slot word fromModified))
    (held : slot ∈ ghost.holders frame) (listed : ghost.Listed frame) :
    Evolves touched ghost view (ghost.restore frame fromModified)
      (view.restore frame slot word fromModified) := by
  refine ofEntry slot restored (by simp) ?_ (by simp) (by simp) (by simp) ?_
    (consistent.mem_holders.mp held).1
    (heapSlot_of_user (consistent.buffered frame listed slot held).1)
  · intro other unlisted _
    have different : other ≠ frame := fun equal => unlisted (equal ▸ listed)
    refine ⟨?_, by rw [Ghost.restore_holders], ?_⟩
    · intro now
      apply unlisted
      cases fromModified with
      | true => exact now.imp id List.mem_of_mem_erase
      | false => exact now.imp List.mem_of_mem_erase id
    · cases fromModified <;>
        simp [View.restore, View.setEntry, View.setBuffered, View.setInfo,
          View.withModified, View.withFree, different]
  · intro other different
    cases fromModified <;>
      simp [View.restore, View.setEntry, View.setBuffered, View.setInfo,
        View.withModified, View.withFree, different]

theorem ofDetach (consistent : Consistent ghost view)
    (detached : Consistent (ghost.unmap frame slot) (view.detach frame slot))
    (userSlot : ∃ env page, slot = .user env page) (held : slot ∈ ghost.holders frame) :
    Evolves (· = frame) ghost view (ghost.unmap frame slot) (view.detach frame slot) := by
  have decrementEntry : (view.decrement frame).entry = view.entry := by
    simp only [View.decrement]
    split <;> rfl
  refine ofEntry slot detached rfl ?_ rfl rfl rfl
    ?_ (consistent.mem_holders.mp held).1 (heapSlot_of_user userSlot)
  · intro other unlisted different
    refine ⟨?_, ?_, ?_⟩
    · simp only [Ghost.unmap]
      split
      · simpa [Ghost.Listed, Ghost.detach, different] using unlisted
      · exact unlisted
    · refine Finset.erase_eq_of_notMem fun member => different ?_
      exact consistent.holds.unique member held
    · simp only [View.detach, View.setEntry, View.decrement]
      split <;>
        simp [View.release, View.clearInfo, View.withFree, View.addReferences, View.setInfo,
          different]
  · intro other different
    simp [View.detach, View.setEntry, different, decrementEntry]

theorem ofSetTable {table : Table} (entered : Consistent ghost (view.setTable table word)) :
    Evolves touched ghost view ghost (view.setTable table word) where
  consistent := entered
  managed := rfl
  active := rfl
  loose := rfl
  kept _ unlisted _ := ⟨unlisted, rfl, rfl⟩
  heap _ _ := rfl
  stale _ hidden := hidden
  window _ _ hidden := ⟨hidden, rfl⟩

theorem ofShare (consistent : Consistent ghost view)
    (shared : Consistent { ghost with uncounted := insert slot ghost.uncounted }
      (view.setEntry slot word))
    (userSlot : ∃ env page, slot = .user env page) (empty : view.entry slot = 0) :
    Evolves touched ghost view { ghost with uncounted := insert slot ghost.uncounted }
      (view.setEntry slot word) := by
  have visible := consistent.visible_of_empty empty
  have entryOf : ∀ other, other ≠ slot →
      (view.setEntry slot word).entry other = view.entry other := by
    intro other different
    simp [View.setEntry, different]
  exact
    { consistent := shared
      managed := rfl
      active := rfl
      loose := rfl
      kept := fun _ unlisted _ => ⟨unlisted, rfl, rfl⟩
      heap := by
        intro page mapped
        exact entryOf _ fun equal => mapped (equal ▸ empty)
      stale := by
        intro page hidden
        rcases Finset.mem_insert.mp hidden with equal | before
        · rcases userSlot with ⟨env, userPage, same⟩
          rw [same] at equal
          contradiction
        · exact before
      window := by
        intro env page hidden
        exact ⟨Finset.mem_insert_of_mem hidden,
          entryOf _ fun equal => visible (equal ▸ hidden)⟩ }

theorem ofWorkingSet {env : Nat} {workingSet : WorkingSet}
    (changed : Consistent ghost (view.setWorkingSet env workingSet)) :
    Evolves touched ghost view ghost (view.setWorkingSet env workingSet) where
  consistent := changed
  managed := rfl
  active := rfl
  loose := rfl
  kept _ unlisted _ := ⟨unlisted, rfl, rfl⟩
  heap _ _ := rfl
  stale _ hidden := hidden
  window _ _ hidden := ⟨hidden, rfl⟩

end Evolves

/-! ## Frames given back -/

/-- Frames come to the lists with their last entry, and a frame on the free list is
cleared. -/
structure GivesBack (ghost : Ghost) (view : View) (after : Ghost) (final : View) : Prop where
  freed : ∀ frame, after.holders frame = ∅ →
    ghost.holders frame ≠ ∅ ∨ ghost.Listed frame → after.Listed frame
  held : ∀ frame, after.Listed frame → ghost.Listed frame ∨ ghost.holders frame ≠ ∅
  blank : (∀ frame ∈ ghost.free, view.info frame = FrameInfo.zero) →
    ∀ frame ∈ after.free, final.info frame = FrameInfo.zero

namespace GivesBack

variable {ghost middle after : Ghost} {view between final : View}
variable {frame : Nat} {slot : Slot} {word : Word}

theorem refl : GivesBack ghost view ghost view where
  freed _ unheld before := before.elim (absurd unheld) id
  held _ listed := .inl listed
  blank cleared := cleared

/-- Later steps of a shrinking memory. -/
theorem trans (first : GivesBack ghost view middle between)
    (second : GivesBack middle between after final)
    (subset : ∀ frame, middle.holders frame ⊆ ghost.holders frame) :
    GivesBack ghost view after final where
  freed := by
    intro frame unheld before
    refine second.freed frame unheld ?_
    by_cases empty : middle.holders frame = ∅
    · exact .inr (first.freed frame empty before)
    · exact .inl empty
  held := by
    intro frame listed
    rcases second.held frame listed with between | nonempty
    · exact first.held frame between
    · refine .inr fun empty => nonempty ?_
      exact Finset.subset_empty.mp (empty ▸ subset frame)
  blank cleared := second.blank (first.blank cleared)

theorem attach (back : GivesBack ghost view middle between) (unlisted : ¬middle.Listed frame) :
    GivesBack ghost view (middle.attach frame slot) (between.attach frame slot word) where
  freed := by
    intro other unheld before
    have different : other ≠ frame := by
      rintro rfl
      simp at unheld
    rw [Ghost.attach_holders_of_ne different] at unheld
    exact back.freed other unheld before
  held := back.held
  blank := by
    intro cleared other member
    have different : other ≠ frame := by
      rintro rfl
      exact unlisted (.inl member)
    simpa [View.attach, View.setEntry, View.addReferences, View.setInfo, different] using
      back.blank cleared other member

theorem ofUnmap (consistent : Consistent ghost view) (held : slot ∈ ghost.holders frame)
    (unlisted : ¬ghost.Listed frame) :
    GivesBack ghost view (ghost.unmap frame slot) (view.detach frame slot) := by
  have counted := consistent.counted frame
    (consistent.heldManaged frame ⟨slot, held⟩) unlisted
  have kept : ∀ other, other ≠ frame →
      (ghost.unmap frame slot).holders other = ghost.holders other := by
    intro other different
    exact Finset.erase_eq_of_notMem fun member =>
      different (consistent.holds.unique member held)
  refine ⟨?_, ?_, ?_⟩
  · intro other unheld before
    by_cases same : other = frame
    · subst same
      have last : ghost.holders other = {slot} := by
        rcases (Finset.erase_eq_empty_iff _ _).mp unheld with empty | single
        · simp [empty] at held
        · exact single
      refine .inl ?_
      simp [Ghost.unmap, last]
    · rw [kept other same] at unheld
      have listed : ghost.Listed other := before.elim (absurd unheld) id
      simp only [Ghost.unmap]
      split
      · exact listed.imp (List.mem_cons_of_mem _) id
      · exact listed
  · intro other listed
    by_cases same : other = frame
    · subst same
      exact .inr (Finset.ne_empty_of_mem held)
    · refine .inl ?_
      simp only [Ghost.unmap] at listed
      split at listed
      · exact listed.imp (fun member => (List.mem_cons.mp member).resolve_left same) id
      · exact listed
  · intro cleared other member
    by_cases same : other = frame
    · subst same
      have last : ghost.holders other = {slot} := by
        by_contra more
        simp only [Ghost.unmap, if_neg more] at member
        exact unlisted (.inl member)
      have none : (view.info other).references = 1 := by simp [counted, last]
      simp [View.detach, View.setEntry, View.decrement, View.addReferences, View.setInfo,
        none, View.release, View.clearInfo, View.withFree]
    · have before : other ∈ ghost.free := by
        simp only [Ghost.unmap] at member
        split at member
        · exact (List.mem_cons.mp member).resolve_left same
        · exact member
      rw [← cleared other before]
      simp only [View.detach, View.setEntry, View.decrement]
      split <;>
        simp [View.release, View.clearInfo, View.withFree, View.addReferences, View.setInfo,
          same]

end GivesBack

end FosKernel
