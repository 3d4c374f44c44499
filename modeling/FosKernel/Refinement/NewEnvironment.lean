import FosKernel.Refinement.Creation
import FosKernel.Refinement.UserMemory

/-! # A new environment

`env_create` works on an unused slot of the environment table. The directory of the new
environment maps the loaded pages, each on a frame of its own, and the working-set array.
-/

namespace FosKernel

/-- A slot of the environment table as `env_init` leaves it. -/
structure FreeEnv (ghost : Ghost) (state : State) (env : Nat) : Prop where
  inactive : env ∉ ghost.active
  tables : ∀ index < pdx userTop, state.pageDirectory (.env env) index = 0
  diskEnvPgdir : (state.envs env).diskEnvPgdir = 0
  diskEnvTabledir : (state.envs env).diskEnvTabledir = 0

/-- The pages on which a working-set array can be shared. -/
def InArray (page : Nat) : Prop :=
  ppn userPagesWSStart ≤ page ∧ page < ppn userPagesWSStart + kernelHeapPages

/-- The entry of a page that the user may write. -/
structure UserEntry (entry : Word) : Prop where
  present : hasPerm entry permPresent = true
  user : hasPerm entry permUser = true
  writeable : hasPerm entry permWriteable = true

/-- The page file of all environments stays as it is. -/
structure KeepsFile (state final : State) : Prop where
  same : SameFile state final
  layout : DiskLayout state → DiskLayout final

/-- Besides the array the directory maps `pages`, with the entries `word` and the contents
`image`. The memory of frames that are free or not managed is as in `start`. -/
structure Mapped (origin : Ghost) (start : State) (env : Nat) (pages : List Nat)
    (word : Nat → Word) (image : Nat → Nat → Word) (ghost : Ghost) (state : State) :
    Prop where
  consistent : Consistent ghost state.view
  inactive : env ∉ ghost.active
  managed : ghost.managed = origin.managed
  idle : ∀ frame ∈ ghost.free, frame ∈ origin.free ∧ state.memory frame = start.memory frame
  unmanaged : ∀ frame, frame ∉ origin.managed → state.memory frame = start.memory frame
  nodup : pages.Nodup
  accessible : ∀ page ∈ pages, UserEntry (word page)
  entry : ∀ page ∈ pages, state.view.entry (.user env page) = word page
  held : ∀ page ∈ pages, ghost.holders (frameOf (word page)) = {.user env page}
  memory : ∀ page ∈ pages, state.memory (frameOf (word page)) = image page
  others : ∀ page, state.view.entry (.user env page) ≠ 0 → page ∈ pages ∨ InArray page

section Steps

variable {origin ghost after : Ghost} {start state middle final : State} {env : Nat}
variable {pages : List Nat} {word : Nat → Word} {image : Nat → Nat → Word}

/-! ## The page file -/

namespace KeepsFile

theorem refl (state : State) : KeepsFile state state := ⟨.refl state, id⟩

theorem trans (first : KeepsFile state middle) (second : KeepsFile middle final) :
    KeepsFile state final :=
  ⟨first.same.trans second.same, fun layout => second.layout (first.layout layout)⟩

theorem pageFile (keeps : KeepsFile state final) {free : List Nat} (file : PageFile free state) :
    PageFile free final :=
  file.congr keeps.same (keeps.layout file.layout)

theorem diskPage (keeps : KeepsFile state final) (dfn : Word) (index : Nat) :
    final.diskPage dfn index = state.diskPage dfn index := by
  rw [State.diskPage, State.diskPage, keeps.same.sectors]

theorem newTable {owner : Directory} {address : Nat} {pointer : TablePointer}
    (new : NewTable ghost state owner address pointer after final) : KeepsFile state final where
  same := new.file
  layout layout := by
    have directories : final.diskDirectory = state.diskDirectory := by
      funext other index
      exact new.otherTables (.disk other index) (by simp)
    refine layout.congr directories new.file.diskTables ?_ ?_ <;> rw [new.envs] <;>
      exact fun _ => id

theorem heapOnly (only : HeapOnly state final) : KeepsFile state final :=
  ⟨only.sameFile, only.diskLayout⟩

theorem setEnv {value : Env} (pages : value.diskEnvPgdir = (state.envs env).diskEnvPgdir)
    (tables : value.diskEnvTabledir = (state.envs env).diskEnvTabledir) :
    KeepsFile state (state.setEnv env value) where
  same := ⟨fun _ _ => rfl, rfl, rfl, rfl, rfl⟩
  layout layout := by
    refine layout.congr rfl rfl ?_ ?_
    · intro other none
      by_cases same : other = env
      · subst same
        simpa [State.setEnv, pages] using none
      · simpa [State.setEnv, same] using none
    · intro other none
      by_cases same : other = env
      · subst same
        simpa [State.setEnv, tables] using none
      · simpa [State.setEnv, same] using none

end KeepsFile

/-! ## Steps that concern no loaded page -/

theorem State.view_setEnv (state : State) (env : Nat) (value : Env) :
    (state.setEnv env value).view = state.view.setWorkingSet env value.workingSet := by
  apply View.ext <;> try rfl
  funext other
  by_cases same : other = env
  · subst same
    simp [State.view, State.setEnv, View.setWorkingSet]
  · simp [State.view, State.setEnv, View.setWorkingSet, same]

theorem entry_of_no_tables
    (tables : ∀ index < pdx userTop, state.pageDirectory (.env env) index = 0)
    (page : Nat) : state.view.entry (.user env page) = 0 := by
  have none : ¬(page < ppn userTop ∧
      hasPerm (state.pageDirectory (.env env) (page / 1024)) permPresent = true) := by
    rintro ⟨user, present⟩
    rw [tables _ (page_table_lt user)] at present
    exact absurd present (by decide)
  exact if_neg none

theorem FreeEnv.mapped (free : FreeEnv ghost state env) (consistent : Consistent ghost state.view)
    (word : Nat → Word) (image : Nat → Nat → Word) :
    Mapped ghost state env [] word image ghost state where
  consistent := consistent
  inactive := free.inactive
  managed := rfl
  idle _ listed := ⟨listed, rfl⟩
  unmanaged _ _ := rfl
  nodup := .nil
  accessible := by simp
  entry := by simp
  held := by simp
  memory := by simp
  others page nonzero := absurd (entry_of_no_tables free.tables page) nonzero

namespace Mapped

variable (mapped : Mapped origin start env pages word image ghost state)

include mapped

theorem member {page : Nat} (member : page ∈ pages) :
    Slot.user env page ∈ ghost.holders (frameOf (word page)) := by
  rw [mapped.held page member]
  exact Finset.mem_singleton_self _

theorem unlisted {page : Nat} (member : page ∈ pages) :
    ¬ghost.Listed (frameOf (word page)) := by
  refine mapped.consistent.not_listed_of_present (mapped.member member) ?_
  rw [mapped.entry page member]
  exact (mapped.accessible page member).present

theorem background (step : Background ghost state after final) :
    Mapped origin start env pages word image after final where
  consistent := step.evolves.consistent
  inactive := by
    rw [step.evolves.active]
    exact mapped.inactive
  managed := step.evolves.managed.trans mapped.managed
  idle := by
    intro frame free
    have before := step.idle frame free
    have origin := mapped.idle frame before.1
    exact ⟨origin.1, before.2.trans origin.2⟩
  unmanaged := by
    intro frame outside
    rw [step.unmanaged frame (mapped.managed ▸ outside), mapped.unmanaged frame outside]
  nodup := mapped.nodup
  accessible := mapped.accessible
  entry page member := (step.userEntry env page).trans (mapped.entry page member)
  held := by
    intro page member
    rw [(step.evolves.kept _ (mapped.unlisted member) id).2.1, mapped.held page member]
  memory := by
    intro page member
    rw [step.memory _ env page (mapped.member member), mapped.memory page member]
  others := by
    intro page nonzero
    rw [step.userEntry] at nonzero
    exact mapped.others page nonzero

theorem congr (view : final.view = state.view) (memory : final.memory = state.memory) :
    Mapped origin start env pages word image ghost final where
  consistent := view ▸ mapped.consistent
  inactive := mapped.inactive
  managed := mapped.managed
  idle frame free := by
    rw [memory]
    exact mapped.idle frame free
  unmanaged frame outside := by
    rw [memory]
    exact mapped.unmanaged frame outside
  nodup := mapped.nodup
  accessible := mapped.accessible
  entry page member := by
    rw [view]
    exact mapped.entry page member
  held := mapped.held
  memory page member := by
    rw [memory]
    exact mapped.memory page member
  others page nonzero := by
    rw [view] at nonzero
    exact mapped.others page nonzero

/-- The record of the new environment changes. -/
theorem setEnv (value : Env) :
    Mapped origin start env pages word image ghost (state.setEnv env value) := by
  have view := state.view_setEnv env value
  exact
    { consistent := by
        rw [view]
        exact mapped.consistent.setInactive mapped.inactive
      inactive := mapped.inactive
      managed := mapped.managed
      idle := mapped.idle
      unmanaged := mapped.unmanaged
      nodup := mapped.nodup
      accessible := mapped.accessible
      entry := mapped.entry
      held := mapped.held
      memory := mapped.memory
      others := mapped.others }

theorem allocate {frame : Nat} (allocated : allocateFrame state = .ok (frame, final)) :
    Mapped origin start env pages word image
        { ghost with free := ghost.free.erase frame } final ∧
      Fresh { ghost with free := ghost.free.erase frame } final.view frame ∧
      final.memory frame = start.memory frame ∧ KeepsFile state final := by
  rcases allocateFrame_consistent mapped.consistent allocated with
    ⟨free, rfl, consistent, fresh⟩
  refine ⟨?_, fresh, (mapped.idle frame free).2, ?_⟩
  · exact
      { consistent := consistent
        inactive := mapped.inactive
        managed := mapped.managed
        idle := fun other member => mapped.idle other (List.mem_of_mem_erase member)
        unmanaged := mapped.unmanaged
        nodup := mapped.nodup
        accessible := mapped.accessible
        entry := mapped.entry
        held := mapped.held
        memory := mapped.memory
        others := mapped.others }
  · exact ⟨⟨fun _ _ => rfl, rfl, rfl, rfl, rfl⟩,
      fun layout => layout.congr rfl rfl (fun _ => id) fun _ => id⟩

end Mapped

/-! ## Entries of the new directory -/

section Store

variable {address frame : Nat}

theorem State.view_storeEntry (placement : Placement ghost state.view) {owner : Directory}
    (user : address < userTop)
    (present : hasPerm (directoryEntry state owner address) permPresent = true) (entry : Word) :
    (state.setMemory (frameOf (directoryEntry state owner address)) (ptx address) entry).view =
      state.view.setEntry (.user owner (ppn address)) entry := by
  have offset : ptx address < 1024 := Nat.mod_lt _ (by decide)
  have stored := State.view_setMemory_table placement (address_user user).2 offset present entry
  rwa [pdx_mul_add_ptx] at stored

/-- The frame of a page table is held by a page of the heap alone. -/
theorem table_held (consistent : Consistent ghost state.view) {owner : Directory}
    (user : address < userTop)
    (present : hasPerm (directoryEntry state owner address) permPresent = true) :
    ∃ page, ghost.holders (frameOf (directoryEntry state owner address)) = {.heap page} := by
  have table : state.view.table (.page owner (pdx address)) =
      directoryEntry state owner address :=
    tableEntry_page (address_user user).2
  rcases consistent.tableHeld (.page owner (pdx address)) (by
    rw [table]
    exact ne_zero_of_present present) with ⟨page, held⟩
  exact ⟨page, by rwa [table] at held⟩

theorem table_frame_ne (consistent : Consistent ghost state.view) {owner : Directory}
    (user : address < userTop)
    (present : hasPerm (directoryEntry state owner address) permPresent = true)
    (other : frame ∈ ghost.free ∨ frame ∉ ghost.managed ∨
      ∃ someEnv page, Slot.user someEnv page ∈ ghost.holders frame) :
    frame ≠ frameOf (directoryEntry state owner address) := by
  have table : state.view.table (.page owner (pdx address)) =
      directoryEntry state owner address :=
    tableEntry_page (address_user user).2
  have nonzero : state.view.table (.page owner (pdx address)) ≠ 0 := by
    rw [table]
    exact ne_zero_of_present present
  rintro rfl
  rcases other with free | outside | ⟨someEnv, page, held⟩
  · refine consistent.table_not_listed nonzero ?_
    rw [table]
    exact .inl free
  · have managed := consistent.tableManaged _ nonzero
    rw [table] at managed
    exact outside managed
  · rcases table_held consistent user present with ⟨heapPage, only⟩
    rw [only, Finset.mem_singleton] at held
    contradiction

theorem userEntry_mapWord (frame : Nat) :
    UserEntry (mapWord frame (permUser ||| permWriteable)) where
  present := present_mapWord _ _
  user := by
    rw [hasPerm_user, getLsbD_constructEntry _ _ (by decide)]
    decide
  writeable := by
    rw [hasPerm_writeable, getLsbD_constructEntry _ _ (by decide)]
    decide

theorem KeepsFile.storeEntry (placement : Placement ghost state.view) {owner : Directory}
    (user : address < userTop)
    (present : hasPerm (directoryEntry state owner address) permPresent = true) (entry : Word) :
    KeepsFile state
      (state.setMemory (frameOf (directoryEntry state owner address)) (ptx address) entry) where
  same := ⟨diskEntry_setMemory_table placement (address_user user).2 present _ entry,
    rfl, rfl, rfl, rfl⟩
  layout layout := layout.congr rfl rfl (fun _ => id) fun _ => id

namespace Mapped

variable (mapped : Mapped origin start env pages word image ghost state)

include mapped

/-- A page of the working-set array is shared. -/
theorem share (user : address < userTop) (inArray : InArray (ppn address))
    (table : hasPerm (directoryEntry state env address) permPresent = true)
    (empty : state.view.entry (.user env (ppn address)) = 0) {entry : Word}
    (present : hasPerm entry permPresent = true) :
    Mapped origin start env pages word image
      { ghost with uncounted := insert (.user env (ppn address)) ghost.uncounted }
      (state.setMemory (frameOf (directoryEntry state env address)) (ptx address) entry) := by
  have view := State.view_storeEntry mapped.consistent.toPlacement user table entry
  have memory : ∀ frame, (frame ∈ ghost.free ∨ frame ∉ ghost.managed ∨
        ∃ someEnv page, Slot.user someEnv page ∈ ghost.holders frame) →
      (state.setMemory (frameOf (directoryEntry state env address)) (ptx address)
        entry).memory frame = state.memory frame := by
    intro frame other
    exact Function.update_of_ne (table_frame_ne mapped.consistent user table other) ..
  have outside : ppn address ∉ pages := by
    intro member
    have accessible := mapped.accessible _ member
    rw [← mapped.entry _ member, empty] at accessible
    exact absurd accessible.present (by decide)
  exact
    { consistent := by
        rw [view]
        refine mapped.consistent.share empty present fun someEnv page same => ?_
        rw [Slot.user.injEq] at same
        rw [InWindow, ← same.2]
        exact inArray.1
      inactive := mapped.inactive
      managed := mapped.managed
      idle := by
        intro frame free
        rw [memory frame (.inl free)]
        exact mapped.idle frame free
      unmanaged := by
        intro frame unmanaged
        rw [memory frame (.inr (.inl (mapped.managed ▸ unmanaged)))]
        exact mapped.unmanaged frame unmanaged
      nodup := mapped.nodup
      accessible := mapped.accessible
      entry := by
        intro page member
        have different : page ≠ ppn address := by
          rintro rfl
          exact outside member
        rw [view]
        simpa [View.setEntry, different] using mapped.entry page member
      held := mapped.held
      memory := by
        intro page member
        rw [memory _ (.inr (.inr ⟨_, _, mapped.member member⟩))]
        exact mapped.memory page member
      others := by
        intro page nonzero
        by_cases same : page = ppn address
        · rw [same]
          exact .inr inArray
        · rw [view] at nonzero
          exact mapped.others page (by simpa [View.setEntry, same] using nonzero) }

/-- The table of a loaded page. -/
theorem table {page : Nat} (member : page ∈ pages) :
    page < ppn userTop ∧
      hasPerm (state.pageDirectory (.env env) (page / 1024)) permPresent = true := by
  by_contra none
  have entry := mapped.entry page member
  rw [show state.view.entry (.user env page) = 0 from if_neg none] at entry
  exact ne_zero_of_present (mapped.accessible page member).present entry.symm

/-- The flags of a loaded page change. -/
theorem reflag (member : ppn address ∈ pages) {entry : Word} (accessible : UserEntry entry)
    (same : frameOf entry = frameOf (word (ppn address))) :
    Mapped origin start env pages (Function.update word (ppn address) entry) image ghost
      (state.setMemory (frameOf (directoryEntry state env address)) (ptx address) entry) := by
  have table := (mapped.table member).2
  have user : address < userTop := by
    have bound := (mapped.table member).1
    simp only [ppn, userTop] at *
    omega
  have view := State.view_storeEntry mapped.consistent.toPlacement user table entry
  have memory : ∀ frame, (frame ∈ ghost.free ∨ frame ∉ ghost.managed ∨
        ∃ someEnv page, Slot.user someEnv page ∈ ghost.holders frame) →
      (state.setMemory (frameOf (directoryEntry state env address)) (ptx address)
        entry).memory frame = state.memory frame := by
    intro frame other
    exact Function.update_of_ne (table_frame_ne mapped.consistent user table other) ..
  have frames : ∀ page, frameOf (Function.update word (ppn address) entry page) =
      frameOf (word page) := by
    intro page
    by_cases own : page = ppn address
    · rw [own, Function.update_self, same]
    · rw [Function.update_of_ne own]
  exact
    { consistent := by
        rw [view]
        have before := mapped.entry _ member
        refine mapped.consistent.reflag ?_ accessible.present ?_
        · rw [before]
          exact (mapped.accessible _ member).present
        · rw [before]
          exact same
      inactive := mapped.inactive
      managed := mapped.managed
      idle := by
        intro frame free
        rw [memory frame (.inl free)]
        exact mapped.idle frame free
      unmanaged := by
        intro frame unmanaged
        rw [memory frame (.inr (.inl (mapped.managed ▸ unmanaged)))]
        exact mapped.unmanaged frame unmanaged
      nodup := mapped.nodup
      accessible := by
        intro page inside
        by_cases own : page = ppn address
        · rw [own, Function.update_self]
          exact accessible
        · rw [Function.update_of_ne own]
          exact mapped.accessible page inside
      entry := by
        intro page inside
        rw [view]
        by_cases own : page = ppn address
        · rw [own, Function.update_self]
          exact Function.update_self ..
        · rw [Function.update_of_ne own]
          simpa [View.setEntry, own] using mapped.entry page inside
      held := by
        intro page inside
        rw [frames]
        exact mapped.held page inside
      memory := by
        intro page inside
        rw [frames, memory _ (.inr (.inr ⟨_, _, mapped.member inside⟩))]
        exact mapped.memory page inside
      others := by
        intro page nonzero
        by_cases own : page = ppn address
        · rw [own]
          exact .inl member
        · rw [view] at nonzero
          exact mapped.others page (by simpa [View.setEntry, own] using nonzero) }

theorem frame_ne {page other : Nat} (member : page ∈ pages) (otherMember : other ∈ pages)
    (different : other ≠ page) : frameOf (word other) ≠ frameOf (word page) := by
  intro equal
  have held := mapped.member otherMember
  rw [equal, mapped.held page member, Finset.mem_singleton, Slot.user.injEq] at held
  exact different held.2

theorem noTable {page : Nat} (member : page ∈ pages) {table : Table}
    (nonzero : state.view.table table ≠ 0) :
    frameOf (state.view.table table) ≠ frameOf (word page) := by
  intro equal
  rcases mapped.consistent.tableHeld table nonzero with ⟨heapPage, held⟩
  rw [equal, mapped.held page member, Finset.singleton_inj] at held
  contradiction

/-- The contents of a loaded page change. -/
theorem setPage {page : Nat} (member : page ∈ pages) (content : Nat → Word) :
    Mapped origin start env pages word (Function.update image page content) ghost
        (state.setPage (frameOf (word page)) content) ∧
      KeepsFile state (state.setPage (frameOf (word page)) content) := by
  have view : (state.setPage (frameOf (word page)) content).view = state.view :=
    State.view_setPage (fun owner index nonzero => mapped.noTable member nonzero) content
  have managed : frameOf (word page) ∈ ghost.managed :=
    mapped.consistent.heldManaged _ ⟨_, mapped.member member⟩
  have memory : ∀ frame, frame ≠ frameOf (word page) →
      (state.setPage (frameOf (word page)) content).memory frame = state.memory frame :=
    fun frame different => Function.update_of_ne different ..
  refine ⟨?_, ?_⟩
  · exact
      { consistent := by
          rw [view]
          exact mapped.consistent
        inactive := mapped.inactive
        managed := mapped.managed
        idle := by
          intro frame free
          have different : frame ≠ frameOf (word page) := by
            rintro rfl
            exact mapped.unlisted member (.inl free)
          rw [memory frame different]
          exact mapped.idle frame free
        unmanaged := by
          intro frame unmanaged
          have different : frame ≠ frameOf (word page) := by
            rintro rfl
            exact unmanaged (mapped.managed ▸ managed)
          rw [memory frame different]
          exact mapped.unmanaged frame unmanaged
        nodup := mapped.nodup
        accessible := mapped.accessible
        entry := by
          intro other inside
          rw [view]
          exact mapped.entry other inside
        held := mapped.held
        memory := by
          intro other inside
          by_cases own : other = page
          · rw [own, Function.update_self]
            exact Function.update_self ..
          · rw [Function.update_of_ne own, memory _ (mapped.frame_ne member inside own)]
            exact mapped.memory other inside
        others := by
          intro other nonzero
          rw [view] at nonzero
          exact mapped.others other nonzero }
  · exact ⟨⟨diskEntry_setPage (fun _ => mapped.noTable member) content, rfl, rfl, rfl, rfl⟩,
      fun layout => layout.congr rfl rfl (fun _ => id) fun _ => id⟩

/-- A page is mapped on a fresh frame. -/
theorem attach (user : address < userTop) (outside : ppn address ∉ pages)
    (noArray : ¬InArray (ppn address)) (fresh : Fresh ghost state.view frame)
    (table : hasPerm (directoryEntry state env address) permPresent = true) :
    ∃ after, Mapped origin start env (pages ++ [ppn address])
        (Function.update word (ppn address) (mapWord frame (permUser ||| permWriteable)))
        (Function.update image (ppn address) (state.memory frame)) after
        (state.mapUser env frame address (permUser ||| permWriteable)) ∧
      KeepsFile state (state.mapUser env frame address (permUser ||| permWriteable)) := by
  have bound := mapped.consistent.bounded frame fresh.managed
  have refers : frameOf (mapWord frame (permUser ||| permWriteable)) = frame :=
    frameOf_mapWord bound (by decide)
  have view : (state.mapUser env frame address (permUser ||| permWriteable)).view =
      state.view.attach frame (.user env (ppn address))
        (mapWord frame (permUser ||| permWriteable)) :=
    State.view_mapUser mapped.consistent.toPlacement user table
  have empty : state.view.entry (.user env (ppn address)) = 0 := by
    by_contra nonzero
    rcases mapped.others _ nonzero with member | inArray
    · exact outside member
    · exact noArray inArray
  have unheld := fresh.unheld
  have frameNe : frame ≠ frameOf (directoryEntry state env address) := by
    rcases table_held mapped.consistent user table with ⟨page, held⟩
    rintro rfl
    rw [held] at unheld
    exact Finset.singleton_ne_empty _ unheld
  have memory : ∀ other, other ≠ frameOf (directoryEntry state env address) →
      (state.mapUser env frame address (permUser ||| permWriteable)).memory other =
        state.memory other :=
    fun other different => Function.update_of_ne different ..
  have loadedNe : ∀ page ∈ pages, frameOf (word page) ≠ frame := by
    rintro page member rfl
    have held := mapped.member member
    rw [unheld] at held
    exact Finset.notMem_empty _ held
  have inner : ∀ page ∈ pages, page ≠ ppn address := by
    rintro page member rfl
    exact outside member
  refine ⟨ghost.attach frame (.user env (ppn address)), ?_, ?_⟩
  · exact
      { consistent := by
          rw [view]
          refine mapped.consistent.attach fresh.managed fresh.unlisted empty
            (ne_zero_of_present (present_mapWord _ _)) refers (present_mapWord _ _) ?_ ?_ ?_ ?_
          · rw [unheld]
            decide
          · exact fun table nonzero => mapped.consistent.table_frame_ne unheld nonzero
          · exact fun other active page resident =>
              mapped.consistent.resident_frame_ne unheld active resident
          · intro other page same active
            rw [Slot.user.injEq, Directory.env.injEq] at same
            rw [← same.1] at active
            exact absurd active mapped.inactive
        inactive := mapped.inactive
        managed := mapped.managed
        idle := by
          intro other free
          rw [memory other (table_frame_ne mapped.consistent user table (.inl free))]
          exact mapped.idle other free
        unmanaged := by
          intro other unmanaged
          rw [memory other (table_frame_ne mapped.consistent user table
            (.inr (.inl (mapped.managed ▸ unmanaged))))]
          exact mapped.unmanaged other unmanaged
        nodup := by
          rw [List.nodup_append]
          refine ⟨mapped.nodup, List.nodup_singleton _, ?_⟩
          intro page member other single
          rw [List.mem_singleton.mp single]
          exact inner page member
        accessible := by
          intro page member
          rcases List.mem_append.mp member with before | own
          · rw [Function.update_of_ne (inner page before)]
            exact mapped.accessible page before
          · rw [List.mem_singleton.mp own, Function.update_self]
            exact userEntry_mapWord frame
        entry := by
          intro page member
          rw [view]
          rcases List.mem_append.mp member with before | own
          · have different := inner page before
            rw [Function.update_of_ne different, View.attach_entry (by simp [different])]
            exact mapped.entry page before
          · rw [List.mem_singleton.mp own, Function.update_self]
            exact Function.update_self ..
        held := by
          intro page member
          rcases List.mem_append.mp member with before | own
          · rw [Function.update_of_ne (inner page before),
              Ghost.attach_holders_of_ne (loadedNe page before)]
            exact mapped.held page before
          · rw [List.mem_singleton.mp own, Function.update_self, refers,
              Ghost.attach_holders_self, unheld]
            rfl
        memory := by
          intro page member
          rcases List.mem_append.mp member with before | own
          · rw [Function.update_of_ne (inner page before),
              Function.update_of_ne (inner page before),
              memory _ (table_frame_ne mapped.consistent user table
                (.inr (.inr ⟨_, _, mapped.member before⟩)))]
            exact mapped.memory page before
          · rw [List.mem_singleton.mp own, Function.update_self, Function.update_self, refers,
              memory frame frameNe]
        others := by
          intro page nonzero
          by_cases own : page = ppn address
          · exact .inl (List.mem_append.mpr (.inr (List.mem_singleton.mpr own)))
          · rw [view, View.attach_entry (by simp [own])] at nonzero
            rcases mapped.others page nonzero with before | inArray
            · exact .inl (List.mem_append.mpr (.inl before))
            · exact .inr inArray }
  · have counted : Placement ghost (state.addReferences frame 1).view :=
      mapped.consistent.toPlacement.congr rfl fun _ _ => rfl
    have first : KeepsFile state (state.addReferences frame 1) :=
      ⟨⟨fun _ _ => rfl, rfl, rfl, rfl, rfl⟩,
        fun layout => layout.congr rfl rfl (fun _ => id) fun _ => id⟩
    exact first.trans (.storeEntry counted user table _)

end Mapped

end Store

/-! ## The shared working set -/

/-- A page of the user is mapped for reading. -/
def ReadOnly (entry : Word) : Prop :=
  ∃ frame, entry = constructEntry frame (permUser ||| permPresent)

theorem ReadOnly.present {entry : Word} (readOnly : ReadOnly entry) :
    hasPerm entry permPresent = true := by
  rcases readOnly with ⟨frame, rfl⟩
  rw [hasPerm_present, getLsbD_constructEntry _ _ (by decide)]
  decide

structure PagesShared (state : State) (env : Nat) (pages : List Nat) (final : State) : Prop where
  shared : ∀ page ∈ pages, ReadOnly (final.view.entry (.user env page))
  others : ∀ page, page ∉ pages →
    final.view.entry (.user env page) = state.view.entry (.user env page)
  envs : final.envs = state.envs

theorem Mapped.sharePage (mapped : Mapped origin start env pages word image ghost state)
    {sva dva : Nat} (user : dva < userTop) (inArray : InArray (ppn dva))
    (empty : state.view.entry (.user env (ppn dva)) = 0)
    (returned : sharePage env sva dva state = .ok ((), final)) :
    ∃ after, Mapped origin start env pages word image after final ∧ KeepsFile state final ∧
      PagesShared state env [ppn dva] final := by
  rcases Kernel.bind_observe_ok.mp returned with ⟨frame, -, returned⟩
  rcases Kernel.bind_observe_ok.mp returned with ⟨⟨status, pointer⟩, found, returned⟩
  have entered : ∀ {middle : State} {between : Ghost} {pointer : TablePointer},
      Mapped origin start env pages word image between middle → KeepsFile state middle →
      (∀ page, middle.view.entry (.user env page) = state.view.entry (.user env page)) →
      middle.envs = state.envs →
      hasPerm (directoryEntry middle env dva) permPresent = true →
      PointsTo middle pointer (frameOf (directoryEntry middle env dva)) →
      store pointer (ptx dva) (constructEntry frame (permUser ||| permPresent)) middle =
        .ok ((), final) →
      ∃ after, Mapped origin start env pages word image after final ∧ KeepsFile state final ∧
        PagesShared state env [ppn dva] final := by
    intro middle between pointer mapped keeps entries envs present points stored
    have readOnly : ReadOnly (constructEntry frame (permUser ||| permPresent)) := ⟨frame, rfl⟩
    have view := State.view_storeEntry mapped.consistent.toPlacement user present
      (constructEntry frame (permUser ||| permPresent))
    rw [points.store_ok stored]
    refine ⟨_, mapped.share user inArray present (by rw [entries, empty]) readOnly.present,
      keeps.trans (.storeEntry mapped.consistent.toPlacement user present _), ?_, ?_, envs⟩
    · intro page member
      rw [List.mem_singleton.mp member, view]
      simpa [View.setEntry] using readOnly
    · intro page outside
      rw [view]
      have different : page ≠ ppn dva := fun same => outside (List.mem_singleton.mpr same)
      simpa [View.setEntry, different] using entries page
  rcases getPageTable_user mapped.consistent.toHeapLayout user found with
    ⟨absent, rfl, rfl⟩ | ⟨present, rfl, -, located⟩
  · rcases Kernel.ite_ok.mp returned with ⟨-, returned⟩ | ⟨impossible, -⟩
    · rcases Kernel.bind_ok.mp returned with ⟨pointer, middle, created, returned⟩
      rcases createPageTable_ok mapped.consistent user absent created with ⟨between, new⟩
      exact entered (mapped.background new.background) (.newTable new)
        (new.background.userEntry env) new.envs new.present new.points returned
    · exact absurd rfl impossible
  · rcases Kernel.ite_ok.mp returned with ⟨impossible, -⟩ | ⟨-, returned⟩
    · contradiction
    · rcases Kernel.bind_ok.mp returned with ⟨pointer, middle, passed, returned⟩
      rcases Kernel.pure_ok.mp passed with ⟨rfl, rfl⟩
      rcases located with rfl | points
      · exact absurd returned (by simp [store, Kernel.throw_ok])
      · exact entered mapped (.refl state) (fun _ => rfl) rfl present points returned

theorem PagesShared.trans {first second : List Nat}
    (one : PagesShared state env first middle) (two : PagesShared middle env second final)
    (apart : ∀ page ∈ first, page ∉ second) : PagesShared state env (first ++ second) final where
  shared := by
    intro page member
    rcases List.mem_append.mp member with before | after
    · rw [two.others page (apart page before)]
      exact one.shared page before
    · exact two.shared page after
  others := by
    intro page outside
    rw [List.mem_append, not_or] at outside
    rw [two.others page outside.2, one.others page outside.1]
  envs := two.envs.trans one.envs

theorem Mapped.sharePages (mapped : Mapped origin start env pages word image ghost state)
    (dva : Nat → Nat) {svas : List Nat} (user : ∀ sva ∈ svas, dva sva < userTop)
    (inArray : ∀ sva ∈ svas, InArray (ppn (dva sva)))
    (nodup : (svas.map fun sva => ppn (dva sva)).Nodup)
    (empty : ∀ sva ∈ svas, state.view.entry (.user env (ppn (dva sva))) = 0)
    (returned : Kernel.forEach (fun sva => FosKernel.sharePage env sva (dva sva)) svas state =
      .ok ((), final)) :
    ∃ after, Mapped origin start env pages word image after final ∧ KeepsFile state final ∧
      PagesShared state env (svas.map fun sva => ppn (dva sva)) final := by
  induction svas generalizing ghost state with
  | nil =>
      rcases Kernel.pure_ok.mp returned with ⟨-, rfl⟩
      exact ⟨ghost, mapped, .refl state, by simp, fun _ _ => rfl, rfl⟩
  | cons sva svas induction =>
      rcases Kernel.bind_ok.mp returned with ⟨_, middle, shared, returned⟩
      rw [List.map_cons, List.nodup_cons] at nodup
      rcases mapped.sharePage (user sva (by simp)) (inArray sva (by simp))
        (empty sva (by simp)) shared with ⟨between, mappedMiddle, keeps, one⟩
      have different : ∀ other ∈ svas, ppn (dva other) ≠ ppn (dva sva) := by
        intro other member same
        exact nodup.1 (same ▸ List.mem_map_of_mem member)
      rcases induction mappedMiddle (fun other member => user other (by simp [member]))
        (fun other member => inArray other (by simp [member])) nodup.2
        (fun other member => by
          rw [one.others _ (by simpa using different other member)]
          exact empty other (by simp [member])) returned with ⟨after, mappedFinal, rest, others⟩
      refine ⟨after, mappedFinal, keeps.trans rest, ?_⟩
      exact one.trans others fun page member => by
        rw [List.mem_singleton.mp member]
        exact nodup.1

/-- The pages on which `ShareWSAtUserSpace` maps the array at `address`. -/
def windowPages (address maxSize : Nat) : List Nat :=
  (pageRange address ((address + sizeofWorkingSetElement * maxSize) % 2 ^ 32)).map fun sva =>
    ppn (userPagesWSStart + (sva - address))

/-- The array was allocated in `allocated` and shared. -/
structure ArrayShared (state : State) (env address : Nat) (allocated final : State) : Prop where
  array : createUserPageWS (state.envs env).pageWSMaxSize state = .ok (address, allocated)
  nonzero : address ≠ 0
  bound : (address + sizeofWorkingSetElement * (state.envs env).pageWSMaxSize) % 2 ^ 32 ≤
    kernelHeapMax
  pages : PagesShared (allocated.setEnv env
    { allocated.envs env with pageWorkingSetAddress := address }) env
    (windowPages address (state.envs env).pageWSMaxSize) final

theorem shareWSAtUserSpace_ok (returned : shareWSAtUserSpace env state = .ok ((), final)) :
    ∃ address allocated, createUserPageWS (state.envs env).pageWSMaxSize state =
        .ok (address, allocated) ∧ address ≠ 0 ∧
      (address + sizeofWorkingSetElement * (state.envs env).pageWSMaxSize) % 2 ^ 32 ≤
        kernelHeapMax ∧
      Kernel.forEach
        (fun sva => sharePage env sva (userPagesWSStart + (sva - address)))
        (pageRange address
          ((address + sizeofWorkingSetElement * (state.envs env).pageWSMaxSize) % 2 ^ 32))
        (allocated.setEnv env { allocated.envs env with pageWorkingSetAddress := address }) =
          .ok ((), final) := by
  replace returned := Kernel.bind_get_ok.mp returned
  rcases Kernel.bind_ok.mp returned with ⟨address, allocated, array, returned⟩
  rcases Kernel.ite_ok.mp returned with ⟨-, stopped⟩ | ⟨nonzero, returned⟩
  · rcases Kernel.bind_ok.mp stopped with ⟨_, _, thrown, -⟩
    exact absurd thrown (by simp [Kernel.throw_ok])
  replace returned := Kernel.bind_modify_ok.mp returned
  rcases Kernel.ite_ok.mp returned with ⟨-, stopped⟩ | ⟨bound, returned⟩
  · rcases Kernel.bind_ok.mp stopped with ⟨_, _, thrown, -⟩
    exact absurd thrown (by simp [Kernel.throw_ok])
  exact ⟨address, allocated, array, nonzero, Nat.le_of_not_lt bound, returned⟩

theorem Mapped.shareWSAtUserSpace (mapped : Mapped origin start env pages word image ghost state)
    (tables : ∀ index < pdx userTop, state.pageDirectory (.env env) index = 0)
    (request : Request (sizeofWorkingSetElement * (state.envs env).pageWSMaxSize % 2 ^ 32))
    (returned : shareWSAtUserSpace env state = .ok ((), final)) :
    ∃ address allocated after, Mapped origin start env pages word image after final ∧
      KeepsFile state final ∧ HeapOnly state allocated ∧
      ArrayShared state env address allocated final := by
  rcases shareWSAtUserSpace_ok returned with
    ⟨address, allocated, array, nonzero, bound, looped⟩
  rcases kmalloc_ok mapped.consistent request array with
    ⟨zero, -⟩ | ⟨record, between, rfl, allocation⟩
  · exact absurd zero nonzero
  rcases allocation.scanned with ⟨first, scanned⟩
  have heap := scanned.first_heapAddress
  have only := allocation.only
  have lower := heap.lower
  have window : ∀ sva ∈ pageRange record.first ((record.first + sizeofWorkingSetElement *
        (state.envs env).pageWSMaxSize) % 2 ^ 32),
      ∃ index < kernelHeapPages, sva = record.first + index * 4096 := by
    intro sva member
    rcases mem_pageRange.mp member with ⟨index, rfl, inside⟩
    refine ⟨index, ?_, rfl⟩
    simp only [kernelHeapStart, kernelHeapMax, kernelHeapPages] at *
    omega
  have target : ∀ index, ppn (userPagesWSStart + (record.first + index * 4096 - record.first)) =
      ppn userPagesWSStart + index := by
    intro index
    rw [Nat.add_sub_cancel_left]
    exact Nat.add_mul_div_right _ _ (by decide)
  have mappedShared := (mapped.background (.ofGrowth allocation.growth only)).setEnv
    { allocated.envs env with pageWorkingSetAddress := record.first }
  have empty : ∀ page, (allocated.setEnv env
      { allocated.envs env with pageWorkingSetAddress := record.first }).view.entry
        (.user env page) = 0 := by
    intro page
    refine entry_of_no_tables (fun index user => ?_) page
    rw [show (allocated.setEnv env _).pageDirectory = allocated.pageDirectory from rfl,
      only.pageDirectory]
    exact tables index user
  have keeps : KeepsFile state (allocated.setEnv env
      { allocated.envs env with pageWorkingSetAddress := record.first }) :=
    (KeepsFile.heapOnly only).trans (.setEnv rfl rfl)
  have user : ∀ sva ∈ pageRange record.first ((record.first + sizeofWorkingSetElement *
      (state.envs env).pageWSMaxSize) % 2 ^ 32),
      userPagesWSStart + (sva - record.first) < userTop := by
    intro sva member
    rcases window sva member with ⟨index, inside, rfl⟩
    rw [Nat.add_sub_cancel_left]
    simp only [userPagesWSStart, userHeapMax, userTop, kernelHeapPages] at inside ⊢
    omega
  have inArray : ∀ sva ∈ pageRange record.first ((record.first + sizeofWorkingSetElement *
      (state.envs env).pageWSMaxSize) % 2 ^ 32),
      InArray (ppn (userPagesWSStart + (sva - record.first))) := by
    intro sva member
    rcases window sva member with ⟨index, inside, rfl⟩
    rw [InArray, target]
    omega
  have nodup : (windowPages record.first (state.envs env).pageWSMaxSize).Nodup := by
    rw [windowPages, pageRange, List.map_map, List.nodup_map_iff_inj_on List.nodup_range]
    intro left _ right _ equal
    simp only [Function.comp, target] at equal
    omega
  rcases mappedShared.sharePages (fun sva => userPagesWSStart + (sva - record.first)) user inArray
    nodup (fun _ _ => empty _) looped with ⟨after, mappedFinal, rest, shared⟩
  exact ⟨record.first, allocated, after, mappedFinal, keeps.trans rest, only, array, nonzero,
    bound, shared⟩

/-! ## Before the program is loaded -/

/-- The steps of `env_create` up to `ShareWSAtUserSpace`; the result is the frame of the
directory. -/
def prepareEnvironment (env : Nat) (program : Program) (pageWSSize : Nat) : Kernel Nat := do
  modify fun state => state.setEnv env { state.envs env with progName := program.name }
  let address ← createUserDirectory
  let frame ← observe fun state => kheapPhysicalAddress state address
  modify fun state => state.setEnv env { state.envs env with pageWSMaxSize := pageWSSize }
  let _ ← observe fun state => kernelFrame state address
  modify fun state =>
    { state with
      pageDirectory := Function.update state.pageDirectory (.env env) fun index =>
        if index < pdx userTop then 0 else state.pageDirectory .kernel index }
  return frame

/-- The rest of `initialize_environment`. -/
def completeEnvironment (env frame : Nat) : Kernel Unit := do
  modify fun state => state.setEnv env
    { state.envs env with
      ptrPageWorkingSet := fun index =>
        if index < (state.envs env).pageWSMaxSize then .cleared
        else (state.envs env).ptrPageWorkingSet index
      pageLastWSIndex := 0
      tableLastWSIndex := 0
      diskEnvPgdir := 0
      diskEnvTabledir := 0 }
  modify fun state => state.setDirectoryEntry (.env env) 0x3BF
    (constructEntry frame (permPresent ||| permWriteable))
  modify fun state => state.setDirectoryEntry (.env env) 0x3BD
    (constructEntry frame (permPresent ||| permUser))

def loadProgram (env : Nat) (program : Program) (pageWSSize : Nat) : Kernel Unit := do
  loadSegments env ((pageWSSize + (2 ^ 32 - 1)) % 2 ^ 32) 0xFFFFFFFF program.segments
  clearModified env (List.range pageWSSize)
  loadStack env

theorem envCreate_eq (env : Nat) (program : Program) (pageWSSize : Nat) :
    envCreate env program pageWSSize = (do
      let frame ← prepareEnvironment env program pageWSSize
      shareWSAtUserSpace env
      completeEnvironment env frame
      loadProgram env program pageWSSize) := by
  simp only [envCreate, initializeEnvironment, prepareEnvironment, completeEnvironment,
    loadProgram, bind_assoc, pure_bind]

def State.resetDirectory (state : State) (env : Nat) : State :=
  { state with
    pageDirectory := Function.update state.pageDirectory (.env env) fun index =>
      if index < pdx userTop then 0 else state.pageDirectory .kernel index }

theorem State.resetDirectory_tables (state : State) (env : Nat) :
    ∀ index < pdx userTop, (state.resetDirectory env).pageDirectory (.env env) index = 0 := by
  intro index user
  simp [State.resetDirectory, user]

theorem State.view_resetDirectory
    (tables : ∀ index < pdx userTop, state.pageDirectory (.env env) index = 0) :
    (state.resetDirectory env).view = state.view := by
  have others : ∀ owner, owner ≠ .env env →
      (state.resetDirectory env).pageDirectory owner = state.pageDirectory owner :=
    fun owner different => Function.update_of_ne different ..
  apply View.ext <;> try rfl
  · funext slot
    cases slot with
    | heap page => rfl
    | user owner page =>
        by_cases own : owner = .env env
        · rw [own, entry_of_no_tables tables]
          exact entry_of_no_tables (state.resetDirectory_tables env) page
        · simp only [State.view, State.slotEntry, others owner own]
          rfl
  · funext table
    cases table with
    | disk _ _ => rfl
    | page owner index =>
        by_cases user : index < pdx userTop
        · rw [tableEntry_page user, tableEntry_page user]
          by_cases own : owner = .env env
          · rw [own, tables index user, state.resetDirectory_tables env index user]
          · rw [others owner own]
        · simp only [State.view, State.tableEntry, if_neg user]

theorem FreeEnv.prepare (free : FreeEnv ghost state env) (consistent : Consistent ghost state.view)
    {program : Program} {pageWSSize frame : Nat}
    (returned : prepareEnvironment env program pageWSSize state = .ok (frame, final)) :
    ∃ after, (∀ word image, Mapped ghost state env [] word image after final) ∧
      KeepsFile state final ∧
      (∀ index < pdx userTop, final.pageDirectory (.env env) index = 0) ∧
      final.envs env =
        { state.envs env with progName := program.name, pageWSMaxSize := pageWSSize } := by
  replace returned := Kernel.bind_modify_ok.mp returned
  rcases Kernel.bind_ok.mp returned with ⟨address, grown, directory, returned⟩
  rcases Kernel.bind_observe_ok.mp returned with ⟨result, -, returned⟩
  replace returned := Kernel.bind_modify_ok.mp returned
  rcases Kernel.bind_observe_ok.mp returned with ⟨_, -, returned⟩
  replace returned := Kernel.bind_modify_ok.mp returned
  rcases Kernel.pure_ok.mp returned with ⟨rfl, rfl⟩
  rcases Kernel.bind_ok.mp directory with ⟨page, middle, allocated, directory⟩
  rcases Kernel.ite_ok.mp directory with ⟨-, stopped⟩ | ⟨nonzero, directory⟩
  · rcases Kernel.bind_ok.mp stopped with ⟨_, _, thrown, -⟩
    exact absurd thrown (by simp [Kernel.throw_ok])
  rcases Kernel.pure_ok.mp directory with ⟨rfl, rfl⟩
  have named := fun word image => (free.mapped consistent word image).setEnv
    { state.envs env with progName := program.name }
  rcases kmalloc_page (named (fun _ => 0) fun _ _ => 0).consistent allocated nonzero with
    ⟨frame, after, new⟩
  have tables : ∀ index < pdx userTop, (middle.setEnv env
      { middle.envs env with pageWSMaxSize := pageWSSize }).pageDirectory (.env env) index = 0 := by
    intro index user
    exact (congrFun (congrFun new.only.pageDirectory _) index).trans (free.tables index user)
  refine ⟨after, fun word image => ?_, ?_, State.resetDirectory_tables _ env, ?_⟩
  · have sized := ((named word image).background new.background).setEnv
      { middle.envs env with pageWSMaxSize := pageWSSize }
    exact sized.congr (State.view_resetDirectory tables) rfl
  · have reset : KeepsFile (middle.setEnv env
        { middle.envs env with pageWSMaxSize := pageWSSize })
        ((middle.setEnv env
          { middle.envs env with pageWSMaxSize := pageWSSize }).resetDirectory env) :=
      ⟨⟨fun _ _ => rfl, rfl, rfl, rfl, rfl⟩,
        fun layout => layout.congr rfl rfl (fun _ => id) fun _ => id⟩
    have named : KeepsFile state (state.setEnv env
        { state.envs env with progName := program.name }) := .setEnv rfl rfl
    have sized : KeepsFile middle (middle.setEnv env
        { middle.envs env with pageWSMaxSize := pageWSSize }) := .setEnv rfl rfl
    exact (named.trans (.heapOnly new.only)).trans (sized.trans reset)
  · have record : (middle.setEnv env { middle.envs env with pageWSMaxSize := pageWSSize }).envs
        env = { middle.envs env with pageWSMaxSize := pageWSSize } := Function.update_self ..
    refine record.trans ?_
    rw [new.only.envs]
    simp [State.setEnv]

end Steps

end FosKernel
