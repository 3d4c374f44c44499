import FosKernel.Abstract.FlatMemory
import FosKernel.Properties.FaultSteps

/-! # Pages that are loaded

A page that is neither in memory nor buffered gets a frame, into which its words are read from
the disk. No other page changes.
-/

namespace FosKernel.PagedMemory

open Kernel PageContents

section Contents

variable {users : Finset Nat} {ghost : Ghost} {free : List Nat} {origin state final : State}
variable {env page address frame : Nat}

/-! ## A frame for a page -/

variable {perm : Word}

theorem ListsOnly.allocate (state : State) (frame : Nat) : ListsOnly state (state.allocate frame) :=
  ⟨_, _, _, _, rfl⟩

theorem Paged.allocate (paged : Paged users ghost free state)
    (returned : allocateFrame state = .ok (frame, final)) :
    Paged users { ghost with free := ghost.free.erase frame } free final ∧
      Fresh { ghost with free := ghost.free.erase frame } final.view frame ∧
      ListsOnly state final := by
  rcases allocateFrame_consistent paged.consistent returned with ⟨-, rfl, consistent, fresh⟩
  have only := ListsOnly.allocate state frame
  refine ⟨paged.next consistent only.keepsFile ?_ (fun _ _ => .rfl) rfl (fun _ => rfl), fresh, only⟩
  exact fun owner page => .refl _

/-- The page of the fault has got a frame. The words of the other pages are as at the start, and
so are the words of this one on the disk. -/
structure Loaded (users : Finset Nat) (ghost : Ghost) (free : List Nat) (env address : Nat)
    (origin final : State) : Prop where
  brought : Brought users ghost free env address origin final
  others : ∀ key, key ≠ (env, ppn address) → contents final key = contents origin key
  disk : ∀ words, stored origin (env, ppn address) = some words →
    stored final (env, ppn address) = some words

theorem contents_key (entry : final.view.entry (.user env page) = state.view.entry (.user env page))
    (memory : state.view.entry (.user env page) ≠ 0 →
      hasPerm (state.view.entry (.user env page)) permWriteable = true →
      final.memory (frameOf (state.view.entry (.user env page))) =
        state.memory (frameOf (state.view.entry (.user env page))))
    (disk : state.view.entry (.user env page) = 0 →
      stored final (env, page) = stored state (env, page)) :
    contents final (env, page) = contents state (env, page) := by
  simp only [contents, entry]
  split
  · next zero => exact disk zero
  · next nonzero =>
      split
      · next writeable => rw [memory nonzero writeable]
      · rfl

theorem Paged.map (paged : Paged users ghost free state) (fresh : Fresh ghost state.view frame)
    (user : address < userTop)
    (table : hasPerm (directoryEntry state env address) permPresent = true)
    (empty : state.view.entry (.user env (ppn address)) = 0)
    (loose : Slot.user env (ppn address) ∈ ghost.loose) (low : Low perm)
    (writeable : perm.getLsbD 1 = true) :
    Loaded users (ghost.attach frame (.user env (ppn address))) free env address state
      (state.mapUser env frame address perm) := by
  have consistent := paged.consistent
  have view := @State.view_mapUser ghost state env frame address perm consistent.toPlacement
    user table
  have bound := consistent.bounded frame fresh.managed
  have counting : Placement ghost (state.addReferences frame 1).view :=
    State.addReferences_placement consistent.toPlacement
  have keeps : KeepsFile state (state.mapUser env frame address perm) :=
    ⟨⟨diskEntry_setMemory_table counting (address_user user).2 table _ _, rfl, rfl, rfl, rfl⟩,
      fun layout => layout.congr rfl rfl (fun _ => id) fun _ => id⟩
  have own : (state.mapUser env frame address perm).view.entry (.user env (ppn address)) =
      mapWord frame perm := by
    rw [view]
    exact Function.update_self _ _ _
  have other : ∀ slot, slot ≠ .user env (ppn address) →
      (state.mapUser env frame address perm).view.entry slot = state.view.entry slot := by
    intro slot different
    rw [view, View.attach_entry different]
  have visible := consistent.visible_of_empty empty
  have attached := consistent.attach fresh.managed fresh.unlisted empty
    (ne_zero_of_present (present_mapWord frame perm)) (frameOf_mapWord bound low)
    (present_mapWord frame perm) (by rw [fresh.unheld]; decide)
    (fun someTable nonzero => consistent.table_frame_ne fresh.unheld nonzero)
    (fun someEnv active page resident => consistent.resident_frame_ne fresh.unheld active resident)
    (fun someEnv page same active => loose)
  refine ⟨⟨⟨?_, keeps.pageFile paged.file, ?_, ?_, paged.active, paged.sizes⟩, fun _ => rfl,
    ⟨rfl, rfl, rfl⟩, fun owner page => other _, visible, ?_, ?_⟩, ?_, ?_⟩
  · rw [view]
    exact attached
  · intro owner page hidden
    have different : Slot.user owner page ≠ .user env (ppn address) := by
      rintro same
      exact visible (same ▸ hidden)
    rw [other _ different]
    exact paged.readOnly owner page hidden
  · intro owner page shown nonzero
    by_cases same : Slot.user owner page = .user env (ppn address)
    · rw [same, own, hasPerm_writeable, getLsbD_constructEntry _ _ (by decide), BitVec.getLsbD_or,
        writeable]
      rfl
    · rw [other _ same] at nonzero ⊢
      exact paged.writeable owner page shown nonzero
  · rw [own]
    exact present_mapWord _ _
  · rw [own, frameOf_mapWord bound low, Ghost.attach_holders_self, fresh.unheld]
    rfl
  · rintro ⟨someEnv, page⟩ different
    apply contents_key
    · apply other
      intro same
      cases same
      exact different rfl
    · intro nonzero shown
      exact Function.update_of_ne (paged.frame_ne_table user table nonzero shown) _ _
    · intro _
      rw [stored_congr keeps.same]
  · intro words found
    rwa [stored_congr keeps.same]

/-! ## Reading the page -/

theorem alike_readEntry {entry : Word} (writeable : hasPerm entry permWriteable = true) :
    Alike entry (readEntry entry) where
  zero := by
    have still := readEntry_writeable writeable
    refine iff_of_false ?_ ?_ <;> rintro zero
    · rw [zero] at still
      exact absurd still (by decide)
    · rw [zero] at writeable
      exact absurd writeable (by decide)
  frame := readEntry_frame entry
  writeable := (readEntry_writeable writeable).trans writeable.symm

/-- The end of `pf_read_env_page` where it returns. -/
theorem readFrame_ok {dfn : Word} {code : PageFileCode} (paged : Paged users ghost free state)
    (user : address < userTop) (there : Writeable state state.curenv address)
    (returned : readFrame dfn address state = .ok (code, final)) :
    code = .success ∧ final = fill state state.curenv address
      (readEntry (state.view.entry (.user state.curenv (ppn address)))) dfn := by
  have consistent := paged.consistent
  have apart : frameOf (directoryEntry state state.curenv address) ≠
      frameOf (state.view.entry (.user state.curenv (ppn address))) :=
    (paged.frame_ne_table user there.table (ne_zero_of_present there.present) there.writeable).symm
  have view := @fill_view ghost state state.curenv address dfn
    (writtenEntry (state.view.entry (.user state.curenv (ppn address)))) consistent paged.readOnly
    user there
  rcases bind_ok.mp returned with ⟨_, filled, reading, marking⟩
  rw [readDiskPage_run user there] at reading
  cases reading
  rcases bind_ok.mp (bind_get_ok.mp marking) with ⟨_, marked, changing, ended⟩
  rcases pure_ok.mp ended with ⟨rfl, rfl⟩
  have layout := consistent.toHeapLayout
  have filledLayout : HeapLayout (fill state state.curenv address
      (writtenEntry (state.view.entry (.user state.curenv (ppn address)))) dfn).view := by
    rw [view]
    exact ⟨layout.kernelTables, layout.startLower, layout.startUpper, layout.startAligned⟩
  rcases ptSetPagePermissions_ok filledLayout user changing with ⟨-, rfl⟩
  have entry : (fill state state.curenv address
      (writtenEntry (state.view.entry (.user state.curenv (ppn address)))) dfn).view.entry
        (.user state.curenv (ppn address)) =
          writtenEntry (state.view.entry (.user state.curenv (ppn address))) := by
    rw [view]
    exact Function.update_self _ _ _
  refine ⟨rfl, ?_⟩
  change (fill state state.curenv address _ dfn).setMemory
    (frameOf (directoryEntry state state.curenv address)) _
    (changePerm ((fill state state.curenv address _ dfn).view.entry
      (.user state.curenv (ppn address))) 0 permModified) = _
  rw [entry, fill_again apart]
  rfl

theorem Brought.there (brought : Brought users ghost free env address origin state) :
    Writeable state env (roundDown address) := by
  have nonzero := ne_zero_of_present brought.present
  have table := (table_of_entry nonzero).2
  refine ⟨?_, ?_, ?_⟩
  · rwa [directoryEntry, pdx, ppn_roundDown]
  · rw [ppn_roundDown]
    exact brought.present
  · rw [ppn_roundDown]
    exact brought.paged.writeable _ _ brought.visible nonzero

/-- The words of a disk frame are in the page. -/
theorem Loaded.fill (loaded : Loaded users ghost free env address origin state)
    (user : address < userTop) (dfn : Word) :
    let filled := PageContents.fill state env (roundDown address)
      (readEntry (state.view.entry (.user env (ppn address)))) dfn
    Loaded users ghost free env address origin filled ∧
      contents filled (env, ppn address) =
        some fun index : Fin 1024 => state.diskPage dfn index := by
  intro filled
  have brought := loaded.brought
  have paged := brought.paged
  have consistent := paged.consistent
  have there := brought.there
  have down : roundDown address < userTop := Nat.lt_of_le_of_lt (Nat.sub_le _ _) user
  have nonzero := ne_zero_of_present brought.present
  have writeable := paged.writeable _ _ brought.visible nonzero
  have alike := alike_readEntry writeable
  have still := readEntry_present brought.present
  have view := @fill_view ghost state env (roundDown address) dfn
    (readEntry (state.view.entry (.user env (ppn address)))) consistent paged.readOnly down there
  have same := @fill_sameFile ghost state env (roundDown address) dfn
    (readEntry (state.view.entry (.user env (ppn address)))) consistent paged.readOnly down there
  rw [ppn_roundDown] at view
  have own : filled.view.entry (.user env (ppn address)) =
      readEntry (state.view.entry (.user env (ppn address))) := by
    rw [view]
    exact Function.update_self _ _ _
  have other : ∀ slot, slot ≠ .user env (ppn address) →
      filled.view.entry slot = state.view.entry slot := by
    intro slot different
    rw [view]
    exact Function.update_of_ne different _ _
  have entries : ∀ owner page, Alike (state.view.entry (.user owner page))
      (filled.view.entry (.user owner page)) := by
    intro owner page
    by_cases mine : Slot.user owner page = .user env (ppn address)
    · rw [mine, own]
      exact alike
    · rw [other _ mine]
      exact .refl _
  have keeps : KeepsFile state filled :=
    ⟨same, fun layout => layout.congr rfl rfl (fun _ => id) fun _ => id⟩
  have reflagged := consistent.reflag brought.present still alike.frame
  refine ⟨⟨⟨?_, brought.envs, brought.settings.trans ⟨rfl, rfl, rfl⟩, ?_, brought.visible, ?_, ?_⟩,
    ?_, ?_⟩, ?_⟩
  · exact paged.next (view ▸ reflagged) keeps entries (fun _ _ => .rfl) rfl fun _ => rfl
  · intro owner page different
    rw [other _ different]
    exact brought.others owner page different
  · rw [own]
    exact still
  · rw [own, alike.frame]
    exact brought.single
  · rintro ⟨owner, page⟩ different
    have apart : Slot.user owner page ≠ .user env (ppn address) := by
      intro equal
      cases equal
      exact different rfl
    rw [← loaded.others _ different]
    refine contents_key (other _ apart) (fun mapped shown => ?_) fun _ => by
      rw [stored_congr same]
    have held := paged.held mapped shown
    have table := paged.frame_ne_table down there.table mapped shown
    have frame : frameOf (state.view.entry (.user owner page)) ≠
        frameOf (state.view.entry (.user env (ppn address))) := by
      intro equal
      rw [equal, brought.single, Finset.mem_singleton] at held
      exact apart held
    change Function.update (Function.update state.memory _ _) _ _ _ = _
    rw [ppn_roundDown, Function.update_of_ne frame, Function.update_of_ne table]
  · intro words found
    rw [stored_congr same]
    exact loaded.disk words found
  · have nonzero := mt alike.zero.mp nonzero
    have shown := alike.writeable.trans writeable
    simp only [contents]
    rw [own, if_neg nonzero, if_pos shown, alike.frame]
    congr 1
    funext index
    have filling := @fill_contents state env (roundDown address) dfn
      (readEntry (state.view.entry (.user env (ppn address)))) index index.isLt
    rwa [ppn_roundDown] at filling

/-- The lookup misses the disk page table of the page. -/
def Lost (state : State) (env address : Nat) : Prop :=
  state.diskDirectory env (pdx address) ≠ 0 ∧ diskTablePointer state env address = .ok .null

/-- A page that is read has its words from the disk. -/
theorem Loaded.read {code : PageFileCode}
    (loaded : Loaded users ghost free env address origin state) (user : address < userTop)
    (running : state.curenv = env)
    (returned : pfReadEnvPage env address state = .ok (code, final)) :
    (code = .success ∧ Loaded users ghost free env address origin final ∧
      contents final (env, ppn address) = stored state (env, ppn address)) ∨
    (code = .pageNotExist ∧ final = state ∧
      (stored state (env, ppn address) = none ∨ Lost state env (roundDown address))) := by
  have paged := loaded.brought.paged
  have down : roundDown address < userTop := Nat.lt_of_le_of_lt (Nat.sub_le _ _) user
  have missing : state.diskEntry env (ppn address) = 0 → code = .pageNotExist → final = state →
      code = .pageNotExist ∧ final = state ∧
        (stored state (env, ppn address) = none ∨ Lost state env (roundDown address)) :=
    fun zero failed same => ⟨failed, same, .inl (stored_eq_none.mpr zero)⟩
  rcases ite_ok.mp (bind_get_ok.mp returned) with ⟨none, ended⟩ | ⟨-, opened⟩
  · rcases pure_ok.mp ended with ⟨rfl, rfl⟩
    exact .inr (missing (diskEntry_of_zero (paged.file.layout.noPages env none _)) rfl rfl)
  rcases bind_ok.mp opened with ⟨pointer, same, located, looked⟩
  rcases findDiskPageTable_ok paged.consistent.toHeapLayout down located with
    ⟨rfl, ⟨rfl, nothing⟩ | found⟩
  · rcases pure_ok.mp looked with ⟨rfl, rfl⟩
    by_cases absent : same.diskDirectory env (pdx (roundDown address)) = 0
    · rw [pdx, ppn_roundDown] at absent
      exact .inr (missing (diskEntry_of_zero absent) rfl rfl)
    · exact .inr ⟨rfl, rfl, .inr ⟨absent, nothing.resolve_left absent⟩⟩
  rcases ite_ok.mp looked with ⟨null, -⟩ | ⟨-, loading⟩
  · exact absurd null found.ne_null
  rcases bind_observe_ok.mp loading with ⟨dfn, loadedWord, reading⟩
  have entry := found.load_ok loadedWord
  rw [ppn_roundDown] at entry
  rcases ite_ok.mp reading with ⟨zero, ended⟩ | ⟨nonzero, filling⟩
  · rcases pure_ok.mp ended with ⟨rfl, rfl⟩
    exact .inr (missing (entry ▸ zero) rfl rfl)
  subst running
  rcases readFrame_ok paged down loaded.brought.there filling with ⟨rfl, rfl⟩
  rcases loaded.fill user dfn with ⟨filled, words⟩
  rw [ppn_roundDown]
  refine .inl ⟨rfl, filled, words.trans ?_⟩
  rw [stored, entry]
  exact (if_neg (entry ▸ nonzero)).symm

/-! ## Adding a page -/

variable {after : Ghost} {left : List Nat}

/-- A step of the kernel heap and the page file. -/
theorem Paged.background (paged : Paged users ghost free state)
    (step : Background ghost state after final) (file : PageFile left final) :
    Paged users after left final where
  consistent := step.evolves.consistent
  file := file
  readOnly := by
    intro owner page hidden
    rw [step.userEntry]
    exact paged.readOnly owner page (step.shared owner page hidden)
  writeable := by
    intro owner page visible nonzero
    rw [step.userEntry] at nonzero ⊢
    exact paged.writeable owner page
      (fun hidden => visible (step.evolves.window owner page hidden).1) nonzero
  active := by
    rw [step.evolves.active]
    exact paged.active
  sizes := by
    intro owner user
    have size := congrArg WorkingSet.maxSize (congrFun step.workingSet owner)
    exact lt_of_eq_of_lt size (paged.sizes owner user)

theorem Paged.background_contents (paged : Paged users ghost free state)
    (step : Background ghost state after final) (owner page : Nat)
    (disk : state.view.entry (.user owner page) = 0 →
      stored final (owner, page) = stored state (owner, page)) :
    contents final (owner, page) = contents state (owner, page) :=
  contents_key (step.userEntry owner page)
    (fun nonzero shown => step.memory _ owner page (paged.held nonzero shown)) disk

theorem stored_other {key : Nat × Nat}
    (others : ∀ someEnv somePage, ¬(someEnv = env ∧ somePage = page) →
      final.diskEntry someEnv somePage = state.diskEntry someEnv somePage)
    (sectors : final.sectors = state.sectors) (different : key ≠ (env, page)) :
    stored final key = stored state key := by
  rcases key with ⟨someEnv, somePage⟩
  have entry := others someEnv somePage fun same => different (Prod.ext same.1 same.2)
  simp only [stored, State.diskPage, entry, sectors]

/-- What `pf_add_empty_env_page` leaves. -/
theorem addEmpty_ok {zero : Bool} {code : PageFileCode} (consistent : Consistent ghost state.view)
    (file : PageFile free state) (user : address < userTop)
    (returned : pfAddEmptyEnvPage env address zero state = .ok (code, final)) :
    ∃ after left, Background ghost state after final ∧ PageFile left final ∧
      ∀ key, key ≠ (env, ppn address) → stored final key = stored state key := by
  rcases ite_ok.mp returned with ⟨-, cleared⟩ | ⟨-, plain⟩
  · rcases pfAddEnvPage_ok consistent file user (bind_get_ok.mp cleared) with
      ⟨after, left, outcome, -, sectors⟩
    refine ⟨after, left, outcome.step.background, ZeroPages.AddOutcome.pageFile outcome, ?_⟩
    intro key different
    rcases outcome.outcome with ⟨succeeded, added⟩ | ⟨-, -, -, -, same, -⟩
    · rw [if_pos succeeded] at sectors
      rw [stored_written added.file added.others (added.present file) sectors,
        Function.update_of_ne different]
    · rw [stored_congr same]
  · rcases bind_ok.mp plain with ⟨result, middle, adding, ended⟩
    rcases pfAddFrame_ok consistent file user adding with ⟨after, left, outcome, sectors, -⟩
    have same : final = middle := by
      cases result with
      | none => exact (pure_ok.mp ended).2.symm
      | some dfn => exact (pure_ok.mp ended).2.symm
    subst same
    refine ⟨after, left, outcome.step.background, ZeroPages.AddOutcome.pageFile outcome, ?_⟩
    intro key different
    rcases outcome.outcome with ⟨-, added⟩ | ⟨-, -, -, -, same, -⟩
    · exact stored_other added.others sectors different
    · rw [stored_congr same]

theorem Lost.congr {other : Nat} (lost : Lost state env address) (same : ppn other = ppn address)
    (user : address < userTop) (otherUser : other < userTop) : Lost state env other := by
  have index : pdx other = pdx address := by rw [pdx, pdx, same]
  refine ⟨index ▸ lost.1, ?_⟩
  have missed := lost.2
  have kernelless : ∀ {place}, place < userTop → ¬checkIfKernelAddress place :=
    fun below => not_le.mpr below
  rw [diskTablePointer, if_neg (kernelless user)] at missed
  rwa [diskTablePointer, if_neg (kernelless otherUser), index]

/-- A page is not added to a disk page table that is not found. -/
theorem Lost.stops {result : Option Word} (lost : Lost state env address)
    (layout : DiskLayout state) : ¬pfAddFrame env address state = .ok (result, final) := by
  intro returned
  rcases ite_ok.mp returned with ⟨-, stopped⟩ | ⟨-, opened⟩
  · rcases bind_ok.mp stopped with ⟨_, _, thrown, -⟩
    cases thrown
  rcases bind_ok.mp opened with ⟨_, entered, opening, located⟩
  have directory : (state.envs env).diskEnvPgdir ≠ 0 :=
    fun none => lost.1 (layout.noPages env none _)
  rcases ite_ok.mp (bind_get_ok.mp opening) with ⟨-, ended⟩ | ⟨absent, -⟩
  · rcases pure_ok.mp ended with ⟨-, rfl⟩
    rcases bind_ok.mp located with ⟨pointer, same, looking, allocating⟩
    rcases bind_observe_ok.mp looking with ⟨found, looked, ended⟩
    rw [lost.2] at looked
    cases looked
    rcases ite_ok.mp (bind_get_ok.mp ended) with ⟨absent, -⟩ | ⟨-, ended⟩
    · exact lost.1 absent
    · rcases pure_ok.mp ended with ⟨rfl, rfl⟩
      rcases bind_observe_ok.mp allocating with ⟨_, loaded, -⟩
      cases loaded
  · exact absent directory

/-- The page is added to the page file without being there. -/
theorem Loaded.add {zero : Bool} {code : PageFileCode} {target : Nat}
    (loaded : Loaded users ghost free env address origin state) (user : target < userTop)
    (same : ppn target = ppn address)
    (missing : stored state (env, ppn address) = none ∨ Lost state env target)
    (returned : pfAddEmptyEnvPage env target zero state = .ok (code, final)) :
    ∃ after left, after.loose = ghost.loose ∧
      Loaded users after left env address origin final ∧
      stored origin (env, ppn address) = none := by
  have brought := loaded.brought
  have paged := brought.paged
  have nowhere : stored state (env, ppn address) = none := by
    rcases missing with nowhere | lost
    · exact nowhere
    · rcases ite_ok.mp returned with ⟨-, cleared⟩ | ⟨-, plain⟩
      · rcases bind_ok.mp (bind_get_ok.mp cleared) with ⟨_, _, adding, -⟩
        exact absurd adding (lost.stops paged.file.layout)
      · rcases bind_ok.mp plain with ⟨_, _, adding, -⟩
        exact absurd adding (lost.stops paged.file.layout)
  have absent : stored origin (env, ppn address) = none := by
    cases before : stored origin (env, ppn address) with
    | none => rfl
    | some words =>
        have found := loaded.disk words before
        rw [nowhere] at found
        cases found
  rcases addEmpty_ok paged.consistent paged.file user returned with
    ⟨after, left, step, file, others⟩
  rw [same] at others
  refine ⟨after, left, step.evolves.loose, ⟨⟨paged.background step file, ?_,
    brought.settings.trans step.settings, ?_, ?_, ?_, ?_⟩, ?_, ?_⟩, absent⟩
  · intro other
    rw [← brought.envs other]
    exact congrFun step.workingSet other
  · intro owner page different
    rw [step.userEntry]
    exact brought.others owner page different
  · exact fun hidden => brought.visible (step.shared _ _ hidden)
  · rw [step.userEntry]
    exact brought.present
  · have member : Slot.user env (ppn address) ∈
        ghost.holders (frameOf (state.view.entry (.user env (ppn address)))) := by
      rw [brought.single]
      exact Finset.mem_singleton_self _
    have unlisted := paged.consistent.not_listed_of_present member brought.present
    rw [step.userEntry, (step.evolves.kept _ unlisted nofun).2.1]
    exact brought.single
  · rintro ⟨owner, page⟩ different
    rw [← loaded.others _ different]
    exact paged.background_contents step owner page fun _ => others _ different
  · intro words found
    rw [absent] at found
    cases found

/-! ## A page in memory -/

/-- The page of the fault is present, and no words got lost. -/
structure Arrived (users : Finset Nat) (ghost : Ghost) (free : List Nat) (env address : Nat)
    (origin final : State) : Prop where
  brought : Brought users ghost free env address origin final
  appears : FlatMemory.Appears (PagedMemory.contents origin) (env, ppn address)
    (PagedMemory.contents final)

theorem contents_of_empty (empty : state.view.entry (.user env page) = 0) :
    contents state (env, page) = stored state (env, page) := by
  simp only [contents]
  rw [if_pos empty]

/-- The words of the page have been read. -/
theorem Loaded.arrived (loaded : Loaded users ghost free env address origin final)
    (empty : origin.view.entry (.user env (ppn address)) = 0)
    (kept : ∀ words, stored origin (env, ppn address) = some words →
      contents final (env, ppn address) = some words) :
    Arrived users ghost free env address origin final where
  brought := loaded.brought
  appears := ⟨loaded.others, fun words found => kept words (contents_of_empty empty ▸ found)⟩

/-- The frame is taken and mapped. -/
theorem Paged.enter {perm : Word} (paged : Paged users ghost free state) (user : address < userTop)
    (table : hasPerm (directoryEntry state env address) permPresent = true)
    (empty : state.view.entry (.user env (ppn address)) = 0)
    (loose : Slot.user env (ppn address) ∈ ghost.loose) (low : Low perm)
    (writeable : perm.getLsbD 1 = true)
    (returned : (do
      let frame ← allocateFrame
      mapFrame env frame address perm : Kernel Unit) state = .ok ((), final)) :
    ∃ after, after.loose = ghost.loose ∧ Loaded users after free env address state final := by
  rcases bind_ok.mp returned with ⟨frame, taken, allocating, mapping⟩
  rcases paged.allocate allocating with ⟨pagedTaken, fresh, only⟩
  have tableTaken : hasPerm (directoryEntry taken env address) permPresent = true := by
    rw [directoryEntry, only.rest.2.2]
    exact table
  have emptyTaken : taken.view.entry (.user env (ppn address)) = 0 := by
    rw [only.entry]
    exact empty
  rcases mapFrame_new pagedTaken.consistent.toHeapLayout user tableTaken emptyTaken mapping with rfl
  have mapped := pagedTaken.map fresh user tableTaken emptyTaken loose low writeable
  have brought := mapped.brought
  have disk : stored taken = stored state := stored_congr only.keepsFile.same
  refine ⟨Ghost.attach { ghost with free := ghost.free.erase frame } frame
    (.user env (ppn address)), rfl,
    ⟨{ brought with envs := ?_, settings := ?_, others := ?_ }, ?_, ?_⟩⟩
  · intro other
    rw [brought.envs, only.rest.1]
  · exact only.rest.2.1.trans brought.settings
  · intro owner page different
    rw [brought.others owner page different, only.entry]
  · intro key different
    rw [mapped.others key different, only.contents]
  · rw [← disk]
    exact mapped.disk

/-- A page that is not buffered is loaded, or is new. -/
theorem Paged.load (paged : Paged users ghost free state) (user : address < userTop)
    (table : hasPerm (directoryEntry state env address) permPresent = true)
    (empty : state.view.entry (.user env (ppn address)) = 0)
    (loose : Slot.user env (ppn address) ∈ ghost.loose) (running : state.curenv = env)
    (returned : loadPage env address state = .ok ((), final)) :
    ∃ after left, after.loose = ghost.loose ∧
      Arrived users after left env address state final := by
  rcases bind_ok.mp returned with ⟨frame, taken, allocating, continued⟩
  rcases bind_ok.mp continued with ⟨_, mapped, mapping, reading⟩
  have entering : (do
      let frame ← allocateFrame
      mapFrame env frame address (permPresent ||| permUser ||| permWriteable) : Kernel Unit)
        state = .ok ((), mapped) := bind_ok.mpr ⟨frame, taken, allocating, mapping⟩
  rcases paged.enter user table empty loose (by decide) (by decide) entering with
    ⟨after, same, loaded⟩
  have runningNow : mapped.curenv = env := loaded.brought.settings.curenv.trans running
  rcases bind_ok.mp reading with ⟨code, read, reads, ended⟩
  rcases loaded.read user runningNow reads with
    ⟨rfl, loadedNow, words⟩ | ⟨rfl, rfl, missing⟩
  · rcases pure_ok.mp ended with ⟨-, rfl⟩
    refine ⟨after, free, same, loadedNow.arrived empty fun before found => ?_⟩
    rw [words]
    exact loaded.disk before found
  · rw [if_pos rfl] at ended
    rcases ite_ok.mp ended with ⟨-, adding⟩ | ⟨-, thrown⟩
    · rcases bind_ok.mp adding with ⟨_, added, adds, ended⟩
      rcases pure_ok.mp ended with ⟨-, rfl⟩
      have down : roundDown address < userTop := Nat.lt_of_le_of_lt (Nat.sub_le _ _) user
      have missing : stored read (env, ppn address) = none ∨ Lost read env address :=
        missing.imp_right fun lost => lost.congr ppn_roundDown.symm down user
      rcases loaded.add user rfl missing adds with ⟨last, left, kept, loadedNow, absent⟩
      refine ⟨last, left, kept.trans same, loadedNow.arrived empty fun before found => ?_⟩
      rw [absent] at found
      cases found
    · cases thrown

end Contents

end FosKernel.PagedMemory
