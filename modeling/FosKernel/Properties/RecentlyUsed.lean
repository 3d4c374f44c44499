import FosKernel.Properties.TimeStamps

/-! # Which page was used recently

Between faults the used bit and the time stamp of a page follow its accesses, so that the
time stamps of a working set order its pages by their last sixteen intervals.
-/

namespace FosKernel.PagedMemory

open Kernel ReferenceHistory

/-! ## What a slot may hold

The fault handler empties slots and fills them with fresh pages. -/

def Elements (good : WorkingSetElement → Prop) (state : State) : Prop :=
  ∀ env index, good ((state.envs env).ptrPageWorkingSet index)

section Slots

variable {good : WorkingSetElement → Prop}
variable {state final : State} {env index : Nat}

theorem elements_ofSame {action : Kernel α}
    (same : ∀ {base}, Preserves (SameEnvs base) action) : Preserves (Elements good) action := by
  intro state result final elements returned env index
  rw [(same state result final (.refl state) returned).elements]
  exact elements env index

theorem elements_ofQuiet {action : Kernel α}
    (quiet : ∀ {base}, Preserves (Quiet base) action) : Preserves (Elements good) action :=
  elements_ofSame (Quiet.sameEnvs quiet)

theorem Elements.setElement (elements : Elements good state) {element : WorkingSetElement}
    (new : good element) :
    Elements good (state.setEnv env ((state.envs env).setElement index element)) := by
  intro other slot
  by_cases same : other = env
  · subst same
    by_cases here : slot = index
    · simpa [State.setEnv, Env.setElement, here] using new
    · simpa [State.setEnv, Env.setElement, here] using elements other slot
  · simpa [State.setEnv, same] using elements other slot

theorem setLastWSIndex_elements (env index : Nat) :
    Preserves (Elements good) (setLastWSIndex env index) := by
  refine .modify fun state elements other slot => ?_
  by_cases same : other = env
  · subst same
    simpa [State.setEnv] using elements other slot
  · simpa [State.setEnv, same] using elements other slot

theorem advanceLastWSIndex_elements (env : Nat) :
    Preserves (Elements good) (advanceLastWSIndex env) :=
  .bind .get fun _ => setLastWSIndex_elements _ _

theorem setLastWSIndexAfter_elements (env index : Nat) :
    Preserves (Elements good) (setLastWSIndexAfter env index) :=
  .bind .get fun _ => setLastWSIndex_elements _ _

section Cleared

variable (cleared : good .cleared)

include cleared

theorem takeVictim_elements (env address : Nat) :
    Preserves (Elements good) (takeVictim env address) := by
  refine .bind .get fun _ => .bind (fun state result final elements returned => ?_) fun _ =>
    .bind (advanceLastWSIndex_elements _) fun _ => .pure _
  rw [(envPageWsClearEntry_ok returned).2]
  exact elements.setElement cleared

theorem secondTrial_elements (env fp fuel : Nat) :
    Preserves (Elements good) (secondTrial env fp fuel) := by
  induction fuel with
  | zero => exact .throw _
  | succ fuel induction =>
      refine .bind .get fun _ => .bind (preserves_observe _) fun _ =>
        .bind (preserves_observe _) fun _ => .ite ?_ ?_
      · exact .bind (elements_ofQuiet (ptSetPagePermissions_quiet _ _ _ _)) fun _ =>
          .bind (advanceLastWSIndex_elements _) fun _ => .bind .get fun _ =>
            .ite (.pure _) induction
      · exact .bind (takeVictim_elements cleared _ _) fun _ => .pure _

theorem findVictim_elements (env fp fuel : Nat) :
    Preserves (Elements good) (findVictim env fp fuel) := by
  induction fuel with
  | zero => exact .throw _
  | succ fuel induction =>
      refine .bind .get fun _ => .bind (preserves_observe _) fun _ =>
        .bind (preserves_observe _) fun _ => .ite (takeVictim_elements cleared _ _) ?_
      refine .bind (advanceLastWSIndex_elements _) fun _ => .bind .get fun _ =>
        .ite (.bind (secondTrial_elements cleared _ _ _) fun found => ?_) induction
      cases found with
      | none => exact induction
      | some victim => exact .pure _

end Cleared

section Fresh

variable (fresh : ∀ address, good ⟨roundDown address, false, 0x80000000⟩)

include fresh

theorem envPageWsSetEntry_elements (env index address : Nat) :
    Preserves (Elements good) (envPageWsSetEntry env index address) := by
  intro state result final elements returned
  rw [envPageWsSetEntry_ok returned]
  exact elements.setElement (fresh address)

theorem placeInWorkingSet_elements (env address : Nat) (indices : List Nat) :
    Preserves (Elements good) (placeInWorkingSet env address indices) := by
  induction indices with
  | nil => exact .pure _
  | cons index indices induction =>
      exact .bind .get fun _ => .ite (.bind (envPageWsSetEntry_elements fresh _ _ _) fun _ =>
        setLastWSIndex_elements _ _) induction

theorem placement_elements (env faultVa : Nat) :
    Preserves (Elements good) (placement env faultVa) := by
  refine .bind (elements_ofQuiet allocateFrame_quiet) fun _ =>
    .bind (elements_ofQuiet (mapFrame_quiet _ _ _ _)) fun _ =>
      .bind (elements_ofQuiet (pfReadEnvPage_quiet _ _)) fun _ => ?_
  have placed : ∀ address, Preserves (Elements good) (do
      placeInWorkingSet env address
        (List.range ((← getThe State).envs env).pageWSMaxSize) : Kernel Unit) :=
    fun address => .bind .get fun _ => placeInWorkingSet_elements fresh _ _ _
  refine .ite (.ite ?_ ?_) (placed _)
  · exact .bind (elements_ofQuiet (pfAddEmptyEnvPage_quiet _ _ _)) fun _ => placed _
  · exact .bind (.throw _) fun _ => placed _

theorem placementBranch_elements (env faultVa lastIDX : Nat) :
    Preserves (Elements good) (placementBranch env faultVa lastIDX) := by
  have ended : Preserves (Elements good) (setLastWSIndexAfter env lastIDX) :=
    setLastWSIndexAfter_elements env lastIDX
  refine .bind (placement_elements fresh _ _) fun _ => .bind (preserves_observe _) fun _ =>
    .ite (.bind (elements_ofQuiet (pfReadEnvPage_quiet _ _)) fun _ =>
      .ite (.ite ?_ ?_) ended) ended
  · exact .bind (elements_ofQuiet (pfAddEmptyEnvPage_quiet _ _ _)) fun _ => ended
  · exact .bind (.throw _) fun _ => ended

theorem replacementBranch_elements (cleared : good .cleared) (env faultVa : Nat)
    (faultFrame : Option Nat) :
    Preserves (Elements good) (replacementBranch env faultVa faultFrame) := by
  have entered : ∀ index, Preserves (Elements good) (do
      envPageWsSetEntry env index faultVa
      setLastWSIndexAfter env index) := fun index =>
    .bind (envPageWsSetEntry_elements fresh _ _ _) fun _ => setLastWSIndexAfter_elements _ _
  have fetched : ∀ index, Preserves (Elements good) (do
      let permissions ← observe fun state => ptGetPagePermissions state env faultVa
      if hasPerm permissions permBuffered then restorePage env faultVa permissions faultFrame
      else loadPage env faultVa
      envPageWsSetEntry env index faultVa
      setLastWSIndexAfter env index) := fun index =>
    .bind (preserves_observe _) fun _ =>
      .ite (.bind (elements_ofSame (restorePage_sameEnvs _ _ _ _)) fun _ => entered _)
        (.bind (elements_ofSame (loadPage_sameEnvs _ _)) fun _ => entered _)
  refine .bind .get fun _ => .bind (findVictim_elements cleared _ _ _) fun victim =>
    .bind (preserves_observe _) fun found => ?_
  rcases found with ⟨frame, _⟩
  cases frame with
  | none => exact .bind (.throw _) fun _ => fetched _
  | some frame =>
      exact .bind (elements_ofSame (bufferVictim_sameEnvs _ _ _)) fun _ => fetched _

theorem faultHandler_elements (cleared : good .cleared) (faultVa : Nat) :
    Preserves (Elements good) (faultHandler faultVa) := by
  have handled : ∀ env, Preserves (Elements good) (pageFaultHandler env faultVa) := by
    intro env
    refine .bind .get fun _ => .bind (preserves_observe _) fun _ => .ite ?_ ?_
    · exact placementBranch_elements fresh _ _ _
    · exact replacementBranch_elements fresh cleared _ _ _
  refine .ite (.bind (.throw _) fun _ => ?_) ?_
  all_goals
    refine .bind .get fun _ => .ite ?_ (.ite (.throw _) (handled _))
    exact .bind (elements_ofQuiet (createPageTable_quiet _ _)) fun _ => .pure _

end Fresh

theorem updateTableTimeStamps_elements (env : Nat) (indices : List Nat)
    (tables : Nat → WorkingSetElement) :
    Preserves (Elements good) (updateTableTimeStamps env indices tables) := by
  induction indices generalizing tables with
  | nil => exact .pure _
  | cons index indices induction =>
      refine .ite (induction _) (.bind .get fun _ => .ite ?_ (induction _))
      exact .bind (.modify fun _ elements => elements) fun _ => induction _

section Aged

variable (aged : ∀ element used, good element →
  good { element with timeStamp := age element.timeStamp used })

include aged

theorem updatePageTimeStamp_elements (env index : Nat) :
    Preserves (Elements good) (updatePageTimeStamp env index) := by
  intro state result final elements returned
  have stamped : ∀ used, Elements good (state.setEnv env ((state.envs env).setTimeStamp index
      (age ((state.envs env).ptrPageWorkingSet index).timeStamp used))) := fun used =>
    elements.setElement (aged _ used (elements env index))
  rcases ite_ok.mp (bind_get_ok.mp returned) with ⟨-, ended⟩ | ⟨-, updating⟩
  · rcases pure_ok.mp ended with ⟨-, rfl⟩
    exact elements
  · rcases bind_observe_ok.mp updating with ⟨perm, -, stamping⟩
    rcases ite_ok.mp stamping with ⟨-, marking⟩ | ⟨-, ended⟩
    · exact elements_ofQuiet (ptSetPagePermissions_quiet _ _ _ _) _ _ _ (stamped true)
        (bind_modify_ok.mp marking)
    · have plain := stamped false
      rw [age, if_neg Bool.false_ne_true, Nat.or_zero] at plain
      exact modify_ok.mp ended ▸ plain

theorem updateWSTimeStamps_elements (tables : Nat → WorkingSetElement) :
    Preserves (Elements good) (updateWSTimeStamps tables) :=
  .bind .get fun _ => .bind .get fun _ =>
    .bind (preserves_forEach (fun _ => updatePageTimeStamp_elements aged _ _) _) fun _ =>
      updateTableTimeStamps_elements _ _ _

end Aged

end Slots

/-! ## Time stamps are histories -/

/-- The time stamp records a history. -/
def Stamped (element : WorkingSetElement) : Prop := ∃ past, element.timeStamp = stamp past

theorem stamped_cleared : Stamped .cleared := ⟨[], rfl⟩

theorem stamped_fresh (address : Nat) : Stamped ⟨roundDown address, false, 0x80000000⟩ :=
  ⟨[true], rfl⟩

theorem stamped_aged (element : WorkingSetElement) (used : Bool) (stamped : Stamped element) :
    Stamped { element with timeStamp := age element.timeStamp used } := by
  rcases stamped with ⟨past, same⟩
  exact ⟨used :: past, congrArg (fun timeStamp => age timeStamp used) same⟩

section Histories

variable {users : Finset Nat} {ghost : Ghost} {free : List Nat} {state middle final : State}
variable {tables between last : TableSets} {events later : List Event} {env : Nat}

theorem readWord_elements {good : WorkingSetElement → Prop} (address : Nat) :
    Preserves (Elements good) (readWord address) := by
  refine .bind .get fun _ => .bind (preserves_observe _) fun found => ?_
  rcases found with ⟨table, entry⟩
  exact .bind (.modify fun _ elements => elements) fun _ => .bind .get fun _ => .pure _

theorem writeWord_elements {good : WorkingSetElement → Prop} (address : Nat) (word : Word) :
    Preserves (Elements good) (writeWord address word) := by
  refine .bind .get fun _ => .bind (preserves_observe _) fun _ => ?_
  have written : ∀ env change, Preserves (Elements good) (writeUserPage env address change) := by
    intro env change
    refine .bind (preserves_observe _) fun found => ?_
    rcases found with ⟨table, entry⟩
    exact .modify fun _ elements => elements
  exact .ite (.bind (.throw _) fun _ => written _ _) (written _ _)

theorem Run.stamped {before : List (MemoryAccess (Nat × Nat) (Fin 1024) Word)}
    (run : Run users state before final) (stamped : Elements Stamped state) :
    Elements Stamped final := by
  induction run with
  | nil => exact stamped
  | read address user writeable returned _ induction =>
      exact induction (readWord_elements address _ _ _ stamped returned)
  | write address word user returned _ induction =>
      exact induction (writeWord_elements address word _ _ _ stamped returned)
  | fault address absent calm returned _ induction =>
      exact induction (faultHandler_elements stamped_fresh stamped_cleared _ _ _ _ stamped returned)
  | schedule env user _ induction => exact induction stamped

theorem LRURun.stamped (run : LRURun users state tables events final last)
    (stamped : Elements Stamped state) : Elements Stamped final := by
  induction run with
  | nil => exact stamped
  | run running _ induction => exact induction (running.stamped stamped)
  | tick returned _ induction =>
      exact induction (updateWSTimeStamps_elements stamped_aged _ _ _ _ stamped returned)
  | trap address absent calm returned _ induction =>
      rcases trapPageFault_ok returned with ⟨aged, updating, handling⟩
      have agedNow := updateWSTimeStamps_elements stamped_aged _ _ _ _ stamped updating
      exact induction (faultHandler_elements stamped_fresh stamped_cleared _ _ _ _ agedNow handling)

/-! ## Tracks -/

/-- Used bits and time stamps agree with the tracks of the pages. -/
def Tracks (users : Finset Nat) (tracks : Nat × Nat → Track) (view : View) : Prop :=
  ∀ env ∈ users, ∀ index page, view.ResidentAt env index page →
    hasPerm (view.entry (.user env page)) permUsed = (tracks (env, page)).used ∧
      ((view.workingSet env).element index).timeStamp = stamp (tracks (env, page)).past

/-- A page is used, or an interval ends. -/
def Event.reference : Event → ReferenceHistory.Event (Nat × Nat) Nat
  | .access (.read page _ _) | .access (.write page _ _) | .access (.touch page) => .use page
  | .update env => .close env

/-- The track of a page after some events. -/
def follow (events : List Event) (tracks : Nat × Nat → Track) : Nat × Nat → Track :=
  fun page => (tracks page).after Prod.fst page (events.map Event.reference)

theorem follow_append (first second : List Event) (tracks : Nat × Nat → Track) :
    follow (first ++ second) tracks = follow second (follow first tracks) := by
  funext page
  rw [follow, List.map_append, Track.after_append]
  rfl

variable {tracks : Nat × Nat → Track}

theorem Tracks.marks {address : Nat} {event : Event} (holds : Tracks users tracks state.view)
    (marks : Marks env address state final)
    (reference : event.reference = .use (env, ppn address)) :
    Tracks users (follow [event] tracks) final.view := by
  rcases marks with ⟨-, mark, used, view⟩
  rw [view]
  intro owner user index page resident
  rcases holds owner user index page resident with ⟨bit, time⟩
  rw [follow, List.map_singleton, reference, Track.after, List.foldl_cons, List.foldl_nil,
    Track.note]
  by_cases same : (env, ppn address) = (owner, page)
  · cases same
    rw [if_pos rfl]
    refine ⟨?_, time⟩
    rw [show (state.view.setEntry (.user env (ppn address))
      (state.view.entry (.user env (ppn address)) ||| mark)).entry (.user env (ppn address)) =
        state.view.entry (.user env (ppn address)) ||| mark from Function.update_self _ _ _,
      hasPerm_used, BitVec.getLsbD_or, used, Bool.or_true]
    rfl
  · rw [if_neg same]
    refine ⟨?_, time⟩
    have apart : Slot.user (.env owner) page ≠ .user (.env env) (ppn address) := by
      intro equal
      cases equal
      exact same rfl
    rw [show (state.view.setEntry (.user env (ppn address))
      (state.view.entry (.user env (ppn address)) ||| mark)).entry (.user owner page) =
        state.view.entry (.user owner page) from Function.update_of_ne apart _ _]
    exact bit

theorem Tracks.update (holds : Tracks users tracks state.view)
    (aging : Aging users ghost free env [] state final) :
    Tracks users (follow [.update env] tracks) final.view := by
  intro owner user index page resident
  rw [follow, List.map_singleton, Event.reference, Track.after, List.foldl_cons, List.foldl_nil,
    Track.note]
  by_cases own : env = owner
  · subst own
    rw [if_pos rfl]
    have before := aging.slots.resident.mp resident
    rcases holds env user index page before with ⟨bit, time⟩
    rcases aging.done index page before (List.not_mem_nil) with ⟨cleared, aged⟩
    refine ⟨cleared, aged.trans ?_⟩
    rw [bit, show ((state.envs env).ptrPageWorkingSet index).timeStamp = _ from time]
    rfl
  · rw [if_neg own]
    have record := aging.envs owner (Ne.symm own)
    have before : state.view.ResidentAt owner index page := by
      simp only [View.ResidentAt, State.view, record] at resident ⊢
      exact resident
    rcases holds owner user index page before with ⟨bit, time⟩
    refine ⟨?_, ?_⟩
    · rw [aging.others owner page fun equal => absurd equal fun same => own ?_]
      · exact bit
      · cases same
        rfl
    · rw [← time]
      change ((final.envs owner).ptrPageWorkingSet index).timeStamp =
        ((state.envs owner).ptrPageWorkingSet index).timeStamp
      rw [record]

/-- No page is brought into memory. -/
def NoFault (events : List Event) : Prop := ∀ page, Event.access (.touch page) ∉ events

theorem Run.follows {before : List (MemoryAccess (Nat × Nat) (Fin 1024) Word)}
    (run : Run users state before final) (order : InOrder users state)
    (noFault : NoFault (before.map .access)) (holds : Tracks users tracks state.view) :
    Tracks users (follow (before.map .access) tracks) final.view := by
  induction run generalizing tracks with
  | nil => exact holds
  | @read state middle final accesses word address user writeable returned _ induction =>
      rcases order with ⟨running, ghost, free, sound⟩
      rcases sound.readWord user writeable returned with ⟨soundNow, same, marks, -⟩
      rw [List.map_cons, ← List.singleton_append, follow_append]
      exact induction ⟨same ▸ running, ghost, free, soundNow⟩
        (fun page member => noFault page (List.mem_cons_of_mem _ member)) (holds.marks marks rfl)
  | @write state middle final accesses address word user returned _ induction =>
      rcases order with ⟨running, ghost, free, sound⟩
      rcases sound.writeWord running user returned with ⟨soundNow, same, marks, -⟩
      rw [List.map_cons, ← List.singleton_append, follow_append]
      exact induction ⟨same ▸ running, ghost, free, soundNow⟩
        (fun page member => noFault page (List.mem_cons_of_mem _ member)) (holds.marks marks rfl)
  | fault address => exact absurd List.mem_cons_self (noFault _)
  | schedule env user _ induction =>
      rcases order with ⟨-, ghost, free, sound⟩
      exact induction ⟨user, ghost, free, sound.schedule env⟩ noFault holds

theorem LRURun.follows (run : LRURun users state tables events final last)
    (order : InOrder users state) (below : ∀ env, UserTables (tables env))
    (noFault : NoFault events) (holds : Tracks users tracks state.view) :
    Tracks users (follow events tracks) final.view := by
  induction run generalizing tracks with
  | nil => exact holds
  | run running _ induction =>
      have first := running.follows order
        (fun page member => noFault page (List.mem_append_left _ member)) holds
      rw [follow_append]
      exact induction (running.steps order).1 below
        (fun page member => noFault page (List.mem_append_right _ member)) first
  | @tick state tables updated middle events final last returned _ induction =>
      rcases order with ⟨running, ghost, free, sound⟩
      rcases sound.update running (below state.curenv) returned with ⟨aging, own⟩
      rw [← List.singleton_append, follow_append]
      exact induction ⟨aging.curenv ▸ running, ghost, free, aging.sound⟩
        (UserTables.set below own _)
        (fun page member => noFault page (List.mem_cons_of_mem _ member)) (holds.update aging)
  | trap address => exact absurd (List.mem_cons_of_mem _ List.mem_cons_self) (noFault _)

/-- Time stamps that record histories are those of some tracks. -/
theorem tracks_of_stamped (order : InOrder users state) (stamped : Elements Stamped state) :
    ∃ tracks, Tracks users tracks state.view := by
  rcases order with ⟨-, ghost, free, sound⟩
  have each : ∀ key : Nat × Nat, ∃ track : Track, key.1 ∈ users → ∀ index,
      state.view.ResidentAt key.1 index key.2 →
      hasPerm (state.view.entry (.user key.1 key.2)) permUsed = track.used ∧
        ((state.view.workingSet key.1).element index).timeStamp = stamp track.past := by
    rintro ⟨env, page⟩
    by_cases found : env ∈ users ∧ ∃ index, state.view.ResidentAt env index page
    · rcases found with ⟨user, index, resident⟩
      rcases stamped env index with ⟨past, same⟩
      refine ⟨⟨hasPerm (state.view.entry (.user env page)) permUsed, past⟩, fun _ other again => ?_⟩
      have equal := sound.paged.consistent.residentOnce env (sound.paged.active user) other index
        page again resident
      exact ⟨rfl, equal ▸ same⟩
    · refine ⟨⟨false, []⟩, fun user index resident => ?_⟩
      exact absurd ⟨user, index, resident⟩ found
  choose tracks agree using each
  exact ⟨tracks, fun env user index page resident => agree (env, page) user index resident⟩

/-- However the time stamps came about, from then on they follow the accesses for as long as no
page is brought in, and they order the pages of a working set by their last intervals. -/
theorem time_stamps_order (order : InOrder users state) (below : ∀ env, UserTables (tables env))
    (stamped : Elements Stamped state) (reached : LRURun users state tables events middle between)
    (run : LRURun users middle between later final last) (noFault : NoFault later) :
    ∃ tracks, Tracks users tracks middle.view ∧ Tracks users (follow later tracks) final.view ∧
      ∀ env ∈ users, ∀ left right page other, final.view.ResidentAt env left page →
        final.view.ResidentAt env right other →
        (((final.envs env).ptrPageWorkingSet left).timeStamp <
            ((final.envs env).ptrPageWorkingSet right).timeStamp ↔
          LessRecent (follow later tracks (env, page)).past
            (follow later tracks (env, other)).past) := by
  rcases reached.steps order below with ⟨orderNow, belowNow, -⟩
  rcases tracks_of_stamped orderNow (reached.stamped stamped) with ⟨tracks, holds⟩
  have follows := run.follows orderNow belowNow noFault holds
  refine ⟨tracks, holds, follows, ?_⟩
  intro env user left right page other atLeft atRight
  have first : ((final.envs env).ptrPageWorkingSet left).timeStamp =
      stamp (follow later tracks (env, page)).past := (follows env user left page atLeft).2
  have second : ((final.envs env).ptrPageWorkingSet right).timeStamp =
      stamp (follow later tracks (env, other)).past := (follows env user right other atRight).2
  rw [first, second]
  exact stamp_lt_iff

end Histories

/-! ## Two pages of a working set -/

/-- An environment with room for two pages. -/
def pairStart : State := startOn sampleState 0 2

def pairActions : List LRUAction :=
  [.trap upperPage, .trap upperPage, .trap lowerPage]

def pairEvents : List Event :=
  [.update 0, .access (.touch (0, ppn upperPage)), .update 0, .access (.touch (0, ppn upperPage)),
    .update 0, .access (.touch (0, ppn lowerPage))]

/-- One page is used in the older interval, both are used in the newer one. -/
def laterActions : List LRUAction :=
  [.run [.write upperPage 5], .tick, .run [.write lowerPage 7, .read upperPage], .tick]

def laterEvents : List Event :=
  [.access (.write (0, ppn upperPage) firstWord 5), .update 0,
    .access (.write (0, ppn lowerPage) firstWord 7),
    .access (.read (0, ppn upperPage) firstWord 5), .update 0]

theorem time_stamps_order_sample : ∃ state between final last,
    LRURun {0} pairStart sampleTables pairEvents state between ∧
    LRURun {0} state between laterEvents final last ∧
    ∃ tracks, Tracks {0} (follow laterEvents tracks) final.view := by
  have stamped : Elements Stamped pairStart := by
    intro env index
    by_cases own : env = 0
    · subst own
      exact stamped_cleared
    · refine ⟨[], ?_⟩
      rw [pairStart, startOn, State.setEnv]
      simp only [Function.update_of_ne own]
      rfl
  have performed : (performLRU {0} pairActions sampleTables pairStart).toOption.any (fun first =>
      first.1.1 = pairEvents ∧ (performLRU {0} laterActions first.1.2 first.2).toOption.any
        (fun second => second.1.1 = laterEvents)) = true := by
    decide +kernel
  have order : InOrder {0} pairStart := by
    rcases initializePaging_ok sample_boots with ⟨ghost, booted⟩
    have sound := booted_sound booted (booted_pageFile sampleLayout sampleContents)
    exact sound.start (Finset.notMem_empty 0) (fun _ => booted.entry _) (by decide) (by decide)
  cases ended : performLRU {0} pairActions sampleTables pairStart with
  | error stop =>
      rw [ended] at performed
      cases performed
  | ok pair =>
      rw [ended] at performed
      rcases pair with ⟨⟨found, between⟩, state⟩
      have both : found = pairEvents ∧ (performLRU {0} laterActions between state).toOption.any
          (fun second => second.1.1 = laterEvents) = true := of_decide_eq_true performed
      rcases both with ⟨rfl, laterPerformed⟩
      rcases performLRU_sample laterPerformed with ⟨final, last, run⟩
      have reached := performLRU_run ended
      have noFault : NoFault laterEvents := by
        intro page member
        simp [laterEvents] at member
      rcases time_stamps_order order sampleTables_user stamped reached run noFault with
        ⟨tracks, -, follows, -⟩
      exact ⟨state, between, final, last, reached, run, tracks, follows⟩

end FosKernel.PagedMemory
