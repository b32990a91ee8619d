import LinuxInterview.RcuDemo.Threads
import LinuxInterview.RcuDemo.Ledger

namespace LinuxInterview.RcuDemo
open Library

/-! ## What the places of the threads mean -/

namespace ReaderAt

def reading : ReaderAt → Bool
  | dereference | print | readUnlock => true
  | _ => false

def holding : ReaderAt → Bool
  | print | readUnlock => true
  | _ => false

end ReaderAt

namespace WriterAt

@[simp] def unretired (w : WriterAt) : Nat := if w = callRcu then 1 else 0

@[simp] def draft (w : WriterAt) : Nat := if w = copy ∨ w = fill ∨ w = assignPointer then 1 else 0

def copied : WriterAt → Bool
  | fill | assignPointer | callRcu => true
  | _ => false

end WriterAt

namespace MainAt

def loads : MainAt → Bool
  | loaded | clear | synchronize | grace | kfree | barrier | returned => true
  | _ => false

def published : MainAt → Bool
  | runReader | runWriter | wait | loaded | clear => true
  | _ => false

def pointed : MainAt → Bool
  | assignPointer | clear | synchronize | grace | kfree | barrier | returned => true
  | _ => false

def freed : MainAt → Bool
  | barrier | returned => true
  | _ => false

end MainAt

namespace State

/-- The index of the object that the writer published last. -/
def current (s : State) : Nat := s.updates + s.writerAt.unretired

def last (s : State) : Option Nat := if s.mainAt.freed then s.mainP else none

def Holds (s : State) (readSection x : Nat) : Prop :=
  s.readerAt.holding = true ∧ s.readerSection = readSection ∧ s.readerP = some x

end State

structure Dormant (s : State) : Prop where
  pristine : s = { State.init with mainAt := s.mainAt }
  mainAt : s.mainAt = .kzalloc ∨ s.mainAt.loads = true

structure Control (s : State) : Prop where
  started : s.mainAt ≠ .kzalloc
  opened : s.opened = if s.readerAt.reading then [s.readerSection] else []
  done : s.done = (if s.readerAt = .returned then 1 else 0) + if s.writerAt = .returned then 1 else 0
  readerUnborn : s.mainAt = .assignPointer ∨ s.mainAt = .runReader → s.readerAt = .unborn
  writerUnborn : s.mainAt = .assignPointer ∨ s.mainAt = .runReader ∨ s.mainAt = .runWriter →
    s.writerAt = .unborn
  finished : s.mainAt.loads = true → s.readerAt = .returned ∧ s.writerAt = .returned

structure Pointers (s : State) : Prop where
  allocated : s.allocated = s.updates + s.writerAt.unretired + s.writerAt.draft + 1
  gPtr : s.gPtr = if s.mainAt.published then some s.current else none
  mainP : s.mainAt.pointed = true → s.mainP = some s.updates
  newPtr : s.writerAt.draft = 1 → s.newPtr = s.updates + 1
  old : s.writerAt.copied = true → s.old = s.updates

structure Owners (s : State) : Prop where
  ledger : Ledger s.frees s.pending s.updates s.nrFreed s.last
  drained : s.mainAt = .returned → s.pending = []

/-- What a section holds is published and not reclaimed, and each hand-over waits for it. -/
structure Reading (s : State) : Prop where
  held : ∀ readSection x, s.Holds readSection x →
    x ≤ s.current ∧ ¬ Reclaimed s.pending s.updates none x
  awaited : ∀ r ∈ s.pending, r.Awaits s.opened s.Holds

variable {rounds : Int32} {s s' : State}

theorem myrcuDel_cases {k : Nat} (action : myrcuDel k s = some s') :
    ∃ r, s.pending[k]? = some r ∧ r.period.Elapsed s.opened ∧
      s' = kfree { s with pending := s.pending.eraseIdx k, nrFreed := s.nrFreed + 1 } r.object := by
  unfold myrcuDel at action
  split at action
  · rename_i r found
    split at action
    · rename_i elapsed
      cases action
      exact ⟨r, found, elapsed, rfl⟩
    · cases action
  · cases action

/-! ## The moves of the threads -/

inductive ReaderMoves (rounds : Int32) (s : State) : State → Prop
  | enter : s.readerAt = .test → s.readerI < rounds * 2 →
      ReaderMoves rounds s { s with readerI := s.readerI + 1, readerAt := .readLock }
  | leave : s.readerAt = .test → ¬ s.readerI < rounds * 2 →
      ReaderMoves rounds s { s with readerI := s.readerI + 1, readerAt := .finish }
  | readLock : s.readerAt = .readLock → ReaderMoves rounds s { s with
      sections := s.sections + 1
      opened := s.sections :: s.opened
      readerSection := s.sections
      readerAt := .dereference }
  | dereference : s.readerAt = .dereference →
      ReaderMoves rounds s { s with readerP := s.gPtr, readerAt := .print }
  | print : s.readerAt = .print → ReaderMoves rounds s { s with
      seen := s.seen ++ (s.readerP.map s.a).toList
      readerAt := .readUnlock }
  | readUnlock : s.readerAt = .readUnlock → ReaderMoves rounds s { s with
      opened := s.opened.erase s.readerSection
      readerAt := .test }
  | finish : s.readerAt = .finish →
      ReaderMoves rounds s { s with done := s.done + 1, readerAt := .returned }

theorem readerMoves (action : myrcuReaderThread rounds s = some s') : ReaderMoves rounds s s' := by
  unfold myrcuReaderThread at action
  split at action
  case h_1 readerAt =>
    cases action
    split
    case isTrue inside => exact .enter readerAt inside
    case isFalse outside => exact .leave readerAt outside
  case h_2 readerAt =>
    cases action
    exact .readLock readerAt
  case h_3 readerAt =>
    cases action
    exact .dereference readerAt
  case h_4 readerAt =>
    cases action
    exact .print readerAt
  case h_5 readerAt =>
    cases action
    exact .readUnlock readerAt
  case h_6 readerAt =>
    cases action
    exact .finish readerAt
  all_goals cases action

inductive WriterMoves (rounds : Int32) (s : State) : State → Prop
  | enter : s.writerAt = .test → s.writerI < rounds →
      WriterMoves rounds s { s with writerI := s.writerI + 1, writerAt := .kmalloc }
  | leave : s.writerAt = .test → ¬ s.writerI < rounds →
      WriterMoves rounds s { s with writerI := s.writerI + 1, writerAt := .finish }
  | kmalloc : s.writerAt = .kmalloc → WriterMoves rounds s { s with
      newPtr := s.allocated
      allocated := s.allocated + 1
      writerAt := .copy }
  | noMemory : s.writerAt = .kmalloc → WriterMoves rounds s { s with writerAt := .finish }
  | copy {old : Nat} : s.writerAt = .copy → s.gPtr = some old → WriterMoves rounds s { s with
      old := old
      a := Function.update s.a s.newPtr (s.a old)
      writerAt := .fill }
  | fill : s.writerAt = .fill → WriterMoves rounds s { s with
      a := Function.update s.a s.newPtr s.value
      writerAt := .assignPointer }
  | assignPointer : s.writerAt = .assignPointer →
      WriterMoves rounds s { s with gPtr := some s.newPtr, writerAt := .callRcu }
  | callRcu : s.writerAt = .callRcu → WriterMoves rounds s { s with
      pending := s.pending ++ [⟨s.old, s.opened⟩]
      updates := s.updates + 1
      writerAt := .increment }
  | increment : s.writerAt = .increment →
      WriterMoves rounds s { s with value := s.value + 1, writerAt := .test }
  | finish : s.writerAt = .finish →
      WriterMoves rounds s { s with done := s.done + 1, writerAt := .returned }

theorem writerMoves {memory : Bool} (action : myrcuWriterThread rounds memory s = some s') :
    WriterMoves rounds s s' := by
  unfold myrcuWriterThread at action
  split at action
  case h_1 writerAt =>
    cases action
    split
    case isTrue inside => exact .enter writerAt inside
    case isFalse outside => exact .leave writerAt outside
  case h_2 writerAt =>
    split at action
    · cases action
      exact .kmalloc writerAt
    · cases action
      exact .noMemory writerAt
  case h_3 writerAt =>
    obtain ⟨old, found, rfl⟩ := Option.map_eq_some_iff.mp action
    exact .copy writerAt found
  case h_4 writerAt =>
    cases action
    exact .fill writerAt
  case h_5 writerAt =>
    cases action
    exact .assignPointer writerAt
  case h_6 writerAt =>
    cases action
    exact .callRcu writerAt
  case h_7 writerAt =>
    cases action
    exact .increment writerAt
  case h_8 writerAt =>
    cases action
    exact .finish writerAt
  all_goals cases action

inductive MainMoves (s : State) : State → Prop
  | kzalloc : s.mainAt = .kzalloc → MainMoves s { s with
      mainP := some s.allocated
      a := Function.update s.a s.allocated 0
      allocated := s.allocated + 1
      mainAt := .assignPointer }
  | noMemory : s.mainAt = .kzalloc → MainMoves s { s with mainAt := .loaded }
  | assignPointer : s.mainAt = .assignPointer →
      MainMoves s { s with gPtr := s.mainP, mainAt := .runReader }
  | runReader : s.mainAt = .runReader →
      MainMoves s { s with readerAt := .test, mainAt := .runWriter }
  | runWriter : s.mainAt = .runWriter → MainMoves s { s with writerAt := .test, mainAt := .wait }
  | wait : s.mainAt = .wait → ¬ s.done < 2 → MainMoves s { s with mainAt := .loaded }
  | loaded : s.mainAt = .loaded → MainMoves s { s with mainP := s.gPtr, mainAt := .clear }
  | clear : s.mainAt = .clear → MainMoves s { s with gPtr := none, mainAt := .synchronize }
  | synchronize : s.mainAt = .synchronize →
      MainMoves s { s with period := s.opened, mainAt := .grace }
  | grace : s.mainAt = .grace → s.period.Elapsed s.opened → MainMoves s { s with mainAt := .kfree }
  | kfree {p : Nat} : s.mainAt = .kfree → s.mainP = some p →
      MainMoves s { kfree s p with mainAt := .barrier }
  | kfreeNull : s.mainAt = .kfree → s.mainP = none → MainMoves s { s with mainAt := .barrier }
  | barrier : s.mainAt = .barrier → s.pending = [] → MainMoves s { s with mainAt := .returned }

theorem mainMoves {memory : Bool} (action : moduleThread memory s = some s') : MainMoves s s' := by
  unfold moduleThread at action
  split at action
  case h_1 mainAt =>
    split at action
    · cases action
      exact .kzalloc mainAt
    · cases action
      exact .noMemory mainAt
  case h_2 mainAt =>
    cases action
    exact .assignPointer mainAt
  case h_3 mainAt =>
    cases action
    exact .runReader mainAt
  case h_4 mainAt =>
    cases action
    exact .runWriter mainAt
  case h_5 mainAt =>
    split at action
    case isTrue => cases action
    case isFalse waited =>
      cases action
      exact .wait mainAt waited
  case h_6 mainAt =>
    cases action
    exact .loaded mainAt
  case h_7 mainAt =>
    cases action
    exact .clear mainAt
  case h_8 mainAt =>
    cases action
    exact .synchronize mainAt
  case h_9 mainAt =>
    obtain ⟨elapsed, action⟩ := Option.ite_none_right_eq_some.mp action
    cases action
    exact .grace mainAt elapsed
  case h_10 mainAt =>
    split at action
    case h_1 p mainP =>
      cases action
      exact .kfree mainAt mainP
    case h_2 mainP =>
      cases action
      exact .kfreeNull mainAt mainP
  case h_11 mainAt =>
    obtain ⟨empty, action⟩ := Option.ite_none_right_eq_some.mp action
    cases action
    exact .barrier mainAt (by simpa using empty)
  case h_12 => cases action

/-! ## The places of the threads -/

theorem Control.reader_moves (inv : Control s) (action : myrcuReaderThread rounds s = some s') :
    s.mainAt = .runWriter ∨ s.mainAt = .wait := by
  have born : s.readerAt ≠ .unborn := fun unborn => by simp [myrcuReaderThread, unborn] at action
  have going : s.readerAt ≠ .returned := fun returned => by simp [myrcuReaderThread, returned] at action
  have started := inv.started
  have early := fun stage => born (inv.readerUnborn stage)
  have late := fun loads => going (inv.finished loads).1
  cases mainAt : s.mainAt <;> simp_all +decide

theorem Control.writer_moves (inv : Control s) {memory : Bool}
    (action : myrcuWriterThread rounds memory s = some s') : s.mainAt = .wait := by
  have born : s.writerAt ≠ .unborn := fun unborn => by simp [myrcuWriterThread, unborn] at action
  have going : s.writerAt ≠ .returned := fun returned => by simp [myrcuWriterThread, returned] at action
  have started := inv.started
  have early := fun stage => born (inv.writerUnborn stage)
  have late := fun loads => going (inv.finished loads).2
  cases mainAt : s.mainAt <;> simp_all +decide

theorem Control.reader (inv : Control s) (action : myrcuReaderThread rounds s = some s') : Control s' := by
  obtain ⟨notLoaded, notAssigned, notRun⟩ :
      s.mainAt.loads = false ∧ s.mainAt ≠ .assignPointer ∧ s.mainAt ≠ .runReader := by
    rcases inv.reader_moves action with mainAt | mainAt <;> simp [mainAt, MainAt.loads]
  have opened := inv.opened
  have done := inv.done
  have started := inv.started
  have writerUnborn := inv.writerUnborn
  cases readerMoves action
  all_goals constructor
  all_goals simp_all +decide
  exact Int32.add_comm _ _

theorem Control.writer (inv : Control s) {memory : Bool}
    (action : myrcuWriterThread rounds memory s = some s') : Control s' := by
  have mainAt := inv.writer_moves action
  have opened := inv.opened
  have done := inv.done
  cases writerMoves action
  all_goals constructor
  all_goals simp_all +decide

theorem Control.callback (inv : Control s) {k : Nat} (action : myrcuDel k s = some s') : Control s' := by
  obtain ⟨r, _, _, rfl⟩ := myrcuDel_cases action
  exact { inv with }

theorem Control.both_returned (inv : Control s) (waited : ¬ s.done < 2) :
    s.readerAt = .returned ∧ s.writerAt = .returned := by
  rw [inv.done] at waited
  constructor
  all_goals
    by_contra running
    simp only [running, if_false] at waited
    split at waited <;> exact waited (by decide)

theorem Control.main (inv : Control s) {memory : Bool} (action : moduleThread memory s = some s') :
    Control s' := by
  obtain ⟨started, opened, done, readerUnborn, writerUnborn, finished⟩ := id inv
  cases mainMoves action with
  | kzalloc mainAt | noMemory mainAt => contradiction
  | wait _ waited => exact { inv with
      started := by simp
      readerUnborn := by simp
      writerUnborn := by simp
      finished := fun _ => inv.both_returned waited }
  | _ =>
      constructor
      all_goals simp_all +decide [kfree]

/-! ## Where the pointers point -/

theorem Pointers.reader (inv : Pointers s) (action : myrcuReaderThread rounds s = some s') :
    Pointers s' := by
  cases readerMoves action
  all_goals exact { inv with }

theorem Pointers.writer (control : Control s) (inv : Pointers s) {memory : Bool}
    (action : myrcuWriterThread rounds memory s = some s') : Pointers s' := by
  have mainAt := control.writer_moves action
  have allocated := inv.allocated
  have gPtr := inv.gPtr
  have newPtr := inv.newPtr
  have old := inv.old
  cases writerMoves action with
  | enter writerAt | leave writerAt => exact { inv with
      allocated := by simp_all
      gPtr := by simp_all [State.current]
      newPtr := by simp
      old := by simp [WriterAt.copied] }
  | kmalloc writerAt | noMemory writerAt => exact { inv with
      allocated := by simp_all
      gPtr := by simp_all [State.current]
      newPtr := by simp_all
      old := by simp [WriterAt.copied] }
  | copy writerAt found => exact { inv with
      allocated := by simp_all
      gPtr := by simp_all [State.current]
      newPtr := by simp_all
      old := by simp_all [State.current, MainAt.published] }
  | fill writerAt => exact { inv with
      allocated := by simp_all
      gPtr := by simp_all [State.current]
      newPtr := by simp_all
      old := by simp_all [WriterAt.copied] }
  | assignPointer writerAt => exact { inv with
      allocated := by simp_all
      gPtr := by simp_all [State.current, MainAt.published]
      newPtr := by simp
      old := by simp_all [WriterAt.copied] }
  | callRcu writerAt => exact { inv with
      allocated := by simp_all
      gPtr := by simp_all [State.current]
      mainP := by simp_all [MainAt.pointed]
      newPtr := by simp
      old := by simp [WriterAt.copied] }
  | increment writerAt | finish writerAt => exact { inv with
      allocated := by simp_all
      gPtr := by simp_all [State.current]
      newPtr := by simp
      old := by simp [WriterAt.copied] }

theorem Pointers.callback (inv : Pointers s) {k : Nat} (action : myrcuDel k s = some s') :
    Pointers s' := by
  obtain ⟨r, _, _, rfl⟩ := myrcuDel_cases action
  exact { inv with }

theorem Pointers.main (control : Control s) (inv : Pointers s) {memory : Bool}
    (action : moduleThread memory s = some s') : Pointers s' := by
  have mainP := inv.mainP
  have gPtr := inv.gPtr
  have writerUnborn := control.writerUnborn
  have finished := control.finished
  cases mainMoves action with
  | kzalloc mainAt | noMemory mainAt => exact absurd mainAt control.started
  | runWriter mainAt =>
      have allocated := inv.allocated
      exact { inv with
        allocated := by simp_all
        gPtr := by simp_all [State.current, MainAt.published]
        mainP := by simp [MainAt.pointed]
        newPtr := by simp
        old := by simp [WriterAt.copied] }
  | _ => exact { inv with
      gPtr := by simp_all +decide [State.current, kfree]
      mainP := by simp_all +decide [State.current, kfree] }

/-! ## Who owns each object -/

theorem Owners.reader (inv : Owners s) (action : myrcuReaderThread rounds s = some s') :
    Owners s' := by
  cases readerMoves action
  all_goals exact { inv with }

theorem Owners.writer (control : Control s) (pointers : Pointers s) (inv : Owners s) {memory : Bool}
    (action : myrcuWriterThread rounds memory s = some s') : Owners s' := by
  have mainAt := control.writer_moves action
  cases writerMoves action with
  | callRcu writerAt =>
      have old : s.old = s.updates := pointers.old (by simp [writerAt, WriterAt.copied])
      have last : s.last = none := by simp [State.last, mainAt, MainAt.freed]
      have ledger := inv.ledger
      rw [last] at ledger
      rw [old]
      exact {
        ledger := by
          have retired := ledger.retire s.opened
          rwa [← last] at retired
        drained := by simp [mainAt] }
  | _ => exact { inv with }

theorem Owners.callback (inv : Owners s) {k : Nat} (action : myrcuDel k s = some s') : Owners s' := by
  obtain ⟨r, found, _, rfl⟩ := myrcuDel_cases action
  exact {
    ledger := inv.ledger.callback found
    drained := fun returned => by simp [inv.drained returned] at found }

theorem Owners.main (control : Control s) (pointers : Pointers s) (inv : Owners s) {memory : Bool}
    (action : moduleThread memory s = some s') : Owners s' := by
  have ledger := inv.ledger
  cases mainMoves action with
  | kzalloc mainAt | noMemory mainAt => exact absurd mainAt control.started
  | @kfree p mainAt mainP =>
      have newest : s.mainP = some s.updates := pointers.mainP (by simp [mainAt, MainAt.pointed])
      have last : s.last = none := by simp [State.last, mainAt, MainAt.freed]
      obtain rfl : p = s.updates := Option.some.inj (mainP.symm.trans newest)
      rw [last] at ledger
      exact {
        ledger := by
          simpa [State.last, MainAt.freed, newest, kfree] using ledger.freeLast
        drained := by simp }
  | kfreeNull mainAt mainP =>
      have newest : s.mainP = some s.updates := pointers.mainP (by simp [mainAt, MainAt.pointed])
      rw [mainP] at newest
      contradiction
  | barrier mainAt empty => exact {
      ledger := by simpa [State.last, mainAt, MainAt.freed] using ledger
      drained := fun _ => empty }
  | assignPointer mainAt | runReader mainAt | runWriter mainAt | wait mainAt | loaded mainAt
  | clear mainAt | synchronize mainAt | grace mainAt => exact {
      ledger := by simpa [State.last, mainAt, MainAt.freed] using ledger
      drained := by simp }

/-! ## What the reader's section holds -/

theorem Reading.of_idle (idle : s.readerAt.holding = false) : Reading s where
  held := fun _ _ holds => absurd holds.1 (by simp [idle])
  awaited := fun _ _ _ _ holds => absurd holds.1 (by simp [idle])

theorem Reading.reader (control : Control s) (pointers : Pointers s) (owners : Owners s)
    (inv : Reading s) (action : myrcuReaderThread rounds s = some s') : Reading s' := by
  have published : s.mainAt.published = true := by
    rcases control.reader_moves action with mainAt | mainAt <;> rw [mainAt] <;> rfl
  cases readerMoves action with
  | dereference readerAt =>
      have current : s.gPtr = some s.current := by rw [pointers.gPtr, if_pos published]
      constructor
      · intro readSection x ⟨_, _, obtained⟩
        have same : s.current = x := Option.some.inj (current.symm.trans obtained)
        have above : s.updates ≤ s.current := Nat.le_add_right _ _
        refine ⟨same.symm.le, ?_⟩
        rintro (⟨below, _⟩ | none)
        · exact absurd below (by change ¬ x < s.updates; omega)
        · cases none
      · intro r member readSection _ ⟨_, _, obtained⟩
        have same : s.current = r.object := Option.some.inj (current.symm.trans obtained)
        have above : s.updates ≤ s.current := Nat.le_add_right _ _
        have below := owners.ledger.unlinked _ (List.mem_map_of_mem member)
        omega
  | print readerAt =>
      have holding : ∀ readSection x, readSection = s.readerSection ∧ s.readerP = some x →
          s.Holds readSection x := by
        intro readSection x ⟨same, obtained⟩
        exact ⟨by rw [readerAt]; rfl, same.symm, obtained⟩
      constructor
      · intro readSection x ⟨_, same, obtained⟩
        exact inv.held readSection x (holding readSection x ⟨same.symm, obtained⟩)
      · intro r member
        apply (inv.awaited r member).mono
        intro readSection isOpen ⟨_, same, obtained⟩
        exact ⟨isOpen, holding readSection r.object ⟨same.symm, obtained⟩⟩
  | _ => exact Reading.of_idle rfl

theorem writer_keeps_reader {memory : Bool} (action : myrcuWriterThread rounds memory s = some s') :
    s'.readerAt = s.readerAt ∧ s'.readerP = s.readerP ∧ s'.readerI = s.readerI ∧ s'.seen = s.seen := by
  cases writerMoves action
  all_goals exact ⟨rfl, rfl, rfl, rfl⟩

theorem writer_current_le {memory : Bool} (action : myrcuWriterThread rounds memory s = some s') :
    s.current ≤ s'.current := by
  cases writerMoves action
  all_goals simp_all [State.current]

theorem Reading.writer (pointers : Pointers s) (inv : Reading s) {memory : Bool}
    (action : myrcuWriterThread rounds memory s = some s') : Reading s' := by
  have later := writer_current_le action
  cases writerMoves action with
  | callRcu writerAt =>
      have old : s.old = s.updates := pointers.old (by simp [writerAt, WriterAt.copied])
      rw [old] at later ⊢
      constructor
      · intro readSection x holds
        obtain ⟨below, kept⟩ := inv.held readSection x holds
        refine ⟨below.trans later, ?_⟩
        rwa [reclaimed_retire]
      · intro r member
        rcases List.mem_append.mp member with earlier | new
        · exact inv.awaited r earlier
        · rw [List.mem_singleton.mp new]
          exact Retired.awaits_of_period_eq rfl
  | _ => exact { inv with held := fun readSection x holds =>
      (inv.held readSection x holds).imp_left fun below => below.trans later }

theorem Control.mem_opened (control : Control s) {readSection x : Nat} (holds : s.Holds readSection x) :
    readSection ∈ s.opened := by
  obtain ⟨holding, same, _⟩ := holds
  have reading : s.readerAt.reading = true := by
    cases readerAt : s.readerAt <;> simp_all +decide
  rw [control.opened, if_pos reading, same]
  exact List.mem_singleton_self _

theorem Reading.callback (control : Control s) (owners : Owners s) (inv : Reading s) {k : Nat}
    (action : myrcuDel k s = some s') : Reading s' := by
  obtain ⟨r, found, elapsed, rfl⟩ := myrcuDel_cases action
  obtain ⟨inside, rfl⟩ := List.getElem?_eq_some_iff.mp found
  have remains := mem_objects_eraseIdx owners.ledger.distinct inside
  constructor
  · intro readSection x holds
    obtain ⟨below, kept⟩ := inv.held readSection x holds
    refine ⟨below, ?_⟩
    rintro (⟨old, outside⟩ | none)
    · have waiting : x ∈ objects s.pending := by
        by_contra gone
        exact kept (Or.inl ⟨old, gone⟩)
      have same : x = s.pending[k].object := by
        by_contra other
        exact outside ((remains x).mpr ⟨other, waiting⟩)
      have awaits := inv.awaited _ (List.getElem_mem inside)
      exact Retired.not_held_of_elapsed awaits elapsed readSection (control.mem_opened holds) (same ▸ holds)
    · cases none
  · intro r member
    exact inv.awaited r (List.mem_of_mem_eraseIdx member)

theorem Reading.main (control : Control s) (inv : Reading s) {memory : Bool}
    (action : moduleThread memory s = some s') : Reading s' := by
  cases mainMoves action with
  | kzalloc mainAt | noMemory mainAt => exact absurd mainAt control.started
  | runReader => exact Reading.of_idle rfl
  | runWriter mainAt =>
      have writerAt := control.writerUnborn (by simp [mainAt])
      exact { inv with held := fun readSection x holds =>
        (inv.held readSection x holds).imp_left fun below => below.trans (by simp [State.current, writerAt]) }
  | _ => exact { inv with }

end LinuxInterview.RcuDemo
