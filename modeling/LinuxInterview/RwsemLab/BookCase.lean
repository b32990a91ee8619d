import LinuxInterview.Library.Runs
import LinuxInterview.Library.RwSem

/-!
# `rwsem_lab.c`, mode 2

`insmod` takes the `mmap_lock` of its own `mm` for writing and then asks for it again, for reading. Other
tasks may use the same lock at any moment, and one that is killed while it waits gives up.
-/

namespace LinuxInterview.RwsemLab.BookCase
open Library

/-- Whether `get_task_mm` and `kmalloc` give something. -/
structure Params where
  taskMm : Bool
  kmalloc : Bool

inductive Errno
  | einval
  | enomem
  deriving DecidableEq, Repr

inductive BookAt
  | start
  | downWrite
  | queuedWrite
  | locked
  | upWrite
  | mmput
  | downRead
  | queuedRead
  | nullVma
  | returned (e : Errno)
  deriving DecidableEq, Repr

variable {ι : Type*} [DecidableEq ι]

/-- `none` is `insmod`. `mmUsers` counts the references that `insmod` has taken to its `mm`. -/
structure State (ι : Type*) where
  mmapLock : RwSem (Option ι)
  mmUsers : Nat
  book : BookAt
  others : ι → Standing

def State.init : State ι where
  mmapLock := .free
  mmUsers := 0
  book := .start
  others _ := .outside

/-- `book_case` and `create_oops`. -/
def book (params : Params) (s : State ι) : Option (State ι) :=
  match s.book with
  | .start =>
      if params.taskMm then some { s with mmUsers := s.mmUsers + 1, book := .downWrite }
      else some { s with book := .returned .einval }
  | .downWrite => some { s with mmapLock := s.mmapLock.enqueue none .write, book := .queuedWrite }
  | .queuedWrite => (s.mmapLock.take none).map fun lock => { s with mmapLock := lock, book := .locked }
  | .locked => some { s with book := if params.kmalloc then .downRead else .upWrite }
  | .upWrite => some { s with mmapLock := s.mmapLock.release none .write, book := .mmput }
  | .mmput => some { s with mmUsers := s.mmUsers - 1, book := .returned .enomem }
  | .downRead => some { s with mmapLock := s.mmapLock.enqueue none .read, book := .queuedRead }
  | .queuedRead => (s.mmapLock.take none).map fun lock => { s with mmapLock := lock, book := .nullVma }
  | .nullVma | .returned _ => none

inductive Event (ι : Type*)
  | book
  | asks (i : ι) (a : Access)
  | takes (i : ι)
  | givesUp (i : ι)
  | leaves (i : ι)

def State.put (s : State ι) (i : ι) (lock : RwSem (Option ι)) (x : Standing) : State ι :=
  { s with mmapLock := lock, others := Function.update s.others i x }

def step (params : Params) (s : State ι) : Event ι → Option (State ι)
  | .book => book params s
  | .asks i a => if s.others i = .outside then some (s.put i (s.mmapLock.enqueue (some i) a) (.waiting a)) else none
  | .takes i =>
      match s.others i with
      | .waiting a => (s.mmapLock.take (some i)).map fun lock => s.put i lock (.holding a)
      | .outside | .holding _ => none
  | .givesUp i =>
      match s.others i with
      | .waiting _ => some (s.put i (s.mmapLock.giveUp (some i)) .outside)
      | .outside | .holding _ => none
  | .leaves i =>
      match s.others i with
      | .holding a => some (s.put i (s.mmapLock.release (some i) a) .outside)
      | .outside | .waiting _ => none

def BookAt.standing : BookAt → Standing
  | .queuedWrite => .waiting .write
  | .locked | .upWrite | .downRead | .queuedRead | .nullVma => .holding .write
  | .start | .downWrite | .mmput | .returned _ => .outside

/-- Where `insmod` stands before it asks for the lock again. -/
def State.standing (s : State ι) : Option ι → Standing
  | none => s.book.standing
  | some i => s.others i

/-- `insmod` asks for the lock that it holds. -/
def BookAt.again : BookAt → Bool
  | .queuedRead | .nullVma => true
  | .start | .downWrite | .queuedWrite | .locked | .upWrite | .mmput | .downRead | .returned _ => false

structure Stuck (s : State ι) : Prop where
  here : s.book = .queuedRead
  writer : s.mmapLock.writer = some none
  others : ∀ i a, s.others i ≠ .holding a
  users : s.mmUsers = 1

def BookAt.users : BookAt → Nat
  | .start | .returned _ => 0
  | .downWrite | .queuedWrite | .locked | .upWrite | .mmput | .downRead | .queuedRead | .nullVma => 1

/-- What the two calls have given when `insmod` is there. -/
def BookAt.Possible (params : Params) : BookAt → Prop
  | .start => True
  | .downWrite | .queuedWrite | .locked => params.taskMm = true
  | .upWrite | .mmput | .returned .enomem => params.taskMm = true ∧ params.kmalloc = false
  | .downRead | .queuedRead | .nullVma => params.taskMm = true ∧ params.kmalloc = true
  | .returned .einval => params.taskMm = false

inductive Inv (params : Params) (s : State ι) : Prop
  | before (sem : s.mmapLock.Agrees s.standing) (once : s.book.again = false) (users : s.mmUsers = s.book.users)
      (possible : s.book.Possible params)
  | stuck (stuck : Stuck s) (possible : s.book.Possible params)

variable {params : Params} {s s' : State ι}

theorem standing_put (i : ι) (lock : RwSem (Option ι)) (x : Standing) :
    (s.put i lock x).standing = Function.update s.standing (some i) x := by
  funext j
  cases j with
  | none => simp [State.standing, State.put]
  | some j =>
      rcases eq_or_ne j i with rfl | other
      · simp [State.standing, State.put]
      · simp [State.standing, State.put, other]

theorem Stuck.put {i : ι} {x : Standing} {lock : RwSem (Option ι)} (stuck : Stuck s)
    (writer : lock.writer = s.mmapLock.writer) (idle : ∀ a, x ≠ .holding a) : Stuck (s.put i lock x) := by
  refine ⟨stuck.here, writer.trans stuck.writer, fun j a => ?_, stuck.users⟩
  rcases eq_or_ne j i with rfl | other
  · simpa [State.put] using idle a
  · simpa [State.put, other] using stuck.others j a

theorem Stuck.no_take (stuck : Stuck s) (i : Option ι) : s.mmapLock.take i = none := by
  cases taken : s.mmapLock.take i with
  | none => rfl
  | some lock =>
      obtain ⟨rest, ⟨-, free, -⟩ | ⟨-, free, -⟩⟩ := RwSem.take_cases taken
      · rw [stuck.writer] at free
        cases free
      · rw [stuck.writer] at free
        cases free

/-- What a step of another task does. -/
inductive OtherMove (s : State ι) : Event ι → State ι → Prop
  | asks {i : ι} {a : Access} (outside : s.others i = .outside) :
      OtherMove s (.asks i a) (s.put i (s.mmapLock.enqueue (some i) a) (.waiting a))
  | takes {i : ι} {a : Access} {lock : RwSem (Option ι)} (waiting : s.others i = .waiting a)
      (taken : s.mmapLock.take (some i) = some lock) : OtherMove s (.takes i) (s.put i lock (.holding a))
  | givesUp {i : ι} {a : Access} (waiting : s.others i = .waiting a) :
      OtherMove s (.givesUp i) (s.put i (s.mmapLock.giveUp (some i)) .outside)
  | leaves {i : ι} {a : Access} (holding : s.others i = .holding a) :
      OtherMove s (.leaves i) (s.put i (s.mmapLock.release (some i) a) .outside)

theorem otherMove_of_step {event : Event ι} (other : event ≠ .book) (fired : step params s event = some s') :
    OtherMove s event s' := by
  cases event with
  | book => exact absurd rfl other
  | asks i a =>
      obtain ⟨outside, same⟩ := Option.ite_none_right_eq_some.mp fired
      cases same
      exact .asks outside
  | takes i =>
      simp only [step] at fired
      split at fired
      · rename_i a waiting
        obtain ⟨lock, taken, rfl⟩ := Option.map_eq_some_iff.mp fired
        exact .takes waiting taken
      · cases fired
      · cases fired
  | givesUp i =>
      simp only [step] at fired
      split at fired
      · rename_i a waiting
        cases fired
        exact .givesUp waiting
      · cases fired
      · cases fired
  | leaves i =>
      simp only [step] at fired
      split at fired
      · rename_i a holding
        cases fired
        exact .leaves holding
      · cases fired
      · cases fired

/-- Nobody gets the lock, and only a task that gives up stops waiting for it. -/
theorem Stuck.step (stuck : Stuck s) {event : Event ι} (fired : step params s event = some s') :
    Stuck s' ∧ ∀ i a, s.others i = .waiting a → event ≠ .givesUp i → s'.others i = .waiting a := by
  have kept (i : ι) (lock : RwSem (Option ι)) (x : Standing) (j : ι) (other : j ≠ i) :
      (s.put i lock x).others j = s.others j := Function.update_of_ne other _ _
  have other : event ≠ .book := by
    rintro rfl
    simp [BookCase.step, BookCase.book, stuck.here, stuck.no_take] at fired
  cases otherMove_of_step other fired with
  | @asks i a outside =>
      refine ⟨stuck.put rfl (by simp), fun j b waiting _ => ?_⟩
      rcases eq_or_ne j i with rfl | other
      · rw [outside] at waiting
        cases waiting
      · rw [kept _ _ _ j other, waiting]
  | takes _ taken =>
      rw [stuck.no_take] at taken
      cases taken
  | @givesUp i a _ =>
      refine ⟨stuck.put rfl (by simp), fun j b waiting stays => ?_⟩
      have other : j ≠ i := by
        rintro rfl
        exact stays rfl
      rw [kept _ _ _ j other, waiting]
  | @leaves i a holding => exact absurd holding (stuck.others i a)

theorem Inv.other (sem : s.mmapLock.Agrees s.standing) {event : Event ι} (moved : OtherMove s event s') :
    s'.mmapLock.Agrees s'.standing ∧ s'.book = s.book ∧ s'.mmUsers = s.mmUsers := by
  cases moved with
  | @asks i a outside =>
      refine ⟨?_, rfl, rfl⟩
      rw [standing_put]
      have free : s.standing (some i) = .outside := outside
      exact sem.enqueue free a
  | @takes i a lock waiting taken =>
      obtain ⟨b, mine, agrees⟩ := sem.take taken
      have here : s.standing (some i) = .waiting a := waiting
      rw [mine] at here
      cases here
      refine ⟨?_, rfl, rfl⟩
      rw [standing_put]
      exact agrees
  | @givesUp i a waiting =>
      refine ⟨?_, rfl, rfl⟩
      rw [standing_put]
      have queued : s.standing (some i) = .waiting a := waiting
      exact sem.giveUp queued
  | @leaves i a holding =>
      refine ⟨?_, rfl, rfl⟩
      rw [standing_put]
      have held : s.standing (some i) = .holding a := holding
      exact sem.release held

theorem agrees_goto {lock : RwSem (Option ι)} {n : Nat} {here : BookAt}
    (agrees : lock.Agrees (Function.update s.standing none here.standing)) :
    lock.Agrees (State.standing ⟨lock, n, here, s.others⟩) := by
  have same : State.standing ⟨lock, n, here, s.others⟩ = Function.update s.standing none here.standing := by
    funext j
    cases j with
    | none => rfl
    | some j => rfl
  rwa [same]

theorem agrees_keep (sem : s.mmapLock.Agrees s.standing) {n : Nat} {here : BookAt}
    (stands : here.standing = s.book.standing) : s.mmapLock.Agrees (State.standing ⟨s.mmapLock, n, here, s.others⟩) := by
  apply agrees_goto
  have same : Function.update s.standing none here.standing = s.standing := by
    rw [stands]
    exact Function.update_eq_self none s.standing
  rwa [same]

omit [DecidableEq ι] in
/-- Nobody else holds a lock that `insmod` holds for writing. -/
theorem alone (sem : s.mmapLock.Agrees s.standing) (mine : s.book.standing = .holding .write) :
    s.mmapLock.writer = some none ∧ ∀ i a, s.others i ≠ .holding a := by
  have writer : s.mmapLock.writer = some none := (sem.writer none).mpr mine
  refine ⟨writer, fun i a holding => ?_⟩
  cases a with
  | write =>
      have other := (sem.writer (some i)).mpr holding
      rw [writer] at other
      cases other
  | read =>
      have reader := (sem.readers (some i)).mpr holding
      rcases s.mmapLock.exclusive with free | empty
      · rw [writer] at free
        cases free
      · rw [empty] at reader
        cases reader

theorem Inv.book (sem : s.mmapLock.Agrees s.standing) (once : s.book.again = false) (users : s.mmUsers = s.book.users)
    (possible : s.book.Possible params) (fired : book params s = some s') : Inv params s' := by
  unfold BookCase.book at fired
  cases here : s.book with
  | start =>
      simp only [here] at fired users
      split at fired
      · rename_i given
        cases fired
        exact .before (agrees_keep sem (by rw [here]; rfl)) rfl (congrArg (· + 1) users) given
      · rename_i failed
        cases fired
        have missing : params.taskMm = false := by simpa using failed
        exact .before (agrees_keep sem (by rw [here]; rfl)) rfl users missing
  | downWrite =>
      simp only [here] at fired users possible
      cases fired
      have outside : s.standing none = .outside := by
        rw [State.standing, here]
        rfl
      exact .before (agrees_goto (sem.enqueue outside .write)) rfl users possible
  | queuedWrite =>
      simp only [here] at fired users possible
      obtain ⟨lock, taken, rfl⟩ := Option.map_eq_some_iff.mp fired
      obtain ⟨a, waiting, agrees⟩ := sem.take taken
      have write : a = .write := by
        rw [State.standing, here] at waiting
        cases waiting
        rfl
      subst write
      exact .before (agrees_goto agrees) rfl users possible
  | locked =>
      simp only [here] at fired users possible
      cases fired
      cases memory : params.kmalloc with
      | true => exact .before (agrees_keep sem (by rw [here]; rfl)) rfl users ⟨possible, memory⟩
      | false => exact .before (agrees_keep sem (by rw [here]; rfl)) rfl users ⟨possible, memory⟩
  | upWrite =>
      simp only [here] at fired users possible
      cases fired
      have holding : s.standing none = .holding .write := by
        rw [State.standing, here]
        rfl
      exact .before (agrees_goto (sem.release holding)) rfl users possible
  | mmput =>
      simp only [here] at fired users possible
      cases fired
      exact .before (agrees_keep sem (by rw [here]; rfl)) rfl (congrArg (· - 1) users) possible
  | downRead =>
      simp only [here] at fired users possible
      cases fired
      obtain ⟨writer, others⟩ := alone sem (by rw [here]; rfl)
      exact .stuck ⟨rfl, writer, others, users⟩ possible
  | queuedRead => simp [here, BookAt.again] at once
  | nullVma => simp [here, BookAt.again] at once
  | returned e => simp [here] at fired

abbrev Runs (params : Params) := Run (Fires (step params)) (State.init (ι := ι))

theorem Inv.step (inv : Inv params s) {event : Event ι} (fired : BookCase.step params s event = some s') :
    Inv params s' := by
  cases inv with
  | before sem once users possible =>
      by_cases own : event = .book
      · subst own
        exact Inv.book sem once users possible fired
      · obtain ⟨agrees, sameBook, sameUsers⟩ := Inv.other sem (otherMove_of_step own fired)
        refine .before agrees ?_ ?_ ?_
        · rw [sameBook, once]
        · rw [sameUsers, sameBook, users]
        · rwa [sameBook]
  | stuck stuck possible =>
      have after := (stuck.step fired).1
      refine .stuck after ?_
      rw [stuck.here] at possible
      rwa [after.here]

theorem inv_of_run {events : List (Event ι)} (run : Runs params events s) : Inv params s := by
  apply run.invariant (Inv params)
  · exact .before (RwSem.Agrees.free fun i => by cases i <;> rfl) rfl rfl trivial
  · intro before event after inv fired
    exact inv.step fired

theorem stuck_of_run (stuck : Stuck s) {later : List (Event ι)} (run : Run (Fires (step params)) s later s') :
    Stuck s' ∧ ∀ i a, s.others i = .waiting a → .givesUp i ∉ later → s'.others i = .waiting a := by
  induction run with
  | nil => exact ⟨stuck, fun _ _ waiting _ => waiting⟩
  | @snoc events before _ event previous fired ih =>
      obtain ⟨middle, kept⟩ := ih
      obtain ⟨after, still⟩ := middle.step fired
      refine ⟨after, fun i a waiting stays => ?_⟩
      obtain ⟨earlier, last⟩ := not_or.mp (mt List.mem_append.mpr stays)
      exact still i a (kept i a waiting earlier) fun same => last (List.mem_singleton.mpr same.symm)

/-- `insmod` comes back only when it got no `mm` or no memory. Otherwise, once it asks for the lock
again, nobody ever gets its `mmap_lock`: it waits forever, and so do all who do not give up. -/
theorem book_case_hangs {events : List (Event ι)} (run : Runs params events s) :
    s.book ≠ .nullVma ∧
      (∀ e, s.book = .returned e →
        ((e = .einval ∧ params.taskMm = false) ∨ (e = .enomem ∧ params.taskMm = true ∧ params.kmalloc = false)) ∧
          s.mmUsers = 0 ∧ s.mmapLock.writer ≠ some none) ∧
      (s.book = .queuedRead → ∀ later s', Run (Fires (step params)) s later s' →
        s'.book = .queuedRead ∧ s'.mmUsers = 1 ∧ (∀ i a, s'.others i ≠ .holding a) ∧
          ∀ i a, s.others i = .waiting a → .givesUp i ∉ later → s'.others i = .waiting a) := by
  have inv := inv_of_run run
  cases inv with
  | before sem once users possible =>
      refine ⟨?_, fun e back => ?_, ?_⟩
      · rintro here
        rw [here] at once
        cases once
      · rw [back] at possible users
        refine ⟨?_, users, ?_⟩
        · cases e with
          | einval => exact .inl ⟨rfl, possible⟩
          | enomem => exact .inr ⟨rfl, possible⟩
        · rw [Ne, sem.writer, State.standing, back]
          nofun
      · rintro here
        rw [here] at once
        cases once
  | stuck stuck possible =>
      refine ⟨?_, fun e back => ?_, fun _ later s' further => ?_⟩
      · rw [stuck.here]
        nofun
      · rw [stuck.here] at back
        cases back
      · obtain ⟨after, kept⟩ := stuck_of_run stuck further
        exact ⟨after.here, after.users, after.others, kept⟩

/-- A reader of the lock arrives after `insmod` has it. -/
def hanging : List (Event Unit) := [.book, .book, .book, .asks () .read, .book, .book]

theorem book_case_hangs_hanging :
    ∃ s : State Unit, Runs ⟨true, true⟩ hanging s ∧ s.book = .queuedRead ∧
      ∀ later s', Run (Fires (step ⟨true, true⟩)) s later s' →
        s'.book = .queuedRead ∧ (.givesUp () ∉ later → s'.others () = .waiting .read) := by
  have reached : (hanging.foldlM (step ⟨true, true⟩) .init).map (fun s => (s.book, s.others ())) =
      some (.queuedRead, .waiting .read) := by decide
  obtain ⟨s, fired, here⟩ := Option.map_eq_some_iff.mp reached
  obtain ⟨again, waiting⟩ := Prod.mk.inj here
  have run : Runs ⟨true, true⟩ hanging s := run_of_foldlM fired
  obtain ⟨-, -, forever⟩ := book_case_hangs run
  refine ⟨s, run, again, fun later s' further => ?_⟩
  obtain ⟨stays, -, -, kept⟩ := forever again later s' further
  exact ⟨stays, kept () .read waiting⟩

end LinuxInterview.RwsemLab.BookCase
