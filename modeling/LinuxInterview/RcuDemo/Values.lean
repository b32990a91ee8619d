import LinuxInterview.RcuDemo.Invariant

/-!
# The values that the writer publishes and the reader prints

Only a reader that passes its loop test reads, and the test `i++ < rounds * 2` is never passed when
the product wraps to a negative number, so no reader sees the writer's counter overflow.
-/

namespace LinuxInterview.RcuDemo
open Library

/-- The value of the object that is published after `x` updates. -/
def version : Nat → Int32
  | 0 => 0
  | x + 1 => Int32.ofNat (5 + x)

theorem version_mono {x y : Nat} (ordered : x ≤ y) (small : y < 2 ^ 30) : version x ≤ version y := by
  have number : ∀ z < 2 ^ 30, (version (z + 1)).toInt = (5 + z : Nat) := by
    intro z below
    exact Int32.toInt_ofNat_of_lt (by omega)
  rw [Int32.le_iff_toInt_le]
  cases x with
  | zero =>
      cases y with
      | zero => exact le_rfl
      | succ y =>
          rw [number y (by omega)]
          exact Int.natCast_nonneg _
  | succ x =>
      cases y with
      | zero => omega
      | succ y =>
          rw [number x (by omega), number y (by omega)]
          omega

theorem small_of_loop_entered {rounds i : Int32} (nonneg : 0 ≤ i.toInt) (entered : i < rounds * 2) :
    rounds.toInt < 2 ^ 30 ∧ (i + 1).toInt = i.toInt + 1 := by
  have product : (rounds * 2).toInt = (rounds.toInt * 2).bmod (2 ^ 32) := Int32.toInt_mul _ _
  have upper := (rounds * 2).toInt_lt
  have range := rounds.toInt_lt
  have below := Int32.lt_iff_toInt_lt.mp entered
  constructor
  · rw [product, Int.bmod_def] at below
    split at below <;> omega
  · have one : (1 : Int32).toInt = 1 := rfl
    rw [Int32.toInt_add, one]
    exact Int.bmod_eq_of_le (by norm_num; omega) (by norm_num; omega)

namespace WriterAt

@[simp] def attempt (w : WriterAt) : Nat :=
  if w = kmalloc ∨ w = copy ∨ w = fill ∨ w = assignPointer ∨ w = callRcu then 1 else 0

end WriterAt

structure Values (rounds : Int32) (s : State) : Prop where
  value : s.value = Int32.ofNat (if s.writerAt = .increment then 4 + s.updates else 5 + s.updates)
  published : ∀ x ≤ s.current, s.a x = version x
  filled : s.writerAt = .assignPointer → s.a s.newPtr = s.value
  writerI : s.writerAt ≠ .finish → s.writerAt ≠ .returned →
    s.writerI = Int32.ofNat (s.updates + s.writerAt.attempt)
  bound : ((s.updates + s.writerAt.attempt : Nat) : Int) ≤ max 0 rounds.toInt

def State.horizon (s : State) : Nat :=
  match s.readerAt, s.readerP with
  | .print, some x => x
  | _, _ => s.current

def ReaderAt.inLoop : ReaderAt → Bool
  | readLock | dereference | print | readUnlock => true
  | _ => false

structure Seen (rounds : Int32) (s : State) : Prop where
  readerI : s.readerAt ≠ .finish → s.readerAt ≠ .returned → 0 ≤ s.readerI.toInt
  small : s.readerAt.inLoop = true ∨ s.seen ≠ [] → rounds.toInt < 2 ^ 30
  sorted : s.seen.Pairwise (· ≤ ·)
  bounded : ∀ v ∈ s.seen, v ≤ version s.horizon

variable {rounds : Int32} {s s' : State}

theorem Values.toInt_updates (inv : Values rounds s) : (Int32.ofNat s.updates).toInt = s.updates := by
  have bound := inv.bound
  have range := rounds.toInt_lt
  exact Int32.toInt_ofNat_of_lt (by omega)

theorem Values.update_draft (pointers : Pointers s) (inv : Values rounds s)
    (draft : s.writerAt.draft = 1) (v : Int32) :
    ∀ x ≤ s.updates, Function.update s.a s.newPtr v x = version x := by
  intro x below
  have newPtr := pointers.newPtr draft
  have other : x ≠ s.newPtr := by omega
  rw [Function.update_of_ne other]
  exact inv.published x (below.trans (Nat.le_add_right _ _))

theorem Values.writer (pointers : Pointers s) (inv : Values rounds s) {memory : Bool}
    (action : myrcuWriterThread rounds memory s = some s') : Values rounds s' := by
  have value := inv.value
  have published := inv.published
  have filled := inv.filled
  have writerI := inv.writerI
  have bound := inv.bound
  have newPtr := pointers.newPtr
  have exact32 := inv.toInt_updates
  cases writerMoves action with
  | enter writerAt entered =>
      have counter : s.writerI = Int32.ofNat s.updates := by simpa [writerAt] using writerI
      rw [counter, Int32.lt_iff_toInt_lt, exact32] at entered
      constructor
      · simpa [writerAt] using value
      · simpa [State.current, writerAt] using published
      · simp
      · simp [counter]
      · simp
        omega
  | leave writerAt _ =>
      constructor
      · simpa [writerAt] using value
      · simpa [State.current, writerAt] using published
      · simp
      · simp
      · simpa [writerAt] using bound
  | kmalloc writerAt =>
      constructor
      · simpa [writerAt] using value
      · simpa [State.current, writerAt] using published
      · simp
      · simpa [writerAt] using writerI
      · simpa [writerAt] using bound
  | noMemory writerAt =>
      constructor
      · simpa [writerAt] using value
      · simpa [State.current, writerAt] using published
      · simp
      · simp
      · simp [writerAt] at bound ⊢
        omega
  | @copy old writerAt found =>
      have kept := inv.update_draft pointers (by simp [writerAt])
      constructor
      · simpa [writerAt] using value
      · simpa [State.current] using kept (s.a old)
      · simp
      · simpa [writerAt] using writerI
      · simpa [writerAt] using bound
  | fill writerAt =>
      have kept := inv.update_draft pointers (by simp [writerAt])
      constructor
      · simpa [writerAt] using value
      · simpa [State.current] using kept s.value
      · simp
      · simpa [writerAt] using writerI
      · simpa [writerAt] using bound
  | assignPointer writerAt =>
      have draft : s.newPtr = s.updates + 1 := newPtr (by simp [writerAt])
      have written : s.a (s.updates + 1) = version (s.updates + 1) := by
        rw [← draft, filled writerAt, value, draft]
        simp [writerAt, version]
      constructor
      · simpa [writerAt] using value
      · intro x below
        by_cases newest : x = s.updates + 1
        · rw [newest]
          exact written
        · apply published x
          simp [State.current] at below
          simp [State.current, writerAt]
          omega
      · simp
      · simpa [writerAt] using writerI
      · simpa [writerAt] using bound
  | callRcu writerAt =>
      constructor
      · rw [value, writerAt]
        simp only [reduceCtorEq, if_false, if_true]
        congr 1
        omega
      · simpa [State.current, writerAt] using published
      · simp
      · simpa [writerAt] using writerI
      · simpa [writerAt] using bound
  | increment writerAt =>
      constructor
      · rw [value, writerAt]
        simp only [reduceCtorEq, if_false, if_true]
        rw [show 5 + s.updates = 4 + s.updates + 1 by omega, Int32.ofNat_add (4 + s.updates) 1]
        rfl
      · simpa [State.current, writerAt] using published
      · simp
      · simpa [writerAt] using writerI
      · simpa [writerAt] using bound
  | finish writerAt =>
      constructor
      · simpa [writerAt] using value
      · simpa [State.current, writerAt] using published
      · simp
      · simp
      · simpa [writerAt] using bound

theorem Values.reader (inv : Values rounds s) (action : myrcuReaderThread rounds s = some s') :
    Values rounds s' := by
  cases readerMoves action
  all_goals exact { inv with }

theorem Values.callback (inv : Values rounds s) {k : Nat} (action : myrcuDel k s = some s') :
    Values rounds s' := by
  obtain ⟨r, _, _, rfl⟩ := myrcuDel_cases action
  exact { inv with }

theorem Values.main (control : Control s) (inv : Values rounds s) {memory : Bool}
    (action : moduleThread memory s = some s') : Values rounds s' := by
  cases mainMoves action with
  | kzalloc mainAt | noMemory mainAt => exact absurd mainAt control.started
  | runWriter mainAt =>
      have writerAt := control.writerUnborn (by simp [mainAt])
      have value := inv.value
      have published := inv.published
      have writerI := inv.writerI
      have bound := inv.bound
      constructor
      · simpa [writerAt] using value
      · simpa [State.current, writerAt] using published
      · simp
      · simpa [writerAt] using writerI
      · simpa [writerAt] using bound
  | _ => exact { inv with }

/-! ## What the reader prints -/

theorem horizon_of_ne (elsewhere : s.readerAt ≠ .print) : s.horizon = s.current := by
  unfold State.horizon
  split
  · contradiction
  · rfl

theorem Reading.horizon_le (inv : Reading s) : s.horizon ≤ s.current := by
  unfold State.horizon
  split
  · rename_i x readerAt readerP
    exact (inv.held s.readerSection x ⟨by rw [readerAt]; rfl, rfl, readerP⟩).1
  · exact le_rfl

theorem Values.current_le (inv : Values rounds s) : (s.current : Int) ≤ max 0 rounds.toInt := by
  have bound := inv.bound
  have within : s.writerAt.unretired ≤ s.writerAt.attempt := by
    cases s.writerAt <;> simp
  unfold State.current
  omega

theorem Seen.le_version (inv : Seen rounds s) {n : Nat} (later : s.horizon ≤ n)
    (reached : (n : Int) ≤ max 0 rounds.toInt) : ∀ v ∈ s.seen, v ≤ version n := by
  intro v member
  have small := inv.small (Or.inr (List.ne_nil_of_mem member))
  exact Int32.le_trans (inv.bounded v member) (version_mono later (by omega))

theorem Seen.reader (control : Control s) (pointers : Pointers s) (reading : Reading s)
    (values : Values rounds s) (inv : Seen rounds s)
    (action : myrcuReaderThread rounds s = some s') : Seen rounds s' := by
  have published : s.mainAt.published = true := by
    rcases control.reader_moves action with mainAt | mainAt <;> rw [mainAt] <;> rfl
  have current : s.gPtr = some s.current := by rw [pointers.gPtr, if_pos published]
  have readerI := inv.readerI
  have small := inv.small
  have bounded := inv.bounded
  cases readerMoves action with
  | enter readerAt entered =>
      have nonneg : 0 ≤ s.readerI.toInt := readerI (by simp [readerAt]) (by simp [readerAt])
      obtain ⟨positive, next⟩ := small_of_loop_entered nonneg entered
      rw [horizon_of_ne (by simp [readerAt])] at bounded
      exact { inv with
        readerI := fun _ _ => by rw [next]; omega
        small := fun _ => positive
        bounded := bounded }
  | leave readerAt _ =>
      rw [horizon_of_ne (by simp [readerAt])] at bounded
      exact { inv with
        readerI := by simp
        small := by simpa [ReaderAt.inLoop, readerAt] using small
        bounded := bounded }
  | readLock readerAt =>
      rw [horizon_of_ne (by simp [readerAt])] at bounded
      exact { inv with
        readerI := by simpa [readerAt] using readerI
        small := by simpa [ReaderAt.inLoop, readerAt] using small
        bounded := bounded }
  | dereference readerAt =>
      rw [horizon_of_ne (by simp [readerAt])] at bounded
      exact { inv with
        readerI := by simpa [readerAt] using readerI
        small := by simpa [ReaderAt.inLoop, readerAt] using small
        bounded := by simpa [State.horizon, current] using bounded }
  | print readerAt =>
      have positive := small (Or.inl (by rw [readerAt]; rfl))
      have sorted := inv.sorted
      have fits := values.current_le
      cases readerP : s.readerP with
      | none =>
          have horizon : s.horizon = s.current := by simp [State.horizon, readerP]
          rw [horizon] at bounded
          exact {
            readerI := by simpa [readerAt] using readerI
            small := fun _ => positive
            sorted := by simpa using sorted
            bounded := by simpa [State.horizon, State.current] using bounded }
      | some x =>
          have horizon : s.horizon = x := by simp [State.horizon, readerAt, readerP]
          have reached : x ≤ s.current := horizon ▸ reading.horizon_le
          have printed : s.a x = version x := values.published x reached
          rw [horizon] at bounded
          exact {
            readerI := by simpa [readerAt] using readerI
            small := fun _ => positive
            sorted := by
              rw [Option.map_some, Option.toList_some, printed, List.pairwise_append]
              refine ⟨sorted, List.pairwise_singleton _ _, fun v member w only => ?_⟩
              rw [List.mem_singleton.mp only]
              exact bounded v member
            bounded := by
              rw [Option.map_some, Option.toList_some, printed]
              intro v member
              rw [horizon_of_ne (by simp)]
              have raised : version x ≤ version s.current := version_mono reached (by omega)
              rcases List.mem_append.mp member with earlier | last
              · exact Int32.le_trans (bounded v earlier) raised
              · rw [List.mem_singleton.mp last]
                exact raised }
  | readUnlock readerAt =>
      rw [horizon_of_ne (by simp [readerAt])] at bounded
      exact { inv with
        readerI := by simpa [readerAt] using readerI
        small := fun loop => small (loop.imp_left (by simp [ReaderAt.inLoop]))
        bounded := bounded }
  | finish readerAt =>
      rw [horizon_of_ne (by simp [readerAt])] at bounded
      exact { inv with
        readerI := by simp
        small := by simpa [ReaderAt.inLoop, readerAt] using small
        bounded := bounded }

theorem Seen.of_current_le (reading : Reading s) (inv : Seen rounds s)
    (readerAt : s'.readerAt = s.readerAt) (readerP : s'.readerP = s.readerP)
    (readerI : s'.readerI = s.readerI) (seen : s'.seen = s.seen) (later : s.current ≤ s'.current)
    (reached : (s'.current : Int) ≤ max 0 rounds.toInt) : Seen rounds s' := by
  have behind := reading.horizon_le
  have horizon : s.horizon ≤ s'.horizon ∧ s'.horizon ≤ s'.current := by
    by_cases printing : s.readerAt = .print
    · cases pointer : s.readerP with
      | none => simp_all [State.horizon]
      | some x => simp_all [State.horizon]; omega
    · rw [horizon_of_ne printing, horizon_of_ne (readerAt ▸ printing)]
      exact ⟨later, le_rfl⟩
  constructor
  · rw [readerAt, readerI]
    exact inv.readerI
  · rw [readerAt, seen]
    exact inv.small
  · rw [seen]
    exact inv.sorted
  · rw [seen]
    exact inv.le_version horizon.1 (by omega)

theorem Seen.writer (reading : Reading s) (inv : Seen rounds s) {memory : Bool}
    (action : myrcuWriterThread rounds memory s = some s') (later : Values rounds s') :
    Seen rounds s' := by
  obtain ⟨readerAt, readerP, readerI, seen⟩ := writer_keeps_reader action
  exact inv.of_current_le reading readerAt readerP readerI seen (writer_current_le action) later.current_le

theorem Seen.callback (reading : Reading s) (values : Values rounds s) (inv : Seen rounds s) {k : Nat}
    (action : myrcuDel k s = some s') : Seen rounds s' := by
  obtain ⟨r, _, _, rfl⟩ := myrcuDel_cases action
  exact inv.of_current_le reading rfl rfl rfl rfl le_rfl values.current_le

theorem Seen.main (control : Control s) (reading : Reading s) (values : Values rounds s)
    (inv : Seen rounds s) {memory : Bool} (action : moduleThread memory s = some s') :
    Seen rounds s' := by
  cases mainMoves action with
  | kzalloc mainAt | noMemory mainAt => exact absurd mainAt control.started
  | runReader mainAt =>
      have readerAt := control.readerUnborn (Or.inr mainAt)
      have small := inv.small
      have bounded := inv.bounded
      rw [horizon_of_ne (by simp [readerAt])] at bounded
      exact { inv with
        readerI := fun _ _ => inv.readerI (by simp [readerAt]) (by simp [readerAt])
        small := by simpa [ReaderAt.inLoop, readerAt] using small
        bounded := bounded }
  | runWriter mainAt =>
      have writerAt := control.writerUnborn (by simp [mainAt])
      have fits := values.current_le
      refine inv.of_current_le reading rfl rfl rfl rfl ?_ ?_
      · simp [State.current, writerAt]
      · simpa [State.current, writerAt] using fits
  | _ => exact { inv with }

end LinuxInterview.RcuDemo
