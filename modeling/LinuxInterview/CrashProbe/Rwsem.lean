import LinuxInterview.Library.RwSem

/-!
# The command `rwsem` of `crash_probe.c`

The command decodes the two words of an `rw_semaphore` with constants copied from the kernel, and
lists who waits for it.
-/

namespace LinuxInterview.CrashProbe
open Library

abbrev Word := BitVec 64

structure TaskStruct where
  state : BitVec 32
  pid : Int32
  comm : String
  deriving DecidableEq, Repr

/-- `type` is the number of an `enum rp_rwsem_waiter_type`. -/
structure Waiter where
  task : Word
  type : BitVec 32
  deriving DecidableEq, Repr

structure RwSemaphore where
  count : Word
  owner : Word
  waitList : List Waiter
  deriving DecidableEq, Repr

def WAITING_FOR_WRITE : BitVec 32 := 0
def WAITING_FOR_READ : BitVec 32 := 1

def OWNER_FLAGS : Word := 3

def stateStr (st : BitVec 32) : String :=
  if st = 0 then "RU"
  else if st &&& 2 ≠ 0 then "UN(D)"
  else if st &&& 1 ≠ 0 then "IN(S)"
  else if st &&& 4 ≠ 0 then "ST"
  else if st &&& 0x80 ≠ 0 then "DE"
  else "??"

inductive Holder
  | reader (pid : Int32) (comm : String)
  | someReader
  | writer (pid : Int32) (comm : String) (task : Word)
  | nobody
  deriving DecidableEq, Repr

structure WaiterLine where
  index : Nat
  task : Word
  pid : Int32
  comm : String
  access : Access
  state : String
  deriving DecidableEq, Repr

structure Report where
  writerLocked : Bool
  flagWaiters : Bool
  flagHandoff : Bool
  readFail : Bool
  readers : Int
  readerOwned : Bool
  nonspinnable : Bool
  holder : Holder
  waiters : List WaiterLine
  deriving DecidableEq, Repr

section Command

variable (tasks : Word → TaskStruct)

/-- The tests after the flags of `owner`. -/
def holderOf (ownerRaw : Word) : Holder :=
  let owner := ownerRaw &&& ~~~OWNER_FLAGS
  if ownerRaw &&& 1 ≠ 0 then
    if owner ≠ 0 then .reader (tasks owner).pid (tasks owner).comm else .someReader
  else if owner ≠ 0 then .writer (tasks owner).pid (tasks owner).comm owner
  else .nobody

def waiterLine (n : Nat) (w : Waiter) : WaiterLine where
  index := n
  task := w.task
  pid := (tasks w.task).pid
  comm := (tasks w.task).comm
  access := if w.type = WAITING_FOR_READ then .read else .write
  state := stateStr (tasks w.task).state

/-- `%ld` prints the count of the readers, an `unsigned long`, as a `long`. -/
def cmdRwsem (sem : RwSemaphore) : Report where
  writerLocked := sem.count &&& 1 ≠ 0
  flagWaiters := sem.count &&& 2 ≠ 0
  flagHandoff := sem.count &&& 4 ≠ 0
  readFail := sem.count &&& (1#64 <<< 63) ≠ 0
  readers := ((sem.count &&& ~~~0xff#64) >>> 8).toInt
  readerOwned := sem.owner &&& 1 ≠ 0
  nonspinnable := sem.owner &&& 2 ≠ 0
  holder := holderOf tasks sem.owner
  waiters := sem.waitList.mapIdx (waiterLine tasks)

end Command

def typeOf : Access → BitVec 32
  | .write => WAITING_FOR_WRITE
  | .read => WAITING_FOR_READ

/-- The words in which the kernel keeps a lock while no operation on it is under way. A reader stays
in `owner` when it leaves, and `NONSPINNABLE`, `HANDOFF` and `READFAIL` may be set at any time. -/
structure Represents {ι : Type*} (address : ι → Word) (lock : RwSem ι) (sem : RwSemaphore) : Prop where
  writer : sem.count.getLsbD 0 = lock.writer.isSome
  waiters : sem.count.getLsbD 1 = !lock.queue.isEmpty
  readers : (sem.count.extractLsb' 8 55).toNat = lock.readers.card
  ownedByWriter : ∀ i, lock.writer = some i → sem.owner &&& ~~~2 = address i
  ownedByReader : lock.readers.Nonempty → sem.owner.getLsbD 0 = true
  ownedByNone : lock.writer = none → lock.readers = ∅ → sem.owner &&& ~~~2 = 0 ∨ sem.owner.getLsbD 0 = true
  queue : sem.waitList = lock.queue.map fun (i, a) => ⟨address i, typeOf a⟩
  aligned : ∀ i, address i &&& OWNER_FLAGS = 0
  allocated : ∀ i, address i ≠ 0

/-! ## The words -/

theorem bit_ne_zero_iff (w : Word) {i : Nat} (inside : i < 64) : w &&& BitVec.twoPow 64 i ≠ 0 ↔ w.getLsbD i = true := by
  have present : BitVec.twoPow 64 i ≠ 0 := by
    intro zero
    have value := congrArg BitVec.toNat zero
    rw [BitVec.toNat_twoPow_of_lt inside] at value
    exact (Nat.two_pow_pos i).ne' value
  rw [BitVec.and_twoPow]
  cases w.getLsbD i with
  | true => simpa using present
  | false => simp

theorem and_not_eq_self {x mask : Word} (clear : x &&& mask = 0) : x &&& ~~~mask = x := by
  apply BitVec.eq_of_getLsbD_eq
  intro i bound
  have bit := congrArg (BitVec.getLsbD · i) clear
  simp only [BitVec.getLsbD_and, BitVec.ofNat_eq_ofNat, BitVec.getLsbD_zero, Bool.and_eq_false_iff] at bit
  rw [BitVec.getLsbD_and, BitVec.getLsbD_not]
  rcases bit with off | outside
  · simp [off]
  · rw [outside, Bool.not_false, Bool.and_true, decide_eq_true bound, Bool.and_true]

theorem readers_printed (count : Word) : ((count &&& ~~~0xff#64) >>> 8).toInt =
    (count.extractLsb' 8 55).toNat + if count.getLsbD 63 then 2 ^ 55 else 0 := by
  have shifted : (count &&& ~~~0xff#64) >>> 8 = count >>> 8 := by
    apply BitVec.eq_of_getLsbD_eq
    intro i bound
    have low : (0xff#64).getLsbD (8 + i) = false := by
      rw [BitVec.getLsbD_ofNat, Nat.testBit_lt_two_pow, Bool.and_false]
      calc 0xff < 2 ^ 8 := by decide
        _ ≤ 2 ^ (8 + i) := Nat.pow_le_pow_right (by decide) (Nat.le_add_right 8 i)
    rw [BitVec.getLsbD_ushiftRight, BitVec.getLsbD_ushiftRight, BitVec.getLsbD_and, BitVec.getLsbD_not, low]
    by_cases inside : 8 + i < 64
    · simp [inside]
    · rw [BitVec.getLsbD_of_ge count _ (by omega), Bool.false_and]
  have size := count.isLt
  have value : (count >>> 8).toNat = count.toNat / 256 := by
    rw [BitVec.toNat_ushiftRight, Nat.shiftRight_eq_div_pow]
  have field : (count.extractLsb' 8 55).toNat = count.toNat / 256 % 2 ^ 55 := by
    rw [BitVec.extractLsb'_toNat, Nat.shiftRight_eq_div_pow]
  have top : count.getLsbD 63 = decide (2 ^ 63 ≤ count.toNat) := BitVec.msb_eq_decide count
  rw [shifted, BitVec.toInt_eq_toNat_of_lt (by omega), value, field, top]
  split
  · rename_i high
    have high := of_decide_eq_true high
    omega
  · rename_i low
    have low : count.toNat < 2 ^ 63 := by simpa using low
    omega

theorem owner_pointer {owner address : Word} (owned : owner &&& ~~~2 = address) (aligned : address &&& OWNER_FLAGS = 0) :
    owner &&& ~~~OWNER_FLAGS = address ∧ owner &&& 1 = 0 := by
  constructor
  · have masks : ~~~OWNER_FLAGS = ~~~2 &&& ~~~OWNER_FLAGS := by decide
    rw [masks, ← BitVec.and_assoc, owned]
    exact and_not_eq_self aligned
  · have masks : (1 : Word) = ~~~2 &&& (OWNER_FLAGS &&& 1) := by decide
    rw [masks, ← BitVec.and_assoc, owned, ← BitVec.and_assoc, aligned]
    exact BitVec.zero_and

/-! ## The report -/

/-- What the report says of a lock. A lock that readers have left may still be shown as theirs. -/
structure Reports {ι : Type*} (tasks : Word → TaskStruct) (address : ι → Word) (lock : RwSem ι) (r : Report) : Prop where
  writerLocked : r.writerLocked = lock.writer.isSome
  flagWaiters : r.flagWaiters = !lock.queue.isEmpty
  readers : r.readers = lock.readers.card + if r.readFail then 2 ^ 55 else 0
  writer : ∀ i, lock.writer = some i ↔ r.holder = .writer (tasks (address i)).pid (tasks (address i)).comm (address i)
  nobody : r.holder = .nobody → lock.writer = none ∧ lock.readers = ∅
  waiters : r.waiters = lock.queue.mapIdx fun n (i, a) =>
    ⟨n, address i, (tasks (address i)).pid, (tasks (address i)).comm, a, stateStr (tasks (address i)).state⟩

section Decoding

variable {ι : Type*} {tasks : Word → TaskStruct} {address : ι → Word} {lock : RwSem ι} {sem : RwSemaphore}

variable (tasks) in
theorem holderOf_writer (shown : Represents address lock sem) {i : ι} (held : lock.writer = some i) :
    holderOf tasks sem.owner = .writer (tasks (address i)).pid (tasks (address i)).comm (address i) := by
  obtain ⟨pointer, notReader⟩ := owner_pointer (shown.ownedByWriter i held) (shown.aligned i)
  rw [holderOf]
  simp only [pointer, notReader]
  rw [if_neg (not_ne_iff.mpr rfl), if_pos (shown.allocated i)]

variable (tasks) in
theorem holderOf_reader {owner : Word} (bit : owner.getLsbD 0 = true) :
    (∃ pid comm, holderOf tasks owner = .reader pid comm) ∨ holderOf tasks owner = .someReader := by
  have set : owner &&& 1 ≠ 0 := (bit_ne_zero_iff owner (by decide)).mpr bit
  rw [holderOf]
  simp only [if_pos set]
  split
  · exact .inl ⟨_, _, rfl⟩
  · exact .inr rfl

theorem holderOf_free {owner : Word} (free : owner &&& ~~~2 = 0) : holderOf tasks owner = .nobody := by
  obtain ⟨pointer, notReader⟩ := owner_pointer free (by decide)
  rw [holderOf]
  simp only [pointer, notReader]
  rfl

theorem holderOf_not_writer (shown : Represents address lock sem) (none_ : lock.writer = none) (pid : Int32)
    (comm : String) (task : Word) : holderOf tasks sem.owner ≠ .writer pid comm task := by
  have readerOwned : sem.owner.getLsbD 0 = true → holderOf tasks sem.owner ≠ .writer pid comm task := by
    intro bit
    rcases holderOf_reader tasks bit with ⟨_, _, reader⟩ | reader <;> rw [reader] <;> exact Holder.noConfusion
  by_cases empty : lock.readers = ∅
  · rcases shown.ownedByNone none_ empty with free | stale
    · rw [holderOf_free free]
      exact Holder.noConfusion
    · exact readerOwned stale
  · exact readerOwned (shown.ownedByReader (Finset.nonempty_iff_ne_empty.mpr empty))

variable (tasks) in
theorem cmdRwsem_reports (distinct : Function.Injective address) (shown : Represents address lock sem) :
    Reports tasks address lock (cmdRwsem tasks sem) where
  writerLocked := by
    rw [← shown.writer, Bool.eq_iff_iff, ← bit_ne_zero_iff sem.count (by decide)]
    exact decide_eq_true_iff
  flagWaiters := by
    rw [← shown.waiters, Bool.eq_iff_iff, ← bit_ne_zero_iff sem.count (by decide)]
    exact decide_eq_true_iff
  readers := by
    have failed : (cmdRwsem tasks sem).readFail = sem.count.getLsbD 63 := by
      rw [Bool.eq_iff_iff, ← bit_ne_zero_iff sem.count (by decide)]
      exact decide_eq_true_iff
    rw [failed, ← shown.readers]
    exact readers_printed sem.count
  writer i := by
    constructor
    · exact holderOf_writer tasks shown
    · intro printed
      cases held : lock.writer with
      | none => exact absurd printed (holderOf_not_writer shown held _ _ _)
      | some j =>
          have other := holderOf_writer tasks shown held
          have same := other.symm.trans printed
          injection same with _ _ place
          rw [distinct place]
  nobody := by
    intro printed
    have printed : holderOf tasks sem.owner = .nobody := printed
    constructor
    · refine Option.eq_none_iff_forall_ne_some.mpr fun i held => ?_
      rw [holderOf_writer tasks shown held] at printed
      cases printed
    · by_contra some_
      have bit := shown.ownedByReader (Finset.nonempty_iff_ne_empty.mpr some_)
      rcases holderOf_reader tasks bit with ⟨_, _, reader⟩ | reader <;> rw [reader] at printed <;> cases printed
  waiters := by
    apply List.ext_getElem?
    intro n
    change (sem.waitList.mapIdx (waiterLine tasks))[n]? = _
    rw [shown.queue, List.getElem?_mapIdx, List.getElem?_map, List.getElem?_mapIdx, Option.map_map]
    congr 1
    funext ⟨i, a⟩
    cases a <;> rfl

end Decoding

end LinuxInterview.CrashProbe
