import Mathlib.Tactic

/-!
# The frame chains of `crash_probe` and `lockup_lab`

A frame record is two words, the address of the record of the caller and the return address. Both
modules follow the records from a saved frame pointer through a memory of which they know nothing. The
value of a word is given for every address.
-/

namespace LinuxInterview.StackWalk

abbrev Word := BitVec 64

/-- `task_stack_page(t)` and the `THREAD_SIZE` bytes from there on, which fit into the address space. -/
structure Stack where
  lo : Word
  threadSize : Nat
  holdsRecord : 16 ≤ threadSize
  fits : lo.toNat + threadSize ≤ 2 ^ 64

namespace Stack

def hi (s : Stack) : Word := s.lo + BitVec.ofNat 64 s.threadSize

/-- The end of the stack, where `hi` may have come round to 0. -/
def top (s : Stack) : Nat := s.lo.toNat + s.threadSize

def Covers (s : Stack) (addr size : Nat) : Prop := s.lo.toNat ≤ addr ∧ addr + size ≤ s.top

instance (s : Stack) (addr size : Nat) : Decidable (s.Covers addr size) :=
  inferInstanceAs (Decidable (_ ∧ _))

end Stack

/-- A stack of `THREAD_SIZE` bytes. -/
def lowStack : Stack := ⟨0x4000, 16384, by decide, by decide⟩

structure Frame where
  fp : Word
  nextFp : Word
  lr : Word
  deriving DecidableEq, Repr

def Frame.loads (f : Frame) : List Word := [f.fp, f.fp + 8#64]

def readFrame (memory : Word → Word) (fp : Word) : Frame := ⟨fp, memory fp, memory (fp + 8#64)⟩

/-- The condition of both loops, apart from the count of the frames. -/
def Stack.guard (s : Stack) (fp : Word) : Prop := s.lo ≤ fp ∧ fp < s.hi - 16#64

instance (s : Stack) (fp : Word) : Decidable (s.guard fp) := inferInstanceAs (Decidable (_ ∧ _))

/-- The frames of at most `left` turns. -/
def frameChain (s : Stack) (memory : Word → Word) : Nat → Word → List Frame
  | 0, _ => []
  | left + 1, fp =>
      if s.guard fp then
        let f := readFrame memory fp
        f :: if f.nextFp ≤ fp then [] else frameChain s memory left f.nextFp
      else []

def cmdBt (s : Stack) (memory : Word → Word) (fp : Word) : List Frame := frameChain s memory 32 fp

def miniBt (s : Stack) (memory : Word → Word) (fp : Word) : List Frame := frameChain s memory 12 fp

variable {s : Stack} {memory : Word → Word} {fp : Word}

theorem guard_iff : s.guard fp ↔ s.lo.toNat ≤ fp.toNat ∧ fp.toNat + 16 < s.top := by
  have holds := s.holdsRecord
  have fits := s.fits
  have bound := s.lo.isLt
  have limit : (s.hi - 16#64).toNat = s.top - 16 := by
    rw [Stack.hi, Stack.top, BitVec.toNat_sub, BitVec.toNat_add, BitVec.toNat_ofNat, BitVec.toNat_ofNat]
    omega
  rw [Stack.guard, BitVec.le_def, BitVec.lt_def, limit]
  rw [Stack.top]
  omega

theorem loads_covered {left : Nat} : ∀ f ∈ frameChain s memory left fp, ∀ a ∈ f.loads, s.Covers a.toNat 8 := by
  induction left generalizing fp with
  | zero => exact fun f member => by cases member
  | succ left ih =>
      rw [frameChain]
      split
      · rename_i guarded
        rw [guard_iff] at guarded
        have fits := s.fits
        have second : (fp + 8#64).toNat = fp.toNat + 8 := by
          rw [BitVec.toNat_add, BitVec.toNat_ofNat]
          rw [Stack.top] at guarded
          omega
        rw [List.forall_mem_cons]
        refine ⟨?_, fun f later => ?_⟩
        · simp only [Frame.loads, readFrame, List.forall_mem_cons, Stack.Covers, second]
          exact ⟨⟨guarded.1, by omega⟩, ⟨by omega, by omega⟩, List.forall_mem_nil _⟩
        · split at later
          · cases later
          · exact ih f later
      · exact List.forall_mem_nil _

theorem frames_above {left : Nat} : ∀ f ∈ frameChain s memory left fp, fp ≤ f.fp := by
  induction left generalizing fp with
  | zero => exact fun f member => by cases member
  | succ left ih =>
      rw [frameChain]
      split
      · rw [List.forall_mem_cons]
        refine ⟨BitVec.le_refl fp, fun f later => ?_⟩
        split at later
        · cases later
        · rename_i onward
          exact BitVec.le_trans (BitVec.le_of_lt (BitVec.not_le.mp onward)) (ih f later)
      · exact List.forall_mem_nil _

theorem frames_increasing (s : Stack) (memory : Word → Word) (left : Nat) (fp : Word) :
    (frameChain s memory left fp).Pairwise fun f g => f.fp < g.fp := by
  induction left generalizing fp with
  | zero => exact List.Pairwise.nil
  | succ left ih =>
      rw [frameChain]
      split
      · rw [List.pairwise_cons]
        split
        · exact ⟨List.forall_mem_nil _, List.Pairwise.nil⟩
        · rename_i onward
          refine ⟨fun g later => ?_, ih _⟩
          have next : fp < (readFrame memory fp).nextFp := BitVec.not_le.mp onward
          have above : (readFrame memory fp).nextFp ≤ g.fp := frames_above g later
          rw [BitVec.lt_def] at next ⊢
          exact next.trans_le (BitVec.le_def.mp above)
      · exact List.Pairwise.nil

theorem length_frameChain_le (s : Stack) (memory : Word → Word) (left : Nat) (fp : Word) :
    (frameChain s memory left fp).length ≤ left := by
  induction left generalizing fp with
  | zero => exact le_rfl
  | succ left ih =>
      rw [frameChain]
      split
      · rw [List.length_cons]
        apply Nat.succ_le_succ
        split
        · exact Nat.zero_le left
        · exact ih _
      · exact Nat.zero_le _

theorem take_frameChain (s : Stack) (memory : Word → Word) {few left : Nat} (fewer : few ≤ left) (fp : Word) :
    (frameChain s memory left fp).take few = frameChain s memory few fp := by
  induction few generalizing left fp with
  | zero => rw [List.take_zero, frameChain]
  | succ few ih =>
      obtain ⟨more, rfl⟩ := Nat.exists_eq_succ_of_ne_zero (Nat.ne_of_gt (Nat.zero_lt_of_lt fewer))
      rw [frameChain, frameChain]
      split
      · rw [List.take_succ_cons]
        congr 1
        split
        · rw [List.take_nil]
        · exact ih (Nat.le_of_succ_le_succ fewer) _
      · rfl

/-- The walk depends on the words that it loads, and on no others. -/
theorem frameChain_congr {other : Word → Word} {left : Nat} {fp : Word}
    (agree : ∀ f ∈ frameChain s memory left fp, ∀ a ∈ f.loads, other a = memory a) :
    frameChain s other left fp = frameChain s memory left fp := by
  induction left generalizing fp with
  | zero => rfl
  | succ left ih =>
      rw [frameChain] at agree
      rw [frameChain, frameChain]
      split
      · rename_i guarded
        rw [if_pos guarded, List.forall_mem_cons] at agree
        have next : other fp = memory fp := agree.1 fp List.mem_cons_self
        have back : other (fp + 8#64) = memory (fp + 8#64) := agree.1 _ (List.mem_cons_of_mem _ List.mem_cons_self)
        have same : readFrame other fp = readFrame memory fp := by rw [readFrame, readFrame, next, back]
        simp only [same]
        split
        · rfl
        · rename_i onward
          rw [if_neg onward] at agree
          rw [ih agree.2]
      · rfl

/-- Both walks end inside the stack, and what they give depends on the words that they load alone. -/
theorem walks_safe (s : Stack) (memory : Word → Word) (fp : Word) :
    ((cmdBt s memory fp).length ≤ 32 ∧ (miniBt s memory fp).length ≤ 12) ∧
    (∀ f ∈ cmdBt s memory fp ++ miniBt s memory fp, ∀ a ∈ f.loads, s.Covers a.toNat 8) ∧
    ((cmdBt s memory fp).Pairwise (fun f g => f.fp < g.fp) ∧
      (miniBt s memory fp).Pairwise fun f g => f.fp < g.fp) ∧
    (∀ other : Word → Word,
      ((∀ f ∈ cmdBt s memory fp, ∀ a ∈ f.loads, other a = memory a) → cmdBt s other fp = cmdBt s memory fp) ∧
      ((∀ f ∈ miniBt s memory fp, ∀ a ∈ f.loads, other a = memory a) → miniBt s other fp = miniBt s memory fp)) ∧
    (miniBt s memory fp).map Frame.lr = ((cmdBt s memory fp).map Frame.lr).take 12 := by
  refine ⟨⟨length_frameChain_le .., length_frameChain_le ..⟩, ?_,
    ⟨frames_increasing .., frames_increasing ..⟩, fun other => ⟨frameChain_congr, frameChain_congr⟩, ?_⟩
  · rw [List.forall_mem_append]
    exact ⟨loads_covered, loads_covered⟩
  · rw [← List.map_take, miniBt, cmdBt, take_frameChain s memory (by decide)]

end LinuxInterview.StackWalk
