import LinuxInterview.StackWalk.FrameChain

/-!
# The records that `cmd_bt` prints

The guard of the loop asks for a byte beyond the record.
-/

namespace LinuxInterview.StackWalk

/-- The records of a chain from `fp` on, at increasing addresses. Where the last one leads is left open. -/
inductive Chain (memory : Word → Word) : Word → List Frame → Prop
  | last (fp : Word) : Chain memory fp [readFrame memory fp]
  | link {fp : Word} {rest : List Frame} (increasing : fp < memory fp) (linked : Chain memory (memory fp) rest) :
      Chain memory fp (readFrame memory fp :: rest)

def Frame.Inside (s : Stack) (f : Frame) : Prop := s.Covers f.fp.toNat 16

instance (s : Stack) (f : Frame) : Decidable (f.Inside s) := inferInstanceAs (Decidable (s.Covers _ _))

def Stack.held (s : Stack) (records : List Frame) : List Frame := records.filter fun f => f.Inside s

variable {s : Stack} {memory : Word → Word} {fp : Word} {chain : List Frame}

theorem held_cons {f : Frame} (inside : f.Inside s) (rest : List Frame) :
    s.held (f :: rest) = f :: s.held rest := List.filter_cons_of_pos (by simpa using inside)

theorem Chain.above (linked : Chain memory fp chain) : ∀ f ∈ chain, fp.toNat ≤ f.fp.toNat := by
  induction linked with
  | last fp => exact List.forall_mem_singleton.mpr le_rfl
  | link increasing linked ih =>
      rw [List.forall_mem_cons]
      exact ⟨le_rfl, fun f member => (BitVec.lt_def.mp increasing).le.trans (ih f member)⟩

theorem inside_iff : (readFrame memory fp).Inside s ↔ s.lo.toNat ≤ fp.toNat ∧ fp.toNat + 16 ≤ s.top := Iff.rfl

theorem Chain.filter_eq_nil (linked : Chain memory fp chain) (beyond : s.top < fp.toNat + 16) :
    s.held chain = [] := by
  rw [Stack.held, List.filter_eq_nil_iff]
  intro f member inside
  have covered : f.fp.toNat + 16 ≤ s.top := (of_decide_eq_true inside).2
  have above := linked.above f member
  omega

theorem frameChain_succ {left : Nat} (guarded : s.guard fp) (increasing : fp < memory fp) :
    frameChain s memory (left + 1) fp = readFrame memory fp :: frameChain s memory left (memory fp) := by
  rw [frameChain, if_pos guarded]
  exact congrArg _ (if_neg (BitVec.not_le.mpr increasing))

theorem frameChain_unguarded (unguarded : ¬ s.guard fp) (left : Nat) : frameChain s memory left fp = [] := by
  cases left with
  | zero => rfl
  | succ left => rw [frameChain, if_neg unguarded]

theorem Chain.filter_prefix (linked : Chain memory fp chain) {left : Nat} (few : chain.length ≤ left)
    (started : s.lo.toNat ≤ fp.toNat) (below : ∀ f ∈ chain, f.Inside s → f.fp.toNat + 16 ≠ s.top) :
    s.held chain <+: frameChain s memory left fp := by
  induction linked generalizing left with
  | last fp =>
      by_cases inside : (readFrame memory fp).Inside s
      · obtain ⟨more, rfl⟩ := Nat.exists_eq_add_of_le' few
        have short : fp.toNat + 16 ≠ s.top := below _ (List.mem_singleton_self _) inside
        have guarded : s.guard fp := guard_iff.mpr ⟨started, lt_of_le_of_ne inside.2 short⟩
        rw [held_cons inside, List.length_singleton, frameChain, if_pos guarded]
        exact List.prefix_append [_] _
      · have outside : s.held [readFrame memory fp] = [] := List.filter_cons_of_neg (by simpa using inside)
        rw [outside]
        exact List.nil_prefix
  | @link fp rest increasing linked ih =>
      rw [List.forall_mem_cons] at below
      by_cases inside : (readFrame memory fp).Inside s
      · obtain ⟨more, rfl⟩ := Nat.exists_eq_add_of_le' few
        have guarded : s.guard fp :=
          guard_iff.mpr ⟨started, lt_of_le_of_ne inside.2 (below.1 inside)⟩
        have onward : s.lo.toNat ≤ (memory fp).toNat := started.trans (BitVec.lt_def.mp increasing).le
        rw [held_cons inside, List.length_cons, ← Nat.add_assoc, frameChain_succ guarded increasing]
        exact (List.prefix_cons_inj _).mpr (ih (Nat.le_add_left _ _) onward below.2)
      · have beyond : s.top < fp.toNat + 16 := by
          rw [inside_iff] at inside
          omega
        rw [(Chain.link increasing linked).filter_eq_nil beyond]
        exact List.nil_prefix

theorem Chain.length_lt (linked : Chain memory fp chain) (started : s.lo.toNat ≤ fp.toNat) {top : Frame}
    (member : top ∈ chain) (ends : top.fp.toNat + 16 = s.top) (left : Nat) :
    (frameChain s memory left fp).length < (s.held chain).length := by
  have stops : ∀ {fp}, fp.toNat + 16 = s.top → ∀ left, frameChain s memory left fp = [] := by
    intro fp here
    apply frameChain_unguarded
    rw [guard_iff]
    omega
  induction linked generalizing left with
  | last fp =>
      obtain rfl := List.mem_singleton.mp member
      have inside : (readFrame memory fp).Inside s := ⟨started, ends.le⟩
      rw [stops (show fp.toNat + 16 = s.top from ends), held_cons inside]
      exact Nat.one_pos
  | @link fp rest increasing linked ih =>
      have onward : s.lo.toNat ≤ (memory fp).toNat := started.trans (BitVec.lt_def.mp increasing).le
      rcases List.mem_cons.mp member with rfl | later
      · have inside : (readFrame memory fp).Inside s := ⟨started, ends.le⟩
        rw [stops (show fp.toNat + 16 = s.top from ends), held_cons inside]
        exact Nat.succ_pos _
      · have above := (BitVec.lt_def.mp increasing).trans_le (linked.above top later)
        have guarded : s.guard fp := guard_iff.mpr ⟨started, by omega⟩
        have inside : (readFrame memory fp).Inside s := ⟨started, (guard_iff.mp guarded).2.le⟩
        rw [held_cons inside]
        cases left with
        | zero => exact Nat.succ_pos _
        | succ left =>
            rw [frameChain_succ guarded increasing]
            exact Nat.succ_lt_succ (ih onward later left)

theorem prints_inside_iff (linked : Chain memory fp chain) (few : chain.length ≤ 32) :
    (s.held chain).map Frame.lr <+: (cmdBt s memory fp).map Frame.lr ↔
      ∀ f ∈ chain, f.Inside s → s.lo ≤ fp ∧ f.fp.toNat + 16 ≠ s.top := by
  rw [BitVec.le_def]
  by_cases started : s.lo.toNat ≤ fp.toNat
  · constructor
    · intro printed f member _
      refine ⟨started, fun ends => ?_⟩
      have fewer := linked.length_lt started member ends 32
      have length := printed.length_le
      rw [List.length_map, List.length_map, cmdBt] at length
      omega
    · intro below
      exact (linked.filter_prefix few started fun f member inside => (below f member inside).2).map Frame.lr
  · have nothing : cmdBt s memory fp = [] := frameChain_unguarded (fun guarded => started (guard_iff.mp guarded).1) 32
    rw [nothing, List.map_nil, List.prefix_nil, List.map_eq_nil_iff, Stack.held, List.filter_eq_nil_iff]
    constructor
    · intro outside f member inside
      exact absurd (decide_eq_true inside) (outside f member)
    · intro inside f member covered
      exact started (inside f member (of_decide_eq_true covered)).1

/-- Two records, of which the second takes up the last 16 bytes of the stack. -/
def twoRecords (a : Word) : Word :=
  if a = 0x7fd0 then 0x7ff0
  else if a = 0x7fd8 then 0xaaaa
  else if a = 0x7ff8 then 0xbbbb
  else 0

theorem top_record_not_printed :
    Chain twoRecords 0x7fd0 [readFrame twoRecords 0x7fd0, readFrame twoRecords 0x7ff0] ∧
      ¬ (lowStack.held [readFrame twoRecords 0x7fd0, readFrame twoRecords 0x7ff0]).map Frame.lr <+:
        (cmdBt lowStack twoRecords 0x7fd0).map Frame.lr :=
  ⟨.link (by decide) (.last 0x7ff0), by decide⟩

theorem prints_inside_iff_twoRecords :
    (lowStack.held [readFrame twoRecords 0x7fd0, readFrame twoRecords 0x7ff0]).map Frame.lr <+:
        (cmdBt lowStack twoRecords 0x7fd0).map Frame.lr ↔
      ∀ f ∈ [readFrame twoRecords 0x7fd0, readFrame twoRecords 0x7ff0], f.Inside lowStack →
        lowStack.lo ≤ 0x7fd0 ∧ f.fp.toNat + 16 ≠ lowStack.top :=
  prints_inside_iff (.link (by decide) (.last 0x7ff0)) (by decide)

end LinuxInterview.StackWalk
