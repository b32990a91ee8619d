import Mathlib.Tactic

/-!
# A first-come first-served readers-writer lock

A party that wants the lock queues, and the head of the queue takes it as soon as those who hold it let it in.
-/

namespace LinuxInterview.Library

inductive Access
  | read
  | write
  deriving DecidableEq, Repr

structure RwSem (ι : Type*) where
  writer : Option ι
  readers : Finset ι
  queue : List (ι × Access)
  exclusive : writer = none ∨ readers = ∅

/-- Where a party is with the lock. -/
inductive Standing
  | outside
  | waiting (a : Access)
  | holding (a : Access)
  deriving DecidableEq, Repr

namespace RwSem

variable {ι : Type*}

def free : RwSem ι := ⟨none, ∅, [], .inl rfl⟩

def enqueue (s : RwSem ι) (i : ι) (a : Access) : RwSem ι := { s with queue := s.queue ++ [(i, a)] }

variable [DecidableEq ι]

def take (s : RwSem ι) (i : ι) : Option (RwSem ι) :=
  match s.queue with
  | [] => none
  | (j, .write) :: rest =>
      if i = j ∧ s.writer = none ∧ s.readers = ∅ then some ⟨some i, ∅, rest, .inr rfl⟩ else none
  | (j, .read) :: rest =>
      if i = j ∧ s.writer = none then some ⟨none, insert i s.readers, rest, .inl rfl⟩ else none

def release (s : RwSem ι) (i : ι) : Access → RwSem ι
  | .write => ⟨none, s.readers, s.queue, .inl rfl⟩
  | .read => ⟨s.writer, s.readers.erase i, s.queue, s.exclusive.imp_right fun empty => by rw [empty]; rfl⟩

/-- A party that waits leaves the queue without the lock. -/
def giveUp (s : RwSem ι) (i : ι) : RwSem ι := { s with queue := s.queue.filter fun entry => entry.1 ≠ i }

/-- The lock is held by the parties that say so, and those queue that wait for it. -/
structure Agrees (s : RwSem ι) (standing : ι → Standing) : Prop where
  writer : ∀ i, s.writer = some i ↔ standing i = .holding .write
  readers : ∀ i, i ∈ s.readers ↔ standing i = .holding .read
  queue : ∀ i a, (i, a) ∈ s.queue ↔ standing i = .waiting a
  once : (s.queue.map Prod.fst).Nodup

variable {s s' : RwSem ι} {i : ι}

theorem take_cases (taken : s.take i = some s') :
    ∃ rest,
      (s.queue = (i, .write) :: rest ∧ s.writer = none ∧ s.readers = ∅ ∧ s' = ⟨some i, ∅, rest, .inr rfl⟩) ∨
        s.queue = (i, .read) :: rest ∧ s.writer = none ∧
          s' = ⟨none, insert i s.readers, rest, .inl rfl⟩ := by
  unfold take at taken
  split at taken
  · cases taken
  · rename_i j rest queue
    split at taken
    · rename_i granted
      obtain ⟨rfl, none, empty⟩ := granted
      exact ⟨rest, .inl ⟨queue, none, empty, (Option.some.inj taken).symm⟩⟩
    · cases taken
  · rename_i j rest queue
    split at taken
    · rename_i granted
      obtain ⟨rfl, none⟩ := granted
      exact ⟨rest, .inr ⟨queue, none, (Option.some.inj taken).symm⟩⟩
    · cases taken

namespace Agrees

variable {standing : ι → Standing} {a : Access}

omit [DecidableEq ι] in
theorem free (outside : ∀ i, standing i = .outside) : Agrees RwSem.free standing where
  writer i := by simp [RwSem.free, outside]
  readers i := by simp [RwSem.free, outside]
  queue i a := by simp [RwSem.free, outside]
  once := List.nodup_nil

theorem enqueue (agrees : Agrees s standing) (outside : standing i = .outside) (a : Access) :
    Agrees (s.enqueue i a) (Function.update standing i (.waiting a)) where
  writer j := by
    rcases eq_or_ne j i with rfl | other
    · simp [RwSem.enqueue, agrees.writer, outside]
    · simp [RwSem.enqueue, agrees.writer, other]
  readers j := by
    rcases eq_or_ne j i with rfl | other
    · simp [RwSem.enqueue, agrees.readers, outside]
    · simp [RwSem.enqueue, agrees.readers, other]
  queue j b := by
    rcases eq_or_ne j i with rfl | other
    · simp [RwSem.enqueue, agrees.queue, outside, eq_comm]
    · simp [RwSem.enqueue, agrees.queue, other]
  once := by
    have absent : i ∉ s.queue.map Prod.fst := by
      intro member
      obtain ⟨⟨_, b⟩, queued, rfl⟩ := List.mem_map.mp member
      rw [agrees.queue, outside] at queued
      contradiction
    rw [RwSem.enqueue, List.map_append, List.map_singleton]
    exact agrees.once.append (List.nodup_singleton i) (by simpa using absent)

theorem tail {rest : List (ι × Access)} (agrees : Agrees s standing) (queue : s.queue = (i, a) :: rest) :
    (∀ j b, (j, b) ∈ rest ↔ Function.update standing i (.holding a) j = .waiting b) ∧
      (rest.map Prod.fst).Nodup := by
  have once := agrees.once
  rw [queue] at once
  obtain ⟨absent, once⟩ := List.nodup_cons.mp once
  refine ⟨fun j b => ?_, once⟩
  rcases eq_or_ne j i with rfl | other
  · have gone : (j, b) ∉ rest := fun member => absent (List.mem_map.mpr ⟨_, member, rfl⟩)
    simp [gone]
  · rw [Function.update_of_ne other, ← agrees.queue, queue]
    simp [other]

theorem take (agrees : Agrees s standing) (taken : s.take i = some s') :
    ∃ a, standing i = .waiting a ∧ Agrees s' (Function.update standing i (.holding a)) := by
  obtain ⟨rest, ⟨queue, none, empty, rfl⟩ | ⟨queue, none, rfl⟩⟩ := take_cases taken
  · have waiting : standing i = .waiting .write := (agrees.queue i .write).mp (queue ▸ List.mem_cons_self)
    obtain ⟨others, once⟩ := agrees.tail queue
    refine ⟨.write, waiting, ?_, ?_, others, once⟩
    · intro j
      have alone : standing j ≠ .holding .write := by simp [← agrees.writer, none]
      rcases eq_or_ne j i with rfl | other
      · simp
      · simp [other, alone, Ne.symm other]
    · intro j
      have nobody : standing j ≠ .holding .read := by simp [← agrees.readers, empty]
      rcases eq_or_ne j i with rfl | other
      · simp
      · simp [other, nobody]
  · have waiting : standing i = .waiting .read := (agrees.queue i .read).mp (queue ▸ List.mem_cons_self)
    obtain ⟨others, once⟩ := agrees.tail queue
    refine ⟨.read, waiting, ?_, ?_, others, once⟩
    · intro j
      have nobody : standing j ≠ .holding .write := by simp [← agrees.writer, none]
      rcases eq_or_ne j i with rfl | other
      · simp
      · simp [other, nobody]
    · intro j
      rcases eq_or_ne j i with rfl | other
      · simp
      · simp [other, agrees.readers]

theorem release (agrees : Agrees s standing) (holding : standing i = .holding a) :
    Agrees (s.release i a) (Function.update standing i .outside) := by
  have queue j b : (j, b) ∈ s.queue ↔ Function.update standing i .outside j = .waiting b := by
    rcases eq_or_ne j i with rfl | other
    · simp [agrees.queue, holding]
    · simp [agrees.queue, other]
  cases a with
  | write =>
      have mine := (agrees.writer i).mpr holding
      refine ⟨?_, ?_, queue, agrees.once⟩
      · intro j
        rcases eq_or_ne j i with rfl | other
        · simp [RwSem.release]
        · simp [RwSem.release, other, ← agrees.writer, mine, Ne.symm other]
      · intro j
        rcases eq_or_ne j i with rfl | other
        · simp [RwSem.release, agrees.readers, holding]
        · simp [RwSem.release, agrees.readers, other]
  | read =>
      refine ⟨?_, ?_, queue, agrees.once⟩
      · intro j
        rcases eq_or_ne j i with rfl | other
        · simp [RwSem.release, agrees.writer, holding]
        · simp [RwSem.release, agrees.writer, other]
      · intro j
        rcases eq_or_ne j i with rfl | other
        · simp [RwSem.release]
        · simp [RwSem.release, agrees.readers, other]

theorem giveUp (agrees : Agrees s standing) (waiting : standing i = .waiting a) :
    Agrees (s.giveUp i) (Function.update standing i .outside) where
  writer j := by
    rcases eq_or_ne j i with rfl | other
    · simp [RwSem.giveUp, agrees.writer, waiting]
    · simp [RwSem.giveUp, agrees.writer, other]
  readers j := by
    rcases eq_or_ne j i with rfl | other
    · simp [RwSem.giveUp, agrees.readers, waiting]
    · simp [RwSem.giveUp, agrees.readers, other]
  queue j b := by
    rcases eq_or_ne j i with rfl | other
    · simp [RwSem.giveUp]
    · simp [RwSem.giveUp, agrees.queue, other]
  once := agrees.once.sublist (List.filter_sublist.map Prod.fst)

/-- With nobody holding the lock the head of the queue can take it. -/
theorem exists_take (agrees : Agrees s standing) (nobody : ∀ j b, standing j ≠ .holding b)
    (waiting : standing i = .waiting a) : ∃ j s', s.take j = some s' := by
  have none : s.writer = none :=
    Option.eq_none_iff_forall_ne_some.mpr fun j held => nobody j .write ((agrees.writer j).mp held)
  have empty : s.readers = ∅ :=
    Finset.eq_empty_of_forall_notMem fun j held => nobody j .read ((agrees.readers j).mp held)
  have queued := (agrees.queue i a).mpr waiting
  unfold RwSem.take
  split
  · rename_i nil
    rw [nil] at queued
    cases queued
  · exact ⟨_, _, if_pos ⟨rfl, none, empty⟩⟩
  · exact ⟨_, _, if_pos ⟨rfl, none⟩⟩

omit [DecidableEq ι] in
theorem eq_free (agrees : Agrees s standing) (outside : ∀ i, standing i = .outside) : s = .free := by
  obtain ⟨writer, readers, queue, once⟩ := agrees
  simp only [outside, reduceCtorEq, iff_false] at writer readers queue
  have none : s.writer = none := Option.eq_none_iff_forall_ne_some.mpr writer
  have empty : s.readers = ∅ := Finset.eq_empty_of_forall_notMem readers
  have idle : s.queue = [] := List.eq_nil_iff_forall_not_mem.mpr fun entry => queue entry.1 entry.2
  cases s
  simp_all [RwSem.free]

end Agrees

end RwSem

end LinuxInterview.Library
