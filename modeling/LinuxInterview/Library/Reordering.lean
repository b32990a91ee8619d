import LinuxInterview.Library.Runs

/-!
# Accesses to memory that are performed out of their order
-/

namespace LinuxInterview.Library

inductive MemOrder
  | relaxed
  | seqCst
  deriving DecidableEq, Repr

inductive MemAccess (Loc Val : Type*)
  | load (order : MemOrder) (l : Loc)
  | store (order : MemOrder) (l : Loc) (v : Val)
  | fence
  deriving DecidableEq, Repr

variable {ι κ Loc Val : Type*} [DecidableEq ι] [DecidableEq κ] [DecidableEq Loc]

namespace MemAccess

def place : MemAccess Loc Val → Option Loc
  | load _ l | store _ l _ => some l
  | fence => none

/-- Whether an access stays in front of a later one of the same thread. -/
def keeps : MemAccess Loc Val → MemAccess Loc Val → Bool
  | fence, _ | _, fence | load .seqCst _, _ | _, store .seqCst _ _ => true
  | store .seqCst _ _, load .seqCst _ => true
  | a, b => a.place = b.place

end MemAccess

structure Threads (ι κ Loc Val : Type*) where
  access : ι → κ → Option (MemAccess Loc Val)
  before : κ → κ → Prop

structure Performed (ι κ Loc Val : Type*) where
  memory : Loc → Val
  performed : ι × κ → Bool
  loaded : ι × κ → Option Val

namespace Threads

variable (threads : Threads ι κ Loc Val)

def start (memory : Loc → Val) : Performed ι κ Loc Val where
  memory := memory
  performed _ := false
  loaded _ := none

def permits (s : Performed ι κ Loc Val) (e : ι × κ) : Prop :=
  s.performed e = false ∧ ∃ a, threads.access e.1 e.2 = some a ∧
    ∀ j b, threads.access e.1 j = some b → threads.before j e.2 → b.keeps a = true →
      s.performed (e.1, j) = true

def next (s : Performed ι κ Loc Val) (e : ι × κ) : Performed ι κ Loc Val :=
  match threads.access e.1 e.2 with
  | some (.load _ l) => { s with
      performed := Function.update s.performed e true
      loaded := Function.update s.loaded e (some (s.memory l)) }
  | some (.store _ l v) => { s with
      performed := Function.update s.performed e true
      memory := Function.update s.memory l v }
  | some .fence => { s with performed := Function.update s.performed e true }
  | none => s

abbrev Runs (memory : Loc → Val) := Run (Guarded threads.permits threads.next) (start memory)

variable {threads} {memory : Loc → Val} {events : List (ι × κ)} {s : Performed ι κ Loc Val}

theorem next_performed {e : ι × κ} (there : threads.access e.1 e.2 ≠ none) :
    (threads.next s e).performed = Function.update s.performed e true := by
  unfold next
  split
  · rfl
  · rfl
  · rfl
  · contradiction

theorem next_memory_ne {e : ι × κ} {l : Loc}
    (other : ∀ order v, threads.access e.1 e.2 ≠ some (.store order l v)) :
    (threads.next s e).memory l = s.memory l := by
  unfold next
  split
  · rfl
  · rename_i order l' v here
    have elsewhere : l ≠ l' := by
      rintro rfl
      exact other order v here
    exact Function.update_of_ne elsewhere ..
  · rfl
  · rfl

theorem next_memory_store {e : ι × κ} {order : MemOrder} {l : Loc} {v : Val}
    (here : threads.access e.1 e.2 = some (.store order l v)) : (threads.next s e).memory l = v := by
  simp [next, here]

theorem next_loaded_ne {e f : ι × κ} (other : f ≠ e) : (threads.next s e).loaded f = s.loaded f := by
  unfold next
  split
  · exact Function.update_of_ne other ..
  · rfl
  · rfl
  · rfl

theorem next_loaded {e : ι × κ} {order : MemOrder} {l : Loc}
    (here : threads.access e.1 e.2 = some (.load order l)) :
    (threads.next s e).loaded e = some (s.memory l) := by
  simp [next, here]

theorem performed_iff (run : threads.Runs memory events s) (e : ι × κ) :
    s.performed e = true ↔ e ∈ events := by
  induction run with
  | nil => simp [start]
  | @snoc events before after f run action ih =>
      obtain ⟨⟨-, a, here, -⟩, rfl⟩ := action
      rw [next_performed (by simp [here]), List.mem_append, List.mem_singleton, ← ih]
      rcases eq_or_ne e f with rfl | other
      · simp
      · simp [other]

theorem not_mem_of_snoc {e : ι × κ} (run : threads.Runs memory (events ++ [e]) s) : e ∉ events := by
  obtain ⟨before, earlier, ⟨fresh, -⟩, -⟩ := Run.snoc_iff.mp run
  rw [← performed_iff earlier, fresh]
  exact Bool.false_ne_true

/-- What stays in front of an access has been performed when the access is. -/
theorem kept {before after : List (ι × κ)} {t : ι} {j k : κ} {a b : MemAccess Loc Val}
    (run : threads.Runs memory (before ++ (t, k) :: after) s) (first : threads.access t j = some b)
    (second : threads.access t k = some a) (order : threads.before j k) (keeps : b.keeps a = true) :
    (t, j) ∈ before := by
  rw [← List.singleton_append, ← List.append_assoc] at run
  obtain ⟨_, here, -⟩ := Run.split run
  obtain ⟨_, earlier, ⟨-, c, same, ready⟩, -⟩ := Run.snoc_iff.mp here
  cases second.symm.trans same
  rw [← performed_iff earlier]
  exact ready j b first order keeps

/-- A load gives what the memory holds when it is performed. -/
theorem loaded_eq {before after : List (ι × κ)} {e : ι × κ} {order : MemOrder} {l : Loc}
    (run : threads.Runs memory (before ++ e :: after) s)
    (here : threads.access e.1 e.2 = some (.load order l)) :
    ∃ middle, threads.Runs memory before middle ∧ s.loaded e = some (middle.memory l) := by
  induction after using List.reverseRecOn generalizing s with
  | nil =>
      obtain ⟨middle, earlier, -, rfl⟩ := Run.snoc_iff.mp run
      exact ⟨middle, earlier, next_loaded here⟩
  | append_singleton after f ih =>
      rw [← List.cons_append, ← List.append_assoc] at run
      have fresh := not_mem_of_snoc run
      obtain ⟨last, earlier, -, rfl⟩ := Run.snoc_iff.mp run
      obtain ⟨middle, first, loaded⟩ := ih earlier
      have other : e ≠ f := by
        rintro rfl
        simp at fresh
      exact ⟨middle, first, by rw [next_loaded_ne other, loaded]⟩

/-- A place that is written in one way only holds what is written once that is done. -/
theorem memory_eq {l : Loc} {v : Val} {e : ι × κ} (run : threads.Runs memory events s)
    (writes : ∃ order, threads.access e.1 e.2 = some (.store order l v))
    (only : ∀ f order w, threads.access f.1 f.2 = some (.store order l w) → f = e) :
    s.memory l = if s.performed e = true then v else memory l := by
  induction run with
  | nil => simp [start]
  | @snoc events before after f run action ih =>
      obtain ⟨⟨-, a, here, -⟩, rfl⟩ := action
      rw [next_performed (by simp [here])]
      rcases eq_or_ne f e with rfl | other
      · obtain ⟨order, stores⟩ := writes
        simp [next_memory_store stores]
      · rw [next_memory_ne fun order w stores => other (only f order w stores), ih,
          Function.update_of_ne other.symm]

/-- Accesses are performed in any order in which each comes once and after all that stays in front of it. -/
theorem extend {more : List (ι × κ)} (run : threads.Runs memory events s)
    (ready : ∀ before e after, more = before ++ e :: after → e ∉ events ++ before ∧
      ∃ a, threads.access e.1 e.2 = some a ∧ ∀ j b, threads.access e.1 j = some b →
        threads.before j e.2 → b.keeps a = true → (e.1, j) ∈ events ++ before) :
    ∃ after, threads.Runs memory (events ++ more) after := by
  induction more using List.reverseRecOn with
  | nil => exact ⟨s, by simpa using run⟩
  | append_singleton more e ih =>
      obtain ⟨middle, earlier⟩ := ih fun before f after split =>
        ready before f (after ++ [e]) (by simp [split])
      obtain ⟨fresh, a, here, order⟩ := ready more e [] rfl
      rw [← List.append_assoc]
      refine ⟨_, .snoc earlier ⟨⟨?_, a, here, ?_⟩, rfl⟩⟩
      · rw [← Bool.not_eq_true, performed_iff earlier]
        exact fresh
      · intro j b first inFront keeps
        exact (performed_iff earlier _).mpr (order j b first inFront keeps)

end Threads

end LinuxInterview.Library
