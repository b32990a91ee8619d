import LinuxInterview.Library.Runs

/-!
# Runs that work only so long

A rank that no step raises and every working step lowers bounds the work of a whole run, however the parties
are scheduled.
-/

namespace LinuxInterview.Library

variable {σ ε : Type*} (next : σ → ε → Option σ) (works : σ → ε → Bool)

/-- The number of working steps among the events, replayed from a state. -/
def effort : σ → List ε → Nat
  | _, [] => 0
  | s, event :: events => (works s event).toNat + (next s event).elim 0 fun after => effort after events

structure Ranks (Inv : σ → Prop) (rank : σ → Nat) : Prop where
  keeps : ∀ before event after, Inv before → Fires next before event after → Inv after
  falls : ∀ before event after, Inv before → Fires next before event after →
    rank after + (works before event).toNat ≤ rank before

variable {next works} {Inv : σ → Prop} {rank : σ → Nat}

theorem Ranks.effort_le (ranks : Ranks next works Inv rank) {events : List ε} {init state : σ} (inv : Inv init)
    (run : Run (Fires next) init events state) : effort next works init events + rank state ≤ rank init := by
  have replay := foldlM_of_run run
  clear run
  induction events generalizing init with
  | nil =>
      cases replay
      exact (Nat.zero_add _).le
  | cons event events ih =>
      rw [List.foldlM_cons] at replay
      obtain ⟨first, action, rest⟩ := Option.bind_eq_some_iff.mp replay
      have later := ih (ranks.keeps _ _ _ inv action) rest
      have now := ranks.falls _ _ _ inv action
      rw [effort, action, Option.elim_some]
      omega

/-- Where every step is work, the rank bounds the length of a run. -/
theorem Ranks.length_le (ranks : Ranks next (fun _ _ => true) Inv rank) {events : List ε} {init state : σ}
    (inv : Inv init) (run : Run (Fires next) init events state) : events.length + rank state ≤ rank init := by
  induction run with
  | nil => exact (Nat.zero_add _).le
  | snoc previous action ih =>
      have holds := previous.invariant Inv inv ranks.keeps
      have falls := ranks.falls _ _ _ holds action
      rw [List.length_append, List.length_singleton]
      simp only [Bool.toNat_true] at falls
      omega

/-- A sum of ranks in which one changes. -/
theorem sum_update_add {ι α : Type*} [DecidableEq ι] (f : α → ℕ) (a : ι → α) {s : Finset ι} {i : ι} (member : i ∈ s)
    (x : α) : ∑ j ∈ s, f (Function.update a i x j) + f (a i) = ∑ j ∈ s, f (a j) + f x := by
  have rest : ∑ j ∈ s.erase i, f (Function.update a i x j) = ∑ j ∈ s.erase i, f (a j) :=
    Finset.sum_congr rfl fun j other => by rw [Function.update_of_ne (Finset.ne_of_mem_erase other)]
  rw [← Finset.add_sum_erase s _ member, ← Finset.add_sum_erase s (fun j => f (a j)) member, rest,
    Function.update_self]
  omega

end LinuxInterview.Library
