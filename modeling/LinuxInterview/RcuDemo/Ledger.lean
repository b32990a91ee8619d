import LinuxInterview.Library.GracePeriod

/-!
# The ledger of the published objects

Objects are published in the order of their numbers, each is retired when the next one takes its
place, and callbacks free the retired ones in any order.
-/

namespace LinuxInterview.RcuDemo
open Library

def objects (pending : List (Retired Nat Nat)) : List Nat := pending.map Retired.object

def Reclaimed (pending : List (Retired Nat Nat)) (retired : Nat) (last : Option Nat) (x : Nat) : Prop :=
  (x < retired ∧ x ∉ objects pending) ∨ last = some x

structure Ledger (frees : Nat → Nat) (pending : List (Retired Nat Nat)) (retired : Nat)
    (nrFreed : Int32) (last : Option Nat) : Prop where
  distinct : (objects pending).Nodup
  unlinked : ∀ x ∈ objects pending, x < retired
  newest : ∀ x, last = some x → x = retired
  once : ∀ x, Reclaimed pending retired last x → frees x = 1
  never : ∀ x, ¬ Reclaimed pending retired last x → frees x = 0
  counted : nrFreed + Int32.ofNat pending.length = Int32.ofNat retired

variable {frees : Nat → Nat} {pending : List (Retired Nat Nat)} {retired : Nat} {nrFreed : Int32}
  {last : Option Nat}

theorem Ledger.empty : Ledger (fun _ => 0) [] 0 0 none := by
  constructor
  all_goals simp [objects, Reclaimed]

theorem reclaimed_retire (period : GracePeriod Nat) (x : Nat) :
    Reclaimed (pending ++ [⟨retired, period⟩]) (retired + 1) none x ↔
      Reclaimed pending retired none x := by
  simp only [Reclaimed, objects, List.map_append, List.map_cons, List.map_nil, List.mem_append,
    List.mem_singleton, reduceCtorEq, or_false]
  constructor
  · intro ⟨below, outside⟩
    exact ⟨by omega, fun member => outside (Or.inl member)⟩
  · intro ⟨below, outside⟩
    exact ⟨by omega, fun either => either.elim outside fun newest => by omega⟩

theorem Ledger.retire (inv : Ledger frees pending retired nrFreed none) (period : GracePeriod Nat) :
    Ledger frees (pending ++ [⟨retired, period⟩]) (retired + 1) nrFreed none where
  distinct := by
    rw [objects, List.map_append, List.nodup_append]
    refine ⟨inv.distinct, List.nodup_singleton _, fun x member y newest => ?_⟩
    have below := inv.unlinked x member
    have same : y = retired := List.mem_singleton.mp newest
    omega
  unlinked := by
    rw [objects, List.map_append, List.forall_mem_append]
    refine ⟨fun x member => Nat.lt_succ_of_lt (inv.unlinked x member), ?_⟩
    exact List.forall_mem_singleton.mpr (Nat.lt_succ_self _)
  newest := by simp
  once := by
    intro x reclaimed
    exact inv.once x ((reclaimed_retire period x).mp reclaimed)
  never := by
    intro x kept
    exact inv.never x (fun reclaimed => kept ((reclaimed_retire period x).mpr reclaimed))
  counted := by
    rw [List.length_append, List.length_singleton, Int32.ofNat_add, Int32.ofNat_add, ← inv.counted,
      Int32.add_assoc]

theorem mem_objects_eraseIdx (distinct : (objects pending).Nodup) {k : Nat} (inside : k < pending.length)
    (x : Nat) : x ∈ objects (pending.eraseIdx k) ↔ x ≠ pending[k].object ∧ x ∈ objects pending := by
  have position : k < (objects pending).length := by simpa [objects] using inside
  have object : (objects pending)[k] = pending[k].object := by simp [objects]
  have erased : objects (pending.eraseIdx k) = (objects pending).erase pending[k].object := by
    rw [← object, distinct.erase_getElem, objects, objects, List.eraseIdx_map]
  rw [erased, distinct.mem_erase_iff]

theorem Ledger.callback (inv : Ledger frees pending retired nrFreed last) {k : Nat}
    {r : Retired Nat Nat} (found : pending[k]? = some r) :
    Ledger (Function.update frees r.object (frees r.object + 1)) (pending.eraseIdx k) retired
      (nrFreed + 1) last := by
  obtain ⟨inside, rfl⟩ := List.getElem?_eq_some_iff.mp found
  have member : pending[k].object ∈ objects pending := List.mem_map_of_mem (List.getElem_mem inside)
  have below := inv.unlinked _ member
  have remains := mem_objects_eraseIdx inv.distinct inside
  have fresh : frees pending[k].object = 0 := by
    apply inv.never
    rintro (⟨_, outside⟩ | newest)
    · exact outside member
    · exact absurd (inv.newest _ newest) below.ne
  have others : ∀ x, x ≠ pending[k].object →
      (Reclaimed (pending.eraseIdx k) retired last x ↔ Reclaimed pending retired last x) := by
    intro x other
    rw [Reclaimed, remains, Reclaimed]
    simp [other]
  constructor
  case distinct =>
    rw [objects, ← List.eraseIdx_map]
    exact inv.distinct.eraseIdx k
  case unlinked =>
    intro x rest
    exact inv.unlinked x ((remains x).mp rest).2
  case newest => exact inv.newest
  case once =>
    intro x reclaimed
    by_cases same : x = pending[k].object
    · rw [same, Function.update_self, fresh]
    · rw [Function.update_of_ne same]
      exact inv.once x ((others x same).mp reclaimed)
  case never =>
    intro x kept
    by_cases same : x = pending[k].object
    · exact absurd (Or.inl ⟨same ▸ below, fun rest => ((remains x).mp rest).1 same⟩) kept
    · rw [Function.update_of_ne same]
      exact inv.never x (fun reclaimed => kept ((others x same).mpr reclaimed))
  case counted =>
    have shorter : (pending.eraseIdx k).length + 1 = pending.length := by
      rw [List.length_eraseIdx_of_lt inside]
      omega
    rw [← inv.counted, ← shorter, Int32.ofNat_add, Int32.add_assoc, Int32.add_comm 1]
    rfl

theorem Ledger.freeLast (inv : Ledger frees pending retired nrFreed none) :
    Ledger (Function.update frees retired (frees retired + 1)) pending retired nrFreed (some retired) := by
  have fresh : frees retired = 0 := by
    apply inv.never
    rintro (⟨below, _⟩ | none)
    · exact below.false
    · cases none
  constructor
  case distinct => exact inv.distinct
  case unlinked => exact inv.unlinked
  case newest => simp
  case once =>
    intro x reclaimed
    by_cases same : x = retired
    · rw [same, Function.update_self, fresh]
    · rw [Function.update_of_ne same]
      apply inv.once x
      rcases reclaimed with freed | newest
      · exact Or.inl freed
      · exact absurd (Option.some.inj newest).symm same
  case never =>
    intro x kept
    by_cases same : x = retired
    · exact absurd (Or.inr (same ▸ rfl)) kept
    · rw [Function.update_of_ne same]
      exact inv.never x fun reclaimed => kept (reclaimed.imp_right fun none => by cases none)
  case counted => exact inv.counted

end LinuxInterview.RcuDemo
