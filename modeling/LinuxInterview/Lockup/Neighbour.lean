import LinuxInterview.Library.Successor

/-!
# Which CPU checks which
-/

namespace LinuxInterview.Lockup
open Library

structure CpuMask where
  nrCpuIds : Nat
  online : Nat → Bool

namespace CpuMask

def onlineCpus (mask : CpuMask) : List Nat := (List.range mask.nrCpuIds).filter mask.online

def findNextBit (mask : CpuMask) (start : Nat) : Nat :=
  (mask.onlineCpus.find? (start ≤ ·)).getD mask.nrCpuIds

def cpumaskNext (mask : CpuMask) (cpu : Nat) : Nat := mask.findNextBit (cpu + 1)

def cpumaskFirst (mask : CpuMask) : Nat := mask.findNextBit 0

def nextCpuOf (mask : CpuMask) (cpu : Nat) : Nat :=
  let next := mask.cpumaskNext cpu
  let next := if next ≥ mask.nrCpuIds then mask.cpumaskFirst else next
  if next = cpu then mask.nrCpuIds else next

variable {mask : CpuMask} {cpu : Nat}

theorem lt_of_mem_onlineCpus (member : cpu ∈ mask.onlineCpus) : cpu < mask.nrCpuIds :=
  List.mem_range.mp (List.mem_of_mem_filter member)

theorem onlineCpus_sorted (mask : CpuMask) : mask.onlineCpus.Pairwise (· < ·) :=
  List.pairwise_lt_range.filter _

theorem cpumaskFirst_eq (mask : CpuMask) : mask.cpumaskFirst = mask.onlineCpus.head?.getD mask.nrCpuIds := by
  rw [cpumaskFirst, findNextBit]
  cases mask.onlineCpus <;> rfl

theorem cpumaskNext_eq (mask : CpuMask) (cpu : Nat) :
    mask.cpumaskNext cpu = (mask.onlineCpus.find? (cpu < ·)).getD mask.nrCpuIds := rfl

theorem wrapped_eq_successor (mask : CpuMask) (cpu : Nat) :
    (if mask.cpumaskNext cpu ≥ mask.nrCpuIds then mask.cpumaskFirst else mask.cpumaskNext cpu) =
      (successor mask.onlineCpus cpu).getD mask.nrCpuIds := by
  rw [cpumaskFirst_eq, cpumaskNext_eq, successor]
  cases found : mask.onlineCpus.find? (cpu < ·) with
  | none => simp
  | some next =>
      have below := lt_of_mem_onlineCpus (List.mem_of_find?_eq_some found)
      simp [below]

theorem nextCpuOf_eq_formPerm (several : 2 ≤ mask.onlineCpus.length) (member : cpu ∈ mask.onlineCpus) :
    mask.nextCpuOf cpu = mask.onlineCpus.formPerm cpu := by
  have moved : mask.onlineCpus.formPerm cpu ≠ cpu :=
    (List.formPerm_apply_mem_ne_self_iff _ mask.onlineCpus_sorted.nodup cpu member).mpr several
  rw [nextCpuOf, wrapped_eq_successor, successor_eq_formPerm mask.onlineCpus_sorted member]
  exact if_neg moved

theorem nextCpuOf_ne (several : 2 ≤ mask.onlineCpus.length) (member : cpu ∈ mask.onlineCpus) :
    mask.nextCpuOf cpu ≠ cpu := by
  rw [nextCpuOf_eq_formPerm several member]
  exact (List.formPerm_apply_mem_ne_self_iff _ mask.onlineCpus_sorted.nodup cpu member).mpr several

theorem nextCpuOf_mem (several : 2 ≤ mask.onlineCpus.length) (member : cpu ∈ mask.onlineCpus) :
    mask.nextCpuOf cpu ∈ mask.onlineCpus := by
  rw [nextCpuOf_eq_formPerm several member]
  exact List.formPerm_apply_mem_of_mem member

theorem existsUnique_checker (several : 2 ≤ mask.onlineCpus.length) (member : cpu ∈ mask.onlineCpus) :
    ∃ checker ∈ mask.onlineCpus, ∀ other ∈ mask.onlineCpus, mask.nextCpuOf other = cpu ↔ other = checker := by
  have back : mask.onlineCpus.formPerm (mask.onlineCpus.formPerm.symm cpu) = cpu :=
    Equiv.apply_symm_apply _ _
  refine ⟨mask.onlineCpus.formPerm.symm cpu, ?_, fun other online => ?_⟩
  · apply List.mem_of_formPerm_apply_mem
    rwa [back]
  · rw [nextCpuOf_eq_formPerm several online]
    exact (Equiv.eq_symm_apply _).symm

theorem nextCpuOf_bijOn (several : 2 ≤ mask.onlineCpus.length) :
    Set.BijOn mask.nextCpuOf {cpu | cpu ∈ mask.onlineCpus} {cpu | cpu ∈ mask.onlineCpus} := by
  have cycle := mask.onlineCpus_sorted.nodup.isCycleOn_formPerm
  exact cycle.1.congr fun cpu online => (nextCpuOf_eq_formPerm several online).symm

theorem iterate_nextCpuOf (several : 2 ≤ mask.onlineCpus.length) (member : cpu ∈ mask.onlineCpus) (k : Nat) :
    mask.nextCpuOf^[k] cpu = (mask.onlineCpus.formPerm ^ k) cpu := by
  induction k with
  | zero => rfl
  | succ k ih =>
      have online : (mask.onlineCpus.formPerm ^ k) cpu ∈ mask.onlineCpus := by
        rw [← ih]
        exact Set.MapsTo.iterate (nextCpuOf_bijOn several).mapsTo k member
      rw [Function.iterate_succ_apply', ih, nextCpuOf_eq_formPerm several online, pow_succ', Equiv.Perm.mul_apply]

theorem nextCpuOf_single (alone : mask.onlineCpus = [cpu]) : mask.nextCpuOf cpu = mask.nrCpuIds := by
  have member : cpu ∈ mask.onlineCpus := by rw [alone]; exact List.mem_singleton_self cpu
  have back := successor_eq_formPerm mask.onlineCpus_sorted member
  rw [nextCpuOf, wrapped_eq_successor, back, alone, List.formPerm_singleton]
  exact if_pos rfl

theorem neighbours_form_one_ring (mask : CpuMask) :
    (2 ≤ mask.onlineCpus.length →
      Set.BijOn mask.nextCpuOf {cpu | cpu ∈ mask.onlineCpus} {cpu | cpu ∈ mask.onlineCpus} ∧
      (∀ cpu ∈ mask.onlineCpus, mask.nextCpuOf cpu ≠ cpu) ∧
      ∀ cpu ∈ mask.onlineCpus, ∀ other ∈ mask.onlineCpus,
        ∃ k < mask.onlineCpus.length, mask.nextCpuOf^[k] cpu = other) ∧
    ∀ cpu, mask.onlineCpus = [cpu] → mask.nextCpuOf cpu = mask.nrCpuIds := by
  refine ⟨fun several => ⟨nextCpuOf_bijOn several, fun cpu online => nextCpuOf_ne several online, ?_⟩,
    fun cpu => nextCpuOf_single⟩
  intro cpu online other present
  have cycle := mask.onlineCpus_sorted.nodup.isCycleOn_formPerm
  rw [← List.coe_toFinset] at cycle
  obtain ⟨k, below, reached⟩ := cycle.exists_pow_eq (List.mem_toFinset.mpr online) (List.mem_toFinset.mpr present)
  rw [List.toFinset_card_of_nodup mask.onlineCpus_sorted.nodup] at below
  exact ⟨k, below, by rw [iterate_nextCpuOf several online, reached]⟩

/-- CPU 1 of four is offline. -/
def sparseMask : CpuMask := ⟨4, fun cpu => cpu ≠ 1⟩

theorem neighbours_form_one_ring_sparse :
    (∃ k < 3, sparseMask.nextCpuOf^[k] 2 = 0) ∧ CpuMask.nextCpuOf ⟨4, fun cpu => cpu = 2⟩ 2 = 4 :=
  ⟨((neighbours_form_one_ring sparseMask).1 (by decide)).2.2 2 (by decide) 0 (by decide),
    (neighbours_form_one_ring ⟨4, fun cpu => cpu = 2⟩).2 2 (by decide)⟩

end CpuMask

end LinuxInterview.Lockup
