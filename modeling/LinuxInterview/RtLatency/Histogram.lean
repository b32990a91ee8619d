import Mathlib.Data.Nat.Size
import LinuxInterview.Library.Tally

/-!
# The histogram of `rt_latency.c`
-/

namespace LinuxInterview.RtLatency
open LinuxInterview.Library

abbrev NBUCKET : Nat := 24

/-- `while (v && b < NBUCKET - 1) { v >>= 1; b++; }`, with `room` the buckets left above `b`. -/
def shifts : Nat → Nat → Nat → Nat
  | 0, _, b => b
  | room + 1, v, b => if v = 0 then b else shifts room (v >>> 1) (b + 1)

/-- A shift takes one bit off, until the bits or the buckets run out. -/
theorem shifts_eq (room v b : Nat) : shifts room v b = b + min v.size room := by
  induction room generalizing v b with
  | zero => simp [shifts]
  | succ room ih =>
      by_cases zero : v = 0
      · simp [shifts, zero]
      · have bits : v.size = (v >>> 1).size + 1 := by
          conv_lhs => rw [← Nat.bit_decide_mod_two_eq_one_shiftRight_one v]
          apply Nat.size_bit
          rwa [Nat.bit_decide_mod_two_eq_one_shiftRight_one]
        rw [shifts, if_neg zero, ih, bits]
        omega

def bucket (lat : Nat) : Fin NBUCKET :=
  ⟨shifts (NBUCKET - 1) (lat / 1000) 0, by
    rw [shifts_eq, Nat.zero_add]
    exact Nat.lt_succ_of_le (Nat.min_le_right _ _)⟩

structure Samples where
  samples : List Nat
  min : Nat
  max : Nat
  sum : Nat
  hist : Fin NBUCKET → Nat

namespace Samples

def start : Samples := ⟨[], 2 ^ 60, 0, 0, 0⟩

/-- One turn of the loop, where `diff` is what `ts_diff_ns` gave. -/
def add (s : Samples) (diff : Int) : Samples :=
  let lat := diff.toNat
  { samples := s.samples ++ [lat]
    min := if lat < s.min then lat else s.min
    max := if s.max < lat then lat else s.max
    sum := s.sum + lat
    hist := Function.update s.hist (bucket lat) (s.hist (bucket lat) + 1) }

def measured (diffs : List Int) : Samples := diffs.foldl add start

end Samples

structure Line where
  lo : Nat
  hi : Nat
  count : Nat
  deriving DecidableEq, Repr

/-- The loop that prints, over the buckets still ahead. -/
def printFrom (hist : Fin NBUCKET → Nat) : List (Fin NBUCKET) → Nat → List (Fin NBUCKET × Line)
  | [], _ => []
  | j :: rest, k =>
      if hist j ≠ 0 then
        (j, ⟨if j ≠ 0 then k / 2 else 0, k, hist j⟩) :: printFrom hist rest (k <<< 1)
      else printFrom hist rest (k <<< 1)

def printed (hist : Fin NBUCKET → Nat) : List (Fin NBUCKET × Line) :=
  printFrom hist (List.finRange NBUCKET) 1

theorem bucket_val (lat : Nat) : (bucket lat).val = min (lat / 1000).size (NBUCKET - 1) :=
  (shifts_eq _ _ 0).trans (Nat.zero_add _)

/-! ## What the loop has counted -/

theorem measured_concat (diffs : List Int) (diff : Int) :
    Samples.measured (diffs ++ [diff]) = (Samples.measured diffs).add diff :=
  List.foldl_concat _ _ _ _

theorem measured_samples (diffs : List Int) :
    (Samples.measured diffs).samples = diffs.map Int.toNat := by
  induction diffs using List.reverseRecOn with
  | nil => rfl
  | append_singleton diffs diff ih =>
      rw [measured_concat, Samples.add, ih, List.map_append, List.map_singleton]

theorem measured_hist (diffs : List Int) :
    (Samples.measured diffs).hist = tally bucket (Samples.measured diffs).samples := by
  induction diffs using List.reverseRecOn with
  | nil => rfl
  | append_singleton diffs diff ih => rw [measured_concat, Samples.add, tally_concat, ih]

/-- What is printed under `min`, `avg` and `max` is of the samples. -/
theorem measured_summary (diffs : List Int) :
    (Samples.measured diffs).sum = (Samples.measured diffs).samples.sum ∧
      ∀ lat ∈ (Samples.measured diffs).samples,
        (Samples.measured diffs).min ≤ lat ∧ lat ≤ (Samples.measured diffs).max := by
  induction diffs using List.reverseRecOn with
  | nil => exact ⟨rfl, nofun⟩
  | append_singleton diffs diff ih =>
      obtain ⟨sum, between⟩ := ih
      rw [measured_concat, Samples.add]
      constructor
      · simp [sum]
      · intro lat member
        rcases List.mem_append.mp member with earlier | this
        · obtain ⟨above, below⟩ := between lat earlier
          constructor <;> dsimp only <;> split <;> omega
        · obtain rfl := List.mem_singleton.mp this
          constructor <;> dsimp only <;> split <;> omega

/-! ## What the labels say -/

def lineOf (hist : Fin NBUCKET → Nat) (j : Fin NBUCKET) : Line :=
  ⟨if j ≠ 0 then 2 ^ j.val / 2 else 0, 2 ^ j.val, hist j⟩

theorem printFrom_eq (hist : Fin NBUCKET → Nat) {js : List (Fin NBUCKET)} {first : Nat}
    (ahead : js.map Fin.val = List.range' first js.length) :
    printFrom hist js (2 ^ first) = (js.filter (hist · ≠ 0)).map fun j => (j, lineOf hist j) := by
  induction js generalizing first with
  | nil => rfl
  | cons j rest ih =>
      rw [List.map_cons, List.length_cons, List.range'_succ] at ahead
      obtain ⟨here, later⟩ := List.cons.inj ahead
      have doubled : 2 ^ first <<< 1 = 2 ^ (first + 1) := by
        rw [Nat.shiftLeft_eq, pow_one, pow_succ]
      rw [printFrom, doubled, ih later]
      by_cases any : hist j = 0
      · simp [any]
      · simp [any, lineOf, here]

theorem mem_printed {hist : Fin NBUCKET → Nat} {j : Fin NBUCKET} {line : Line} :
    (j, line) ∈ printed hist ↔ hist j ≠ 0 ∧ line = lineOf hist j := by
  have all : (List.finRange NBUCKET).map Fin.val = List.range' 0 (List.finRange NBUCKET).length := by
    decide
  rw [printed, ← pow_zero 2, printFrom_eq hist all, List.mem_map]
  constructor
  · rintro ⟨i, member, same⟩
    obtain ⟨rfl, rfl⟩ := Prod.mk.inj same
    exact ⟨of_decide_eq_true (List.mem_filter.mp member).2, rfl⟩
  · rintro ⟨some, rfl⟩
    exact ⟨j, List.mem_filter.mpr ⟨List.mem_finRange j, decide_eq_true some⟩, rfl⟩

theorem inside_iff (hist : Fin NBUCKET → Nat) (lat : Nat) :
    (lineOf hist (bucket lat)).lo ≤ lat / 1000 ∧ lat / 1000 < (lineOf hist (bucket lat)).hi ↔
      lat / 1000 < 2 ^ (NBUCKET - 1) := by
  rw [lineOf]
  constructor
  · rintro ⟨-, below⟩
    apply below.trans_le
    apply Nat.pow_le_pow_right Nat.two_pos
    exact bucket_val lat ▸ Nat.min_le_right _ _
  · intro small
    have exactly : (bucket lat).val = (lat / 1000).size := by
      rw [bucket_val, Nat.min_eq_left (Nat.size_le.mpr small)]
    refine ⟨?_, exactly ▸ Nat.lt_size_self _⟩
    by_cases first : bucket lat = 0
    · simp [first]
    · obtain ⟨b, next⟩ : ∃ b, (lat / 1000).size = b + 1 := by
        apply Nat.exists_eq_succ_of_ne_zero
        rw [← exactly]
        exact fun zero => first (Fin.ext zero)
      have reached : 2 ^ b ≤ lat / 1000 := Nat.lt_size.mp (next ▸ Nat.lt_succ_self b)
      simpa [first, exactly, next, pow_succ] using reached

/-- The printed buckets account for every sample, each in the range of its bucket. -/
def Accounted (s : Samples) : Prop :=
  ∑ b, s.hist b = s.samples.length ∧
    ∀ lat ∈ s.samples, ∃ line, (bucket lat, line) ∈ printed s.hist ∧
      line.lo ≤ lat / 1000 ∧ lat / 1000 < line.hi

/-- A latency past the last label is still counted under it. -/
theorem accounted_iff_below_cap (diffs : List Int) :
    Accounted (Samples.measured diffs) ↔ ∀ diff ∈ diffs, diff < 8388608000 := by
  have counted : ∑ b, (Samples.measured diffs).hist b = (Samples.measured diffs).samples.length := by
    rw [measured_hist, sum_tally]
  have cap (diff : Int) : diff.toNat / 1000 < 2 ^ (NBUCKET - 1) ↔ diff < 8388608000 := by
    norm_num
    omega
  rw [Accounted, and_iff_right counted, measured_samples, List.forall_mem_map]
  apply forall₂_congr
  intro diff member
  have some : (Samples.measured diffs).hist (bucket diff.toNat) ≠ 0 := by
    rw [measured_hist, measured_samples]
    exact (tally_pos (List.mem_map_of_mem member)).ne'
  rw [← cap, ← inside_iff (Samples.measured diffs).hist]
  simp [mem_printed, some]

theorem accounted_of_eight_seconds : ¬ Accounted (Samples.measured [8388608000]) := by
  rintro ⟨-, labelled⟩
  have sampled : 8388608000 ∈ (Samples.measured [8388608000]).samples := by
    rw [measured_samples]
    exact List.mem_cons_self
  obtain ⟨line, printed, inside⟩ := labelled 8388608000 sampled
  obtain ⟨-, rfl⟩ := mem_printed.mp printed
  have below := (inside_iff _ _).mp inside
  norm_num at below

end LinuxInterview.RtLatency
