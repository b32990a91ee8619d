import LinuxInterview.Library.Ring

/-!
# The pointer chases of `cache_ladder` and `membw`

Both shuffle the numbers of the lines of a buffer and write into each line a pointer to the next one in
the shuffled order. The time of a load is measured along these pointers. A word of memory is the value
at its address, and the lines are 64 bytes apart.
-/

namespace LinuxInterview.CacheProbe
open Library

def stride : Nat := 64

def randMax : Nat := 2147483647

variable {n : Nat}

/-- The loop of both shuffles from `i` down; `draw` is the number drawn in each turn, the first turn
being that of `n - 1`. -/
def shuffleFrom (draw : Nat → Nat) (i : Nat) (inside : i < n) (idx : Vector Nat n) : Vector Nat n :=
  match i with
  | 0 => idx
  | i + 1 =>
      have chosen : draw (n - 1 - (i + 1)) % (i + 2) < n :=
        (Nat.mod_lt _ (Nat.succ_pos (i + 1))).trans_le inside
      shuffleFrom draw i (Nat.lt_of_succ_lt inside)
        (idx.swap (i + 1) (draw (n - 1 - (i + 1)) % (i + 2)) inside chosen)

def shuffle (draw : Nat → Nat) (nonempty : 1 ≤ n) : Vector Nat n :=
  shuffleFrom draw (n - 1) (Nat.sub_lt nonempty Nat.one_pos) (Vector.range n)

/-- `rand k` is the result of the `k`-th call. -/
def ladderDraw (rand : Nat → Nat) (turn : Nat) : Nat := rand turn

def membwDraw (rand : Nat → Nat) (turn : Nat) : Nat :=
  (rand (2 * turn) * randMax + rand (2 * turn + 1)) % 2 ^ 64

def line (buf : Nat) (number : Nat) : Nat := buf + number * stride

def placeAt (buf : Nat) (idx : Vector Nat n) (i : Nat) : Nat := line buf (idx[i]?.getD 0)

/-- `*(void **)(buf + idx[i] * STRIDE) = buf + idx[(i + 1) % n] * STRIDE` for each `i`. -/
def chain (buf : Nat) (idx : Vector Nat n) (memory : Nat → Nat) : Nat → Nat :=
  link (placeAt buf idx) n memory

structure Chase where
  memory : Nat → Nat
  cur : Nat

def Chase.load (c : Chase) : Chase := { c with cur := c.memory c.cur }

/-- The ring of `measure`, at its first line. -/
def measure (rand : Nat → Nat) (nonempty : 1 ≤ n) (buf : Nat) (memory : Nat → Nat) : Chase :=
  ⟨chain buf (shuffle (ladderDraw rand) nonempty) memory, buf⟩

/-- The ring of `latency`, at `perm[0]`. -/
def latency (rand : Nat → Nat) (nonempty : 1 ≤ n) (buf : Nat) (memory : Nat → Nat) : Chase :=
  let perm := shuffle (membwDraw rand) nonempty
  ⟨chain buf perm memory, placeAt buf perm 0⟩

def Chase.touched (c : Chase) (k : Nat) : List Nat := (List.range k).map fun i => (Chase.load^[i] c).cur

/-! ## The shuffle -/

theorem shuffleFrom_perm (draw : Nat → Nat) {i : Nat} (inside : i < n) (idx : Vector Nat n) :
    (shuffleFrom draw i inside idx).Perm idx := by
  induction i generalizing idx with
  | zero => exact Vector.Perm.refl idx
  | succ i ih => exact (ih _ _).trans (Vector.swap_perm _ _)

def IsOrder (idx : Vector Nat n) : Prop := idx.toList.Perm (List.range n)

theorem isOrder_shuffle (draw : Nat → Nat) (nonempty : 1 ≤ n) : IsOrder (shuffle draw nonempty) := by
  have kept := Vector.perm_iff_toList_perm.mp (shuffleFrom_perm draw (Nat.sub_lt nonempty Nat.one_pos)
    (Vector.range n))
  rwa [Vector.toList_range] at kept

/-! ## The ring -/

theorem line_injective (buf : Nat) : Function.Injective (line buf) := fun a b same =>
  Nat.eq_of_mul_eq_mul_right (by decide : 0 < stride) (Nat.add_left_cancel same)

theorem map_placeAt (buf : Nat) (idx : Vector Nat n) :
    (List.range n).map (placeAt buf idx) = idx.toList.map (line buf) := by
  apply List.ext_getElem
  · simp
  · intro i bound _
    have inside : i < n := by simpa using bound
    simp [placeAt, inside]

namespace IsOrder

variable {idx : Vector Nat n} (order : IsOrder idx)
include order

theorem places (buf : Nat) :
    ((List.range n).map (placeAt buf idx)).Perm ((List.range n).map (line buf)) := by
  rw [map_placeAt]
  exact order.map (line buf)

theorem placeAt_injOn (buf : Nat) : Set.InjOn (placeAt buf idx) (Set.Iio n) := by
  have distinct : ((List.range n).map (placeAt buf idx)).Nodup :=
    (order.places buf).nodup_iff.mpr (List.nodup_range.map (line_injective buf))
  intro i inside j bound same
  exact List.inj_on_of_nodup_map distinct (List.mem_range.mpr inside) (List.mem_range.mpr bound) same

theorem exists_placeAt (buf : Nat) {s : Nat} (inside : s < n) : ∃ i < n, placeAt buf idx i = line buf s := by
  have member : line buf s ∈ (List.range n).map (placeAt buf idx) :=
    (order.places buf).mem_iff.mpr (List.mem_map_of_mem (List.mem_range.mpr inside))
  obtain ⟨i, bound, same⟩ := List.mem_map.mp member
  exact ⟨i, List.mem_range.mp bound, same⟩

theorem linked (buf : Nat) (memory : Nat → Nat) : Linked (chain buf idx memory) (placeAt buf idx) n :=
  linked_link (order.placeAt_injOn buf) memory

end IsOrder

theorem iterate_load (c : Chase) (k : Nat) : Chase.load^[k] c = ⟨c.memory, c.memory^[k] c.cur⟩ := by
  induction k with
  | zero => rfl
  | succ k ih => rw [Function.iterate_succ_apply', ih, Chase.load, Function.iterate_succ_apply']

/-- The pointers form one ring through all the lines of the buffer. -/
structure IsRing (n buf : Nat) (memory : Nat → Nat) : Prop where
  sweeps : ∀ s < n, ∀ m, ((Chase.load^[m] ⟨memory, line buf s⟩).touched n).Perm ((List.range n).map (line buf))
  closes : ∀ s < n, (Chase.load^[n] ⟨memory, line buf s⟩).cur = line buf s

theorem isRing_chain {idx : Vector Nat n} (order : IsOrder idx) (buf : Nat) (memory : Nat → Nat) :
    IsRing n buf (chain buf idx memory) := by
  have linked := order.linked buf memory
  constructor
  · intro s inside m
    obtain ⟨i, bound, start⟩ := order.exists_placeAt buf inside
    have reached : ((i + m) % n) < n := Nat.mod_lt _ (by omega)
    rw [iterate_load, Chase.touched, ← start]
    simp only [iterate_load, linked.iterate bound m]
    exact (linked.round reached).1.trans (order.places buf)
  · intro s inside
    obtain ⟨i, bound, start⟩ := order.exists_placeAt buf inside
    rw [iterate_load, ← start]
    exact (linked.round bound).2

theorem rings_are_single (rand : Nat → Nat) (nonempty : 1 ≤ n) (buf : Nat) (memory : Nat → Nat) :
    (IsOrder (shuffle (ladderDraw rand) nonempty) ∧ IsRing n buf (measure rand nonempty buf memory).memory ∧
      ∃ s < n, (measure rand nonempty buf memory).cur = line buf s) ∧
    IsOrder (shuffle (membwDraw rand) nonempty) ∧ IsRing n buf (latency rand nonempty buf memory).memory ∧
      ∃ s < n, (latency rand nonempty buf memory).cur = line buf s := by
  have ladder := isOrder_shuffle (ladderDraw rand) nonempty
  have membw := isOrder_shuffle (membwDraw rand) nonempty
  refine ⟨⟨ladder, isRing_chain ladder buf memory, 0, nonempty, ?_⟩, membw,
    isRing_chain membw buf memory, ?_⟩
  · simp [measure, line]
  · have first : placeAt buf (shuffle (membwDraw rand) nonempty) 0 ∈ (List.range n).map (line buf) :=
      (membw.places buf).mem_iff.mp (List.mem_map_of_mem (List.mem_range.mpr nonempty))
    obtain ⟨s, inside, same⟩ := List.mem_map.mp first
    exact ⟨s, List.mem_range.mp inside, same.symm⟩

theorem rings_are_single_three :
    (IsOrder (shuffle (n := 3) (ladderDraw fun _ => randMax) (by decide)) ∧
      IsRing 3 0x1000 (measure (n := 3) (fun _ => randMax) (by decide) 0x1000 id).memory ∧
      ∃ s < 3, (measure (n := 3) (fun _ => randMax) (by decide) 0x1000 id).cur = line 0x1000 s) ∧
    IsOrder (shuffle (n := 3) (membwDraw fun _ => randMax) (by decide)) ∧
      IsRing 3 0x1000 (latency (n := 3) (fun _ => randMax) (by decide) 0x1000 id).memory ∧
      ∃ s < 3, (latency (n := 3) (fun _ => randMax) (by decide) 0x1000 id).cur = line 0x1000 s :=
  rings_are_single (fun _ => randMax) (by decide) 0x1000 id

end LinuxInterview.CacheProbe
