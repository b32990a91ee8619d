import LinuxInterview.Mmio.Check

/-!
# The words that `safe_mmio.py` reads

The guard looks at the first address only. The dump loop then walks on, so what matters is
whether the words after the first lie in a node whose device may be touched.
-/

namespace LinuxInterview.Mmio
open Library

/-- The command line after its numbers are parsed. -/
structure Invocation where
  force : Bool
  cmd : Text
  pa : Int
  count : Option Int

structure Outcome where
  refused : Option Text
  reads : List Int
  raised : Option PyError

def pageBase (x : Int) : Int := x / 4096 * 4096

/-- `r(x)` maps the page of `x`, which the kernel may refuse, and unpacks a word that must fit in it. -/
def r (mapOk : Int → Bool) (x : Int) : Except PyError Unit :=
  if mapOk (pageBase x) = false then .error .osError
  else if 4096 - 4 < x - pageBase x then .error .structError
  else .ok ()

def readAll (mapOk : Int → Bool) : List Int → List Int × Option PyError
  | [] => ([], none)
  | x :: rest =>
      match r mapOk x with
      | .error e => ([], some e)
      | .ok () => (x :: (readAll mapOk rest).1, (readAll mapOk rest).2)

def wordAt (pa : Int) (k : Nat) : Int := pa + 4 * (k : Int)

def dumpOrder (pa : Int) (n : Nat) : List Int :=
  (List.range ((n + 3) / 4)).flatMap fun row =>
    (List.range (min 4 (n - 4 * row))).map fun j => wordAt pa (4 * row + j)

def main (board : Board) (mapOk : Int → Bool) (inv : Invocation) : Outcome :=
  match check board inv.pa with
  | .error e => ⟨none, [], some e⟩
  | .ok why =>
      if why.isSome ∧ inv.force = false then ⟨why, [], none⟩
      else if inv.cmd = "get".toList then
        ⟨none, (readAll mapOk [inv.pa]).1, (readAll mapOk [inv.pa]).2⟩
      else match inv.count with
      | none => ⟨none, [], some .indexError⟩
      | some n =>
          let words := dumpOrder inv.pa n.toNat
          ⟨none, (readAll mapOk words).1, (readAll mapOk words).2⟩

/-! ## Which words are reached -/

theorem flatMap_rows (f : Nat → Int) (rows : Nat) :
    ((List.range rows).flatMap fun row => (List.range 4).map fun j => f (4 * row + j)) =
      (List.range (4 * rows)).map f := by
  induction rows with
  | zero => rfl
  | succ rows ih =>
      have last : List.range (rows + 1) = List.range rows ++ [rows] := List.range_succ
      rw [last, List.flatMap_append, ih, List.flatMap_singleton, Nat.mul_succ, List.range_add,
        List.map_append, List.map_map]
      rfl

theorem dumpOrder_eq (pa : Int) (n : Nat) :
    dumpOrder pa n = (List.range n).map (wordAt pa) := by
  obtain ⟨q, s, small, rfl⟩ : ∃ q s, s < 4 ∧ n = 4 * q + s := ⟨n / 4, n % 4, by omega, by omega⟩
  have full : ((List.range q).flatMap fun row =>
      (List.range (min 4 (4 * q + s - 4 * row))).map fun j => wordAt pa (4 * row + j)) =
        (List.range (4 * q)).map (wordAt pa) := by
    rw [← flatMap_rows]
    apply List.flatMap_congr
    intro row member
    have inside := List.mem_range.mp member
    rw [show min 4 (4 * q + s - 4 * row) = 4 by omega]
  unfold dumpOrder
  cases s with
  | zero => rw [show (4 * q + 0 + 3) / 4 = q by omega, full, Nat.add_zero]
  | succ s =>
      rw [show (4 * q + (s + 1) + 3) / 4 = q + 1 by omega, List.range_succ, List.flatMap_append, full,
        List.flatMap_singleton, show min 4 (4 * q + (s + 1) - 4 * q) = s + 1 by omega,
        show List.range (4 * q + (s + 1)) = _ from List.range_add, List.map_append, List.map_map]
      rfl

def Readable (mapOk : Int → Bool) (x : Int) : Bool := (r mapOk x).toBool

theorem readAll_eq_takeWhile (mapOk : Int → Bool) (words : List Int) :
    (readAll mapOk words).1 = words.takeWhile (Readable mapOk) := by
  induction words with
  | nil => rfl
  | cons x rest ih =>
      cases attempt : r mapOk x with
      | error e => simp [readAll, attempt, Readable, Except.toBool]
      | ok done => simp [readAll, attempt, Readable, Except.toBool, ih]

theorem mem_takeWhile_range {p : Int → Bool} {f : Nat → Int} {n : Nat} {x : Int} :
    x ∈ ((List.range n).map f).takeWhile p ↔ ∃ k < n, (∀ i ≤ k, p (f i) = true) ∧ x = f k := by
  induction n generalizing f with
  | zero => simp
  | succ n ih =>
      rw [List.range_succ_eq_map, List.map_cons, List.map_map]
      cases first : p (f 0) with
      | false =>
          rw [List.takeWhile_cons_of_neg (by simp [first])]
          constructor
          · intro member
            exact absurd member (by simp)
          · rintro ⟨k, _, readable, _⟩
            simpa [first] using readable 0 (Nat.zero_le k)
      | true =>
          rw [List.takeWhile_cons_of_pos first, List.mem_cons, ih]
          constructor
          · rintro (rfl | ⟨k, below, readable, rfl⟩)
            · exact ⟨0, by omega, fun i le => by rwa [Nat.le_zero.mp le], rfl⟩
            · refine ⟨k + 1, by omega, ?_, rfl⟩
              intro i le
              cases i with
              | zero => exact first
              | succ i => exact readable i (by omega)
          · rintro ⟨k, below, readable, rfl⟩
            cases k with
            | zero => exact Or.inl rfl
            | succ k => exact Or.inr ⟨k, by omega, fun i le => readable (i + 1) (by omega), rfl⟩

/-! ## When every read is guarded -/

def Reached (mapOk : Int → Bool) (pa : Int) (k : Nat) : Prop :=
  ∀ i ≤ k, Readable mapOk (wordAt pa i) = true

def NoHazardAhead (board : Board) (mapOk : Int → Bool) (inv : Invocation) : Prop :=
  ¬ Hazard board inv.pa → inv.cmd ≠ "get".toList → ∀ n, inv.count = some n →
    ∀ k, 0 < k → k < n.toNat → Reached mapOk inv.pa k → ¬ Hazard board (wordAt inv.pa k)

theorem wordAt_zero (pa : Int) : wordAt pa 0 = pa := by
  simp [wordAt]

theorem main_reads (board : Board) (mapOk : Int → Bool) (inv : Invocation)
    (careful : inv.force = false) (x : Int) :
    x ∈ (main board mapOk inv).reads ↔ ¬ Hazard board inv.pa ∧
      if inv.cmd = "get".toList then Readable mapOk inv.pa = true ∧ x = inv.pa
      else ∃ n, inv.count = some n ∧
        ∃ k < n.toNat, Reached mapOk inv.pa k ∧ x = wordAt inv.pa k := by
  rw [← check_eq_none_iff, main]
  cases verdict : check board inv.pa with
  | error e => simp
  | ok why =>
      cases why with
      | some reason => simp [careful]
      | none =>
          simp only [Option.isSome_none, Bool.false_eq_true, false_and, ↓reduceIte, true_and]
          split
          · cases first : Readable mapOk inv.pa <;>
              simp [readAll_eq_takeWhile, first]
          · cases inv.count with
            | none => simp
            | some n =>
                simp only [readAll_eq_takeWhile, dumpOrder_eq, mem_takeWhile_range, Reached,
                  Option.some.injEq, exists_eq_left']

theorem reads_guarded_iff (board : Board) (mapOk : Int → Bool) (cmd : Text) (pa : Int)
    (count : Option Int) :
    (∀ x ∈ (main board mapOk ⟨false, cmd, pa, count⟩).reads, check board x = .ok none) ↔
      NoHazardAhead board mapOk ⟨false, cmd, pa, count⟩ := by
  simp only [main_reads board mapOk ⟨false, cmd, pa, count⟩ rfl, check_eq_none_iff]
  constructor
  · intro guarded start dump n counted k _ below reached
    exact guarded _ ⟨start, by rw [if_neg dump]; exact ⟨n, counted, k, below, reached, rfl⟩⟩
  · rintro ahead x ⟨start, read⟩
    split at read
    · rw [read.2]
      exact start
    · rename_i dump
      obtain ⟨n, counted, k, below, reached, rfl⟩ := read
      cases k with
      | zero => rwa [wordAt_zero]
      | succ k => exact ahead start dump n counted (k + 1) (Nat.succ_pos k) below reached

def neighbours : Board where
  tree := [
    .mk "i2c@fd880000".toList
      (some [0, 0, 0, 0, 0xfd, 0x88, 0, 0, 0, 0, 0, 0, 0, 0, 0x10, 0]) none [],
    .mk "vop@fd881000".toList
      (some [0, 0, 0, 0, 0xfd, 0x88, 0x10, 0, 0, 0, 0, 0, 0, 0, 0x10, 0]) none []]
  driver := fun dev => dev == "fd880000.i2c".toList
  runtimeStatus := fun _ => some "active\n".toList
  clkSummary := some []

theorem dump_crosses_into_unbound_block :
    wordAt 0xfd880ffc 1 ∈
        (main neighbours (fun _ => true) ⟨false, "dump".toList, 0xfd880ffc, some 2⟩).reads ∧
      (check neighbours (wordAt 0xfd880ffc 1)).toOption =
        some (some (noDriver "fd881000.vop".toList)) := by
  decide

theorem noHazardAhead_of_same_node (board : Board) (mapOk : Int → Bool) (inv : Invocation)
    (same : ∀ n, inv.count = some n → ∀ k < n.toNat,
      findNode (wordAt inv.pa k) board.tree = findNode inv.pa board.tree) :
    NoHazardAhead board mapOk inv := by
  intro start _ n counted k _ below _
  unfold Hazard at start ⊢
  rw [same n counted k below]
  exact start

end LinuxInterview.Mmio
