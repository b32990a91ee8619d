import LinuxInterview.Library.History
import LinuxInterview.Rkspy.Shapes

/-!
# The register that `regcmd_find` finds

The unit carries out the writes of a list in their order, so that a register holds the last value
written to it; `regcmd_find` stops at the first.
-/

namespace LinuxInterview.Rkspy
open Library

/-- The buffer that the list of a task is in, where the process has it mapped. -/
def regcmdBuffer (t : Tracker) (tk : Task) : Option Buf := do
  let ri ← findByDma t tk.regcmdAddr
  let b ← t.bufs[ri]?
  if b.va = 0#64 then none else some b

def commandsAt (b : Buf) (tk : Task) : BitVec 64 := b.va + (tk.regcmdAddr - b.dmaAddr)

def commands (memory : BitVec 64 → BitVec 64) (e : BitVec 64) (n : Nat) : List (BitVec 64) :=
  (List.range n).map fun i => memory (e + 8#64 * BitVec.ofNat 64 i)

/-- The number of entries that are looked at, a sum of 32 bits. -/
def scanLength (tk : Task) : Nat := (tk.regcfgAmount + 4#32).toNat

def writes (want entry : BitVec 64) : Bool := entryOffset entry = want

variable {t : Tracker} {memory : BitVec 64 → BitVec 64} {tk : Task} {b : Buf} {want : BitVec 64}

theorem regcmdBuffer_eq_some_iff : regcmdBuffer t tk = some b ↔
    ((findByDma t tk.regcmdAddr).bind fun ri => t.bufs[ri]?) = some b ∧ b.va ≠ 0#64 := by
  have looked : regcmdBuffer t tk = ((findByDma t tk.regcmdAddr).bind fun ri => t.bufs[ri]?).bind
      fun b => if b.va = 0#64 then none else some b := by
    rw [Option.bind_assoc]
    rfl
  rw [looked, Option.bind_eq_some_iff]
  constructor
  · rintro ⟨found, lookup, mapped⟩
    split at mapped
    · cases mapped
    · rename_i va
      cases mapped
      exact ⟨lookup, va⟩
  · rintro ⟨lookup, va⟩
    exact ⟨b, lookup, if_neg va⟩

theorem regcmdFind_eq (t : Tracker) (memory : BitVec 64 → BitVec 64) (tk : Task) (want : BitVec 64) :
    regcmdFind t memory tk want = (regcmdBuffer t tk).bind fun b =>
      ((commands memory (commandsAt b tk) (scanLength tk)).find? (writes want)).map entryValue := by
  unfold regcmdFind regcmdBuffer
  cases findByDma t tk.regcmdAddr with
  | none => rfl
  | some ri =>
      simp only [bind, Option.bind_some]
      cases t.bufs[ri]? with
      | none => rfl
      | some b =>
          simp only [Option.bind_some]
          split <;> rfl

theorem regcmdFind_located (located : regcmdBuffer t tk = some b) :
    regcmdFind t memory tk want =
      ((commands memory (commandsAt b tk) (scanLength tk)).find? (writes want)).map entryValue := by
  rw [regcmdFind_eq, located, Option.bind_some]

/-- The `i`-th entry of the list of a task, which has `regcfgAmount + 4` entries. -/
def command (memory : BitVec 64 → BitVec 64) (b : Buf) (tk : Task) (i : Nat) : BitVec 64 :=
  memory (commandsAt b tk + 8#64 * BitVec.ofNat 64 i)

def listLength (tk : Task) : Nat := tk.regcfgAmount.toNat + 4

/-- The entries of the list of a task, which is `elsewhere` where the process has no buffer mapped for it. -/
def regcmds (t : Tracker) (memory : BitVec 64 → BitVec 64) (elsewhere : Nat → BitVec 64) (tk : Task) :
    Nat → BitVec 64 :=
  match regcmdBuffer t tk with
  | some b => command memory b tk
  | none => elsewhere

/-- What the writes of a list leave in each register. -/
def effective (list : Nat → BitVec 64) (tk : Task) : BitVec 64 → Option (BitVec 32) :=
  written entryOffset entryValue ((List.range (listLength tk)).map list)

def Unwritten (list : Nat → BitVec 64) (tk : Task) (want : BitVec 64) : Prop :=
  ∀ k < listLength tk, writes want (list k) = false

/-- The first and the last write of the register carry the same value, and the first is among the
entries that are looked at. -/
def FirstIsLast (list : Nat → BitVec 64) (tk : Task) (want : BitVec 64) : Prop :=
  ∀ i j, FirstAt (writes want) list (listLength tk) i → LastAt (writes want) list (listLength tk) j →
    i < scanLength tk ∧ entryValue (list i) = entryValue (list j)

theorem scanLength_le (tk : Task) : scanLength tk ≤ listLength tk := by
  rw [scanLength, BitVec.toNat_add]
  exact Nat.mod_le _ _

variable {list : Nat → BitVec 64}

theorem effective_of_lastAt {j : Nat} (last : LastAt (writes want) list (listLength tk) j) :
    effective list tk want = some (entryValue (list j)) := by
  have found := latest_of_lastAt last
  rw [effective, written_eq_latest]
  exact congrArg (Option.map entryValue) found

theorem Unwritten.entry {n : Nat} (silent : Unwritten list tk want) (bound : n ≤ listLength tk) {entry : BitVec 64}
    (member : entry ∈ (List.range n).map list) : writes want entry = false := by
  obtain ⟨k, inside, rfl⟩ := List.mem_map.mp member
  exact silent k ((List.mem_range.mp inside).trans_le bound)

theorem effective_of_unwritten (silent : Unwritten list tk want) : effective list tk want = none := by
  have none_found : latest (writes want) ((List.range (listLength tk)).map list) = none :=
    latest_eq_none_iff.mpr fun _ member => silent.entry le_rfl member
  rw [effective, written_eq_latest]
  exact congrArg (Option.map entryValue) none_found

theorem effective_eq_none_iff : effective list tk want = none ↔ Unwritten list tk want := by
  refine ⟨fun nothing k inside => ?_, effective_of_unwritten⟩
  by_contra wrote
  obtain ⟨j, last⟩ := exists_lastAt inside (by simpa using wrote)
  rw [effective_of_lastAt last] at nothing
  cases nothing

theorem Unwritten.firstIsLast (silent : Unwritten list tk want) : FirstIsLast list tk want := by
  intro i _ first
  have wrote := first.2.1
  rw [silent i first.1] at wrote
  cases wrote

theorem regcmdFind_of_firstAt (located : regcmdBuffer t tk = some b) {i : Nat}
    (first : FirstAt (writes want) (command memory b tk) (listLength tk) i) :
    regcmdFind t memory tk want =
      if i < scanLength tk then some (entryValue (command memory b tk i)) else none := by
  rw [regcmdFind_located located]
  split
  · rename_i inside
    have found := find?_of_firstAt (n := scanLength tk) ⟨inside, first.2⟩
    exact congrArg (Option.map entryValue) found
  · rename_i outside
    have silent : ∀ entry ∈ commands memory (commandsAt b tk) (scanLength tk), ¬ writes want entry = true := by
      intro entry member
      obtain ⟨k, bound, rfl⟩ := List.mem_map.mp member
      have earlier := first.2.2 k (by rw [List.mem_range] at bound; omega)
      exact Bool.eq_false_iff.mp earlier
    rw [List.find?_eq_none.mpr silent, Option.map_none]

theorem regcmdFind_of_unwritten (located : regcmdBuffer t tk = some b)
    (silent : Unwritten (command memory b tk) tk want) : regcmdFind t memory tk want = none := by
  have none_found : (commands memory (commandsAt b tk) (scanLength tk)).find? (writes want) = none := by
    rw [List.find?_eq_none]
    intro entry member
    rw [silent.entry (scanLength_le tk) member]
    exact Bool.false_ne_true
  rw [regcmdFind_located located, none_found, Option.map_none]

theorem regcmdFind_unlocated (nowhere : regcmdBuffer t tk = none) : regcmdFind t memory tk want = none := by
  rw [regcmdFind_eq, nowhere, Option.bind_none]

theorem regcmdFind_eq_effective_of_located (located : regcmdBuffer t tk = some b) :
    regcmdFind t memory tk want = effective (command memory b tk) tk want ↔
      FirstIsLast (command memory b tk) tk want := by
  constructor
  · intro same i j first last
    rw [regcmdFind_of_firstAt located first, effective_of_lastAt last] at same
    split at same
    · rename_i scanned
      exact ⟨scanned, Option.some.inj same⟩
    · cases same
  · intro same
    by_cases wrote : ∃ k < listLength tk, writes want (command memory b tk k) = true
    · obtain ⟨k, inside, wrote⟩ := wrote
      obtain ⟨i, _, first⟩ := exists_firstAt inside wrote
      obtain ⟨j, last⟩ := exists_lastAt inside wrote
      obtain ⟨scanned, value⟩ := same i j first last
      rw [regcmdFind_of_firstAt located first, effective_of_lastAt last, if_pos scanned, value]
    · have silent : Unwritten (command memory b tk) tk want := by
        intro k inside
        by_contra held
        exact wrote ⟨k, inside, by simpa using held⟩
      rw [regcmdFind_of_unwritten located silent, effective_of_unwritten silent]

theorem regcmdFind_eq_effective_iff (t : Tracker) (memory : BitVec 64 → BitVec 64) (elsewhere : Nat → BitVec 64)
    (tk : Task) (want : BitVec 64) :
    (regcmdFind t memory tk want = effective (regcmds t memory elsewhere tk) tk want ∧
      (regcmdFind t memory tk want = none ↔ Unwritten (regcmds t memory elsewhere tk) tk want)) ↔
      FirstIsLast (regcmds t memory elsewhere tk) tk want ∧
        (regcmdBuffer t tk = none → Unwritten (regcmds t memory elsewhere tk) tk want) := by
  -- what the function finds decides the second half, as the list leaves nothing just where it writes nothing
  have second : regcmdFind t memory tk want = effective (regcmds t memory elsewhere tk) tk want →
      (regcmdFind t memory tk want = none ↔ Unwritten (regcmds t memory elsewhere tk) tk want) := by
    intro same
    rw [same]
    exact effective_eq_none_iff
  rw [and_iff_left_of_imp second]
  cases located : regcmdBuffer t tk with
  | none =>
      have found : regcmdFind t memory tk want = none := regcmdFind_unlocated located
      rw [found, eq_comm, effective_eq_none_iff]
      exact ⟨fun silent => ⟨silent.firstIsLast, fun _ => silent⟩, fun both => both.2 rfl⟩
  | some b =>
      have entries : regcmds t memory elsewhere tk = command memory b tk := by rw [regcmds, located]
      rw [entries, regcmdFind_eq_effective_of_located located]
      exact ⟨fun same => ⟨same, nofun⟩, And.left⟩

/-! ## A register that is written twice -/

def page : Buf := ⟨1, 0, 0xff, 0x1000, 0x1000, 0, 0x7000⟩

def oneBuffer : Tracker := ⟨[page], by decide⟩

def firstTask : Task := ⟨1, 0, 0x1000⟩

/-- The width is set to 224, then to 112, and the strides once. -/
def resized (a : BitVec 64) : BitVec 64 :=
  if a = 0x7000 then 0x00e000001020
  else if a = 0x7008 then 0x007000001020
  else if a = 0x7010 then 0x000000091014
  else 0

theorem regcmdFind_misses_last_write :
    regcmdFind oneBuffer resized firstTask 0x1020 ≠
      effective (regcmds oneBuffer resized (fun _ => 0) firstTask) firstTask 0x1020 := by decide

end LinuxInterview.Rkspy
