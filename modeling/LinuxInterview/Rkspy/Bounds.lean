import LinuxInterview.Library.Reading
import LinuxInterview.Rkspy.RawDump

/-!
# What `rkspy` reads of the traced process

`dump_submit` follows three numbers of the process into its buffers: where the tasks start, how many
there are, and the length of each list. The sizes of the buffers are known to it, and only the first
byte of a list is checked against them.
-/

namespace LinuxInterview.Rkspy
open Library

/-- So many bytes, at an offset from the start of a buffer. -/
structure Access where
  buffer : Buf
  offset : Nat
  length : Nat

namespace Access

def Inside (a : Access) : Prop := a.offset + a.length ≤ a.buffer.size.toNat

def address (a : Access) : BitVec 64 := a.buffer.va + BitVec.ofNat 64 a.offset

end Access

/-! ## The reads -/

/-- `sizeof(struct rknpu_task)`, which is packed. -/
def taskSize : Nat := 8 * 4 + 8

def shapeRegisters : List (BitVec 64) := [0x1020, 0x1024, 0x1010, 0x1014, 0x1038, 0x1068]

def listStart (b : Buf) (tk : Task) : Nat := (tk.regcmdAddr - b.dmaAddr).toNat

def entryAccess (b : Buf) (tk : Task) (i : Nat) : Access := ⟨b, listStart b tk + 8 * i, 8⟩

def byteAccess (b : Buf) (tk : Task) (i : Nat) : Access := ⟨b, listStart b tk + i, 1⟩

def registerReading (t : Tracker) (memory : BitVec 64 → BitVec 64) (tk : Task) (want : BitVec 64) :
    Reading Access (Option (BitVec 32)) :=
  match regcmdBuffer t tk with
  | none => .done none
  | some b =>
      (Reading.search (fun a => memory a.address) (entryAccess b tk) (writes want) (scanLength tk) 0).map
        (Option.map entryValue)

def rawReading (t : Tracker) (bytes : BitVec 64 → BitVec 8) (tk : Task) : Reading Access (List RawEntry) :=
  match regcmdBuffer t tk with
  | none => .done []
  | some b =>
      .each (rawOffsets (min (scanLength tk) 24) 0) fun j =>
        (Reading.each (List.range 8) fun q =>
          .read (fun a => bytes a.address) (byteAccess b tk (j + q))).map .ofBytes

namespace Dump

/-- The buffer of the tasks, where it is mapped. -/
def taskArray (d : Dump) : Option Buf := d.taskBuffer.filter fun b => b.va ≠ 0#64

def byte (d : Dump) (a : BitVec 64) : BitVec 8 := (d.memory a).setWidth 8

def taskReading (d : Dump) (b : Buf) (k : Nat) : Reading Access Task :=
  .read (fun _ => d.task k) ⟨b, taskSize * (d.number k).toNat, taskSize⟩

/-- The raw words of the first `rawn` tasks, and the registers of all. -/
def footprint (d : Dump) (rawn : BitVec 32) :
    Reading Access (List (List RawEntry) × List (List (Option (BitVec 32)))) :=
  match d.taskArray with
  | none => .done ([], [])
  | some b =>
      let n := if rawn < d.submit.taskNumber then rawn else d.submit.taskNumber
      (Reading.each (List.range n.toNat) fun k =>
          (d.taskReading b k).andThen fun tk => rawReading d.tracker d.byte tk).andThen fun raw =>
        (Reading.each (List.range d.submit.taskNumber.toNat) fun k =>
          (d.taskReading b k).andThen fun tk =>
            .each shapeRegisters (registerReading d.tracker d.memory tk)).map fun shapes => (raw, shapes)

end Dump

variable {t : Tracker} {memory : BitVec 64 → BitVec 64} {bytes : BitVec 64 → BitVec 8} {tk : Task} {b : Buf}

theorem address_entryAccess (b : Buf) (tk : Task) (i : Nat) :
    (entryAccess b tk i).address = commandsAt b tk + 8#64 * BitVec.ofNat 64 i := by
  rw [Access.address, entryAccess, listStart, BitVec.ofNat_add, BitVec.ofNat_toNat, BitVec.setWidth_eq,
    BitVec.ofNat_mul, ← BitVec.add_assoc, commandsAt]

theorem address_byteAccess (b : Buf) (tk : Task) (i : Nat) :
    (byteAccess b tk i).address = commandsAt b tk + BitVec.ofNat 64 i := by
  rw [Access.address, byteAccess, listStart, BitVec.ofNat_add, BitVec.ofNat_toNat, BitVec.setWidth_eq,
    ← BitVec.add_assoc, commandsAt]

theorem value_registerReading (t : Tracker) (memory : BitVec 64 → BitVec 64) (tk : Task) (want : BitVec 64) :
    (registerReading t memory tk want).value = regcmdFind t memory tk want := by
  rw [regcmdFind_eq, registerReading]
  cases regcmdBuffer t tk with
  | none => rfl
  | some b =>
      rw [Option.bind_some, Reading.value_map, Reading.value_search, commands, List.range_eq_range']
      simp only [address_entryAccess]

theorem value_rawReading (t : Tracker) (bytes : BitVec 64 → BitVec 8) (tk : Task) :
    (rawReading t bytes tk).value = shown t bytes tk := by
  cases located : regcmdBuffer t tk with
  | none => rw [shown_unlocated located, rawReading, located, Reading.value_done]
  | some b =>
      rw [shown_located located, rawReading, located]
      simp only [Reading.value_each, Reading.value_map, Reading.value_read, address_byteAccess]
      rfl

theorem taskCount (rawn number : BitVec 32) :
    (if rawn < number then rawn else number).toNat = min rawn.toNat number.toNat := by
  split
  · rename_i less
    rw [BitVec.lt_def] at less
    omega
  · rename_i atLeast
    rw [BitVec.lt_def] at atLeast
    omega

theorem value_footprint {d : Dump} (mapped : d.taskArray = some b) (rawn : BitVec 32) :
    (d.footprint rawn).value =
      ((List.range (min rawn.toNat d.submit.taskNumber.toNat)).map fun k => shown d.tracker d.byte (d.task k),
        (List.range d.submit.taskNumber.toNat).map fun k =>
          shapeRegisters.map (regcmdFind d.tracker d.memory (d.task k))) := by
  rw [Dump.footprint, mapped]
  simp only [Reading.value_andThen, Reading.value_map, Reading.value_each, Dump.taskReading,
    Reading.value_read, value_rawReading, value_registerReading, taskCount]

/-! ## Where the reads of one task lie -/

/-- The whole entries between the start of the list and the end of its buffer. -/
def room (b : Buf) (tk : Task) : Nat := (b.size.toNat - listStart b tk) / 8

theorem located_inDma (located : regcmdBuffer t tk = some b) : b.inDma tk.regcmdAddr = true := by
  obtain ⟨lookup, _⟩ := regcmdBuffer_eq_some_iff.mp located
  obtain ⟨ri, found, entry⟩ := Option.bind_eq_some_iff.mp lookup
  obtain ⟨_, inside, _⟩ := List.findIdx?_eq_some_iff_getElem.mp found
  obtain ⟨_, rfl⟩ := List.getElem?_eq_some_iff.mp entry
  exact inside

theorem listStart_lt (located : regcmdBuffer t tk = some b) : listStart b tk < b.size.toNat := by
  have inside := located_inDma located
  simp only [Buf.inDma, Bool.and_eq_true, decide_eq_true_eq, BitVec.le_def, BitVec.lt_def,
    BitVec.toNat_add] at inside
  obtain ⟨⟨_, above⟩, below⟩ := inside
  have start := tk.regcmdAddr.isLt
  have size := b.size.isLt
  rw [listStart, BitVec.toNat_sub]
  omega

theorem entry_inside_iff (located : regcmdBuffer t tk = some b) (i : Nat) :
    (entryAccess b tk i).Inside ↔ i < room b tk := by
  have start := listStart_lt located
  rw [Access.Inside, entryAccess, room]
  simp only
  omega

theorem registerReading_inside_iff (located : regcmdBuffer t tk = some b) (want : BitVec 64) :
    (∀ a ∈ (registerReading t memory tk want).places, a.Inside) ↔
      scanLength tk ≤ room b tk ∨ ∃ i < room b tk, writes want (command memory b tk i) = true := by
  rw [registerReading, located]
  simp only [Reading.places_map, Reading.mem_places_search, Nat.zero_add, command,
    ← address_entryAccess]
  rw [← Reading.search_within_iff]
  constructor
  · intro inside i bound missed
    exact (entry_inside_iff located i).mp (inside _ ⟨i, bound, rfl, missed⟩)
  · rintro within a ⟨i, bound, rfl, missed⟩
    exact (entry_inside_iff located i).mpr (within i bound missed)

theorem rawReading_inside_iff (bytes : BitVec 64 → BitVec 8) (located : regcmdBuffer t tk = some b) :
    (∀ a ∈ (rawReading t bytes tk).places, a.Inside) ↔ (min (scanLength tk) 24 + 1) / 2 ≤ room b tk := by
  have start := listStart_lt located
  rw [rawReading, located]
  simp only [Reading.mem_places_each, Reading.places_map, Reading.places_read, List.mem_singleton,
    rawOffsets_eq, List.mem_map, List.mem_range]
  constructor
  · intro inside
    rcases Nat.eq_zero_or_pos ((min (scanLength tk) 24 + 1) / 2) with none_shown | shown
    · omega
    · have last := inside _ ⟨_, ⟨(min (scanLength tk) 24 + 1) / 2 - 1, by omega, rfl⟩, 7, by omega, rfl⟩
      simp only [Access.Inside, byteAccess] at last
      rw [room]
      omega
  · rintro fits a ⟨j, ⟨i, bound, rfl⟩, q, low, rfl⟩
    rw [room] at fits
    simp only [Access.Inside, byteAccess]
    omega

theorem registerReading_unlocated (lost : regcmdBuffer t tk = none) (memory : BitVec 64 → BitVec 64)
    (want : BitVec 64) : (registerReading t memory tk want).places = [] := by
  rw [registerReading, lost, Reading.places_done]

theorem rawReading_unlocated (lost : regcmdBuffer t tk = none) (bytes : BitVec 64 → BitVec 8) :
    (rawReading t bytes tk).places = [] := by
  rw [rawReading, lost, Reading.places_done]

/-! ## Where all of them lie -/

/-- The array of the tasks ends within its buffer. Where the numbers of the tasks run over, the last of
all tasks is among them. -/
def TasksFit (b : Buf) (s : Submit) : Prop :=
  s.taskNumber = 0#32 ∨ taskSize * min (s.taskStart.toNat + s.taskNumber.toNat) (2 ^ 32) ≤ b.size.toNat

/-- The list ends within its buffer, or what is looked for is found before its end. -/
def ListFits (memory : BitVec 64 → BitVec 64) (b : Buf) (tk : Task) : Prop :=
  scanLength tk ≤ room b tk ∨
    ∀ want ∈ shapeRegisters, ∃ i < room b tk, writes want (command memory b tk i) = true

def RawFits (b : Buf) (tk : Task) : Prop := (min (scanLength tk) 24 + 1) / 2 ≤ room b tk

def Dump.Fits (d : Dump) (rawn : BitVec 32) : Prop :=
  ∀ b, d.taskArray = some b → TasksFit b d.submit ∧
    ∀ k < d.submit.taskNumber.toNat, ∀ c, regcmdBuffer d.tracker (d.task k) = some c →
      ListFits d.memory c (d.task k) ∧ (k < rawn.toNat → RawFits c (d.task k))

theorem tasksFit_iff (d : Dump) (b : Buf) : TasksFit b d.submit ↔
    ∀ k < d.submit.taskNumber.toNat, Access.Inside ⟨b, taskSize * (d.number k).toNat, taskSize⟩ := by
  have start := d.submit.taskStart.isLt
  have number := d.submit.taskNumber.isLt
  have none_iff : d.submit.taskNumber = 0#32 ↔ d.submit.taskNumber.toNat = 0 :=
    ⟨fun zero => by rw [zero]; rfl, fun zero => BitVec.eq_of_toNat_eq zero⟩
  simp only [TasksFit, Access.Inside, Dump.number, BitVec.toNat_add, BitVec.toNat_ofNat, taskSize, none_iff]
  constructor
  · intro fits k bound
    omega
  · intro inside
    by_cases nothing : d.submit.taskNumber.toNat = 0
    · exact Or.inl nothing
    · right
      by_cases ends : d.submit.taskStart.toNat + d.submit.taskNumber.toNat ≤ 2 ^ 32
      · have last := inside (d.submit.taskNumber.toNat - 1) (by omega)
        omega
      · have last := inside (2 ^ 32 - 1 - d.submit.taskStart.toNat) (by omega)
        omega

theorem listFits_iff (located : regcmdBuffer t tk = some b) : ListFits memory b tk ↔
    ∀ want ∈ shapeRegisters, ∀ a ∈ (registerReading t memory tk want).places, a.Inside := by
  simp only [registerReading_inside_iff located, ListFits]
  constructor
  · rintro (short | found) want member
    · exact Or.inl short
    · exact Or.inr (found want member)
  · intro each
    by_cases short : scanLength tk ≤ room b tk
    · exact Or.inl short
    · exact Or.inr fun want member => (each want member).resolve_left short

theorem reads_inside_iff (d : Dump) (rawn : BitVec 32) :
    (∀ a ∈ (d.footprint rawn).places, a.Inside) ↔ d.Fits rawn := by
  unfold Dump.footprint Dump.Fits
  cases mapped : d.taskArray with
  | none => simp
  | some b =>
      simp only [Reading.places_andThen, Reading.places_map, List.mem_append, Reading.mem_places_each,
        Dump.taskReading, Reading.places_read, Reading.value_read, List.mem_singleton, List.mem_range, taskCount]
      constructor
      · intro inside b' same
        cases same
        refine ⟨(tasksFit_iff d b).mpr fun k bound => ?_, fun k bound c located => ⟨?_, fun early => ?_⟩⟩
        · exact inside _ (Or.inr ⟨k, bound, Or.inl rfl⟩)
        · apply (listFits_iff located).mpr
          intro want member a found
          exact inside a (Or.inr ⟨k, bound, Or.inr ⟨want, member, found⟩⟩)
        · apply (rawReading_inside_iff d.byte located).mp
          intro a found
          exact inside a (Or.inl ⟨k, lt_min early bound, Or.inr found⟩)
      · intro fits a read
        obtain ⟨tasks, lists⟩ := fits b rfl
        have task := (tasksFit_iff d b).mp tasks
        rcases read with ⟨k, bound, rfl | found⟩ | ⟨k, bound, rfl | ⟨want, member, found⟩⟩
        · exact task k (lt_min_iff.mp bound).2
        · obtain ⟨early, bound⟩ := lt_min_iff.mp bound
          cases located : regcmdBuffer d.tracker (d.task k) with
          | none => rw [rawReading_unlocated located] at found; cases found
          | some c => exact (rawReading_inside_iff d.byte located).mpr ((lists k bound c located).2 early) a found
        · exact task k bound
        · cases located : regcmdBuffer d.tracker (d.task k) with
          | none => rw [registerReading_unlocated located] at found; cases found
          | some c => exact (listFits_iff located).mp (lists k bound c located).1 want member a found

/-- A page has room for 102 tasks, and the submit names the one after them. -/
def pastTheEnd : Dump where
  tracker := oneBuffer
  memory _ := 0
  submit := ⟨0, 102, 1, 0xff, 0, 0, 0, 0, fun _ => ⟨0, 0⟩⟩
  tasks _ := ⟨1, 0, 0⟩
  physical := []
  raw := []

theorem task_read_past_end : ¬ ∀ a ∈ (pastTheEnd.footprint 3).places, a.Inside := by
  intro inside
  have read : (⟨page, 4080, 40⟩ : Access) ∈
      (pastTheEnd.footprint 3).places := List.mem_cons_self
  exact absurd (inside _ read) (by unfold Access.Inside; decide)

end LinuxInterview.Rkspy
