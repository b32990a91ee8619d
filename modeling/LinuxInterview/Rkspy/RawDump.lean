import LinuxInterview.Library.Words
import LinuxInterview.Rkspy.Registers

/-!
# The raw words of a register list

`dump_submit` prints the beginning of the list of a task byte by byte, with the fields that
`regcmd_find` would take from it. It counts the list in words of 32 bits.
-/

namespace LinuxInterview.Rkspy
open Library

def quadword (bytes : BitVec 64 → BitVec 8) (a : BitVec 64) : BitVec 64 :=
  littleEndian 64 ((List.range 8).map fun q => bytes (a + BitVec.ofNat 64 q))

structure RawEntry where
  bytes : List (BitVec 8)
  u64 : BitVec 64
  off : BitVec 32
  val : BitVec 32
  tag : BitVec 32

namespace RawEntry

def ofBytes (b : List (BitVec 8)) : RawEntry :=
  let e := reassemble 64 b
  ⟨b, e, BitVec.setWidth 32 (e &&& 0xffff#64), BitVec.setWidth 32 (e >>> 16 &&& 0xffffffff#64),
    BitVec.setWidth 32 (e >>> 48 &&& 0xffff#64)⟩

def text (r : RawEntry) : Text :=
  "      raw=".toList ++ [' '].intercalate (r.bytes.map fun b => padLeft 2 '0' (hexadecimal b)) ++
    "  |u64=0x".toList ++ padLeft 16 '0' (hexadecimal r.u64) ++ "| off=0x".toList ++
    padLeft 4 '0' (hexadecimal r.off) ++ " val=0x".toList ++ padLeft 8 '0' (hexadecimal r.val) ++
    " tag=0x".toList ++ padLeft 4 '0' (hexadecimal r.tag)

end RawEntry

/-- `for (j = 0; j < cnt*4 && j < 96; j += 8)`, from where it has come to `j`. -/
def rawOffsets (cnt j : Nat) : List Nat :=
  if j < cnt * 4 ∧ j < 96 then j :: rawOffsets cnt (j + 8) else []
termination_by 96 - j

def rawEntries (bytes : BitVec 64 → BitVec 8) (w : BitVec 64) (cnt : Nat) : List RawEntry :=
  (rawOffsets cnt 0).map fun j =>
    .ofBytes ((List.range 8).map fun q => bytes (w + BitVec.ofNat 64 (j + q)))

inductive RawLine
  | unknown
  | unmapped
  | buffer (b : Buf) (off : BitVec 64)
  | entry (r : RawEntry)

def RawLine.text : RawLine → Text
  | .unknown => "      (regcmd 不在已知 buffer 內)".toList
  | .unmapped => "      (regcmd buffer 沒 mmap)".toList
  | .buffer b off => "      regcmd buffer va=0x".toList ++ hexadecimal b.va ++ " dma=0x".toList ++
      hexadecimal b.dmaAddr ++ " off=0x".toList ++ hexadecimal off
  | .entry r => r.text

def RawLine.entry? : RawLine → Option RawEntry
  | .entry r => some r
  | _ => none

/-- The lines for one task, after the one that names it. -/
def rawDump (t : Tracker) (bytes : BitVec 64 → BitVec 8) (tk : Task) : List RawLine :=
  match (findByDma t tk.regcmdAddr).bind fun ri => t.bufs[ri]? with
  | none => [.unknown]
  | some b =>
      if b.va = 0#64 then [.unmapped]
      else
        let off := tk.regcmdAddr - b.dmaAddr
        let cnt := (tk.regcfgAmount + 4#32).toNat
        .buffer b off :: (rawEntries bytes (b.va + off) (if 24 < cnt then 24 else cnt)).map .entry

def shown (t : Tracker) (bytes : BitVec 64 → BitVec 8) (tk : Task) : List RawEntry :=
  (rawDump t bytes tk).filterMap RawLine.entry?

/-- The entries that `regcmd_find` looks at for a register that the list does not write. -/
def scanned (t : Tracker) (bytes : BitVec 64 → BitVec 8) (tk : Task) : List (BitVec 64) :=
  (regcmdBuffer t tk).elim [] fun b => commands (quadword bytes) (commandsAt b tk) (scanLength tk)

def ViewsAgree (t : Tracker) (bytes : BitVec 64 → BitVec 8) (tk : Task) : Prop :=
  (shown t bytes tk).map (fun r => (r.u64, r.off.toNat, r.val)) =
    ((scanned t bytes tk).take (min (listLength tk) 12)).map
      fun entry => (entry, (entryOffset entry).toNat, entryValue entry)

/-! ## What is shown -/

theorem rawOffsets_eq (cnt j : Nat) :
    rawOffsets cnt j = (List.range ((min (cnt * 4) 96 - j + 7) / 8)).map fun i => j + 8 * i := by
  fun_induction rawOffsets cnt j with
  | case1 j inside ih =>
      have count : (min (cnt * 4) 96 - j + 7) / 8 = (min (cnt * 4) 96 - (j + 8) + 7) / 8 + 1 := by omega
      rw [ih, count, List.range_succ_eq_map, List.map_cons, List.map_map]
      congr 1
      apply List.map_congr_left
      intro i _
      simp only [Function.comp_apply]
      omega
  | case2 j outside =>
      have count : (min (cnt * 4) 96 - j + 7) / 8 = 0 := by omega
      rw [count]
      rfl

theorem rawEntries_eq (bytes : BitVec 64 → BitVec 8) (w : BitVec 64) {cnt : Nat} (cap : cnt ≤ 24) :
    (rawEntries bytes w cnt).map (fun r => (r.u64, r.off.toNat, r.val)) =
      (commands (quadword bytes) w ((cnt + 1) / 2)).map
        fun entry => (entry, (entryOffset entry).toNat, entryValue entry) := by
  have count : (min (cnt * 4) 96 - 0 + 7) / 8 = (cnt + 1) / 2 := by omega
  rw [rawEntries, rawOffsets_eq, count, commands, List.map_map, List.map_map, List.map_map]
  apply List.map_congr_left
  intro i _
  have entry : reassemble 64 ((List.range 8).map fun q => bytes (w + BitVec.ofNat 64 (0 + 8 * i + q))) =
      quadword bytes (w + 8#64 * BitVec.ofNat 64 i) := by
    rw [reassemble_eq_littleEndian, quadword]
    congr 1
    apply List.map_congr_left
    intro q _
    rw [Nat.zero_add, BitVec.ofNat_add, BitVec.ofNat_mul, BitVec.add_assoc]
  simp only [Function.comp_apply, RawEntry.ofBytes, entry]
  refine Prod.ext rfl (Prod.ext ?_ rfl)
  have small : (quadword bytes (w + 8#64 * BitVec.ofNat 64 i) &&& 0xffff#64).toNat ≤ 0xffff := by
    rw [BitVec.toNat_and]
    exact Nat.and_le_right
  exact (BitVec.toNat_setWidth ..).trans (Nat.mod_eq_of_lt (by omega))

variable {t : Tracker} {bytes : BitVec 64 → BitVec 8} {tk : Task} {b : Buf}

theorem filterMap_entry (entries : List RawEntry) :
    (entries.map RawLine.entry).filterMap RawLine.entry? = entries := by
  rw [List.filterMap_map]
  exact List.filterMap_some

theorem shown_located (located : regcmdBuffer t tk = some b) :
    shown t bytes tk = rawEntries bytes (commandsAt b tk) (min (scanLength tk) 24) := by
  have cap : (if 24 < scanLength tk then 24 else scanLength tk) = min (scanLength tk) 24 := by
    split <;> omega
  obtain ⟨lookup, va⟩ := regcmdBuffer_eq_some_iff.mp located
  rw [shown, rawDump, lookup]
  simp only [if_neg va]
  rw [← scanLength, cap, List.filterMap_cons]
  exact filterMap_entry _

theorem shown_unlocated (lost : regcmdBuffer t tk = none) : shown t bytes tk = [] := by
  unfold shown rawDump
  split
  · rfl
  · rename_i b lookup
    split
    · rfl
    · rename_i va
      rw [regcmdBuffer_eq_some_iff.mpr ⟨lookup, va⟩] at lost
      cases lost

theorem take_commands (memory : BitVec 64 → BitVec 64) (e : BitVec 64) (n m : Nat) :
    (commands memory e n).take m = commands memory e (min m n) := by
  rw [commands, ← List.map_take, List.take_range, commands]

theorem viewsAgree_iff (t : Tracker) (bytes : BitVec 64 → BitVec 8) (tk : Task) :
    ViewsAgree t bytes tk ↔ regcmdBuffer t tk = none ∨ scanLength tk ≤ 1 ∨ 23 ≤ scanLength tk := by
  cases located : regcmdBuffer t tk with
  | none => simp [ViewsAgree, shown_unlocated located, scanned, located]
  | some b =>
      have beginning : (scanned t bytes tk).take (min (listLength tk) 12) =
          commands (quadword bytes) (commandsAt b tk) (min (scanLength tk) 12) := by
        have bound := scanLength_le tk
        rw [scanned, located, Option.elim_some, take_commands]
        congr 1
        omega
      rw [ViewsAgree, shown_located located, beginning, rawEntries_eq _ _ (by omega)]
      constructor
      · intro same
        have count := congrArg List.length same
        simp only [commands, List.length_map, List.length_range] at count
        omega
      · intro condition
        have count : (min (scanLength tk) 24 + 1) / 2 = min (scanLength tk) 12 := by
          rcases condition with nothing | short | long
          · cases nothing
          · omega
          · omega
        rw [count]

/-- Of four entries two are shown. -/
theorem short_list_is_halved : ¬ ViewsAgree oneBuffer (fun _ => 0) firstTask := by
  have located : regcmdBuffer oneBuffer firstTask =
      some page := by decide
  have four : scanLength firstTask = 4 := by decide
  intro agree
  rw [ViewsAgree, shown_located located, rawEntries_eq _ _ (min_le_right _ _), scanned, located,
    Option.elim_some, four] at agree
  have count := congrArg List.length agree
  simp [commands, listLength, firstTask] at count

end LinuxInterview.Rkspy
