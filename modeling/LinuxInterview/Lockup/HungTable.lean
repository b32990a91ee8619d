import LinuxInterview.Library.History

/-!
# The switch-count table of the small `khungtaskd`
-/

namespace LinuxInterview.Lockup
open Library

structure Task where
  id : Nat
  pid : Nat
  state : BitVec 32
  nvcsw : UInt64
  nivcsw : UInt64

def Task.switchCount (t : Task) : UInt64 := t.nvcsw + t.nivcsw

def htMax : Nat := 512

def ulongMax : UInt64 := 0xffffffffffffffff

structure HtEntry where
  pid : Nat
  switchCount : UInt64

/-- The loop of `ht_slot` from index `i` on: the slot of the pid, or else the first free one. -/
def htSlotLoop (pid i : Nat) (freeSlot : Option Nat) : List HtEntry → Nat ⊕ Option Nat
  | [] => .inr freeSlot
  | entry :: rest =>
      if entry.pid = pid then .inl i
      else htSlotLoop pid (i + 1) (if freeSlot = none ∧ entry.pid = 0 then some i else freeSlot) rest

def htSlot (htTab : List HtEntry) (pid : Nat) : Option (Nat × List HtEntry) :=
  match htSlotLoop pid 0 none htTab with
  | .inl i => some (i, htTab)
  | .inr none => none
  | .inr (some freeSlot) => some (freeSlot, htTab.set freeSlot ⟨pid, ulongMax⟩)

def checkOne (htTab : List HtEntry) (t : Task) : List HtEntry × Bool :=
  match htSlot htTab t.pid with
  | none => (htTab, false)
  | some (i, htTab) =>
      if htTab[i]?.map HtEntry.switchCount ≠ some t.switchCount then
        (htTab.set i ⟨t.pid, t.switchCount⟩, false)
      else (htTab, true)

/-! ## What the table remembers of a history -/

structure Sighting where
  scan : Nat
  task : Nat
  pid : Nat
  count : UInt64
  deriving DecidableEq, Repr

def tracked (history : List Sighting) : List Nat :=
  (firstKeys (history.map Sighting.pid)).take htMax

def lastUnder (pid : Nat) (history : List Sighting) : Option Sighting :=
  latest (fun g => g.pid == pid) history

def lastCount (history : List Sighting) (pid : Nat) : UInt64 :=
  (lastUnder pid history).elim ulongMax Sighting.count

def entriesOf (history : List Sighting) (pids : List Nat) : List HtEntry :=
  pids.map fun pid => ⟨pid, lastCount history pid⟩

def rememberedTable (history : List Sighting) : List HtEntry :=
  entriesOf history (tracked history) ++
    List.replicate (htMax - (tracked history).length) ⟨0, 0⟩

def Recalled (history : List Sighting) (g : Sighting) : Prop :=
  g.pid ∈ tracked (history ++ [g]) ∧ lastCount history g.pid = g.count

instance (history : List Sighting) (g : Sighting) : Decidable (Recalled history g) :=
  inferInstanceAs (Decidable (_ ∧ _))

theorem tracked_append_singleton (history : List Sighting) (g : Sighting) :
    tracked (history ++ [g]) =
      if g.pid ∈ tracked history ∨ htMax ≤ (tracked history).length then tracked history
      else tracked history ++ [g.pid] := by
  have known : ∀ pid ∈ tracked history, pid ∈ firstKeys (history.map Sighting.pid) :=
    fun pid => List.mem_of_mem_take
  rw [tracked, List.map_append, List.map_singleton, firstKeys_append_singleton]
  by_cases full : htMax ≤ (firstKeys (history.map Sighting.pid)).length
  · have length : htMax ≤ (tracked history).length := by
      rw [tracked, List.length_take]
      omega
    rw [if_pos (Or.inr length)]
    split
    · rfl
    · exact List.take_append_of_le_length full
  · have all : tracked history = firstKeys (history.map Sighting.pid) :=
      List.take_of_length_le (by omega)
    rw [all]
    by_cases old : g.pid ∈ firstKeys (history.map Sighting.pid)
    · rw [if_pos old, if_pos (Or.inl old)]
      exact all
    · rw [if_neg old, if_neg (by simp only [old, full, or_self, not_false_eq_true])]
      apply List.take_of_length_le
      rw [List.length_append, List.length_singleton]
      omega

theorem lastCount_append_singleton (history : List Sighting) (g : Sighting) (pid : Nat) :
    lastCount (history ++ [g]) pid = if g.pid = pid then g.count else lastCount history pid := by
  rw [lastCount, lastUnder, latest_append_singleton]
  by_cases same : g.pid = pid
  · simp [same]
  · simp [same, lastCount, lastUnder]

/-! ## The search -/

theorem htSlotLoop_used {pid : Nat} {used : List HtEntry}
    (others : ∀ entry ∈ used, entry.pid ≠ pid ∧ entry.pid ≠ 0) (i : Nat) (rest : List HtEntry) :
    htSlotLoop pid i none (used ++ rest) = htSlotLoop pid (i + used.length) none rest := by
  induction used generalizing i with
  | nil => rfl
  | cons entry used ih =>
      obtain ⟨other, taken⟩ := others entry List.mem_cons_self
      have next := ih (fun entry member => others entry (List.mem_cons_of_mem _ member)) (i + 1)
      rw [List.cons_append, htSlotLoop, if_neg other, if_neg (fun free => taken free.2), next,
        List.length_cons, Nat.add_right_comm, Nat.add_assoc]

theorem htSlotLoop_free {pid : Nat} (taken : pid ≠ 0) (i n free : Nat) :
    htSlotLoop pid i (some free) (List.replicate n ⟨0, 0⟩) = .inr (some free) := by
  induction n generalizing i with
  | zero => rfl
  | succ n ih =>
      rw [List.replicate_succ, htSlotLoop, if_neg taken.symm, if_neg (by simp)]
      exact ih (i + 1)

theorem htSlotLoop_blank {pid : Nat} (taken : pid ≠ 0) (i n : Nat) :
    htSlotLoop pid i none (List.replicate (n + 1) ⟨0, 0⟩) = .inr (some i) := by
  rw [List.replicate_succ, htSlotLoop, if_neg taken.symm, if_pos (by simp)]
  exact htSlotLoop_free taken (i + 1) n i

/-! ## `check_one` keeps the table to the history -/

variable {history : List Sighting} {g : Sighting}

theorem mem_tracked_pos (positive : ∀ e ∈ history, e.pid ≠ 0) : ∀ pid ∈ tracked history, pid ≠ 0 := by
  intro pid member
  have known := mem_firstKeys.mp (List.mem_of_mem_take member)
  obtain ⟨e, inside, rfl⟩ := List.mem_map.mp known
  exact positive e inside

@[simp] theorem length_entriesOf (history : List Sighting) (pids : List Nat) :
    (entriesOf history pids).length = pids.length := List.length_map _

theorem rememberedTable_split {pid : Nat} {before after : List Nat}
    (split : tracked history = before ++ pid :: after) :
    rememberedTable history = entriesOf history before ++ ⟨pid, lastCount history pid⟩ ::
      (entriesOf history after ++ List.replicate (htMax - (tracked history).length) ⟨0, 0⟩) := by
  have entries : entriesOf history (tracked history) =
      entriesOf history before ++ ⟨pid, lastCount history pid⟩ :: entriesOf history after := by
    rw [split, entriesOf, List.map_append]
    rfl
  rw [rememberedTable, entries, List.append_assoc]
  rfl

theorem htSlot_tracked (positive : ∀ e ∈ history, e.pid ≠ 0) {pid : Nat} {before after : List Nat}
    (split : tracked history = before ++ pid :: after) :
    htSlot (rememberedTable history) pid = some (before.length, rememberedTable history) := by
  have distinct : (tracked history).Nodup := (nodup_firstKeys _).sublist (List.take_sublist _ _)
  have others : ∀ entry ∈ entriesOf history before, entry.pid ≠ pid ∧ entry.pid ≠ 0 := by
    intro entry member
    obtain ⟨other, inside, rfl⟩ := List.mem_map.mp member
    have listed : other ∈ tracked history := by rw [split]; exact List.mem_append_left _ inside
    refine ⟨?_, mem_tracked_pos positive other listed⟩
    rw [split, List.nodup_append] at distinct
    exact distinct.2.2 other inside pid List.mem_cons_self
  have found : htSlotLoop pid 0 none (rememberedTable history) = .inl before.length := by
    rw [rememberedTable_split split, htSlotLoop_used others]
    simp [htSlotLoop]
  rw [htSlot, found]

theorem htSlot_untracked (positive : ∀ e ∈ history, e.pid ≠ 0) {pid : Nat} (taken : pid ≠ 0)
    (untracked : pid ∉ tracked history) :
    htSlot (rememberedTable history) pid =
      if htMax ≤ (tracked history).length then none
      else some ((tracked history).length,
        (rememberedTable history).set (tracked history).length ⟨pid, ulongMax⟩) := by
  have others : ∀ entry ∈ entriesOf history (tracked history), entry.pid ≠ pid ∧ entry.pid ≠ 0 := by
    intro entry member
    obtain ⟨other, inside, rfl⟩ := List.mem_map.mp member
    exact ⟨fun same => untracked (same ▸ inside), mem_tracked_pos positive other inside⟩
  have searched : htSlotLoop pid 0 none (rememberedTable history) =
      htSlotLoop pid (tracked history).length none
        (List.replicate (htMax - (tracked history).length) ⟨0, 0⟩) := by
    rw [rememberedTable, htSlotLoop_used others, length_entriesOf, Nat.zero_add]
  by_cases full : htMax ≤ (tracked history).length
  · rw [if_pos full, htSlot, searched, Nat.sub_eq_zero_of_le full]
    rfl
  · obtain ⟨blanks, left⟩ := Nat.exists_eq_succ_of_ne_zero (Nat.sub_ne_zero_of_lt (Nat.lt_of_not_le full))
    rw [if_neg full, htSlot, searched, left, htSlotLoop_blank taken]

def Task.sighting (t : Task) (scan : Nat) : Sighting := ⟨scan, t.id, t.pid, t.switchCount⟩

theorem checkOne_of_slot {htTab before after : List HtEntry} {t : Task} {i : Nat} {count : UInt64}
    (slot : htSlot htTab t.pid = some (i, before ++ ⟨t.pid, count⟩ :: after))
    (position : i = before.length) :
    checkOne htTab t =
      (before ++ ⟨t.pid, t.switchCount⟩ :: after, decide (count = t.switchCount)) := by
  have holds : (before ++ (⟨t.pid, count⟩ : HtEntry) :: after)[before.length]? = some ⟨t.pid, count⟩ := by
    simp
  rw [checkOne, slot, position]
  by_cases same : count = t.switchCount
  · simp [same]
  · simp [same]

theorem lastCount_append_self (history : List Sighting) (g : Sighting) :
    lastCount (history ++ [g]) g.pid = g.count := by
  rw [lastCount_append_singleton, if_pos rfl]

theorem lastCount_eq_ulongMax {pid : Nat} (unseen : pid ∉ history.map Sighting.pid) :
    lastCount history pid = ulongMax := by
  have none : lastUnder pid history = none := by
    rw [lastUnder, latest_eq_none_iff]
    intro e inside
    simp only [beq_eq_false_iff_ne]
    exact fun same => unseen (same ▸ List.mem_map_of_mem inside)
  rw [lastCount, none]
  rfl

theorem entriesOf_append {pids : List Nat} (others : g.pid ∉ pids) :
    entriesOf (history ++ [g]) pids = entriesOf history pids := by
  apply List.map_congr_left
  intro pid member
  have other : g.pid ≠ pid := fun same => others (same ▸ member)
  rw [lastCount_append_singleton, if_neg other]

theorem unseen_of_room {pid : Nat} (room : (tracked history).length < htMax)
    (untracked : pid ∉ tracked history) : pid ∉ history.map Sighting.pid := by
  have all : tracked history = firstKeys (history.map Sighting.pid) := by
    apply List.take_of_length_le
    rw [tracked, List.length_take] at room
    omega
  rwa [all, mem_firstKeys] at untracked

theorem checkOne_tracked (positive : ∀ e ∈ history, e.pid ≠ 0) {t : Task} (scan : Nat)
    (listed : t.pid ∈ tracked history) :
    checkOne (rememberedTable history) t =
      (rememberedTable (history ++ [t.sighting scan]), decide (lastCount history t.pid = t.switchCount)) := by
  have same : tracked (history ++ [t.sighting scan]) = tracked history :=
    (tracked_append_singleton _ _).trans (if_pos (Or.inl listed))
  obtain ⟨before, after, split⟩ := List.append_of_mem listed
  have distinct : (tracked history).Nodup := (nodup_firstKeys _).sublist (List.take_sublist _ _)
  rw [split, List.nodup_append, List.nodup_cons] at distinct
  have notBefore : (t.sighting scan).pid ∉ before :=
    fun inside => distinct.2.2 _ inside _ List.mem_cons_self rfl
  have notAfter : (t.sighting scan).pid ∉ after := distinct.2.1.1
  have here : lastCount (history ++ [t.sighting scan]) t.pid = t.switchCount :=
    lastCount_append_self history (t.sighting scan)
  have slot := htSlot_tracked positive split
  rw [rememberedTable_split split] at slot ⊢
  rw [rememberedTable_split (same.trans split), same, here, entriesOf_append notBefore,
    entriesOf_append notAfter]
  exact checkOne_of_slot slot (length_entriesOf _ _).symm

theorem checkOne_new (positive : ∀ e ∈ history, e.pid ≠ 0) {t : Task} (taken : t.pid ≠ 0) (scan : Nat)
    (untracked : t.pid ∉ tracked history) (room : (tracked history).length < htMax) :
    checkOne (rememberedTable history) t =
      (rememberedTable (history ++ [t.sighting scan]), decide (ulongMax = t.switchCount)) := by
  have longer : tracked (history ++ [t.sighting scan]) = tracked history ++ t.pid :: [] :=
    (tracked_append_singleton _ _).trans (if_neg (by simp [Task.sighting, untracked, room]))
  have here : lastCount (history ++ [t.sighting scan]) t.pid = t.switchCount :=
    lastCount_append_self history (t.sighting scan)
  obtain ⟨blanks, left⟩ := Nat.exists_eq_succ_of_ne_zero (Nat.sub_ne_zero_of_lt room)
  have fewer : htMax - (tracked history ++ t.pid :: []).length = blanks := by
    rw [List.length_append, List.length_singleton]
    omega
  have slot := htSlot_untracked positive taken untracked
  rw [if_neg (Nat.not_le.mpr room)] at slot
  rw [rememberedTable_split longer, longer, fewer, here, entriesOf_append untracked]
  apply checkOne_of_slot _ (length_entriesOf history _).symm
  rw [slot]
  simp [rememberedTable, left, List.replicate_succ, entriesOf]

theorem checkOne_full (positive : ∀ e ∈ history, e.pid ≠ 0) {t : Task} (taken : t.pid ≠ 0) (scan : Nat)
    (untracked : t.pid ∉ tracked history) (full : htMax ≤ (tracked history).length) :
    checkOne (rememberedTable history) t = (rememberedTable (history ++ [t.sighting scan]), false) := by
  have same : tracked (history ++ [t.sighting scan]) = tracked history :=
    (tracked_append_singleton _ _).trans (if_pos (Or.inr full))
  have slot := htSlot_untracked positive taken untracked
  rw [if_pos full] at slot
  rw [checkOne, slot, rememberedTable, rememberedTable, same, entriesOf_append untracked]

/-- The table stands for the history before and after a check, which reports what it recalls. -/
theorem checkOne_rememberedTable (positive : ∀ e ∈ history, e.pid ≠ 0) (t : Task) (taken : t.pid ≠ 0)
    (scan : Nat) :
    checkOne (rememberedTable history) t =
      (rememberedTable (history ++ [t.sighting scan]), decide (Recalled history (t.sighting scan))) := by
  have appended : tracked (history ++ [t.sighting scan]) =
      if t.pid ∈ tracked history ∨ htMax ≤ (tracked history).length then tracked history
      else tracked history ++ [t.pid] := tracked_append_singleton _ _
  have recalled : Recalled history (t.sighting scan) ↔
      t.pid ∈ tracked (history ++ [t.sighting scan]) ∧ lastCount history t.pid = t.switchCount := Iff.rfl
  by_cases listed : t.pid ∈ tracked history
  · rw [appended, if_pos (Or.inl listed), and_iff_right listed] at recalled
    rw [checkOne_tracked positive scan listed, decide_eq_decide.mpr recalled]
  by_cases room : (tracked history).length < htMax
  · have unseen := lastCount_eq_ulongMax (unseen_of_room room listed)
    have last : t.pid ∈ tracked history ++ [t.pid] :=
      List.mem_append_right _ (List.mem_singleton_self _)
    rw [appended, if_neg (by simp [listed, room]), and_iff_right last, unseen] at recalled
    rw [checkOne_new positive taken scan listed room, decide_eq_decide.mpr recalled]
  · have full : htMax ≤ (tracked history).length := Nat.le_of_not_lt room
    rw [appended, if_pos (Or.inr full)] at recalled
    have forgotten : ¬ Recalled history (t.sighting scan) := fun found => listed (recalled.mp found).1
    rw [checkOne_full positive taken scan listed full, decide_eq_false forgotten]

end LinuxInterview.Lockup
