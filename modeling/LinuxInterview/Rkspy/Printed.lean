import LinuxInterview.Rkspy.Readback

/-!
# What `load` makes of any log

The tables that wrap past the last task number are among them, and so are the logs without a table.
The rows past the limit are passed over, so that the hardware's rule is followed along the rows that
are left.
-/

namespace LinuxInterview.Rkspy
open Library Library.Csv

namespace Dump

/-- The value in force for the `k`-th task when the rows of `before` were kept. -/
def inForceAfter (d : Dump) (before : List Nat) (key : Key) (k : Nat) : Option Nat :=
  (k :: before.reverse.takeWhile fun j => d.op j = d.op k).findSome? (d.reading key)

def tileAfter (d : Dump) (before : List Nat) (k : Nat) : Option Tile := do
  let w ← d.inForceAfter before .W k
  let kh ← d.inForceAfter before .kh k
  return ⟨(d.number k).toNat, (d.op k).toNat, w, d.inForceAfter before .H k, kh, d.inForceAfter before .sy k⟩

def tilesAfter (d : Dump) : List Nat → List Nat → List Tile
  | _, [] => []
  | before, k :: ks => (d.tileAfter before k).toList ++ d.tilesAfter (before ++ [k]) ks

def keptRows (d : Dump) (limit : Int) : List Nat :=
  (List.range d.submit.taskNumber.toNat).filter fun k => ((d.number k).toNat : Int) < limit

def keptTiles (d : Dump) (limit : Int) : List Tile := d.tilesAfter [] (d.keptRows limit)

end Dump

/-- The tiles of the first submit, where its task buffer is known and mapped. -/
def tilesOf (limit : Int) : List Output → List Tile
  | [] => []
  | .remark _ :: rest => tilesOf limit rest
  | .submit d :: _ =>
      match d.taskBuffer with
      | none => []
      | some b => if b.va = 0#64 then [] else d.keptTiles limit

/-! ## The rows -/

def held (d : Dump) (before : List Nat) (op : Nat) (key : Key) : Option Nat :=
  (before.reverse.takeWhile fun j => (d.op j).toNat = op).findSome? (d.reading key)

structure Holds (d : Dump) (before : List Nat) (l : Loader) : Prop where
  inFirst : l.inFirst = true
  started : l.nsub = 1
  last : ∀ op, (l.enter op).last = held d before op

theorem inForceAfter_eq (d : Dump) (before : List Nat) (key : Key) (k : Nat) :
    d.inForceAfter before key k = (d.reading key k).or (held d before (d.op k).toNat key) := by
  have sameOp : (fun j => decide (d.op j = d.op k)) = fun j => decide ((d.op j).toNat = (d.op k).toNat) := by
    funext j
    rw [decide_eq_decide]
    exact BitVec.toNat_inj.symm
  rw [Dump.inForceAfter, sameOp, List.findSome?_cons]
  cases d.reading key k <;> rfl

theorem held_append (d : Dump) (before : List Nat) (k op : Nat) (key : Key) :
    held d (before ++ [k]) op key =
      if (d.op k).toNat = op then d.inForceAfter before key k else none := by
  rw [held, List.reverse_append, List.reverse_singleton, List.singleton_append, List.takeWhile_cons]
  by_cases same : (d.op k).toNat = op
  · rw [if_pos (by simpa using same), if_pos same, inForceAfter_eq, same, List.findSome?_cons]
    cases d.reading key k <;> rfl
  · rw [if_neg (by simpa using same), if_neg same]
    rfl

theorem append_keptRow (d : Dump) (before : List Nat) (k : Nat) (l : Loader) :
    (l.append (d.number k).toNat (d.op k).toNat fun key => d.inForceAfter before key k).rows =
      l.rows ++ (d.tileAfter before k).toList := by
  simp only [Loader.append, Dump.tileAfter]
  cases width : d.inForceAfter before .W k with
  | none => simp
  | some w =>
      cases height : d.inForceAfter before .kh k with
      | none => simp
      | some kh => rfl

theorem holds_row {d : Dump} {limit : Int} {before : List Nat} {l : Loader} (holds : Holds d before l)
    {k : Nat} (inside : ((d.number k).toNat : Int) < limit) :
    ∃ l', l.readLine limit (d.row k ++ ['\n']) = .ok l' ∧ Holds d (before ++ [k]) l' ∧
      l'.rows = l.rows ++ (d.tileAfter before k).toList := by
  rw [d.readLine_row k limit holds.inFirst, if_neg (not_le.mpr inside)]
  have inForce : (fun key => (d.reading key k).or ((l.enter (d.op k).toNat).last key)) =
      fun key => d.inForceAfter before key k := by
    funext key
    rw [inForceAfter_eq, holds.last]
  rw [inForce]
  refine ⟨_, rfl, ⟨?_, ?_, ?_⟩, ?_⟩
  · rw [Loader.append_inFirst, Loader.enter_inFirst, holds.inFirst]
  · rw [Loader.append_nsub, Loader.enter_nsub, holds.started]
  · intro op
    funext key
    rw [Loader.enter, Loader.append_curOp, Loader.enter_curOp, held_append]
    by_cases same : (d.op k).toNat = op
    · rw [if_pos (congrArg some same.symm), if_pos same, Loader.append_last]
    · rw [if_neg (fun equal => same (Option.some.inj equal).symm), if_neg same]
  · rw [append_keptRow, Loader.enter_rows]

theorem holds_rows {d : Dump} {limit : Int} {before : List Nat} {l : Loader} (holds : Holds d before l)
    (ks : List Nat) :
    ∃ l', Reads limit l (ks.map d.row) l' ∧ 1 ≤ l'.nsub ∧
      l'.rows = l.rows ++ d.tilesAfter before (ks.filter fun k => ((d.number k).toNat : Int) < limit) := by
  induction ks generalizing before l with
  | nil => exact ⟨l, .nil, by rw [holds.started], (List.append_nil _).symm⟩
  | cons k ks ih =>
      by_cases inside : ((d.number k).toNat : Int) < limit
      · obtain ⟨next, here, carried, rows⟩ := holds_row holds inside
        obtain ⟨l', rest, started, collected⟩ := ih carried
        refine ⟨l', .cons here rest, started, ?_⟩
        rw [collected, rows, List.filter_cons, if_pos (decide_eq_true inside), Dump.tilesAfter,
          List.append_assoc]
      · have skipped : l.readLine limit (d.row k ++ ['\n']) = .ok l := by
          rw [d.readLine_row k limit holds.inFirst, if_pos (not_lt.mp inside)]
        obtain ⟨l', rest, started, collected⟩ := ih holds
        refine ⟨l', .cons skipped rest, started, ?_⟩
        rw [collected, List.filter_cons, if_neg (by simpa using inside)]

/-! ## The submit and the log -/

theorem quiet_apologies : ∀ line ∈ ["  !! 找不到 task buffer".toList, "  !! task buffer 沒 mmap".toList],
    Quiet line := by decide +kernel

theorem reads_table (d : Dump) (limit : Int) {l : Loader} (holds : Holds d [] l) :
    ∃ l', Reads limit l d.dumpTasks l' ∧ 1 ≤ l'.nsub ∧
      l'.rows = l.rows ++ tilesOf limit [.submit d] := by
  by_cases mapped : d.Mapped
  · obtain ⟨lines, quiet, written⟩ := Dump.exists_quiet_tasks mapped
    obtain ⟨l', rows, started, collected⟩ := holds_rows holds (List.range d.submit.taskNumber.toNat)
    obtain ⟨b, buffer, va⟩ := mapped
    refine ⟨l', ?_, started, ?_⟩
    · rw [written]
      exact (Reads.quiet quiet).append (reads_rows rows (-1))
    · rw [collected, tilesOf, buffer]
      simp only [if_neg va]
      rfl
  · have silent : (∀ line ∈ d.dumpTasks, Quiet line) ∧ tilesOf limit [.submit d] = [] := by
      rw [tilesOf, Dump.dumpTasks]
      cases buffer : d.taskBuffer with
      | none => exact ⟨List.forall_mem_singleton.mpr (quiet_apologies _ List.mem_cons_self), rfl⟩
      | some b =>
          have va : b.va = 0#64 := by
            by_contra present
            exact mapped ⟨b, buffer, present⟩
          simp only [if_pos va]
          exact ⟨List.forall_mem_singleton.mpr
            (quiet_apologies _ (List.mem_cons_of_mem _ List.mem_cons_self)), trivial⟩
    exact ⟨l, .quiet silent.1, by rw [holds.started], by rw [silent.2, List.append_nil]⟩

theorem reads_submit (d : Dump) (limit : Int) :
    ∃ l, Reads limit .start (d.dumpSubmit 1) l ∧ 1 ≤ l.nsub ∧ l.rows = tilesOf limit [.submit d] := by
  have ready : Holds d [] Loader.start.submit := by
    refine ⟨rfl, rfl, fun op => ?_⟩
    rw [Loader.enter, if_neg (by simp [Loader.submit])]
    rfl
  obtain ⟨l, table, started, rows⟩ := reads_table d limit ready
  have blank : Reads limit .start [[]] .start := .quiet (List.forall_mem_singleton.mpr quiet_nil)
  have opening : Reads limit Loader.start.submit
      (Dump.heading d.submit ++ d.physical.map Remark.text) Loader.start.submit :=
    .quiet (quiet_submit d.submit d.physical)
  refine ⟨l, ?_, started, rows⟩
  rw [Dump.dumpSubmit]
  exact blank.append (.cons (readLine_banner limit .start 1) (opening.append table))

theorem reads_log (limit : Int) (outputs : List Output) :
    ∃ l, Reads limit .start (log 0 outputs) l ∧ l.rows = tilesOf limit outputs := by
  induction outputs with
  | nil => exact ⟨.start, .nil, rfl⟩
  | cons output outputs ih =>
      cases output with
      | remark r =>
          obtain ⟨l, rest, rows⟩ := ih
          have first : Reads limit .start [r.text] .start :=
            .quiet (List.forall_mem_singleton.mpr (quiet_remark r))
          exact ⟨l, first.append rest, rows⟩
      | submit d =>
          obtain ⟨l, first, started, rows⟩ := reads_submit d limit
          obtain ⟨l', rest, kept⟩ := reads_later limit started 1 outputs
          exact ⟨l', first.append rest, kept.trans rows⟩

theorem load_printed (limit : Int) (outputs : List Output) :
    load (printed (log 0 outputs)) limit = .ok (tilesOf limit outputs) := by
  obtain ⟨l, read, rows⟩ := reads_log limit outputs
  rw [load, printed, fileLines_lines (oneLine_log 0 outputs), bind_eq_ok_iff]
  exact ⟨l, read, by rw [rows]; rfl⟩

end LinuxInterview.Rkspy
