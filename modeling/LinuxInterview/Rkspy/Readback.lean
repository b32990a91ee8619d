import LinuxInterview.Rkspy.TableLines

/-!
# The table read back

Over the lines of one submit the loader is driven by the rows alone, and what it has carried to a
task is what the run of that task's operation left. The lines of any later submit leave its rows as
they are.
-/

namespace LinuxInterview.Rkspy
open Library Library.Csv

/-! ## Reading a list of lines -/

def Reads (limit : Int) (l : Loader) (lines : List Text) (l' : Loader) : Prop :=
  (lines.map (· ++ ['\n'])).foldlM (Loader.readLine limit) l = .ok l'

namespace Reads

variable {limit : Int} {l l' l'' : Loader}

theorem nil : Reads limit l [] l := rfl

theorem append {first second : List Text} (before : Reads limit l first l')
    (after : Reads limit l' second l'') : Reads limit l (first ++ second) l'' := by
  rw [Reads, List.map_append, List.foldlM_append, bind_eq_ok_iff]
  exact ⟨l', before, after⟩

theorem cons {line : Text} {lines : List Text}
    (here : l.readLine limit (line ++ ['\n']) = .ok l') (after : Reads limit l' lines l'') :
    Reads limit l (line :: lines) l'' := by
  rw [Reads, List.map_cons, List.foldlM_cons, bind_eq_ok_iff]
  exact ⟨l', here, after⟩

theorem quiet {lines : List Text} (passedOver : ∀ line ∈ lines, Quiet line) :
    Reads limit l lines l := by
  induction lines with
  | nil => exact nil
  | cons line lines ih =>
      have here := passedOver line List.mem_cons_self
      apply cons _ (ih fun other member => passedOver other (List.mem_cons_of_mem _ member))
      rw [Loader.readLine, if_neg (not_mark here.unmarked), here.noRow]
      split <;> rfl

end Reads

/-! ## Later submits -/

def Loader.Past (l : Loader) (rows : List Tile) : Prop :=
  l.inFirst = false ∧ 1 ≤ l.nsub ∧ l.rows = rows

theorem past_submit {l : Loader} (started : 1 ≤ l.nsub) : l.submit.Past l.rows := by
  refine ⟨?_, ?_, rfl⟩
  · simp only [Loader.submit, decide_eq_false_iff_not]
    omega
  · simp only [Loader.submit]
    omega

theorem Loader.Past.readLine {l : Loader} {rows : List Tile} (past : l.Past rows) (limit : Int)
    (line : Text) : ∃ l', l.readLine limit line = .ok l' ∧ l'.Past rows := by
  obtain ⟨outside, started, kept⟩ := past
  by_cases marked : Loader.submitMark <:+: line
  · refine ⟨l.submit, by rw [Loader.readLine, if_pos marked], ?_⟩
    rw [← kept]
    exact past_submit started
  · refine ⟨l, ?_, outside, started, kept⟩
    rw [Loader.readLine, if_neg marked, outside]
    rfl

theorem Loader.Past.reads {l : Loader} {rows : List Tile} (past : l.Past rows) (limit : Int)
    (lines : List Text) : ∃ l', Reads limit l lines l' ∧ l'.rows = rows := by
  induction lines generalizing l with
  | nil => exact ⟨l, .nil, past.2.2⟩
  | cons line lines ih =>
      obtain ⟨next, read, later⟩ := past.readLine limit (line ++ ['\n'])
      obtain ⟨l', rest, kept⟩ := ih later
      exact ⟨l', .cons read rest, kept⟩

theorem mark_banner (seen : Nat) : Loader.submitMark <:+: Dump.banner seen ++ ['\n'] := by
  have opening : "================ SUBMIT #".toList = "================ ".toList ++ Loader.submitMark := by
    decide
  refine ⟨"================ ".toList, Nat.toDigits 10 seen ++ " ================".toList ++ ['\n'], ?_⟩
  unfold Dump.banner
  rw [opening]
  simp only [List.append_assoc]

theorem readLine_banner (limit : Int) (l : Loader) (seen : Nat) :
    l.readLine limit (Dump.banner seen ++ ['\n']) = .ok l.submit := by
  rw [Loader.readLine, if_pos (mark_banner seen)]

theorem quiet_nil : Quiet [] := by decide

theorem reads_later (limit : Int) {l : Loader} (started : 1 ≤ l.nsub) (seen : Nat)
    (later : List Output) : ∃ l', Reads limit l (log seen later) l' ∧ l'.rows = l.rows := by
  induction later generalizing seen with
  | nil => exact ⟨l, .nil, rfl⟩
  | cons output later ih =>
      cases output with
      | remark r =>
          obtain ⟨l', rest, kept⟩ := ih seen
          have first : Reads limit l [r.text] l :=
            .quiet (List.forall_mem_singleton.mpr (quiet_remark r))
          exact ⟨l', first.append rest, kept⟩
      | submit d =>
          have blank : Reads limit l [[]] l := .quiet (List.forall_mem_singleton.mpr quiet_nil)
          obtain ⟨l', rest, kept⟩ := (past_submit started).reads limit
            ((Dump.heading d.submit ++ d.physical.map Remark.text ++ d.dumpTasks) ++
              log (seen + 1) later)
          exact ⟨l', blank.append (.cons (readLine_banner limit l (seen + 1)) rest), kept⟩

/-! ## The rows of the table -/

theorem intDecimal_unsigned {w : Nat} (n : BitVec w) : intDecimal (unsigned n) = .ok n.toNat := by
  have nonempty : unsigned n ≠ [] := Nat.toDigits_ne_nil
  rw [intDecimal, if_neg nonempty]
  exact foldlM_toDigits (by decide) (by decide) n.toNat

theorem readKey_cell {m : List Text} {found : Option (BitVec 32)} (last : Key → Option Nat)
    (entry : Key × Nat) (raw : m[entry.2 - 1]?.getD [] = Dump.cell found) :
    Loader.readKey m last entry =
      .ok (Function.update last entry.1 ((found.map BitVec.toNat).or (last entry.1))) := by
  rw [Loader.readKey, raw]
  cases found with
  | none =>
      rw [if_pos (show Dump.cell none = ['-'] from rfl), Option.map_none, Option.none_or,
        Function.update_eq_self]
      rfl
  | some value =>
      have number : unsigned value ≠ ['-'] := by
        intro same
        have digit := isDigit_of_mem_unsigned (n := value) (same ▸ List.mem_singleton_self '-')
        exact absurd digit (by decide)
      rw [if_neg (show Dump.cell (some value) ≠ ['-'] from number)]
      change (intDecimal (unsigned value) >>= _) = _
      rw [intDecimal_unsigned]
      rfl

namespace Dump

def groupsOf (d : Dump) (k : Nat) : List Text :=
  unsigned (d.number k) :: unsigned (d.op k) :: Column.all.map fun c => cell (d.found c k)

theorem readKeys (d : Dump) (k : Nat) (last : Key → Option Nat) :
    keys.foldlM (Loader.readKey (d.groupsOf k)) last =
      .ok fun key => (d.reading key k).or (last key) := by
  have step : ∀ (entry : Key × Nat) (kept : Key → Option Nat),
      (d.groupsOf k)[entry.2 - 1]?.getD [] = cell (d.found entry.1.column k) →
      Loader.readKey (d.groupsOf k) kept entry =
        .ok (Function.update kept entry.1 ((d.reading entry.1 k).or (kept entry.1))) :=
    fun entry kept raw => readKey_cell kept entry raw
  rw [keys, List.foldlM_cons, bind_eq_ok_iff]
  refine ⟨_, step (.W, 3) last rfl, ?_⟩
  rw [List.foldlM_cons, bind_eq_ok_iff]
  refine ⟨_, step (.H, 4) _ rfl, ?_⟩
  rw [List.foldlM_cons, bind_eq_ok_iff]
  refine ⟨_, step (.kh, 9) _ rfl, ?_⟩
  rw [List.foldlM_cons, bind_eq_ok_iff]
  refine ⟨_, step (.sy, 11) _ rfl, ?_⟩
  apply congrArg Except.ok
  funext key
  cases key <;> rfl

theorem readLine_row (d : Dump) (k : Nat) (limit : Int) {l : Loader} (inFirst : l.inFirst = true) :
    l.readLine limit (d.row k ++ ['\n']) =
      if limit ≤ (d.number k).toNat then .ok l
      else .ok ((l.enter (d.op k).toNat).append (d.number k).toNat (d.op k).toNat
        fun key => (d.reading key k).or ((l.enter (d.op k).toNat).last key)) := by
  have matched : groups rowPattern (d.row k ++ ['\n']) = some (d.groupsOf k) := groups_row d k
  rw [Loader.readLine, if_neg (not_mark (unmarked_row d k)), inFirst, if_pos rfl, matched]
  change (intDecimal (unsigned (d.number k)) >>= _) = _
  rw [intDecimal_unsigned]
  change (intDecimal (unsigned (d.op k)) >>= _) = _
  rw [intDecimal_unsigned]
  change (if _ then _ else (keys.foldlM (Loader.readKey (d.groupsOf k)) _ >>= _)) = _
  rw [readKeys]
  rfl

end Dump

theorem reads_rows {d : Dump} {limit : Int} {l l' : Loader} {ks : List Nat}
    (read : Reads limit l (ks.map d.row) l') (prevOp : Int) : Reads limit l (d.rows prevOp ks) l' := by
  induction ks generalizing l prevOp with
  | nil => exact read
  | cons k ks ih =>
      obtain ⟨next, here, rest⟩ := bind_eq_ok_iff.mp read
      apply Reads.append _ (.cons here (ih rest (d.op k).toInt))
      apply Reads.quiet
      split
      · exact List.forall_mem_singleton.mpr Dump.quiet_separator
      · exact List.forall_mem_nil _

/-! ## What is carried to a task -/

/-- The loader before the row of the `k`-th task. Past the limit nothing is said of what it carries. -/
structure Carries (d : Dump) (limit : Int) (k : Nat) (l : Loader) : Prop where
  inFirst : l.inFirst = true
  started : l.nsub = 1
  rows : l.rows = (List.range k).filterMap (d.tileBelow limit)
  last : ((d.submit.taskStart.toNat + k : Nat) : Int) < limit →
    ∀ key, (l.enter (d.op k).toNat).last key = carriedTo d.op (d.reading key) k

theorem number_toNat {d : Dump} {k : Nat} (fits : d.submit.taskStart.toNat + k < 2 ^ 32) :
    (d.number k).toNat = d.submit.taskStart.toNat + k := by
  rw [Dump.number, BitVec.toNat_add, BitVec.toNat_ofNat, Nat.add_mod_mod, Nat.mod_eq_of_lt fits]

theorem filterMap_range_succ {α : Type} (f : Nat → Option α) (k : Nat) :
    (List.range (k + 1)).filterMap f = (List.range k).filterMap f ++ (f k).toList := by
  rw [List.range_succ, List.filterMap_append]
  cases here : f k <;> simp [here]

theorem append_rows (d : Dump) (k : Nat) (l : Loader) :
    (l.append (d.number k).toNat (d.op k).toNat fun key => d.inForce key k).rows =
      l.rows ++ (d.tile k).toList := by
  simp only [Loader.append, Dump.tile]
  cases width : d.inForce .W k with
  | none => simp
  | some w =>
      cases height : d.inForce .kh k with
      | none => simp
      | some kh => rfl

theorem carries_row {d : Dump} {limit : Int} {k : Nat} {l : Loader} (carries : Carries d limit k l)
    (fits : d.submit.taskStart.toNat + k < 2 ^ 32) :
    ∃ l', l.readLine limit (d.row k ++ ['\n']) = .ok l' ∧ Carries d limit (k + 1) l' := by
  have number := number_toNat fits
  rw [d.readLine_row k limit carries.inFirst]
  split
  · rename_i past
    have skipped : d.tileBelow limit k = none := if_neg (not_lt.mpr past)
    refine ⟨l, rfl, carries.inFirst, carries.started, ?_, fun below => ?_⟩
    · rw [filterMap_range_succ, skipped, carries.rows]
      exact (List.append_nil _).symm
    · rw [number] at past
      omega
  · rename_i inside
    have below : ((d.number k).toNat : Int) < limit := not_le.mp inside
    have inForce : (fun key => (d.reading key k).or ((l.enter (d.op k).toNat).last key)) =
        fun key => d.inForce key k := by
      funext key
      rw [Dump.inForce, mostRecent_eq, carries.last (by rwa [← number]) key]
    rw [inForce]
    refine ⟨_, rfl, ?_, ?_, ?_, fun next key => ?_⟩
    · simpa using carries.inFirst
    · simpa using carries.started
    · rw [append_rows, filterMap_range_succ, Loader.enter_rows, carries.rows, Dump.tileBelow, if_pos below]
    · rw [Loader.enter, Loader.append_curOp, Loader.enter_curOp, carriedTo]
      by_cases same : d.op k = d.op (k + 1)
      · rw [if_pos same, if_pos (by rw [same]), Loader.append_last]
        rfl
      · have differs : ¬ some (d.op (k + 1)).toNat = some (d.op k).toNat := fun equal =>
          same (BitVec.eq_of_toNat_eq (Option.some.inj equal)).symm
        rw [if_neg same, if_neg differs]

theorem carries_rows {d : Dump} {limit : Int} {l : Loader} (carries : Carries d limit 0 l) {n : Nat}
    (fits : d.submit.taskStart.toNat + n ≤ 2 ^ 32) :
    ∃ l', Reads limit l ((List.range n).map d.row) l' ∧ Carries d limit n l' := by
  induction n with
  | zero => exact ⟨l, .nil, carries⟩
  | succ n ih =>
      obtain ⟨middle, before, carried⟩ := ih (by omega)
      obtain ⟨l', here, next⟩ := carries_row carried (by omega)
      refine ⟨l', ?_, next⟩
      rw [List.range_succ, List.map_append]
      exact before.append (.cons here .nil)

/-! ## The whole log -/

theorem quiet_submit (s : Submit) (physical : List Remark) :
    ∀ line ∈ Dump.heading s ++ physical.map Remark.text, Quiet line := by
  rw [List.forall_mem_append, List.forall_mem_map]
  exact ⟨Dump.quiet_heading s, fun r _ => quiet_remark r⟩

theorem oneLine_of_notMem {line : Text} (plain : '\n' ∉ line ∧ '\r' ∉ line) :
    ∀ c ∈ line, c ≠ '\n' ∧ c ≠ '\r' := fun _ member =>
  ⟨ne_of_mem_of_not_mem member plain.1, ne_of_mem_of_not_mem member plain.2⟩

theorem oneLine_banner (seen : Nat) : ∀ c ∈ Dump.banner seen, c ≠ '\n' ∧ c ≠ '\r' := by
  unfold Dump.banner
  rw [List.forall_mem_append, List.forall_mem_append]
  refine ⟨⟨oneLine_of_notMem (by decide), ?_⟩, oneLine_of_notMem (by decide)⟩
  exact fun c member => (unmarked_digits seen c member).imp_right And.left

theorem oneLine_log (seen : Nat) (outputs : List Output) :
    ∀ line ∈ log seen outputs, ∀ c ∈ line, c ≠ '\n' ∧ c ≠ '\r' := by
  have oneLine : ∀ {line : Text}, Unmarked line → ∀ c ∈ line, c ≠ '\n' ∧ c ≠ '\r' :=
    fun unmarked c member => (unmarked c member).imp_right And.left
  induction outputs generalizing seen with
  | nil => exact List.forall_mem_nil _
  | cons output outputs ih =>
      cases output with
      | remark r => exact List.forall_mem_cons.mpr ⟨r.oneLine, ih seen⟩
      | submit d =>
          have opening := quiet_submit d.submit d.physical
          rw [log, Dump.dumpSubmit, List.forall_mem_append, List.forall_mem_cons, List.forall_mem_cons,
            List.forall_mem_append]
          exact ⟨⟨oneLine quiet_nil.unmarked, oneLine_banner (seen + 1),
            fun line member => oneLine (opening line member).unmarked,
            fun line member => oneLine (Dump.unmarked_dumpTasks d line member)⟩, ih (seen + 1)⟩

theorem reads_first {d : Dump} (mapped : d.Mapped) (limit : Int)
    (fits : d.submit.taskStart.toNat + d.submit.taskNumber.toNat ≤ 2 ^ 32) :
    ∃ l, Reads limit .start (d.dumpSubmit 1) l ∧ 1 ≤ l.nsub ∧ l.rows = d.tiles limit := by
  have ready : Carries d limit 0 Loader.start.submit := by
    refine ⟨rfl, rfl, rfl, fun _ key => ?_⟩
    rw [Loader.enter, if_neg (by simp [Loader.submit])]
    rfl
  obtain ⟨l, rows, carried⟩ := carries_rows ready fits
  obtain ⟨lines, quiet, written⟩ := Dump.exists_quiet_tasks mapped
  have blank : Reads limit .start [[]] .start := .quiet (List.forall_mem_singleton.mpr quiet_nil)
  have opening : Reads limit Loader.start.submit
      (Dump.heading d.submit ++ d.physical.map Remark.text) Loader.start.submit :=
    .quiet (quiet_submit d.submit d.physical)
  have table := (Reads.quiet quiet).append (reads_rows rows (-1))
  refine ⟨l, ?_, by rw [carried.started], carried.rows⟩
  rw [Dump.dumpSubmit, written]
  exact blank.append (.cons (readLine_banner limit .start 1) (opening.append table))

theorem log_remarks (seen : Nat) (remarks : List Remark) (outputs : List Output) :
    log seen (remarks.map .remark ++ outputs) = remarks.map Remark.text ++ log seen outputs := by
  induction remarks with
  | nil => rfl
  | cons r remarks ih => rw [List.map_cons, List.cons_append, log, ih, List.map_cons, List.cons_append]

theorem exists_raw (t : Tracker) (bytes : BitVec 64 → BitVec 8) (tk : Task) :
    ∃ raw : List Remark, raw.map Remark.text = (rawDump t bytes tk).map RawLine.text :=
  ⟨(rawDump t bytes tk).map RawLine.remark, List.map_map⟩

/-- The hypothesis on the numbers holds of every table that starts at task 0. The lines of the raw words are such as
`d.raw` may hold. -/
theorem load_log (before : List Remark) {d : Dump} (mapped : d.Mapped)
    (fits : d.submit.taskStart.toNat + d.submit.taskNumber.toNat ≤ 2 ^ 32) (later : List Output)
    (limit : Int) :
    load (printed (log 0 (before.map .remark ++ .submit d :: later))) limit = .ok (d.tiles limit) ∧
      ∀ bytes tk, ∃ raw : List Remark, raw.map Remark.text = (rawDump d.tracker bytes tk).map RawLine.text := by
  refine ⟨?_, exists_raw d.tracker⟩
  have remarks : Reads limit .start (before.map Remark.text) .start :=
    .quiet (List.forall_mem_map.mpr fun r _ => quiet_remark r)
  obtain ⟨l, first, started, rows⟩ := reads_first mapped limit fits
  obtain ⟨l', rest, kept⟩ := reads_later limit started 1 later
  have read : Reads limit .start (log 0 (before.map .remark ++ .submit d :: later)) l' := by
    rw [log_remarks]
    exact remarks.append (first.append rest)
  rw [load, printed, fileLines_lines (oneLine_log 0 _), bind_eq_ok_iff]
  exact ⟨l', read, by rw [kept, rows]; rfl⟩

/-- The second task writes its size alone, and the third belongs to another operation. -/
def threeTasks : Dump where
  tracker := ⟨[⟨1, 0, 0xff, 0x1000, 0x1000, 0, 0x7000⟩], by decide⟩
  memory a :=
    if a = 0x7000 then 0x00e000711020
    else if a = 0x7008 then 0x030300001038
    else if a = 0x7010 then 0x000000121014
    else if a = 0x7040 then 0x00e000701020
    else 0
  submit := ⟨0, 0, 3, 0xff, 0, 0, 1, 0, fun _ => ⟨0, 3⟩⟩
  tasks i := if i = 0 then ⟨1, 1, 0x1000⟩ else if i = 1 then ⟨1, 1, 0x1040⟩ else ⟨2, 1, 0x1080⟩
  physical := []
  raw := []

theorem load_log_threeTasks :
    load (printed (log 0 [.submit threeTasks, .submit threeTasks])) 3 =
      .ok [⟨0, 1, 224, some 113, 3, some 2⟩, ⟨1, 1, 224, some 112, 3, some 2⟩] := by
  have mapped : threeTasks.Mapped := ⟨⟨1, 0, 0xff, 0x1000, 0x1000, 0, 0x7000⟩, rfl, by decide⟩
  have tiles : threeTasks.tiles 3 =
      [⟨0, 1, 224, some 113, 3, some 2⟩, ⟨1, 1, 224, some 112, 3, some 2⟩] := by decide
  rw [← tiles]
  exact (load_log [] mapped (by decide) [.submit threeTasks] 3).1

end LinuxInterview.Rkspy
