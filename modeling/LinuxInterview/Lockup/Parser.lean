import LinuxInterview.Library.Scanf
import LinuxInterview.Lockup.Commands

/-!
# What `ll_write` reads

A write to `/proc/lockup_lab` is cut at its first NUL and compared with one command after another.
`Writes` says which texts spell which command, without an order among the commands.
-/

namespace LinuxInterview.Lockup
open Library Library.Scanf

/-- The comparisons of `ll_write`, in its order. -/
def parseCommand (buf : Text) : Option Command :=
  if "wd on".toList <+: buf then some .wdOn
  else if "wd off".toList <+: buf then some .wdOff
  else match sscanf buf "thresh %d" with
  | [a] => some (.thresh a)
  | _ => match sscanf buf "khung on %d" with
  | [a] => some (.khungOn a)
  | _ =>
  if "khung off".toList <+: buf then some .khungOff
  else match sscanf buf "soft %d %d" with
  | [a, b] => some (.soft a b)
  | _ => match sscanf buf "hard %d %d" with
  | [a, b] => some (.hard a b)
  | _ => match sscanf buf "hung %d" with
  | [a] => some (.hung a)
  | _ => if "stat".toList <+: buf then some .stat else none

inductive Errno
  | einval
  | efault
  deriving DecidableEq, Repr

/-- A `write` of the user. `readable` tells whether `copy_from_user` succeeds. -/
structure Request where
  text : Text
  readable : Bool
  created : Nat → Bool

/-- The string that the kernel's string functions see in `buf`. -/
def Request.buf (r : Request) : Text := r.text.takeWhile (· ≠ '\x00')

def procWrite (mask : CpuMask) (r : Request) (s : LockupLab) : Except Errno Nat × LockupLab :=
  if 64 ≤ r.text.length then (.error .einval, s)
  else if !r.readable then (.error .efault, s)
  else (.ok r.text.length, match parseCommand r.buf with
    | none => s
    | some command => s.llWrite mask ⟨command, r.created⟩)

inductive Writes (buf : Text) : Command → Prop
  | wdOn (begins : "wd on".toList <+: buf) : Writes buf .wdOn
  | wdOff (begins : "wd off".toList <+: buf) : Writes buf .wdOff
  | thresh {a : Int32} (found : Matches (format "thresh %d".toList) buf [a]) : Writes buf (.thresh a)
  | khungOn {a : Int32} (found : Matches (format "khung on %d".toList) buf [a]) : Writes buf (.khungOn a)
  | khungOff (begins : "khung off".toList <+: buf) : Writes buf .khungOff
  | soft {a b : Int32} (found : Matches (format "soft %d %d".toList) buf [a, b]) : Writes buf (.soft a b)
  | hard {a b : Int32} (found : Matches (format "hard %d %d".toList) buf [a, b]) : Writes buf (.hard a b)
  | hung {a : Int32} (found : Matches (format "hung %d".toList) buf [a]) : Writes buf (.hung a)
  | stat (begins : "stat".toList <+: buf) : Writes buf .stat

theorem writes_of_parseCommand {buf : Text} {c : Command} (parsed : parseCommand buf = some c) : Writes buf c := by
  unfold parseCommand sscanf at parsed
  split at parsed
  · rename_i begins
    cases parsed
    exact .wdOn begins
  split at parsed
  · rename_i begins
    cases parsed
    exact .wdOff begins
  split at parsed
  · rename_i a read
    cases parsed
    exact .thresh ((scan_eq_iff rfl rfl).mp read)
  split at parsed
  · rename_i a read
    cases parsed
    exact .khungOn ((scan_eq_iff rfl rfl).mp read)
  split at parsed
  · rename_i begins
    cases parsed
    exact .khungOff begins
  split at parsed
  · rename_i a b read
    cases parsed
    exact .soft ((scan_eq_iff rfl rfl).mp read)
  split at parsed
  · rename_i a b read
    cases parsed
    exact .hard ((scan_eq_iff rfl rfl).mp read)
  split at parsed
  · rename_i a read
    cases parsed
    exact .hung ((scan_eq_iff rfl rfl).mp read)
  split at parsed
  · rename_i begins
    cases parsed
    exact .stat begins
  cases parsed

/-- At most one of the comparisons holds, so their order does not matter. -/
theorem parseCommand_of_writes {buf : Text} {c : Command} (writes : Writes buf c) : parseCommand buf = some c := by
  cases writes with
  | wdOn begins => rw [parseCommand, if_pos begins]
  | wdOff begins =>
      obtain ⟨rest, rfl⟩ := begins
      simp [parseCommand]
  | @thresh a found =>
      have read : sscanf buf "thresh %d" = [a] := scan_of_matches found
      have begins : "t".toList <+: buf := found.begins (by decide)
      obtain ⟨rest, rfl⟩ := begins
      rw [parseCommand, read]
      simp
  | @khungOn a found =>
      have read : sscanf buf "khung on %d" = [a] := scan_of_matches found
      have begins : "k".toList <+: buf := found.begins (by decide)
      obtain ⟨rest, rfl⟩ := begins
      rw [parseCommand, read]
      simp (disch := decide) [sscanf_refused]
  | khungOff begins =>
      obtain ⟨rest, rfl⟩ := begins
      have noNumber : sscanf ("khung off".toList ++ rest) "khung on %d" = [] := rfl
      rw [parseCommand, noNumber]
      simp (disch := decide) [sscanf_refused]
  | @soft a b found =>
      have read : sscanf buf "soft %d %d" = [a, b] := scan_of_matches found
      have begins : "s".toList <+: buf := found.begins (by decide)
      obtain ⟨rest, rfl⟩ := begins
      rw [parseCommand, read]
      simp (disch := decide) [sscanf_refused]
  | @hard a b found =>
      have read : sscanf buf "hard %d %d" = [a, b] := scan_of_matches found
      have begins : "h".toList <+: buf := found.begins (by decide)
      obtain ⟨rest, rfl⟩ := begins
      rw [parseCommand, read]
      simp (disch := decide) [sscanf_refused]
  | @hung a found =>
      have read : sscanf buf "hung %d" = [a] := scan_of_matches found
      have begins : "hu".toList <+: buf := found.begins (by decide)
      obtain ⟨rest, rfl⟩ := begins
      have noNumbers : sscanf ("hu".toList ++ rest) "hard %d %d" = [] := rfl
      rw [parseCommand, read, noNumbers]
      simp (disch := decide) [sscanf_refused]
  | stat begins =>
      obtain ⟨rest, rfl⟩ := begins
      have noNumbers : sscanf ("stat".toList ++ rest) "soft %d %d" = [] := rfl
      rw [parseCommand, noNumbers]
      simp (disch := decide) [sscanf_refused]

theorem parseCommand_eq_some_iff (buf : Text) (c : Command) : parseCommand buf = some c ↔ Writes buf c :=
  ⟨writes_of_parseCommand, parseCommand_of_writes⟩

theorem parseCommand_eq_none_iff (buf : Text) : parseCommand buf = none ↔ ∀ c, ¬ Writes buf c := by
  rw [Option.eq_none_iff_forall_ne_some]
  exact forall_congr' fun c => not_congr (parseCommand_eq_some_iff buf c)

/-! ## Every command can be written -/

/-- The text for a command, as the usage message gives it. -/
def Command.text : Command → Text
  | .wdOn => "wd on".toList
  | .wdOff => "wd off".toList
  | .thresh a => "thresh ".toList ++ decimal a.toInt
  | .khungOn a => "khung on ".toList ++ decimal a.toInt
  | .khungOff => "khung off".toList
  | .soft a b => "soft ".toList ++ (decimal a.toInt ++ ' ' :: decimal b.toInt)
  | .hard a b => "hard ".toList ++ (decimal a.toInt ++ ' ' :: decimal b.toInt)
  | .hung a => "hung ".toList ++ decimal a.toInt
  | .stat => "stat".toList

theorem matches_decimal (a : Int32) : Matches [.blank, .decimal] (' ' :: decimal a.toInt) [a] := by
  have ends : ¬ StartsWith Char.isDigit [] := by simp [StartsWith]
  have number := Matches.number a ends (.nil [])
  have solid := decimal_stops a.toInt []
  rw [List.append_nil] at number solid
  exact .space solid number

theorem matches_decimals (a b : Int32) :
    Matches [.blank, .decimal, .blank, .decimal] (' ' :: (decimal a.toInt ++ ' ' :: decimal b.toInt)) [a, b] := by
  have second := matches_decimal b
  have first := Matches.number a (not_startsWith_cons rfl _) second
  exact .space (decimal_stops a.toInt _) first

theorem writes_text (c : Command) : Writes c.text c := by
  cases c with
  | wdOn => exact .wdOn (List.prefix_refl _)
  | wdOff => exact .wdOff (List.prefix_refl _)
  | thresh a => exact .thresh ((matches_decimal a).after "thresh".toList)
  | khungOn a =>
      have on := (matches_decimal a).after "on".toList
      exact .khungOn ((Matches.space (not_startsWith_cons rfl _) on).after "khung".toList)
  | khungOff => exact .khungOff (List.prefix_refl _)
  | soft a b => exact .soft ((matches_decimals a b).after "soft".toList)
  | hard a b => exact .hard ((matches_decimals a b).after "hard".toList)
  | hung a => exact .hung ((matches_decimal a).after "hung".toList)
  | stat => exact .stat (List.prefix_refl _)

theorem length_decimal_int32 (a : Int32) : (decimal a.toInt).length ≤ 11 := by
  apply length_decimal_le (by decide)
  have below := a.toInt_lt
  have above := a.le_toInt
  omega

section Front

variable {front : Text}

theorem length_one (short : front.length ≤ 9) (a : Int32) : (front ++ decimal a.toInt).length < 64 := by
  have number := length_decimal_int32 a
  rw [List.length_append]
  omega

theorem length_two (short : front.length ≤ 9) (a b : Int32) :
    (front ++ (decimal a.toInt ++ ' ' :: decimal b.toInt)).length < 64 := by
  have first := length_decimal_int32 a
  have second := length_decimal_int32 b
  rw [List.length_append, List.length_append, List.length_cons]
  omega

theorem nul_decimal (n : Int) : '\x00' ∉ decimal n := fun member => mem_decimal_ne member rfl (by decide) rfl

theorem nul_one (clean : '\x00' ∉ front) (a : Int32) : '\x00' ∉ front ++ decimal a.toInt := by
  intro member
  rcases List.mem_append.mp member with letter | digit
  · exact clean letter
  · exact nul_decimal _ digit

theorem nul_two (clean : '\x00' ∉ front) (a b : Int32) :
    '\x00' ∉ front ++ (decimal a.toInt ++ ' ' :: decimal b.toInt) := by
  have tail : '\x00' ∉ ' ' :: decimal b.toInt := List.not_mem_cons_of_ne_of_not_mem (by decide) (nul_decimal _)
  intro member
  rcases List.mem_append.mp member with letter | number
  · exact clean letter
  · rcases List.mem_append.mp number with digit | rest
    · exact nul_decimal _ digit
    · exact tail rest

end Front

theorem length_text (c : Command) : c.text.length < 64 := by
  cases c with
  | wdOn | wdOff | khungOff | stat => decide
  | thresh a | khungOn a | hung a => exact length_one (by decide) a
  | soft a b | hard a b => exact length_two (by decide) a b

theorem nul_text (c : Command) : '\x00' ∉ c.text := by
  cases c with
  | wdOn | wdOff | khungOff | stat => decide
  | thresh a | khungOn a | hung a => exact nul_one (by decide) a
  | soft a b | hard a b => exact nul_two (by decide) a b

/-! ## A write to the file -/

section Outcome

variable (mask : CpuMask) (r : Request) (s : LockupLab)

inductive Outcome : Except Errno Nat × LockupLab → Prop
  | tooLong (long : 64 ≤ r.text.length) : Outcome (.error .einval, s)
  | faults (short : r.text.length < 64) (unreadable : r.readable = false) : Outcome (.error .efault, s)
  | refused (short : r.text.length < 64) (readable : r.readable = true) (unknown : ∀ c, ¬ Writes r.buf c) :
      Outcome (.ok r.text.length, s)
  | runs (c : Command) (short : r.text.length < 64) (readable : r.readable = true) (writes : Writes r.buf c) :
      Outcome (.ok r.text.length, s.llWrite mask ⟨c, r.created⟩)

theorem outcome_procWrite : Outcome mask r s (procWrite mask r s) := by
  rw [procWrite]
  split
  · rename_i long
    exact .tooLong long
  split
  · rename_i short unreadable
    exact .faults (by omega) (by simpa using unreadable)
  rename_i short readable
  have short : r.text.length < 64 := by omega
  have readable : r.readable = true := by simpa using readable
  cases parsed : parseCommand r.buf with
  | none => exact .refused short readable ((parseCommand_eq_none_iff _).mp parsed)
  | some c => exact .runs c short readable (writes_of_parseCommand parsed)

theorem procWrite_eq_of_outcome {out : Except Errno Nat × LockupLab} (outcome : Outcome mask r s out) :
    procWrite mask r s = out := by
  cases outcome with
  | tooLong long => rw [procWrite, if_pos long]
  | faults short unreadable =>
      rw [procWrite, if_neg (by omega), if_pos (by simp [unreadable])]
  | refused short readable unknown =>
      rw [procWrite, if_neg (by omega), if_neg (by simp [readable]), (parseCommand_eq_none_iff _).mpr unknown]
  | runs c short readable writes =>
      rw [procWrite, if_neg (by omega), if_neg (by simp [readable]), parseCommand_of_writes writes]

/-- The written texts and the commands correspond, and every command has a text that fits. -/
theorem procWrite_iff :
    (∀ out, procWrite mask r s = out ↔ Outcome mask r s out) ∧
      ∀ w : Write, procWrite mask ⟨w.command.text, true, w.created⟩ s = (.ok w.command.text.length, s.llWrite mask w) := by
  constructor
  · intro out
    constructor
    · rintro rfl
      exact outcome_procWrite mask r s
    · exact procWrite_eq_of_outcome mask r s
  · intro w
    have whole : Request.buf ⟨w.command.text, true, w.created⟩ = w.command.text := by
      apply List.takeWhile_eq_self_iff.mpr
      intro c member
      apply decide_eq_true
      rintro rfl
      exact nul_text w.command member
    apply procWrite_eq_of_outcome
    refine .runs w.command (length_text w.command) rfl ?_
    rw [whole]
    exact writes_text w.command

end Outcome

end LinuxInterview.Lockup
