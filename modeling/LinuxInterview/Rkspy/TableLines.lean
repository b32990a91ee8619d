import LinuxInterview.Rkspy.RawDump
import LinuxInterview.Rkspy.Tiling

/-!
# The lines of the log, one by one

A row of the table is split into its cells, and every other line of a submit is passed over, the one
that starts the submit aside.
-/

namespace LinuxInterview.Rkspy
open Library

/-! ## Rows -/

theorem isDigit_of_isBlank {c : Char} (blank : isBlank c = true) : c.isDigit = false := by
  cases digit : c.isDigit with
  | false => rfl
  | true => rw [isBlank_of_isDigit digit] at blank; contradiction

theorem isDigit_of_mem_unsigned {w : Nat} {n : BitVec w} {c : Char} (member : c ∈ unsigned n) :
    c.isDigit = true :=
  Nat.isDigit_of_mem_toDigits (by decide) (by decide) member

theorem isWord_unsigned {w : Nat} (n : BitVec w) : IsWord (unsigned n) where
  nonempty := Nat.toDigits_ne_nil
  solid _ member := isBlank_of_isDigit (isDigit_of_mem_unsigned member)

theorem isWord_cell (found : Option (BitVec 32)) : IsWord (Dump.cell found) := by
  cases found with
  | none => exact (by decide : IsWord ['-'])
  | some value => exact isWord_unsigned value

def fill (n : Nat) : Text := List.replicate n ' '

theorem isBlank_of_mem_fill {n : Nat} : ∀ c ∈ fill n, isBlank c = true := by
  intro c member
  rw [List.eq_of_mem_replicate member]
  rfl

theorem blank_head_append {gap rest : Text} (blank : ∀ c ∈ gap, isBlank c = true)
    (next : ∀ c ∈ rest.head?, isBlank c = true) : ∀ c ∈ (gap ++ rest).head?, isBlank c = true := by
  intro c member
  cases gap with
  | nil => exact next c member
  | cons d gap => exact blank c (List.mem_of_mem_head? member)

def printCells (cells : List (Nat × Text)) : Text :=
  cells.flatMap fun (width, cell) => ' ' :: padLeft width ' ' cell

theorem blank_head_printCells (cells : List (Nat × Text)) :
    ∀ c ∈ (printCells cells ++ ['\n']).head?, isBlank c = true := by
  cases cells with
  | nil => simp [printCells, isBlank, blanks]
  | cons cell cells => simp [printCells, isBlank, blanks]

theorem groups_cells {cells : List (Nat × Text)} (words : ∀ cell ∈ cells, IsWord cell.2)
    {gap : Text} (blank : ∀ c ∈ gap, isBlank c = true) :
    groups ((List.replicate cells.length [blankRun, solidRun]).flatten ++ [blankEnd])
      (gap ++ (printCells cells ++ ['\n'])) = some (cells.map Prod.snd) := by
  induction cells generalizing gap with
  | nil =>
      apply groups_blankEnd
      intro c member
      rcases List.mem_append.mp member with inside | last
      · exact blank c inside
      · obtain rfl := List.mem_singleton.mp last
        rfl
  | cons cell cells ih =>
      obtain ⟨width, word⟩ := cell
      have isWord : IsWord word := words (width, word) List.mem_cons_self
      have noGap : ∀ c ∈ ([] : Text), isBlank c = true := by simp
      have rest := ih (fun other member => words other (List.mem_cons_of_mem _ member)) noGap
      have before : ∀ c ∈ gap ++ fill (width - word.length + 1), isBlank c = true := by
        intro c member
        rcases List.mem_append.mp member with inside | filled
        · exact blank c inside
        · exact isBlank_of_mem_fill c filled
      have accepted : ∀ c ∈ word, (!isBlank c) = true := by
        intro c member
        rw [isWord.solid c member]
        rfl
      have stop : ∀ c ∈ (printCells cells ++ ['\n']).head?, (!isBlank c) = false := by
        intro c member
        rw [blank_head_printCells cells c member]
        rfl
      have matched := groups_gap_word (q := solidRun) rfl rfl le_rfl (by simp [fill]) before isWord
        accepted stop rest
      simpa [printCells, padLeft, fill, List.replicate_succ] using matched

theorem groups_tableLine {task op : Text} (taskWord : IsWord task) (opWord : IsWord op)
    (taskDigits : ∀ c ∈ task, c.isDigit = true) (opDigits : ∀ c ∈ op, c.isDigit = true)
    {cells : List (Nat × Text)} (words : ∀ cell ∈ cells, IsWord cell.2) (eleven : cells.length = 11) :
    groups rowPattern (tableLine task op cells ++ ['\n']) =
      some (task :: op :: cells.map Prod.snd) := by
  let afterOp := fill (6 - op.length) ++ (printCells cells ++ ['\n'])
  let afterTask := fill (5 - task.length + 1) ++ (op ++ afterOp)
  have opEnds : ∀ c ∈ afterOp.head?, c.isDigit = false := fun c member => isDigit_of_isBlank
    (blank_head_append isBlank_of_mem_fill (blank_head_printCells cells) c member)
  have taskEnds : ∀ c ∈ afterTask.head?, c.isDigit = false := by
    intro c member
    obtain rfl : ' ' = c := by simpa [afterTask, fill, List.replicate_succ] using member
    rfl
  have cellsMatched := groups_cells words (isBlank_of_mem_fill (n := 6 - op.length))
  rw [eleven] at cellsMatched
  have opMatched := groups_gap_word (q := digitRun) rfl rfl le_rfl (by simp [fill])
    (isBlank_of_mem_fill (n := 5 - task.length + 1)) opWord opDigits opEnds cellsMatched
  have taskMatched := groups_run (p := digitRun) rfl taskDigits taskEnds
    (List.length_pos_iff.mpr taskWord.nonempty) opMatched
  have two : Piece.longest ⟨isBlank, 2, some 2, false⟩ (' ' :: ' ' :: (task ++ afterTask)) = 2 := by
    simp [Piece.longest, isBlank, blanks]
  have matched : groups rowPattern (' ' :: ' ' :: (task ++ afterTask)) =
      some (task :: op :: cells.map Prod.snd) :=
    groups_longest (by rw [two]) (by rw [two]; exact taskMatched)
  have line : tableLine task op cells ++ ['\n'] = ' ' :: ' ' :: (task ++ afterTask) := by
    simp [tableLine, padRight, afterTask, afterOp, printCells, fill, List.replicate_succ']
  rw [line, matched]

theorem groups_row (d : Dump) (k : Nat) : groups rowPattern (d.row k ++ ['\n']) =
    some (unsigned (d.number k) :: unsigned (d.op k) ::
      Column.all.map fun c => Dump.cell (d.found c k)) := by
  have words : ∀ cell ∈ Column.all.map (fun c => (c.width, Dump.cell (d.found c k))),
      IsWord cell.2 := by
    intro cell member
    obtain ⟨c, _, rfl⟩ := List.mem_map.mp member
    exact isWord_cell (d.found c k)
  have matched := groups_tableLine (isWord_unsigned (d.number k)) (isWord_unsigned (d.op k))
    (fun _ member => isDigit_of_mem_unsigned member) (fun _ member => isDigit_of_mem_unsigned member)
    words rfl
  rw [List.map_map] at matched
  exact matched

/-! ## Other lines -/

def Unmarked (line : Text) : Prop := ∀ c ∈ line, c ≠ '\n' ∧ c ≠ '\r' ∧ c ≠ '#'

instance (line : Text) : Decidable (Unmarked line) := List.decidableBAll _ line

structure Quiet (line : Text) : Prop where
  unmarked : Unmarked line
  noRow : groups rowPattern (line ++ ['\n']) = none

instance (line : Text) : Decidable (Quiet line) :=
  decidable_of_iff (Unmarked line ∧ groups rowPattern (line ++ ['\n']) = none)
    ⟨fun ⟨unmarked, noRow⟩ => ⟨unmarked, noRow⟩, fun quiet => ⟨quiet.unmarked, quiet.noRow⟩⟩

theorem not_mark {line : Text} (unmarked : Unmarked line) :
    ¬ Loader.submitMark <:+: line ++ ['\n'] := by
  intro marked
  have hash : '#' ∈ line ++ ['\n'] := marked.subset (by decide)
  rcases List.mem_append.mp hash with inside | last
  · exact (unmarked '#' inside).2.2 rfl
  · exact absurd last (by decide)

@[simp] theorem unmarked_append {first second : Text} :
    Unmarked (first ++ second) ↔ Unmarked first ∧ Unmarked second := List.forall_mem_append

theorem unmarked_fill (n : Nat) : Unmarked (fill n) := by
  intro c member
  rw [List.eq_of_mem_replicate member]
  decide

theorem unmarked_of_isAlphanum {text : Text} (alphanum : ∀ c ∈ text, c.isAlphanum = true) :
    Unmarked text := by
  intro c member
  have present := alphanum c member
  refine ⟨?_, ?_, ?_⟩ <;> rintro rfl <;> simp at present

@[simp] theorem unmarked_digits (n : Nat) : Unmarked (Nat.toDigits 10 n) := by
  apply unmarked_of_isAlphanum
  intro c member
  simp [Char.isAlphanum, Nat.isDigit_of_mem_toDigits (by decide) (by decide) member]

@[simp] theorem unmarked_unsigned {w : Nat} (n : BitVec w) : Unmarked (unsigned n) :=
  unmarked_digits n.toNat

@[simp] theorem unmarked_hexadecimal {w : Nat} (n : BitVec w) : Unmarked (hexadecimal n) :=
  unmarked_of_isAlphanum fun _ member => isAlphanum_of_mem_hex member

@[simp] theorem unmarked_signed {w : Nat} (n : BitVec w) : Unmarked (signed n) := fun _ member =>
  ⟨mem_decimal_ne member (by decide) (by decide), mem_decimal_ne member (by decide) (by decide),
    mem_decimal_ne member (by decide) (by decide)⟩

@[simp] theorem unmarked_padLeft_zero {width : Nat} {s : Text} : Unmarked (padLeft width '0' s) ↔ Unmarked s := by
  have zeros : Unmarked (List.replicate (width - s.length) '0') := by
    intro c member
    rw [List.eq_of_mem_replicate member]
    decide
  simp [padLeft, zeros]

theorem unmarked_intercalate {cells : List Text} (unmarked : ∀ cell ∈ cells, Unmarked cell) :
    Unmarked ([' '].intercalate cells) := by
  have blank : Unmarked [' '] := by decide
  induction cells with
  | nil => simp [Unmarked]
  | cons cell cells ih =>
      rw [List.forall_mem_cons] at unmarked
      cases cells with
      | nil => simpa using unmarked.1
      | cons next cells =>
          rw [List.intercalate_cons_cons, unmarked_append, unmarked_append]
          exact ⟨⟨unmarked.1, blank⟩, ih unmarked.2⟩

/-- The pattern asks for a digit after two blanks. -/
theorem groups_eq_none_of_start {text : Text}
    (notRow : ¬ ((text.take 2).all isBlank = true ∧ (text[2]?).any Char.isDigit = true)) :
    groups rowPattern text = none := by
  apply groups_eq_none
  intro n two within
  have most : n ≤ min 2 (text.takeWhile isBlank).length := within
  obtain rfl : n = 2 := le_antisymm (most.trans (Nat.min_le_left 2 _)) two
  apply groups_eq_none_of_short
  have blank : (text.take 2).all isBlank = true := by
    obtain ⟨tail, whole⟩ := text.takeWhile_prefix isBlank
    have run : (text.takeWhile isBlank).all isBlank = true := List.all_takeWhile
    rw [List.all_eq_true] at run
    rw [← whole, List.take_append_of_le_length (most.trans (Nat.min_le_right 2 _)), List.all_eq_true]
    exact fun c member => run c (List.mem_of_mem_take member)
  have noDigit : (text.drop 2).takeWhile Char.isDigit = [] := by
    have third : ¬ ((text.drop 2).head?).any Char.isDigit = true := by
      rw [List.head?_drop]
      exact fun digit => notRow ⟨blank, digit⟩
    cases after : text.drop 2 with
    | nil => rfl
    | cons c rest =>
        rw [List.takeWhile_cons, if_neg]
        simpa [after] using third
  change ((text.drop 2).takeWhile Char.isDigit).length < 1
  simp [noDigit]

theorem start_snoc {text : Text}
    (notRow : ¬ ((text.take 2).all isBlank = true ∧ (text[2]?).any Char.isDigit = true)) :
    ¬ (((text ++ ['\n']).take 2).all isBlank = true ∧
      ((text ++ ['\n'])[2]?).any Char.isDigit = true) := by
  match text with
  | [] => decide
  | [_] => simp
  | [_, _] => simp
  | _ :: _ :: _ :: _ => simpa using notRow

theorem quiet_of_start {text : Text} (unmarked : Unmarked text)
    (notRow : ¬ ((text.take 2).all isBlank = true ∧ (text[2]?).any Char.isDigit = true)) : Quiet text :=
  ⟨unmarked, groups_eq_none_of_start (start_snoc notRow)⟩

theorem quiet_remark (r : Remark) : Quiet r.text := by
  apply quiet_of_start _ r.notRow
  intro c member
  obtain ⟨noFeed, noReturn⟩ := r.oneLine c member
  refine ⟨noFeed, noReturn, ?_⟩
  rintro rfl
  exact r.unnumbered member

theorem unmarked_rawEntry (r : RawEntry) : Unmarked r.text := by
  have bytes : Unmarked ([' '].intercalate (r.bytes.map fun b => padLeft 2 '0' (hexadecimal b))) :=
    unmarked_intercalate (List.forall_mem_map.mpr fun b _ => unmarked_padLeft_zero.mpr (unmarked_hexadecimal b))
  unfold RawEntry.text
  simp only [unmarked_append, unmarked_padLeft_zero, unmarked_hexadecimal, bytes, and_true]
  decide

theorem unmarked_rawLine (l : RawLine) : Unmarked l.text := by
  cases l with
  | unknown => exact (by decide +kernel : Unmarked "      (regcmd 不在已知 buffer 內)".toList)
  | unmapped => exact (by decide +kernel : Unmarked "      (regcmd buffer 沒 mmap)".toList)
  | buffer b off =>
      unfold RawLine.text
      simp only [unmarked_append, unmarked_hexadecimal, and_true]
      decide
  | entry r => exact unmarked_rawEntry r

/-- The lines of the raw words are such as a submit may hold before its table. -/
def RawLine.remark (l : RawLine) : Remark where
  text := l.text
  oneLine c member := ⟨(unmarked_rawLine l c member).1, (unmarked_rawLine l c member).2.1⟩
  unnumbered member := (unmarked_rawLine l '#' member).2.2 rfl
  notRow := by
    cases l with
    | unknown => decide +kernel
    | unmapped => decide +kernel
    | buffer b off =>
        unfold RawLine.text
        simp [isBlank, blanks]
    | entry r =>
        unfold RawLine.text RawEntry.text
        simp [isBlank, blanks]

namespace Dump

/-- Three lines of the heading start as a row does, with a digit after two blanks. -/
theorem quiet_tableHeading : ∀ line ∈ tableHeading, Quiet line := by decide +kernel

theorem quiet_separator : Quiet "    ----".toList := by decide +kernel

theorem quiet_heading (s : Submit) : ∀ line ∈ heading s, Quiet line := by
  intro line member
  simp only [heading, List.mem_cons, List.mem_map] at member
  rcases member with rfl | rfl | ⟨i, _, rfl⟩
  · apply quiet_of_start
    · simp only [unmarked_append, unmarked_hexadecimal, unmarked_unsigned, unmarked_signed, and_true]
      decide
    · simp [isBlank, blanks]
  · apply quiet_of_start
    · simp only [unmarked_append, unmarked_hexadecimal, unmarked_signed, and_true]
      decide
    · simp [isBlank, blanks]
  · apply quiet_of_start
    · simp only [unmarked_append, unmarked_digits, unmarked_unsigned, and_true]
      decide
    · simp [isBlank, blanks]

theorem unmarked_row (d : Dump) (k : Nat) : Unmarked (d.row k) := by
  have cells : ∀ found, Unmarked (cell found) := by
    intro found
    cases found with
    | none => exact (by decide : Unmarked ['-'])
    | some value => exact unmarked_unsigned value
  have printed : Unmarked (printCells (Column.all.map fun c => (c.width, cell (d.found c k)))) := by
    intro c member
    obtain ⟨⟨width, text⟩, inside, member⟩ := List.mem_flatMap.mp member
    obtain ⟨column, _, same⟩ := List.mem_map.mp inside
    obtain ⟨rfl, rfl⟩ := Prod.mk.inj same
    have parts : Unmarked (fill (column.width - (cell (d.found column k)).length + 1) ++
        cell (d.found column k)) := unmarked_append.mpr ⟨unmarked_fill _, cells _⟩
    exact parts c member
  have gaps : Unmarked [' ', ' '] ∧ Unmarked [' '] := by decide
  simp only [row, tableLine, padRight, unmarked_append, unmarked_unsigned, gaps, true_and, and_true]
  exact ⟨⟨unmarked_fill _, unmarked_fill _⟩, printed⟩

theorem mem_rows {d : Dump} {line : Text} {prevOp : Int} {ks : List Nat}
    (member : line ∈ d.rows prevOp ks) : line = "    ----".toList ∨ ∃ k ∈ ks, line = d.row k := by
  induction ks generalizing prevOp with
  | nil => cases member
  | cons k ks ih =>
      rcases List.mem_append.mp member with separator | rest
      · split at separator
        · exact .inl (List.mem_singleton.mp separator)
        · cases separator
      · rcases List.mem_cons.mp rest with here | later
        · exact .inr ⟨k, List.mem_cons_self, here⟩
        · rcases ih later with separator | ⟨j, inside, same⟩
          · exact .inl separator
          · exact .inr ⟨j, List.mem_cons_of_mem k inside, same⟩

/-- The task buffer is known and mapped, so the table is written. -/
def Mapped (d : Dump) : Prop := ∃ b, d.taskBuffer = some b ∧ b.va ≠ 0#64

theorem quiet_bufferLine (b : Buf) : Quiet (bufferLine b) := by
  unfold bufferLine
  apply quiet_of_start
  · simp only [unmarked_append, unmarked_hexadecimal, unmarked_unsigned, and_true]
    decide
  · simp [isBlank, blanks]

theorem exists_quiet_tasks {d : Dump} (mapped : d.Mapped) : ∃ lines, (∀ line ∈ lines, Quiet line) ∧
    d.dumpTasks = lines ++ d.rows (-1) (List.range d.submit.taskNumber.toNat) := by
  obtain ⟨b, buffer, va⟩ := mapped
  refine ⟨bufferLine b :: (d.raw.map Remark.text ++ tableHeading), ?_, ?_⟩
  · rw [List.forall_mem_cons, List.forall_mem_append, List.forall_mem_map]
    exact ⟨quiet_bufferLine b, fun r _ => quiet_remark r, quiet_tableHeading⟩
  · rw [dumpTasks, buffer]
    simp only [if_neg va, dumpShapes, List.cons_append, List.append_assoc]

theorem unmarked_rows {d : Dump} {prevOp : Int} {ks : List Nat} :
    ∀ line ∈ d.rows prevOp ks, Unmarked line := by
  intro line member
  rcases mem_rows member with rfl | ⟨k, _, rfl⟩
  · exact quiet_separator.unmarked
  · exact unmarked_row d k

theorem unmarked_dumpTasks (d : Dump) : ∀ line ∈ d.dumpTasks, Unmarked line := by
  by_cases mapped : d.Mapped
  · obtain ⟨lines, quiet, written⟩ := exists_quiet_tasks mapped
    rw [written, List.forall_mem_append]
    exact ⟨fun line member => (quiet line member).unmarked, unmarked_rows⟩
  · have apology : ∀ line ∈ ["  !! 找不到 task buffer".toList, "  !! task buffer 沒 mmap".toList],
        Unmarked line := by decide
    cases buffer : d.taskBuffer with
    | none => simpa [dumpTasks, buffer] using apology _ List.mem_cons_self
    | some b =>
        have va : b.va = 0#64 := by
          by_contra present
          exact mapped ⟨b, buffer, present⟩
        simpa [dumpTasks, buffer, va] using apology _ (List.mem_cons_of_mem _ List.mem_cons_self)

end Dump

end LinuxInterview.Rkspy
