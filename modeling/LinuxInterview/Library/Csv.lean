import LinuxInterview.Library.Text

/-!
# Reading comma-separated values

The reader of the scripts' language in its default dialect, a machine that is fed a file line by
line, and the dictionaries made from its records. The reader's bound on the length of a field is
left out.
-/

namespace LinuxInterview.Library.Csv

inductive Phase
  | startRecord
  | startField
  | inField
  | inQuotedField
  | quoteInQuotedField
  | eatCrnl
  deriving DecidableEq, Repr

structure Reader where
  phase : Phase
  fields : List Text
  field : Text

namespace Reader

def fresh : Reader := ⟨.startRecord, [], []⟩

def save (r : Reader) (next : Phase) : Reader := ⟨next, r.fields ++ [r.field], []⟩

def add (r : Reader) (next : Phase) (c : Char) : Reader := ⟨next, r.fields, r.field ++ [c]⟩

def feedStart (r : Reader) (c : Char) : Reader :=
  if c = '\n' ∨ c = '\r' then r.save .eatCrnl
  else if c = '"' then { r with phase := .inQuotedField }
  else if c = ',' then r.save .startField
  else r.add .inField c

def feed (r : Reader) (c : Char) : Option Reader :=
  match r.phase with
  | .startRecord =>
      if c = '\n' ∨ c = '\r' then some { r with phase := .eatCrnl } else some (r.feedStart c)
  | .startField => some (r.feedStart c)
  | .inField =>
      if c = '\n' ∨ c = '\r' then some (r.save .eatCrnl)
      else if c = ',' then some (r.save .startField)
      else some (r.add .inField c)
  | .inQuotedField =>
      if c = '"' then some { r with phase := .quoteInQuotedField }
      else some (r.add .inQuotedField c)
  | .quoteInQuotedField =>
      if c = '"' then some (r.add .inQuotedField c)
      else if c = ',' then some (r.save .startField)
      else if c = '\n' ∨ c = '\r' then some (r.save .eatCrnl)
      else some (r.add .inField c)
  | .eatCrnl => if c = '\n' ∨ c = '\r' then some r else none

def endLine (r : Reader) : Reader :=
  match r.phase with
  | .startRecord | .inQuotedField => r
  | .startField | .inField | .quoteInQuotedField => r.save .startRecord
  | .eatCrnl => { r with phase := .startRecord }

def feedLine (r : Reader) (line : Text) : Option Reader := (line.foldlM feed r).map endLine

/-- A record ends with its line unless a quotation is open; the end of the file closes that too. -/
def records (r : Reader) : List Text → Option (List (List Text))
  | [] => some (if r.field ≠ [] ∨ r.phase = .inQuotedField then [(r.save .startRecord).fields] else [])
  | line :: lines => do
      let next ← r.feedLine line
      if next.phase = .startRecord then return next.fields :: (← records fresh lines)
      else records next lines

end Reader

def universalNewlines : Text → Text
  | '\r' :: '\n' :: rest => '\n' :: universalNewlines rest
  | '\r' :: rest => '\n' :: universalNewlines rest
  | c :: rest => c :: universalNewlines rest
  | [] => []

def fileLines : Text → List Text
  | [] => []
  | c :: rest =>
      if c = '\n' then [c] :: fileLines rest
      else match fileLines rest with
        | [] => [[c]]
        | line :: lines => (c :: line) :: lines

def readFile (file : Text) : Option (List (List Text)) :=
  Reader.fresh.records (fileLines (universalNewlines file))

abbrev Dict := List (Text × Option Text)

/-- `None` stands for the fields that a short record lacks; those beyond the header are dropped. -/
def dictOf (header record : List Text) : Dict :=
  header.zipIdx.map fun (name, i) => (name, record[i]?)

def readDicts (file : Text) : Option (List Dict) := do
  match ← readFile file with
  | [] => return []
  | header :: rest => return (rest.filter (!·.isEmpty)).map (dictOf header)

/-! ## Lines that hold no quotation -/

structure Plain (text : Text) : Prop where
  oneLine : ∀ c ∈ text, c ≠ '\n' ∧ c ≠ '\r'
  unquoted : ∀ cell ∈ splitAt ',' text, cell.head? ≠ some '"'

instance (text : Text) : Decidable (Plain text) :=
  have := List.decidableBAll (fun c => c ≠ '\n' ∧ c ≠ '\r') text
  decidable_of_iff ((∀ c ∈ text, c ≠ '\n' ∧ c ≠ '\r') ∧
      ∀ cell ∈ splitAt ',' text, cell.head? ≠ some '"')
    ⟨fun ⟨oneLine, unquoted⟩ => ⟨oneLine, unquoted⟩, fun plain => ⟨plain.oneLine, plain.unquoted⟩⟩

theorem plain_intercalate {cells : List Text} (nonempty : cells ≠ [])
    (plain : ∀ cell ∈ cells, Plain cell) : Plain ([','].intercalate cells) where
  oneLine := by
    clear nonempty
    induction cells with
    | nil => simp
    | cons cell cells ih =>
        have rest := ih fun other member => plain other (by simp [member])
        have here := (plain cell (by simp)).oneLine
        cases cells with
        | nil => simpa using here
        | cons next cells =>
            intro c inside
            rw [List.intercalate_cons_cons] at inside
            rcases List.mem_append.mp inside with first | later
            · rcases List.mem_append.mp first with text | comma
              · exact here c text
              · rw [List.mem_singleton.mp comma]
                decide
            · exact rest c later
  unquoted := by
    rw [splitAt_intercalate nonempty]
    intro cell member
    obtain ⟨column, inside, part⟩ := List.mem_flatMap.mp member
    exact (plain column inside).unquoted cell part

namespace Reader

theorem foldlM_inField {cell : Text} (solid : ∀ c ∈ cell, c ≠ ',' ∧ c ≠ '\n' ∧ c ≠ '\r')
    (fields : List Text) (field : Text) :
    cell.foldlM feed ⟨.inField, fields, field⟩ = some ⟨.inField, fields, field ++ cell⟩ := by
  induction cell generalizing field with
  | nil => simp
  | cons c cell ih =>
      obtain ⟨noComma, noNewline, noReturn⟩ := solid c (by simp)
      have rest := ih (fun d member => solid d (by simp [member])) (field ++ [c])
      rw [List.foldlM_cons]
      simpa [feed, add, noComma, noNewline, noReturn] using rest

theorem foldlM_cell {cell : Text} (solid : ∀ c ∈ cell, c ≠ ',' ∧ c ≠ '\n' ∧ c ≠ '\r')
    (unquoted : cell.head? ≠ some '"') (fields : List Text) (last : Char) :
    (cell ++ [last]).foldlM feed ⟨.startField, fields, []⟩ =
      feed ⟨if cell = [] then .startField else .inField, fields, cell⟩ last := by
  cases cell with
  | nil => simp
  | cons c cell =>
      obtain ⟨noComma, noNewline, noReturn⟩ := solid c (by simp)
      have noQuote : c ≠ '"' := by simpa using unquoted
      have begun : feed ⟨.startField, fields, []⟩ c = some ⟨.inField, fields, [c]⟩ := by
        simp [feed, feedStart, add, noComma, noNewline, noReturn, noQuote]
      have rest : cell.foldlM feed ⟨.inField, fields, [c]⟩ = some ⟨.inField, fields, [c] ++ cell⟩ :=
        foldlM_inField (fun d member => solid d (by simp [member])) fields [c]
      rw [List.cons_append, List.foldlM_cons, begun]
      simp [rest]

theorem feed_comma (cell : Text) (fields : List Text) :
    feed ⟨if cell = [] then .startField else .inField, fields, cell⟩ ',' =
      some ⟨.startField, fields ++ [cell], []⟩ := by
  cases cell <;> rfl

theorem feed_newline (cell : Text) (fields : List Text) :
    feed ⟨if cell = [] then .startField else .inField, fields, cell⟩ '\n' =
      some ⟨.eatCrnl, fields ++ [cell], []⟩ := by
  cases cell <;> rfl

theorem foldlM_cells {cells : List Text}
    (solid : ∀ cell ∈ cells, ∀ c ∈ cell, c ≠ ',' ∧ c ≠ '\n' ∧ c ≠ '\r')
    (unquoted : ∀ cell ∈ cells, cell.head? ≠ some '"') (nonempty : cells ≠ []) (fields : List Text) :
    ([','].intercalate cells ++ ['\n']).foldlM feed ⟨.startField, fields, []⟩ =
      some ⟨.eatCrnl, fields ++ cells, []⟩ := by
  induction cells generalizing fields with
  | nil => contradiction
  | cons cell cells ih =>
      have first := foldlM_cell (solid cell (by simp)) (unquoted cell (by simp)) fields
      cases cells with
      | nil =>
          rw [List.intercalate_singleton, first, feed_newline]
      | cons next cells =>
          have rest := ih (fun other member => solid other (by simp [member]))
            (fun other member => unquoted other (by simp [member])) (by simp) (fields ++ [cell])
          rw [List.intercalate_cons_cons, List.append_assoc, List.foldlM_append, first, feed_comma]
          simpa using rest

theorem feedLine_plain {line : Text} (plain : Plain line) (nonempty : line ≠ []) :
    fresh.feedLine (line ++ ['\n']) = some ⟨.startRecord, splitAt ',' line, []⟩ := by
  have solid : ∀ cell ∈ splitAt ',' line, ∀ c ∈ cell, c ≠ ',' ∧ c ≠ '\n' ∧ c ≠ '\r' := by
    intro cell member c inside
    obtain ⟨noComma, onLine⟩ := mem_splitAt member c inside
    exact ⟨noComma, plain.oneLine c onLine⟩
  have started := foldlM_cells solid plain.unquoted (List.splitOnP_ne_nil _ _) []
  rw [splitAt, ← List.splitOn_eq_splitOnP, List.intercalate_splitOn, List.splitOn_eq_splitOnP, ← splitAt]
    at started
  -- the first character of a line with text starts a field just as one after a comma does
  have begins : (line ++ ['\n']).foldlM feed fresh = (line ++ ['\n']).foldlM feed ⟨.startField, [], []⟩ := by
    obtain ⟨c, rest, rfl⟩ := List.exists_cons_of_ne_nil nonempty
    obtain ⟨noNewline, noReturn⟩ := plain.oneLine c (by simp)
    rw [List.cons_append, List.foldlM_cons, List.foldlM_cons]
    simp [feed, fresh, feedStart, add, save, noNewline, noReturn]
  rw [feedLine, begins, started]
  rfl

theorem records_plain {lines : List Text} (plain : ∀ line ∈ lines, Plain line)
    (nonempty : ∀ line ∈ lines, line ≠ []) :
    fresh.records (lines.map (· ++ ['\n'])) = some (lines.map (splitAt ',')) := by
  induction lines with
  | nil => rfl
  | cons line lines ih =>
      have rest := ih (fun other member => plain other (by simp [member]))
        (fun other member => nonempty other (by simp [member]))
      simp [records, feedLine_plain (plain line (by simp)) (nonempty line (by simp)), rest]

end Reader

theorem universalNewlines_of_forall {file : Text} (noReturn : ∀ c ∈ file, c ≠ '\r') :
    universalNewlines file = file := by
  induction file with
  | nil => rfl
  | cons c file ih =>
      rw [universalNewlines.eq_3, ih fun d member => noReturn d (by simp [member])]
      all_goals simp [noReturn c (by simp)]

theorem fileLines_line {line : Text} (oneLine : ∀ c ∈ line, c ≠ '\n') (rest : Text) :
    fileLines (line ++ '\n' :: rest) = (line ++ ['\n']) :: fileLines rest := by
  induction line with
  | nil => simp [fileLines]
  | cons c line ih =>
      have tail := ih fun d member => oneLine d (by simp [member])
      simp [fileLines, oneLine c (by simp), tail]

theorem fileLines_lines {lines : List Text} (oneLine : ∀ line ∈ lines, ∀ c ∈ line, c ≠ '\n' ∧ c ≠ '\r') :
    fileLines (universalNewlines (lines.flatMap (· ++ ['\n']))) = lines.map (· ++ ['\n']) := by
  have noReturn : ∀ c ∈ lines.flatMap (· ++ ['\n']), c ≠ '\r' := by
    intro c inside
    obtain ⟨line, member, onLine⟩ := List.mem_flatMap.mp inside
    rcases List.mem_append.mp onLine with text | newline
    · exact (oneLine line member c text).2
    · simp_all
  rw [universalNewlines_of_forall noReturn]
  clear noReturn
  induction lines with
  | nil => rfl
  | cons line lines ih =>
      have rest := ih fun other member => oneLine other (by simp [member])
      have here := fileLines_line fun c inside => (oneLine line (by simp) c inside).1
      rw [List.flatMap_cons, List.append_assoc, List.singleton_append, here, rest, List.map_cons]

theorem readFile_plain {lines : List Text} (plain : ∀ line ∈ lines, Plain line)
    (nonempty : ∀ line ∈ lines, line ≠ []) :
    readFile (lines.flatMap (· ++ ['\n'])) = some (lines.map (splitAt ',')) := by
  rw [readFile, fileLines_lines fun line member => (plain line member).oneLine,
    Reader.records_plain plain nonempty]

end LinuxInterview.Library.Csv
