import LinuxInterview.AddressMap.TrmRows

/-!
# What the table yields

All rows come out, in the order of their addresses, unless an address is a number, which is taken for
that of a page, or a line of the table reads like the title of the next section.
-/

namespace LinuxInterview.AddressMap
open Library Library.Csv Mmio

def PageLine (line : Text) : Prop :=
  (strip line = [] ∨ pageNoise (strip line) = true) ∧ sectionLine line = false

instance (line : Text) : Decidable (PageLine line) := inferInstanceAs (Decidable (_ ∧ _))

/-- A file with the table of some rows, from its heading to the next section. -/
structure TrmFile (file : Text) (rows : List TrmRow) where
  before : List Text
  heading : Text
  body : List Text
  next : Text
  after : List Text
  lines : splitAt '\n' file = before ++ heading :: (body ++ next :: after)
  first : ∀ line ∈ before, tableLine line = false ∧ sectionLine line = false
  opens : tableLine heading = true
  closes : sectionLine next = true
  listing : Interleaved strip PageLine (rows.flatMap TrmRow.cells) body

/-- Every row is printed exactly once, in the order of the addresses, and nothing else. -/
def Complete (file : Text) (rows : List TrmRow) : Prop :=
  ∃ sorted : List TrmRow, sorted.Perm rows ∧ (sorted.Pairwise fun r s => r.start ≤ s.start) ∧
    trmAddrmap file = some ("module,start,size".toList :: sorted.map TrmRow.line)

structure TrmFile.Readable {file : Text} {rows : List TrmRow} (table : TrmFile file rows) : Prop where
  lettered : ∀ r ∈ rows, ∃ c ∈ r.address, isDecimal c = false
  undivided : ∀ line ∈ table.body, sectionLine line = false

/-! ## The lines of the table -/

theorem sectionLine_of_tableLine {line : Text} (heading : tableLine line = true) : sectionLine line = false := by
  cases line with
  | nil => cases heading
  | cons c line =>
      obtain ⟨rest, whole⟩ := List.isPrefixOf_iff_prefix.mp heading
      obtain rfl : 'T' = c := (List.cons.inj whole).1
      rfl

theorem take_findIdx? {α : Type*} {p : α → Bool} {l : List α} {i : Nat} (found : l.findIdx? p = some i) :
    l.take i = l.takeWhile fun x => !p x := by
  obtain ⟨_, index⟩ := List.findIdx?_eq_some_iff_findIdx_eq.mp found
  rw [List.takeWhile_eq_take_findIdx_not]
  simp only [Bool.not_not, index]

variable {file : Text} {rows : List TrmRow}

namespace TrmFile

theorem start_eq (table : TrmFile file rows) : (splitAt '\n' file).findIdx? tableLine = some table.before.length := by
  rw [table.lines, List.findIdx?_append, List.findIdx?_eq_none_iff.mpr fun line member => (table.first line member).1,
    List.findIdx?_cons, table.opens]
  simp

theorem end_exists (table : TrmFile file rows) : ∃ e, (splitAt '\n' file).findIdx? sectionLine = some e := by
  rw [← Option.isSome_iff_exists, List.findIdx?_isSome, List.any_eq_true]
  refine ⟨table.next, ?_, table.closes⟩
  rw [table.lines]
  simp

theorem takeWhile_lines (table : TrmFile file rows) :
    ((splitAt '\n' file).takeWhile fun line => !sectionLine line) =
      table.before ++ table.heading :: table.body.takeWhile fun line => !sectionLine line := by
  have before : ∀ line ∈ table.before, (!sectionLine line) = true := by
    intro line member
    rw [(table.first line member).2]
    rfl
  rw [table.lines, List.takeWhile_append_of_pos before, List.takeWhile_cons, sectionLine_of_tableLine table.opens,
    Bool.not_false, if_pos rfl, List.takeWhile_append]
  congr 2
  split
  · rename_i whole
    rw [List.takeWhile_cons, table.closes]
    simp [(List.takeWhile_sublist _).eq_of_length whole]
  · rfl

theorem trmAddrmap_eq (table : TrmFile file rows) : trmAddrmap file =
    (scan (tokens (table.body.takeWhile fun line => !sectionLine line))).toOption.map fun out =>
      "module,start,size".toList ::
        (out.mergeSort fun x y => decide (x.start ≤ y.start)).map Entry.line := by
  obtain ⟨e, end_⟩ := table.end_exists
  have slice : ((splitAt '\n' file).take e).drop (table.before.length + 1) =
      table.body.takeWhile fun line => !sectionLine line := by
    rw [take_findIdx? end_, table.takeWhile_lines, ← List.drop_drop, List.drop_left, List.drop_one, List.tail_cons]
  have header : [','].intercalate trmHeader = "module,start,size".toList := by decide
  rw [trmAddrmap, table.start_eq, end_]
  simp only [bind, Option.bind_some, slice, header]
  cases (scan (tokens (table.body.takeWhile fun line => !sectionLine line))).toOption with
  | none => rfl
  | some out => rfl

end TrmFile

/-! ## The rows -/

def TrmRow.entry (r : TrmRow) : Entry := ⟨r.name, r.start, r.size.filter (· ≠ ' ')⟩

theorem TrmRow.intHex_address (r : TrmRow) : intHex r.address = .ok r.start := by
  obtain ⟨n, read, _⟩ := intHex_of_hexre r.hexadecimal
  rw [TrmRow.start, read]
  rfl

theorem TrmRow.entry_line (r : TrmRow) : r.entry.line = r.line := by
  obtain ⟨n, read, printed⟩ := intHex_of_hexre r.hexadecimal
  obtain rfl : r.start = n := Except.ok.inj (r.intHex_address.symm.trans read)
  rw [TrmRow.entry, Entry.line, TrmRow.line, printed]

theorem scan_cells (rows : List TrmRow) : scan (rows.flatMap TrmRow.cells) = .ok (rows.map TrmRow.entry) := by
  induction rows with
  | nil => rfl
  | cons r rows ih =>
      rw [List.flatMap_cons, TrmRow.cells]
      simp only [List.cons_append, List.nil_append, scan, r.hexadecimal, r.sized, Bool.and_self, if_true,
        r.intHex_address, ih]
      rfl

theorem scan_length {cells : List Text} {out : List Entry} (scanned : scan cells = .ok out) :
    3 * out.length ≤ cells.length := by
  induction cells using scan.induct generalizing out with
  | case1 name address size rest row ih =>
      rw [scan, if_pos row] at scanned
      obtain ⟨start, _, scanned⟩ := bind_eq_ok_iff.mp scanned
      obtain ⟨others, later, collected⟩ := bind_eq_ok_iff.mp scanned
      cases collected
      have fewer := ih later
      simp only [List.length_cons]
      omega
  | case2 name address size rest row ih =>
      rw [scan, if_neg row] at scanned
      have fewer := ih scanned
      simp only [List.length_cons] at fewer ⊢
      omega
  | case3 cells short =>
      unfold scan at scanned
      split at scanned
      · exact absurd rfl (short _ _ _ _)
      · cases scanned
        exact Nat.zero_le _

theorem length_cells (rows : List TrmRow) : (rows.flatMap TrmRow.cells).length = 3 * rows.length := by
  induction rows with
  | nil => rfl
  | cons r rows ih =>
      rw [List.flatMap_cons, List.length_append, ih, List.length_cons, TrmRow.cells]
      simp only [List.length_cons, List.length_nil]
      omega

/-! ## The table -/

theorem PageLine.dropped {line : Text} (noise : PageLine line) :
    (!(strip line).isEmpty && !pageNoise (strip line)) = false := by
  rcases noise.1 with blank | page
  · rw [blank]
    rfl
  · rw [page, Bool.not_true, Bool.and_false]

theorem tokens_eq (lines : List Text) :
    tokens lines = (lines.map strip).filter fun t => !t.isEmpty && !pageNoise t := by
  rw [tokens, List.filter_filter]
  congr 1
  funext t
  rw [Bool.and_comm]

/-- A cell is taken for a line of the page where it is an address and a number. -/
theorem cells_kept_iff (rows : List TrmRow) :
    (∀ cell ∈ rows.flatMap TrmRow.cells, (!cell.isEmpty && !pageNoise cell) = true) ↔
      ∀ r ∈ rows, ∃ c ∈ r.address, isDecimal c = false := by
  have row (r : TrmRow) : (∀ cell ∈ r.cells, (!cell.isEmpty && !pageNoise cell) = true) ↔
      ∃ c ∈ r.address, isDecimal c = false := by
    have name : r.name.isEmpty = false := by simpa using r.named
    have address : r.address.isEmpty = false := by
      have hexadecimal := r.hexadecimal
      cases empty : r.address with
      | nil => rw [empty] at hexadecimal; cases hexadecimal
      | cons c rest => rfl
    have size : r.size.isEmpty = false := by
      obtain ⟨_, c, member, _⟩ := sizere_spec r.sized
      exact List.isEmpty_eq_false_iff.mpr (List.ne_nil_of_mem member)
    simp only [TrmRow.cells, List.forall_mem_cons, List.not_mem_nil, false_imp_iff, implies_true, and_true,
      name, address, size, r.plain, r.size_noise, r.address_noise, isNumber, Bool.not_false, Bool.true_and,
      Bool.not_eq_true', List.all_eq_false, Bool.not_eq_true, true_and]
  constructor
  · intro kept r member
    exact (row r).mp fun cell inside => kept cell (List.mem_flatMap.mpr ⟨r, member, inside⟩)
  · intro lettered cell inside
    obtain ⟨r, member, inside⟩ := List.mem_flatMap.mp inside
    exact (row r).mpr (lettered r member) cell inside

theorem readable_of_complete (table : TrmFile file rows) (complete : Complete file rows) : table.Readable := by
  obtain ⟨sorted, permutation, _, printed⟩ := complete
  by_contra unreadable
  have fewer : (tokens (table.body.takeWhile fun line => !sectionLine line)).length <
      (rows.flatMap TrmRow.cells).length := by
    rw [tokens_eq]
    apply table.listing.read_length_lt (fun line noise => noise.dropped) fun line noise => noise.2
    rintro ⟨undivided, kept⟩
    exact unreadable ⟨(cells_kept_iff rows).mp kept, undivided⟩
  rw [table.trmAddrmap_eq] at printed
  cases scanned : scan (tokens (table.body.takeWhile fun line => !sectionLine line)) with
  | error e => rw [scanned] at printed; cases printed
  | ok out =>
      rw [scanned] at printed
      have lines := congrArg List.length (List.cons.inj (Option.some.inj printed)).2
      simp only [List.length_map, List.length_mergeSort, permutation.length_eq] at lines
      have enough := scan_length scanned
      rw [length_cells] at fewer
      omega

theorem complete_of_readable (table : TrmFile file rows) (readable : table.Readable) : Complete file rows := by
  have cells : tokens (table.body.takeWhile fun line => !sectionLine line) = rows.flatMap TrmRow.cells := by
    rw [tokens_eq]
    exact table.listing.read_eq (fun line noise => noise.dropped) readable.undivided
      ((cells_kept_iff rows).mpr readable.lettered)
  let before (r s : TrmRow) : Bool := decide (r.start ≤ s.start)
  refine ⟨rows.mergeSort before, List.mergeSort_perm _ _, ?_, ?_⟩
  · have ordered : (rows.mergeSort before).Pairwise fun r s => before r s = true :=
      List.pairwise_mergeSort (fun r s t => by simpa [before] using Nat.le_trans)
        (fun r s => by simpa [before] using Nat.le_total r.start s.start) rows
    exact ordered.imp of_decide_eq_true
  · have sorted : (rows.map TrmRow.entry).mergeSort (fun x y => decide (x.start ≤ y.start)) =
        (rows.mergeSort before).map TrmRow.entry := by
      symm
      apply List.map_mergeSort
      intro r _ s _
      rfl
    have lines : Entry.line ∘ TrmRow.entry = TrmRow.line := funext TrmRow.entry_line
    rw [table.trmAddrmap_eq, cells, scan_cells, Except.toOption, Option.map_some, sorted, List.map_map, lines]

theorem complete_iff_readable (table : TrmFile file rows) : Complete file rows ↔ table.Readable :=
  ⟨readable_of_complete table, complete_of_readable table⟩

/-! The memory of the board, from address 0 on. -/

def ddr : TrmRow where
  name := "DDR".toList
  address := "00000000".toList
  size := "3.75GB".toList
  named := by decide
  plain := by decide
  hexadecimal := by decide
  sized := by decide

def ddrLines : List Text := ["Table 1-1 Address Mapping", "Module", "Start Address", "Size", "DDR",
  "00000000", "3.75GB", "1.2 System Boot"].map String.toList

def ddrTable : TrmFile (['\n'].intercalate ddrLines) [ddr] where
  before := []
  heading := "Table 1-1 Address Mapping".toList
  body := ["Module", "Start Address", "Size", "DDR", "00000000", "3.75GB"].map String.toList
  next := "1.2 System Boot".toList
  after := []
  lines := by
    have whole : ddrLines.flatMap (splitAt '\n') = ddrLines := by decide
    rw [splitAt_intercalate (by decide), whole]
    rfl
  first := by simp
  opens := by decide
  closes := by decide
  listing := .noise (by decide) <| .noise (by decide) <| .noise (by decide) <|
    .cell_of_eq (by decide) <| .cell_of_eq (by decide) <| .cell_of_eq (by decide) .nil

theorem numeric_address_is_lost : ¬ Complete (['\n'].intercalate ddrLines) [ddr] := by
  intro complete
  obtain ⟨c, member, letter⟩ := (readable_of_complete ddrTable complete).lettered ddr List.mem_cons_self
  have digits : (ddr.address.all isDecimal) = true := by decide
  rw [List.all_eq_true.mp digits c member] at letter
  cases letter

end LinuxInterview.AddressMap
