import LinuxInterview.AddressMap.Join
import LinuxInterview.Mmio.Dump

/-!
# The words that `safe_mmio.py` prints

Other scripts run `safe_mmio.py`, split what it printed at blanks, and read the words back.
-/

namespace LinuxInterview.Mmio
open Library
open AddressMap (hex8 intHex intHex_hex8)

/-- A process that ended. `failed` stands for an exit status other than 0. -/
structure Process where
  stdout : Text
  failed : Bool
  deriving DecidableEq, Repr

/-- `'%08x' % x`, whose eight places count the sign. -/
def hexPadded : Int → Text
  | .ofNat n => hex8 n
  | .negSucc n => '-' :: padLeft 7 '0' (hex (n + 1))

section Script

variable (board : Board) (mapOk : Int → Bool) (memory : Int → BitVec 32)

def wordText (x : Int) : Text := hex8 (memory x).toNat

def label (x : Int) : Text := hexPadded x ++ [':']

def rowWords (pa : Int) (n row : Nat) : List Int := (List.range (min 4 (n - 4 * row))).map fun j => wordAt pa (4 * row + j)

def rowText (pa : Int) (n row : Nat) : Text :=
  label (wordAt pa (4 * row)) ++ ' ' :: [' '].intercalate ((rowWords pa n row).map (wordText memory)) ++ ['\n']

/-- A line is printed after all its words are read. -/
def printRows (pa : Int) (n : Nat) : List Nat → Process
  | [] => ⟨[], false⟩
  | row :: rest =>
      if (readAll mapOk (rowWords pa n row)).2 = none then
        ⟨rowText memory pa n row ++ (printRows pa n rest).stdout, (printRows pa n rest).failed⟩
      else ⟨[], true⟩

def safeMmio (inv : Invocation) : Process :=
  match check board inv.pa with
  | .error _ => ⟨[], true⟩
  | .ok why =>
      if why.isSome ∧ inv.force = false then ⟨"REFUSED: ".toList ++ why.getD [] ++ ['\n'], true⟩
      else if inv.cmd = "get".toList then
        if (readAll mapOk [inv.pa]).2 = none then ⟨wordText memory inv.pa ++ ['\n'], false⟩ else ⟨[], true⟩
      else match inv.count with
      | none => ⟨[], true⟩
      | some n => printRows mapOk memory inv.pa n.toNat (List.range ((n.toNat + 3) / 4))

/-- `subprocess.check_output`, which raises on an exit status other than 0. -/
def Process.checkOutput (p : Process) : Option Text := if p.failed then none else some p.stdout

end Script

variable {board : Board} {mapOk : Int → Bool} {memory : Int → BitVec 32} {pa : Int}

/-! ## Which runs fail -/

theorem readAll_append (xs ys : List Int) :
    (readAll mapOk (xs ++ ys)).2 = none ↔ (readAll mapOk xs).2 = none ∧ (readAll mapOk ys).2 = none := by
  induction xs with
  | nil => simp [readAll]
  | cons x xs ih =>
      cases attempt : r mapOk x with
      | error e => simp [readAll, attempt]
      | ok done => simpa [readAll, attempt] using ih

theorem readAll_eq_none_iff (xs : List Int) : (readAll mapOk xs).2 = none ↔ ∀ x ∈ xs, Readable mapOk x = true := by
  induction xs with
  | nil => simp [readAll]
  | cons x xs ih =>
      cases attempt : r mapOk x with
      | error e => simp [readAll, attempt, Readable, Except.toBool]
      | ok done => simpa [readAll, attempt, Readable, Except.toBool] using ih

theorem printRows_failed (n : Nat) (rows : List Nat) :
    (printRows mapOk memory pa n rows).failed = (readAll mapOk (rows.flatMap (rowWords pa n))).2.isSome := by
  induction rows with
  | nil => rfl
  | cons row rows ih =>
      rw [printRows, List.flatMap_cons]
      split
      · rename_i read
        rw [ih, Bool.eq_iff_iff, Option.isSome_iff_ne_none, Option.isSome_iff_ne_none]
        apply not_congr
        rw [readAll_append]
        exact (and_iff_right read).symm
      · rename_i raised
        symm
        rw [Option.isSome_iff_ne_none]
        intro read
        exact raised ((readAll_append _ _).mp read).1

/-- The exit status is that of the run whose reads are traced. -/
theorem safeMmio_failed (inv : Invocation) : (safeMmio board mapOk memory inv).failed =
    ((main board mapOk inv).refused.isSome || (main board mapOk inv).raised.isSome) := by
  rw [safeMmio, main]
  cases verdict : check board inv.pa with
  | error e => rfl
  | ok why =>
      simp only
      split
      · rename_i refused
        simp [refused.1]
      split
      · cases (readAll mapOk [inv.pa]).2 <;> rfl
      · cases inv.count with
        | none => rfl
        | some n => exact printRows_failed n.toNat _

/-! ## What is read back -/

theorem isAlphanum_padded (width n : Nat) : ∀ c ∈ padLeft width '0' (hex n), c.isAlphanum = true := by
  intro c member
  rcases List.mem_append.mp member with leading | digit
  · rw [List.eq_of_mem_replicate leading]
    decide
  · exact isAlphanum_of_mem_hex digit

theorem le_length_padLeft (width : Nat) (fill : Char) (s : Text) : width ≤ (padLeft width fill s).length := by
  rw [padLeft, List.length_append, List.length_replicate]
  omega

theorem length_wordText (x : Int) : (wordText memory x).length = 8 := by
  have short : (hex (memory x).toNat).length ≤ 8 :=
    (Nat.length_toDigits_le_iff (by decide) (by decide)).mpr (memory x).isLt
  rw [wordText, hex8, padLeft, List.length_append, List.length_replicate]
  omega

theorem isBlank_alphanum {c : Char} (letter : c.isAlphanum = true) : isBlank c = false := by
  cases blank : isBlank c with
  | false => rfl
  | true =>
      have apart : (blanks.all fun b => !b.isAlphanum) = true := by decide
      have other := List.all_eq_true.mp apart c (List.contains_iff_mem.mp blank)
      rw [letter] at other
      cases other

theorem isWord_wordText (x : Int) : IsWord (wordText memory x) where
  nonempty := List.ne_nil_of_length_pos (by rw [length_wordText]; decide)
  solid c member := isBlank_alphanum (isAlphanum_padded 8 _ c member)

theorem hexPadded_letters (x : Int) : ∀ c ∈ hexPadded x, c = '-' ∨ c.isAlphanum = true := by
  intro c member
  cases x with
  | ofNat n => exact .inr (isAlphanum_padded 8 n c member)
  | negSucc n => exact (List.mem_cons.mp member).imp_right (isAlphanum_padded 7 (n + 1) c)

theorem length_label (x : Int) : 8 < (label x).length := by
  have padded : 8 ≤ (hexPadded x).length := by
    cases x with
    | ofNat n => exact le_length_padLeft 8 '0' _
    | negSucc n => exact Nat.succ_le_succ (le_length_padLeft 7 '0' _)
  rw [label, List.length_append]
  exact Nat.lt_succ_of_le padded

theorem isWord_label (x : Int) : IsWord (label x) where
  nonempty := List.ne_nil_of_length_pos (Nat.zero_lt_of_lt (length_label x))
  solid := by
    intro c member
    rcases List.mem_append.mp member with digit | colon
    · rcases hexPadded_letters x c digit with rfl | letter
      · decide
      · exact isBlank_alphanum letter
    · rw [List.mem_singleton.mp colon]
      decide

theorem words_intercalate {fields : List Text} (solid : ∀ field ∈ fields, IsWord field) (line : Text) :
    words ([' '].intercalate fields ++ '\n' :: line) = fields ++ words line := by
  have newline : ∀ c ∈ ['\n'], isBlank c = true := List.forall_mem_singleton.mpr (by decide)
  have space : ∀ c ∈ [' '], isBlank c = true := List.forall_mem_singleton.mpr (by decide)
  induction fields with
  | nil => exact words_blanks_append newline line
  | cons field fields ih =>
      have first : IsWord field := solid field List.mem_cons_self
      cases fields with
      | nil =>
          have split := words_word_append first (List.cons_ne_nil _ _) newline line
          simpa using split
      | cons next fields =>
          have rest := ih fun other member => solid other (List.mem_cons_of_mem field member)
          have split := words_word_append first (List.cons_ne_nil _ _) space
            ([' '].intercalate (next :: fields) ++ '\n' :: line)
          rw [rest] at split
          rw [List.intercalate_cons_cons]
          simpa using split

theorem words_rowText (pa : Int) (n row : Nat) (rest : Text) : words (rowText memory pa n row ++ rest) =
    label (wordAt pa (4 * row)) :: ((rowWords pa n row).map (wordText memory) ++ words rest) := by
  have space : ∀ c ∈ [' '], isBlank c = true := List.forall_mem_singleton.mpr (by decide)
  have fields : ∀ field ∈ (rowWords pa n row).map (wordText memory), IsWord field := by
    intro field member
    obtain ⟨x, _, rfl⟩ := List.mem_map.mp member
    exact isWord_wordText x
  have split := words_word_append (isWord_label (wordAt pa (4 * row))) (List.cons_ne_nil _ _) space
    ([' '].intercalate ((rowWords pa n row).map (wordText memory)) ++ '\n' :: rest)
  rw [words_intercalate fields] at split
  rw [rowText]
  simpa using split

/-- `[w for w in out.split() if len(w) == 8]`: the labels are longer than the words. -/
def eightLetters (out : Text) : List Text := (words out).filter fun w => w.length = 8

theorem eightLetters_printRows {n : Nat} {rows : List Nat}
    (complete : (printRows mapOk memory pa n rows).failed = false) :
    eightLetters (printRows mapOk memory pa n rows).stdout =
      (rows.flatMap (rowWords pa n)).map (wordText memory) := by
  induction rows with
  | nil => rfl
  | cons row rows ih =>
      rw [printRows] at complete ⊢
      split at complete
      · rename_i read
        have long : ¬ (label (wordAt pa (4 * row))).length = 8 := (length_label _).ne'
        have eight : ∀ w ∈ (rowWords pa n row).map (wordText memory), w.length = 8 := by
          intro w member
          obtain ⟨x, _, rfl⟩ := List.mem_map.mp member
          exact length_wordText x
        rw [if_pos read, eightLetters, words_rowText, List.filter_cons_of_neg (by simpa using long),
          List.filter_append, List.filter_eq_self.mpr (by simpa using eight), List.flatMap_cons, List.map_append]
        exact congrArg _ (ih complete)
      · cases complete

theorem intHex_wordText (x : Int) : intHex (wordText memory x) = .ok (memory x).toNat := intHex_hex8 _

theorem words_line {word : Text} (isWord : IsWord word) : words (word ++ ['\n']) = [word] := by
  have newline : ∀ c ∈ ['\n'], isBlank c = true := List.forall_mem_singleton.mpr (by decide)
  have split := words_word_append isWord (List.cons_ne_nil _ _) newline []
  simpa [words_nil] using split

end LinuxInterview.Mmio
