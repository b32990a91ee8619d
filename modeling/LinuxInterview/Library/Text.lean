import Mathlib.Tactic

/-!
# Text as lists of characters

The string functions that the scripts take from their language: splitting at blanks, splitting at
a separator, stripping, and printing numbers.
-/

namespace LinuxInterview.Library

abbrev Text := List Char

def blanks : Text := [' ', '\t', '\n', '\r', '\x0b', '\x0c', '\x1c', '\x1d', '\x1e', '\x1f', '\u0085',
  '\u00a0', '\u1680', '\u2000', '\u2001', '\u2002', '\u2003', '\u2004', '\u2005', '\u2006', '\u2007',
  '\u2008', '\u2009', '\u200a', '\u2028', '\u2029', '\u202f', '\u205f', '\u3000']

def isBlank (c : Char) : Bool := blanks.contains c

/-- `str.split()`: the maximal runs of characters that are not blank. -/
def words (line : Text) : List Text := (line.splitOnP isBlank).filter fun word => !word.isEmpty

def strip (line : Text) : Text :=
  ((line.dropWhile isBlank).reverse.dropWhile isBlank).reverse

def splitAt (separator : Char) (line : Text) : List Text := line.splitOnP (· == separator)

def hex (n : Nat) : Text := Nat.toDigits 16 n

def decimal : Int → Text
  | .ofNat n => Nat.toDigits 10 n
  | .negSucc n => '-' :: Nat.toDigits 10 (n + 1)

def padLeft (width : Nat) (fill : Char) (s : Text) : Text :=
  List.replicate (width - s.length) fill ++ s

def padRight (width : Nat) (fill : Char) (s : Text) : Text :=
  s ++ List.replicate (width - s.length) fill

/-! ## Splitting at a separator -/

theorem mem_splitAt {separator : Char} {line cell : Text} (member : cell ∈ splitAt separator line) :
    ∀ c ∈ cell, c ≠ separator ∧ c ∈ line := by
  induction line generalizing cell with
  | nil => simp_all [splitAt]
  | cons d line ih =>
      obtain ⟨first, others, split⟩ := List.exists_cons_of_ne_nil (List.splitOnP_ne_nil (· == separator) line)
      change splitAt separator line = first :: others at split
      rw [split] at ih
      rw [splitAt, List.splitOnP_cons_eq_if_modifyHead, ← splitAt, split] at member
      split at member
      · intro c inside
        rcases List.mem_cons.mp member with rfl | other
        · contradiction
        · exact (ih other c inside).imp_right (List.mem_cons_of_mem d)
      · rename_i kept
        intro c inside
        rcases List.mem_cons.mp member with rfl | other
        · rcases List.mem_cons.mp inside with rfl | tail
          · exact ⟨by simpa using kept, List.mem_cons_self⟩
          · exact (ih List.mem_cons_self c tail).imp_right (List.mem_cons_of_mem d)
        · exact (ih (List.mem_cons_of_mem _ other) c inside).imp_right (List.mem_cons_of_mem d)

theorem splitAt_eq_singleton {separator : Char} {cell : Text} (whole : separator ∉ cell) :
    splitAt separator cell = [cell] := by
  apply List.splitOnP_eq_singleton
  intro c inside
  simp only [beq_eq_false_iff_ne]
  rintro rfl
  exact whole inside

theorem getElem?_splitAt_append_iff {separator : Char} {cell : Text} (rest : List Text) :
    (splitAt separator cell ++ rest)[0]? = some cell ↔ separator ∉ cell := by
  constructor
  · intro whole inside
    obtain ⟨first, others, split⟩ := List.exists_cons_of_ne_nil (List.splitOnP_ne_nil (· == separator) cell)
    have member : first ∈ splitAt separator cell := by simp [splitAt, split]
    have same : first = cell := by simpa [splitAt, split] using whole
    exact (mem_splitAt member separator (same ▸ inside)).1 rfl
  · intro whole
    rw [splitAt_eq_singleton whole]
    rfl

theorem splitAt_eq_cons_cons {separator : Char} {cell : Text} (inside : separator ∈ cell) :
    ∃ first second others, splitAt separator cell = first :: second :: others := by
  obtain ⟨before, after, rfl⟩ := List.append_of_mem inside
  have split : splitAt separator (before ++ separator :: after) =
      splitAt separator before ++ splitAt separator after := by
    rw [splitAt, List.splitOnP_append_cons _ _ (by simp), ← splitAt, ← splitAt]
  obtain ⟨a, as, first⟩ := List.exists_cons_of_ne_nil (List.splitOnP_ne_nil (· == separator) before)
  obtain ⟨b, bs, second⟩ := List.exists_cons_of_ne_nil (List.splitOnP_ne_nil (· == separator) after)
  change splitAt separator before = a :: as at first
  change splitAt separator after = b :: bs at second
  rw [split, first, second]
  cases as with
  | nil => exact ⟨a, b, bs, rfl⟩
  | cons next as => exact ⟨a, next, as ++ b :: bs, rfl⟩

theorem splitAt_intercalate {separator : Char} {cells : List Text} (nonempty : cells ≠ []) :
    splitAt separator ([separator].intercalate cells) = cells.flatMap (splitAt separator) := by
  induction cells with
  | nil => contradiction
  | cons cell cells ih =>
      cases cells with
      | nil => simp
      | cons next cells =>
          have rest := ih (by simp)
          rw [List.intercalate_cons_cons, List.append_assoc, List.singleton_append, splitAt,
            List.splitOnP_append_cons _ _ (by simp), ← splitAt, ← splitAt, rest]
          rfl

/-! ## Words -/

structure IsWord (word : Text) : Prop where
  nonempty : word ≠ []
  solid : ∀ c ∈ word, isBlank c = false

instance (word : Text) : Decidable (IsWord word) :=
  have := List.decidableBAll (fun c => isBlank c = false) word
  decidable_of_iff (word ≠ [] ∧ ∀ c ∈ word, isBlank c = false)
    ⟨fun ⟨nonempty, solid⟩ => ⟨nonempty, solid⟩, fun ⟨nonempty, solid⟩ => ⟨nonempty, solid⟩⟩

theorem IsWord.append {first second : Text} (isFirst : IsWord first) (isSecond : IsWord second) :
    IsWord (first ++ second) where
  nonempty := List.append_ne_nil_of_left_ne_nil isFirst.nonempty second
  solid := List.forall_mem_append.mpr ⟨isFirst.solid, isSecond.solid⟩

theorem words_blank_cons {c : Char} (blank : isBlank c = true) (line : Text) :
    words (c :: line) = words line := by
  simp [words, List.splitOnP_cons_eq_if_modifyHead, blank]

theorem words_blanks_append {gap : Text} (blank : ∀ c ∈ gap, isBlank c = true) (line : Text) :
    words (gap ++ line) = words line := by
  induction gap with
  | nil => rfl
  | cons c gap ih =>
      rw [List.cons_append, words_blank_cons (blank c (by simp))]
      exact ih fun d member => blank d (by simp [member])

theorem words_nil : words [] = [] := rfl

theorem words_word_append {word gap : Text} (isWord : IsWord word) (separated : gap ≠ [])
    (blank : ∀ c ∈ gap, isBlank c = true) (line : Text) :
    words (word ++ gap ++ line) = word :: words line := by
  obtain ⟨c, rest, rfl⟩ := List.exists_cons_of_ne_nil separated
  have head : isBlank c = true := blank c (by simp)
  have tail : words (rest ++ line) = words line :=
    words_blanks_append (fun d member => blank d (by simp [member])) line
  have kept : (!word.isEmpty) = true := by simp [isWord.nonempty]
  rw [List.append_assoc, List.cons_append, words,
    List.splitOnP_append_cons_of_forall_mem isWord.solid c head, List.filter_cons, if_pos kept]
  exact congrArg (word :: ·) tail

theorem words_word_blank {word : Text} (isWord : IsWord word) (line : Text) :
    words (word ++ [' '] ++ line) = word :: words line :=
  words_word_append isWord (List.cons_ne_nil _ _) (List.forall_mem_singleton.mpr rfl) line

theorem words_word {word : Text} (isWord : IsWord word) : words word = [word] := by
  rw [words, List.splitOnP_eq_singleton isWord.solid]
  simp [isWord.nonempty]

theorem words_cons_solid {c : Char} (solid : isBlank c = false) (line : Text) :
    ∃ word rest, words (c :: line) = (c :: word) :: rest := by
  obtain ⟨first, others, split⟩ := List.exists_cons_of_ne_nil (List.splitOnP_ne_nil isBlank line)
  refine ⟨first, others.filter fun word => !word.isEmpty, ?_⟩
  rw [words, List.splitOnP_cons_eq_if_modifyHead, split, solid]
  rfl

theorem head?_words_append {word rest : Text} (isWord : IsWord word)
    (ends : ∀ c ∈ rest.head?, isBlank c = true) : (words (word ++ rest)).head? = some word := by
  cases rest with
  | nil => rw [List.append_nil, words_word isWord, List.head?_cons]
  | cons c rest =>
      have gap : ∀ d ∈ [c], isBlank d = true := List.forall_mem_singleton.mpr (ends c rfl)
      have split : word ++ c :: rest = word ++ [c] ++ rest := by simp
      rw [split, words_word_append isWord (by simp) gap, List.head?_cons]

/-- The fields of a line in order, each followed by blanks, after any indentation. -/
inductive PrintsFields : List Text → Text → Prop
  | nil {indent : Text} (blank : ∀ c ∈ indent, isBlank c = true) : PrintsFields [] indent
  | cons {indent field gap line : Text} {fields : List Text}
      (blank : ∀ c ∈ indent, isBlank c = true) (isWord : IsWord field) (separated : gap ≠ [])
      (between : ∀ c ∈ gap, isBlank c = true) (rest : PrintsFields fields line) :
      PrintsFields (field :: fields) (indent ++ field ++ gap ++ line)

theorem words_of_printsFields {fields : List Text} {line : Text} (prints : PrintsFields fields line) :
    words line = fields := by
  induction prints with
  | nil blank => simpa [words_nil] using words_blanks_append blank []
  | cons blank isWord separated between _ ih =>
      rw [List.append_assoc, List.append_assoc, words_blanks_append blank, ← List.append_assoc,
        words_word_append isWord separated between, ih]

def printFields (fields : List Text) : Text := fields.flatMap fun field => field ++ [' ']

theorem printsFields_printFields {fields : List Text} (solid : ∀ field ∈ fields, IsWord field) :
    PrintsFields fields (printFields fields) := by
  have noIndent : ∀ c ∈ ([] : Text), isBlank c = true := by simp
  induction fields with
  | nil => exact .nil noIndent
  | cons field fields ih =>
      have rest := ih fun other member => solid other (by simp [member])
      have oneBlank : ∀ c ∈ [' '], isBlank c = true := List.forall_mem_singleton.mpr rfl
      exact .cons noIndent (solid field (by simp)) (by simp) oneBlank rest

/-! ## Numbers -/

theorem mem_toDigits {base n : Nat} {c : Char} (large : 1 < base)
    (member : c ∈ Nat.toDigits base n) : ∃ d < base, c = Nat.digitChar d := by
  induction n using Nat.strongRecOn with
  | ind n ih =>
      rw [Nat.toDigits_eq_if large] at member
      split at member
      · rename_i small
        exact ⟨n, small, by simpa using member⟩
      · rename_i many
        rcases List.mem_append.mp member with high | low
        · exact ih (n / base) (Nat.div_lt_self (by omega) large) high
        · exact ⟨n % base, Nat.mod_lt n (by omega), by simpa using low⟩

theorem isAlphanum_of_mem_hex {n : Nat} {c : Char} (member : c ∈ hex n) : c.isAlphanum = true := by
  have digits : ∀ d < 16, (Nat.digitChar d).isAlphanum = true := by decide
  obtain ⟨d, small, rfl⟩ := mem_toDigits (by decide) member
  exact digits d small

theorem isBlank_of_isAlphanum {c : Char} (alphanum : c.isAlphanum = true) : isBlank c = false := by
  have apart : (blanks.all fun d => !d.isAlphanum) = true := by decide
  rw [isBlank, List.contains_eq_mem, decide_eq_false_iff_not]
  intro member
  have other := List.all_eq_true.mp apart c member
  rw [alphanum] at other
  contradiction

theorem isBlank_of_isDigit {c : Char} (digit : c.isDigit = true) : isBlank c = false :=
  isBlank_of_isAlphanum (by simp [Char.isAlphanum, digit])

theorem isWord_hex (n : Nat) : IsWord (hex n) where
  nonempty := Nat.toDigits_ne_nil
  solid _ member := isBlank_of_isAlphanum (isAlphanum_of_mem_hex member)

theorem isWord_decimal (n : Int) : IsWord (decimal n) := by
  have digits : ∀ n : Nat, ∀ c ∈ Nat.toDigits 10 n, isBlank c = false := fun _ _ member =>
    isBlank_of_isDigit (Nat.isDigit_of_mem_toDigits (by decide) (by decide) member)
  cases n with
  | ofNat n => exact ⟨Nat.toDigits_ne_nil, digits n⟩
  | negSucc n => exact ⟨List.cons_ne_nil _ _, List.forall_mem_cons.mpr ⟨by decide, digits (n + 1)⟩⟩

theorem mem_decimal_ne {n : Int} {c d : Char} (member : c ∈ decimal n)
    (other : d.isDigit = false) (sign : d ≠ '-') : c ≠ d := by
  rintro rfl
  cases n with
  | ofNat n =>
      rw [Nat.isDigit_of_mem_toDigits (by decide) (by decide) member] at other
      contradiction
  | negSucc n =>
      rcases List.mem_cons.mp member with minus | digit
      · exact sign minus
      · rw [Nat.isDigit_of_mem_toDigits (by decide) (by decide) digit] at other
        contradiction

theorem decimal_natCast_inj {m n : Nat} : decimal m = decimal n ↔ m = n := by
  refine ⟨fun same => ?_, fun same => same ▸ rfl⟩
  have digits : Nat.toDigits 10 m = Nat.toDigits 10 n := same
  rw [← Nat.ofDigitChars_ten_toDigits (n := m), digits, Nat.ofDigitChars_ten_toDigits]

theorem toDigits_eq_zero_iff (n : Nat) : Nat.toDigits 10 n = ['0'] ↔ n = 0 := by
  rw [Nat.toDigits_eq_if (by decide)]
  split
  · rename_i small
    revert n
    decide
  · rename_i many
    constructor
    · intro single
      have lengths := congrArg List.length single
      have leading := List.length_pos_iff.mpr (Nat.toDigits_ne_nil (n := n / 10) (b := 10))
      simp only [List.length_append, List.length_singleton] at lengths
      omega
    · omega

theorem decimal_eq_zero_iff (n : Int) : decimal n = ['0'] ↔ n = 0 := by
  cases n with
  | ofNat n => simp [decimal, toDigits_eq_zero_iff]
  | negSucc n => simp [decimal]

end LinuxInterview.Library
