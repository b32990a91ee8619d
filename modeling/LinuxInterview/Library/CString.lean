import Mathlib.Tactic

/-!
# C strings

A pointer into a string is what is left of it up to the terminating NUL, and a pointer past the NUL is none.
-/

namespace LinuxInterview.Library.CString

abbrev CText := List UInt8

def ofBuffer (buf : List UInt8) : CText := buf.takeWhile (· ≠ 0)

def advance (n : Nat) (p : CText) : Option CText := if n ≤ p.length then some (p.drop n) else none

def strchr (c : UInt8) : CText → Option CText
  | [] => none
  | d :: p => if d = c then some (d :: p) else strchr c p

def strrchr (c : UInt8) : CText → Option CText
  | [] => none
  | d :: p =>
      match strrchr c p with
      | some q => some q
      | none => if d = c then some (d :: p) else none

def isspace (c : UInt8) : Bool := c = 0x20 || (0x09 ≤ c && c ≤ 0x0d)

def isdigit (c : UInt8) : Bool := 0x30 ≤ c && c ≤ 0x39

def digitsValue (digits : CText) : Nat := digits.foldl (fun n c => 10 * n + (c.toNat - 0x30)) 0

/-- `strtol(p, NULL, 10)`, with a `long` of 64 bits. -/
def strtol (p : CText) : Int :=
  match p.dropWhile isspace with
  | 0x2d :: q => max (-2 ^ 63) (-(digitsValue (q.takeWhile isdigit) : Int))
  | 0x2b :: q => min (2 ^ 63 - 1) (digitsValue (q.takeWhile isdigit) : Int)
  | q => min (2 ^ 63 - 1) (digitsValue (q.takeWhile isdigit) : Int)

def atol (p : CText) : Int64 := Int64.ofInt (strtol p)

def atoi (p : CText) : Int32 := (atol p).toInt32

structure IsNumeral (p : CText) : Prop where
  nonempty : p ≠ []
  digits : ∀ c ∈ p, isdigit c = true

theorem ofBuffer_terminated {s : CText} (solid : 0 ∉ s) (rest : List UInt8) :
    ofBuffer (s ++ 0 :: rest) = s := by
  have every : ∀ c ∈ s, decide (c ≠ 0) = true := fun c member =>
    decide_eq_true (ne_of_mem_of_not_mem member solid)
  rw [ofBuffer, List.takeWhile_append_of_pos every]
  simp

theorem strchr_append {c : UInt8} {s : CText} (absent : c ∉ s) (rest : CText) :
    strchr c (s ++ c :: rest) = some (c :: rest) := by
  induction s with
  | nil => exact if_pos rfl
  | cons d s ih =>
      rw [List.mem_cons, not_or] at absent
      rw [List.cons_append, strchr, if_neg (Ne.symm absent.1), ih absent.2]

theorem strchr_eq_none {c : UInt8} {s : CText} (absent : c ∉ s) : strchr c s = none := by
  induction s with
  | nil => rfl
  | cons d s ih =>
      rw [List.mem_cons, not_or] at absent
      rw [strchr, if_neg (Ne.symm absent.1), ih absent.2]

theorem strrchr_eq_none {c : UInt8} {s : CText} (absent : c ∉ s) : strrchr c s = none := by
  induction s with
  | nil => rfl
  | cons d s ih =>
      rw [List.mem_cons, not_or] at absent
      rw [strrchr, ih absent.2]
      exact if_neg (Ne.symm absent.1)

theorem strrchr_append {c : UInt8} {rest : CText} (absent : c ∉ rest) (s : CText) :
    strrchr c (s ++ c :: rest) = some (c :: rest) := by
  induction s with
  | nil =>
      rw [List.nil_append, strrchr, strrchr_eq_none absent]
      exact if_pos rfl
  | cons d s ih => rw [List.cons_append, strrchr, ih]

/-! ## Numerals -/

theorem digit_range {c : UInt8} (digit : isdigit c = true) : 0x30 ≤ c ∧ c ≤ 0x39 := by
  simpa [isdigit] using digit

theorem not_isspace_of_isdigit {c : UInt8} (digit : isdigit c = true) : isspace c = false := by
  obtain ⟨low, high⟩ := digit_range digit
  rw [UInt8.le_iff_toNat_le] at low
  rw [isspace, Bool.or_eq_false_iff, decide_eq_false_iff_not, Bool.and_eq_false_iff,
    decide_eq_false_iff_not, decide_eq_false_iff_not, UInt8.le_iff_toNat_le, UInt8.le_iff_toNat_le,
    ← UInt8.toNat_inj]
  simp at low ⊢
  omega

/-- A numeral is read up to the first byte that is no digit. -/
theorem strtol_numeral {s : CText} (numeral : IsNumeral s) {rest : CText}
    (stops : ∀ c ∈ rest.head?, isdigit c = false) :
    strtol (s ++ rest) = min (2 ^ 63 - 1) (digitsValue s : Int) := by
  obtain ⟨nonempty, digits⟩ := numeral
  have none : rest.takeWhile isdigit = [] := by
    cases rest with
    | nil => rfl
    | cons c rest => simp [stops c rfl]
  have read : (s ++ rest).takeWhile isdigit = s := by
    rw [List.takeWhile_append_of_pos digits, none, List.append_nil]
  cases s with
  | nil => contradiction
  | cons c s =>
      have digit := digits c List.mem_cons_self
      obtain ⟨low, -⟩ := digit_range digit
      have here : ((c :: s) ++ rest).dropWhile isspace = (c :: s) ++ rest :=
        List.dropWhile_cons_of_neg (by simp [not_isspace_of_isdigit digit])
      rw [strtol, here]
      split
      · rename_i first
        obtain ⟨rfl, -⟩ := List.cons.inj first
        contradiction
      · rename_i first
        obtain ⟨rfl, -⟩ := List.cons.inj first
        contradiction
      · rw [read]

end LinuxInterview.Library.CString
