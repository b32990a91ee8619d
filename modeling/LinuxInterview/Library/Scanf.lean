import Mathlib.Data.List.TakeWhile
import LinuxInterview.Library.Text

/-!
# `sscanf` of the kernel, for literal text, white space and `%d`

A text is the string that a buffer holds, with one character for each byte.
-/

namespace LinuxInterview.Library.Scanf

/-- `isspace` of the kernel, which knows the no-break space of Latin-1. -/
def isSpace (c : Char) : Bool := c = ' ' || ('\t' ≤ c && c ≤ '\r') || c = '\u00a0'

inductive Directive
  | literal (c : Char)
  | blank
  | decimal
  deriving DecidableEq, Repr

/-- A format in which a blank and `%d` stand for themselves. -/
def format : Text → List Directive
  | [] => []
  | '%' :: 'd' :: rest => .decimal :: format rest
  | c :: rest => (if c = ' ' then .blank else .literal c) :: format rest

def readDigits (s : Text) : Option (Nat × Text) :=
  if s.takeWhile Char.isDigit = [] then none
  else some (Nat.ofDigitChars 10 (s.takeWhile Char.isDigit) 0, s.dropWhile Char.isDigit)

/-- A plus sign is not read. -/
def readNumber : Text → Option (Int × Text)
  | '-' :: s => (readDigits s).map fun (n, rest) => (-n, rest)
  | s => (readDigits s).map fun (n, rest) => (n, rest)

/-- The numbers that are stored, each in an `int`; their count is the result. -/
def scan : List Directive → Text → List Int32
  | [], _ => []
  | .blank :: fmt, s => scan fmt (s.dropWhile isSpace)
  | .literal _ :: _, [] => []
  | .literal c :: fmt, d :: s => if d = c then scan fmt s else []
  | .decimal :: fmt, s =>
      match readNumber (s.dropWhile isSpace) with
      | none => []
      | some (n, rest) => Int32.ofInt n :: scan fmt rest

def sscanf (s : Text) (fmt : String) : List Int32 := scan (format fmt.toList) s

/-! ## The texts that a format matches -/

/-- Decimal digits with the number they write. -/
structure IsDigits (s : Text) (n : Nat) : Prop where
  nonempty : s ≠ []
  digits : ∀ c ∈ s, c.isDigit = true
  value : Nat.ofDigitChars 10 s 0 = n

inductive IsNumber : Text → Int → Prop
  | plain {s : Text} {n : Nat} (digits : IsDigits s n) : IsNumber s n
  | negative {s : Text} {n : Nat} (digits : IsDigits s n) : IsNumber ('-' :: s) (-n)

def IsGap (s : Text) : Prop := ∀ c ∈ s, isSpace c = true

def StartsWith (p : Char → Bool) (s : Text) : Prop := ∃ c ∈ s.head?, p c = true

/-- A text whose front a format reads to the end of the format. -/
inductive Matches : List Directive → Text → List Int32 → Prop
  | nil (rest : Text) : Matches [] rest []
  | literal {fmt : List Directive} {s : Text} {values : List Int32} (c : Char) (tail : Matches fmt s values) :
      Matches (.literal c :: fmt) (c :: s) values
  | blank {fmt : List Directive} {gap s : Text} {values : List Int32} (isGap : IsGap gap)
      (stops : ¬ StartsWith isSpace s) (tail : Matches fmt s values) : Matches (.blank :: fmt) (gap ++ s) values
  | decimal {fmt : List Directive} {gap number s : Text} {n : Int} {values : List Int32} (isGap : IsGap gap)
      (isNumber : IsNumber number n) (stops : ¬ StartsWith Char.isDigit s) (tail : Matches fmt s values) :
      Matches (.decimal :: fmt) (gap ++ (number ++ s)) (Int32.ofInt n :: values)

variable {fmt : List Directive} {s rest : Text} {n : Nat} {values : List Int32}

theorem takeWhile_stops {p : Char → Bool} (stops : ¬ StartsWith p rest) : rest.takeWhile p = [] := by
  cases rest with
  | nil => rfl
  | cons c rest =>
      have no : p c = false := by
        cases starts : p c with
        | false => rfl
        | true => exact absurd ⟨c, rfl, starts⟩ stops
      simp [no]

theorem dropWhile_stops {p : Char → Bool} (stops : ¬ StartsWith p rest) : rest.dropWhile p = rest := by
  have none := takeWhile_stops stops
  have both := List.takeWhile_append_dropWhile (p := p) (l := rest)
  rw [none, List.nil_append] at both
  exact both

theorem dropWhile_gap {p : Char → Bool} (all : ∀ c ∈ s, p c = true) (stops : ¬ StartsWith p rest) :
    (s ++ rest).dropWhile p = rest := by
  rw [List.dropWhile_append_of_pos all, dropWhile_stops stops]

theorem takeWhile_gap {p : Char → Bool} (all : ∀ c ∈ s, p c = true) (stops : ¬ StartsWith p rest) :
    (s ++ rest).takeWhile p = s := by
  rw [List.takeWhile_append_of_pos all, takeWhile_stops stops, List.append_nil]

theorem not_startsWith_dropWhile (p : Char → Bool) (s : Text) : ¬ StartsWith p (s.dropWhile p) := by
  rintro ⟨c, first, holds⟩
  have refused := List.head?_dropWhile_not p s
  rw [Option.mem_def.mp first] at refused
  simp [holds] at refused

theorem readDigits_append (digits : IsDigits s n) (stops : ¬ StartsWith Char.isDigit rest) :
    readDigits (s ++ rest) = some (n, rest) := by
  rw [readDigits, takeWhile_gap digits.digits stops, dropWhile_gap digits.digits stops, digits.value,
    if_neg digits.nonempty]

theorem digits_of_readDigits (read : readDigits s = some (n, rest)) :
    ∃ text, s = text ++ rest ∧ IsDigits text n ∧ ¬ StartsWith Char.isDigit rest := by
  obtain ⟨nonempty, both⟩ := Option.ite_none_left_eq_some.mp read
  cases both
  refine ⟨s.takeWhile Char.isDigit, List.takeWhile_append_dropWhile.symm, ?_, not_startsWith_dropWhile _ s⟩
  exact ⟨nonempty, fun c member => List.mem_takeWhile_imp member, rfl⟩

theorem digit_first (digits : IsDigits s n) : ∃ c t, s = c :: t ∧ c.isDigit = true := by
  cases s with
  | nil => exact absurd rfl digits.nonempty
  | cons c t => exact ⟨c, t, rfl, digits.digits c List.mem_cons_self⟩

theorem readNumber_append {number : Text} {n : Int} (isNumber : IsNumber number n)
    (stops : ¬ StartsWith Char.isDigit rest) : readNumber (number ++ rest) = some (n, rest) := by
  cases isNumber with
  | negative digits =>
      rw [List.cons_append, readNumber, readDigits_append digits stops]
      rfl
  | plain digits =>
      obtain ⟨c, t, rfl, digit⟩ := digit_first digits
      have sign : c ≠ '-' := by
        rintro rfl
        cases digit
      have plain : readNumber (c :: (t ++ rest)) = (readDigits (c :: (t ++ rest))).map fun (n, rest) => ((n : Int), rest) := by
        rw [readNumber]
        simpa using sign
      rw [List.cons_append, plain, ← List.cons_append, readDigits_append digits stops]
      rfl

theorem number_of_readNumber {n : Int} (read : readNumber s = some (n, rest)) :
    ∃ number, s = number ++ rest ∧ IsNumber number n ∧ ¬ StartsWith Char.isDigit rest := by
  unfold readNumber at read
  split at read
  · obtain ⟨⟨m, rest'⟩, digits, same⟩ := Option.map_eq_some_iff.mp read
    cases same
    obtain ⟨text, rfl, isDigits, stops⟩ := digits_of_readDigits digits
    exact ⟨'-' :: text, rfl, .negative isDigits, stops⟩
  · obtain ⟨⟨m, rest'⟩, digits, same⟩ := Option.map_eq_some_iff.mp read
    cases same
    obtain ⟨text, rfl, isDigits, stops⟩ := digits_of_readDigits digits
    exact ⟨text, rfl, .plain isDigits, stops⟩

theorem isSpace_digit {c : Char} (digit : c.isDigit = true) : isSpace c = false := by
  have large : 48 ≤ c.toNat := (Char.isDigit_iff_toNat.mp digit).1
  cases space : isSpace c with
  | false => rfl
  | true =>
      simp only [isSpace, Bool.or_eq_true, Bool.and_eq_true, decide_eq_true_eq] at space
      rcases space with (rfl | ⟨_, small⟩) | rfl
      · cases digit
      · have small : c.toNat ≤ 13 := small
        omega
      · cases digit

theorem number_first {number : Text} {n : Int} (isNumber : IsNumber number n) :
    ∃ c t, number = c :: t ∧ isSpace c = false := by
  cases isNumber with
  | plain digits =>
      obtain ⟨c, t, same, digit⟩ := digit_first digits
      exact ⟨c, t, same, isSpace_digit digit⟩
  | negative _ => exact ⟨'-', _, rfl, rfl⟩

theorem number_stops {number : Text} {n : Int} (isNumber : IsNumber number n) (rest : Text) :
    ¬ StartsWith isSpace (number ++ rest) := by
  obtain ⟨c, t, rfl, solid⟩ := number_first isNumber
  rintro ⟨d, first, space⟩
  cases first
  rw [solid] at space
  cases space

/-! ## `scan` reads the texts that its format matches -/

def conversions (fmt : List Directive) : Nat := fmt.count .decimal

theorem scan_of_matches (found : Matches fmt s values) : scan fmt s = values := by
  induction found with
  | nil rest => rfl
  | literal c tail ih => simpa [scan] using ih
  | blank isGap stops tail ih => rw [scan, dropWhile_gap isGap stops, ih]
  | decimal isGap isNumber stops tail ih =>
      rw [scan, dropWhile_gap isGap (number_stops isNumber _), readNumber_append isNumber stops]
      exact congrArg _ ih

theorem split_gap (s : Text) :
    ∃ gap rest, s = gap ++ rest ∧ IsGap gap ∧ ¬ StartsWith isSpace rest ∧ s.dropWhile isSpace = rest := by
  refine ⟨s.takeWhile isSpace, s.dropWhile isSpace, List.takeWhile_append_dropWhile.symm, ?_, ?_, rfl⟩
  · exact fun c member => List.mem_takeWhile_imp member
  · exact not_startsWith_dropWhile _ s

/-- Nothing after the last conversion of a format is reported, so only a format that ends in a
conversion is known to be read to its end. -/
theorem matches_of_scan (last : fmt.getLast? = some .decimal)
    (all : (scan fmt s).length = conversions fmt) : Matches fmt s (scan fmt s) := by
  induction fmt generalizing s with
  | nil => cases last
  | cons directive fmt ih =>
      have ends : fmt = [] ∨ fmt.getLast? = some .decimal := by
        cases fmt with
        | nil => exact .inl rfl
        | cons next fmt => exact .inr (by simpa using last)
      cases directive with
      | blank =>
          have ends := ends.resolve_left (by rintro rfl; cases last)
          obtain ⟨gap, rest, rfl, isGap, stops, dropped⟩ := split_gap s
          rw [scan, dropped] at all ⊢
          exact .blank isGap stops (ih ends (by simpa [conversions] using all))
      | literal c =>
          have ends := ends.resolve_left (by rintro rfl; cases last)
          have converts : 0 < conversions (.literal c :: fmt) := by
            apply List.count_pos_iff.mpr
            exact List.mem_cons_of_mem _ (List.mem_of_getLast? ends)
          cases s with
          | nil => simp_all [scan]
          | cons d s =>
              by_cases same : d = c
              · subst same
                rw [scan, if_pos rfl] at all ⊢
                exact .literal d (ih ends (by simpa [conversions] using all))
              · rw [scan, if_neg same] at all
                exact absurd all.symm converts.ne'
      | decimal =>
          obtain ⟨gap, rest, rfl, isGap, stops, dropped⟩ := split_gap s
          rw [scan, dropped] at all ⊢
          cases read : readNumber rest with
          | none => simp [read, conversions] at all
          | some pair =>
              obtain ⟨n, rest⟩ := pair
              obtain ⟨number, rfl, isNumber, stops⟩ := number_of_readNumber read
              simp only [read] at all ⊢
              apply Matches.decimal isGap isNumber stops
              cases ends with
              | inl empty =>
                  subst empty
                  exact .nil rest
              | inr ends => exact ih ends (by simpa [conversions] using all)

theorem scan_eq_iff (last : fmt.getLast? = some .decimal) (count : values.length = conversions fmt) :
    scan fmt s = values ↔ Matches fmt s values := by
  constructor
  · rintro rfl
    exact matches_of_scan last count
  · exact scan_of_matches

theorem Matches.begins {front : Text} (found : Matches fmt s values) (starts : front.map .literal <+: fmt) :
    front <+: s := by
  induction front generalizing fmt s values with
  | nil => exact List.nil_prefix
  | cons c front ih =>
      cases found with
      | nil rest => cases List.prefix_nil.mp starts
      | literal d tail =>
          obtain ⟨same, shorter⟩ := List.cons_prefix_cons.mp starts
          cases same
          exact List.cons_prefix_cons.mpr ⟨rfl, ih tail shorter⟩
      | blank isGap stops tail => cases (List.cons_prefix_cons.mp starts).1
      | decimal isGap isNumber stops tail => cases (List.cons_prefix_cons.mp starts).1

theorem Matches.after (front : Text) (found : Matches fmt s values) :
    Matches (front.map .literal ++ fmt) (front ++ s) values := by
  induction front with
  | nil => exact found
  | cons c front ih => exact .literal c ih

/-- A format that begins with another letter. -/
def refuses (d : Char) : List Directive → Bool
  | .literal c :: _ => d ≠ c
  | _ => false

theorem sscanf_refused {fmt : String} {d : Char} (other : refuses d (format fmt.toList) = true) (s : Text) :
    sscanf (d :: s) fmt = [] := by
  rw [sscanf]
  cases directives : format fmt.toList with
  | nil => rfl
  | cons directive rest =>
      rw [directives] at other
      cases directive with
      | literal c => exact if_neg (of_decide_eq_true other)
      | blank => cases other
      | decimal => cases other

/-! ## Printed numbers -/

theorem isDigits_toDigits (n : Nat) : IsDigits (Nat.toDigits 10 n) n where
  nonempty := Nat.toDigits_ne_nil
  digits _ member := Nat.isDigit_of_mem_toDigits (by decide) (by decide) member
  value := Nat.ofDigitChars_ten_toDigits

theorem isNumber_decimal (n : Int) : IsNumber (Library.decimal n) n := by
  cases n with
  | ofNat n => exact .plain (isDigits_toDigits n)
  | negSucc n => exact .negative (isDigits_toDigits (n + 1))

theorem not_startsWith_cons {p : Char → Bool} {c : Char} (no : p c = false) (s : Text) : ¬ StartsWith p (c :: s) := by
  rintro ⟨d, first, holds⟩
  cases first
  rw [no] at holds
  cases holds

theorem Matches.space (stops : ¬ StartsWith isSpace s) (tail : Matches fmt s values) :
    Matches (.blank :: fmt) (' ' :: s) values := by
  have isGap : IsGap [' '] := by
    intro c member
    rw [List.mem_singleton.mp member]
    rfl
  exact .blank isGap stops tail

theorem Matches.number (a : Int32) (stops : ¬ StartsWith Char.isDigit s) (tail : Matches fmt s values) :
    Matches (.decimal :: fmt) (Library.decimal a.toInt ++ s) (a :: values) := by
  have isGap : IsGap [] := fun c member => absurd member List.not_mem_nil
  have reads := Matches.decimal isGap (isNumber_decimal a.toInt) stops tail
  rwa [Int32.ofInt_toInt] at reads

theorem decimal_stops (n : Int) (rest : Text) : ¬ StartsWith isSpace (Library.decimal n ++ rest) :=
  number_stops (isNumber_decimal n) rest

theorem length_decimal_le {n : Int} {width : Nat} (positive : 0 < width) (small : n.natAbs < 10 ^ width) :
    (Library.decimal n).length ≤ width + 1 := by
  cases n with
  | ofNat n => exact ((Nat.length_toDigits_le_iff (by decide) positive).mpr small).trans (Nat.le_succ width)
  | negSucc n => exact Nat.succ_le_succ ((Nat.length_toDigits_le_iff (by decide) positive).mpr small)

end LinuxInterview.Library.Scanf
