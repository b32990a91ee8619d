import LinuxInterview.AddressMap.TrmTable
import LinuxInterview.Library.Interleaving
import Mathlib.Data.List.TakeWhile

/-!
# Rows of the address table

A row is three cells. Its address is printed as it stands, in lower case, and neither its address nor
its size can be taken for a line of the page, unless the address is a number.
-/

namespace LinuxInterview.AddressMap
open Library Library.Csv Mmio

structure TrmRow where
  name : Text
  address : Text
  size : Text
  named : name ≠ []
  plain : pageNoise name = false
  hexadecimal : hexre address = true
  sized : sizere size = true

namespace TrmRow

def cells (r : TrmRow) : List Text := [r.name, r.address, r.size]

def start (r : TrmRow) : Nat := (intHex r.address).toOption.getD 0

def line (r : TrmRow) : Text :=
  r.name ++ ',' :: (r.address.map Char.toLower ++ ',' :: r.size.filter (· ≠ ' '))

end TrmRow

/-! ## Addresses -/

def IsDigitChar (c : Char) : Prop := ∃ d < 16, c = Nat.digitChar d

theorem hexDigit_digitChar : ∀ d < 16, hexDigit (Nat.digitChar d) = .ok d := by
  have digits : ∀ d < 16, (hexDigit (Nat.digitChar d)).toOption = some d := by decide
  intro d small
  have digit := digits d small
  cases read : hexDigit (Nat.digitChar d) with
  | error e => rw [read] at digit; cases digit
  | ok n => rw [read] at digit; cases digit; rfl

theorem toLower_of_isHexDigit {c : Char} (digit : isHexDigit c = true) : IsDigitChar c.toLower := by
  have low : ∀ n < 128, isHexDigit (Char.ofNat n) = true →
      ∃ d < 16, (Char.ofNat n).toLower = Nat.digitChar d := by decide
  have small : c.toNat < 128 := by
    simp only [isHexDigit, Char.isDigit, Bool.or_eq_true, Bool.and_eq_true, decide_eq_true_eq,
      Char.le_def, UInt32.le_iff_toNat_le] at digit
    rcases digit with (decimal | upper) | lower
    · change 48 ≤ c.toNat ∧ c.toNat ≤ 57 at decimal
      omega
    · change 65 ≤ c.toNat ∧ c.toNat ≤ 70 at upper
      omega
    · change 97 ≤ c.toNat ∧ c.toNat ≤ 102 at lower
      omega
  have found := low c.toNat small
  rw [Char.ofNat_toNat] at found
  exact found digit

def ofHex (s : Text) : Except PyError Nat := s.foldlM (fun n c => return 16 * n + (← hexDigit c)) 0

theorem ofHex_append_digit (s : Text) {c : Char} {d : Nat} (digit : hexDigit c = .ok d) :
    ofHex (s ++ [c]) = (ofHex s).map fun n => 16 * n + d := by
  rw [ofHex, List.foldlM_append, ← ofHex]
  cases ofHex s with
  | error e => rfl
  | ok n => simp [bind, Except.bind, digit, Except.map, pure, Except.pure]

theorem ofHex_digits {s : Text} (digits : ∀ c ∈ s, IsDigitChar c) : ∃ n < 16 ^ s.length, ofHex s = .ok n := by
  induction s using List.reverseRecOn with
  | nil => exact ⟨0, by simp, rfl⟩
  | append_singleton s c ih =>
      obtain ⟨n, bound, read⟩ := ih fun d member => digits d (List.mem_append_left _ member)
      obtain ⟨d, small, rfl⟩ := digits c (List.mem_append_right _ List.mem_cons_self)
      refine ⟨16 * n + d, ?_, ?_⟩
      · rw [List.length_append, List.length_singleton, pow_succ]
        omega
      · rw [ofHex_append_digit s (hexDigit_digitChar d small), read]
        rfl

theorem ofHex_injective {s t : Text} (sDigits : ∀ c ∈ s, IsDigitChar c) (tDigits : ∀ c ∈ t, IsDigitChar c)
    (length : s.length = t.length) (same : ofHex s = ofHex t) : s = t := by
  induction s using List.reverseRecOn generalizing t with
  | nil => exact (List.length_eq_zero_iff.mp length.symm).symm
  | append_singleton s c ih =>
      obtain rfl | ⟨t, d, rfl⟩ := List.eq_nil_or_concat' t
      · simp at length
      · have sInit := fun x member => sDigits x (List.mem_append_left [c] member)
        have tInit := fun x member => tDigits x (List.mem_append_left [d] member)
        obtain ⟨c, cSmall, rfl⟩ := sDigits c (List.mem_append_right _ List.mem_cons_self)
        obtain ⟨d, dSmall, rfl⟩ := tDigits d (List.mem_append_right _ List.mem_cons_self)
        obtain ⟨m, _, sRead⟩ := ofHex_digits sInit
        obtain ⟨n, _, tRead⟩ := ofHex_digits tInit
        rw [ofHex_append_digit s (hexDigit_digitChar c cSmall), sRead,
          ofHex_append_digit t (hexDigit_digitChar d dSmall), tRead] at same
        have value : 16 * m + c = 16 * n + d := Except.ok.inj same
        have high : m = n := by omega
        have low : c = d := by omega
        rw [ih sInit tInit (by simpa using length) (by rw [sRead, tRead, high]), low]

theorem ofHex_toLower {s : Text} (digits : ∀ c ∈ s, isHexDigit c = true) :
    ofHex (s.map Char.toLower) = ofHex s := by
  induction s using List.reverseRecOn with
  | nil => rfl
  | append_singleton s c ih =>
      have before := ih fun d member => digits d (List.mem_append_left _ member)
      obtain ⟨d, small, lower⟩ := toLower_of_isHexDigit (digits c (List.mem_append_right _ List.mem_cons_self))
      have again : ∀ d < 16, (Nat.digitChar d).toLower = Nat.digitChar d := by decide
      have digit : hexDigit c.toLower = .ok d := by rw [lower, hexDigit_digitChar d small]
      have same : hexDigit c = hexDigit c.toLower := by
        rw [hexDigit, hexDigit, lower, again d small]
      rw [List.map_append, List.map_singleton, ofHex_append_digit _ digit,
        ofHex_append_digit _ (same.trans digit), before]

/-- An address of eight digits is printed as it was read. -/
theorem intHex_of_hexre {address : Text} (hexadecimal : hexre address = true) :
    ∃ n, intHex address = .ok n ∧ hex8 n = address.map Char.toLower := by
  obtain ⟨length, digits⟩ : address.length = 8 ∧ ∀ c ∈ address, isHexDigit c = true := by
    simpa [hexre] using hexadecimal
  have lower : ∀ c ∈ address.map Char.toLower, IsDigitChar c :=
    List.forall_mem_map.mpr fun c member => toLower_of_isHexDigit (digits c member)
  obtain ⟨n, bound, read⟩ := ofHex_digits lower
  have nonempty : address ≠ [] := by
    rintro rfl
    simp at length
  refine ⟨n, ?_, ?_⟩
  · rw [intHex, if_neg nonempty, ← ofHex, ← ofHex_toLower digits, read]
  · have padded : (hex8 n).length = 8 := by
      have short : (hex n).length ≤ 8 := Nat.toDigits_length 16 n 8 (by omega) (by simpa [length] using bound)
      rw [hex8, padLeft, List.length_append, List.length_replicate]
      omega
    have printed : ∀ c ∈ hex8 n, IsDigitChar c := by
      intro c member
      rcases List.mem_append.mp member with zero | digit
      · exact ⟨0, by omega, List.eq_of_mem_replicate zero⟩
      · exact mem_toDigits (by decide) digit
    have again := intHex_hex8 n
    rw [intHex, if_neg (List.ne_nil_of_length_pos (by omega)), ← ofHex] at again
    exact ofHex_injective printed lower (by rw [padded, List.length_map, length]) (by rw [again, read])

/-! ## Cells and lines of the page -/

def isCellChar (c : Char) : Bool :=
  isHexDigit c || isDecimal c || isBlank c || c == '.' || unitLetters.contains c

/-- Each text that `pageNoise` looks for has a letter that no address and no size has. -/
theorem pageNoise_of_cellChars {t : Text} (chars : ∀ c ∈ t, isCellChar c = true) :
    pageNoise t = isNumber t := by
  have foreign (c : Char) (other : isCellChar c = false) : c ∉ t := by
    intro member
    rw [chars c member] at other
    cases other
  have caption : captions.contains t = false := by
    rw [List.contains_eq_mem, decide_eq_false_iff_not]
    intro member
    rcases List.mem_cons.mp member with rfl | member
    · exact foreign 'o' (by decide) (by decide)
    rcases List.mem_cons.mp member with rfl | member
    · exact foreign 't' (by decide) (by decide)
    obtain rfl := List.mem_singleton.mp member
    exact foreign 'z' (by decide) (by decide)
  have title : startsWith "RK3588 TRM" t = false := by
    rw [startsWith, Bool.eq_false_iff]
    intro prefixed
    exact foreign 'R' (by decide) ((List.isPrefixOf_iff_prefix.mp prefixed).subset (by decide))
  have copyright : decide ("Copyright".toList <:+: t) = false := by
    rw [decide_eq_false_iff_not]
    intro inside
    exact foreign 'o' (by decide) (inside.subset (by decide))
  have chapter : startsWith "Chapter" t = false := by
    rw [startsWith, Bool.eq_false_iff]
    intro prefixed
    exact foreign 'h' (by decide) ((List.isPrefixOf_iff_prefix.mp prefixed).subset (by decide))
  rw [pageNoise, caption, title, copyright, chapter, Bool.or_false, Bool.or_false, Bool.false_or, Bool.false_or]

theorem TrmRow.address_noise (r : TrmRow) : pageNoise r.address = isNumber r.address := by
  apply pageNoise_of_cellChars
  intro c member
  have digits : ∀ c ∈ r.address, isHexDigit c = true := by
    have hexadecimal := r.hexadecimal
    simp only [hexre, Bool.and_eq_true, List.all_eq_true] at hexadecimal
    exact hexadecimal.2
  simp [isCellChar, digits c member]

theorem afterNumeral_subset (t : Text) : afterNumeral t ⊆ t := by
  have rest := List.dropWhile_subset (p := isDecimal) (l := t)
  unfold afterNumeral
  split
  · rename_i fraction found
    rw [found] at rest
    split
    · exact rest
    · exact List.Subset.trans (List.dropWhile_subset _) (List.Subset.trans (List.subset_cons_self _ _) rest)
  · exact rest

theorem mem_of_mem_size {t : Text} {c : Char} (member : c ∈ t) :
    isDecimal c = true ∨ c = '.' ∨ c ∈ afterNumeral t := by
  have split {s : Text} (inside : c ∈ s) : isDecimal c = true ∨ c ∈ s.dropWhile isDecimal := by
    rw [← List.takeWhile_append_dropWhile (p := isDecimal) (l := s)] at inside
    exact (List.mem_append.mp inside).imp_left List.mem_takeWhile_imp
  rcases split member with digit | rest
  · exact Or.inl digit
  · unfold afterNumeral
    split
    · rename_i fraction found
      rw [found] at rest
      rcases List.mem_cons.mp rest with point | later
      · exact Or.inr (Or.inl point)
      · split
        · exact Or.inr (Or.inr rest)
        · exact (split later).imp_right Or.inr
    · exact Or.inr (Or.inr rest)

theorem sizere_spec {t : Text} (sized : sizere t = true) : (∀ c ∈ t, isCellChar c = true) ∧
    ∃ c ∈ t, isDecimal c = false := by
  simp only [sizere, Bool.and_eq_true] at sized
  obtain ⟨_, unit⟩ := sized
  split at unit
  · rename_i unit byte last
    rw [Bool.and_eq_true, Bool.or_eq_true, beq_iff_eq, beq_iff_eq] at unit
    obtain ⟨letter, isByte⟩ := unit
    have byteCell : isCellChar byte = true ∧ isDecimal byte = false := by
      rcases isByte with rfl | rfl
      all_goals decide
    constructor
    · intro c member
      rcases mem_of_mem_size member with digit | rfl | rest
      · simp [isCellChar, digit]
      · decide
      · rw [← List.takeWhile_append_dropWhile (p := isBlank) (l := afterNumeral t), last] at rest
        rcases List.mem_append.mp rest with blank | tail
        · simp [isCellChar, List.mem_takeWhile_imp blank]
        · rcases List.mem_cons.mp tail with rfl | tail
          · simp only [isCellChar, letter, Bool.or_true]
          · obtain rfl := List.mem_singleton.mp tail
            exact byteCell.1
    · refine ⟨byte, afterNumeral_subset t ((List.dropWhile_subset isBlank) ?_), byteCell.2⟩
      rw [last]
      simp
  · cases unit

theorem TrmRow.size_noise (r : TrmRow) : pageNoise r.size = false := by
  obtain ⟨chars, c, member, other⟩ := sizere_spec r.sized
  rw [pageNoise_of_cellChars chars, isNumber, Bool.and_eq_false_iff, List.all_eq_false]
  exact Or.inr ⟨c, member, by rw [other]; exact Bool.false_ne_true⟩

end LinuxInterview.AddressMap
