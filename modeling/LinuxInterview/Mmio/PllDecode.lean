import Mathlib.Data.Nat.Bitwise
import LinuxInterview.Library.Doubles
import LinuxInterview.Mmio.Clocks
import LinuxInterview.Mmio.Stdout

/-!
# `pll_decode.py`

The script reads three registers of each PLL past the guard, decodes their fields, computes the
frequency, and sets the rate of `clk_summary` beside it.
-/

namespace LinuxInterview.Mmio
open Library
open AddressMap (intHex intHex_hex8)

def CRU : Nat := 0xfd7c0000

def PLLS : List (Text × Nat) :=
  [("v0pll".toList, 0x160), ("aupll".toList, 0x180), ("cpll".toList, 0x1a0), ("gpll".toList, 0x1c0), ("npll".toList, 0x1e0)]

/-- `int(s)` for digits and a sign: no blank or underscore. -/
def pyInt (s : Text) : Except PyError Int :=
  match s with
  | '-' :: digits => if digits = [] then .error .valueError else (decimalNumber digits).map fun n => -(n : Int)
  | '+' :: digits => if digits = [] then .error .valueError else (decimalNumber digits).map Int.ofNat
  | digits => if digits = [] then .error .valueError else (decimalNumber digits).map Int.ofNat

/-- The lines that the dictionary `summ` takes. -/
def Kept (f : List Text) : Prop := 5 < f.length ∧ f.getD 0 [] ∈ PLLS.map Prod.fst

instance (f : List Text) : Decidable (Kept f) := inferInstanceAs (Decidable (_ ∧ _))

/-- The items of the dictionary `summ` in the order in which they are put in. -/
def summ (lines : List Text) : Except PyError (List (Text × Int)) :=
  ((lines.map words).filter fun f => Kept f).mapM fun f =>
    return (f.getD 0 [], ← pyInt (f.getD 4 []))

/-- `summ.get(n, -1)`, where a later item replaced an earlier one. -/
def summGet (items : List (Text × Int)) (n : Text) : Int := (items.reverse.lookup n).getD (-1)

structure PllRow where
  name : Text
  con0 : Nat
  con1 : Nat
  con2 : Nat
  m : Nat
  p : Nat
  s : Nat
  k : Int
  hz : ℚ
  linux : Int
  powerDown : Bool

/-- `24e6 * (m + k / 65536) / p / (1 << s)`, each operation rounded. -/
def calcHz (m p s : Nat) (k : Int) : ℚ :=
  float (float (float (24000000 * float (m + float (k / 65536))) / p) / 2 ^ s)

def decodePll (name : Text) (c0 c1 c2 : Nat) (linux : Int) : PllRow :=
  let m := c0 &&& 0x3ff
  let bp := (c0 >>> 15) &&& 1
  let p := c1 &&& 0x3f
  let s := (c1 >>> 6) &&& 7
  let rstb := (c1 >>> 13) &&& 1
  let low := c2 &&& 0xffff
  let k : Int := if low &&& 0x8000 ≠ 0 then low - 0x10000 else low
  let f := if p ≠ 0 then calcHz m p s k else 0
  ⟨name, c0, c1, c2, m, p, s, k, if bp ≠ 0 then 24000000 else f, linux, rstb ≠ 0⟩

section Script

variable (board : Board) (mapOk : Int → Bool) (memory : Int → BitVec 32)

def pllRd (a : Nat) : Option Nat := do
  let out ← (safeMmio board mapOk memory ⟨true, "get".toList, a, none⟩).checkOutput
  let last ← (words out).getLast?
  (intHex last).toOption

/-- The rows that are printed, and whether the loop came to its end. -/
def pllRows (items : List (Text × Int)) : List (Text × Nat) → List PllRow × Bool
  | [] => ([], true)
  | (n, off) :: rest =>
      match pllRd board mapOk memory (CRU + off), pllRd board mapOk memory (CRU + off + 4),
        pllRd board mapOk memory (CRU + off + 8) with
      | some c0, some c1, some c2 =>
          (decodePll n c0 c1 c2 (summGet items n) :: (pllRows items rest).1, (pllRows items rest).2)
      | _, _, _ => ([], false)

def pllDecode : List PllRow × Bool :=
  match board.clkSummary with
  | none => ([], false)
  | some lines =>
      match summ lines with
      | .error _ => ([], false)
      | .ok items => pllRows board mapOk memory items PLLS

end Script

variable {board : Board} {mapOk : Int → Bool} {memory : Int → BitVec 32}

/-! ## The fields and the frequency -/

/-- The fields of the registers, and the quotient rounded once. -/
def pllRow (name : Text) (c0 c1 c2 : BitVec 32) (linux : Int) : PllRow where
  name := name
  con0 := c0.toNat
  con1 := c1.toNat
  con2 := c2.toNat
  m := (c0.extractLsb' 0 10).toNat
  p := (c1.extractLsb' 0 6).toNat
  s := (c1.extractLsb' 6 3).toNat
  k := (c2.extractLsb' 0 16).toInt
  hz := if c0.getLsbD 15 then 24000000 else
    float (24000000 * ((c0.extractLsb' 0 10).toNat + (c2.extractLsb' 0 16).toInt / 65536) / (c1.extractLsb' 0 6).toNat) /
      2 ^ (c1.extractLsb' 6 3).toNat
  linux := linux
  powerDown := c1.getLsbD 13

theorem field_eq (c : BitVec 32) (start width : Nat) :
    (c.toNat >>> start) &&& (2 ^ width - 1) = (c.extractLsb' start width).toNat := by
  rw [BitVec.extractLsb'_toNat, Nat.and_two_pow_sub_one_eq_mod]

theorem bit_eq (c : BitVec 32) (i : Nat) : ((c.toNat >>> i) &&& 1 ≠ 0) ↔ c.getLsbD i = true := by
  rw [← BitVec.testBit_toNat, Nat.testBit, Nat.and_comm, bne_iff_ne]

theorem signed_eq (c : BitVec 32) : (if (c.toNat &&& 0xffff) &&& 0x8000 ≠ 0 then ((c.toNat &&& 0xffff : Nat) : Int) - 0x10000
    else (c.toNat &&& 0xffff : Nat)) = (c.extractLsb' 0 16).toInt := by
  have low : c.toNat &&& 0xffff = (c.extractLsb' 0 16).toNat := field_eq c 0 16
  have sign : (c.extractLsb' 0 16).toNat &&& 0x8000 ≠ 0 ↔ (c.extractLsb' 0 16).msb = true := by
    have bit := Nat.and_two_pow (c.extractLsb' 0 16).toNat 15
    rw [show (0x8000 : Nat) = 2 ^ 15 from rfl, bit, BitVec.msb_eq_getLsbD_last, ← BitVec.testBit_toNat]
    cases (c.extractLsb' 0 16).toNat.testBit 15 <;> simp
  rw [low, BitVec.toInt_eq_msb_cond]
  simp only [sign]
  rfl

/-- A multiple of `1 / 65536` with few digits is a double. -/
theorem float_fraction {x : ℚ} {n : ℤ} (form : 65536 * x = n) (small : n.natAbs < 2 ^ 53) : float x = x := by
  have unrounded := float_eq_self (m := n) (k := -16) small (by norm_num)
  have same : (n : ℚ) * 2 ^ (-16 : ℤ) = x := by
    rw [← form]
    norm_num
    ring
  rwa [same] at unrounded

/-- What the loop divides by `2 ^ s` is no small number, so the division only moves its exponent. -/
theorem quotient_large {m p : Nat} {k : Int} (pSmall : p < 64) :
    (24000000 * (m + k / 65536) / p : ℚ) = 0 ∨ 1 ≤ |(24000000 * (m + k / 65536) / p : ℚ)| := by
  by_cases none_ : p = 0 ∨ 65536 * (m : ℤ) + k = 0
  · left
    rcases none_ with rfl | cancels
    · simp
    · have zero : (m + k / 65536 : ℚ) = 0 := by
        have cast : (65536 * m + k : ℚ) = 0 := by exact_mod_cast cancels
        linarith
      rw [zero, mul_zero, zero_div]
  · right
    obtain ⟨divides, differs⟩ := not_or.mp none_
    have divisor : (0 : ℚ) < p := by exact_mod_cast Nat.pos_of_ne_zero divides
    have bound : (p : ℚ) ≤ 63 := by exact_mod_cast Nat.le_of_lt_succ pSmall
    have whole : (1 : ℚ) ≤ |65536 * (m : ℚ) + (k : ℚ)| := by
      have cast : ((1 : ℤ) : ℚ) ≤ ((|65536 * (m : ℤ) + k| : ℤ) : ℚ) := Int.cast_le.mpr (Int.one_le_abs differs)
      push_cast at cast
      exact cast
    have form : (24000000 * (m + k / 65536) / p : ℚ) = 24000000 / 65536 * (65536 * m + k) / p := by ring
    rw [form, abs_div, abs_mul, abs_of_pos divisor, one_le_div divisor]
    have factor : |(24000000 / 65536 : ℚ)| = 24000000 / 65536 := abs_of_pos (by norm_num)
    rw [factor]
    linarith

theorem calcHz_eq {m p s : Nat} {k : Int} (mSmall : m < 1024) (pSmall : p < 64) (sSmall : s < 8)
    (kSmall : k.natAbs ≤ 32768) : calcHz m p s k = float (24000000 * (m + k / 65536) / p) / 2 ^ s := by
  have first : float (k / 65536) = k / 65536 :=
    float_fraction (n := k) (mul_div_cancel₀ _ (by norm_num)) (by omega)
  have second : float (m + k / 65536) = m + k / 65536 := by
    apply float_fraction (n := 65536 * m + k)
    · push_cast
      ring
    · omega
  have third : float (24000000 * (m + k / 65536)) = 24000000 * (m + k / 65536) := by
    apply float_fraction (n := 24000000 * (65536 * m + k))
    · push_cast
      ring
    · omega
  rw [calcHz, first, second, third]
  exact float_div_two_pow s (quotient_large pSmall) (by omega)

theorem decodePll_eq (name : Text) (c0 c1 c2 : BitVec 32) (linux : Int) :
    decodePll name c0.toNat c1.toNat c2.toNat linux = pllRow name c0 c1 c2 linux := by
  have m : c0.toNat &&& 0x3ff = (c0.extractLsb' 0 10).toNat := field_eq c0 0 10
  have p : c1.toNat &&& 0x3f = (c1.extractLsb' 0 6).toNat := field_eq c1 0 6
  have s : c1.toNat >>> 6 &&& 7 = (c1.extractLsb' 6 3).toNat := field_eq c1 6 3
  have small : (c2.extractLsb' 0 16).toInt.natAbs ≤ 32768 := by
    have above := BitVec.toInt_lt (x := c2.extractLsb' 0 16)
    have below := BitVec.le_toInt (c2.extractLsb' 0 16)
    omega
  have hz := calcHz_eq (c0.extractLsb' 0 10).isLt (c1.extractLsb' 0 6).isLt (c1.extractLsb' 6 3).isLt small
  rw [decodePll, pllRow]
  simp only [m, p, s, signed_eq, bit_eq, hz, PllRow.mk.injEq, true_and, and_true, Bool.decide_eq_true]
  congr 1
  split
  · rfl
  · rename_i noDivisor
    rw [not_ne_iff.mp noDivisor, Nat.cast_zero, div_zero, float_zero, zero_div]

/-! ## What the script reads -/

theorem pllRd_eq (a : Nat) (found : ∀ e, findNode a board.tree ≠ .error e) {lines : List Text}
    (summary : board.clkSummary = some lines) (mapped : Readable mapOk a = true) :
    pllRd board mapOk memory a = some (memory a).toNat := by
  have ends : ∃ why, check board a = .ok why := by
    unfold check
    cases node : findNode a board.tree with
    | error e => exact absurd node (found e)
    | ok window =>
        cases window with
        | none => exact ⟨_, rfl⟩
        | some window =>
            simp only [summary, bind, Except.bind, pure, Except.pure]
            split_ifs <;> exact ⟨_, rfl⟩
  obtain ⟨why, verdict⟩ := ends
  have read : (readAll mapOk [(a : Int)]).2 = none := by
    rw [readAll_eq_none_iff, List.forall_mem_singleton]
    exact mapped
  have out : safeMmio board mapOk memory ⟨true, "get".toList, a, none⟩ = ⟨wordText memory a ++ ['\n'], false⟩ := by
    rw [safeMmio]
    simp only [verdict, read]
    rw [if_neg (by simp)]
    rfl
  rw [pllRd, out]
  simp [Process.checkOutput, words_line (isWord_wordText _), intHex_wordText, Except.toOption]

/-- The rate of the last clock of a name. -/
def linuxRate (clocks : List Clock) (n : Text) : Int :=
  ((clocks.reverse.find? fun c => c.name = n).map Clock.rate).getD (-1)

theorem pyInt_decimal (n : Int) : pyInt (decimal n) = .ok n := by
  cases n with
  | negSucc n =>
      rw [decimal, pyInt, if_neg Nat.toDigits_ne_nil, decimalNumber_toDigits]
      rfl
  | ofNat n =>
      obtain ⟨c, t, digits⟩ := List.exists_cons_of_ne_nil (Nat.toDigits_ne_nil (n := n) (b := 10))
      have digit : c.isDigit = true :=
        Nat.isDigit_of_mem_toDigits (by decide) (by decide) (digits ▸ List.mem_cons_self)
      have value := decimalNumber_toDigits n
      rw [decimal, digits] at *
      have minus : c ≠ '-' := by
        rintro rfl
        cases digit
      have plus : c ≠ '+' := by
        rintro rfl
        cases digit
      rw [pyInt.eq_3 _ (by simp [minus]) (by simp [plus]), if_neg (List.cons_ne_nil c t), value]
      rfl

def named (clocks : List Clock) : List Clock := clocks.filter fun c => Kept c.fields

theorem kept_fields (c : Clock) : Kept c.fields ↔ c.name ∈ PLLS.map Prod.fst := by
  simp [Kept, Clock.fields]

theorem filter_rows (clocks : List Clock) :
    (clocks.flatMap Clock.rows).filter (fun f => Kept f) = (named clocks).map Clock.fields := by
  induction clocks with
  | nil => rfl
  | cons c clocks ih =>
      have consumers : (c.others.map fun k => [k.dev, k.conn]).filter (fun f => Kept f) = [] := by
        rw [List.filter_eq_nil_iff]
        intro f member
        obtain ⟨k, _, rfl⟩ := List.mem_map.mp member
        simp [Kept]
      rw [List.flatMap_cons, Clock.rows, List.cons_append, List.filter_cons, List.filter_append, consumers,
        List.nil_append, ih, named, named, List.filter_cons]
      split <;> rfl

theorem summ_eq {clocks : List Clock} {lines : List Text} (listing : PrintsSummary clocks lines) :
    summ lines = .ok ((named clocks).map fun c => (c.name, c.rate)) := by
  have header : ∀ f ∈ headerRows, ¬ Kept f := by decide
  have rows : (headerRows ++ clocks.flatMap Clock.rows).filter (fun f => Kept f) = (named clocks).map Clock.fields := by
    rw [List.filter_append, List.filter_eq_nil_iff.mpr (by simpa using header), List.nil_append, filter_rows]
  rw [summ, words_of_printed listing, rows]
  generalize named clocks = kept
  induction kept with
  | nil => rfl
  | cons c kept ih =>
      have rate : c.fields.getD 4 [] = decimal c.rate := rfl
      have name : c.fields.getD 0 [] = c.name := rfl
      rw [List.map_cons, List.mapM_cons, ih, rate, name, pyInt_decimal]
      rfl

theorem lookup_named {n : Text} (known : n ∈ PLLS.map Prod.fst) (clocks : List Clock) :
    ((clocks.filter fun c => Kept c.fields).map fun c => (c.name, c.rate)).lookup n =
      (clocks.find? fun c => c.name = n).map Clock.rate := by
  induction clocks with
  | nil => rfl
  | cons c clocks ih =>
      rw [List.filter_cons, List.find?_cons]
      by_cases same : c.name = n
      · subst same
        simp [kept_fields, known]
      · have differs : (n == c.name) = false := by simpa using Ne.symm same
        split
        · rw [List.map_cons, List.lookup_cons, differs, ih]
          simp [same]
        · rw [ih]
          simp [same]

theorem summGet_eq {n : Text} (known : n ∈ PLLS.map Prod.fst) (clocks : List Clock) :
    summGet ((named clocks).map fun c => (c.name, c.rate)) n = linuxRate clocks n := by
  rw [summGet, linuxRate, named, ← List.map_reverse, ← List.filter_reverse, lookup_named known]

theorem pllRows_eq {items : List (Text × Int)} {plls : List (Text × Nat)} {row : Text × Nat → PllRow}
    (reads : ∀ q ∈ plls, ∀ i < 3, pllRd board mapOk memory (CRU + q.2 + 4 * i) =
      some (memory (CRU + q.2 + 4 * i : Nat)).toNat)
    (rows : ∀ q ∈ plls, pllRow q.1 (memory (CRU + q.2 : Nat)) (memory (CRU + q.2 + 4 : Nat))
      (memory (CRU + q.2 + 8 : Nat)) (summGet items q.1) = row q) :
    pllRows board mapOk memory items plls = (plls.map row, true) := by
  induction plls with
  | nil => rfl
  | cons q plls ih =>
      rw [List.forall_mem_cons] at reads rows
      have c0 := reads.1 0 (by decide)
      have c1 := reads.1 1 (by decide)
      have c2 := reads.1 2 (by decide)
      simp only [Nat.mul_zero, Nat.add_zero, Nat.mul_one, Nat.reduceMul] at c0 c1 c2
      rw [pllRows, c0, c1, c2]
      simp only [decodePll_eq, rows.1, ih reads.2 rows.2, List.map_cons]

/-- All fifteen registers lie in one page. -/
theorem cru_readable (mapped : mapOk CRU = true) :
    ∀ q ∈ PLLS, ∀ i < 3, Readable mapOk ((CRU + q.2 + 4 * i : Nat) : Int) = true := by
  have page : ∀ q ∈ PLLS, ∀ i < 3, pageBase ((CRU + q.2 + 4 * i : Nat) : Int) = CRU := by decide
  have fits : ∀ q ∈ PLLS, ∀ i < 3, ¬ 4096 - 4 < ((CRU + q.2 + 4 * i : Nat) : Int) - CRU := by decide
  intro q member i small
  rw [Readable, r, page q member i small, if_neg (fits q member i small), mapped]
  rfl

/-- The whole table, for every content of the registers and every listing of the clocks. -/
theorem pllDecode_prints (memory : Int → BitVec 32) {clocks : List Clock} {lines : List Text}
    (summary : board.clkSummary = some lines) (listing : PrintsSummary clocks lines)
    (wholeWords : ∀ a e, findNode a board.tree ≠ .error e) (mapped : mapOk CRU = true) :
    pllDecode board mapOk memory = (PLLS.map fun q =>
      pllRow q.1 (memory (CRU + q.2 : Nat)) (memory (CRU + q.2 + 4 : Nat)) (memory (CRU + q.2 + 8 : Nat))
        (linuxRate clocks q.1), true) := by
  rw [pllDecode, summary]
  simp only [summ_eq listing]
  apply pllRows_eq
  · intro q member i small
    exact pllRd_eq _ (wholeWords _) summary (cru_readable mapped q member i small)
  · intro q member
    rw [summGet_eq (List.mem_map_of_mem member)]

def gpllClock : Clock := { sharedClock with name := "gpll".toList, rate := 1188000000 }

def gpllListing : List Text := (headerRows ++ [gpllClock].flatMap Clock.rows).map printFields

theorem gpllListing_prints : PrintsSummary [gpllClock] gpllListing := by
  have dashes : IsWord (List.replicate 141 '-') :=
    ⟨by simp, fun c member => List.eq_of_mem_replicate member ▸ (by decide)⟩
  have solid : ∀ row ∈ headerRows ++ [gpllClock].flatMap Clock.rows,
      ∀ field ∈ row, IsWord field := by
    simp only [headerRows, List.forall_mem_append, List.forall_mem_cons]
    simp only [dashes]
    decide
  rw [PrintsSummary, gpllListing, List.forall₂_map_right_iff, List.forall₂_same]
  exact fun row member => printsFields_printFields (solid row member)

theorem pllDecode_prints_gpll :
    pllDecode ⟨[], fun _ => false, fun _ => none, some gpllListing⟩ (fun _ => true) (fun _ => 0x2063) = (PLLS.map fun q =>
      pllRow q.1 0x2063 0x2063 0x2063 (linuxRate [gpllClock] q.1), true) :=
  pllDecode_prints (fun _ => 0x2063) rfl gpllListing_prints (fun _ _ => by simp [findNode]) rfl

end LinuxInterview.Mmio
