import LinuxInterview.Library.Text

/-!
# What `ksm_test.c` leaves in `/sys/kernel/mm/ksm`
-/

namespace LinuxInterview.Ksm
open LinuxInterview.Library

inductive Setting
  | run
  | pages_to_scan
  | sleep_millisecs
  deriving DecidableEq, Repr

def Setting.Takes (f : Setting) (v : UInt32) : Prop := f = .run → v ≤ 2

abbrev Value (f : Setting) := { v : UInt32 // f.Takes v }

abbrev Settings := (f : Setting) → Value f

/-- How the kernel reads what is written: it takes the decimal numeral of any value that the setting may
have, and no numeral with a minus sign. -/
structure Sysfs where
  store : (f : Setting) → Text → Option (Value f)
  takes : ∀ f (v : Value f), store f (decimal v.val.toNat) = some v
  refuses : ∀ f n, n < 0 → store f (decimal n) = none

/-- Which of the calls succeed that may fail. The writes that restore the settings succeed unless the
kernel refuses the text. -/
structure Outcomes where
  pagemap : Bool
  madviseSame : Bool
  madviseDiff : Bool
  setPages : Bool
  setSleep : Bool
  setRun : Bool
  deriving DecidableEq, Repr

def ksm_get (f : Setting) (s : Settings) : Int := (s f).val.toNat

def ksm_set (k : Sysfs) (ok : Bool) (f : Setting) (val : Text) (s : Settings) : Int × Settings :=
  match if ok then k.store f val else none with
  | some v => (0, Function.update s f v)
  | none => (-1, s)

/-- The settings that `main` writes for its measurement, and whether it gives up at one of them. -/
def speedUp (k : Sysfs) (o : Outcomes) (s : Settings) : Bool × Settings :=
  let (r, s) := ksm_set k o.setPages .pages_to_scan "2000".toList s
  if r ≠ 0 then (true, s)
  else
    let (r, s) := ksm_set k o.setSleep .sleep_millisecs "20".toList s
    if r ≠ 0 then (true, s)
    else
      let (r, s) := ksm_set k o.setRun .run "1".toList s
      (r ≠ 0, s)

def restore (k : Sysfs) (saved_run saved_pages : Int32) (s : Settings) : Settings :=
  let (_, s) := ksm_set k true .pages_to_scan (decimal saved_pages.toInt) s
  let (_, s) := ksm_set k true .run (decimal saved_run.toInt) s
  let (_, s) := ksm_set k true .sleep_millisecs "20".toList s
  s

def main (k : Sysfs) (o : Outcomes) (s : Settings) : Int × Settings :=
  if o.pagemap = false then (1, s)
  else if ksm_get .run s < 0 then (1, s)
  else
    let saved_run := Int32.ofInt (ksm_get .run s)
    let saved_pages := Int32.ofInt (ksm_get .pages_to_scan s)
    if o.madviseSame = false ∨ o.madviseDiff = false then (1, s)
    else
      match speedUp k o s with
      | (true, s) => (1, s)
      | (false, s) => (0, restore k saved_run saved_pages s)

/-! ## The writes one by one -/

variable {k : Sysfs} {f : Setting} {s : Settings}

theorem ksm_set_taken {v : Value f} {val : Text} (numeral : val = decimal v.val.toNat) :
    ksm_set k true f val s = (0, Function.update s f v) := by
  rw [ksm_set, if_pos rfl, numeral, k.takes]

theorem ksm_set_refused {n : Int} (negative : n < 0) : ksm_set k true f (decimal n) s = (-1, s) := by
  rw [ksm_set, if_pos rfl, k.refuses f n negative]

def fastPages : Value .pages_to_scan := ⟨2000, nofun⟩
def shortSleep : Value .sleep_millisecs := ⟨20, nofun⟩
def started : Value .run := ⟨1, fun _ => by decide⟩

theorem settings_eq_iff (s t : Settings) :
    s = t ↔ s .run = t .run ∧ s .pages_to_scan = t .pages_to_scan ∧
      s .sleep_millisecs = t .sleep_millisecs := by
  constructor
  · rintro rfl
    exact ⟨rfl, rfl, rfl⟩
  · rintro ⟨run, pages, sleep⟩
    funext f
    cases f with
    | run => exact run
    | pages_to_scan => exact pages
    | sleep_millisecs => exact sleep

theorem speedUp_eq (o : Outcomes) :
    speedUp k o s =
      if o.setPages = false then (true, s)
      else if o.setSleep = false then (true, Function.update s .pages_to_scan fastPages)
      else
        let fast := Function.update (Function.update s .pages_to_scan fastPages) .sleep_millisecs shortSleep
        if o.setRun = false then (true, fast) else (false, Function.update fast .run started) := by
  have pages : "2000".toList = decimal fastPages.val.toNat := by decide
  have sleep : "20".toList = decimal shortSleep.val.toNat := by decide
  have run : "1".toList = decimal started.val.toNat := by decide
  unfold speedUp
  cases o.setPages with
  | false => rfl
  | true =>
      rw [ksm_set_taken pages]
      cases o.setSleep with
      | false => rfl
      | true =>
          simp only [ksm_set_taken sleep]
          cases o.setRun with
          | false => rfl
          | true =>
              simp only [ksm_set_taken run]
              rfl

/-! ## What is restored -/

/-- An `int` holds what `ksm_get` gave only below `2 ^ 31`. -/
theorem toInt_saved (v : UInt32) :
    (Int32.ofInt v.toNat).toInt = if v.toNat < 2 ^ 31 then (v.toNat : Int) else v.toNat - 2 ^ 32 := by
  have bound := v.toNat_lt
  have size : Int32.size = 2 ^ 32 := rfl
  rw [Int32.toInt_ofInt, size, Int.bmod_def]
  omega

theorem restore_eq (before : Settings) (s : Settings) :
    restore k (Int32.ofInt (ksm_get .run before)) (Int32.ofInt (ksm_get .pages_to_scan before)) s =
      Function.update (Function.update
          (if (before .pages_to_scan).val.toNat < 2 ^ 31 then
            Function.update s .pages_to_scan (before .pages_to_scan)
          else s)
          .run (before .run))
        .sleep_millisecs shortSleep := by
  have sleep : "20".toList = decimal shortSleep.val.toNat := by decide
  have run : decimal (Int32.ofInt (ksm_get .run before)).toInt = decimal (before .run).val.toNat := by
    have small := (before .run).property rfl
    rw [UInt32.le_iff_toNat_le] at small
    rw [ksm_get, toInt_saved, if_pos (small.trans_lt (by decide))]
  unfold restore
  simp only [ksm_set_taken run, ksm_set_taken sleep]
  congr 2
  by_cases fits : (before .pages_to_scan).val.toNat < 2 ^ 31
  · have pages : decimal (Int32.ofInt (ksm_get .pages_to_scan before)).toInt =
        decimal (before .pages_to_scan).val.toNat := by
      rw [ksm_get, toInt_saved, if_pos fits]
    rw [ksm_set_taken pages, if_pos fits]
  · have negative : (Int32.ofInt (ksm_get .pages_to_scan before)).toInt < 0 := by
      have bound := (before .pages_to_scan).val.toNat_lt
      rw [ksm_get, toInt_saved, if_neg fits]
      omega
    rw [ksm_set_refused negative, if_neg fits]

def Restored (k : Sysfs) (o : Outcomes) (s : Settings) : Prop := (main k o s).2 = s

/-- What the settings must have been, by how far the writes got. -/
def Harmless (o : Outcomes) (s : Settings) : Prop :=
  o.pagemap = true → o.madviseSame = true → o.madviseDiff = true → o.setPages = true →
    if o.setSleep = false then (s .pages_to_scan).val = 2000
    else if o.setRun = false then (s .pages_to_scan).val = 2000 ∧ (s .sleep_millisecs).val = 20
    else (s .sleep_millisecs).val = 20 ∧ (s .pages_to_scan).val.toNat < 2 ^ 31

theorem restored_iff_harmless (k : Sysfs) (o : Outcomes) (s : Settings) :
    Restored k o s ↔ Harmless o s := by
  unfold Restored Harmless main
  have present : ¬ ksm_get .run s < 0 := by
    rw [ksm_get]
    omega
  rw [if_neg present, speedUp_eq]
  cases o.pagemap
  · simp
  cases o.madviseSame
  · simp
  cases o.madviseDiff
  · simp
  cases o.setPages
  · simp
  rw [settings_eq_iff]
  cases o.setSleep
  · simp [Subtype.ext_iff, fastPages, eq_comm]
  cases o.setRun
  · simp [Subtype.ext_iff, fastPages, shortSleep, eq_comm]
  by_cases fits : (s .pages_to_scan).val.toNat < 2 ^ 31
  · simp only [restore_eq, fits]
    simp [Subtype.ext_iff, shortSleep, eq_comm]
  · have other : (2000 : UInt32) ≠ (s .pages_to_scan).val := by
      intro same
      rw [← same] at fits
      exact fits (by decide)
    simp only [restore_eq, fits]
    simp [Subtype.ext_iff, fastPages, other]

def kstrtouint (text : Text) : Option UInt32 :=
  if text ≠ [] ∧ text.all Char.isDigit ∧ Nat.ofDigitChars 10 text 0 < 2 ^ 32 then
    some (UInt32.ofNat (Nat.ofDigitChars 10 text 0))
  else none

theorem kstrtouint_decimal (v : UInt32) : kstrtouint (decimal v.toNat) = some v := by
  have digits : (Nat.toDigits 10 v.toNat).all Char.isDigit := by
    rw [List.all_eq_true]
    exact fun c member => Nat.isDigit_of_mem_toDigits (by decide) (by decide) member
  have text : decimal v.toNat = Nat.toDigits 10 v.toNat := rfl
  rw [text, kstrtouint, Nat.ofDigitChars_ten_toDigits, if_pos ⟨by simp, digits, v.toNat_lt⟩,
    UInt32.ofNat_toNat]

theorem kstrtouint_negative {n : Int} (negative : n < 0) : kstrtouint (decimal n) = none := by
  cases n with
  | ofNat n => exact absurd negative (Int.natCast_nonneg n).not_gt
  | negSucc n => simp [kstrtouint, decimal, Char.isDigit]

/-- The sysfs of a kernel that parses with `kstrtouint`. -/
def ofKstrtouint : Sysfs where
  store f text :=
    match kstrtouint text with
    | some v => if taken : f = .run → v ≤ 2 then some ⟨v, taken⟩ else none
    | none => none
  takes f v := by
    simp only [kstrtouint_decimal]
    exact dif_pos v.property
  refuses f n negative := by
    simp only [kstrtouint_negative negative]

def before : Settings
  | .run => ⟨0, fun _ => by decide⟩
  | .pages_to_scan => ⟨100, nofun⟩
  | .sleep_millisecs => ⟨200, nofun⟩

/-- Every call succeeds, and the 200 ms between scans stay at 20. -/
theorem not_restored_sleep : ¬ Restored ofKstrtouint ⟨true, true, true, true, true, true⟩ before := by
  intro restored
  have left : (main ofKstrtouint ⟨true, true, true, true, true, true⟩ before).2 .sleep_millisecs = shortSleep := by
    decide
  rw [restored] at left
  exact absurd left (by decide)

end LinuxInterview.Ksm
