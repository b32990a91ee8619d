import LinuxInterview.Mmio.Stdout
import LinuxInterview.Tsadc.Interp

/-!
# `tsadc_compare.py` from the registers to the printed temperatures

The script takes the seven channel registers from the output of `safe_mmio.py`.
-/

namespace LinuxInterview.Tsadc
open Library Mmio
open AddressMap (intHex)

def zones : List Text :=
  ["soc", "bigcore0", "bigcore1", "littlecore", "center", "gpu", "npu"].map String.toList

structure Line where
  channel : Nat
  zone : Text
  code : Nat
  trm : ℚ
  driver : ℚ
  thermalZone : ℚ
  deriving DecidableEq

/-- `int(w, 16) & 0xfff` for each `w` of eight letters. -/
def codes (out : Text) : Except PyError (List Nat) := (eightLetters out).mapM fun w => return (← intHex w) &&& 0xfff

/-- The body of the loop. `temp` is what the file of a thermal zone holds, if it can be read. -/
def line (temp : Nat → Option Int) (i c : Nat) : Option Line :=
  match temp i, zones[i]?, interp TRM c, interp DRV c with
  | some t, some zone, .ok (some trm), .ok (some driver) => some ⟨i, zone, c, trm, driver, t / 1000⟩
  | _, _, _, _ => none

/-- The lines that are printed, and whether the loop came to its end. -/
def printCodes (temp : Nat → Option Int) : Nat → List Nat → List Line × Bool
  | _, [] => ([], true)
  | i, c :: rest =>
      match line temp i c with
      | some printed => (printed :: (printCodes temp (i + 1) rest).1, (printCodes temp (i + 1) rest).2)
      | none => ([], false)

def registers : Invocation := ⟨false, "dump".toList, 0xfec0002c, some 7⟩

section Script

variable (board : Board) (mapOk : Int → Bool) (memory : Int → BitVec 32) (temp : Nat → Option Int)

def tsadcCompare : List Line × Bool :=
  match (safeMmio board mapOk memory registers).checkOutput with
  | none => ([], false)
  | some out =>
      match codes out with
      | .error _ => ([], false)
      | .ok codes => printCodes temp 0 codes

/-- The low twelve bits of `TSADC_DATA`*i*. -/
def channelCode (i : Nat) : Nat := (memory (0xfec0002c + 4 * (i : Int))).toNat % 4096

/-- The two tables as functions, drawn straight between their points and on. -/
def trmTemperature : ℚ → ℚ := polyline (220, -40) (285, 25) [(345, 85), (385, 125)]

def driverTemperature : ℚ → ℚ := polyline (215, -40) (285, 25) [(350, 85), (395, 125)]

def channelLine (i : Nat) : Line where
  channel := i
  zone := zones.getD i []
  code := channelCode memory i
  trm := trmTemperature (channelCode memory i)
  driver := driverTemperature (channelCode memory i)
  thermalZone := (temp i).getD 0 / 1000

end Script

variable {board : Board} {mapOk : Int → Bool} {memory : Int → BitVec 32} {temp : Nat → Option Int}

theorem codes_of_words {out : Text} {xs : List Int} (read : eightLetters out = xs.map (wordText memory)) :
    codes out = .ok (xs.map fun x => (memory x).toNat % 4096) := by
  have low : ∀ n : Nat, n &&& 0xfff = n % 4096 := fun n => Nat.and_two_pow_sub_one_eq_mod n 12
  rw [codes, read]
  clear read
  induction xs with
  | nil => rfl
  | cons x xs ih =>
      rw [List.map_cons, List.mapM_cons, ih, intHex_wordText]
      simp only [bind, Except.bind, pure, Except.pure, low, List.map_cons]

theorem line_eq (i : Nat) (inside : i < 7) (c : Nat) {t : Int} (found : temp i = some t) : line temp i c =
    some ⟨i, zones.getD i [], c, trmTemperature c, driverTemperature c, t / 1000⟩ := by
  have trm : interp TRM c = .ok (some (trmTemperature c)) := interp_eq_polyline (by decide) _
  have driver : interp DRV c = .ok (some (driverTemperature c)) := interp_eq_polyline (by decide) _
  have zone : zones[i]? = some (zones.getD i []) := by
    rw [List.getD_eq_getElem?_getD, List.getElem?_eq_getElem inside]
    rfl
  rw [line, found, zone, trm, driver]

theorem printCodes_eq {first count : Nat} (inside : first + count ≤ 7) :
    printCodes temp first ((List.range' first count).map (channelCode memory)) =
      (((List.range' first count).takeWhile fun i => (temp i).isSome).map (channelLine memory temp),
        (List.range' first count).all fun i => (temp i).isSome) := by
  induction count generalizing first with
  | zero => rfl
  | succ count ih =>
      rw [List.range'_succ, List.map_cons, printCodes]
      cases found : temp first with
      | none =>
          have missing : line temp first (channelCode memory first) = none := by simp [line, found]
          simp [missing, found]
      | some t =>
          have printed : channelLine memory temp first = ⟨first, zones.getD first [], channelCode memory first,
              trmTemperature (channelCode memory first), driverTemperature (channelCode memory first), t / 1000⟩ := by
            rw [channelLine, found]
            rfl
          rw [line_eq first (by omega) _ found, ih (by omega), List.takeWhile_cons_of_pos (by simp [found]),
            List.map_cons, printed, List.all_cons, found]
          rfl

/-- All seven registers lie in one page. -/
theorem registers_readable (mapOk : Int → Bool) :
    (∀ x ∈ (List.range 7).map (wordAt 0xfec0002c), Readable mapOk x = true) ↔ mapOk 0xfec00000 = true := by
  have page : ∀ i < 7, pageBase (wordAt 0xfec0002c i) = 0xfec00000 := by decide
  have fits : ∀ i < 7, ¬ 4096 - 4 < wordAt 0xfec0002c i - 0xfec00000 := by decide
  have each : ∀ i < 7, Readable mapOk (wordAt 0xfec0002c i) = mapOk 0xfec00000 := by
    intro i inside
    rw [Readable, r, page i inside, if_neg (fits i inside)]
    cases mapOk 0xfec00000 <;> rfl
  constructor
  · intro readable
    have first := readable (wordAt 0xfec0002c 0) (List.mem_map_of_mem (List.mem_range.mpr (by decide)))
    rwa [each 0 (by decide)] at first
  · intro mapped x member
    obtain ⟨i, inside, rfl⟩ := List.mem_map.mp member
    rw [each i (List.mem_range.mp inside), mapped]

theorem safeMmio_registers_failed : (safeMmio board mapOk memory registers).failed = false ↔
    ¬ Hazard board 0xfec0002c ∧ mapOk 0xfec00000 = true := by
  rw [← check_eq_none_iff, ← registers_readable, ← readAll_eq_none_iff, ← dumpOrder_eq, safeMmio_failed, main]
  simp only [registers]
  cases verdict : check board 0xfec0002c with
  | error e => simp
  | ok why =>
      cases why with
      | some reason => simp
      | none => simp

theorem eightLetters_registers (ended : (safeMmio board mapOk memory registers).failed = false) :
    eightLetters (safeMmio board mapOk memory registers).stdout =
      ((List.range 7).map (wordAt 0xfec0002c)).map (wordText memory) := by
  have passed := check_eq_none_iff board 0xfec0002c |>.mpr (safeMmio_registers_failed.mp ended).1
  have dump : safeMmio board mapOk memory registers = printRows mapOk memory 0xfec0002c 7 (List.range 2) := by
    rw [safeMmio, registers]
    simp only [passed]
    rfl
  rw [dump] at ended ⊢
  rw [eightLetters_printRows ended]
  rfl

theorem tsadcCompare_of_ended (ended : (safeMmio board mapOk memory registers).failed = false) :
    tsadcCompare board mapOk memory temp =
      (((List.range 7).takeWhile fun i => (temp i).isSome).map (channelLine memory temp),
        (List.range 7).all fun i => (temp i).isSome) := by
  have out : (safeMmio board mapOk memory registers).checkOutput =
      some (safeMmio board mapOk memory registers).stdout := by
    rw [Process.checkOutput, ended]
    rfl
  have read := codes_of_words (eightLetters_registers ended)
  have seven : ((List.range 7).map (wordAt 0xfec0002c)).map (fun x => (memory x).toNat % 4096) =
      (List.range' 0 7).map (channelCode memory) := by
    rw [List.map_map, ← List.range_eq_range']
    rfl
  rw [seven] at read
  rw [tsadcCompare, out]
  simp only [read]
  exact printCodes_eq (by decide)

/-- Whatever the channels hold, their codes reach the tables; nothing is printed from a device that is off. -/
theorem tsadcCompare_prints (board : Board) (mapOk : Int → Bool) (memory : Int → BitVec 32) (temp : Nat → Option Int) :
    (¬ Hazard board 0xfec0002c ∧ mapOk 0xfec00000 = true → tsadcCompare board mapOk memory temp =
      (((List.range 7).takeWhile fun i => (temp i).isSome).map (channelLine memory temp),
        (List.range 7).all fun i => (temp i).isSome)) ∧
    (Hazard board 0xfec0002c ∨ mapOk 0xfec00000 = false → tsadcCompare board mapOk memory temp = ([], false)) := by
  constructor
  · intro passes
    exact tsadcCompare_of_ended (safeMmio_registers_failed.mpr passes)
  · intro stops
    have failed : (safeMmio board mapOk memory registers).failed = true := by
      rw [← Bool.not_eq_false, safeMmio_registers_failed, not_and_or, not_not]
      exact stops.imp_right ne_true_of_eq_false
    rw [tsadcCompare, Process.checkOutput, failed]
    rfl

def tsadcBoard : Board where
  tree := [.mk "tsadc@fec00000".toList (some [0, 0, 0, 0, 0xfe, 0xc0, 0, 0, 0, 0, 0, 0, 0, 0, 4, 0]) none []]
  driver dev := dev == "fec00000.tsadc".toList
  runtimeStatus _ := some "unsupported\n".toList
  clkSummary := some []

theorem tsadcCompare_prints_tsadcBoard :
    tsadcCompare tsadcBoard (fun _ => true) (fun _ => 0xabcde11d) (fun i => if i < 3 then some 25000 else none) =
      (((List.range 7).takeWhile fun i => (if i < 3 then some (25000 : Int) else none).isSome).map
        (channelLine (fun _ => 0xabcde11d) fun i => if i < 3 then some 25000 else none), false) := by
  have passes : ¬ Hazard tsadcBoard 0xfec0002c := by
    rw [← check_eq_none_iff]
    decide
  exact (tsadcCompare_prints tsadcBoard (fun _ => true) _ _).1 ⟨passes, rfl⟩

end LinuxInterview.Tsadc
