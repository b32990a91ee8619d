import LinuxInterview.Library.Csv
import LinuxInterview.Mmio.Check
import Mathlib.Data.Char
import Mathlib.Data.List.Lex

/-!
# The device-tree inventory of `dt_inventory.py`
-/

namespace LinuxInterview.AddressMap
open Library Mmio

structure DtDir where
  name : Text
  reg : Option Bytes
  compatible : Option Text
  status : Option Text

structure PlatformDevice where
  driver : Option Text
  runtimeStatus : Option Text

structure Row where
  addr : Nat
  size : Nat
  node : Text
  status : Text
  compatible : Text
  driver : Text
  runtimePm : Text
  deriving DecidableEq

/-- `struct.unpack('>I', b)[0] if b else dflt`. -/
def cells (property : Option Bytes) (dflt : Nat) : Except PyError Nat :=
  match property with
  | none | some [] => .ok dflt
  | some [a, b, c, d] => .ok (a ++ b ++ c ++ d).toNat
  | some _ => .error .structError

def joinCells (v : List Nat) : Nat := v.foldl (fun n c => n <<< 32 ||| c) 0

def firstString (property : Text) : Text := (splitAt '\x00' property).headD []

/-- `rd(…) or b'okay\0'`: an empty property counts as a missing one. -/
def statusProperty (dir : DtDir) : Text :=
  match dir.status with
  | none | some [] => "okay\x00".toList
  | some status => status

def stripNuls (property : Text) : Text := (property.reverse.dropWhile (· == '\x00')).reverse

def row (platform : Text → PlatformDevice) (ac sc : Nat) (dir : DtDir) :
    Except PyError (Option Row) := do
  match dir.reg with
  | none | some [] => return none
  | some reg =>
      if reg.length < 4 * (ac + sc) then return none
      let v ← unpackWords reg
      let addr := joinCells (v.take ac)
      let device := platform (deviceName addr dir.name)
      return some {
        addr := addr
        size := joinCells ((v.drop ac).take sc)
        node := dir.name
        status := stripNuls (statusProperty dir)
        compatible := firstString (dir.compatible.getD [])
        driver := device.driver.getD []
        runtimePm := strip (device.runtimeStatus.getD []) }

def walk (platform : Text → PlatformDevice) (ac sc : Nat) (dirs : List DtDir) :
    Except PyError (List Row) :=
  (dirs.mergeSort fun a b => decide (a.name ≤ b.name)).mapM (row platform ac sc) |>.map
    (List.filterMap id)

/-! ## The file that is printed -/

def header : List Text :=
  ["addr", "size", "node", "status", "compatible", "driver", "runtime_pm"].map String.toList

def hex8 (n : Nat) : Text := padLeft 8 '0' (hex n)

def Row.columns (r : Row) : List Text :=
  [hex8 r.addr, hex r.size, r.node, r.status, r.compatible, r.driver, r.runtimePm]

def printLine (columns : List Text) : Text := [','].intercalate columns ++ ['\n']

def Row.compare : Row → Row → Ordering :=
  compareLex (compareOn Row.addr) <| compareLex (compareOn Row.size) <|
    compareLex (compareOn Row.node) <| compareLex (compareOn Row.status) <|
    compareLex (compareOn Row.compatible) <| compareLex (compareOn Row.driver) <|
    compareOn Row.runtimePm

def sortRows (rows : List Row) : List Row := rows.mergeSort fun r s => (r.compare s).isLE

def output (rows : List Row) : Text :=
  (header :: (sortRows rows).map Row.columns).flatMap printLine

def main (addressCells sizeCells : Option Bytes) (platform : Text → PlatformDevice)
    (dirs : List DtDir) : Except PyError Text := do
  let ac ← cells addressCells 2
  let sc ← cells sizeCells 2
  let rows ← walk platform ac sc dirs
  return output rows

/-! ## The order of the directory -/

/-- `rows` are what the directories give, in any order. -/
def Inventories (addressCells sizeCells : Option Bytes) (platform : Text → PlatformDevice) (dirs : List DtDir)
    (rows : List Row) : Prop :=
  ∃ ac sc found, cells addressCells 2 = .ok ac ∧ cells sizeCells 2 = .ok sc ∧
    List.Forall₂ (fun dir given => row platform ac sc dir = .ok given) dirs found ∧ rows.Perm (found.filterMap id)

instance : Std.TransCmp Row.compare := by
  unfold Row.compare
  infer_instance

theorem eq_of_compare {r s : Row} (same : r.compare s = .eq) : r = s := by
  simp only [Row.compare, compareLex_eq_eq, compareOn, compare_eq_iff_eq] at same
  obtain ⟨addr, size, node, status, compatible, driver, runtimePm⟩ := same
  cases r
  cases s
  simp_all

theorem sortRows_perm {rows others : List Row} (same : rows.Perm others) : sortRows rows = sortRows others := by
  have sorted (rows : List Row) : (sortRows rows).Pairwise fun r s => (r.compare s).isLE = true :=
    List.pairwise_mergeSort (fun _ _ _ => Std.TransCmp.isLE_trans) (fun r s => by
      rw [Bool.or_eq_true]
      by_cases le : (r.compare s).isLE = true
      · exact .inl le
      · right
        rw [Std.OrientedCmp.lt_of_not_isLE le]
        rfl) rows
  refine List.Perm.eq_of_pairwise ?_ (sorted rows) (sorted others) ?_
  · intro r s _ _ le ge
    exact eq_of_compare (Std.OrientedCmp.isLE_antisymm le ge)
  · exact (List.mergeSort_perm _ _).trans (same.trans (List.mergeSort_perm _ _).symm)

/-- The script sorts the directories before it reads them and the rows before it prints them, so that its file does not
depend on the order in which the directories are listed. -/
theorem main_eq {addressCells sizeCells : Option Bytes} {platform : Text → PlatformDevice} {dirs : List DtDir}
    {rows : List Row} (inventories : Inventories addressCells sizeCells platform dirs rows) :
    main addressCells sizeCells platform dirs = .ok (output rows) := by
  obtain ⟨ac, sc, found, address, size, given, same⟩ := inventories
  have listed := List.mergeSort_perm dirs fun a b => decide (a.name ≤ b.name)
  obtain ⟨sorted, read, moved⟩ := List.perm_comp_forall₂ listed given
  have walked : walk platform ac sc dirs = .ok (sorted.filterMap id) := by
    rw [walk, mapM_eq_ok_iff.mpr read]
    rfl
  rw [main, address, size]
  simp only [bind, Except.bind, walked, pure, Except.pure]
  rw [output, output, sortRows_perm ((moved.filterMap id).trans same.symm)]

end LinuxInterview.AddressMap
