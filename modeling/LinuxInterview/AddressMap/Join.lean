import LinuxInterview.AddressMap.Inventory

/-!
# The join of `join_map.py`

Each block of the reference manual's address map is given the nodes of the inventory whose address
lies in it.
-/

namespace LinuxInterview.AddressMap
open Library Library.Csv Mmio

/-- A row of the address map; `size` is what `sz` makes of `sizeText`. -/
structure Block where
  module : Text
  start : Nat
  size : Nat
  sizeText : Text

def Block.Contains (block : Block) (addr : Nat) : Prop :=
  block.start ≤ addr ∧ addr < block.start + block.size

instance (block : Block) (addr : Nat) : Decidable (block.Contains addr) :=
  inferInstanceAs (Decidable (_ ∧ _))

def get (d : Dict) (key : String) : Except PyError (Option Text) :=
  match d.lookup key.toList with
  | some value => .ok value
  | none => .error .keyError

def getText (d : Dict) (key : String) : Except PyError Text := do
  match ← get d key with
  | some value => return value
  | none => throw .typeError

def hexDigit (c : Char) : Except PyError Nat :=
  match "0123456789abcdef".toList.idxOf? c.toLower with
  | some digit => .ok digit
  | none => .error .valueError

/-- `int(s, 16)` for digits alone: no sign, prefix, blank or underscore. -/
def intHex (s : Text) : Except PyError Nat :=
  if s = [] then .error .valueError
  else s.foldlM (fun n c => return 16 * n + (← hexDigit c)) 0

def hits (block : Block) : List Dict → Except PyError (List Dict)
  | [] => .ok []
  | d :: dt => do
      let addr ← getText d "addr" >>= intHex
      let rest ← hits block dt
      return if block.Contains addr then d :: rest else rest

def sortedSet (texts : List Text) : List Text := texts.dedup.mergeSort fun a b => (compare a b).isLE

def driversOf (hit : List Dict) : Except PyError (List Text) := do
  let drivers ← hit.mapM (get · "driver")
  return sortedSet ((drivers.filterMap id).filter (!·.isEmpty))

def joinRow (dt : List Dict) (block : Block) : Except PyError (List Text) := do
  let hit ← hits block dt
  let statuses ← hit.mapM (getText · "status")
  let st := ['/'].intercalate (sortedSet statuses)
  let nodes ← hit.mapM (getText · "node")
  let drivers ← driversOf hit
  return [block.module, hex8 block.start, block.sizeText, [' '].intercalate nodes,
    if st = [] then "no-node".toList else st, [' '].intercalate drivers]

def join (blocks : List Block) (inventory : Text) : Except PyError (List (List Text)) :=
  match readDicts inventory with
  | none => .error .csvError
  | some dt => blocks.mapM (joinRow dt)

/-! ## Addresses are read as they are written -/

theorem intHex_hex8 (n : Nat) : intHex (hex8 n) = .ok n := by
  have leading : ∀ k, (List.replicate k '0').foldlM (fun n c => return 16 * n + (← hexDigit c)) 0 =
      (.ok 0 : Except PyError Nat) := by
    intro k
    induction k with
    | zero => rfl
    | succ k ih => rw [List.replicate_succ, List.foldlM_cons]; exact ih
  have nonempty : hex8 n ≠ [] := by simp [hex8, padLeft, hex, Nat.toDigits_ne_nil]
  rw [intHex, if_neg nonempty, hex8, padLeft, List.foldlM_append, leading]
  exact foldlM_toDigits (by decide) (by decide) n

end LinuxInterview.AddressMap
