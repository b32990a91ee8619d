import LinuxInterview.Library.Text
import LinuxInterview.Library.Script

namespace LinuxInterview.Mmio
open Library

/-- A directory of `/sys/firmware/devicetree/base`; a property file that is missing reads as `none`. -/
inductive DtNode
  | mk (name : Text) (reg ranges : Option Bytes) (children : List DtNode)

namespace DtNode

def name : DtNode → Text
  | mk name _ _ _ => name

def reg : DtNode → Option Bytes
  | mk _ reg _ _ => reg

def ranges : DtNode → Option Bytes
  | mk _ _ ranges _ => ranges

def children : DtNode → List DtNode
  | mk _ _ _ children => children

end DtNode

def regWindow (pa : Int) : List Nat → Option Nat
  | a1 :: a0 :: s1 :: s0 :: rest =>
      let a : Nat := a1 * 2 ^ 32 + a0
      let s : Nat := s1 * 2 ^ 32 + s0
      if (a : Int) ≤ pa ∧ pa < (a + s : Nat) then some a else regWindow pa rest
  | _ => none

def regHit (pa : Int) (node : DtNode) : Except PyError (Option Nat) :=
  match node.reg with
  | some reg => if 16 ≤ reg.length then (unpackWords reg).map (regWindow pa) else .ok none
  | none => .ok none

def findChild (pa : Int) : List DtNode → Except PyError (Option (Text × Nat))
  | [] => .ok none
  | node :: rest => do
      match ← regHit pa node with
      | some a => return some (node.name, a)
      | none => findChild pa rest

/-- `find_node` at depth 0: it also looks below a node whose `ranges` is empty. -/
def findNode (pa : Int) : List DtNode → Except PyError (Option (Text × Nat))
  | [] => .ok none
  | node :: rest => do
      match ← regHit pa node with
      | some a => return some (node.name, a)
      | none =>
          if node.ranges = some [] then
            match ← findChild pa node.children with
            | some r => if r.1 = [] then findNode pa rest else return some r
            | none => findNode pa rest
          else findNode pa rest

end LinuxInterview.Mmio
