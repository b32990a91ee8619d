import LinuxInterview.Mmio.DeviceTree

/-!
# The guard of `safe_mmio.py`

`check` finds the device-tree node around an address and asks sysfs and the clock framework
whether the node's device may be touched.
-/

namespace LinuxInterview.Mmio
open Library

structure Board where
  tree : List DtNode
  driver : Text → Bool
  runtimeStatus : Text → Option Text
  clkSummary : Option (List Text)

def hashHex : Int → Text
  | .ofNat n => "0x".toList ++ hex n
  | .negSucc n => "-0x".toList ++ hex (n + 1)

def deviceName (a : Nat) (n : Text) : Text := hex a ++ '.' :: (splitAt '@' n).headD []

def disabledClocks (dev : Text) (lines : List Text) : List Text :=
  lines.filterMap fun line =>
    let f := words line
    if 9 ≤ f.length ∧ dev ∈ f.drop 7 ∧ f[1]? = some ['0'] then f[0]? else none

def noNode (pa : Int) : Text := "no DT node covers ".toList ++ hashHex pa

def noDriver (dev : Text) : Text := dev ++ ": no driver bound".toList

def badStatus (dev rpm : Text) : Text := dev ++ ": runtime_status=".toList ++ rpm

def clocksDisabled (dev : Text) (bad : List Text) : Text :=
  dev ++ ": clocks disabled: ".toList ++ [','].intercalate bad

def runtimeOk (board : Board) (dev : Text) : Bool :=
  ["active".toList, "unsupported".toList].contains (strip ((board.runtimeStatus dev).getD []))

def check (board : Board) (pa : Int) : Except PyError (Option Text) := do
  match ← findNode pa board.tree with
  | none => return some (noNode pa)
  | some (n, a) =>
      if n = [] then return some (noNode pa)
      let dev := deviceName a n
      if board.driver dev = false then return some (noDriver dev)
      if runtimeOk board dev = false then
        return some (badStatus dev (strip ((board.runtimeStatus dev).getD [])))
      match board.clkSummary with
      | none => throw .osError
      | some lines =>
          let bad := disabledClocks dev lines
          if bad ≠ [] then return some (clocksDisabled dev bad)
          return none

/-! ## What the guard lets pass -/

structure DeviceOn (board : Board) (dev : Text) : Prop where
  bound : board.driver dev = true
  running : runtimeOk board dev = true
  clocked : ∃ lines, board.clkSummary = some lines ∧ disabledClocks dev lines = []

/-- The address is outside every node, or its node's device must not be touched. -/
def Hazard (board : Board) (pa : Int) : Prop :=
  match findNode pa board.tree with
  | .ok (some (n, a)) => n = [] ∨ ¬ DeviceOn board (deviceName a n)
  | .ok none | .error _ => True

theorem check_eq_none_iff (board : Board) (pa : Int) :
    check board pa = .ok none ↔ ¬ Hazard board pa := by
  unfold check Hazard
  cases node : findNode pa board.tree with
  | error e => simp [bind, Except.bind]
  | ok found =>
      cases found with
      | none => simp [bind, Except.bind, pure, Except.pure]
      | some window =>
          obtain ⟨n, a⟩ := window
          by_cases unnamed : n = []
          · simp [unnamed, bind, Except.bind, pure, Except.pure]
          cases bound : board.driver (deviceName a n) with
          | false =>
              have off : ¬ DeviceOn board (deviceName a n) := fun on => by simp [on.bound] at bound
              simp [unnamed, bound, off, bind, Except.bind, pure, Except.pure]
          | true =>
              cases running : runtimeOk board (deviceName a n) with
              | false =>
                  have off : ¬ DeviceOn board (deviceName a n) :=
                    fun on => by simp [on.running] at running
                  simp [unnamed, bound, running, off, bind, Except.bind, pure, Except.pure]
              | true =>
                  have onIff : DeviceOn board (deviceName a n) ↔
                      ∃ lines, board.clkSummary = some lines ∧
                        disabledClocks (deviceName a n) lines = [] :=
                    ⟨DeviceOn.clocked, fun clocked => ⟨bound, running, clocked⟩⟩
                  cases summary : board.clkSummary with
                  | none => simp [unnamed, bound, running, onIff, summary, bind, Except.bind]
                  | some lines =>
                      by_cases stopped : disabledClocks (deviceName a n) lines = [] <;>
                        simp [unnamed, bound, running, onIff, summary, stopped, bind, Except.bind,
                          pure, Except.pure]

/-! ## What the clock test sees of a line -/

def stoppedClock (dev : Text) (f : List Text) : Option Text :=
  if 9 ≤ f.length ∧ dev ∈ f.drop 7 ∧ f[1]? = some ['0'] then f[0]? else none

theorem disabledClocks_eq (dev : Text) (lines : List Text) :
    disabledClocks dev lines = (lines.map words).filterMap (stoppedClock dev) := by
  rw [List.filterMap_map]
  rfl

end LinuxInterview.Mmio
