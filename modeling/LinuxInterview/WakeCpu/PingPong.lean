import LinuxInterview.Library.Effort

/-!
# The waker and the wakees of `wake_cpu.c`

From the last `fork` to the end of `main`. A wakee that is forked later keeps a copy of the end that the waker
writes to an earlier one, so the pipe of a wakee has its last writer gone only when the later wakees are dead.
-/

namespace LinuxInterview.WakeCpu
open Library

def MAXW : Nat := 64
def NCPU : Nat := 8

/-- `n` is the number of wakees after it has been cut to `MAXW`, `cpus` the number of CPUs of the machine. -/
structure Params where
  n : Nat
  rounds : Nat
  cpus : Nat
  atMost : n ≤ MAXW
  machine : 0 < cpus

inductive WakeeAt
  | read
  | report
  | dead
  deriving DecidableEq, Repr

/-- A wakee with its pipes: the bytes in `to[i]` and in `back[i]`, and what the waker has done to end it. -/
structure Wakee where
  toPipe : Nat
  back : List UInt8
  here : WakeeAt
  closed : Bool
  killed : Bool
  deriving DecidableEq, Repr

inductive WakerAt
  | burn (r i : Nat)
  | write (r i : Nat)
  | read (r i : Nat)
  | close (i : Nat)
  | kill (i : Nat)
  | wait
  | finished
  deriving DecidableEq, Repr

structure State where
  waker : WakerAt
  wakees : Nat → Wakee
  hist : Nat → Nat → Nat
  wakerHist : Nat → Nat

namespace Params

variable (p : Params)

def closeFrom (i : Nat) : WakerAt := if i < p.n then .close i else .wait

/-- Where both loops go on with wakee `i` of round `r`. -/
def turn (r i : Nat) : WakerAt :=
  if i < p.n ∧ r < p.rounds then .burn r i
  else if 0 < p.n ∧ r + 1 < p.rounds then .burn (r + 1) 0
  else p.closeFrom 0

def init : State := ⟨p.turn 0 0, fun _ => ⟨0, [], .read, false, false⟩, fun _ _ => 0, fun _ => 0⟩

end Params

def bump (counts : Nat → Nat) (c : Nat) : Nat → Nat := Function.update counts c (counts c + 1)

def State.set (s : State) (i : Nat) (w : Wakee) : State := { s with wakees := Function.update s.wakees i w }

/-- The end of `to` that the waker writes is closed, and so are its copies. -/
def State.eof (p : Params) (s : State) (j : Nat) : Bool :=
  (s.wakees j).closed && (List.range p.n).all fun k => k ≤ j || (s.wakees k).here = .dead

def wakee (eof : Bool) (cpu : Nat) (w : Wakee) : Option Wakee :=
  match w.here with
  | .read =>
      if 0 < w.toPipe then some { w with toPipe := w.toPipe - 1, here := .report }
      else if eof then some { w with here := .dead }
      else none
  | .report => some { w with back := w.back ++ [UInt8.ofNat cpu], here := .read }
  | .dead => none

def waker (p : Params) (cpu : Nat) (s : State) : Option State :=
  match s.waker with
  | .burn r i => some { s with waker := .write r i, wakerHist := bump s.wakerHist (cpu % NCPU) }
  | .write r i =>
      some { s.set i { s.wakees i with toPipe := (s.wakees i).toPipe + 1 } with waker := .read r i }
  | .read r i =>
      match (s.wakees i).back with
      | c :: back =>
          some { s.set i { s.wakees i with back := back } with
            waker := p.turn r (i + 1)
            hist := if c.toNat < NCPU then Function.update s.hist i (bump (s.hist i) c.toNat) else s.hist }
      | [] => if (s.wakees i).here = .dead then some { s with waker := p.closeFrom 0 } else none
  | .close i => some { s.set i { s.wakees i with closed := true } with waker := .kill i }
  | .kill i => some { s.set i { s.wakees i with killed := true } with waker := p.closeFrom (i + 1) }
  | .wait => if (List.range p.n).all fun j => (s.wakees j).here = .dead then some { s with waker := .finished } else none
  | .finished => none

/-- A step may happen on any CPU; a signal that has been sent is acted on at any time. -/
inductive Event
  | waker (cpu : Nat)
  | wakee (j cpu : Nat)
  | die (j : Nat)
  deriving DecidableEq, Repr

def step (p : Params) (s : State) : Event → Option State
  | .waker cpu => if cpu < p.cpus then waker p cpu s else none
  | .wakee j cpu =>
      if j < p.n ∧ cpu < p.cpus then (wakee (s.eof p j) cpu (s.wakees j)).map (s.set j) else none
  | .die j =>
      if j < p.n ∧ (s.wakees j).killed = true ∧ (s.wakees j).here ≠ .dead then
        some (s.set j { s.wakees j with here := .dead })
      else none

/-! ## What the waker's place says -/

/-- The rounds in which wakee `j` has answered. -/
def Params.answered (p : Params) (j : Nat) : WakerAt → Nat
  | .burn r i | .write r i | .read r i => if j < i then r + 1 else r
  | .close _ | .kill _ | .wait | .finished => if p.n = 0 then 0 else p.rounds

/-- The wake-ups that have been sent or are about to be. -/
def Params.sent (p : Params) : WakerAt → Nat
  | .burn r i => r * p.n + i
  | .write r i | .read r i => r * p.n + i + 1
  | .close _ | .kill _ | .wait | .finished => p.rounds * p.n

def WakerAt.reading : WakerAt → Nat
  | .read _ _ => 1
  | .burn _ _ | .write _ _ | .close _ | .kill _ | .wait | .finished => 0

/-- The bytes under way to or from a wakee. -/
def Wakee.underWay (w : Wakee) : Nat := w.toPipe + w.back.length + if w.here = .report then 1 else 0

/-- No wake-up is lost or doubled, each is answered before the next, and everything comes to its end. -/
structure Lockstep (p : Params) (events : List Event) (s : State) : Prop where
  underWay : ∑ j ∈ Finset.range p.n, (s.wakees j).underWay = s.waker.reading
  answered : ∀ j < p.n, ∑ c ∈ Finset.range NCPU, s.hist j c ≤ p.answered j s.waker
  counted : p.cpus ≤ NCPU → ∀ j < p.n, ∑ c ∈ Finset.range NCPU, s.hist j c = p.answered j s.waker
  sent : ∑ c ∈ Finset.range NCPU, s.wakerHist c = p.sent s.waker
  alive : ∀ r i, s.waker = .read r i → (s.wakees i).here ≠ .dead
  reaped : s.waker = .finished → ∀ j < p.n, (s.wakees j).here = .dead
  bounded : events.length ≤ 5 * (p.rounds * p.n) + 3 * p.n + 1
  goesOn : s.waker = .finished ∨ ∃ event after, Fires (step p) s event after

end LinuxInterview.WakeCpu
