import LinuxInterview.Library.Runs
import LinuxInterview.Library.Tickets

/-!
# The sampling gates of `irq_live`

Two probes stop printing after `samples` records. `pre_gic` looks at its counter, takes a lock and looks
again; `pre_evt` looks at its counter and then counts itself. Both print what the counter holds when they
come to it. A hit runs on any processor, and the steps of the hits are interleaved; of the lines of a
record the first is kept, which has its number.
-/

namespace LinuxInterview.IrqLive
open Library

structure Params where
  samples : Int32
  fromEl0 : Int32
  wantHwirq : Int64

/-- `atomic_inc` of a signed word of 32 bits. -/
def atomicInc (n : Int) : Int := (n + 1).bmod (2 ^ 32)

inductive Stage
  | away
  | gicHit
  | gicAccepted
  | gicLocked
  | gicPassed
  | gicCounted
  | gicLeaving
  | evtHit
  | evtAccepted
  | evtCounted
  deriving DecidableEq, Repr

/-- Between taking `prlock` and giving it back. -/
def Stage.locked : Stage → Bool
  | .gicLocked | .gicPassed | .gicCounted | .gicLeaving => true
  | _ => false

structure State (ι : Type) where
  got : Int
  evtGot : Int
  prlock : Option ι
  gicLabels : List Int
  evtLabels : List Int
  totals : Option (Int × Int)
  stage : ι → Stage

/-- The checks carry what the probe finds: the saved `pstate`, where there is a frame, and the number of
the interrupt. -/
inductive Event (ι : Type)
  | gicHit (i : ι)
  | gicCheck (i : ι) (pstate : Option (BitVec 64)) (hwirq : BitVec 64)
  | gicLock (i : ι)
  | gicRecheck (i : ι)
  | gicInc (i : ι)
  | gicPrint (i : ι)
  | gicUnlock (i : ι)
  | evtHit (i : ι)
  | evtCheck (i : ι) (hwirq : BitVec 64)
  | evtIncReturn (i : ι)
  | evtPrint (i : ι)
  | exit
  deriving DecidableEq

namespace Params

def wanted (p : Params) (hwirq : BitVec 64) : Bool :=
  !(decide (0 ≤ p.wantHwirq.toInt) && hwirq != p.wantHwirq.toBitVec)

def accepted (p : Params) (pstate : Option (BitVec 64)) (hwirq : BitVec 64) : Bool :=
  match pstate with
  | none => false
  | some pstate => !(p.fromEl0 != 0 && !(pstate &&& 0xc#64 == 0#64)) && p.wanted hwirq

end Params

namespace State

variable {ι : Type}

def start : State ι := ⟨0, 0, none, [], [], none, fun _ => .away⟩

/-- `irq_live_exit` prints the totals after the probes are unregistered, which waits for their hits. -/
def permits (s : State ι) : Event ι → Prop
  | .gicHit i | .evtHit i => s.stage i = .away ∧ s.totals = none
  | .gicCheck i _ _ => s.stage i = .gicHit
  | .gicLock i => s.stage i = .gicAccepted ∧ s.prlock = none
  | .gicRecheck i => s.stage i = .gicLocked
  | .gicInc i => s.stage i = .gicPassed
  | .gicPrint i => s.stage i = .gicCounted
  | .gicUnlock i => s.stage i = .gicLeaving
  | .evtCheck i _ => s.stage i = .evtHit
  | .evtIncReturn i => s.stage i = .evtAccepted
  | .evtPrint i => s.stage i = .evtCounted
  | .exit => (∀ i, s.stage i = .away) ∧ s.totals = none

variable [DecidableEq ι]

instance [Fintype ι] (s : State ι) (e : Event ι) : Decidable (s.permits e) :=
  match e with
  | .gicHit _ | .evtHit _ | .gicLock _ => inferInstanceAs (Decidable (_ ∧ _))
  | .gicCheck _ _ _ | .gicRecheck _ | .gicInc _ | .gicPrint _ | .gicUnlock _ | .evtCheck _ _ | .evtIncReturn _
  | .evtPrint _ => inferInstanceAs (Decidable (_ = _))
  | .exit => inferInstanceAs (Decidable ((∀ _, _) ∧ _))

def put (s : State ι) (i : ι) (a : Stage) : State ι := { s with stage := Function.update s.stage i a }

def next (p : Params) (s : State ι) : Event ι → State ι
  | .gicHit i => s.put i .gicHit
  | .gicCheck i pstate hwirq =>
      s.put i (if s.got < p.samples.toInt ∧ p.accepted pstate hwirq = true then .gicAccepted else .away)
  | .gicLock i => { s.put i .gicLocked with prlock := some i }
  | .gicRecheck i => s.put i (if p.samples.toInt ≤ s.got then .gicLeaving else .gicPassed)
  | .gicInc i => { s.put i .gicCounted with got := atomicInc s.got }
  | .gicPrint i => { s.put i .gicLeaving with gicLabels := s.gicLabels ++ [s.got] }
  | .gicUnlock i => { s.put i .away with prlock := none }
  | .evtHit i => s.put i .evtHit
  | .evtCheck i hwirq =>
      s.put i (if s.evtGot < p.samples.toInt ∧ p.wanted hwirq = true then .evtAccepted else .away)
  | .evtIncReturn i =>
      { s.put i (if p.samples.toInt < atomicInc s.evtGot then .away else .evtCounted) with
        evtGot := atomicInc s.evtGot }
  | .evtPrint i => { s.put i .away with evtLabels := s.evtLabels ++ [s.evtGot] }
  | .exit => { s with totals := some (s.got, s.evtGot) }

def step (p : Params) : State ι → Event ι → State ι → Prop := Guarded permits (next p)

/-- The records have the numbers 1, 2 and so on up to some `m` within the limit, and the printed total
is their number. -/
structure Exact (samples : Int32) (labels : List Int) (total : Option Int) : Prop where
  numbered : labels = serials labels.length
  limited : (labels.length : Int) ≤ max 0 samples.toInt
  counted : ∀ printed ∈ total, printed = labels.length

/-- A hit of `pre_evt` counts itself below the limit, and while no other has yet to print. -/
def Orderly (p : Params) (s : State ι) : Event ι → Prop
  | .evtIncReturn _ => s.evtGot < p.samples.toInt ∧ ∀ j, s.stage j ≠ .evtCounted
  | _ => True

instance [Fintype ι] (p : Params) (s : State ι) (e : Event ι) : Decidable (s.Orderly p e) :=
  match e with
  | .evtIncReturn _ => inferInstanceAs (Decidable (_ ∧ ∀ _, _))
  | .gicHit _ | .gicCheck _ _ _ | .gicLock _ | .gicRecheck _ | .gicInc _ | .gicPrint _ | .gicUnlock _ | .evtHit _
  | .evtCheck _ _ | .evtPrint _ | .exit => inferInstanceAs (Decidable True)

def orderlyStep (p : Params) : State ι → Event ι → State ι → Prop :=
  Guarded (fun s e => s.permits e ∧ s.Orderly p e) (next p)

end State

/-! ## One step -/

section
variable {ι : Type} {stage : ι → Stage} {i : ι} {a : Stage}

structure GicInv (samples got : Int) (prlock : Option ι) (labels : List Int) (stage : ι → Stage) : Prop where
  lock : ∀ i, (stage i).locked = true ↔ prlock = some i
  room : ∀ i, stage i = .gicPassed → got < samples
  numbered : Numbered samples got labels fun i => stage i = .gicCounted

variable {samples got : Int} {prlock : Option ι} {labels : List Int}

theorem GicInv.holder (inv : GicInv samples got prlock labels stage) (locked : (stage i).locked = true) {j : ι}
    (other : (stage j).locked = true) : j = i := by
  have mine := (inv.lock i).mp locked
  have theirs := (inv.lock j).mp other
  rw [mine] at theirs
  exact (Option.some.inj theirs).symm

variable [DecidableEq ι]

theorem update_iff {b : Stage} (before : stage i ≠ b) (after : a ≠ b) (j : ι) :
    Function.update stage i a j = b ↔ stage j = b := by
  by_cases here : j = i
  · rw [here, Function.update_self]
    exact iff_of_false after before
  · rw [Function.update_of_ne here]

theorem eq_of_update {b : Stage} (before : ∀ j, stage j ≠ b) (j : ι) (at_ : Function.update stage i a j = b) :
    j = i := by
  by_contra other
  rw [Function.update_of_ne other] at at_
  exact before j at_

theorem locked_update (same : a.locked = (stage i).locked) (j : ι) :
    (Function.update stage i a j).locked = (stage j).locked := by
  by_cases here : j = i
  · rw [here, Function.update_self, same]
  · rw [Function.update_of_ne here]

theorem atomicInc_of_lt {n : Int} {samples : Int32} (nonneg : 0 ≤ n) (room : n < samples.toInt) :
    atomicInc n = n + 1 := by
  have top := samples.toInt_lt
  apply Int.bmod_eq_of_le <;> omega

namespace GicInv

theorem outside (inv : GicInv samples got prlock labels stage) (before : (stage i).locked = false)
    (after : a.locked = false) : GicInv samples got prlock labels (Function.update stage i a) := by
  have apart : ∀ b : Stage, b.locked = true → stage i ≠ b ∧ a ≠ b := by
    refine fun b locked => ⟨?_, ?_⟩ <;> rintro rfl
    · simp [before] at locked
    · simp [after] at locked
  have passed := apart .gicPassed rfl
  have counted := apart .gicCounted rfl
  refine ⟨fun j => ?_, fun j at_ => ?_, inv.numbered.congr (update_iff counted.1 counted.2)⟩
  · rw [locked_update (after.trans before.symm)]
    exact inv.lock j
  · exact inv.room j ((update_iff passed.1 passed.2 j).mp at_)

theorem take (inv : GicInv samples got none labels stage) :
    GicInv samples got (some i) labels (Function.update stage i .gicLocked) := by
  have free : ∀ j, (stage j).locked = false := fun j => by
    have none_ := (inv.lock j).not.mpr (by simp)
    simpa using none_
  have apart : ∀ b : Stage, b.locked = true → ∀ j, stage j ≠ b := by
    rintro b locked j rfl
    rw [free j] at locked
    cases locked
  refine ⟨fun j => ?_, fun j at_ => ?_, inv.numbered.congr (update_iff (apart _ rfl i) (by decide))⟩
  · by_cases here : j = i
    · subst here
      simp [Stage.locked]
    · simp [Function.update_of_ne here, free j, Ne.symm here]
  · exact absurd ((update_iff (apart .gicPassed rfl i) (by decide) j).mp at_) (apart .gicPassed rfl j)

theorem inside (inv : GicInv samples got prlock labels stage) (before : (stage i).locked = true)
    (after : a.locked = true) (uncounted : stage i ≠ .gicCounted ∧ a ≠ .gicCounted)
    (room : a = .gicPassed → got < samples) : GicInv samples got prlock labels (Function.update stage i a) := by
  refine ⟨fun j => ?_, fun j at_ => ?_, inv.numbered.congr (update_iff uncounted.1 uncounted.2)⟩
  · rw [locked_update (after.trans before.symm)]
    exact inv.lock j
  · by_cases here : j = i
    · subst here
      rw [Function.update_self] at at_
      exact room at_
    · rw [Function.update_of_ne here] at at_
      exact inv.room j at_

theorem count (inv : GicInv samples got prlock labels stage) (before : stage i = .gicPassed) :
    GicInv samples (got + 1) prlock labels (Function.update stage i .gicCounted) := by
  have locked : (stage i).locked = true := by rw [before]; rfl
  have alone : ∀ {b : Stage}, b.locked = true → stage i ≠ b → ∀ j, stage j ≠ b := by
    rintro b other differs j rfl
    exact differs (inv.holder locked other ▸ rfl)
  have counted := alone (b := .gicCounted) rfl (by simp [before])
  refine ⟨fun j => ?_, fun j at_ => ?_, inv.numbered.count counted (inv.room i before) (eq_of_update counted)
    (Function.update_self ..)⟩
  · rw [locked_update (by rw [before]; rfl)]
    exact inv.lock j
  · by_cases here : j = i
    · subst here
      rw [Function.update_self] at at_
      cases at_
    · rw [Function.update_of_ne here] at at_
      exact absurd (inv.holder locked (by rw [at_]; rfl)) here

theorem print (inv : GicInv samples got prlock labels stage) (before : stage i = .gicCounted) :
    GicInv samples got prlock (labels ++ [got]) (Function.update stage i .gicLeaving) := by
  have locked : (stage i).locked = true := by rw [before]; rfl
  refine ⟨fun j => ?_, fun j at_ => ?_, inv.numbered.print before fun j at_ => ?_⟩
  · rw [locked_update (by rw [before]; rfl)]
    exact inv.lock j
  · exact inv.room j ((update_iff (by simp [before]) (by decide) j).mp at_)
  · by_cases here : j = i
    · subst here
      rw [Function.update_self] at at_
      cases at_
    · rw [Function.update_of_ne here] at at_
      exact here (inv.holder locked (by rw [at_]; rfl))

theorem release (inv : GicInv samples got prlock labels stage) (before : stage i = .gicLeaving) :
    GicInv samples got none labels (Function.update stage i .away) := by
  have locked : (stage i).locked = true := by rw [before]; rfl
  refine ⟨fun j => ?_, fun j at_ => ?_, inv.numbered.congr (update_iff (by simp [before]) (by decide))⟩
  · by_cases here : j = i
    · subst here
      simp [Stage.locked]
    · rw [Function.update_of_ne here]
      exact iff_of_false (fun other => here (inv.holder locked other)) (by simp)
  · exact inv.room j ((update_iff (by simp [before]) (by decide) j).mp at_)

end GicInv
end

end LinuxInterview.IrqLive
