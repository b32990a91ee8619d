import Mathlib.Tactic

/-!
# Grace periods

What read-copy-update promises of an object that is handed over for reclamation: its grace period
ends only when every read section that was open at the hand-over has ended.
-/

namespace LinuxInterview.Library

variable {σ ο : Type*}

abbrev GracePeriod (σ : Type*) := List σ

def GracePeriod.Elapsed (period : GracePeriod σ) (opened : List σ) : Prop := ∀ s ∈ period, s ∉ opened

instance [DecidableEq σ] (period : GracePeriod σ) (opened : List σ) :
    Decidable (period.Elapsed opened) := inferInstanceAs (Decidable (∀ s ∈ period, s ∉ opened))

structure Retired (σ ο : Type*) where
  object : ο
  period : GracePeriod σ

def Retired.Awaits (r : Retired σ ο) (opened : List σ) (holds : σ → ο → Prop) : Prop :=
  ∀ s ∈ opened, holds s r.object → s ∈ r.period

namespace Retired

variable {r : Retired σ ο} {opened : List σ} {holds : σ → ο → Prop}

theorem awaits_of_period_eq (since : r.period = opened) : r.Awaits opened holds :=
  fun _ member _ => since ▸ member

theorem not_held_of_elapsed (awaits : r.Awaits opened holds) (elapsed : r.period.Elapsed opened) :
    ∀ s ∈ opened, ¬ holds s r.object :=
  fun s member held => elapsed s (awaits s member held) member

theorem Awaits.mono {later : List σ} {holdsLater : σ → ο → Prop} (awaits : r.Awaits opened holds)
    (earlier : ∀ s ∈ later, holdsLater s r.object → s ∈ opened ∧ holds s r.object) :
    r.Awaits later holdsLater :=
  fun s member held => awaits s (earlier s member held).1 (earlier s member held).2

end Retired

end LinuxInterview.Library
