import Mathlib.Tactic

namespace LinuxInterview.Library

variable {σ ε : Type*}

inductive Run (step : σ → ε → σ → Prop) (init : σ) : List ε → σ → Prop
  | nil : Run step init [] init
  | snoc {events : List ε} {before after : σ} {event : ε} :
      Run step init events before → step before event after →
      Run step init (events ++ [event]) after

namespace Run

variable {step : σ → ε → σ → Prop} {init : σ}

theorem history_invariant (Inv : List ε → σ → Prop) (base : Inv [] init)
    (preserved : ∀ events before event after, Run step init events before →
      Inv events before → step before event after → Inv (events ++ [event]) after)
    {events : List ε} {state : σ} (run : Run step init events state) : Inv events state := by
  induction run with
  | nil => exact base
  | snoc previous action ih => exact preserved _ _ _ _ previous ih action

theorem invariant (Inv : σ → Prop) (base : Inv init)
    (preserved : ∀ before event after, Inv before → step before event after → Inv after)
    {events : List ε} {state : σ} (run : Run step init events state) : Inv state :=
  history_invariant (fun _ => Inv) base
    (fun _ before event after _ inv action => preserved before event after inv action) run

theorem cons {first : σ} {event : ε} {events : List ε} {state : σ}
    (action : step init event first) (run : Run step first events state) :
    Run step init (event :: events) state := by
  induction run with
  | nil => exact .snoc .nil action
  | snoc _ last ih => exact .snoc ih last

theorem append {middle : σ} {before after : List ε} {state : σ}
    (first : Run step init before middle) (second : Run step middle after state) :
    Run step init (before ++ after) state := by
  induction second with
  | nil => simpa using first
  | snoc _ action ih =>
      rw [← List.append_assoc]
      exact .snoc ih action

theorem snoc_iff {events : List ε} {event : ε} {state : σ} :
    Run step init (events ++ [event]) state ↔
      ∃ before, Run step init events before ∧ step before event state := by
  constructor
  · intro run
    generalize whole : events ++ [event] = all at run
    cases run with
    | nil => simp at whole
    | snoc previous action =>
        obtain ⟨rfl, same⟩ := List.append_inj' whole rfl
        cases same
        exact ⟨_, previous, action⟩
  · rintro ⟨before, previous, action⟩
    exact .snoc previous action

theorem split {before after : List ε} {state : σ} (run : Run step init (before ++ after) state) :
    ∃ middle, Run step init before middle ∧ Run step middle after state := by
  induction after using List.reverseRecOn generalizing state with
  | nil => exact ⟨state, by simpa using run, .nil⟩
  | append_singleton after event ih =>
      rw [← List.append_assoc] at run
      obtain ⟨last, previous, action⟩ := snoc_iff.mp run
      obtain ⟨middle, first, second⟩ := ih previous
      exact ⟨middle, first, .snoc second action⟩

end Run

/-! ## Guarded functions -/

def Guarded (permits : σ → ε → Prop) (next : σ → ε → σ) (before : σ) (event : ε) (after : σ) : Prop :=
  permits before event ∧ after = next before event

def Permitted (permits : σ → ε → Prop) (next : σ → ε → σ) : σ → List ε → Prop
  | _, [] => True
  | state, event :: events => permits state event ∧ Permitted permits next (next state event) events

def decidePermitted (permits : σ → ε → Prop) (next : σ → ε → σ)
    [∀ state event, Decidable (permits state event)] :
    (state : σ) → (events : List ε) → Decidable (Permitted permits next state events)
  | _, [] => isTrue trivial
  | state, event :: events =>
      have := decidePermitted permits next (next state event) events
      inferInstanceAs (Decidable (_ ∧ _))

instance {permits : σ → ε → Prop} {next : σ → ε → σ}
    [∀ state event, Decidable (permits state event)] (state : σ) (events : List ε) :
    Decidable (Permitted permits next state events) :=
  decidePermitted permits next state events

theorem run_of_permitted {permits : σ → ε → Prop} {next : σ → ε → σ} {init : σ} {events : List ε}
    (permitted : Permitted permits next init events) :
    Run (Guarded permits next) init events (events.foldl next init) := by
  induction events generalizing init with
  | nil => exact .nil
  | cons event events ih => exact .cons ⟨permitted.1, rfl⟩ (ih permitted.2)

theorem foldl_of_run {permits : σ → ε → Prop} {next : σ → ε → σ} {init state : σ} {events : List ε}
    (run : Run (Guarded permits next) init events state) : events.foldl next init = state := by
  induction run with
  | nil => rfl
  | snoc _ action ih => rw [List.foldl_append, ih, action.2, List.foldl_cons, List.foldl_nil]

/-! ## Partial functions -/

def Fires (next : σ → ε → Option σ) (before : σ) (event : ε) (after : σ) : Prop :=
  next before event = some after

theorem run_of_foldlM {next : σ → ε → Option σ} {init state : σ} {events : List ε}
    (fired : events.foldlM next init = some state) : Run (Fires next) init events state := by
  induction events generalizing init with
  | nil =>
      cases fired
      exact .nil
  | cons event events ih =>
      rw [List.foldlM_cons] at fired
      obtain ⟨first, action, rest⟩ := Option.bind_eq_some_iff.mp fired
      exact .cons action (ih rest)

theorem foldlM_of_run {next : σ → ε → Option σ} {init state : σ} {events : List ε}
    (run : Run (Fires next) init events state) : events.foldlM next init = some state := by
  induction run with
  | nil => rfl
  | snoc _ action ih =>
      rw [List.foldlM_append, ih]
      simpa [Fires] using action

theorem Run.unique {next : σ → ε → Option σ} {init state state' : σ} {events : List ε}
    (run : Run (Fires next) init events state) (run' : Run (Fires next) init events state') :
    state = state' :=
  Option.some.inj ((foldlM_of_run run).symm.trans (foldlM_of_run run'))

end LinuxInterview.Library
