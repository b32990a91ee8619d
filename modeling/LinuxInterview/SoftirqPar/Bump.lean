import LinuxInterview.Library.CasMax
import Mathlib.Data.List.DropRight

/-!
# The peak that `bump` records

`softirq_par` and `wq_probe` count the callbacks that run at one time and keep the highest count, the
first in `cur` and `maxcur`, the second in `concur` and `maxconcur`. Their `bump` is the same. Each of
its accesses is one atomic step, and so is the decrement at the end of a callback.
-/

namespace LinuxInterview.SoftirqPar
open Library

/-- Where a callback is: outside, between two accesses of `bump`, or between `bump` and the decrement. -/
inductive Stage
  | outside
  | reading (c : Int)
  | swapping (c m : Int)
  | inside
  deriving DecidableEq, Repr

namespace Stage

def bumping : Stage → Bool
  | .reading _ | .swapping _ _ => true
  | .outside | .inside => false

def isReading : Stage → Bool
  | .reading _ => true
  | _ => false

def isSwapping : Stage → Bool
  | .swapping _ _ => true
  | _ => false

def attempt : Stage → Attempt Int
  | .outside | .inside => .done
  | .reading c => .reading c
  | .swapping c m => .swapping c m

theorem exists_of_isReading {at_ : Stage} (reading : at_.isReading = true) : ∃ c, at_ = .reading c := by
  cases at_ with
  | reading c => exact ⟨c, rfl⟩
  | _ => cases reading

theorem exists_of_isSwapping {at_ : Stage} (swapping : at_.isSwapping = true) : ∃ c m, at_ = .swapping c m := by
  cases at_ with
  | swapping c m => exact ⟨c, m, rfl⟩
  | _ => cases swapping

theorem offered_attempt {at_ : Stage} (quiet : at_.bumping = false) : at_.attempt.offered = none := by
  cases at_ with
  | outside => rfl
  | inside => rfl
  | reading c => cases quiet
  | swapping c m => cases quiet

end Stage

/-- The counters are far from their ends: there are fewer callbacks than processors, or than `MAXW`. -/
structure Counters (ι : Type) where
  cur : Int
  maxcur : Int
  stage : ι → Stage

inductive Event (ι : Type)
  | incReturn (i : ι)
  | readMax (i : ι)
  | cmpxchg (i : ι)
  | dec (i : ι)
  | reset
  deriving DecidableEq

namespace Counters

variable {ι : Type} [DecidableEq ι]

/-- What `reset_stats` leaves. -/
def start : Counters ι := ⟨0, 0, fun _ => .outside⟩

/-- The counters are reset before any callback is scheduled. -/
def permits (s : Counters ι) : Event ι → Prop
  | .incReturn i => s.stage i = .outside
  | .readMax i => (s.stage i).isReading = true
  | .cmpxchg i => (s.stage i).isSwapping = true
  | .dec i => s.stage i = .inside
  | .reset => ∀ i, s.stage i = .outside

instance [Fintype ι] (s : Counters ι) (e : Event ι) : Decidable (s.permits e) :=
  match e with
  | .incReturn _ | .readMax _ | .cmpxchg _ | .dec _ => inferInstanceAs (Decidable (_ = _))
  | .reset => inferInstanceAs (Decidable (∀ _, _))

def next (s : Counters ι) : Event ι → Counters ι
  | .incReturn i =>
      { s with cur := s.cur + 1, stage := Function.update s.stage i (.reading (s.cur + 1)) }
  | .readMax i =>
      match s.stage i with
      | .reading c =>
          { s with stage := Function.update s.stage i (if c ≤ s.maxcur then .inside else .swapping c s.maxcur) }
      | _ => s
  | .cmpxchg i =>
      match s.stage i with
      | .swapping c m =>
          if s.maxcur = m then { s with maxcur := c, stage := Function.update s.stage i .inside }
          else { s with stage := Function.update s.stage i (.reading c) }
      | _ => s
  | .dec i => { s with cur := s.cur - 1, stage := Function.update s.stage i .outside }
  | .reset => start

def step : Counters ι → Event ι → Counters ι → Prop := Guarded permits next

/-! ## The values since the last reset -/

def sinceReset (events : List (Event ι)) : List (Event ι) := events.rtakeWhile fun e => e ≠ .reset

def curValues (events : List (Event ι)) : Set Int :=
  {v | ∃ earlier, earlier <+: events ∧ v = (earlier.foldl next start).cur}

theorem curValues_append_singleton (events : List (Event ι)) (e : Event ι) :
    curValues (events ++ [e]) = insert ((events ++ [e]).foldl next start).cur (curValues events) := by
  ext v
  rw [Set.mem_insert_iff]
  constructor
  · rintro ⟨earlier, before, rfl⟩
    rcases List.prefix_concat_iff.mp before with rfl | shorter
    · exact Or.inl rfl
    · exact Or.inr ⟨earlier, shorter, rfl⟩
  · rintro (rfl | ⟨earlier, before, rfl⟩)
    · exact ⟨events ++ [e], List.prefix_rfl, rfl⟩
    · exact ⟨earlier, before.trans (List.prefix_append events [e]), rfl⟩

theorem zero_mem_curValues (events : List (Event ι)) : (0 : Int) ∈ curValues events :=
  ⟨[], List.nil_prefix, rfl⟩

/-! ## A cell that keeps a maximum -/

def cell (s : Counters ι) : MaxCell ι Int := ⟨s.maxcur, fun i => (s.stage i).attempt⟩

theorem cell_update (s : Counters ι) (i : ι) (at_ : Stage) (cur maxcur : Int) :
    cell ⟨cur, maxcur, Function.update s.stage i at_⟩ = s.cell.put i at_.attempt maxcur := by
  rw [cell, MaxCell.put]
  congr 1
  funext j
  change (Function.update s.stage i at_ j).attempt = _
  by_cases same : j = i
  · subst same
    rw [Function.update_self, Function.update_self]
  · rw [Function.update_of_ne same, Function.update_of_ne same]
    rfl

theorem cell_step {s : Counters ι} {e : Event ι} (permitted : s.permits e) (goesOn : e ≠ .reset) :
    ((s.next e).cell = s.cell ∧ (s.next e).cur ≤ s.cur) ∨
    (∃ i, Fires MaxCell.next s.cell (.offer i (s.next e).cur) (s.next e).cell) ∨
    (∃ i, Fires MaxCell.next s.cell (.read i) (s.next e).cell ∧ (s.next e).cur = s.cur) ∨
    ∃ i, Fires MaxCell.next s.cell (.swap i) (s.next e).cell ∧ (s.next e).cur = s.cur := by
  cases e with
  | incReturn i =>
      have free : s.stage i = .outside := permitted
      refine Or.inr (Or.inl ⟨i, ?_⟩)
      rw [Fires, next, cell_update]
      simp [MaxCell.next, cell, free, Stage.attempt]
  | readMax i =>
      refine Or.inr (Or.inr (Or.inl ⟨i, ?_⟩))
      obtain ⟨c, reading⟩ := Stage.exists_of_isReading permitted
      simp only [Fires, next, reading]
      rw [cell_update]
      refine ⟨?_, trivial⟩
      by_cases low : c ≤ s.maxcur <;> simp [MaxCell.next, cell, reading, Stage.attempt, low]
  | cmpxchg i =>
      refine Or.inr (Or.inr (Or.inr ⟨i, ?_⟩))
      obtain ⟨c, m, swapping⟩ := Stage.exists_of_isSwapping permitted
      simp only [Fires, next, swapping]
      by_cases unchanged : s.maxcur = m
      · rw [if_pos unchanged, cell_update]
        exact ⟨by simp [MaxCell.next, cell, swapping, Stage.attempt, unchanged], rfl⟩
      · rw [if_neg unchanged, cell_update]
        exact ⟨by simp [MaxCell.next, cell, swapping, Stage.attempt, unchanged], rfl⟩
  | dec i =>
      have inside : s.stage i = .inside := permitted
      refine Or.inl ⟨?_, by simp [next]⟩
      rw [next, cell_update, MaxCell.put, cell]
      congr 1
      funext j
      by_cases same : j = i
      · subst same
        rw [Function.update_self, inside]
        rfl
      · rw [Function.update_of_ne same]
  | reset => exact absurd rfl goesOn

/-- The cell has run along, and was offered values of `values` of which none is higher than all offers. -/
def Follows (values : Set Int) (c : MaxCell ι Int) : Prop :=
  ∃ offered, Run (Fires MaxCell.next) (MaxCell.start 0) offered c ∧
    (∀ v ∈ MaxCell.offers offered, v ∈ values) ∧ ∀ v ∈ values, ∃ o ∈ 0 :: MaxCell.offers offered, v ≤ o

namespace Follows

variable {values : Set Int} {c c' : MaxCell ι Int} {v w : Int}

theorem lower (follows : Follows values c) (known : w ∈ values) (below : v ≤ w) : Follows (insert v values) c := by
  obtain ⟨offered, run, offers, bounded⟩ := follows
  refine ⟨offered, run, fun o member => Set.mem_insert_of_mem _ (offers o member), ?_⟩
  rw [Set.forall_mem_insert]
  obtain ⟨o, member, above⟩ := bounded w known
  exact ⟨⟨o, member, below.trans above⟩, bounded⟩

theorem silent (follows : Follows values c) {e : MaxEvent ι Int} (silent : ∀ i v, e ≠ .offer i v)
    (fired : Fires MaxCell.next c e c') : Follows values c' := by
  obtain ⟨offered, run, offers, bounded⟩ := follows
  have same := MaxCell.offers_silent silent offered
  exact ⟨offered ++ [e], .snoc run fired, same ▸ offers, same ▸ bounded⟩

theorem offer (follows : Follows values c) {i : ι} (fired : Fires MaxCell.next c (.offer i v) c') :
    Follows (insert v values) c' := by
  obtain ⟨offered, run, offers, bounded⟩ := follows
  have more : MaxCell.offers (offered ++ [.offer i v]) = MaxCell.offers offered ++ [v] := by simp [MaxCell.offers]
  refine ⟨offered ++ [.offer i v], .snoc run fired, ?_, ?_⟩
  · rw [more, List.forall_mem_append, List.forall_mem_singleton]
    exact ⟨fun o member => Set.mem_insert_of_mem _ (offers o member), Set.mem_insert _ _⟩
  · rw [more, ← List.cons_append, Set.forall_mem_insert]
    refine ⟨⟨v, List.mem_append_right _ (List.mem_singleton_self v), le_rfl⟩, fun u value => ?_⟩
    obtain ⟨o, member, above⟩ := bounded u value
    exact ⟨o, List.mem_append_left _ member, above⟩

end Follows

structure Recorded (events : List (Event ι)) (s : Counters ι) : Prop where
  reached : (sinceReset events).foldl next start = s
  kept : Follows (curValues (sinceReset events)) s.cell

theorem recorded_start : Recorded [] (start : Counters ι) := by
  refine ⟨rfl, [], Run.nil, by simp [MaxCell.offers], fun v value => ?_⟩
  obtain ⟨earlier, before, rfl⟩ := value
  obtain rfl := List.prefix_nil.mp before
  exact ⟨0, List.mem_cons_self, le_rfl⟩

theorem Recorded.step {events : List (Event ι)} {s : Counters ι} (recorded : Recorded events s) {e : Event ι}
    (permitted : s.permits e) : Recorded (events ++ [e]) (s.next e) := by
  obtain ⟨reached, follows⟩ := recorded
  by_cases again : e = .reset
  · subst again
    have nothing : sinceReset (events ++ [.reset]) = [] := by
      rw [sinceReset, List.rtakeWhile_concat, if_neg (by simp)]
    refine ⟨by rw [nothing]; rfl, ?_⟩
    rw [nothing]
    exact recorded_start.kept
  · have onward : sinceReset (events ++ [e]) = sinceReset events ++ [e] := by
      rw [sinceReset, List.rtakeWhile_concat, if_pos (by simpa using again)]
      rfl
    have moved : (sinceReset events ++ [e]).foldl next start = s.next e := by
      rw [List.foldl_append, reached]
      rfl
    have current : s.cur ∈ curValues (sinceReset events) := ⟨_, List.prefix_rfl, by rw [reached]⟩
    have values := curValues_append_singleton (sinceReset events) e
    rw [moved] at values
    refine ⟨onward ▸ moved, ?_⟩
    rw [onward, values]
    rcases cell_step permitted again with ⟨same, falls⟩ | ⟨i, fired⟩ | ⟨i, fired, cur⟩ | ⟨i, fired, cur⟩
    · rw [same]
      exact follows.lower current falls
    · exact follows.offer fired
    · exact (follows.silent (by simp) fired).lower current cur.le
    · exact (follows.silent (by simp) fired).lower current cur.le

theorem recorded_of_run {events : List (Event ι)} {s : Counters ι} (run : Run step start events s) :
    Recorded events s := by
  refine run.history_invariant Recorded recorded_start ?_
  rintro events before e after _ recorded ⟨permitted, rfl⟩
  exact recorded.step permitted

theorem bump_records_peak {events : List (Event ι)} {s : Counters ι} (run : Run step start events s) :
    s.maxcur ∈ curValues (sinceReset events) ∧
      ((∀ i, (s.stage i).bumping = false) → IsGreatest (curValues (sinceReset events)) s.maxcur) := by
  obtain ⟨_, offered, run, offers, bounded⟩ := recorded_of_run run
  have tracks := MaxCell.tracks_of_run run
  have member : s.maxcur ∈ curValues (sinceReset events) := by
    rcases List.mem_cons.mp tracks.stored_mem with zero | later
    · have none : s.maxcur = 0 := zero
      exact none ▸ zero_mem_curValues _
    · exact offers _ later
  refine ⟨member, fun quiet => ⟨member, fun v value => ?_⟩⟩
  have left : ∀ i, (s.cell.attempt i).offered = none := fun i => Stage.offered_attempt (quiet i)
  obtain ⟨c, inside, above⟩ := bounded v value
  exact above.trans ((tracks.isGreatest left).2 inside)

/-- Two callbacks, of which the first loses its compare-and-swap to the second. -/
def contended : List (Event Bool) :=
  [.reset, .incReturn false, .incReturn true, .readMax false, .readMax true, .cmpxchg true, .cmpxchg false, .readMax false, .dec true]

theorem bump_records_peak_contended :
    (contended.foldl next start).maxcur ∈ curValues (sinceReset contended) ∧
      ((∀ i, ((contended.foldl next start).stage i).bumping = false) →
        IsGreatest (curValues (sinceReset contended)) (contended.foldl next start).maxcur) :=
  bump_records_peak (run_of_permitted (by decide))

example : (contended.foldl next start).maxcur = 2 := by decide

end Counters

end LinuxInterview.SoftirqPar
