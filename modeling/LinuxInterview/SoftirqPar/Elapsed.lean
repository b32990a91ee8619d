import LinuxInterview.Library.Runs

/-!
# The duration that `run_mode0` prints

Each callback of `many_fn` stores the first start and the last end by plain accesses: it takes a time
stamp, looks whether `t_first` is set and sets it otherwise; at its end it takes another and stores it.
The steps of the callbacks are interleaved. The times are those of one clock.
-/

namespace LinuxInterview.SoftirqPar
open Library

inductive Phase
  | waiting
  | checking
  | storing
  | running
  | ending
  | finished
  deriving DecidableEq, Repr

structure Callback where
  phase : Phase
  now : Nat
  stop : Nat
  deriving DecidableEq, Repr

structure Times (ι : Type) where
  clock : Nat
  tFirst : Nat
  tLast : Nat
  call : ι → Callback

inductive Access (ι : Type)
  | tick (d : Nat)
  | takeStart (i : ι)
  | checkFirst (i : ι)
  | storeFirst (i : ι)
  | takeStop (i : ι)
  | storeLast (i : ι)
  deriving DecidableEq

/-- Past the accesses to `t_first`. -/
def Callback.entered (c : Callback) : Prop := c.phase = .running ∨ c.phase = .ending ∨ c.phase = .finished

namespace Times

variable {ι : Type} [DecidableEq ι]

/-- The clock has been running since the boot. -/
def start : Times ι := ⟨1, 0, 0, fun _ => ⟨.waiting, 0, 0⟩⟩

def permits (s : Times ι) : Access ι → Prop
  | .tick _ => True
  | .takeStart i => (s.call i).phase = .waiting
  | .checkFirst i => (s.call i).phase = .checking
  | .storeFirst i => (s.call i).phase = .storing
  | .takeStop i => (s.call i).phase = .running
  | .storeLast i => (s.call i).phase = .ending

instance (s : Times ι) (e : Access ι) : Decidable (s.permits e) :=
  match e with
  | .tick _ => inferInstanceAs (Decidable True)
  | .takeStart _ | .checkFirst _ | .storeFirst _ | .takeStop _ | .storeLast _ =>
      inferInstanceAs (Decidable (_ = _))

def put (s : Times ι) (i : ι) (c : Callback) : Times ι := { s with call := Function.update s.call i c }

def next (s : Times ι) : Access ι → Times ι
  | .tick d => { s with clock := s.clock + d }
  | .takeStart i => s.put i ⟨.checking, s.clock, 0⟩
  | .checkFirst i => s.put i { s.call i with phase := if s.tFirst = 0 then .storing else .running }
  | .storeFirst i => { s.put i { s.call i with phase := .running } with tFirst := (s.call i).now }
  | .takeStop i => s.put i { s.call i with phase := .ending, stop := s.clock }
  | .storeLast i => { s.put i { s.call i with phase := .finished } with tLast := (s.call i).stop }

def step : Times ι → Access ι → Times ι → Prop := Guarded permits next

/-- What the printed duration is to span, once all callbacks have finished. -/
def Spans (s : Times ι) : Prop :=
  (∀ i, (s.call i).phase = .finished) →
    IsLeast (Set.range fun i => (s.call i).now) s.tFirst ∧ IsGreatest (Set.range fun i => (s.call i).stop) s.tLast

/-- No start is stored over an earlier one or left out although it is the earlier, and no end is stored
over a later one. -/
def Orderly (s : Times ι) : Access ι → Prop
  | .checkFirst i => s.tFirst = 0 ∨ s.tFirst ≤ (s.call i).now
  | .storeFirst i => s.tFirst = 0 ∨ (s.call i).now ≤ s.tFirst
  | .storeLast i => s.tLast ≤ (s.call i).stop
  | .tick _ | .takeStart _ | .takeStop _ => True

instance (s : Times ι) (e : Access ι) : Decidable (s.Orderly e) :=
  match e with
  | .checkFirst _ | .storeFirst _ => inferInstanceAs (Decidable (_ ∨ _))
  | .storeLast _ => inferInstanceAs (Decidable (_ ≤ _))
  | .tick _ | .takeStart _ | .takeStop _ => inferInstanceAs (Decidable True)

end Times

/-! ## The stored times are times of callbacks -/

variable {ι : Type}

/-- `value` is the time of a callback that is done, where there is one. -/
def StoredBy (value : Nat) (done : Callback → Prop) (time : Callback → Nat) (call : ι → Callback) : Prop :=
  (value = 0 ∧ ∀ i, ¬ done (call i)) ∨ ∃ i, done (call i) ∧ time (call i) = value

namespace StoredBy

variable {value : Nat} {done : Callback → Prop} {time : Callback → Nat} {call : ι → Callback} {i : ι} {c : Callback}

theorem value_eq (stored : StoredBy value done time call) (someDone : done (call i)) :
    ∃ j, done (call j) ∧ time (call j) = value := by
  rcases stored with ⟨_, none⟩ | held
  · exact absurd someDone (none i)
  · exact held

variable [DecidableEq ι]

theorem store (now : done c) (same : time c = value) : StoredBy value done time (Function.update call i c) :=
  Or.inr ⟨i, by rwa [Function.update_self], by rwa [Function.update_self]⟩

theorem frame (stored : StoredBy value done time call) (before : ¬ done (call i)) (after : value = 0 → ¬ done c) :
    StoredBy value done time (Function.update call i c) := by
  rcases stored with ⟨zero, none⟩ | ⟨j, held, same⟩
  · exact Or.inl ⟨zero, (Function.forall_update_iff _ fun _ c => ¬ done c).mpr ⟨after zero, fun j _ => none j⟩⟩
  · have other : j ≠ i := by
      rintro rfl
      exact before held
    exact Or.inr ⟨j, by rwa [Function.update_of_ne other], by rwa [Function.update_of_ne other]⟩

theorem keep (stored : StoredBy value done time call) (before : done (call i)) (after : done c)
    (same : time c = time (call i)) : StoredBy value done time (Function.update call i c) := by
  rcases stored with ⟨_, none⟩ | ⟨j, held, found⟩
  · exact absurd before (none i)
  · by_cases here : j = i
    · subst here
      exact store after (same.trans found)
    · exact Or.inr ⟨j, by rwa [Function.update_of_ne here], by rwa [Function.update_of_ne here]⟩

end StoredBy

namespace Times

structure Attained (s : Times ι) : Prop where
  running : 0 < s.clock
  started : ∀ i, (s.call i).phase ≠ .waiting → 0 < (s.call i).now
  first : StoredBy s.tFirst Callback.entered Callback.now s.call
  last : StoredBy s.tLast (fun c => c.phase = .finished) Callback.stop s.call

/-- The stored times span those of the callbacks that are past the stores. -/
structure Covers (s : Times ι) : Prop where
  first : ∀ i, (s.call i).entered → s.tFirst ≤ (s.call i).now
  last : ∀ i, (s.call i).phase = .finished → (s.call i).stop ≤ s.tLast

theorem attained_start : Attained (start : Times ι) where
  running := Nat.one_pos
  started i moved := absurd rfl moved
  first := Or.inl ⟨rfl, fun _ entered => by rcases entered with h | h | h <;> cases h⟩
  last := Or.inl ⟨rfl, fun _ finished => by cases finished⟩

theorem covers_start : Covers (start : Times ι) where
  first _ entered := by rcases entered with h | h | h <;> cases h
  last _ finished := by cases finished

variable {s : Times ι}

theorem entered_iff {c : Callback} {phase : Phase} (at_ : c.phase = phase) :
    c.entered ↔ phase = .running ∨ phase = .ending ∨ phase = .finished := by
  rw [Callback.entered, at_]

theorem spans_of_covers [Nonempty ι] (attained : Attained s) (covers : Covers s) : Spans s := by
  intro finished
  have entered : ∀ i, (s.call i).entered := fun i => by simp [entered_iff (finished i)]
  obtain ⟨someone⟩ := ‹Nonempty ι›
  obtain ⟨i, _, first⟩ := attained.first.value_eq (entered someone)
  obtain ⟨j, _, last⟩ := attained.last.value_eq (finished someone)
  refine ⟨⟨⟨i, first⟩, ?_⟩, ⟨⟨j, last⟩, ?_⟩⟩
  · rintro _ ⟨k, rfl⟩
    exact covers.first k (entered k)
  · rintro _ ⟨k, rfl⟩
    exact covers.last k (finished k)

variable [DecidableEq ι]

theorem Attained.next (attained : Attained s) {e : Access ι} (permitted : s.permits e) : Attained (s.next e) := by
  obtain ⟨running, started, first, last⟩ := attained
  have started_put : ∀ {i : ι} {c : Callback}, 0 < c.now →
      ∀ j, (Function.update s.call i c j).phase ≠ .waiting → 0 < (Function.update s.call i c j).now :=
    fun positive => (Function.forall_update_iff s.call fun _ (c : Callback) => c.phase ≠ .waiting → 0 < c.now).mpr
      ⟨fun _ => positive, fun j _ => started j⟩
  cases e with
  | tick d => exact ⟨Nat.add_pos_left running d, started, first, last⟩
  | takeStart i =>
      have waiting : (s.call i).phase = .waiting := permitted
      have out : ¬ (s.call i).entered := by simp [entered_iff waiting]
      refine ⟨running, started_put running, first.frame out fun _ => ?_, last.frame ?_ fun _ => ?_⟩
      · simp [Callback.entered]
      · simp [waiting]
      · simp
  | checkFirst i =>
      have checking : (s.call i).phase = .checking := permitted
      have out : ¬ (s.call i).entered := by simp [entered_iff checking]
      refine ⟨running, started_put (started i (by simp [checking])), first.frame out fun zero => ?_,
        last.frame ?_ fun _ => ?_⟩
      · simp [Callback.entered, zero]
      · simp [checking]
      · dsimp only
        split <;> decide
  | storeFirst i =>
      have storing : (s.call i).phase = .storing := permitted
      refine ⟨running, started_put (started i (by simp [storing])), StoredBy.store ?_ rfl,
        last.frame ?_ fun _ => ?_⟩
      · simp [Callback.entered]
      · simp [storing]
      · simp
  | takeStop i =>
      have at_ : (s.call i).phase = .running := permitted
      refine ⟨running, started_put (started i (by simp [at_])), first.keep ?_ ?_ rfl, last.frame ?_ fun _ => ?_⟩
      · simp [entered_iff at_]
      · simp [Callback.entered]
      · simp [at_]
      · simp
  | storeLast i =>
      have ending : (s.call i).phase = .ending := permitted
      refine ⟨running, started_put (started i (by simp [ending])), first.keep ?_ ?_ rfl,
        StoredBy.store ?_ rfl⟩
      · simp [entered_iff ending]
      · simp [Callback.entered]
      · rfl

theorem covers_update {clock tFirst tLast : Nat} {i : ι} {c : Callback} :
    Covers ⟨clock, tFirst, tLast, Function.update s.call i c⟩ ↔
      ((c.entered → tFirst ≤ c.now) ∧ ∀ j ≠ i, (s.call j).entered → tFirst ≤ (s.call j).now) ∧
      (c.phase = .finished → c.stop ≤ tLast) ∧
        ∀ j ≠ i, (s.call j).phase = .finished → (s.call j).stop ≤ tLast := by
  have first := Function.forall_update_iff (a := i) (b := c) s.call
    fun _ (c : Callback) => c.entered → tFirst ≤ c.now
  have last := Function.forall_update_iff (a := i) (b := c) s.call
    fun _ (c : Callback) => c.phase = .finished → c.stop ≤ tLast
  rw [← first, ← last]
  exact ⟨fun ⟨below, above⟩ => ⟨below, above⟩, fun ⟨below, above⟩ => ⟨below, above⟩⟩

/-- A step goes wrong just where it is not orderly. -/
theorem covers_next_iff (attained : Attained s) (covers : Covers s) {e : Access ι} (permitted : s.permits e) :
    Covers (s.next e) ↔ s.Orderly e := by
  obtain ⟨running, started, first, last⟩ := attained
  obtain ⟨below, above⟩ := covers
  have below_others : ∀ i, ∀ j ≠ i, (s.call j).entered → s.tFirst ≤ (s.call j).now := fun _ j _ => below j
  have above_others : ∀ i, ∀ j ≠ i, (s.call j).phase = .finished → (s.call j).stop ≤ s.tLast :=
    fun _ j _ => above j
  cases e with
  | tick d => exact iff_of_true ⟨below, above⟩ trivial
  | takeStart i =>
      refine iff_of_true (covers_update.mpr ⟨⟨?_, below_others i⟩, ?_, above_others i⟩) trivial
      · simp [Callback.entered]
      · simp
  | checkFirst i =>
      rw [next, put, covers_update, and_iff_left (below_others i), and_iff_left (above_others i), Orderly]
      by_cases unset : s.tFirst = 0 <;> simp [unset, Callback.entered]
  | storeFirst i =>
      have storing : (s.call i).phase = .storing := permitted
      have unfinished : (s.call i).phase ≠ .finished := by simp [storing]
      rw [next, put, covers_update, and_iff_right fun _ => le_rfl, Orderly]
      constructor
      · rintro ⟨least, _⟩
        rcases first with ⟨zero, _⟩ | ⟨j, entered, same⟩
        · exact Or.inl zero
        · have other : j ≠ i := by
            rintro rfl
            simp [entered_iff storing] at entered
          exact Or.inr (same ▸ least j other entered)
      · intro orderly
        refine ⟨fun j other entered => ?_, by simp, above_others i⟩
        rcases orderly with zero | earlier
        · -- the start of a callback that is past the store is not 0
          obtain ⟨k, held, same⟩ := first.value_eq entered
          have positive := started k fun waiting => by simp [entered_iff waiting] at held
          omega
        · exact earlier.trans (below j entered)
  | takeStop i =>
      have at_ : (s.call i).phase = .running := permitted
      refine iff_of_true (covers_update.mpr ⟨⟨fun _ => below i ?_, below_others i⟩, ?_, above_others i⟩) trivial
      · simp [entered_iff at_]
      · simp
  | storeLast i =>
      have ending : (s.call i).phase = .ending := permitted
      have entered : (s.call i).entered := by simp [entered_iff ending]
      rw [next, put, covers_update, and_iff_right ⟨fun _ => below i entered, below_others i⟩,
        and_iff_right fun _ => le_rfl, Orderly]
      constructor
      · intro greatest
        rcases last with ⟨zero, _⟩ | ⟨j, finished, same⟩
        · exact zero ▸ Nat.zero_le _
        · have other : j ≠ i := by
            rintro rfl
            rw [ending] at finished
            cases finished
          exact same ▸ greatest j other finished
      · exact fun later j _ finished => (above j finished).trans later

/-! ## Whole runs -/

theorem attained_of_run {events : List (Access ι)} (run : Run step start events s) : Attained s := by
  refine run.invariant Attained attained_start ?_
  rintro before e after attained ⟨permitted, rfl⟩
  exact attained.next permitted

def orderlyStep : Times ι → Access ι → Times ι → Prop := Guarded (fun s e => s.permits e ∧ s.Orderly e) next

theorem spans_of_orderly_run [Nonempty ι] {events : List (Access ι)} (run : Run orderlyStep start events s) :
    Spans s := by
  have kept : Attained s ∧ Covers s := by
    refine run.invariant (fun s => Attained s ∧ Covers s) ⟨attained_start, covers_start⟩ ?_
    rintro before e after ⟨attained, covers⟩ ⟨⟨permitted, orderly⟩, rfl⟩
    exact ⟨attained.next permitted, (covers_next_iff attained covers permitted).mpr orderly⟩
  exact spans_of_covers kept.1 kept.2

/-- In the states of a run the stored times are right throughout just where its steps are orderly. -/
theorem covers_throughout_iff {events : List (Access ι)} (run : Run step start events s) :
    (∀ earlier, earlier <+: events → Covers (earlier.foldl next start)) ↔ Run orderlyStep start events s := by
  induction run with
  | nil =>
      refine iff_of_true (fun earlier before => ?_) .nil
      rw [List.prefix_nil.mp before]
      exact covers_start
  | @snoc events before after e run action ih =>
      obtain ⟨permitted, rfl⟩ := action
      have here := covers_next_iff (e := e) (attained_of_run run)
      have reached : events.foldl next start = before := foldl_of_run run
      constructor
      · intro throughout
        have earlier := ih.mp fun earlier shorter => throughout earlier (shorter.trans (List.prefix_append _ _))
        have covers := reached ▸ throughout events (List.prefix_append _ _)
        have moved := throughout (events ++ [e]) List.prefix_rfl
        rw [List.foldl_append, reached] at moved
        exact .snoc earlier ⟨⟨permitted, (here covers permitted).mp moved⟩, rfl⟩
      · intro orderly earlier shorter
        obtain ⟨before', run', ⟨_, calm⟩, same⟩ := Run.snoc_iff.mp orderly
        obtain rfl : before' = before := (foldl_of_run run').symm.trans reached
        have throughout := ih.mpr run'
        rcases List.prefix_concat_iff.mp shorter with rfl | shorter
        · rw [List.foldl_append, reached]
          exact (here (reached ▸ throughout events List.prefix_rfl) permitted).mpr calm
        · exact throughout earlier shorter

/-- The second callback starts after the first and stores its start after it. -/
def racing : List (Access Bool) :=
  [.takeStart false, .tick 1, .takeStart true, .checkFirst false, .checkFirst true, .storeFirst false, .storeFirst true,
    .takeStop false, .takeStop true, .storeLast false, .storeLast true]

theorem later_start_overwrites_earlier :
    Run step start racing (racing.foldl next start) ∧ ¬ Spans (racing.foldl next start) := by
  refine ⟨run_of_permitted (by decide), fun spans => ?_⟩
  have least := (spans (by decide)).1.2 ⟨false, rfl⟩
  exact absurd least (by decide)

def inTurn : List (Access Bool) :=
  [.takeStart false, .tick 1, .takeStart true, .checkFirst false, .storeFirst false, .checkFirst true,
    .takeStop false, .tick 1, .takeStop true, .storeLast false, .storeLast true]

theorem spans_of_orderly_run_inTurn : Spans (inTurn.foldl next start) :=
  spans_of_orderly_run (run_of_permitted (by decide))

end Times

end LinuxInterview.SoftirqPar
