import LinuxInterview.WakeCpu.PingPong

/-!
# The ping-pong goes in lockstep
-/

namespace LinuxInterview.WakeCpu
open Library

variable {p : Params} {s s' : State}

namespace Wakee

def idle : Wakee := ⟨0, [], .read, false, false⟩

/-- The byte is on its way to the wakee, has woken it, or is on its way back as the number of a CPU. -/
inductive Asked (p : Params) : Wakee → Prop
  | sent : Asked p ⟨1, [], .read, false, false⟩
  | woken : Asked p ⟨0, [], .report, false, false⟩
  | answered {cpu : Nat} (inside : cpu < p.cpus) : Asked p ⟨0, [UInt8.ofNat cpu], .read, false, false⟩

inductive Ending (closed killed : Bool) : Wakee → Prop
  | blocked : Ending closed killed ⟨0, [], .read, closed, killed⟩
  | dead : Ending closed killed ⟨0, [], .dead, closed, killed⟩

def rank (w : Wakee) : Nat :=
  2 * w.toPipe + match w.here with
    | .read => 1
    | .report => 2
    | .dead => 0

end Wakee

namespace WakerAt

/-- The wakee `j` as it is while the waker is at its place. -/
def Fits (p : Params) (j : Nat) : WakerAt → Wakee → Prop
  | .burn _ _, w | .write _ _, w => w = .idle
  | .read _ i, w => if j = i then w.Asked p else w = .idle
  | .close i, w => if j < i then w.Ending true true else w = .idle
  | .kill i, w => if j < i then w.Ending true true else if j = i then w.Ending true false else w = .idle
  | .wait, w => w.Ending true true
  | .finished, w => w = ⟨0, [], .dead, true, true⟩

def Valid (p : Params) : WakerAt → Prop
  | .burn r i | .write r i | .read r i => i < p.n ∧ r < p.rounds
  | .close i | .kill i => i < p.n
  | .wait | .finished => True

/-- The steps left to the waker and for its wake-ups. -/
def rank (p : Params) : WakerAt → Nat
  | .burn r i => 5 * ((p.rounds - r) * p.n - i) + 2 * p.n + 1
  | .write r i => 5 * ((p.rounds - r) * p.n - i - 1) + 2 * p.n + 5
  | .read r i => 5 * ((p.rounds - r) * p.n - i - 1) + 2 * p.n + 2
  | .close i => 2 * (p.n - i) + 1
  | .kill i => 2 * (p.n - i)
  | .wait => 1
  | .finished => 0

end WakerAt

def Counts (p : Params) (total answered : Nat) : Prop := total ≤ answered ∧ (p.cpus ≤ NCPU → total = answered)

structure Inv (p : Params) (s : State) : Prop where
  valid : s.waker.Valid p
  wakees : ∀ j < p.n, s.waker.Fits p j (s.wakees j)
  answered : ∀ j < p.n, Counts p (∑ c ∈ Finset.range NCPU, s.hist j c) (p.answered j s.waker)
  sent : ∑ c ∈ Finset.range NCPU, s.wakerHist c = p.sent s.waker

def State.rank (p : Params) (s : State) : Nat :=
  s.waker.rank p + ∑ j ∈ Finset.range p.n, (s.wakees j).rank

/-! ## Where the loops go on -/

theorem turn_cases {r i : Nat} (inside : i < p.n) (round : r < p.rounds) :
    (p.turn r (i + 1) = .burn r (i + 1) ∧ i + 1 < p.n) ∨
    (p.turn r (i + 1) = .burn (r + 1) 0 ∧ i + 1 = p.n ∧ r + 1 < p.rounds) ∨
    (p.turn r (i + 1) = .close 0 ∧ i + 1 = p.n ∧ r + 1 = p.rounds) := by
  unfold Params.turn Params.closeFrom
  by_cases more : i + 1 < p.n
  · exact Or.inl ⟨if_pos ⟨more, round⟩, more⟩
  · rw [if_neg fun both => more both.1]
    by_cases again : r + 1 < p.rounds
    · rw [if_pos ⟨by omega, again⟩]
      exact Or.inr (Or.inl ⟨rfl, by omega, again⟩)
    · rw [if_neg fun both => again both.2, if_pos (by omega)]
      exact Or.inr (Or.inr ⟨rfl, by omega, by omega⟩)

theorem left_pos {r i : Nat} (inside : i < p.n) (round : r < p.rounds) : i < (p.rounds - r) * p.n :=
  inside.trans_le (Nat.le_mul_of_pos_left p.n (by omega))

theorem left_succ {r : Nat} (round : r < p.rounds) : (p.rounds - r) * p.n = (p.rounds - (r + 1)) * p.n + p.n := by
  have split : p.rounds - r = p.rounds - (r + 1) + 1 := by omega
  rw [split, Nat.succ_mul]

structure AfterTurn (p : Params) (r i : Nat) (next : WakerAt) : Prop where
  valid : next.Valid p
  idle : ∀ j, next.Fits p j .idle
  answered : ∀ j < p.n, p.answered j next = if j ≤ i then r + 1 else r
  sent : p.sent next = r * p.n + i + 1
  rank : next.rank p < (WakerAt.read r i).rank p

theorem afterTurn {r i : Nat} (inside : i < p.n) (round : r < p.rounds) : AfterTurn p r i (p.turn r (i + 1)) := by
  have left := left_pos inside round
  have less := left_succ round
  rcases turn_cases inside round with ⟨goes, more⟩ | ⟨goes, last, again⟩ | ⟨goes, last, final⟩
  · rw [goes]
    refine ⟨⟨more, round⟩, fun _ => rfl, fun j _ => ?_, (Nat.add_assoc ..).symm, ?_⟩
    · simp only [Params.answered, Nat.lt_succ_iff]
    · simp only [WakerAt.rank]
      omega
  · rw [goes]
    refine ⟨⟨by omega, again⟩, fun _ => rfl, fun j below => ?_, ?_, ?_⟩
    · have earlier : j ≤ i := by omega
      simp [Params.answered, earlier]
    · simp only [Params.sent, Nat.succ_mul]
      omega
    · simp only [WakerAt.rank]
      omega
  · rw [goes]
    have some_ : p.n ≠ 0 := by omega
    refine ⟨Nat.zero_lt_of_lt inside, fun j => by simp [WakerAt.Fits], fun j below => ?_, ?_, ?_⟩
    · have earlier : j ≤ i := by omega
      simp [Params.answered, some_, earlier, final]
    · simp only [Params.sent, ← final, Nat.succ_mul]
      omega
    · simp only [WakerAt.rank]
      omega

/-! ## A wakee -/

variable {here : WakerAt} {w w' : Wakee} {j cpu : Nat} {eof : Bool}

theorem Wakee.Asked.step (asked : w.Asked p) (inside : cpu < p.cpus) (closed : eof = true → w.closed = true)
    (moved : wakee eof cpu w = some w') : w'.Asked p := by
  cases asked with
  | sent =>
      cases moved
      exact .woken
  | woken =>
      cases moved
      exact .answered inside
  | answered cpu' =>
      cases eof with
      | false => cases moved
      | true => cases closed rfl

theorem Wakee.Ending.step {c k : Bool} (ending : w.Ending c k) (moved : wakee eof cpu w = some w') : w'.Ending c k := by
  cases ending with
  | blocked =>
      cases eof with
      | false => cases moved
      | true =>
          cases moved
          exact .dead
  | dead => cases moved

theorem Wakee.Ending.die {c k : Bool} (ending : w.Ending c k) : Wakee.Ending c k { w with here := .dead } := by
  cases ending <;> exact .dead

theorem wakee_idle (closed : eof = true → Wakee.idle.closed = true) : wakee eof cpu .idle = none := by
  cases eof with
  | false => rfl
  | true => cases closed rfl

namespace WakerAt.Fits

theorem wakee_step (fits : here.Fits p j w) (inside : cpu < p.cpus) (closed : eof = true → w.closed = true)
    (moved : wakee eof cpu w = some w') : here.Fits p j w' := by
  have still : w ≠ .idle := by
    rintro rfl
    rw [wakee_idle closed] at moved
    cases moved
  cases here with
  | burn r i | write r i => exact absurd fits still
  | read r i =>
      simp only [WakerAt.Fits] at fits ⊢
      split_ifs at fits ⊢ with own
      · exact Wakee.Asked.step fits inside closed moved
      · exact absurd fits still
  | close i =>
      simp only [WakerAt.Fits] at fits ⊢
      split_ifs at fits ⊢ with earlier
      · exact Wakee.Ending.step fits moved
      · exact absurd fits still
  | kill i =>
      simp only [WakerAt.Fits] at fits ⊢
      split_ifs at fits ⊢ with earlier own
      · exact Wakee.Ending.step fits moved
      · exact Wakee.Ending.step fits moved
      · exact absurd fits still
  | wait => exact Wakee.Ending.step fits moved
  | finished =>
      cases fits
      cases moved

/-- Only a wakee that has been killed is cut off. -/
theorem die (fits : here.Fits p j w) (killed : w.killed = true) : here.Fits p j { w with here := .dead } := by
  have still : w ≠ .idle := by
    rintro rfl
    cases killed
  cases here with
  | burn r i | write r i => exact absurd fits still
  | read r i =>
      simp only [WakerAt.Fits] at fits ⊢
      split_ifs at fits ⊢ with own
      · cases fits <;> cases killed
      · exact absurd fits still
  | close i =>
      simp only [WakerAt.Fits] at fits ⊢
      split_ifs at fits ⊢ with earlier
      · exact Wakee.Ending.die fits
      · exact absurd fits still
  | kill i =>
      simp only [WakerAt.Fits] at fits ⊢
      split_ifs at fits ⊢ with earlier own
      · exact Wakee.Ending.die fits
      · exact Wakee.Ending.die fits
      · exact absurd fits still
  | wait => exact Wakee.Ending.die fits
  | finished =>
      cases fits
      rfl

end WakerAt.Fits

theorem wakee_rank (moved : wakee eof cpu w = some w') : w'.rank < w.rank := by
  unfold wakee at moved
  cases here : w.here with
  | read =>
      simp only [here] at moved
      split_ifs at moved with some_
      all_goals
        cases moved
        simp only [Wakee.rank, here]
        omega
  | report =>
      simp only [here] at moved
      cases moved
      simp [Wakee.rank, here]
  | dead => simp [here] at moved

/-! ## The waker -/

theorem sum_bump (counts : Nat → Nat) {c : Nat} (inside : c < NCPU) :
    ∑ k ∈ Finset.range NCPU, bump counts c k = ∑ k ∈ Finset.range NCPU, counts k + 1 := by
  have moved := sum_update_add id counts (Finset.mem_range.mpr inside) (counts c + 1)
  simp only [id_eq] at moved
  unfold bump
  omega

theorem rank_set {i : Nat} (inside : i < p.n) (w : Wakee) (waker : WakerAt) :
    ({ s.set i w with waker := waker }).rank p + (s.wakees i).rank =
      waker.rank p + ∑ j ∈ Finset.range p.n, (s.wakees j).rank + w.rank := by
  have moved := sum_update_add Wakee.rank s.wakees (Finset.mem_range.mpr inside) w
  simp only [State.rank, State.set]
  omega

theorem State.set_self {i : Nat} {w : Wakee} : (s.set i w).wakees i = w := Function.update_self ..

theorem State.set_other {i j : Nat} {w : Wakee} (other : j ≠ i) : (s.set i w).wakees j = s.wakees j :=
  Function.update_of_ne other ..

theorem wakees_set {i : Nat} {w : Wakee} {before after : WakerAt}
    (fits : ∀ j < p.n, before.Fits p j (s.wakees j)) (own : after.Fits p i w)
    (others : ∀ j < p.n, j ≠ i → ∀ v, before.Fits p j v → after.Fits p j v) :
    ∀ j < p.n, after.Fits p j ((s.set i w).wakees j) := by
  intro j below
  rcases eq_or_ne j i with rfl | other
  · rw [State.set_self]
    exact own
  · rw [State.set_other other]
    exact others j below other _ (fits j below)

theorem Counts.succ {total answered : Nat} (counts : Counts p total answered) : Counts p (total + 1) (answered + 1) :=
  ⟨Nat.succ_le_succ counts.1, fun few => congrArg Nat.succ (counts.2 few)⟩

theorem Counts.missed {total answered : Nat} (counts : Counts p total answered) (many : ¬ p.cpus ≤ NCPU) :
    Counts p total (answered + 1) :=
  ⟨counts.1.trans (Nat.le_succ _), fun few => absurd few many⟩

/-- A CPU that is counted is one of the machine, and all are counted where there are no more than `NCPU`. -/
theorem counts_hist {i j cpu r : Nat} (inside : cpu < p.cpus)
    (counts : Counts p (∑ c ∈ Finset.range NCPU, s.hist j c) (if j < i then r + 1 else r)) :
    Counts p (∑ c ∈ Finset.range NCPU, (if (UInt8.ofNat cpu).toNat < NCPU then
      Function.update s.hist i (bump (s.hist i) (UInt8.ofNat cpu).toNat) else s.hist) j c)
      (if j ≤ i then r + 1 else r) := by
  rcases eq_or_ne j i with rfl | other
  · rw [if_neg (lt_irrefl j)] at counts
    rw [if_pos le_rfl]
    split
    case isTrue small =>
      rw [Function.update_self, sum_bump _ small]
      exact counts.succ
    case isFalse large =>
      apply counts.missed
      intro few
      apply large
      rw [UInt8.toNat_ofNat']
      exact (Nat.mod_le _ _).trans_lt (inside.trans_le few)
  · have same : (j ≤ i) ↔ j < i := ⟨fun least => lt_of_le_of_ne least other, le_of_lt⟩
    simp only [same]
    split
    · rw [Function.update_of_ne other]
      exact counts
    · exact counts

structure AfterKill (p : Params) (i : Nat) (next : WakerAt) : Prop where
  valid : next.Valid p
  fits : ∀ j < p.n, ∀ w : Wakee, (if j ≤ i then w.Ending true true else w = .idle) → next.Fits p j w
  answered : ∀ j, p.answered j next = p.answered j (.kill i)
  sent : p.sent next = p.sent (.kill i)
  rank : next.rank p < (WakerAt.kill i).rank p

theorem afterKill {i : Nat} (inside : i < p.n) : AfterKill p i (p.closeFrom (i + 1)) := by
  unfold Params.closeFrom
  split
  case isTrue more =>
    refine ⟨more, fun j _ w fits => ?_, fun _ => rfl, rfl, ?_⟩
    · simpa only [WakerAt.Fits, Nat.lt_succ_iff] using fits
    · simp only [WakerAt.rank]
      omega
  case isFalse last =>
    refine ⟨trivial, fun j below w fits => ?_, fun _ => rfl, rfl, ?_⟩
    · rwa [if_pos (by omega)] at fits
    · simp only [WakerAt.rank]
      omega

theorem read_step {r i : Nat} (inv : Inv p s) (here : s.waker = .read r i) {cpu : Nat} (inside : cpu < p.cpus)
    (own : s.wakees i = ⟨0, [UInt8.ofNat cpu], .read, false, false⟩) {s' : State}
    (moved : s' = { s.set i .idle with
      waker := p.turn r (i + 1)
      hist := if (UInt8.ofNat cpu).toNat < NCPU then
        Function.update s.hist i (bump (s.hist i) (UInt8.ofNat cpu).toNat) else s.hist }) :
    Inv p s' ∧ s'.rank p < s.rank p := by
  have valid := inv.valid
  have wakees := inv.wakees
  have answered := inv.answered
  have sent := inv.sent
  rw [here] at valid wakees answered sent
  have after := afterTurn valid.1 valid.2
  subst moved
  refine ⟨⟨after.valid, ?_, fun j below => ?_, sent.trans after.sent.symm⟩, ?_⟩
  · refine wakees_set wakees (after.idle i) fun j below other v fits => ?_
    simp only [WakerAt.Fits, if_neg other] at fits
    rw [fits]
    exact after.idle j
  · rw [after.answered j below]
    exact counts_hist inside (answered j below)
  · have total := rank_set (s := s) valid.1 .idle (p.turn r (i + 1))
    have falls := after.rank
    rw [own] at total
    simp only [State.rank, here, Wakee.rank, Wakee.idle] at total ⊢
    omega

/-- A step by which one wakee is set and no count changes. -/
theorem set_step {i : Nat} {w : Wakee} {next : WakerAt} (inv : Inv p s) (inside : i < p.n) (valid : next.Valid p)
    (own : next.Fits p i w) (others : ∀ j < p.n, j ≠ i → ∀ v, s.waker.Fits p j v → next.Fits p j v)
    (answered : ∀ j, p.answered j next = p.answered j s.waker) (sent : p.sent next = p.sent s.waker)
    (falls : next.rank p + w.rank < s.waker.rank p + (s.wakees i).rank) :
    Inv p { s.set i w with waker := next } ∧ { s.set i w with waker := next }.rank p < s.rank p := by
  refine ⟨⟨valid, wakees_set inv.wakees own others, fun j below => ?_, inv.sent.trans sent.symm⟩, ?_⟩
  · rw [answered j]
    exact inv.answered j below
  · have total := rank_set (s := s) inside w next
    simp only [State.rank] at total ⊢
    omega

theorem burn_step {r i : Nat} (inv : Inv p s) (here : s.waker = .burn r i) (cpu : Nat) {s' : State}
    (moved : s' = { s with waker := .write r i, wakerHist := bump s.wakerHist (cpu % NCPU) }) :
    Inv p s' ∧ s'.rank p < s.rank p := by
  have valid := inv.valid
  have wakees := inv.wakees
  have answered := inv.answered
  have sent := inv.sent
  rw [here] at valid wakees answered sent
  have left := left_pos valid.1 valid.2
  subst moved
  refine ⟨⟨valid, wakees, answered, ?_⟩, ?_⟩
  · rw [sum_bump _ (Nat.mod_lt _ (by decide)), sent]
    rfl
  · simp only [State.rank, here, WakerAt.rank]
    omega

theorem write_step {r i : Nat} (inv : Inv p s) (here : s.waker = .write r i) {s' : State}
    (moved : s' = { s.set i { s.wakees i with toPipe := (s.wakees i).toPipe + 1 } with waker := .read r i }) :
    Inv p s' ∧ s'.rank p < s.rank p := by
  have valid := inv.valid
  have wakees := inv.wakees
  rw [here] at valid wakees
  have idle : s.wakees i = .idle := wakees i valid.1
  have same : (WakerAt.read r i).Valid p := valid
  rw [moved, idle]
  apply set_step inv valid.1 same
  · simp only [WakerAt.Fits, if_true]
    exact .sent
  · intro j below other v fits
    rw [here] at fits
    simpa only [WakerAt.Fits, if_neg other] using fits
  · intro j
    rw [here]
    rfl
  · rw [here]
    rfl
  · rw [here, idle]
    simp only [WakerAt.rank, Wakee.rank, Wakee.idle]
    omega

theorem close_step {i : Nat} (inv : Inv p s) (here : s.waker = .close i) {s' : State}
    (moved : s' = { s.set i { s.wakees i with closed := true } with waker := .kill i }) :
    Inv p s' ∧ s'.rank p < s.rank p := by
  have valid := inv.valid
  have wakees := inv.wakees
  rw [here] at valid wakees
  have idle : s.wakees i = .idle := by simpa [WakerAt.Fits] using wakees i valid
  have same : (WakerAt.kill i).Valid p := valid
  rw [moved, idle]
  apply set_step inv valid same
  · simp only [WakerAt.Fits, lt_irrefl, if_false, if_true]
    exact .blocked
  · intro j below other v fits
    rw [here] at fits
    simpa only [WakerAt.Fits, if_neg other] using fits
  · intro j
    rw [here]
    rfl
  · rw [here]
    rfl
  · rw [here, idle]
    simp only [WakerAt.rank, Wakee.rank, Wakee.idle]
    omega

theorem kill_step {i : Nat} (inv : Inv p s) (here : s.waker = .kill i) {s' : State}
    (moved : s' = { s.set i { s.wakees i with killed := true } with waker := p.closeFrom (i + 1) }) :
    Inv p s' ∧ s'.rank p < s.rank p := by
  have valid := inv.valid
  have wakees := inv.wakees
  rw [here] at valid wakees
  have own : (s.wakees i).Ending true false := by simpa [WakerAt.Fits] using wakees i valid
  have after := afterKill valid
  rw [moved]
  apply set_step inv valid after.valid
  · apply after.fits i valid
    rw [if_pos le_rfl]
    generalize s.wakees i = w at own
    cases own with
    | blocked => exact .blocked
    | dead => exact .dead
  · intro j below other v fits
    rw [here] at fits
    apply after.fits j below
    have strict : j ≤ i ↔ j < i := ⟨fun least => lt_of_le_of_ne least other, le_of_lt⟩
    simp only [WakerAt.Fits, if_neg other] at fits
    simpa only [strict] using fits
  · intro j
    rw [here]
    exact after.answered j
  · rw [here]
    exact after.sent
  · rw [here]
    exact Nat.add_lt_add_right after.rank _

theorem wait_step (inv : Inv p s) (here : s.waker = .wait) (dead : ∀ j < p.n, (s.wakees j).here = .dead) {s' : State}
    (moved : s' = { s with waker := .finished }) : Inv p s' ∧ s'.rank p < s.rank p := by
  have wakees := inv.wakees
  have answered := inv.answered
  have sent := inv.sent
  rw [here] at wakees answered sent
  subst moved
  refine ⟨⟨trivial, fun j below => ?_, answered, sent⟩, ?_⟩
  · have gone := dead j below
    have ending : (s.wakees j).Ending true true := wakees j below
    cases own : s.wakees j with
    | mk toPipe back at_ closed killed =>
        rw [own] at ending gone
        cases ending with
        | blocked => cases gone
        | dead => rfl
  · simp only [State.rank, here, WakerAt.rank]
    omega

theorem waker_step {cpu : Nat} (inv : Inv p s) (moved : waker p cpu s = some s') : Inv p s' ∧ s'.rank p < s.rank p := by
  cases here : s.waker with
  | burn r i =>
      simp only [waker, here, Option.some.injEq] at moved
      exact burn_step inv here cpu moved.symm
  | write r i =>
      simp only [waker, here, Option.some.injEq] at moved
      exact write_step inv here moved.symm
  | read r i =>
      have fits : (s.wakees i).Asked p := by simpa [here, WakerAt.Fits] using inv.wakees i (here ▸ inv.valid).1
      cases own : s.wakees i with
      | mk toPipe back at_ closed killed =>
          rw [own] at fits
          cases fits with
          | sent | woken => simp [waker, here, own] at moved
          | answered inside =>
              simp only [waker, here, own, Option.some.injEq] at moved
              exact read_step inv here inside own moved.symm
  | close i =>
      simp only [waker, here, Option.some.injEq] at moved
      exact close_step inv here moved.symm
  | kill i =>
      simp only [waker, here, Option.some.injEq] at moved
      exact kill_step inv here moved.symm
  | wait =>
      simp only [waker, here, Option.ite_none_right_eq_some, List.all_eq_true, List.mem_range,
        decide_eq_true_eq, Option.some.injEq] at moved
      exact wait_step inv here moved.1 moved.2.symm
  | finished => simp [waker, here] at moved

/-! ## Every step -/

theorem closed_of_eof (eof : s.eof p j = true) : (s.wakees j).closed = true :=
  ((Bool.and_eq_true ..).mp eof).1

theorem wakee_set_step (inv : Inv p s) (inside : j < p.n) (fits : s.waker.Fits p j w)
    (falls : w.rank < (s.wakees j).rank) : Inv p (s.set j w) ∧ (s.set j w).rank p < s.rank p :=
  set_step inv inside inv.valid fits (fun _ _ _ _ same => same) (fun _ => rfl) rfl (Nat.add_lt_add_left falls _)

theorem step_spec (inv : Inv p s) {event : Event} (fired : Fires (step p) s event s') :
    Inv p s' ∧ s'.rank p < s.rank p := by
  cases event with
  | waker cpu =>
      obtain ⟨-, moved⟩ := Option.ite_none_right_eq_some.mp fired
      exact waker_step inv moved
  | wakee j cpu =>
      obtain ⟨⟨inside, machine⟩, fired⟩ := Option.ite_none_right_eq_some.mp fired
      obtain ⟨w, moved, rfl⟩ := Option.map_eq_some_iff.mp fired
      exact wakee_set_step inv inside ((inv.wakees j inside).wakee_step machine closed_of_eof moved) (wakee_rank moved)
  | die j =>
      obtain ⟨⟨inside, killed, alive⟩, moved⟩ := Option.ite_none_right_eq_some.mp fired
      cases moved
      refine wakee_set_step inv inside ((inv.wakees j inside).die killed) ?_
      cases here : (s.wakees j).here with
      | dead => exact absurd here alive
      | read | report => simp [Wakee.rank, here]

theorem ranks (p : Params) : Ranks (step p) (fun _ _ => true) (Inv p) (State.rank p) where
  keeps _ _ _ inv fired := (step_spec inv fired).1
  falls _ _ _ inv fired := (step_spec inv fired).2

theorem Inv.init (p : Params) : Inv p p.init := by
  have zero : ∑ c ∈ Finset.range NCPU, (0 : Nat) = 0 := Finset.sum_const_zero
  unfold Params.init Params.turn Params.closeFrom
  split_ifs with first second third
  · exact ⟨first, fun _ _ => rfl, fun _ _ => ⟨le_of_eq rfl, fun _ => rfl⟩, by simp [Params.sent]⟩
  · exact absurd ⟨second.1, by omega⟩ first
  · have none_ : p.rounds = 0 := by omega
    refine ⟨third, fun j _ => by simp [WakerAt.Fits, Wakee.idle], fun j _ => ?_, by simp [Params.sent, none_]⟩
    simp [Params.answered, none_, Counts]
  · have none_ : p.n = 0 := by omega
    refine ⟨trivial, fun j below => absurd below (by omega), fun j below => absurd below (by omega), ?_⟩
    simp [Params.sent, none_]

theorem rank_init (p : Params) : p.init.rank p ≤ 5 * (p.rounds * p.n) + 3 * p.n + 1 := by
  have idle : ∑ j ∈ Finset.range p.n, (p.init.wakees j).rank = p.n := by
    simp [Params.init, Wakee.rank]
  unfold State.rank
  rw [idle]
  unfold Params.init Params.turn Params.closeFrom
  split_ifs with first second third
  · simp only [WakerAt.rank, Nat.sub_zero]
    omega
  · exact absurd ⟨second.1, by omega⟩ first
  · simp only [WakerAt.rank]
    omega
  · simp only [WakerAt.rank]
    omega

/-! ## Somebody can go on -/

def GoesOn (p : Params) (s : State) : Prop := ∃ event after, Fires (step p) s event after

namespace GoesOn

theorem of_waker (moves : ∃ after, waker p 0 s = some after) : GoesOn p s := by
  obtain ⟨after, moved⟩ := moves
  exact ⟨.waker 0, after, (if_pos p.machine).trans moved⟩

theorem of_wakee (inside : j < p.n) (moves : ∃ w, wakee (s.eof p j) 0 (s.wakees j) = some w) : GoesOn p s := by
  obtain ⟨w, moved⟩ := moves
  refine ⟨.wakee j 0, s.set j w, ?_⟩
  rw [Fires, step, if_pos ⟨inside, p.machine⟩, moved]
  rfl

theorem of_asked {r i : Nat} (here : s.waker = .read r i) (inside : i < p.n) (asked : (s.wakees i).Asked p) :
    GoesOn p s := by
  cases own : s.wakees i with
  | mk toPipe back at_ closed killed =>
      rw [own] at asked
      cases asked with
      | sent => exact of_wakee inside ⟨_, by rw [own]; rfl⟩
      | woken => exact of_wakee inside ⟨_, by rw [own]; rfl⟩
      | answered cpu => exact of_waker ⟨_, by rw [waker, here]; dsimp only; rw [own]⟩

theorem of_wait (inv : Inv p s) (here : s.waker = .wait) : GoesOn p s := by
  have wakees := inv.wakees
  rw [here] at wakees
  by_cases all : ∀ j < p.n, (s.wakees j).here = .dead
  · refine of_waker ⟨{ s with waker := .finished }, ?_⟩
    rw [waker, here]
    exact if_pos (by simpa using all)
  · push Not at all
    obtain ⟨j, inside, alive⟩ := all
    have killed : (s.wakees j).killed = true := by
      have ending : (s.wakees j).Ending true true := wakees j inside
      generalize s.wakees j = w at ending
      cases ending <;> rfl
    exact ⟨.die j, _, if_pos ⟨inside, killed, alive⟩⟩

end GoesOn

theorem finished_or_goesOn (inv : Inv p s) : s.waker = .finished ∨ GoesOn p s := by
  have valid := inv.valid
  cases here : s.waker with
  | burn r i | write r i | close i | kill i => exact Or.inr (.of_waker ⟨_, by rw [waker, here]⟩)
  | read r i =>
      rw [here] at valid
      have asked : (s.wakees i).Asked p := by simpa [here, WakerAt.Fits] using inv.wakees i valid.1
      exact Or.inr (.of_asked here valid.1 asked)
  | wait => exact Or.inr (.of_wait inv here)
  | finished => exact Or.inl rfl

/-! ## What is under way -/

theorem Wakee.Asked.underWay (asked : w.Asked p) : w.underWay = 1 ∧ w.here ≠ .dead := by
  cases asked <;> simp [Wakee.underWay]

theorem Wakee.Ending.underWay {c k : Bool} (ending : w.Ending c k) : w.underWay = 0 := by
  cases ending <;> rfl

def WakerAt.readsFrom (j : Nat) : WakerAt → Nat
  | .read _ i => if j = i then 1 else 0
  | .burn _ _ | .write _ _ | .close _ | .kill _ | .wait | .finished => 0

theorem WakerAt.Fits.underWay (fits : here.Fits p j w) : w.underWay = here.readsFrom j := by
  cases here with
  | burn r i | write r i =>
      cases fits
      rfl
  | read r i =>
      simp only [WakerAt.Fits, WakerAt.readsFrom] at fits ⊢
      split_ifs at fits ⊢
      · exact fits.underWay.1
      · rw [fits]
        rfl
  | close i =>
      simp only [WakerAt.Fits] at fits
      split_ifs at fits
      · exact fits.underWay
      · rw [fits]
        rfl
  | kill i =>
      simp only [WakerAt.Fits] at fits
      split_ifs at fits
      · exact fits.underWay
      · exact fits.underWay
      · rw [fits]
        rfl
  | wait => exact Wakee.Ending.underWay fits
  | finished =>
      cases fits
      rfl

theorem Inv.underWay (inv : Inv p s) : ∑ j ∈ Finset.range p.n, (s.wakees j).underWay = s.waker.reading := by
  have each : ∀ j ∈ Finset.range p.n, (s.wakees j).underWay = s.waker.readsFrom j :=
    fun j inside => (inv.wakees j (Finset.mem_range.mp inside)).underWay
  rw [Finset.sum_congr rfl each]
  have valid := inv.valid
  cases here : s.waker with
  | read r i =>
      rw [here] at valid
      simp [WakerAt.readsFrom, WakerAt.reading, valid.1]
  | burn r i | write r i | close i | kill i | wait | finished => exact Finset.sum_const_zero

theorem lockstep_of_run {events : List Event} (run : Run (Fires (step p)) p.init events s) : Lockstep p events s := by
  have inv : Inv p s := run.invariant (Inv p) (.init p) (ranks p).keeps
  constructor
  · exact inv.underWay
  · exact fun j inside => (inv.answered j inside).1
  · exact fun few j inside => (inv.answered j inside).2 few
  · exact inv.sent
  · intro r i here
    have valid := inv.valid
    rw [here] at valid
    have asked : (s.wakees i).Asked p := by simpa [here, WakerAt.Fits] using inv.wakees i valid.1
    exact asked.underWay.2
  · intro here j inside
    have fits := inv.wakees j inside
    rw [here] at fits
    cases own : s.wakees j with
    | mk toPipe back at_ closed killed =>
        rw [own] at fits
        cases fits
        rfl
  · have spent := (ranks p).length_le (.init p) run
    have all := rank_init p
    omega
  · exact finished_or_goesOn inv

def pair : Params := ⟨2, 1, 8, by decide, by decide⟩

def rally : List Event :=
  [.waker 3, .waker 3, .wakee 0 5, .wakee 0 5, .waker 3, .waker 4, .waker 4, .wakee 1 6, .wakee 1 6, .waker 4,
    .waker 4, .waker 4, .die 0, .waker 4, .waker 4, .die 1, .waker 4]

def played : State := (rally.foldlM (step pair) pair.init).getD pair.init

theorem lockstep_of_run_played : played.waker = .finished ∧ (∑ c ∈ Finset.range NCPU, played.hist 1 c = 1) ∧
    (played.wakees 1).here = .dead := by
  have run : Run (Fires (step pair)) pair.init rally played := run_of_foldlM rfl
  have lockstep := lockstep_of_run run
  have ended : played.waker = .finished := rfl
  refine ⟨ended, ?_, lockstep.reaped ended 1 (by decide)⟩
  rw [lockstep.counted le_rfl 1 (by decide), ended]
  rfl

end LinuxInterview.WakeCpu
