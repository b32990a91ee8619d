import LinuxInterview.BarrierSb.Slots

/-!
# What the two threads can see of each other

A load gives 1 exactly if it is performed after the store of the other side.
-/

namespace LinuxInterview.BarrierSb
open Library

variable {n : Nat} {mode : Mode} {events : List (Side × At)} {s : State}

def Side.other : Side → Side
  | .t0 => .t1
  | .t1 => .t0

def Side.mine : Side → Nat → Loc
  | .t0 => .x
  | .t1 => .y

theorem access_eq (t : Side) : (threads n mode).access t = loop n mode t.mine t.other.mine := by
  cases t <;> rfl

theorem mine_inj {t t' : Side} {i j : Nat} : t.mine i = t'.mine j ↔ t = t' ∧ i = j := by
  cases t <;> cases t' <;> simp [Side.mine]

theorem access_store {i : Nat} (inside : i < n) (t : Side) :
    (threads n mode).access t ⟨i, .store⟩ = some (.store mode.order (t.mine i) 1) := by
  rw [access_eq]
  exact if_pos inside

theorem access_load {i : Nat} (inside : i < n) (t : Side) :
    (threads n mode).access t ⟨i, .load⟩ = some (.load mode.order (t.other.mine i)) := by
  rw [access_eq]
  exact if_pos inside

theorem access_barrier {i : Nat} (inside : i < n) (t : Side) :
    (threads n mode).access t ⟨i, .barrier⟩ = if mode = .dmb then some .fence else none := by
  rw [access_eq]
  exact if_pos inside

theorem access_none {k : At} (outside : ¬ k.i < n) (t : Side) : (threads n mode).access t k = none := by
  rw [access_eq]
  exact if_neg outside

theorem store_unique {t t' : Side} {i : Nat} {k : At} {order : MemOrder} {w : Int}
    (stores : (threads n mode).access t k = some (.store order (t'.mine i) w)) : (t, k) = (t', ⟨i, .store⟩) := by
  by_cases inside : k.i < n
  · obtain ⟨j, part⟩ := k
    cases part with
    | store =>
        rw [access_store inside] at stores
        simp only [Option.some.injEq, MemAccess.store.injEq, mine_inj] at stores
        obtain ⟨-, ⟨rfl, rfl⟩, -⟩ := stores
        rfl
    | barrier =>
        rw [access_barrier inside] at stores
        split at stores <;> simp at stores
    | load =>
        rw [access_load inside] at stores
        simp at stores
  · rw [access_none inside] at stores
    cases stores

theorem in_slot {p q : Part} {i : Nat} (order : p.index < q.index) : At.before ⟨i, p⟩ ⟨i, q⟩ :=
  .inr ⟨rfl, order⟩

theorem seen {before after : List (Side × At)} {t : Side} {i : Nat} (inside : i < n)
    (run : Runs n mode (before ++ (t, ⟨i, .load⟩) :: after) s) :
    s.r t i = if (t.other, ⟨i, .store⟩) ∈ before then 1 else 0 := by
  obtain ⟨middle, earlier, loaded⟩ := Threads.loaded_eq run (access_load inside t)
  rw [State.r, loaded, Threads.memory_eq (e := (t.other, ⟨i, .store⟩)) earlier ⟨_, access_store inside _⟩
    fun f order w stores => store_unique stores]
  simp [Threads.performed_iff earlier]

/-! ## What a barrier rules out -/

/-- With a barrier in any of the two forms a thread's load waits for its store. -/
theorem store_first {before after : List (Side × At)} {t : Side} {i : Nat} (inside : i < n)
    (barrier : mode ≠ .none) (run : Runs n mode (before ++ (t, ⟨i, .load⟩) :: after) s) :
    (t, ⟨i, .store⟩) ∈ before := by
  cases mode with
  | none => contradiction
  | dmb =>
      have fenced : (t, ⟨i, .barrier⟩) ∈ before :=
        Threads.kept run (access_barrier inside t) (access_load inside t) (in_slot (by decide)) rfl
      obtain ⟨first, second, rfl⟩ := List.mem_iff_append.mp fenced
      rw [List.append_assoc, List.cons_append] at run
      exact List.mem_append_left _
        (Threads.kept run (access_store inside t) (access_barrier inside t) (in_slot (by decide)) rfl)
  | seqcst =>
      exact Threads.kept run (access_store inside t) (access_load inside t) (in_slot (by decide)) rfl

theorem seen_later {before middle after : List (Side × At)} {t : Side} {i : Nat} (inside : i < n)
    (barrier : mode ≠ .none)
    (run : Runs n mode (before ++ (t, ⟨i, .load⟩) :: (middle ++ (t.other, ⟨i, .load⟩) :: after)) s) :
    s.r t.other i = 1 := by
  have first := store_first inside barrier run
  rw [← List.cons_append, ← List.append_assoc] at run
  rw [seen inside run, if_pos]
  cases t <;> exact List.mem_append_left _ first

theorem not_both_zero {i : Nat} (inside : i < n) (barrier : mode ≠ .none) (run : Runs n mode events s)
    (joined : Joined n mode s) : ¬ (s.r .t0 i = 0 ∧ s.r .t1 i = 0) := by
  have loads (t : Side) : (t, ⟨i, .load⟩) ∈ events := by
    rw [← Threads.performed_iff run]
    exact joined t _ (by simp [access_load inside])
  rintro ⟨zero, zero'⟩
  obtain ⟨before, after, rfl⟩ := List.mem_iff_append.mp (loads .t0)
  rcases List.mem_append.mp (loads .t1) with earlier | later
  · obtain ⟨first, middle, rfl⟩ := List.mem_iff_append.mp earlier
    rw [List.append_assoc, List.cons_append] at run
    exact absurd ((seen_later inside barrier run).symm.trans zero) one_ne_zero
  · rcases List.mem_cons.mp later with same | later
    · cases same
    · obtain ⟨middle, after, rfl⟩ := List.mem_iff_append.mp later
      exact absurd ((seen_later inside barrier run).symm.trans zero') one_ne_zero

/-! ## What the two threads can do -/

def Part.There (mode : Mode) (p : Part) : Prop := p ≠ .barrier ∨ mode = .dmb

instance (mode : Mode) (p : Part) : Decidable (p.There mode) := inferInstanceAs (Decidable (_ ∨ _))

theorem access_ne_none {t : Side} {k : At} :
    (threads n mode).access t k ≠ none ↔ k.i < n ∧ k.part.There mode := by
  by_cases inside : k.i < n
  · obtain ⟨i, part⟩ := k
    cases part with
    | store => simp [access_store inside, inside, Part.There]
    | barrier => simp [access_barrier inside, inside, Part.There]
    | load => simp [access_load inside, inside, Part.There]
  · simp [access_none inside, inside]

/-- Whether `r0` and whether `r1` ends at 1. -/
abbrev Outcome := Bool × Bool

def Outcome.saw (o : Outcome) : Side → Bool
  | .t0 => o.1
  | .t1 => o.2

def Mode.Allows (mode : Mode) (o : Outcome) : Prop := mode = .none ∨ o ≠ (false, false)

instance (mode : Mode) (o : Outcome) : Decidable (mode.Allows o) := inferInstanceAs (Decidable (_ ∨ _))

/-- An order of one slot's accesses with the outcome. -/
def Outcome.order : Outcome → List (Side × Part)
  | (false, false) => [(.t0, .load), (.t1, .load), (.t0, .store), (.t1, .store)]
  | (false, true) =>
      [(.t0, .store), (.t0, .barrier), (.t0, .load), (.t1, .store), (.t1, .barrier), (.t1, .load)]
  | (true, false) =>
      [(.t1, .store), (.t1, .barrier), (.t1, .load), (.t0, .store), (.t0, .barrier), (.t0, .load)]
  | (true, true) =>
      [(.t0, .store), (.t1, .store), (.t0, .barrier), (.t1, .barrier), (.t0, .load), (.t1, .load)]

def script (mode : Mode) (o : Outcome) : List (Side × Part) := o.order.filter fun e => e.2.There mode

instance : Fintype Mode := ⟨{.none, .dmb, .seqcst}, by rintro (_ | _ | _) <;> decide⟩

instance : Fintype Side := ⟨{.t0, .t1}, by rintro (_ | _) <;> decide⟩

instance : Fintype Part := ⟨{.store, .barrier, .load}, by rintro (_ | _ | _) <;> decide⟩

theorem script_nodup (mode : Mode) (o : Outcome) : (script mode o).Nodup := by
  revert mode o
  decide

section
variable {o : Outcome} (allowed : mode.Allows o)
include allowed

theorem mem_script {t : Side} {p : Part} : (t, p) ∈ script mode o ↔ p.There mode := by
  revert mode o t p
  decide

theorem script_ordered {t : Side} {p q : Part} (barrier : mode ≠ .none) (there : p.There mode)
    (there' : q.There mode) (order : p.index < q.index) :
    (script mode o).idxOf (t, p) < (script mode o).idxOf (t, q) := by
  revert mode o t p q
  decide

theorem script_saw {t : Side} :
    (script mode o).idxOf (t.other, .store) < (script mode o).idxOf (t, .load) ↔ o.saw t = true := by
  revert mode o t
  decide

end

def inSlot (i : Nat) (e : Side × Part) : Side × At := (e.1, ⟨i, e.2⟩)

/-- The slots' orders one after the other. -/
def performing (mode : Mode) (o : Nat → Outcome) : Nat → List (Side × At)
  | 0 => []
  | k + 1 => performing mode o k ++ (script mode (o k)).map (inSlot k)

variable {o : Nat → Outcome}

theorem mem_inSlot {i : Nat} {l : List (Side × Part)} {e : Side × At} :
    e ∈ l.map (inSlot i) ↔ e.2.i = i ∧ (e.1, e.2.part) ∈ l := by
  rw [List.mem_map]
  constructor
  · rintro ⟨f, member, rfl⟩
    exact ⟨rfl, member⟩
  · rintro ⟨rfl, member⟩
    exact ⟨_, member, rfl⟩

theorem mem_performing (allowed : ∀ i, mode.Allows (o i)) {k : Nat} {e : Side × At} :
    e ∈ performing mode o k ↔ e.2.i < k ∧ e.2.part.There mode := by
  induction k with
  | zero => simp [performing]
  | succ k ih =>
      rw [performing, List.mem_append, ih, mem_inSlot, mem_script (allowed k), ← or_and_right]
      exact and_congr_left' Nat.lt_succ_iff_lt_or_eq.symm

theorem performing_split (mode : Mode) (o : Nat → Outcome) {k : Nat} (inside : k ≤ n) :
    ∃ rest, performing mode o n = performing mode o k ++ rest := by
  induction n, inside using Nat.le_induction with
  | base => exact ⟨[], by simp⟩
  | succ n _ ih =>
      obtain ⟨rest, split⟩ := ih
      exact ⟨rest ++ _, by rw [performing, split, List.append_assoc]⟩

/-- In a list without repetitions the elements before `a` are those of a smaller index. -/
theorem mem_before {α : Type} [BEq α] [LawfulBEq α] {before after : List α} {a b : α}
    (nodup : (before ++ a :: after).Nodup) (member : b ∈ before ++ a :: after) :
    b ∈ before ↔ (before ++ a :: after).idxOf b < (before ++ a :: after).idxOf a := by
  have fresh : a ∉ before := fun inside => (List.nodup_append.mp nodup).2.2 a inside a (by simp) rfl
  rw [List.idxOf_append_of_notMem fresh, List.idxOf_cons_self, Nat.add_zero,
    ← List.mem_take_iff_idxOf_lt member, List.take_left' rfl]

theorem not_kept {i : Nat} {t : Side} {p q : Part} {a b : MemAccess Loc Int}
    (first : (threads n .none).access t ⟨i, q⟩ = some b) (second : (threads n .none).access t ⟨i, p⟩ = some a)
    (order : q.index < p.index) : b.keeps a = false := by
  have inside : i < n := (access_ne_none.mp (Option.ne_none_iff_exists'.mpr ⟨a, second⟩)).1
  cases q with
  | store =>
      cases p with
      | store => cases order
      | barrier => simp [access_barrier inside] at second
      | load =>
          rw [access_store inside] at first
          rw [access_load inside] at second
          cases first
          cases second
          cases t <;> simp [MemAccess.keeps, MemAccess.place, Mode.order, Side.mine, Side.other]
  | barrier => simp [access_barrier inside] at first
  | load =>
      cases p <;> simp [Part.index] at order

theorem runs_performing (allowed : ∀ i, mode.Allows (o i)) {k : Nat} (inside : k ≤ n) :
    ∃ s, Runs n mode (performing mode o k) s := by
  induction k with
  | zero => exact ⟨_, .nil⟩
  | succ k ih =>
      obtain ⟨s, earlier⟩ := ih (Nat.le_of_succ_le inside)
      apply Threads.extend earlier
      intro before e after split
      obtain ⟨before, rest, parts, rfl, rest_eq⟩ := List.map_eq_append_iff.mp split
      obtain ⟨⟨t, p⟩, after, rfl, rfl, rfl⟩ := List.map_eq_cons_iff.mp rest_eq
      have nodup := script_nodup mode (o k)
      have there : (t, p) ∈ script mode (o k) := by simp [parts]
      rw [mem_script (allowed k)] at there
      constructor
      · rw [List.mem_append, mem_performing allowed, mem_inSlot]
        rintro (⟨earlier, -⟩ | ⟨-, again⟩)
        · exact Nat.lt_irrefl k earlier
        · rw [parts] at nodup
          exact (List.nodup_append.mp nodup).2.2 _ again _ List.mem_cons_self rfl
      · obtain ⟨a, here⟩ := Option.ne_none_iff_exists'.mp (access_ne_none (k := ⟨k, p⟩) |>.mpr ⟨inside, there⟩)
        refine ⟨a, here, ?_⟩
        rintro ⟨j, q⟩ b first (lower | ⟨rfl, order⟩) keeps
        · apply List.mem_append_left
          rw [mem_performing allowed]
          exact ⟨lower, (access_ne_none.mp (Option.ne_none_iff_exists'.mpr ⟨b, first⟩)).2⟩
        · have barrier : mode ≠ .none := by
            rintro rfl
            exact absurd keeps (by simp [not_kept first here order])
          have there' := (access_ne_none.mp (Option.ne_none_iff_exists'.mpr ⟨b, first⟩)).2
          have earlier := script_ordered (allowed j) (t := t) barrier there' there order
          have member := (mem_script (allowed j) (t := t)).mpr there'
          rw [parts] at nodup earlier member
          exact List.mem_append_right _ (mem_inSlot.mpr ⟨rfl, (mem_before nodup member).mpr earlier⟩)

theorem saw_of_run (allowed : ∀ i, mode.Allows (o i)) (run : Runs n mode (performing mode o n) s) {t : Side}
    {i : Nat} (inside : i < n) : s.r t i = if (o i).saw t then 1 else 0 := by
  obtain ⟨rest, split⟩ := performing_split mode o (Nat.succ_le_of_lt inside)
  have load : (t, Part.load) ∈ script mode (o i) := (mem_script (allowed i)).mpr (.inl (by decide))
  have store : (t.other, Part.store) ∈ script mode (o i) := (mem_script (allowed i)).mpr (.inl (by decide))
  have nodup := script_nodup mode (o i)
  have order := script_saw (allowed i) (t := t)
  obtain ⟨before, after, parts⟩ := List.mem_iff_append.mp load
  rw [parts] at store nodup order
  rw [split, performing, parts, List.map_append, List.map_cons, List.append_assoc, List.append_assoc,
    ← List.append_assoc] at run
  rw [seen inside run]
  apply if_congr _ rfl rfl
  rw [List.mem_append, mem_performing allowed, mem_inSlot]
  exact Iff.trans (by simp) ((mem_before nodup store).trans order)

theorem joined_of_run (allowed : ∀ i, mode.Allows (o i)) (run : Runs n mode (performing mode o n) s) :
    Joined n mode s := by
  intro t k there
  rw [Threads.performed_iff run, mem_performing allowed]
  exact access_ne_none.mp there

/-! ## What `main` prints -/

def Counts.total (c : Counts) : Nat := c.n00 + c.n01 + c.n10 + c.n11

def Counts.addOutcome (c : Counts) (o : Outcome) : Counts :=
  c.add (if o.1 then 1 else 0) (if o.2 then 1 else 0)

theorem Counts.total_add (c : Counts) (p q : Int) : (c.add p q).total = c.total + 1 := by
  unfold Counts.add Counts.total
  split
  · simp only
    omega
  · split
    · simp only
      omega
    · split <;> simp only <;> omega

theorem Counts.n00_add (c : Counts) {p q : Int} (some_one : ¬ (p = 0 ∧ q = 0)) : (c.add p q).n00 = c.n00 := by
  rw [Counts.add, if_neg some_one]
  split
  · rfl
  · split <;> rfl

theorem total_foldl (l : List Nat) (c : Counts) :
    (l.foldl (fun c i => c.add (s.r .t0 i) (s.r .t1 i)) c).total = c.total + l.length := by
  induction l generalizing c with
  | nil => rfl
  | cons i l ih =>
      rw [List.foldl_cons, ih, Counts.total_add, List.length_cons]
      omega

theorem n00_foldl {l : List Nat} (some_one : ∀ i ∈ l, ¬ (s.r .t0 i = 0 ∧ s.r .t1 i = 0)) (c : Counts) :
    (l.foldl (fun c i => c.add (s.r .t0 i) (s.r .t1 i)) c).n00 = c.n00 := by
  induction l generalizing c with
  | nil => rfl
  | cons i l ih =>
      rw [List.foldl_cons, ih fun j member => some_one j (List.mem_cons_of_mem i member),
        Counts.n00_add c (some_one i List.mem_cons_self)]

theorem total_count (c : Counts) (s : State) : (count n c s).total = c.total + n := by
  rw [count, total_foldl, List.length_range]

theorem n00_count (barrier : mode ≠ .none) (run : Runs n mode events s) (joined : Joined n mode s) (c : Counts) :
    (count n c s).n00 = c.n00 :=
  n00_foldl (fun _ member => not_both_zero (List.mem_range.mp member) barrier run joined) c

theorem total_rounds (ends : List State) (c : Counts) :
    (ends.foldl (count n) c).total = c.total + n * ends.length := by
  induction ends generalizing c with
  | nil => rfl
  | cons s ends ih => rw [List.foldl_cons, ih, total_count, List.length_cons, Nat.mul_succ, Nat.add_right_comm,
      Nat.add_assoc]

theorem n00_rounds {ends : List State} (barrier : mode ≠ .none)
    (finished : ∀ s ∈ ends, (∃ events, Runs n mode events s) ∧ Joined n mode s) (c : Counts) :
    (ends.foldl (count n) c).n00 = c.n00 := by
  induction ends generalizing c with
  | nil => rfl
  | cons s ends ih =>
      obtain ⟨⟨events, run⟩, joined⟩ := finished s List.mem_cons_self
      rw [List.foldl_cons, ih fun s member => finished s (List.mem_cons_of_mem _ member),
        n00_count barrier run joined]

/-- Every list of outcomes that the mode allows is the end of a round. -/
theorem round_of_outcomes {os : List Outcome} (allowed : ∀ o ∈ os, mode.Allows o) (c : Counts) :
    ∃ s, ((∃ events, Runs os.length mode events s) ∧ Joined os.length mode s) ∧
      count os.length c s = os.foldl Counts.addOutcome c := by
  have every (i : Nat) : mode.Allows (os.getD i (true, true)) := by
    rcases Nat.lt_or_ge i os.length with inside | outside
    · rw [List.getD_eq_getElem?_getD, List.getElem?_eq_getElem inside]
      exact allowed _ (List.getElem_mem inside)
    · rw [List.getD_eq_getElem?_getD, List.getElem?_eq_none outside]
      exact .inr (by decide)
  obtain ⟨s, run⟩ := runs_performing every (Nat.le_refl os.length)
  refine ⟨s, ⟨⟨_, run⟩, joined_of_run every run⟩, ?_⟩
  have whole : (List.range os.length).map (fun i => os.getD i (true, true)) = os := by
    apply List.ext_getElem
    · simp
    · intro i _ inside
      simp [inside]
  rw [count]
  conv_rhs => rw [← whole, List.foldl_map]
  apply List.foldl_ext
  intro c i member
  have inside := List.mem_range.mp member
  rw [saw_of_run every run inside, saw_of_run every run inside]
  rfl

theorem rounds_of_outcomes {rep : Nat} {os : List Outcome} (size : os.length = n * rep)
    (allowed : ∀ o ∈ os, mode.Allows o) (c : Counts) :
    ∃ ends : List State, ends.length = rep ∧
      (∀ s ∈ ends, (∃ events, Runs n mode events s) ∧ Joined n mode s) ∧
      ends.foldl (count n) c = os.foldl Counts.addOutcome c := by
  induction rep generalizing os c with
  | zero =>
      rw [Nat.mul_zero, List.length_eq_zero_iff] at size
      subst size
      exact ⟨[], rfl, by simp, rfl⟩
  | succ rep ih =>
      have first : (os.take n).length = n := by
        rw [List.length_take, size, Nat.mul_succ]
        omega
      obtain ⟨s, finished, counted⟩ := round_of_outcomes (fun o member => allowed o (List.mem_of_mem_take member)) c
      rw [first] at finished counted
      have remaining : (os.drop n).length = n * rep := by
        rw [List.length_drop, size, Nat.mul_succ, Nat.add_sub_cancel]
      obtain ⟨ends, rounds, later, rest⟩ := ih remaining
        (fun o member => allowed o (List.mem_of_mem_drop member)) (count n c s)
      refine ⟨s :: ends, by rw [List.length_cons, rounds], List.forall_mem_cons.mpr ⟨finished, later⟩, ?_⟩
      rw [List.foldl_cons, rest, counted, ← List.foldl_append, List.take_append_drop]

theorem foldl_replicate (c : Counts) (o : Outcome) (m : Nat) :
    (List.replicate m o).foldl Counts.addOutcome c = match o with
      | (false, false) => { c with n00 := c.n00 + m }
      | (false, true) => { c with n01 := c.n01 + m }
      | (true, false) => { c with n10 := c.n10 + m }
      | (true, true) => { c with n11 := c.n11 + m } := by
  induction m generalizing c with
  | zero => obtain ⟨_ | _, _ | _⟩ := o <;> rfl
  | succ m ih =>
      rw [List.replicate_succ, List.foldl_cons, ih]
      obtain ⟨_ | _, _ | _⟩ := o <;> simp [Counts.addOutcome, Counts.add] <;> omega

/-- The numbers that can be printed are those that add up, in which only an unfenced run can count slots with
both loads at 0. -/
theorem main_prints_iff (n rep : Nat) (mode : Mode) (c : Counts) :
    Prints n rep mode c ↔ c.n00 + c.n01 + c.n10 + c.n11 = n * rep ∧ (mode ≠ .none → c.n00 = 0) := by
  constructor
  · rintro ⟨ends, rfl, finished, rfl⟩
    refine ⟨?_, fun barrier => n00_rounds barrier finished _⟩
    exact (total_rounds ends .zero).trans (Nat.zero_add _)
  · rintro ⟨total, barrier⟩
    have size : (List.replicate c.n00 (false, false) ++ List.replicate c.n01 (false, true) ++
        List.replicate c.n10 (true, false) ++ List.replicate c.n11 (true, true)).length = n * rep := by
      simp only [List.length_append, List.length_replicate]
      exact total
    have allowed : ∀ o ∈ List.replicate c.n00 (false, false) ++ List.replicate c.n01 (false, true) ++
        List.replicate c.n10 (true, false) ++ List.replicate c.n11 (true, true), mode.Allows o := by
      intro o member
      by_cases unfenced : mode = .none
      · exact .inl unfenced
      · rw [barrier unfenced] at member
        simp only [List.replicate_zero, List.nil_append, List.mem_append, List.mem_replicate] at member
        apply Or.inr
        rintro rfl
        simp at member
    obtain ⟨ends, rounds, finished, counted⟩ := rounds_of_outcomes size allowed .zero
    refine ⟨ends, rounds, finished, counted.trans ?_⟩
    simp [List.foldl_append, foldl_replicate, Counts.zero]

end LinuxInterview.BarrierSb
