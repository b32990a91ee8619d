import LinuxInterview.Library.History

/-!
# Computations that note what they read

The value of a computation over a memory, with the places it read on the way.
-/

namespace LinuxInterview.Library

structure Reading (π α : Type*) where
  value : α
  places : List π

namespace Reading
variable {π α β : Type*}

def done (value : α) : Reading π α := ⟨value, []⟩

def read (memory : π → α) (place : π) : Reading π α := ⟨memory place, [place]⟩

def andThen (first : Reading π α) (next : α → Reading π β) : Reading π β :=
  ⟨(next first.value).value, first.places ++ (next first.value).places⟩

def map (f : α → β) (reading : Reading π α) : Reading π β := ⟨f reading.value, reading.places⟩

/-- One reading after the other, for each element of a list. -/
def each {ι : Type*} (items : List ι) (body : ι → Reading π α) : Reading π (List α) :=
  ⟨items.map fun i => (body i).value, items.flatMap fun i => (body i).places⟩

@[simp] theorem value_done (value : α) : (done value : Reading π α).value = value := rfl
@[simp] theorem places_done (value : α) : (done value : Reading π α).places = [] := rfl
@[simp] theorem value_read (memory : π → α) (place : π) : (read memory place).value = memory place := rfl
@[simp] theorem places_read (memory : π → α) (place : π) : (read memory place).places = [place] := rfl
@[simp] theorem value_andThen (first : Reading π α) (next : α → Reading π β) :
    (first.andThen next).value = (next first.value).value := rfl
@[simp] theorem places_andThen (first : Reading π α) (next : α → Reading π β) :
    (first.andThen next).places = first.places ++ (next first.value).places := rfl
@[simp] theorem value_map (f : α → β) (reading : Reading π α) : (reading.map f).value = f reading.value := rfl
@[simp] theorem places_map (f : α → β) (reading : Reading π α) : (reading.map f).places = reading.places := rfl
@[simp] theorem value_each {ι : Type*} (items : List ι) (body : ι → Reading π α) :
    (each items body).value = items.map fun i => (body i).value := rfl

theorem mem_places_each {ι : Type*} {items : List ι} {body : ι → Reading π α} {place : π} :
    place ∈ (each items body).places ↔ ∃ i ∈ items, place ∈ (body i).places := List.mem_flatMap

/-! ## A search that stops at the first hit -/

/-- Looks at `remaining` places from the `i`-th on. -/
def search (memory : π → α) (place : Nat → π) (p : α → Bool) : (remaining i : Nat) → Reading π (Option α)
  | 0, _ => done none
  | remaining + 1, i =>
      (read memory (place i)).andThen fun entry =>
        if p entry then done (some entry) else search memory place p remaining (i + 1)

variable {memory : π → α} {place : Nat → π} {p : α → Bool}

theorem value_search (remaining i : Nat) : (search memory place p remaining i).value =
    ((List.range' i remaining).map fun k => memory (place k)).find? p := by
  induction remaining generalizing i with
  | zero => rfl
  | succ remaining ih =>
      rw [List.range'_succ, List.map_cons, List.find?_cons, search, value_andThen, value_read]
      cases p (memory (place i)) with
      | true => rfl
      | false => exact ih (i + 1)

theorem mem_places_search {remaining i : Nat} {q : π} : q ∈ (search memory place p remaining i).places ↔
    ∃ j < remaining, q = place (i + j) ∧ ∀ k < j, p (memory (place (i + k))) = false := by
  induction remaining generalizing i with
  | zero => simp [search]
  | succ remaining ih =>
      rw [search, places_andThen, places_read, List.mem_append, List.mem_singleton, value_read]
      constructor
      · rintro (rfl | later)
        · exact ⟨0, Nat.succ_pos _, rfl, fun k before => absurd before (Nat.not_lt_zero k)⟩
        · cases hit : p (memory (place i)) with
          | true => simp [hit] at later
          | false =>
              rw [hit, if_neg Bool.false_ne_true] at later
              obtain ⟨j, bound, rfl, missed⟩ := ih.mp later
              refine ⟨j + 1, by omega, by rw [Nat.add_right_comm, Nat.add_assoc], fun k before => ?_⟩
              cases k with
              | zero => exact hit
              | succ k =>
                  have earlier := missed k (by omega)
                  rwa [Nat.add_right_comm, Nat.add_assoc] at earlier
      · rintro ⟨j, bound, rfl, missed⟩
        cases j with
        | zero => exact Or.inl rfl
        | succ j =>
            have hit : p (memory (place i)) = false := missed 0 (Nat.succ_pos j)
            right
            rw [hit, if_neg Bool.false_ne_true]
            refine ih.mpr ⟨j, by omega, by rw [Nat.add_right_comm, Nat.add_assoc], fun k before => ?_⟩
            rw [Nat.add_right_comm, Nat.add_assoc]
            exact missed (k + 1) (by omega)

/-- A search reads only the first `room` places exactly when there are no more, or one of them is a hit. -/
theorem search_within_iff {n room : Nat} :
    (∀ i < n, (∀ k < i, p (memory (place k)) = false) → i < room) ↔
      n ≤ room ∨ ∃ i < room, p (memory (place i)) = true := by
  constructor
  · intro within
    by_contra outside
    push Not at outside
    obtain ⟨long, missed⟩ := outside
    exact lt_irrefl room (within room long fun k before => by simpa using missed k before)
  · rintro (short | ⟨hit, inside, holds⟩) i bound missed
    · exact bound.trans_le short
    · by_contra beyond
      have earlier := missed hit (by omega)
      rw [holds] at earlier
      cases earlier

end Reading

end LinuxInterview.Library
