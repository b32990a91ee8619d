import Mathlib.Tactic

/-!
# Keys and last values of a history
-/

namespace LinuxInterview.Library

variable {κ α : Type*} [DecidableEq κ]

def firstKeys (keys : List κ) : List κ :=
  keys.foldl (fun known key => if key ∈ known then known else known ++ [key]) []

theorem firstKeys_append_singleton (keys : List κ) (key : κ) :
    firstKeys (keys ++ [key]) =
      if key ∈ firstKeys keys then firstKeys keys else firstKeys keys ++ [key] := by
  rw [firstKeys, List.foldl_append]
  rfl

theorem firstKeys_spec (keys : List κ) :
    (firstKeys keys).Nodup ∧ ∀ key, key ∈ firstKeys keys ↔ key ∈ keys := by
  induction keys using List.reverseRecOn with
  | nil => exact ⟨List.nodup_nil, fun _ => Iff.rfl⟩
  | append_singleton keys last ih =>
      obtain ⟨distinct, mem⟩ := ih
      rw [firstKeys_append_singleton]
      split
      · rename_i known
        refine ⟨distinct, fun key => ?_⟩
        rw [mem, List.mem_append, List.mem_singleton]
        constructor
        · exact Or.inl
        · rintro (earlier | rfl)
          · exact earlier
          · exact (mem key).mp known
      · rename_i fresh
        refine ⟨List.concat_eq_append ▸ distinct.concat fresh, fun key => ?_⟩
        rw [List.mem_append, List.mem_append, mem]

theorem mem_firstKeys {keys : List κ} {key : κ} : key ∈ firstKeys keys ↔ key ∈ keys :=
  (firstKeys_spec keys).2 key

theorem nodup_firstKeys (keys : List κ) : (firstKeys keys).Nodup := (firstKeys_spec keys).1

def latest (p : α → Bool) (history : List α) : Option α := history.reverse.find? p

theorem latest_append_singleton (p : α → Bool) (history : List α) (last : α) :
    latest p (history ++ [last]) = if p last then some last else latest p history := by
  simp only [latest, List.reverse_append, List.reverse_singleton, List.singleton_append, List.find?_cons]
  cases p last <;> rfl

theorem latest_spec {p : α → Bool} {history : List α} {last : α} (found : latest p history = some last) :
    last ∈ history ∧ p last = true :=
  ⟨List.mem_reverse.mp (List.mem_of_find?_eq_some found), List.find?_some found⟩

theorem latest_append_cons {p : α → Bool} {before after : List α} {entry last : α}
    (holds : p entry = true) (found : latest p (before ++ entry :: after) = some last) :
    last = entry ∨ last ∈ after := by
  rw [latest, List.reverse_append, List.reverse_cons, List.append_assoc, List.find?_append] at found
  cases later : after.reverse.find? p with
  | none =>
      rw [later] at found
      simp only [Option.none_or, List.cons_append, List.nil_append, List.find?_cons, holds] at found
      exact Or.inl (Option.some.inj found).symm
  | some l =>
      rw [later, Option.some_or] at found
      cases found
      exact Or.inr (List.mem_reverse.mp (List.mem_of_find?_eq_some later))

theorem latest_eq_none_iff {p : α → Bool} {history : List α} :
    latest p history = none ↔ ∀ entry ∈ history, p entry = false := by
  simp [latest]

/-- A store after a history of writes to its keys. -/
def written {β : Type*} (key : α → κ) (value : α → β) (history : List α) : κ → Option β :=
  history.foldl (fun store entry => Function.update store (key entry) (some (value entry))) fun _ => none

theorem written_eq_latest {β : Type*} (key : α → κ) (value : α → β) (history : List α) (k : κ) :
    written key value history k = (latest (fun entry => key entry = k) history).map value := by
  induction history using List.reverseRecOn with
  | nil => rfl
  | append_singleton history last ih =>
      rw [latest_append_singleton, written, List.foldl_append, List.foldl_cons, List.foldl_nil]
      by_cases here : key last = k
      · rw [here, Function.update_self]
        simp
      · rw [Function.update_of_ne (Ne.symm here)]
        rw [← written, ih, if_neg (by simpa using here)]

/-! ## A history that is given by its positions -/

/-- The position of the first of `n` entries that satisfy `p`. -/
def FirstAt (p : α → Bool) (entry : Nat → α) (n i : Nat) : Prop :=
  i < n ∧ p (entry i) = true ∧ ∀ k < i, p (entry k) = false

def LastAt (p : α → Bool) (entry : Nat → α) (n j : Nat) : Prop :=
  j < n ∧ p (entry j) = true ∧ ∀ k < n, j < k → p (entry k) = false

theorem find?_of_firstAt {p : α → Bool} {entry : Nat → α} {n i : Nat} (first : FirstAt p entry n i) :
    ((List.range n).map entry).find? p = some (entry i) := by
  obtain ⟨inside, holds, earlier⟩ := first
  have found : (List.range n).find? (p ∘ entry) = some i := by
    rw [List.find?_range_eq_some]
    exact ⟨holds, List.mem_range.mpr inside, fun k before => by simp [earlier k before]⟩
  rw [List.find?_map, found, Option.map_some]

theorem latest_of_lastAt {p : α → Bool} {entry : Nat → α} {n j : Nat} (last : LastAt p entry n j) :
    latest p ((List.range n).map entry) = some (entry j) := by
  obtain ⟨inside, holds, later⟩ := last
  induction n with
  | zero => omega
  | succ n ih =>
      rw [List.range_succ, List.map_append, List.map_singleton, latest_append_singleton]
      by_cases here : j = n
      · rw [← here, if_pos holds]
      · rw [if_neg (by simpa using later n (by omega) (by omega))]
        exact ih (by omega) fun k bound => later k (by omega)

theorem exists_firstAt {p : α → Bool} {entry : Nat → α} {n k : Nat} (inside : k < n)
    (holds : p (entry k) = true) : ∃ i ≤ k, FirstAt p entry n i := by
  have some_ : ∃ i, p (entry i) = true := ⟨k, holds⟩
  refine ⟨Nat.find some_, Nat.find_le holds, (Nat.find_le holds).trans_lt inside, Nat.find_spec some_, ?_⟩
  intro i before
  simpa using Nat.find_min some_ before

theorem exists_lastAt {p : α → Bool} {entry : Nat → α} {n k : Nat} (inside : k < n)
    (holds : p (entry k) = true) : ∃ j, LastAt p entry n j := by
  induction n with
  | zero => omega
  | succ n ih =>
      by_cases here : p (entry n) = true
      · exact ⟨n, Nat.lt_succ_self n, here, fun i bound after => by omega⟩
      · have before : k ≠ n := by
          rintro rfl
          exact here holds
        obtain ⟨j, bound, found, later⟩ := ih (by omega)
        refine ⟨j, by omega, found, fun i limit after => ?_⟩
        by_cases last : i = n
        · rw [last]
          simpa using here
        · exact later i (by omega) after

theorem exists_split_of_filterMap {β : Type*} {f : α → Option β} {history : List α} {earlier since : List β}
    (heard : history.filterMap f = earlier ++ since) :
    ∃ before after, history = before ++ after ∧ before.filterMap f = earlier ∧ after.filterMap f = since ∧
      (before = [] ∨ ∃ init entry last, before = init ++ [entry] ∧ earlier.getLast? = some last ∧
        f entry = some last) := by
  rcases List.eq_nil_or_concat earlier with rfl | ⟨init, last, rfl⟩
  · exact ⟨[], history, rfl, rfl, heard, Or.inl rfl⟩
  · rw [List.concat_eq_append, List.append_assoc] at heard
    obtain ⟨first, rest, split, firstHeard, restHeard⟩ := List.filterMap_eq_append_iff.mp heard
    obtain ⟨silent, entry, after, restSplit, nothing, found, afterHeard⟩ :=
      List.filterMap_eq_cons_iff.mp restHeard
    have unheard : silent.filterMap f = [] := List.filterMap_eq_nil_iff.mpr nothing
    refine ⟨first ++ silent ++ [entry], after, ?_, ?_, afterHeard,
      Or.inr ⟨first ++ silent, entry, last, rfl, by simp, found⟩⟩
    · rw [split, restSplit, List.append_assoc, List.append_assoc]
      rfl
    · simp [firstHeard, unheard, found]

end LinuxInterview.Library
