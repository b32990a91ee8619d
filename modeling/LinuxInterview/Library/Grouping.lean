import LinuxInterview.Library.History
import Mathlib.Data.List.TakeWhile

/-!
# Groups in the order of their first members

An ordered dictionary of lists: an entry goes to the end of the list of its key, and a new key to the
end of the dictionary.
-/

namespace LinuxInterview.Library

variable {κ α : Type*} [DecidableEq κ]

/-- `groups.setdefault(k, []).append(entry)`. -/
def addMember (k : κ) (entry : α) : List (κ × List α) → List (κ × List α)
  | [] => [(k, [entry])]
  | (other, members) :: rest =>
      if other = k then (other, members ++ [entry]) :: rest else (other, members) :: addMember k entry rest

def grouped (key : α → κ) (entries : List α) : List (κ × List α) :=
  entries.foldl (fun groups entry => addMember (key entry) entry groups) []

def ofKey (key : α → κ) (entries : List α) (k : κ) : List α := entries.filter fun entry => key entry = k

theorem addMember_fresh {k : κ} {entry : α} {groups : List (κ × List α)}
    (fresh : ∀ group ∈ groups, group.1 ≠ k) : addMember k entry groups = groups ++ [(k, [entry])] := by
  induction groups with
  | nil => rfl
  | cons group groups ih =>
      rw [List.forall_mem_cons] at fresh
      rw [addMember, if_neg fresh.1, ih fresh.2, List.cons_append]

theorem addMember_known {k : κ} {entry : α} {keys : List κ} {members : κ → List α}
    (distinct : keys.Nodup) (known : k ∈ keys) :
    addMember k entry (keys.map fun other => (other, members other)) =
      keys.map fun other => (other, members other ++ if other = k then [entry] else []) := by
  induction keys with
  | nil => cases known
  | cons other keys ih =>
      rw [List.nodup_cons] at distinct
      rw [List.map_cons, List.map_cons, addMember]
      by_cases here : other = k
      · have later : ∀ key ∈ keys, key ≠ k := fun key member =>
          ne_of_mem_of_not_mem member (here ▸ distinct.1)
        rw [if_pos here, if_pos here]
        congr 1
        apply List.map_congr_left
        intro key member
        rw [if_neg (later key member), List.append_nil]
      · have rest : k ∈ keys := (List.mem_cons.mp known).resolve_left (Ne.symm here)
        rw [if_neg here, if_neg here, List.append_nil, ih distinct.2 rest]

theorem grouped_append_singleton (key : α → κ) (entries : List α) (entry : α) :
    grouped key (entries ++ [entry]) = addMember (key entry) entry (grouped key entries) := by
  rw [grouped, List.foldl_append]
  rfl

theorem ofKey_append_singleton (key : α → κ) (entries : List α) (entry : α) (k : κ) :
    ofKey key (entries ++ [entry]) k = ofKey key entries k ++ if k = key entry then [entry] else [] := by
  rw [ofKey, List.filter_append, ofKey]
  congr 1
  by_cases here : key entry = k
  · simp [here]
  · simp [here, Ne.symm here]

theorem ofKey_eq_nil {key : α → κ} {entries : List α} {k : κ} (absent : k ∉ entries.map key) :
    ofKey key entries k = [] := by
  rw [ofKey, List.filter_eq_nil_iff]
  intro entry member same
  exact absent (of_decide_eq_true same ▸ List.mem_map_of_mem member)

/-- Each key has its group, and the groups stand in the order in which the keys first occur. -/
theorem grouped_eq (key : α → κ) (entries : List α) :
    grouped key entries = (firstKeys (entries.map key)).map fun k => (k, ofKey key entries k) := by
  induction entries using List.reverseRecOn with
  | nil => rfl
  | append_singleton entries entry ih =>
      rw [grouped_append_singleton, ih, List.map_append, List.map_singleton, firstKeys_append_singleton]
      simp only [ofKey_append_singleton]
      split
      · rename_i known
        exact addMember_known (nodup_firstKeys _) known
      · rename_i fresh
        have others : ∀ k ∈ firstKeys (entries.map key), k ≠ key entry := fun k member =>
          ne_of_mem_of_not_mem member fresh
        rw [addMember_fresh (List.forall_mem_map.mpr others), List.map_append, List.map_singleton, if_pos rfl]
        congr 1
        · apply List.map_congr_left
          intro k member
          rw [if_neg (others k member), List.append_nil]
        · rw [ofKey_eq_nil fun member => fresh (mem_firstKeys.mpr member), List.nil_append]

theorem exists_firstKeys_append (before after : List κ) :
    ∃ later, firstKeys (before ++ after) = firstKeys before ++ later := by
  induction after using List.reverseRecOn with
  | nil => exact ⟨[], by simp⟩
  | append_singleton after key ih =>
      obtain ⟨later, split⟩ := ih
      rw [← List.append_assoc, firstKeys_append_singleton, split]
      split
      · exact ⟨later, rfl⟩
      · exact ⟨later ++ [key], List.append_assoc _ _ _⟩

theorem exists_firstKeys_eq {before : List κ} {key : κ} (fresh : key ∉ before) (after : List κ) :
    ∃ later, firstKeys (before ++ key :: after) = firstKeys before ++ key :: later := by
  obtain ⟨later, split⟩ := exists_firstKeys_append (before ++ [key]) after
  rw [firstKeys_append_singleton, if_neg (fun known => fresh (mem_firstKeys.mp known)),
    List.append_assoc, List.append_assoc] at split
  exact ⟨later, split⟩

theorem exists_grouped_eq {key : α → κ} {before : List α} {first : α}
    (fresh : key first ∉ before.map key) (after : List α) : ∃ later, grouped key (before ++ first :: after) =
      (firstKeys (before.map key)).map (fun k => (k, ofKey key (before ++ first :: after) k)) ++
        (key first, ofKey key (before ++ first :: after) (key first)) :: later := by
  obtain ⟨later, keys⟩ := exists_firstKeys_eq fresh (after.map key)
  refine ⟨later.map fun k => (k, ofKey key (before ++ first :: after) k), ?_⟩
  rw [grouped_eq, List.map_append, List.map_cons, keys, List.map_append, List.map_cons]

theorem exists_first_of_key {key : α → κ} {entries : List α} {k : κ} (known : k ∈ entries.map key) :
    ∃ first after, entries = (entries.takeWhile fun entry => key entry ≠ k) ++ first :: after ∧
      key first = k := by
  induction entries with
  | nil => cases known
  | cons entry entries ih =>
      rw [List.takeWhile_cons]
      by_cases here : key entry = k
      · exact ⟨entry, entries, by simp [here], here⟩
      · have later : k ∈ entries.map key := (List.mem_cons.mp known).resolve_left (Ne.symm here)
        obtain ⟨first, after, split, same⟩ := ih later
        refine ⟨first, after, ?_, same⟩
        rw [if_pos (by simpa using here), List.cons_append, ← split]

theorem not_mem_takeWhile_key (key : α → κ) (entries : List α) (k : κ) :
    k ∉ (entries.takeWhile fun entry => key entry ≠ k).map key := by
  intro member
  obtain ⟨entry, inside, same⟩ := List.mem_map.mp member
  have other := List.mem_takeWhile_imp inside
  exact of_decide_eq_true other same

/-- The groups that come before the one of a key are those of the members before its first. -/
theorem exists_grouped_of_mem {key : α → κ} {entries : List α} {k : κ} (known : k ∈ entries.map key) :
    ∃ later, grouped key entries =
      (firstKeys ((entries.takeWhile fun entry => key entry ≠ k).map key)).map (fun j => (j, ofKey key entries j)) ++
        (k, ofKey key entries k) :: later := by
  have fresh := not_mem_takeWhile_key key entries k
  obtain ⟨first, after, split, rfl⟩ := exists_first_of_key known
  obtain ⟨later, order⟩ := exists_grouped_eq fresh after
  rw [← split] at order
  exact ⟨later, order⟩

end LinuxInterview.Library
