import Mathlib.Tactic

/-!
# Exceptions and byte strings of the scripts
-/

namespace LinuxInterview.Library

inductive PyError
  | structError
  | osError
  | indexError
  | keyError
  | typeError
  | valueError
  | csvError
  deriving DecidableEq, Repr

abbrev Bytes := List (BitVec 8)

/-- `struct.unpack('>%dI' % (len(b) // 4), b)`, which insists on whole words. -/
def unpackWords : Bytes → Except PyError (List Nat)
  | [] => .ok []
  | a :: b :: c :: d :: rest => do
      let words ← unpackWords rest
      return (a ++ b ++ c ++ d).toNat :: words
  | _ => .error .structError

theorem bind_eq_ok_iff {ε α β : Type} {first : Except ε α} {next : α → Except ε β} {result : β} :
    (first >>= next) = .ok result ↔ ∃ value, first = .ok value ∧ next value = .ok result := by
  cases first with
  | error e => simp [bind, Except.bind]
  | ok value => simp [bind, Except.bind]

theorem mapM_ok {ε α β : Type} {f : α → Except ε β} {g : α → β} (total : ∀ x, f x = .ok (g x)) (xs : List α) :
    xs.mapM f = .ok (xs.map g) := by
  induction xs with
  | nil => rfl
  | cons x xs ih =>
      rw [List.mapM_cons, total, ih]
      rfl

theorem mapM_eq_ok_iff {ε α β : Type} {f : α → Except ε β} {inputs : List α} {outputs : List β} :
    inputs.mapM f = .ok outputs ↔ List.Forall₂ (fun x y => f x = .ok y) inputs outputs := by
  induction inputs generalizing outputs with
  | nil => simp [pure, Except.pure, eq_comm]
  | cons x inputs ih =>
      rw [List.mapM_cons, bind_eq_ok_iff, List.forall₂_cons_left_iff]
      constructor
      · rintro ⟨y, first, later⟩
        obtain ⟨rest, mapped, collected⟩ := bind_eq_ok_iff.mp later
        cases collected
        exact ⟨y, rest, first, ih.mp mapped, rfl⟩
      · rintro ⟨y, rest, first, later, rfl⟩
        exact ⟨y, first, bind_eq_ok_iff.mpr ⟨rest, ih.mpr later, rfl⟩⟩

theorem exists_of_mem_mapM {ε α β : Type} {f : α → Except ε β} {inputs : List α} {outputs : List β}
    (mapped : inputs.mapM f = .ok outputs) : ∀ y ∈ outputs, ∃ x ∈ inputs, f x = .ok y := by
  induction inputs generalizing outputs with
  | nil =>
      cases mapped
      simp
  | cons x inputs ih =>
      rw [List.mapM_cons] at mapped
      obtain ⟨y, first, mapped⟩ := bind_eq_ok_iff.mp mapped
      obtain ⟨rest, later, collected⟩ := bind_eq_ok_iff.mp mapped
      cases collected
      intro z member
      rcases List.mem_cons.mp member with rfl | inside
      · exact ⟨x, List.mem_cons_self, first⟩
      · obtain ⟨w, earlier, same⟩ := ih later z inside
        exact ⟨w, List.mem_cons_of_mem x earlier, same⟩

theorem foldlM_toDigits {base : Nat} {digit : Char → Except PyError Nat} (large : 1 < base)
    (reads : ∀ d < base, digit (Nat.digitChar d) = .ok d) (n : Nat) :
    (Nat.toDigits base n).foldlM (fun n c => return base * n + (← digit c)) 0 =
      (.ok n : Except PyError Nat) := by
  induction n using Nat.strongRecOn with
  | ind n ih =>
      rw [Nat.toDigits_eq_if large]
      split
      · rename_i small
        simp [reads n small]
      · rename_i many
        have high := ih (n / base) (Nat.div_lt_self (by omega) large)
        have low := reads (n % base) (Nat.mod_lt n (by omega))
        have whole : base * (n / base) + n % base = n := Nat.div_add_mod n base
        rw [List.foldlM_append, high]
        simp only [bind, Except.bind, List.foldlM_cons, List.foldlM_nil, low, pure, Except.pure]
        rw [whole]

end LinuxInterview.Library
