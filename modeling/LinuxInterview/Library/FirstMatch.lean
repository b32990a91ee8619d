import Mathlib.Data.List.Forall2
import Mathlib.Tactic

namespace LinuxInterview.Library

variable {α β : Type*}

theorem findIdx?_eq_of_forall₂ {related : α → β → Prop} {p : α → Bool} {q : β → Bool}
    {xs : List α} {ys : List β} (table : List.Forall₂ related xs ys)
    (key : ∀ x y, related x y → p x = q y) : xs.findIdx? p = ys.findIdx? q := by
  induction table with
  | nil => rfl
  | cons head _ ih => simp only [List.findIdx?_cons, key _ _ head, ih]

theorem forall₂_getElem? {related : α → β → Prop} {xs : List α} {ys : List β}
    (table : List.Forall₂ related xs ys) {i : Nat} {x : α} (found : xs[i]? = some x) :
    ∃ y, ys[i]? = some y ∧ related x y := by
  induction table generalizing i with
  | nil => simp at found
  | cons head _ ih =>
      cases i with
      | zero =>
          simp only [List.getElem?_cons_zero, Option.some.injEq] at found
          subst found
          exact ⟨_, by simp, head⟩
      | succ i => simpa using ih (by simpa using found)

def FirstMatch (p : α → Bool) (good : α → Prop) (xs : List α) : Prop :=
  ∀ x, xs.find? p = some x → good x

/-- What a search by first match owes its caller: a good entry with the key, or no good entry has it. -/
def Answers (p : α → Bool) (good : α → Prop) (xs : List α) : Option Nat → Prop
  | some i => ∃ x, xs[i]? = some x ∧ p x = true ∧ good x
  | none => ∀ x ∈ xs, good x → p x = false

theorem answers_findIdx?_iff (p : α → Bool) (good : α → Prop) (xs : List α) :
    Answers p good xs (xs.findIdx? p) ↔ FirstMatch p good xs := by
  cases search : xs.findIdx? p with
  | none =>
      have absent := List.findIdx?_eq_none_iff.mp search
      constructor
      · intro _ x found
        have missing := absent x (List.mem_of_find?_eq_some found)
        rw [List.find?_some found] at missing
        contradiction
      · intro _ x member _
        exact absent x member
  | some i =>
      obtain ⟨bound, hit, earlier⟩ := List.findIdx?_eq_some_iff_getElem.mp search
      have found : xs.find? p = some xs[i] :=
        List.find?_eq_some_iff_getElem.mpr ⟨hit, i, bound, rfl, by simpa using earlier⟩
      constructor
      · rintro ⟨x, located, _, fine⟩ y first
        rw [List.getElem?_eq_getElem bound, Option.some.injEq] at located
        rw [found, Option.some.injEq] at first
        exact first ▸ located ▸ fine
      · intro first
        exact ⟨xs[i], List.getElem?_eq_getElem bound, hit, first _ found⟩

end LinuxInterview.Library
