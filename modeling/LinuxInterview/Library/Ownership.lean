import Mathlib.Tactic

/-!
# Acquiring and releasing
-/

namespace LinuxInterview.Library

variable {ι : Type*} [DecidableEq ι]

def acquireAll (held : List ι) (owned : Finset ι) : Finset ι := held.foldl (fun owned x => insert x owned) owned

def releaseAll (freed : List ι) (owned : Finset ι) : Finset ι := freed.foldl Finset.erase owned

theorem acquireAll_append (first second : List ι) (owned : Finset ι) :
    acquireAll (first ++ second) owned = acquireAll second (acquireAll first owned) :=
  List.foldl_append

theorem releaseAll_append (first second : List ι) (owned : Finset ι) :
    releaseAll (first ++ second) owned = releaseAll second (releaseAll first owned) :=
  List.foldl_append

theorem mem_acquireAll {held : List ι} {owned : Finset ι} {x : ι} :
    x ∈ acquireAll held owned ↔ x ∈ held ∨ x ∈ owned := by
  induction held generalizing owned with
  | nil => simp [acquireAll]
  | cons y held ih =>
      rw [acquireAll, List.foldl_cons, ← acquireAll, ih, Finset.mem_insert, List.mem_cons]
      tauto

theorem mem_releaseAll {freed : List ι} {owned : Finset ι} {x : ι} :
    x ∈ releaseAll freed owned ↔ x ∈ owned ∧ x ∉ freed := by
  induction freed generalizing owned with
  | nil => simp [releaseAll]
  | cons y freed ih =>
      rw [releaseAll, List.foldl_cons, ← releaseAll, ih, Finset.mem_erase, List.mem_cons]
      tauto

/-- What is acquired anew and released, in whatever order, leaves no trace. -/
theorem releaseAll_acquireAll {held freed : List ι} {owned : Finset ι}
    (fresh : ∀ x ∈ held, x ∉ owned) (same : ∀ x, x ∈ freed ↔ x ∈ held) :
    releaseAll freed (acquireAll held owned) = owned := by
  ext x
  rw [mem_releaseAll, mem_acquireAll, same]
  constructor
  · rintro ⟨new | old, free⟩
    · exact absurd new free
    · exact old
  · intro old
    exact ⟨Or.inr old, fun new => fresh x new old⟩

theorem acquireAll_eq_self_iff {held : List ι} {owned : Finset ι} (fresh : ∀ x ∈ held, x ∉ owned) :
    acquireAll held owned = owned ↔ held = [] := by
  constructor
  · intro same
    rw [List.eq_nil_iff_forall_not_mem]
    intro x new
    exact fresh x new (same ▸ mem_acquireAll.mpr (Or.inl new))
  · rintro rfl
    rfl

theorem fresh_append {first second : List ι} {owned : Finset ι} (fresh : ∀ x ∈ first, x ∉ owned)
    (later : ∀ x ∈ second, x ∉ acquireAll first owned) : ∀ x ∈ first ++ second, x ∉ owned := by
  intro x new old
  rcases List.mem_append.mp new with early | late
  · exact fresh x early old
  · exact later x late (mem_acquireAll.mpr (Or.inr old))

end LinuxInterview.Library
