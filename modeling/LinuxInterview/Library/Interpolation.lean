import Mathlib.Tactic

/-!
# Interpolation

A table of points is read as the function that runs straight between neighbours, and on along its outer
segments.
-/

namespace LinuxInterview.Library

variable {K : Type*} [Field K] [LinearOrder K]

def chord (p q : K × K) (c : K) : K := p.2 + (c - p.1) * (q.2 - p.2) / (q.1 - p.1)

def Ascending (table : List (K × K)) : Prop :=
  table.IsChain fun p q => p.1 < q.1 ∧ p.2 < q.2

instance (table : List (K × K)) : Decidable (Ascending table) :=
  inferInstanceAs (Decidable (table.IsChain fun p q => p.1 < q.1 ∧ p.2 < q.2))

/-- On each segment the function is its chord, and the outer segments have no far end. -/
def PiecewiseLinear (table : List (K × K)) (f : K → K) : Prop :=
  ∀ before p q after, table = before ++ p :: q :: after → ∀ c,
    (before = [] ∨ p.1 ≤ c) → (after = [] ∨ c ≤ q.1) → f c = chord p q c

def polyline (p q : K × K) : List (K × K) → K → K
  | [], c => chord p q c
  | r :: rest, c => if c ≤ q.1 then chord p q c else polyline q r rest c

omit [LinearOrder K] in
@[simp] theorem chord_left (p q : K × K) : chord p q p.1 = p.2 := by
  simp [chord]

theorem chord_right {p q : K × K} (apart : p.1 < q.1) : chord p q q.1 = q.2 := by
  have wide : q.1 - p.1 ≠ 0 := sub_ne_zero.mpr apart.ne'
  rw [chord, mul_div_assoc, mul_div_cancel₀ _ wide, add_sub_cancel]

theorem polyline_of_le (p q : K × K) (rest : List (K × K)) {c : K} (below : c ≤ q.1) :
    polyline p q rest c = chord p q c := by
  cases rest with
  | nil => rfl
  | cons r rest => exact if_pos below

/-- At the joint both segments give the joint. -/
theorem polyline_of_ge {p q : K × K} (apart : p.1 < q.1) (r : K × K) (rest : List (K × K)) {c : K}
    (above : q.1 ≤ c) (next : q.1 < r.1) : polyline p q (r :: rest) c = polyline q r rest c := by
  rcases above.lt_or_eq with beyond | rfl
  · exact if_neg beyond.not_ge
  · rw [polyline_of_le p q _ le_rfl, polyline_of_le q r _ next.le, chord_right apart, chord_left]

omit [Field K] in
theorem Ascending.below {p q : K × K} {before after : List (K × K)}
    (ascending : Ascending (p :: (before ++ q :: after))) : p.1 < q.1 := by
  have steps : (p :: (before ++ q :: after)).IsChain fun p q => p.1 < q.1 :=
    ascending.imp fun _ _ => And.left
  have pairs := List.isChain_iff_pairwise.mp steps
  exact List.rel_of_pairwise_cons pairs (List.mem_append_right _ List.mem_cons_self)

theorem polyline_piecewiseLinear {p q : K × K} {rest : List (K × K)}
    (ascending : Ascending (p :: q :: rest)) : PiecewiseLinear (p :: q :: rest) (polyline p q rest) := by
  induction rest generalizing p q with
  | nil =>
      intro before a b after whole c _ _
      cases before with
      | nil =>
          obtain ⟨rfl, rfl, -⟩ : p = a ∧ q = b ∧ _ := by simpa using whole
          rfl
      | cons first before => cases before <;> simp at whole
  | cons r rest ih =>
      obtain ⟨⟨right, -⟩, later⟩ := List.isChain_cons_cons.mp ascending
      have next := (List.isChain_cons_cons.mp later).1.1
      intro before a b after whole c above below
      cases before with
      | nil =>
          obtain ⟨rfl, rfl, rfl⟩ : p = a ∧ q = b ∧ r :: rest = after := by simpa using whole
          exact polyline_of_le p q _ (below.resolve_left (List.cons_ne_nil _ _))
      | cons first before =>
          have tail : q :: r :: rest = before ++ a :: b :: after := (List.cons.inj whole).2
          have fromLeft : a.1 ≤ c := above.resolve_left (List.cons_ne_nil _ _)
          have fromHere : q.1 ≤ c := by
            cases before with
            | nil => exact (List.cons.inj tail).1 ▸ fromLeft
            | cons second before =>
                obtain ⟨rfl, -⟩ := List.cons.inj tail
                rw [tail, List.cons_append] at later
                exact (Ascending.below later).le.trans fromLeft
          rw [polyline_of_ge right r rest fromHere next]
          exact ih later before a b after tail c (.inr fromLeft) below

/-! ## What a piecewise linear function does -/

omit [Field K] in
theorem Ascending.step {p q : K × K} {before after : List (K × K)}
    (ascending : Ascending (before ++ p :: q :: after)) : p.1 < q.1 ∧ p.2 < q.2 :=
  (List.isChain_append_cons_cons.mp ascending).2.1

theorem PiecewiseLinear.passes {table : List (K × K)} {f : K → K} (linear : PiecewiseLinear table f)
    (two : 2 ≤ table.length) (ascending : Ascending table) : ∀ p ∈ table, f p.1 = p.2 := by
  intro p member
  obtain ⟨before, after, rfl⟩ := List.append_of_mem member
  cases after with
  | cons q after =>
      have ahead := ascending.step.1
      rw [linear before p q after rfl p.1 (.inr le_rfl) (.inr ahead.le), chord_left]
  | nil =>
      induction before using List.reverseRecOn with
      | nil => simp at two
      | append_singleton before o _ =>
          rw [List.append_assoc, List.singleton_append] at ascending
          have behind := ascending.step.1
          rw [linear before o p [] (List.append_assoc _ _ _) p.1 (.inr behind.le) (.inl rfl),
            chord_right behind]

variable [IsStrictOrderedRing K]

theorem chord_strictMono {p q : K × K} (right : p.1 < q.1) (up : p.2 < q.2) :
    StrictMono (chord p q) := by
  intro c d below
  apply add_lt_add_right
  apply div_lt_div_of_pos_right _ (sub_pos.mpr right)
  exact mul_lt_mul_of_pos_right (sub_lt_sub_right below _) (sub_pos.mpr up)

theorem polyline_strictMono {p q : K × K} {rest : List (K × K)}
    (ascending : Ascending (p :: q :: rest)) : StrictMono (polyline p q rest) := by
  induction rest generalizing p q with
  | nil =>
      obtain ⟨⟨right, up⟩, -⟩ := List.isChain_cons_cons.mp ascending
      exact chord_strictMono right up
  | cons r rest ih =>
      obtain ⟨⟨right, up⟩, later⟩ := List.isChain_cons_cons.mp ascending
      have next := (List.isChain_cons_cons.mp later).1.1
      intro c d below
      rcases le_total d q.1 with left | beyond
      · rw [polyline_of_le p q _ left, polyline_of_le p q _ (below.le.trans left)]
        exact chord_strictMono right up below
      · rw [polyline_of_ge right r rest beyond next]
        rcases le_or_gt q.1 c with passed | before
        · rw [polyline_of_ge right r rest passed next]
          exact ih later below
        · calc polyline p q (r :: rest) c
              = chord p q c := polyline_of_le p q _ before.le
            _ < chord p q q.1 := chord_strictMono right up before
            _ = q.2 := chord_right right
            _ = polyline q r rest q.1 := by rw [polyline_of_le q r _ next.le, chord_left]
            _ ≤ polyline q r rest d := (ih later).monotone beyond

end LinuxInterview.Library
