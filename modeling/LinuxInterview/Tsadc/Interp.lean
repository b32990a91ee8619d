import Mathlib.Tactic
import LinuxInterview.Library.Interpolation

/-!
# `tsadc_compare.py`: a TSADC code as a temperature
-/

namespace LinuxInterview.Tsadc
open LinuxInterview.Library

abbrev Point := ℚ × ℚ

inductive ZeroDivisionError
  | byZero
  deriving DecidableEq, Repr

def TRM : List Point := [(220, -40), (285, 25), (345, 85), (385, 125)]

def DRV : List Point := [(215, -40), (285, 25), (350, 85), (395, 125)]

/-- The body of the loop over `zip(tab, tab[1:])`, and the `None` a function ends with. -/
def interpFrom (tab : List Point) (c : ℚ) : List (Point × Point) → Except ZeroDivisionError (Option ℚ)
  | [] => .ok none
  | ((c0, t0), (c1, t1)) :: pairs =>
      if c ≤ c1 ∨ some (c1, t1) = tab.getLast? then
        if c1 - c0 = 0 then .error .byZero
        else .ok (some (t0 + (c - c0) * (t1 - t0) / (c1 - c0)))
      else interpFrom tab c pairs

def interp (tab : List Point) (c : ℚ) : Except ZeroDivisionError (Option ℚ) :=
  interpFrom tab c (tab.zip tab.tail)

/-- Of an ascending table's points only the last equals `tab[-1]`. -/
theorem last_only {before after : List Point} {p q r : Point}
    (ascending : Ascending (before ++ p :: q :: r :: after)) :
    some q ≠ (before ++ p :: q :: r :: after).getLast? := by
  intro same
  have whole : before ++ p :: q :: r :: after = (before ++ [p, q]) ++ (r :: after) := by simp
  rw [whole, List.getLast?_append_of_ne_nil _ (List.cons_ne_nil _ _)] at same
  have later : q ∈ r :: after := List.mem_of_getLast? same.symm
  obtain ⟨between, beyond, split⟩ := List.append_of_mem later
  have tail : Ascending (q :: (between ++ q :: beyond)) := by
    rw [← split]
    exact (List.isChain_append_cons_cons.mp ascending).2.2
  exact lt_irrefl _ tail.below

theorem interpFrom_eq_polyline (before : List Point) {rest : List Point} {p q : Point}
    (ascending : Ascending (before ++ p :: q :: rest)) (c : ℚ) :
    interpFrom (before ++ p :: q :: rest) c ((p :: q :: rest).zip (q :: rest)) =
      .ok (some (polyline p q rest c)) := by
  have wide : q.1 - p.1 ≠ 0 := sub_ne_zero.mpr ascending.step.1.ne'
  induction rest generalizing before p q with
  | nil => simp [interpFrom, polyline, chord, wide]
  | cons r rest ih =>
      rw [List.zip_cons_cons, interpFrom]
      by_cases below : c ≤ q.1
      · rw [if_pos (.inl below), if_neg wide, polyline_of_le p q _ below, chord]
      · rw [if_neg (not_or.mpr ⟨below, last_only ascending⟩), polyline, if_neg below]
        have again : before ++ p :: q :: r :: rest = (before ++ [p]) ++ q :: r :: rest := by simp
        rw [again] at ascending ⊢
        exact ih _ ascending (sub_ne_zero.mpr ascending.step.1.ne')

theorem interp_eq_polyline {p q : Point} {rest : List Point} (ascending : Ascending (p :: q :: rest))
    (c : ℚ) : interp (p :: q :: rest) c = .ok (some (polyline p q rest c)) :=
  interpFrom_eq_polyline [] ascending c

theorem interp_is_increasing_polyline (tab : List Point) (two : 2 ≤ tab.length)
    (ascending : Ascending tab) :
    ∃ f : ℚ → ℚ, (∀ c, interp tab c = .ok (some (f c))) ∧ (∀ p ∈ tab, f p.1 = p.2) ∧ StrictMono f ∧
      (∀ p q after, tab = p :: q :: after → ∀ c ≤ q.1, f c = chord p q c) ∧
      (∀ before p q, tab = before ++ [p, q] → ∀ c, p.1 ≤ c → f c = chord p q c) ∧
      PiecewiseLinear tab f := by
  obtain ⟨p, q, rest, rfl⟩ : ∃ p q rest, tab = p :: q :: rest := by
    rcases tab with _ | ⟨p, _ | ⟨q, rest⟩⟩ <;> simp at two ⊢
  have linear := polyline_piecewiseLinear ascending
  refine ⟨polyline p q rest, interp_eq_polyline ascending, linear.passes two ascending,
    polyline_strictMono ascending, ?_, ?_, linear⟩
  · intro a b after whole c below
    exact linear [] a b after whole c (.inl rfl) (.inr below)
  · intro before a b whole c above
    exact linear before a b [] whole c (.inr above) (.inl rfl)

theorem interp_is_increasing_polyline_trm :
    2 ≤ TRM.length ∧ Ascending TRM ∧
      ∃ f : ℚ → ℚ, (∀ c, interp TRM c = .ok (some (f c))) ∧ StrictMono f ∧ f 285 = 25 := by
  have ascending : Ascending TRM := by
    norm_num [Ascending, TRM]
  obtain ⟨f, total, passes, increasing, -⟩ := interp_is_increasing_polyline TRM (by decide) ascending
  exact ⟨by decide, ascending, f, total, increasing, passes (285, 25) (by simp [TRM])⟩

end LinuxInterview.Tsadc
