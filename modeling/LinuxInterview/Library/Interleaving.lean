import Mathlib.Tactic

/-!
# Cells among noise

A list of lines holds cells in their order, with lines of noise anywhere between them. What is read of
the lines up to a stop are the cells, or fewer.
-/

namespace LinuxInterview.Library

variable {α β : Type*}

inductive Interleaved (read : α → β) (Noise : α → Prop) : List β → List α → Prop
  | nil : Interleaved read Noise [] []
  | noise {line : α} {cells : List β} {lines : List α} (silent : Noise line)
      (rest : Interleaved read Noise cells lines) : Interleaved read Noise cells (line :: lines)
  | cell {line : α} {cells : List β} {lines : List α} (rest : Interleaved read Noise cells lines) :
      Interleaved read Noise (read line :: cells) (line :: lines)

namespace Interleaved
variable {read : α → β} {Noise : α → Prop} {keep : β → Bool} {stop : α → Bool} {cells : List β} {lines : List α}

theorem cell_of_eq {line : α} {cell : β} (same : read line = cell) (rest : Interleaved read Noise cells lines) :
    Interleaved read Noise (cell :: cells) (line :: lines) := same ▸ .cell rest

/-- The cells are read where no line stops the reading and no cell is taken for noise. -/
theorem read_eq (between : Interleaved read Noise cells lines)
    (dropped : ∀ line, Noise line → keep (read line) = false)
    (open_ : ∀ line ∈ lines, stop line = false) (kept : ∀ cell ∈ cells, keep cell = true) :
    ((lines.takeWhile fun line => !stop line).map read).filter keep = cells := by
  induction between with
  | nil => rfl
  | @noise line cells lines silent rest ih =>
      have later := ih (fun l member => open_ l (List.mem_cons_of_mem _ member)) kept
      rw [List.takeWhile_cons, open_ line List.mem_cons_self, Bool.not_false, if_pos rfl, List.map_cons,
        List.filter_cons, dropped line silent, if_neg Bool.false_ne_true, later]
  | @cell line cells lines rest ih =>
      have later := ih (fun l member => open_ l (List.mem_cons_of_mem _ member))
        fun c member => kept c (List.mem_cons_of_mem _ member)
      rw [List.takeWhile_cons, open_ line List.mem_cons_self, Bool.not_false, if_pos rfl, List.map_cons,
        List.filter_cons, kept _ List.mem_cons_self, if_pos rfl, later]

theorem read_length_le (between : Interleaved read Noise cells lines)
    (dropped : ∀ line, Noise line → keep (read line) = false) :
    (((lines.takeWhile fun line => !stop line).map read).filter keep).length ≤ cells.length := by
  induction between with
  | nil => exact le_rfl
  | @noise line cells lines silent rest ih =>
      rw [List.takeWhile_cons]
      split
      · rw [List.map_cons, List.filter_cons, dropped line silent, if_neg Bool.false_ne_true]
        exact ih
      · exact Nat.zero_le _
  | @cell line cells lines rest ih =>
      rw [List.takeWhile_cons]
      split
      · rw [List.map_cons, List.filter_cons]
        split
        · exact Nat.succ_le_succ ih
        · exact ih.trans (Nat.le_succ _)
      · exact Nat.zero_le _

/-- Otherwise fewer are read than there are. -/
theorem read_length_lt (between : Interleaved read Noise cells lines)
    (dropped : ∀ line, Noise line → keep (read line) = false)
    (passed : ∀ line, Noise line → stop line = false)
    (lost : ¬ ((∀ line ∈ lines, stop line = false) ∧ ∀ cell ∈ cells, keep cell = true)) :
    (((lines.takeWhile fun line => !stop line).map read).filter keep).length < cells.length := by
  induction between with
  | nil => simp at lost
  | @noise line cells lines silent rest ih =>
      have later : ¬ ((∀ l ∈ lines, stop l = false) ∧ ∀ cell ∈ cells, keep cell = true) := by
        rintro ⟨open_, kept⟩
        exact lost ⟨List.forall_mem_cons.mpr ⟨passed line silent, open_⟩, kept⟩
      rw [List.takeWhile_cons, passed line silent, Bool.not_false, if_pos rfl, List.map_cons,
        List.filter_cons, dropped line silent, if_neg Bool.false_ne_true]
      exact ih later
  | @cell line cells lines rest ih =>
      have atMost : (((lines.takeWhile fun line => !stop line).map read).filter keep).length ≤ cells.length :=
        read_length_le rest dropped
      rw [List.takeWhile_cons]
      split
      · rename_i goes
        rw [List.map_cons, List.filter_cons]
        split
        · rename_i kept
          refine Nat.succ_lt_succ (ih ?_)
          rintro ⟨open_, others⟩
          exact lost ⟨List.forall_mem_cons.mpr ⟨by simpa using goes, open_⟩,
            List.forall_mem_cons.mpr ⟨kept, others⟩⟩
        · exact Nat.lt_succ_of_le atMost
      · exact Nat.succ_pos _

end Interleaved

end LinuxInterview.Library
