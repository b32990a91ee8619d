import LinuxInterview.Library.Text

/-!
# Patterns of runs

A pattern is a row of repeated character classes, anchored at both ends. It is matched with
backtracking: every run is tried at its longest first.
-/

namespace LinuxInterview.Library

/-- A class of characters, repeated at least `least` and at most `most` times. -/
structure Piece where
  accepts : Char → Bool
  least : Nat
  most : Option Nat
  group : Bool

namespace Piece

def longest (p : Piece) (line : Text) : Nat :=
  match p.most with
  | some most => min most (line.takeWhile p.accepts).length
  | none => (line.takeWhile p.accepts).length

/-- The numbers of repetitions that are tried, in their order. -/
def lengths (p : Piece) (line : Text) : List Nat :=
  (List.range' p.least (p.longest line + 1 - p.least)).reverse

end Piece

/-- The groups of a match that ends where the line does, a line feed at its end aside. -/
def groups : List Piece → Text → Option (List Text)
  | [], line => if line = [] ∨ line = ['\n'] then some [] else none
  | p :: pieces, line => (p.lengths line).findSome? fun n =>
      (groups pieces (line.drop n)).map fun found =>
        if p.group then line.take n :: found else found

/-! ## What a piece can take -/

theorem Piece.longest_append {p : Piece} {run rest : Text} (unbounded : p.most = none)
    (accepted : ∀ c ∈ run, p.accepts c = true) (stop : ∀ c ∈ rest.head?, p.accepts c = false) :
    p.longest (run ++ rest) = run.length := by
  have whole : (run ++ rest).takeWhile p.accepts = run := by
    rw [List.takeWhile_append_of_pos accepted]
    cases rest with
    | nil => simp
    | cons c rest => simp [stop c (by simp)]
  simp [Piece.longest, unbounded, whole]

theorem Piece.le_of_mem_lengths {p : Piece} {line : Text} {n : Nat} (member : n ∈ p.lengths line) :
    p.least ≤ n ∧ n ≤ p.longest line := by
  simp only [Piece.lengths, List.mem_reverse, List.mem_range'_1] at member
  omega

theorem groups_longest {p : Piece} {pieces : List Piece} {line : Text} {found : List Text}
    (enough : p.least ≤ p.longest line)
    (rest : groups pieces (line.drop (p.longest line)) = some found) :
    groups (p :: pieces) line =
      some (if p.group then line.take (p.longest line) :: found else found) := by
  have first : p.lengths line =
      p.longest line :: (List.range' p.least (p.longest line - p.least)).reverse := by
    have count : p.longest line + 1 - p.least = p.longest line - p.least + 1 := by omega
    have last : p.least + 1 * (p.longest line - p.least) = p.longest line := by omega
    rw [Piece.lengths, count, List.range'_concat, List.reverse_append, last]
    rfl
  rw [groups, first, List.findSome?_cons, rest]
  rfl

theorem groups_run {p : Piece} {pieces : List Piece} {run rest : Text} {found : List Text}
    (unbounded : p.most = none) (accepted : ∀ c ∈ run, p.accepts c = true)
    (stop : ∀ c ∈ rest.head?, p.accepts c = false) (enough : p.least ≤ run.length)
    (after : groups pieces rest = some found) :
    groups (p :: pieces) (run ++ rest) = some (if p.group then run :: found else found) := by
  have length := Piece.longest_append unbounded accepted stop
  have tail : groups pieces ((run ++ rest).drop (p.longest (run ++ rest))) = some found := by
    rw [length, List.drop_left, after]
  have matched := groups_longest (by rw [length]; exact enough) tail
  rwa [length, List.take_left] at matched

theorem groups_eq_none {p : Piece} {pieces : List Piece} {line : Text}
    (fails : ∀ n, p.least ≤ n → n ≤ p.longest line → groups pieces (line.drop n) = none) :
    groups (p :: pieces) line = none := by
  rw [groups, List.findSome?_eq_none_iff]
  intro n member
  obtain ⟨enough, within⟩ := Piece.le_of_mem_lengths member
  rw [fails n enough within, Option.map_none]

theorem groups_eq_none_of_short {p : Piece} {pieces : List Piece} {line : Text}
    (short : p.longest line < p.least) : groups (p :: pieces) line = none :=
  groups_eq_none fun n enough within => absurd (enough.trans within) (by omega)

/-! ## Words between gaps -/

def blankRun : Piece := ⟨isBlank, 1, none, false⟩

def solidRun : Piece := ⟨fun c => !isBlank c, 1, none, true⟩

def digitRun : Piece := ⟨Char.isDigit, 1, none, true⟩

def blankEnd : Piece := ⟨isBlank, 0, none, false⟩

theorem groups_blankEnd {gap : Text} (blank : ∀ c ∈ gap, isBlank c = true) :
    groups [blankEnd] gap = some [] := by
  have nothing : ∀ c ∈ ([] : Text).head?, isBlank c = false := by simp
  have matched : groups [blankEnd] (gap ++ []) = some [] :=
    groups_run rfl blank nothing (Nat.zero_le _) rfl
  rwa [List.append_nil] at matched

theorem groups_gap_word {q : Piece} {pieces : List Piece} {gap word rest : Text} {found : List Text}
    (grouped : q.group = true) (unbounded : q.most = none) (one : q.least ≤ 1)
    (separated : gap ≠ []) (blank : ∀ c ∈ gap, isBlank c = true) (isWord : IsWord word)
    (accepted : ∀ c ∈ word, q.accepts c = true) (stop : ∀ c ∈ rest.head?, q.accepts c = false)
    (after : groups pieces rest = some found) :
    groups (blankRun :: q :: pieces) (gap ++ (word ++ rest)) = some (word :: found) := by
  have long : 1 ≤ word.length := List.length_pos_iff.mpr isWord.nonempty
  have inner := groups_run unbounded accepted stop (one.trans long) after
  rw [if_pos grouped] at inner
  have begins : ∀ c ∈ (word ++ rest).head?, isBlank c = false := by
    obtain ⟨c, tail, rfl⟩ := List.exists_cons_of_ne_nil isWord.nonempty
    intro d first
    obtain rfl : c = d := by simpa using first
    exact isWord.solid c List.mem_cons_self
  exact groups_run (p := blankRun) rfl blank begins (List.length_pos_iff.mpr separated) inner

end LinuxInterview.Library
