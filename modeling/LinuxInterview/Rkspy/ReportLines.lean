import LinuxInterview.Rkspy.Verdicts

/-!
# The lines that `exp05_tiling.py` prints

The verdict of a layer is read back from the words of its line: the first two name the layer, and the
last is `OK` where the sum is right. No other line starts with a number.
-/

namespace LinuxInterview.Rkspy
open Library

def tabulate (cells : List (Nat × Text)) : Text :=
  [' '].intercalate (cells.map fun (width, cell) => padLeft width ' ' cell) ++ [' ', ' ']

def Verdict.line (v : Verdict) : Text :=
  tabulate [(4, decimal v.op), (5, decimal v.W), (4, decimal v.kh), (4, decimal v.sy), (4, decimal v.n),
    (6, decimal v.total), (5, decimal v.overlap), (8, decimal v.base)] ++
  if v.good then "OK".toList else "MISS (期望 ".toList ++ decimal v.W ++ ")".toList

namespace Report

def heading : Text :=
  tabulate [(4, "op".toList), (5, "W".toList), (4, "k_h".toList), (4, "s_y".toList), (4, "片數".toList),
    (6, "加總".toList), (5, "重疊".toList), (8, "扣掉重疊".toList)] ++ "判定".toList

def otherLine (entry : Nat × Nat × List Nat) : Text :=
  "  op".toList ++ decimal entry.1 ++ " W=".toList ++ decimal entry.2.1 ++ " 片數=".toList ++
    decimal entry.2.2.length ++ " 片高都是 ".toList ++ decimal (entry.2.2.headD 0)

def summary (r : Report) : List Text :=
  [[], "按列切的層：命中 ".toList ++ decimal r.ok ++ "/".toList ++ decimal (r.ok + r.bad)] ++
  if r.other = [] then []
  else ("另有 ".toList ++ decimal r.other.length ++
    " 層每片都是整張高，不是按列切（切法未解）：".toList) :: r.other.map otherLine

end Report

def Printout.lines (p : Printout) : List Text :=
  Report.heading :: p.report.verdicts.map Verdict.line ++
    if p.raised = none then p.report.summary else []

/-- The line gives the layer of that operation and width as right. -/
def SaysOk (op W : Nat) (line : Text) : Prop :=
  (words line).take 2 = [decimal op, decimal W] ∧ (words line).getLast? = some "OK".toList

/-! ## The words of a line -/

theorem words_tabulate_append {cells : List (Nat × Text)} (solid : ∀ cell ∈ cells, IsWord cell.2)
    (rest : Text) : words (tabulate cells ++ rest) = cells.map Prod.snd ++ words rest := by
  have gap : ∀ c ∈ [' ', ' '], isBlank c = true := isBlank_of_mem_fill (n := 2)
  induction cells with
  | nil => exact words_blanks_append gap rest
  | cons cell cells ih =>
      obtain ⟨width, word⟩ := cell
      rw [List.forall_mem_cons] at solid
      rw [List.map_cons, List.cons_append]
      cases cells with
      | nil =>
          have line : tabulate [(width, word)] ++ rest = fill (width - word.length) ++ (word ++ [' ', ' '] ++ rest) := by
            simp [tabulate, padLeft, fill]
          rw [line, words_blanks_append isBlank_of_mem_fill, words_word_append solid.1 (by simp) gap]
          rfl
      | cons next cells =>
          have line : tabulate ((width, word) :: next :: cells) ++ rest =
              fill (width - word.length) ++ (word ++ [' '] ++ (tabulate (next :: cells) ++ rest)) := by
            simp [tabulate, padLeft, fill]
          rw [line, words_blanks_append isBlank_of_mem_fill, words_word_blank solid.1, ih solid.2]

variable {op W : Nat}

/-- The line of a layer starts with a number. -/
theorem not_saysOk_of_start (gap : Text) {rest : Text} {c : Char} (blank : ∀ d ∈ gap, isBlank d = true)
    (solid : isBlank c = false) (noDigit : c.isDigit = false) {line : Text} (split : line = gap ++ c :: rest) :
    ¬ SaysOk op W line := by
  rintro ⟨named, _⟩
  obtain ⟨word, others, first⟩ := words_cons_solid solid rest
  rw [split, words_blanks_append blank, first, List.take_succ_cons, List.cons.injEq] at named
  have digit : c.isDigit = true := by
    apply Nat.isDigit_of_mem_toDigits (b := 10) (n := op) (by decide) (by decide)
    change c ∈ decimal op
    rw [← named.1]
    exact List.mem_cons_self
  rw [digit] at noDigit
  contradiction

theorem words_line (v : Verdict) : words v.line =
    [decimal v.op, decimal v.W, decimal v.kh, decimal v.sy, decimal v.n, decimal v.total, decimal v.overlap,
      decimal v.base] ++
    if v.good then ["OK".toList] else ["MISS".toList, "(期望".toList, decimal v.W ++ [')']] := by
  rw [Verdict.line, words_tabulate_append (by simp [isWord_decimal])]
  congr 1
  split
  · exact words_word (by decide)
  · have split : "MISS (期望 ".toList ++ decimal v.W ++ ")".toList =
        "MISS".toList ++ [' '] ++ ("(期望".toList ++ [' '] ++ (decimal v.W ++ [')'])) := by simp
    rw [split, words_word_blank (by decide), words_word_blank (by decide),
      words_word ((isWord_decimal v.W).append (by decide))]

theorem saysOk_line_iff {v : Verdict} : SaysOk op W v.line ↔ v.op = op ∧ v.W = W ∧ v.good = true := by
  rw [SaysOk, words_line]
  have named : [decimal v.op, decimal v.W] = [decimal op, decimal W] ↔ v.op = op ∧ v.W = W := by
    simp [decimal_natCast_inj]
  rw [← and_assoc, ← named]
  apply and_congr Iff.rfl
  cases v.good with
  | true => simp
  | false =>
      refine iff_of_false ?_ (by simp)
      intro ends
      have bracket := congrArg (Option.map (·.getLast?)) ends
      simp at bracket

theorem not_saysOk_heading : ¬ SaysOk op W Report.heading :=
  not_saysOk_of_start (fill 2) (c := 'o') isBlank_of_mem_fill (by decide) (by decide) rfl

theorem not_saysOk_summary (r : Report) : ∀ line ∈ r.summary, ¬ SaysOk op W line := by
  rw [Report.summary, List.forall_mem_append]
  constructor
  · rw [List.forall_mem_cons, List.forall_mem_singleton]
    constructor
    · rintro ⟨named, _⟩
      rw [words_nil] at named
      cases named
    · exact not_saysOk_of_start (fill 0) (c := '按') isBlank_of_mem_fill (by decide) (by decide) rfl
  · split
    · exact List.forall_mem_nil _
    · rw [List.forall_mem_cons, List.forall_mem_map]
      constructor
      · exact not_saysOk_of_start (fill 0) (c := '另') isBlank_of_mem_fill (by decide) (by decide) rfl
      · intro entry _
        exact not_saysOk_of_start (fill 2) (c := 'o') isBlank_of_mem_fill (by decide) (by decide) rfl

/-- A layer is given as right where its verdict is good, and by no other line. -/
theorem exists_saysOk_iff (p : Printout) : (∃ line ∈ p.lines, SaysOk op W line) ↔
    ∃ v ∈ p.report.verdicts, v.op = op ∧ v.W = W ∧ v.good = true := by
  have closing : ¬ ∃ line ∈ (if p.raised = none then p.report.summary else []), SaysOk op W line := by
    rintro ⟨line, member, said⟩
    split at member
    · exact not_saysOk_summary p.report line member said
    · cases member
  constructor
  · rintro ⟨line, member, said⟩
    rcases List.mem_append.mp member with judged | summed
    · rcases List.mem_cons.mp judged with rfl | judged
      · exact absurd said not_saysOk_heading
      · obtain ⟨v, inside, rfl⟩ := List.mem_map.mp judged
        exact ⟨v, inside, saysOk_line_iff.mp said⟩
    · exact absurd ⟨line, summed, said⟩ closing
  · rintro ⟨v, inside, good⟩
    have printed : v.line ∈ p.report.verdicts.map Verdict.line := List.mem_map_of_mem inside
    exact ⟨v.line, List.mem_append_left _ (List.mem_cons_of_mem _ printed), saysOk_line_iff.mpr good⟩

end LinuxInterview.Rkspy
