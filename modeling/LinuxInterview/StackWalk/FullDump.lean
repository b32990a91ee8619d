import LinuxInterview.StackWalk.FrameChain

/-!
# The raw dump of `cmd_bt` with `full`

After the frames the stack is printed word by word, from the saved stack pointer to its end. What
the walk read is in the dump, so the walk can be repeated on the dump alone.
-/

namespace LinuxInterview.StackWalk

inductive Note
  | symbol (name : List Char)
  | stackAddress
  | plain
  deriving DecidableEq, Repr

structure DumpLine where
  addr : Word
  val : Word
  note : Note
  tagged : Bool
  deriving DecidableEq, Repr

/-- `is_ktext`: an address without a symbol is printed as a number. -/
def isKtext (sprintSymbol : Word → List Char) (v : Word) : Bool := (sprintSymbol v).head? ≠ some '0'

section Loop

variable (s : Stack) (memory : Word → Word) (sprintSymbol : Word → List Char) (saved : Word)

def noteOf (val : Word) : Note :=
  if isKtext sprintSymbol val then .symbol (sprintSymbol val)
  else if s.lo ≤ val ∧ val < s.hi then .stackAddress
  else .plain

def dumpLine (addr : Word) : DumpLine := ⟨addr, memory addr, noteOf s sprintSymbol (memory addr), addr = saved⟩

/-- At most `turns` turns of the loop, `none` when it has not come to its end by then. -/
def fullDump : (turns : Nat) → Word → Option (List DumpLine)
  | 0, _ => none
  | turns + 1, addr =>
      if addr < s.hi then (fullDump turns (addr + 8#64)).map (dumpLine s memory sprintSymbol saved addr :: ·)
      else some []

/-- What a reader of the dump knows of the memory; elsewhere they guess. -/
def reader (lines : List DumpLine) (guess : Word → Word) (a : Word) : Word :=
  ((lines.find? fun l => l.addr = a).map DumpLine.val).getD (guess a)

/-- The words from an address to the end of the stack, where the last may reach beyond it. -/
def Stack.wordsFrom (addr : Word) : Nat := (s.top - addr.toNat + 7) / 8

end Loop

variable {s : Stack} {memory : Word → Word} {sprintSymbol : Word → List Char} {saved : Word}

theorem hi_toNat (roomy : s.top + 8 ≤ 2 ^ 64) : s.hi.toNat = s.top := by
  have bound := s.lo.isLt
  rw [Stack.hi, Stack.top, BitVec.toNat_add, BitVec.toNat_ofNat]
  rw [Stack.top] at roomy
  omega

theorem step_toNat {addr : Word} (roomy : s.top + 8 ≤ 2 ^ 64) (inside : addr.toNat < s.top) :
    (addr + 8#64).toNat = addr.toNat + 8 := by
  rw [BitVec.toNat_add, BitVec.toNat_ofNat]
  omega

theorem add_eight (addr : Word) (i : Nat) : addr + 8#64 + BitVec.ofNat 64 (8 * i) = addr + BitVec.ofNat 64 (8 * (i + 1)) := by
  rw [BitVec.add_assoc, Nat.mul_succ, Nat.add_comm (8 * i), BitVec.ofNat_add]

theorem fullDump_eq (roomy : s.top + 8 ≤ 2 ^ 64) {turns : Nat} {addr : Word} (enough : s.wordsFrom addr < turns) :
    fullDump s memory sprintSymbol saved turns addr = some ((List.range (s.wordsFrom addr)).map fun i =>
      dumpLine s memory sprintSymbol saved (addr + BitVec.ofNat 64 (8 * i))) := by
  induction turns generalizing addr with
  | zero => exact absurd enough (Nat.not_lt_zero _)
  | succ turns ih =>
      have order : addr < s.hi ↔ addr.toNat < s.top := by rw [BitVec.lt_def, hi_toNat roomy]
      rw [fullDump]
      split
      · rename_i before
        have inside := order.mp before
        have next := step_toNat roomy inside
        have fewer : s.wordsFrom addr = s.wordsFrom (addr + 8#64) + 1 := by
          rw [Stack.wordsFrom, Stack.wordsFrom, next]
          omega
        rw [ih (by omega), fewer, List.range_succ_eq_map, List.map_cons, List.map_map]
        simp only [Option.map_some, Nat.mul_zero, BitVec.add_zero]
        congr 2
        apply List.map_congr_left
        intro i _
        exact congrArg _ (add_eight addr i)
      · rename_i after
        have beyond : ¬ addr.toNat < s.top := fun inside => after (order.mpr inside)
        have nothing : s.wordsFrom addr = 0 := by
          rw [Stack.wordsFrom]
          omega
        rw [nothing]
        rfl

theorem addr_toNat {sp : Word} (roomy : s.top + 8 ≤ 2 ^ 64) {i : Nat} (inside : i < s.wordsFrom sp) :
    (sp + BitVec.ofNat 64 (8 * i)).toNat = sp.toNat + 8 * i := by
  rw [Stack.wordsFrom] at inside
  rw [BitVec.toNat_add, BitVec.toNat_ofNat]
  omega

def Dumped (s : Stack) (sp a : Word) : Prop := sp.toNat ≤ a.toNat ∧ a.toNat < s.top ∧ 8 ∣ a.toNat - sp.toNat

theorem dumped_iff {sp a : Word} (roomy : s.top + 8 ≤ 2 ^ 64) :
    Dumped s sp a ↔ ∃ i < s.wordsFrom sp, a = sp + BitVec.ofNat 64 (8 * i) := by
  constructor
  · rintro ⟨above, below, i, aligned⟩
    have inside : i < s.wordsFrom sp := by
      rw [Stack.wordsFrom]
      omega
    refine ⟨i, inside, BitVec.eq_of_toNat_eq ?_⟩
    rw [addr_toNat roomy inside]
    omega
  · rintro ⟨i, inside, rfl⟩
    rw [Dumped, addr_toNat roomy inside]
    rw [Stack.wordsFrom] at inside
    exact ⟨by omega, by omega, i, by omega⟩

section Run

variable {sp : Word} {lines : List DumpLine} {turns : Nat}

theorem mem_lines_iff (roomy : s.top + 8 ≤ 2 ^ 64) (enough : s.wordsFrom sp < turns)
    (dumped : fullDump s memory sprintSymbol saved turns sp = some lines) (l : DumpLine) :
    l ∈ lines ↔ Dumped s sp l.addr ∧ l = dumpLine s memory sprintSymbol saved l.addr := by
  rw [fullDump_eq roomy enough, Option.some.injEq] at dumped
  subst dumped
  rw [List.mem_map, dumped_iff roomy]
  constructor
  · rintro ⟨i, inside, rfl⟩
    exact ⟨⟨i, List.mem_range.mp inside, rfl⟩, rfl⟩
  · rintro ⟨⟨i, inside, here⟩, same⟩
    exact ⟨i, List.mem_range.mpr inside, by rw [← here, ← same]⟩

theorem reader_eq (roomy : s.top + 8 ≤ 2 ^ 64) (enough : s.wordsFrom sp < turns)
    (dumped : fullDump s memory sprintSymbol saved turns sp = some lines) (guess : Word → Word) {a : Word}
    (inside : Dumped s sp a) : reader lines guess a = memory a := by
  have listed : dumpLine s memory sprintSymbol saved a ∈ lines :=
    (mem_lines_iff roomy enough dumped _).mpr ⟨inside, rfl⟩
  have found : (lines.find? fun l => l.addr = a).isSome := by
    rw [List.find?_isSome]
    exact ⟨_, listed, decide_eq_true rfl⟩
  obtain ⟨l, first⟩ := Option.isSome_iff_exists.mp found
  have here : l.addr = a := by simpa using List.find?_some first
  have same := ((mem_lines_iff roomy enough dumped l).mp (List.mem_of_find?_eq_some first)).2
  rw [reader, first, Option.map_some, Option.getD_some, same, here]
  rfl

theorem dumped_of_load (roomy : s.top + 8 ≤ 2 ^ 64) (ordered : sp ≤ saved) {f : Frame}
    (member : f ∈ cmdBt s memory saved) (aligned : 8 ∣ f.fp.toNat - sp.toNat) {a : Word} (load : a ∈ f.loads) :
    Dumped s sp a := by
  have above : sp.toNat ≤ f.fp.toNat :=
    (BitVec.le_def.mp ordered).trans (BitVec.le_def.mp (frames_above f member))
  have first := (loads_covered f member f.fp List.mem_cons_self).2
  have covered := (loads_covered f member a load).2
  have place : a.toNat = f.fp.toNat ∨ a.toNat = f.fp.toNat + 8 := by
    rcases List.mem_cons.mp load with rfl | second
    · exact .inl rfl
    · right
      rw [List.mem_singleton.mp second]
      exact step_toNat roomy (by omega)
  exact ⟨by omega, by omega, by omega⟩

theorem loads_covered_iff (roomy : s.top + 8 ≤ 2 ^ 64) (started : s.lo ≤ sp) (ends : sp.toNat ≤ s.top) :
    (∀ a, Dumped s sp a → s.Covers a.toNat 8) ↔ 8 ∣ s.top - sp.toNat := by
  have start := BitVec.le_def.mp started
  constructor
  · intro covered
    by_cases nothing : s.wordsFrom sp = 0
    · rw [Stack.wordsFrom] at nothing
      omega
    · have last : s.wordsFrom sp - 1 < s.wordsFrom sp := Nat.sub_lt (Nat.pos_of_ne_zero nothing) Nat.one_pos
      have within := (covered _ ((dumped_iff roomy).mpr ⟨_, last, rfl⟩)).2
      rw [addr_toNat roomy last] at within
      rw [Stack.wordsFrom] at within nothing
      omega
  · rintro whole a ⟨above, below, aligned⟩
    exact ⟨start.trans above, by omega⟩

end Run

/-- The dump ends, and the frames can be found in it again. -/
theorem frames_from_dump (s : Stack) (memory : Word → Word) (sprintSymbol : Word → List Char) (fp sp : Word)
    (roomy : s.top + 8 ≤ 2 ^ 64) (started : s.lo ≤ sp) (ends : sp.toNat ≤ s.top) (ordered : sp ≤ fp) :
    ∃ lines, (∀ turns, s.wordsFrom sp < turns → fullDump s memory sprintSymbol fp turns sp = some lines) ∧
      lines.Pairwise (fun l m => l.addr < m.addr) ∧
      (∀ l, l ∈ lines ↔ Dumped s sp l.addr ∧ l = dumpLine s memory sprintSymbol fp l.addr) ∧
      ((∀ l ∈ lines, s.Covers l.addr.toNat 8) ↔ 8 ∣ s.top - sp.toNat) ∧
      ((∀ f ∈ cmdBt s memory fp, 8 ∣ f.fp.toNat - sp.toNat) →
        ∀ guess, cmdBt s (reader lines guess) fp = cmdBt s memory fp) := by
  have run : ∀ turns, s.wordsFrom sp < turns → fullDump s memory sprintSymbol fp turns sp =
      some ((List.range (s.wordsFrom sp)).map fun i =>
        dumpLine s memory sprintSymbol fp (sp + BitVec.ofNat 64 (8 * i))) :=
    fun turns enough => fullDump_eq roomy enough
  have first := run _ (Nat.lt_succ_self _)
  refine ⟨_, run, ?_, mem_lines_iff roomy (Nat.lt_succ_self _) first, ?_, ?_⟩
  · rw [List.pairwise_map]
    apply List.pairwise_lt_range.imp_of_mem
    intro i j iMember jMember before
    rw [BitVec.lt_def]
    change (sp + BitVec.ofNat 64 (8 * i)).toNat < (sp + BitVec.ofNat 64 (8 * j)).toNat
    rw [addr_toNat roomy (List.mem_range.mp iMember), addr_toNat roomy (List.mem_range.mp jMember)]
    omega
  · rw [← loads_covered_iff roomy started ends]
    constructor
    · intro covered a dumped
      exact covered _ ((mem_lines_iff roomy (Nat.lt_succ_self _) first (dumpLine s memory sprintSymbol fp a)).mpr ⟨dumped, rfl⟩)
    · intro covered l member
      exact covered _ ((mem_lines_iff roomy (Nat.lt_succ_self _) first l).mp member).1
  · intro aligned guess
    apply frameChain_congr
    intro f member a load
    exact reader_eq roomy (Nat.lt_succ_self _) first guess (dumped_of_load roomy ordered member (aligned f member) load)

def oneRecord (a : Word) : Word := if a = 0x7fe8 then 0xaaaa else 0

theorem frames_from_dump_oneRecord :
    ∃ lines, (∀ turns, lowStack.wordsFrom 0x7fd8 < turns →
        fullDump lowStack oneRecord (fun _ => ['0']) 0x7fe0 turns 0x7fd8 = some lines) ∧
      ∀ guess, cmdBt lowStack (reader lines guess) 0x7fe0 = [⟨0x7fe0, 0, 0xaaaa⟩] := by
  obtain ⟨lines, dumped, _, _, _, again⟩ := frames_from_dump lowStack oneRecord
    (fun _ => ['0']) 0x7fe0 0x7fd8 (by decide) (by decide) (by decide) (by decide)
  exact ⟨lines, dumped, again (by decide)⟩

end LinuxInterview.StackWalk
