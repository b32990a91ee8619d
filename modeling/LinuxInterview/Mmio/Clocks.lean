import LinuxInterview.Mmio.Check

/-!
# The clock test of `safe_mmio.py` on the listing of `clk_summary`

A clock is listed on one line with its counts and its first consumer; every further consumer has
a line of two fields. The guard skips lines of fewer than nine fields, so it never sees those.
-/

namespace LinuxInterview.Mmio
open Library

structure Consumer where
  dev : Text
  conn : Text

structure Clock where
  name : Text
  enable : Int
  prepare : Int
  protect : Int
  rate : Int
  accuracy : Int
  phase : Text
  duty : Int
  hwEnable : Char
  first : Consumer
  others : List Consumer

def Clock.fields (c : Clock) : List Text :=
  [c.name, decimal c.enable, decimal c.prepare, decimal c.protect, decimal c.rate,
    decimal c.accuracy, c.phase, decimal c.duty, [c.hwEnable], c.first.dev, c.first.conn]

def Clock.rows (c : Clock) : List (List Text) :=
  c.fields :: c.others.map fun k => [k.dev, k.conn]

def headerRows : List (List Text) := [
  ["enable", "prepare", "protect", "duty", "hardware", "connection"].map String.toList,
  ["clock", "count", "count", "count", "rate", "accuracy", "phase", "cycle", "enable", "consumer",
    "id"].map String.toList,
  [List.replicate 141 '-']]

/-- The lines of `clk_summary`, whatever the widths of their columns. -/
def PrintsSummary (clocks : List Clock) (lines : List Text) : Prop :=
  List.Forall₂ PrintsFields (headerRows ++ clocks.flatMap Clock.rows) lines

def Clock.Lists (c : Clock) (dev : Text) : Prop := ∃ k ∈ c.first :: c.others, k.dev = dev

def Consumer.Names (k : Consumer) (dev : Text) : Prop := k.dev = dev ∨ k.conn = dev

/-! ## What the guard sees of a listing -/

theorem words_of_printed {rows : List (List Text)} {lines : List Text}
    (printed : List.Forall₂ PrintsFields rows lines) : lines.map words = rows := by
  induction printed with
  | nil => rfl
  | cons row _ ih => rw [List.map_cons, words_of_printsFields row, ih]

theorem stoppedClock_header (dev : Text) : ∀ f ∈ headerRows, stoppedClock dev f = none := by
  have headings : ∀ f ∈ headerRows, f[1]? ≠ some ['0'] := by decide
  intro f member
  simp [stoppedClock, headings f member]

theorem dot_mem_deviceName (a : Nat) (n : Text) : '.' ∈ deviceName a n := by
  simp [deviceName]

theorem deviceName_ne_decimal (a : Nat) (n : Text) (number : Int) :
    deviceName a n ≠ decimal number := by
  intro same
  exact mem_decimal_ne (same ▸ dot_mem_deviceName a n) (by decide : '.'.isDigit = false) (by decide) rfl

theorem deviceName_ne_singleton (a : Nat) (n : Text) (c : Char) : deviceName a n ≠ [c] := by
  intro same
  have digits := List.length_pos_iff.mpr (Nat.toDigits_ne_nil (n := a) (b := 16))
  have lengths := congrArg List.length same
  simp only [deviceName, hex, List.length_append, List.length_cons, List.length_nil] at lengths
  omega

theorem stoppedClock_fields (a : Nat) (n : Text) (c : Clock) :
    stoppedClock (deviceName a n) c.fields = none ↔
      ¬ (c.enable = 0 ∧ c.first.Names (deviceName a n)) := by
  have notDuty := deviceName_ne_decimal a n c.duty
  have notFlag := deviceName_ne_singleton a n c.hwEnable
  have listed : deviceName a n ∈ c.fields.drop 7 ↔ c.first.Names (deviceName a n) := by
    simp only [Clock.fields, Consumer.Names, List.drop_succ_cons, List.drop_zero, List.mem_cons,
      List.not_mem_nil, or_false, notDuty, notFlag, false_or]
    rw [eq_comm, eq_comm (a := deviceName a n)]
  have counted : c.fields[1]? = some ['0'] ↔ c.enable = 0 := by
    simp [Clock.fields, decimal_eq_zero_iff]
  have long : 9 ≤ c.fields.length := by simp [Clock.fields]
  have named : c.fields[0]? = some c.name := rfl
  unfold stoppedClock
  rw [named]
  simp only [listed, counted, long, true_and, ite_eq_right_iff, reduceCtorEq, imp_false]
  exact not_congr and_comm

theorem stoppedClock_consumer (dev : Text) (k : Consumer) :
    stoppedClock dev [k.dev, k.conn] = none := by
  simp [stoppedClock]

theorem disabledClocks_eq_nil_iff (a : Nat) (n : Text) {clocks : List Clock} {lines : List Text}
    (listing : PrintsSummary clocks lines) :
    disabledClocks (deviceName a n) lines = [] ↔
      ∀ c ∈ clocks, ¬ (c.enable = 0 ∧ c.first.Names (deviceName a n)) := by
  rw [disabledClocks_eq, words_of_printed listing, List.filterMap_eq_nil_iff]
  constructor
  · intro passed c member
    rw [← stoppedClock_fields]
    apply passed
    simp only [List.mem_append, List.mem_flatMap]
    exact Or.inr ⟨c, member, by simp [Clock.rows]⟩
  · intro running f member
    rcases List.mem_append.mp member with header | row
    · exact stoppedClock_header _ f header
    · obtain ⟨c, inside, row⟩ := List.mem_flatMap.mp row
      rcases List.mem_cons.mp row with rfl | further
      · exact (stoppedClock_fields a n c).mpr (running c inside)
      · obtain ⟨k, _, rfl⟩ := List.mem_map.mp further
        exact stoppedClock_consumer _ k

/-! ## When the test is sound -/

theorem clock_test_sound_iff (a : Nat) (n : Text) {clocks : List Clock} {lines : List Text}
    (listing : PrintsSummary clocks lines) :
    (disabledClocks (deviceName a n) lines = [] →
        ∀ c ∈ clocks, c.Lists (deviceName a n) → c.enable ≠ 0) ↔
      (∃ c ∈ clocks, c.enable = 0 ∧ c.first.Names (deviceName a n)) ∨
        ∀ c ∈ clocks, c.enable = 0 → ∀ k ∈ c.others, k.dev ≠ deviceName a n := by
  rw [disabledClocks_eq_nil_iff a n listing]
  constructor
  · intro sound
    by_cases refused : ∃ c ∈ clocks, c.enable = 0 ∧ c.first.Names (deviceName a n)
    · exact Or.inl refused
    · right
      intro c member stopped k further same
      apply sound (fun d inside names => refused ⟨d, inside, names⟩) c member _ stopped
      exact ⟨k, List.mem_cons_of_mem _ further, same⟩
  · rintro (⟨c, member, names⟩ | onlyFirst) passed d inside ⟨k, listed, same⟩ stopped
    · exact passed c member names
    · rcases List.mem_cons.mp listed with rfl | further
      · exact passed d inside ⟨stopped, Or.inl same⟩
      · exact onlyFirst d inside stopped k further same

/-! A stopped clock with two consumers, like those that the board's own listing shows. -/

def sharedClock : Clock where
  name := "clk_pcie".toList
  enable := 0
  prepare := 0
  protect := 0
  rate := 100000000
  accuracy := 0
  phase := "0".toList
  duty := 50000
  hwEnable := 'N'
  first := ⟨"deviceless".toList, "no_connection_id".toList⟩
  others := [⟨"fe150000.pcie".toList, "pipe".toList⟩]

def sharedListing : List Text := (headerRows ++ [sharedClock].flatMap Clock.rows).map printFields

theorem sharedListing_prints : PrintsSummary [sharedClock] sharedListing := by
  have dashes : IsWord (List.replicate 141 '-') :=
    ⟨by simp, fun c member => List.eq_of_mem_replicate member ▸ (by decide)⟩
  have solid : ∀ row ∈ headerRows ++ [sharedClock].flatMap Clock.rows, ∀ field ∈ row, IsWord field := by
    simp only [headerRows, List.forall_mem_append, List.forall_mem_cons]
    simp only [dashes]
    decide
  rw [PrintsSummary, sharedListing, List.forall₂_map_right_iff, List.forall₂_same]
  exact fun row member => printsFields_printFields (solid row member)

theorem stopped_second_consumer_passes :
    PrintsSummary [sharedClock] sharedListing ∧
      disabledClocks (deviceName 0xfe150000 "pcie@fe150000".toList) sharedListing = [] ∧
      sharedClock.Lists (deviceName 0xfe150000 "pcie@fe150000".toList) ∧ sharedClock.enable = 0 := by
  refine ⟨sharedListing_prints, ?_, ⟨_, List.mem_cons_of_mem _ (List.mem_singleton.mpr rfl), by decide⟩, rfl⟩
  rw [disabledClocks_eq_nil_iff _ _ sharedListing_prints]
  simp only [List.mem_singleton, forall_eq, Consumer.Names]
  decide

theorem clock_test_sound_iff_shared :
    (disabledClocks (deviceName 0xfe150000 "pcie@fe150000".toList) sharedListing = [] →
        ∀ c ∈ [sharedClock], c.Lists (deviceName 0xfe150000 "pcie@fe150000".toList) → c.enable ≠ 0) ↔
      (∃ c ∈ [sharedClock], c.enable = 0 ∧
        c.first.Names (deviceName 0xfe150000 "pcie@fe150000".toList)) ∨
        ∀ c ∈ [sharedClock], c.enable = 0 →
          ∀ k ∈ c.others, k.dev ≠ deviceName 0xfe150000 "pcie@fe150000".toList :=
  clock_test_sound_iff 0xfe150000 "pcie@fe150000".toList sharedListing_prints

end LinuxInterview.Mmio
