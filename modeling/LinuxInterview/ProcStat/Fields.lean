import LinuxInterview.Library.CString

/-!
# The fields of `/proc/<pid>/stat`

`read_cputime` of `sched_weight.c` and `task_cpu` of `lb_case.c` both look for the last parenthesis of the
line, since the name before it may hold blanks and parentheses of its own, and count blanks from there.
-/

namespace LinuxInterview.ProcStat
open LinuxInterview.Library CString

def space : UInt8 := 0x20
def open_ : UInt8 := 0x28
def close_ : UInt8 := 0x29

/-- What `read(fd, buf, size - 1)` and `buf[n] = 0` leave in the buffer, whose tail is `stale`; none where
the file cannot be opened, or gives nothing. -/
def readStat (size : Nat) (file : Option (List UInt8)) (stale : List UInt8) : Option (List UInt8) :=
  match file with
  | none | some [] => none
  | some (c :: contents) => some ((c :: contents).take (size - 1) ++ 0 :: stale)

/-! ## `read_cputime` -/

/-- The loop from field `i` on, with the turns left to `i = 15`. -/
def cputimeFrom : Nat → Nat → CText → Int64 → Int64
  | 0, _, _, ut => ut
  | turns + 1, i, p, ut =>
      let ut := if i = 14 then atol p else ut
      if i = 15 then ut + atol p
      else match strchr space p with
        | none => ut
        | some q => cputimeFrom turns (i + 1) q.tail ut

/-- None where the pointer has passed the NUL. -/
def read_cputime (file : Option (List UInt8)) (stale : List UInt8) : Option Int64 :=
  match readStat 1024 file stale with
  | none => some (-1)
  | some buf =>
      match strrchr close_ (ofBuffer buf) with
      | none => some (-1)
      | some p => (advance 2 p).map fun p => cputimeFrom 13 3 p 0

/-! ## `task_cpu` -/

def cpuFrom : Nat → Nat → CText → Int32
  | 0, _, _ => -1
  | turns + 1, i, p =>
      if i = 39 then atoi p
      else match strchr space p with
        | none => -1
        | some q => cpuFrom turns (i + 1) q.tail

def task_cpu (file : Option (List UInt8)) (stale : List UInt8) : Option Int32 :=
  match readStat 2048 file stale with
  | none => some (-1)
  | some buf =>
      match strrchr close_ (ofBuffer buf) with
      | none => some (-1)
      | some p => (advance 2 p).map fun p => cpuFrom 37 3 p

/-! ## The line that the kernel prints -/

/-- The fields from the third on. -/
structure StatLine where
  pid : CText
  name : CText
  fields : List CText
  pidDigits : ∀ c ∈ pid, isdigit c = true
  nameSolid : 0 ∉ name
  fieldsPlain : ∀ f ∈ fields, 0 ∉ f ∧ space ∉ f ∧ close_ ∉ f

def spaced (fields : List CText) : CText := fields.flatMap fun f => space :: f

namespace StatLine

def text (l : StatLine) : CText := l.pid ++ space :: open_ :: l.name ++ close_ :: spaced l.fields

/-- Field `k` of the line, for `k ≥ 3`. -/
def field (l : StatLine) (k : Nat) : Option CText := l.fields[k - 3]?

end StatLine

/-- What `p` is at a field. -/
def cursor : List CText → CText
  | [] => []
  | f :: fields => f ++ spaced fields

theorem strchr_cursor {f : CText} (fields : List CText) (solid : space ∉ f) :
    strchr space (cursor (f :: fields)) = if fields = [] then none else some (space :: cursor fields) := by
  cases fields with
  | nil =>
      rw [if_pos rfl, cursor, spaced, List.flatMap_nil, List.append_nil]
      exact strchr_eq_none solid
  | cons g fields =>
      rw [if_neg (List.cons_ne_nil _ _), cursor, spaced, List.flatMap_cons]
      exact strchr_append solid _

/-- From field `i` the loop gets to field 14 if it is there, and to field 15 if that is. -/
theorem cputimeFrom_eq {f : CText} {fields : List CText} (solid : ∀ g ∈ f :: fields, space ∉ g) {i k : Nat}
    (ahead : i + k = 14) :
    cputimeFrom (k + 2) i (cursor (f :: fields)) 0 =
      match (f :: fields).drop k with
      | [] => 0
      | [g] => atol (cursor [g])
      | g :: h :: rest => atol (cursor (g :: h :: rest)) + atol (cursor (h :: rest)) := by
  induction k generalizing i f fields with
  | zero =>
      obtain rfl : i = 14 := ahead
      have next := strchr_cursor fields (solid f List.mem_cons_self)
      cases fields with
      | nil => simp [cputimeFrom, next]
      | cons g fields => simp [cputimeFrom, next]
  | succ k ih =>
      have next := strchr_cursor fields (solid f List.mem_cons_self)
      have early : i ≠ 14 ∧ i ≠ 15 := by omega
      rw [cputimeFrom, if_neg early.1, if_neg early.2, next]
      cases fields with
      | nil => simp
      | cons g fields =>
          rw [if_neg (List.cons_ne_nil _ _)]
          exact ih (fun h member => solid h (List.mem_cons_of_mem f member)) (by omega)

theorem cpuFrom_eq {f : CText} {fields : List CText} (solid : ∀ g ∈ f :: fields, space ∉ g) {i k : Nat}
    (ahead : i + k = 39) :
    cpuFrom (k + 1) i (cursor (f :: fields)) =
      match (f :: fields).drop k with
      | [] => -1
      | g :: rest => atoi (cursor (g :: rest)) := by
  induction k generalizing i f fields with
  | zero =>
      obtain rfl : i = 39 := ahead
      exact if_pos rfl
  | succ k ih =>
      have next := strchr_cursor fields (solid f List.mem_cons_self)
      have early : i ≠ 39 := by omega
      rw [cpuFrom, if_neg early, next]
      cases fields with
      | nil => simp
      | cons g fields =>
          rw [if_neg (List.cons_ne_nil _ _)]
          exact ih (fun h member => solid h (List.mem_cons_of_mem f member)) (by omega)

theorem readStat_line {text stale : CText} {size : Nat} (some_ : text ≠ []) (complete : text.length < size) :
    readStat size (some text) stale = some (text ++ 0 :: stale) := by
  cases text with
  | nil => contradiction
  | cons c text =>
      rw [readStat, List.take_of_length_le]
      omega

namespace StatLine

theorem text_ne_nil (l : StatLine) : l.text ≠ [] := by
  simp [text]

theorem not_mem_spaced {fields : List CText} {c : UInt8} (other : c ≠ space) (absent : ∀ f ∈ fields, c ∉ f) :
    c ∉ spaced fields := by
  intro member
  obtain ⟨f, inside, at_⟩ := List.mem_flatMap.mp member
  rcases List.mem_cons.mp at_ with rfl | within
  · exact other rfl
  · exact absent f inside within

theorem solid (l : StatLine) : 0 ∉ l.text := by
  have fields := not_mem_spaced (c := 0) (by decide) fun f member => (l.fieldsPlain f member).1
  have pid : 0 ∉ l.pid := fun member => absurd (l.pidDigits 0 member) (by decide)
  simp [text, pid, l.nameSolid, fields, space, open_, close_]

/-- The last parenthesis is the one after the name. -/
theorem strrchr_text (l : StatLine) : strrchr close_ l.text = some (close_ :: spaced l.fields) := by
  apply strrchr_append
  apply not_mem_spaced (by decide)
  intro f member
  exact (l.fieldsPlain f member).2.2

theorem read_cputime_eq (l : StatLine) (complete : l.text.length < 1024) (stale : List UInt8) :
    read_cputime (some l.text) stale =
      (advance 2 (close_ :: spaced l.fields)).map fun p => cputimeFrom 13 3 p 0 := by
  simp only [read_cputime, readStat_line l.text_ne_nil complete, ofBuffer_terminated l.solid, strrchr_text]

theorem task_cpu_eq (l : StatLine) (complete : l.text.length < 2048) (stale : List UInt8) :
    task_cpu (some l.text) stale =
      (advance 2 (close_ :: spaced l.fields)).map fun p => cpuFrom 37 3 p := by
  simp only [task_cpu, readStat_line l.text_ne_nil complete, ofBuffer_terminated l.solid, strrchr_text]

end StatLine

theorem advance_spaced (f : CText) (fields : List CText) :
    advance 2 (close_ :: spaced (f :: fields)) = some (cursor (f :: fields)) := by
  simp [advance, spaced, cursor]

theorem advance_bare : advance 2 (close_ :: spaced []) = none := rfl

theorem spaced_stops (fields : List CText) : ∀ c ∈ (spaced fields).head?, isdigit c = false := by
  cases fields with
  | nil => nofun
  | cons f fields =>
      intro c first
      obtain rfl : space = c := by simpa [spaced] using first
      decide

theorem toInt_atol_cursor {f : CText} (numeral : IsNumeral f) (fields : List CText) :
    (atol (cursor (f :: fields))).toInt = min (2 ^ 63 - 1) (digitsValue f : Int) := by
  rw [cursor, atol, strtol_numeral numeral (spaced_stops fields)]
  apply Int64.toInt_ofInt_of_le
  · omega
  · omega

theorem drop_eq_cons {fields : List CText} {k : Nat} {f : CText} (there : fields[k]? = some f) :
    fields.drop k = f :: fields.drop (k + 1) := by
  obtain ⟨inside, rfl⟩ := List.getElem?_eq_some_iff.mp there
  exact List.drop_eq_getElem_cons inside

/-! ## What the two functions return -/

namespace StatLine

/-- Nothing past the NUL is read, and fields 14 and 15 are added if they are there. -/
def CputimeRead (l : StatLine) : Prop :=
  ∃ r, (∀ stale, read_cputime (some l.text) stale = some r) ∧
    ∀ f g, l.field 14 = some f → l.field 15 = some g → IsNumeral f → IsNumeral g →
      r.toInt = digitsValue f + digitsValue g

/-- Nothing past the NUL is read, and field 39 is returned if it is there. -/
def CpuRead (l : StatLine) : Prop :=
  ∃ r, (∀ stale, task_cpu (some l.text) stale = some r) ∧
    ∀ f, l.field 39 = some f → IsNumeral f → r.toInt = digitsValue f

def CputimeFits (l : StatLine) : Prop :=
  ∀ f g, l.field 14 = some f → l.field 15 = some g → IsNumeral f → IsNumeral g →
    digitsValue f + digitsValue g < 2 ^ 63

def CpuFits (l : StatLine) : Prop :=
  ∀ f, l.field 39 = some f → IsNumeral f → digitsValue f < 2 ^ 31

theorem cputimeRead_iff (l : StatLine) (complete : l.text.length < 1024) :
    l.CputimeRead ↔ l.fields ≠ [] ∧ l.CputimeFits := by
  have plain g (member : g ∈ l.fields) : space ∉ g := (l.fieldsPlain g member).2.1
  unfold CputimeRead CputimeFits field
  simp only [read_cputime_eq l complete]
  cases fields : l.fields with
  | nil => simp [advance_bare]
  | cons f others =>
      rw [fields] at plain
      simp only [advance_spaced, Option.map_some, cputimeFrom_eq plain (k := 11) (i := 3) rfl,
        Option.some.injEq, forall_const, exists_eq_left', ne_eq, List.cons_ne_nil, not_false_eq_true, true_and]
      apply forall₂_congr
      intro g h
      apply forall₂_congr
      intro here next
      apply forall₂_congr
      intro numeral numeral'
      rw [drop_eq_cons here, drop_eq_cons next]
      dsimp only
      have first := toInt_atol_cursor numeral (h :: (f :: others).drop (12 + 1))
      have second := toInt_atol_cursor numeral' ((f :: others).drop (12 + 1))
      constructor
      · intro sum
        exact_mod_cast sum.symm.trans_lt (Int64.toInt_lt _)
      · intro small
        rw [Int64.toInt_add, first, second, min_eq_right (by omega), min_eq_right (by omega)]
        exact Int.bmod_eq_of_le (by omega) (by omega)

theorem cpuRead_iff (l : StatLine) (complete : l.text.length < 2048) :
    l.CpuRead ↔ l.fields ≠ [] ∧ l.CpuFits := by
  have plain g (member : g ∈ l.fields) : space ∉ g := (l.fieldsPlain g member).2.1
  unfold CpuRead CpuFits field
  simp only [task_cpu_eq l complete]
  cases fields : l.fields with
  | nil => simp [advance_bare]
  | cons f others =>
      rw [fields] at plain
      simp only [advance_spaced, Option.map_some, cpuFrom_eq plain (k := 36) (i := 3) rfl,
        Option.some.injEq, forall_const, exists_eq_left', ne_eq, List.cons_ne_nil, not_false_eq_true, true_and]
      apply forall₂_congr
      intro g here
      apply forall_congr'
      intro numeral
      rw [drop_eq_cons here]
      dsimp only
      have read := toInt_atol_cursor numeral ((f :: others).drop (36 + 1))
      constructor
      · intro same
        exact_mod_cast same.symm.trans_lt (Int32.toInt_lt _)
      · intro small
        rw [atoi, Int64.toInt_toInt32, read, min_eq_right (by omega)]
        exact Int.bmod_eq_of_le (by omega) (by omega)

theorem read_iff (l : StatLine) :
    (l.text.length < 1024 → (l.CputimeRead ↔ l.fields ≠ [] ∧ l.CputimeFits)) ∧
      (l.text.length < 2048 → (l.CpuRead ↔ l.fields ≠ [] ∧ l.CpuFits)) :=
  ⟨l.cputimeRead_iff, l.cpuRead_iff⟩

/-- `7 (a) (b) S 1 1 1 1 1 1 1 1 1 1 25 17`. -/
def nested : StatLine where
  pid := [0x37]
  name := [0x61, close_, space, open_, 0x62]
  fields := [0x53] :: List.replicate 10 [0x31] ++ [[0x32, 0x35], [0x31, 0x37]]
  pidDigits := by simp [isdigit]
  nameSolid := by simp [close_, space, open_]
  fieldsPlain := by decide

theorem read_iff_nested :
    nested.text.length < 1024 ∧ (nested.CputimeRead ↔ nested.fields ≠ [] ∧ nested.CputimeFits) ∧
      (nested.CpuRead ↔ nested.fields ≠ [] ∧ nested.CpuFits) :=
  have complete : nested.text.length < 1024 := by decide
  ⟨complete, nested.read_iff.1 complete, nested.read_iff.2 (by decide)⟩

/-- `1 (x)`, where `p += 2` steps over the NUL. -/
def bare : StatLine where
  pid := [0x31]
  name := [0x78]
  fields := []
  pidDigits := by simp [isdigit]
  nameSolid := by simp
  fieldsPlain := nofun

theorem not_read_of_bare :
    bare.text.length < 1024 ∧ ¬ bare.CputimeRead ∧ ¬ bare.CpuRead := by
  have complete : bare.text.length < 1024 := by decide
  refine ⟨complete, ?_, ?_⟩
  · rintro ⟨r, returned, -⟩
    have past := returned []
    rw [bare.read_cputime_eq complete] at past
    contradiction
  · rintro ⟨r, returned, -⟩
    have past := returned []
    rw [bare.task_cpu_eq (by decide)] at past
    contradiction

end StatLine

end LinuxInterview.ProcStat
