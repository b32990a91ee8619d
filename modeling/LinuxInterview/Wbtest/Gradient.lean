import LinuxInterview.Library.Script
import LinuxInterview.Library.Stores
import LinuxInterview.Wbtest.Run

/-!
# The pattern that `fill` draws and `check_custom.py` looks for
-/

namespace LinuxInterview.Wbtest
open Library

inductive Pattern
  | grad
  | stripes1px
  | colorbars
  deriving DecidableEq, Repr

def bars : List UInt32 :=
  [0x000000, 0xffffff, 0xff0000, 0x00ff00, 0x0000ff, 0x00ffff, 0xff00ff, 0xffff00]

/-- The colour `c` of a pixel. The last index is in bounds where `x` is inside of the width and small. -/
def Pattern.colour (pat : Pattern) (w h x y : UInt32) : UInt32 :=
  match pat with
  | .grad => ((x * 255 / (w - 1)) <<< 16) ||| ((y * 255 / (h - 1)) <<< 8) ||| 64
  | .stripes1px => (if x &&& 1 ≠ 0 then 0xff0000 else 0) ||| (if y &&& 1 ≠ 0 then 0x00ff00 else 0)
  | .colorbars => bars.getD (x * 8 / w).toNat 0

/-- The memory of a buffer by the offset from its start. -/
abbrev Pixels := Nat → BitVec 8

/-- Each product is cut to 32 bits, their sum with the pointer is not. -/
def put32 (b : Buf) (x y argb : UInt32) : StoredWord := ⟨(y * b.pitch).toNat + (x * 4).toNat, argb.toBitVec⟩

def fill (b : Buf) (pat : Pattern) (m : Pixels) : Pixels :=
  (List.range b.h.toNat).foldl (fun m y =>
    (List.range b.w.toNat).foldl (fun m x =>
      StoredWord.store m (put32 b (.ofNat x) (.ofNat y)
        (0xff000000 ||| pat.colour b.w b.h (.ofNat x) (.ofNat y)))) m) m

/-- What a dumb buffer of 32 bits per pixel is promised to be. -/
structure Buf.Dumb32 (b : Buf) : Prop where
  wide : 4 * b.w.toNat ≤ b.pitch.toNat
  tall : b.h.toNat * b.pitch.toNat ≤ b.size.toNat
  small : b.size.toNat < 2 ^ 32

/-! ## The stores -/

def pixels (w h : Nat) : List (Nat × Nat) := (List.range h).flatMap fun y => (List.range w).map fun x => (x, y)

theorem mem_pixels {w h : Nat} {p : Nat × Nat} : p ∈ pixels w h ↔ p.1 < w ∧ p.2 < h := by
  obtain ⟨x, y⟩ := p
  simp [pixels, and_comm]

def filled (b : Buf) (pat : Pattern) (p : Nat × Nat) : StoredWord :=
  put32 b (.ofNat p.1) (.ofNat p.2) (0xff000000 ||| pat.colour b.w b.h (.ofNat p.1) (.ofNat p.2))

theorem fill_eq (b : Buf) (pat : Pattern) (m : Pixels) :
    fill b pat m = ((pixels b.w.toNat b.h.toNat).map (filled b pat)).foldl StoredWord.store m := by
  rw [fill, pixels, List.map_flatMap, List.foldl_flatMap]
  simp only [List.map_map, List.foldl_map, Function.comp_apply]
  rfl

variable {b : Buf} {pat : Pattern} {m : Pixels}

theorem toNat_ofNat_of_lt {n : Nat} {bound : UInt32} (small : n < bound.toNat) : (UInt32.ofNat n).toNat = n :=
  UInt32.toNat_ofNat_of_lt' (small.trans bound.toNat_lt)

variable (pat) in
/-- The offset is not cut to 32 bits, and the word is in its row. -/
theorem offset_filled (dumb : b.Dumb32) {x y : Nat} (left : x < b.w.toNat) (above : y < b.h.toNat) :
    (filled b pat (x, y)).offset = y * b.pitch.toNat + x * 4 ∧
      y * b.pitch.toNat + x * 4 + 4 ≤ (y + 1) * b.pitch.toNat ∧ (y + 1) * b.pitch.toNat ≤ b.size.toNat := by
  obtain ⟨wide, tall, small⟩ := dumb
  have row : (y + 1) * b.pitch.toNat ≤ b.h.toNat * b.pitch.toNat := Nat.mul_le_mul_right _ above
  have step : (y + 1) * b.pitch.toNat = y * b.pitch.toNat + b.pitch.toNat := Nat.succ_mul y _
  refine ⟨?_, by omega, by omega⟩
  have first : y * b.pitch.toNat < 2 ^ 32 := by omega
  have second : x * 4 < 2 ^ 32 := by omega
  have four : (4 : UInt32).toNat = 4 := rfl
  simp only [filled, put32, UInt32.toNat_mul, toNat_ofNat_of_lt left, toNat_ofNat_of_lt above, four]
  rw [Nat.mod_eq_of_lt first, Nat.mod_eq_of_lt second]

/-- Only one pixel is stored to a byte. -/
theorem covers_unique (dumb : b.Dumb32) {x y x' y' a : Nat} (left : x < b.w.toNat) (above : y < b.h.toNat)
    (left' : x' < b.w.toNat) (above' : y' < b.h.toNat) (here : (filled b pat (x, y)).Covers a)
    (there : (filled b pat (x', y')).Covers a) : (x', y') = (x, y) := by
  obtain ⟨offset, row, -⟩ := offset_filled pat dumb left above
  obtain ⟨offset', row', -⟩ := offset_filled pat dumb left' above'
  rw [StoredWord.Covers, offset] at here
  rw [StoredWord.Covers, offset'] at there
  have same : y' = y := by
    rcases lt_trichotomy y' y with lower | same | higher
    · have apart : (y' + 1) * b.pitch.toNat ≤ y * b.pitch.toNat := Nat.mul_le_mul_right _ lower
      omega
    · exact same
    · have apart : (y + 1) * b.pitch.toNat ≤ y' * b.pitch.toNat := Nat.mul_le_mul_right _ higher
      omega
  subst same
  congr 1
  omega

theorem fill_apply (dumb : b.Dumb32) {x y a : Nat} (left : x < b.w.toNat) (above : y < b.h.toNat)
    (here : (filled b pat (x, y)).Covers a) : fill b pat m a = (filled b pat (x, y)).byte a := by
  rw [fill_eq]
  apply StoredWord.stores_apply
  · intro s member covers
    obtain ⟨⟨x', y'⟩, inside, rfl⟩ := List.mem_map.mp member
    obtain ⟨left', above'⟩ := mem_pixels.mp inside
    rw [covers_unique dumb left above left' above' here covers]
  · exact ⟨_, List.mem_map_of_mem (mem_pixels.mpr ⟨left, above⟩), here⟩

/-! ## The bytes of the gradient -/

def red (w x : Nat) : Nat := x * 255 / (w - 1)

theorem red_lt {w x : Nat} (inside : x < w) : red w x < 256 := by
  rcases Nat.lt_or_ge 1 w with many | one
  · have bound : x * 255 ≤ 255 * (w - 1) := by omega
    exact Nat.lt_succ_of_le (Nat.div_le_of_le_mul (by rwa [Nat.mul_comm 255] at bound))
  · have only : w - 1 = 0 := by omega
    rw [red, only, Nat.div_zero]
    decide

theorem toNat_channel {w : UInt32} {x : Nat} (inside : x < w.toNat) (small : w.toNat < 2 ^ 24) :
    (UInt32.ofNat x * 255 / (w - 1)).toNat = red w.toNat x := by
  have one : (1 : UInt32) ≤ w := by
    rw [UInt32.le_iff_toNat_le]
    exact Nat.succ_le_of_lt (Nat.zero_lt_of_lt inside)
  have word : (255 : UInt32).toNat = 255 := rfl
  rw [UInt32.toNat_div, UInt32.toNat_mul, UInt32.toNat_sub_of_le _ _ one, toNat_ofNat_of_lt inside, word,
    Nat.mod_eq_of_lt (by omega)]
  rfl

theorem toBitVec_channel {w : UInt32} {x : Nat} (inside : x < w.toNat) (small : w.toNat < 2 ^ 24) :
    (UInt32.ofNat x * 255 / (w - 1)).toBitVec = (BitVec.ofNat 8 (red w.toNat x)).setWidth 32 := by
  apply BitVec.eq_of_toNat_eq
  have channel := toNat_channel inside small
  have byte := red_lt inside
  rw [UInt32.toNat_toBitVec, channel, BitVec.toNat_setWidth, BitVec.toNat_ofNat]
  omega

theorem word_filled_grad {x y : Nat} (left : x < b.w.toNat) (above : y < b.h.toNat) (narrow : b.w.toNat < 2 ^ 24)
    (low : b.h.toNat < 2 ^ 24) : (filled b .grad (x, y)).word =
      StoredWord.channels 0xff (.ofNat 8 (red b.w.toNat x)) (.ofNat 8 (red b.h.toNat y)) 64 := by
  have r := toBitVec_channel left narrow
  have g := toBitVec_channel above low
  simp only [filled, put32, Pattern.colour, UInt32.toBitVec_or, UInt32.toBitVec_shiftLeft, r, g]
  rfl

/-! ## `check_custom.py` -/

inductive CheckError
  | zeroDivision
  | indexError
  deriving DecidableEq, Repr

structure Rgb where
  r : Int
  g : Int
  b : Int
  deriving DecidableEq, Repr

structure Report where
  bad : Nat
  worst : Int
  first : Option ((Nat × Nat) × Rgb × Rgb)
  deriving DecidableEq, Repr

/-- `d[o]`, with which Python counts a negative `o` from the end. -/
def byteAt (d : Bytes) (o : Int) : Except CheckError Int :=
  match d[(if o < 0 then o + d.length else o).toNat]? with
  | some byte => if -(d.length : Int) ≤ o then .ok byte.toNat else .error .indexError
  | none => .error .indexError

def floorDiv (n m : Int) : Except CheckError Int := if m = 0 then .error .zeroDivision else .ok (n.fdiv m)

def Rgb.distance (c e : Rgb) : Int := max (max |c.r - e.r| |c.g - e.g|) |c.b - e.b|

def Report.note (s : Report) (p : Nat × Nat) (c e : Rgb) : Report :=
  if c.distance e ≠ 0 then
    ⟨s.bad + 1, max s.worst (c.distance e), if s.first = none then some (p, c, e) else s.first⟩
  else s

def checkPixel (W H : Int) (d : Bytes) (y : Nat) (s : Report) (x : Nat) : Except CheckError Report := do
  let o := y * (W * 4) + x * 4
  let b ← byteAt d o
  let g ← byteAt d (o + 1)
  let r ← byteAt d (o + 2)
  let e : Rgb := ⟨← floorDiv (x * 255) (W - 1), ← floorDiv (y * 255) (H - 1), 64⟩
  return s.note (x, y) ⟨r, g, b⟩ e

def checkCustom (W H : Int) (d : Bytes) : Except CheckError Report :=
  (List.range H.toNat).foldlM (fun s y => (List.range W.toNat).foldlM (checkPixel W H d y) s) ⟨0, 0, none⟩

/-! ## The script agrees with the drawing -/

def Rgb.ofBytes (m : Pixels) (a : Nat) : Rgb := ⟨(m (a + 2)).toNat, (m (a + 1)).toNat, (m a).toNat⟩

def readBytes (d : Bytes) : Pixels := fun a => d.getD a 0

def expected (w h : Nat) (p : Nat × Nat) : Rgb := ⟨red w p.1, red h p.2, 64⟩

theorem byteAt_natCast {d : Bytes} {o : Nat} (inside : o < d.length) : byteAt d o = .ok (readBytes d o).toNat := by
  have nonneg : ¬ (o : Int) < 0 := by omega
  rw [byteAt, if_neg nonneg, Int.toNat_natCast, List.getElem?_eq_getElem inside, readBytes,
    List.getD_eq_getElem?_getD, List.getElem?_eq_getElem inside]
  exact if_pos (by omega)

theorem floorDiv_channel {w : Nat} (wide : 2 ≤ w) (x : Nat) : floorDiv (x * 255) ((w : Int) - 1) = .ok (red w x) := by
  have less : (w : Int) - 1 = (w - 1 : Nat) := by omega
  rw [floorDiv, if_neg (by omega), less]
  exact congrArg Except.ok (Int.ofNat_fdiv (x * 255) (w - 1)).symm

theorem checkPixel_eq {w h x y : Nat} {d : Bytes} (wide : 2 ≤ w) (tall : 2 ≤ h)
    (inside : 4 * (y * w + x) + 2 < d.length) (s : Report) :
    checkPixel w h d y s x =
      .ok (s.note (x, y) (Rgb.ofBytes (readBytes d) (4 * (y * w + x))) (expected w h (x, y))) := by
  have place : (y : Int) * (w * 4) + x * 4 = (4 * (y * w + x) : Nat) := by
    push_cast
    ring
  have second := byteAt_natCast (d := d) (o := 4 * (y * w + x) + 1) (by omega)
  have third := byteAt_natCast inside
  have first := byteAt_natCast (d := d) (o := 4 * (y * w + x)) (by omega)
  rw [Int.natCast_add] at second third
  unfold checkPixel
  simp only [place]
  exact bind_eq_ok_iff.mpr ⟨_, first, bind_eq_ok_iff.mpr ⟨_, second, bind_eq_ok_iff.mpr ⟨_, third,
    bind_eq_ok_iff.mpr ⟨_, floorDiv_channel wide x, bind_eq_ok_iff.mpr ⟨_, floorDiv_channel tall y, rfl⟩⟩⟩⟩⟩

theorem foldlM_ok {σ α ε : Type} {step : σ → α → Except ε σ} {f : σ → α → σ} {xs : List α}
    (each : ∀ s, ∀ x ∈ xs, step s x = .ok (f s x)) (s : σ) : xs.foldlM step s = .ok (xs.foldl f s) := by
  induction xs generalizing s with
  | nil => rfl
  | cons x xs ih =>
      rw [List.foldlM_cons, each s x List.mem_cons_self]
      exact ih (fun s y member => each s y (List.mem_cons_of_mem x member)) (f s x)

def noteAt (w h : Nat) (d : Bytes) (s : Report) (p : Nat × Nat) : Report :=
  s.note p (Rgb.ofBytes (readBytes d) (4 * (p.2 * w + p.1))) (expected w h p)

theorem checkCustom_eq {w h : Nat} {d : Bytes} (wide : 2 ≤ w) (tall : 2 ≤ h) (long : 4 * (h * w) ≤ d.length) :
    checkCustom w h d = .ok ((pixels w h).foldl (noteAt w h d) ⟨0, 0, none⟩) := by
  have inside {x y : Nat} (left : x < w) (above : y < h) : 4 * (y * w + x) + 2 < d.length := by
    have row : (y + 1) * w ≤ h * w := Nat.mul_le_mul_right _ above
    rw [Nat.succ_mul] at row
    omega
  rw [checkCustom, Int.toNat_natCast, Int.toNat_natCast, pixels, List.foldl_flatMap]
  simp only [List.foldl_map]
  apply foldlM_ok
  intro s y above
  apply foldlM_ok
  intro s x left
  exact checkPixel_eq wide tall (inside (List.mem_range.mp left) (List.mem_range.mp above)) s

theorem distance_eq_zero {c e : Rgb} : c.distance e = 0 ↔ c = e := by
  obtain ⟨r, g, b⟩ := c
  obtain ⟨r', g', b'⟩ := e
  have red := abs_nonneg (r - r')
  have green := abs_nonneg (g - g')
  have blue := abs_nonneg (b - b')
  simp only [Rgb.distance, Rgb.mk.injEq]
  constructor
  · intro zero
    have high : |r - r'| ≤ 0 ∧ |g - g'| ≤ 0 ∧ |b - b'| ≤ 0 := by simpa [and_assoc] using zero.le
    simp only [abs_nonpos_iff] at high
    omega
  · rintro ⟨rfl, rfl, rfl⟩
    simp

theorem distance_nonneg (c e : Rgb) : 0 ≤ c.distance e := le_max_of_le_right (abs_nonneg _)

/-- Whether the pixel of the file has another colour than the script expects. -/
def Wrong (w h : Nat) (d : Bytes) (p : Nat × Nat) : Prop :=
  Rgb.ofBytes (readBytes d) (4 * (p.2 * w + p.1)) ≠ expected w h p

instance (w h : Nat) (d : Bytes) (p : Nat × Nat) : Decidable (Wrong w h d p) :=
  inferInstanceAs (Decidable (_ ≠ _))

def distanceAt (w h : Nat) (d : Bytes) (p : Nat × Nat) : Int :=
  (Rgb.ofBytes (readBytes d) (4 * (p.2 * w + p.1))).distance (expected w h p)

variable {w h : Nat} {d : Bytes} {s : Report}

theorem noteAt_of_not {p : Nat × Nat} (right : ¬ Wrong w h d p) : noteAt w h d s p = s ∧ distanceAt w h d p = 0 := by
  have zero : distanceAt w h d p = 0 := distance_eq_zero.mpr (not_not.mp right)
  exact ⟨if_neg (not_not.mpr zero), zero⟩

theorem noteAt_of_wrong {p : Nat × Nat} (wrong : Wrong w h d p) :
    noteAt w h d s p = ⟨s.bad + 1, max s.worst (distanceAt w h d p),
      if s.first = none then some (p, Rgb.ofBytes (readBytes d) (4 * (p.2 * w + p.1)), expected w h p) else s.first⟩ :=
  if_pos (mt distance_eq_zero.mp wrong)

theorem bad_foldl (ps : List (Nat × Nat)) : (ps.foldl (noteAt w h d) s).bad = s.bad + ps.countP (Wrong w h d) := by
  induction ps generalizing s with
  | nil => rfl
  | cons p ps ih =>
      rw [List.foldl_cons, ih]
      by_cases wrong : Wrong w h d p
      · rw [noteAt_of_wrong wrong, List.countP_cons_of_pos (by simpa using wrong), Nat.add_right_comm, Nat.add_assoc]
      · rw [(noteAt_of_not wrong).1, List.countP_cons_of_neg (by simpa using wrong)]

theorem worst_foldl (ps : List (Nat × Nat)) (positive : 0 ≤ s.worst) :
    IsGreatest (insert s.worst (distanceAt w h d '' {p | p ∈ ps})) (ps.foldl (noteAt w h d) s).worst := by
  induction ps generalizing s with
  | nil => simp
  | cons p ps ih =>
      have step : (noteAt w h d s p).worst = max s.worst (distanceAt w h d p) := by
        by_cases wrong : Wrong w h d p
        · rw [noteAt_of_wrong wrong]
        · rw [(noteAt_of_not (s := s) wrong).1, (noteAt_of_not (s := s) wrong).2, max_eq_left positive]
      have still : 0 ≤ (noteAt w h d s p).worst := step ▸ le_max_of_le_left positive
      obtain ⟨attained, bound⟩ := ih still
      rw [step] at attained bound
      rw [List.foldl_cons]
      constructor
      · rcases attained with same | ⟨q, member, same⟩
        · rcases max_choice s.worst (distanceAt w h d p) with left | right
          · exact .inl (same.trans left)
          · exact .inr ⟨p, List.mem_cons_self, (same.trans right).symm⟩
        · exact .inr ⟨q, List.mem_cons_of_mem p member, same⟩
      · have lower := bound (Set.mem_insert _ _)
        rintro _ (rfl | ⟨q, member, rfl⟩)
        · exact (le_max_left _ _).trans lower
        · rcases List.mem_cons.mp member with rfl | later
          · exact (le_max_right _ _).trans lower
          · exact bound (.inr ⟨q, later, rfl⟩)

theorem first_foldl (ps : List (Nat × Nat)) :
    (ps.foldl (noteAt w h d) s).first.map Prod.fst = (s.first.map Prod.fst).or (ps.find? (Wrong w h d)) := by
  induction ps generalizing s with
  | nil => simp
  | cons p ps ih =>
      rw [List.foldl_cons, ih]
      by_cases wrong : Wrong w h d p
      · rw [noteAt_of_wrong wrong, List.find?_cons_of_pos (by simpa using wrong)]
        cases s.first <;> rfl
      · rw [(noteAt_of_not wrong).1, List.find?_cons_of_neg (by simpa using wrong)]

/-- What the gradient of `fill` has at a pixel is what the script expects there. -/
theorem expected_eq (dumb : b.Dumb32) (narrow : b.w.toNat < 2 ^ 24) (low : b.h.toNat < 2 ^ 24) {x y : Nat}
    (left : x < b.w.toNat) (above : y < b.h.toNat) :
    Rgb.ofBytes (fill b .grad m) (y * b.pitch.toNat + x * 4) = expected b.w.toNat b.h.toNat (x, y) := by
  obtain ⟨offset, -, -⟩ := offset_filled .grad dumb left above
  have word := word_filled_grad left above narrow low
  have stored : filled b .grad (x, y) = ⟨y * b.pitch.toNat + x * 4,
      StoredWord.channels 0xff (.ofNat 8 (red b.w.toNat x)) (.ofNat 8 (red b.h.toNat y)) 64⟩ := by
    rw [← offset, ← word]
  have covers (i : Nat) (small : i < 4) : (filled b .grad (x, y)).Covers (y * b.pitch.toNat + x * 4 + i) := by
    rw [StoredWord.Covers, offset]
    omega
  have first := fill_apply (m := m) dumb left above (covers 0 (by decide))
  have second := fill_apply (m := m) dumb left above (covers 1 (by decide))
  have third := fill_apply (m := m) dumb left above (covers 2 (by decide))
  rw [stored] at first second third
  rw [Rgb.ofBytes, second, third, StoredWord.byte_channels_one, StoredWord.byte_channels_two]
  rw [Nat.add_zero, StoredWord.byte_channels_zero] at first
  rw [first, BitVec.toNat_ofNat, BitVec.toNat_ofNat, Nat.mod_eq_of_lt (red_lt left), Nat.mod_eq_of_lt (red_lt above)]
  rfl

/-- The file has the gradient of `fill` at a pixel, whose rows may be of another length there. -/
def SamePixel (b : Buf) (m : Pixels) (d : Bytes) (p : Nat × Nat) : Prop :=
  ∀ i < 3, readBytes d (4 * (p.2 * b.w.toNat + p.1) + i) = fill b .grad m (p.2 * b.pitch.toNat + p.1 * 4 + i)

instance (b : Buf) (m : Pixels) (d : Bytes) (p : Nat × Nat) : Decidable (SamePixel b m d p) :=
  inferInstanceAs (Decidable (∀ i < 3, _))

theorem ofBytes_eq_iff {m m' : Pixels} {a a' : Nat} :
    Rgb.ofBytes m a = Rgb.ofBytes m' a' ↔ ∀ i < 3, m (a + i) = m' (a' + i) := by
  have same (i : Nat) : ((m (a + i)).toNat : Int) = (m' (a' + i)).toNat ↔ m (a + i) = m' (a' + i) := by
    rw [Nat.cast_inj, BitVec.toNat_inj]
  simp only [Rgb.ofBytes, Rgb.mk.injEq, same, Nat.forall_lt_succ_right]
  have zero := same 0
  simp only [Nat.add_zero] at zero
  simp only [zero, Nat.not_lt_zero, false_implies, implies_true, true_and, Nat.add_zero]
  tauto

theorem wrong_iff (dumb : b.Dumb32) (narrow : b.w.toNat < 2 ^ 24) (low : b.h.toNat < 2 ^ 24) {p : Nat × Nat}
    (inside : p ∈ pixels b.w.toNat b.h.toNat) : Wrong b.w.toNat b.h.toNat d p ↔ ¬ SamePixel b m d p := by
  obtain ⟨left, above⟩ := mem_pixels.mp inside
  have drawn := expected_eq (m := m) dumb narrow low left above
  rw [Wrong, ne_eq, ← drawn, ofBytes_eq_iff]
  rfl

/-- The script counts the pixels of a file that differ from what `fill` draws, and names the first of them. -/
theorem checkCustom_fill (dumb : b.Dumb32) (narrow : b.w.toNat < 2 ^ 24) (low : b.h.toNat < 2 ^ 24)
    (wide : 2 ≤ b.w.toNat) (tall : 2 ≤ b.h.toNat) (m : Pixels) (long : 4 * (b.h.toNat * b.w.toNat) ≤ d.length) :
    ∃ report, checkCustom b.w.toNat b.h.toNat d = .ok report ∧
      report.bad = (pixels b.w.toNat b.h.toNat).countP (fun p => ¬ SamePixel b m d p) ∧
      report.first.map Prod.fst = (pixels b.w.toNat b.h.toNat).find? (fun p => ¬ SamePixel b m d p) ∧
      (report.worst = 0 ↔ ∀ p ∈ pixels b.w.toNat b.h.toNat, SamePixel b m d p) := by
  have same {p : Nat × Nat} (inside : p ∈ pixels b.w.toNat b.h.toNat) :=
    wrong_iff (m := m) (d := d) dumb narrow low inside
  refine ⟨_, checkCustom_eq wide tall long, ?_, ?_, ?_⟩
  · rw [bad_foldl, Nat.zero_add]
    exact List.countP_congr fun p inside => by simpa using same inside
  · rw [first_foldl, Option.map_none, Option.none_or]
    exact List.find?_congr fun p inside => decide_eq_decide.mpr (same inside)
  · obtain ⟨attained, bound⟩ := worst_foldl (w := b.w.toNat) (h := b.h.toNat) (d := d) (s := ⟨0, 0, none⟩)
      (pixels b.w.toNat b.h.toNat) (le_refl 0)
    constructor
    · intro zero p inside
      have small := bound (.inr ⟨p, inside, rfl⟩)
      rw [zero] at small
      by_contra different
      have wrong := (same inside).mpr different
      exact wrong (distance_eq_zero.mp (le_antisymm small (distance_nonneg _ _)))
    · intro all
      rcases attained with zero | ⟨p, inside, zero⟩
      · exact zero
      · rw [← zero]
        exact distance_eq_zero.mpr (not_not.mp fun wrong => (same inside).mp wrong (all p inside))

/-- Two rows of two pixels, each with four bytes of padding. -/
def padded : Buf := ⟨2, 2, .xrgb8888, 1, 12, 1, 24, .mapped 0⟩

theorem padded_dumb : padded.Dumb32 := ⟨by decide, by decide, by decide⟩

/-- The last pixel has one of its channels off by one. -/
def nearly : Bytes := [64, 0, 0, 255, 64, 0, 255, 255, 64, 255, 0, 255, 63, 255, 255, 255]

theorem checkCustom_fill_nearly : ∃ report, checkCustom 2 2 nearly = .ok report ∧
    report.bad = (pixels 2 2).countP (fun p => ¬ SamePixel padded (fun _ => 0x5a) nearly p) ∧
    report.first.map Prod.fst = (pixels 2 2).find? (fun p => ¬ SamePixel padded (fun _ => 0x5a) nearly p) ∧
    (report.worst = 0 ↔ ∀ p ∈ pixels 2 2, SamePixel padded (fun _ => 0x5a) nearly p) :=
  checkCustom_fill padded_dumb (by decide) (by decide) (by decide) (by decide) _ (by decide)

example : checkCustom 2 2 nearly = .ok ⟨1, 1, some ((1, 1), ⟨255, 255, 63⟩, ⟨255, 255, 64⟩)⟩ := by decide

end LinuxInterview.Wbtest
