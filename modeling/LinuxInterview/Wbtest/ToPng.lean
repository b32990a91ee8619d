import LinuxInterview.Library.Chunks

/-!
# The images that `to_png.py` makes of a written-back frame

A reader of PNG files takes them apart again. It knows the colour type and the filter that the script uses.
-/

namespace LinuxInterview.Wbtest.ToPng
open Library

inductive PngError
  | zeroDivision
  | indexError
  | structError
  deriving DecidableEq, Repr

/-- The compression of the library. What it makes is at most a little longer than what it is given. -/
structure Zlib where
  compress : Bytes → Nat → Bytes
  decompress : Bytes → Option Bytes
  decompress_compress : ∀ b level, decompress (compress b level) = some b
  length_compress : ∀ b level, b.length < 2 ^ 31 → (compress b level).length < 2 ^ 32

def W : Nat := 1920
def H : Nat := 1080
def P : Nat := 7680

/-- `d[i]`, with which Python counts a negative `i` from the end. -/
def item (d : Bytes) (i : Int) : Except PngError (BitVec 8) :=
  match d[(if i < 0 then i + d.length else i).toNat]? with
  | some byte => if -(d.length : Int) ≤ i then .ok byte else .error .indexError
  | none => .error .indexError

def pack32 (n : Int) : Except PngError Bytes :=
  if 0 ≤ n ∧ n < 2 ^ 32 then .ok (bigEndian32 n.toNat) else .error .structError

def pixel (d : Bytes) (k : Int) (y x : Nat) : Except PngError Bytes := do
  let r ← item d (y * k * P + x * k * 4 + 2)
  let g ← item d (y * k * P + x * k * 4 + 1)
  let b ← item d (y * k * P + x * k * 4)
  return [r, g, b]

def row (d : Bytes) (k w : Int) (y : Nat) : Except PngError Bytes := do
  let pixels ← (List.range w.toNat).mapM (pixel d k y)
  return 0 :: pixels.flatten

def rows (d : Bytes) (k w h : Int) : Except PngError Bytes := do
  let rows ← (List.range h.toNat).mapM (row d k w)
  return rows.flatten

def chunk (t b : Bytes) : Except PngError Bytes := do
  let size ← pack32 b.length
  return size ++ t ++ b ++ bigEndian32 (crc32 (t ++ b)).toNat

def signature : Bytes := [0x89, 0x50, 0x4E, 0x47, 0x0D, 0x0A, 0x1A, 0x0A]
def IHDR : Bytes := [0x49, 0x48, 0x44, 0x52]
def IDAT : Bytes := [0x49, 0x44, 0x41, 0x54]
def IEND : Bytes := [0x49, 0x45, 0x4E, 0x44]

/-- The bytes that the last line of the script puts together. -/
def image (zlib : Zlib) (w h : Int) (rows : Bytes) : Except PngError Bytes := do
  let header := (← pack32 w) ++ (← pack32 h) ++ [8, 2, 0, 0, 0]
  return signature ++ (← chunk IHDR header) ++ (← chunk IDAT (zlib.compress rows 9)) ++ (← chunk IEND [])

/-- The output file when the script has ended, if there is one, and what the script has raised. -/
structure Ended where
  out : Option Bytes
  raised : Option PngError
  deriving DecidableEq, Repr

/-- `open(out, 'wb').write(…)`, which opens the file, and so cuts it to nothing, before its argument is put together. -/
def write : Except PngError Bytes → Ended
  | .error e => ⟨some [], some e⟩
  | .ok bytes => ⟨some bytes, none⟩

/-- The script with `d` as the bytes of `raw`, `k` as the third argument, if there is one, and `out` as the file of that
name before it runs. -/
def toPng (zlib : Zlib) (k : Option Int) (d : Bytes) (out : Option Bytes) : Ended :=
  let k := k.getD 4
  if k = 0 then
    ⟨out, some .zeroDivision⟩
  else
    let w := (W : Int).fdiv k
    let h := (H : Int).fdiv k
    match rows d k w h with
    | .error e => ⟨out, some e⟩
    | .ok rows => write (image zlib w h rows)

/-! ## A reader -/

structure Rgb where
  r : BitVec 8
  g : BitVec 8
  b : BitVec 8
  deriving DecidableEq, Repr

structure Image where
  width : Nat
  height : Nat
  rows : List (List Rgb)
  deriving DecidableEq, Repr

def readPixels : Nat → Bytes → Option (List Rgb × Bytes)
  | 0, bytes => some ([], bytes)
  | w + 1, r :: g :: b :: bytes => do
      let (pixels, rest) ← readPixels w bytes
      return (⟨r, g, b⟩ :: pixels, rest)
  | _ + 1, _ => none

/-- A row is led by the number of its filter, of which 0 leaves the bytes as they are. -/
def readRows (width : Nat) : Nat → Bytes → Option (List (List Rgb))
  | 0, [] => some []
  | h + 1, filter :: bytes =>
      if filter = 0 then do
        let (pixels, rest) ← readPixels width bytes
        return pixels :: (← readRows width h rest)
      else none
  | _, _ => none

/-- Colours of eight bits each, neither filtered by another method nor interlaced. -/
def readHeader (data : Bytes) : Option (Nat × Nat) := do
  let (width, data) ← readWord data
  let (height, data) ← readWord data
  if data = [8, 2, 0, 0, 0] ∧ 0 < width ∧ 0 < height then some (width, height) else none

def readPng (zlib : Zlib) (bytes : Bytes) : Option Image := do
  if bytes.take 8 = signature then
    match ← readChunks (bytes.drop 8) with
    | header :: chunks =>
        let (width, height) ← readHeader header.data
        let data := (chunks.filter fun c => c.tag = IDAT).flatMap Chunk.data
        if header.tag = IHDR ∧ chunks.getLast? = some ⟨IEND, []⟩ then
          let rows ← readRows width height (← zlib.decompress data)
          return ⟨width, height, rows⟩
        else none
    | [] => none
  else none

/-! ## What it finds -/

def offset (k y x : Nat) : Nat := y * k * P + x * k * 4

/-- One pixel of each `k` by `k` block, its bytes in the other order. -/
def shrunk (k : Nat) (d : Bytes) : Image where
  width := W / k
  height := H / k
  rows := (List.range (H / k)).map fun y => (List.range (W / k)).map fun x =>
    ⟨d.getD (offset k y x + 2) 0, d.getD (offset k y x + 1) 0, d.getD (offset k y x) 0⟩

/-- The frame has all bytes that are picked. -/
def Covers (k : Nat) (d : Bytes) : Prop :=
  ∀ y ∈ List.range (H / k), ∀ x ∈ List.range (W / k), offset k y x + 2 < d.length

instance (k : Nat) (d : Bytes) : Decidable (Covers k d) :=
  inferInstanceAs (Decidable (∀ _ ∈ List.range _, ∀ _ ∈ List.range _, _))

theorem item_natCast (d : Bytes) (i : Nat) :
    item d i = if i < d.length then .ok (d.getD i 0) else .error .indexError := by
  have nonneg : ¬ (i : Int) < 0 := by omega
  rw [item, if_neg nonneg, Int.toNat_natCast]
  by_cases inside : i < d.length
  · rw [List.getElem?_eq_getElem inside, if_pos inside]
    simp only
    rw [if_pos (by omega), List.getD_eq_getElem?_getD, List.getElem?_eq_getElem inside]
    rfl
  · rw [List.getElem?_eq_none (Nat.le_of_not_lt inside), if_neg inside]

theorem pixel_eq (d : Bytes) (k y x : Nat) :
    pixel d k y x = if offset k y x + 2 < d.length then
      .ok [d.getD (offset k y x + 2) 0, d.getD (offset k y x + 1) 0, d.getD (offset k y x) 0] else .error .indexError := by
  have place : (y : Int) * k * P + x * k * 4 = (offset k y x : Nat) := by simp [offset]
  have r := item_natCast d (offset k y x + 2)
  have g := item_natCast d (offset k y x + 1)
  push_cast at r g
  rw [pixel, place, r, g, item_natCast]
  by_cases inside : offset k y x + 2 < d.length
  · rw [if_pos inside, if_pos (Nat.lt_of_succ_lt inside), if_pos (Nat.lt_of_succ_lt (Nat.lt_of_succ_lt inside)),
      if_pos inside]
    rfl
  · rw [if_neg inside, if_neg inside]
    rfl

theorem mapM_ite {ε α β : Type} {f : α → Except ε β} {g : α → β} {p : α → Prop} [DecidablePred p] {e : ε}
    (each : ∀ x, f x = if p x then .ok (g x) else .error e) (xs : List α) :
    xs.mapM f = if ∀ x ∈ xs, p x then .ok (xs.map g) else .error e := by
  induction xs with
  | nil => simp [pure, Except.pure]
  | cons x xs ih =>
      rw [List.mapM_cons, each, ih]
      by_cases first : p x
      · by_cases rest : ∀ x ∈ xs, p x
        · rw [if_pos first, if_pos rest, if_pos (List.forall_mem_cons.mpr ⟨first, rest⟩)]
          rfl
        · rw [if_pos first, if_neg rest, if_neg fun all => rest (List.forall_mem_cons.mp all).2]
          rfl
      · rw [if_neg first, if_neg fun all => first (List.forall_mem_cons.mp all).1]
        rfl

def rowBytes (d : Bytes) (k y : Nat) : Bytes :=
  0 :: ((List.range (W / k)).map fun x =>
    [d.getD (offset k y x + 2) 0, d.getD (offset k y x + 1) 0, d.getD (offset k y x) 0]).flatten

theorem row_eq (d : Bytes) (k y : Nat) :
    row d k (W / k : Nat) y =
      if ∀ x ∈ List.range (W / k), offset k y x + 2 < d.length then .ok (rowBytes d k y) else .error .indexError := by
  rw [row, Int.toNat_natCast, mapM_ite (pixel_eq d k y)]
  split <;> rfl

theorem rows_eq (d : Bytes) (k : Nat) :
    rows d k (W / k : Nat) (H / k : Nat) =
      if Covers k d then .ok ((List.range (H / k)).flatMap (rowBytes d k)) else .error .indexError := by
  rw [rows, Int.toNat_natCast, mapM_ite (row_eq d k)]
  by_cases covers : Covers k d
  · rw [if_pos covers]
    rw [Covers] at covers
    rw [if_pos covers]
    rfl
  · rw [if_neg covers]
    rw [Covers] at covers
    rw [if_neg covers]
    rfl

/-! ## The reader undoes the rows -/

theorem readPixels_append (f : Nat → Rgb) (xs : List Nat) (rest : Bytes) :
    readPixels xs.length ((xs.map fun x => [(f x).r, (f x).g, (f x).b]).flatten ++ rest) = some (xs.map f, rest) := by
  induction xs with
  | nil => rfl
  | cons x xs ih => simp [readPixels, ih]

theorem readRows_flatMap (width : Nat) (row : Nat → Bytes) {pixels : Nat → List Rgb}
    (each : ∀ y rest, ∃ bytes, row y = 0 :: bytes ∧ readPixels width (bytes ++ rest) = some (pixels y, rest))
    (ys : List Nat) : readRows width ys.length (ys.flatMap row) = some (ys.map pixels) := by
  induction ys with
  | nil => rfl
  | cons y ys ih =>
      obtain ⟨bytes, filter, read⟩ := each y (ys.flatMap row)
      rw [List.flatMap_cons, filter, List.cons_append, List.length_cons, readRows, if_pos rfl, read]
      simp [ih]

theorem readRows_rows (d : Bytes) (k : Nat) :
    readRows (W / k) (H / k) ((List.range (H / k)).flatMap (rowBytes d k)) = some (shrunk k d).rows := by
  have read := readRows_flatMap (W / k) (rowBytes d k) (fun y rest => ⟨_, rfl, by
    have pixels := readPixels_append (fun x =>
      ⟨d.getD (offset k y x + 2) 0, d.getD (offset k y x + 1) 0, d.getD (offset k y x) 0⟩) (List.range (W / k)) rest
    rw [List.length_range] at pixels
    exact pixels⟩) (List.range (H / k))
  rwa [List.length_range] at read

/-! ## The whole file -/

theorem pack32_natCast {n : Nat} (fits : n < 2 ^ 32) : pack32 n = .ok (bigEndian32 n) := by
  rw [pack32, if_pos ⟨by omega, by exact_mod_cast fits⟩, Int.toNat_natCast]

theorem chunk_eq {c : Chunk} (fits : c.data.length < 2 ^ 32) : chunk c.tag c.data = .ok c.encode := by
  rw [chunk, pack32_natCast fits]
  simp [bind, Except.bind, pure, Except.pure, Chunk.encode, Chunk.check]

theorem length_rowBytes (d : Bytes) (k y : Nat) : (rowBytes d k y).length = 1 + 3 * (W / k) := by
  simp [rowBytes, List.length_flatten, Function.comp_def, Nat.mul_comm, Nat.add_comm]

def header (w h : Nat) : Chunk := ⟨IHDR, bigEndian32 w ++ bigEndian32 h ++ [8, 2, 0, 0, 0]⟩

theorem readHeader_header {w h : Nat} (width : w < 2 ^ 32) (height : h < 2 ^ 32) :
    readHeader (header w h).data = if 0 < w ∧ 0 < h then some (w, h) else none := by
  have first := readWord_bigEndian32 width (bigEndian32 h ++ [8, 2, 0, 0, 0])
  have second := readWord_bigEndian32 height [8, 2, 0, 0, 0]
  rw [readHeader, header, List.append_assoc, first, Option.bind_eq_bind, Option.bind_some]
  dsimp only
  rw [second, Option.bind_some]
  simp

theorem fdiv_natCast (n k : Nat) : (n : Int).fdiv k = (n / k : Nat) := (Int.ofNat_fdiv n k).symm

theorem fdiv_neg_of_pos_of_neg {n : Nat} {k : Int} (positive : 0 < n) (negative : k < 0) : (n : Int).fdiv k < 0 := by
  obtain ⟨n, rfl⟩ := Nat.exists_eq_succ_of_ne_zero positive.ne'
  obtain ⟨m, rfl⟩ := Int.eq_negSucc_of_lt_zero negative
  exact Int.negSucc_lt_zero _

theorem rows_neg (d : Bytes) {k w h : Int} (negative : h < 0) : rows d k w h = .ok [] := by
  rw [rows, Int.toNat_of_nonpos negative.le]
  rfl

def chunks (zlib : Zlib) (w h : Nat) (rows : Bytes) : List Chunk :=
  [header w h, ⟨IDAT, zlib.compress rows 9⟩, ⟨IEND, []⟩]

def file (zlib : Zlib) (w h : Nat) (rows : Bytes) : Bytes := signature ++ (chunks zlib w h rows).flatMap Chunk.encode

theorem chunks_fit (zlib : Zlib) (w h : Nat) {rows : Bytes} (size : rows.length < 2 ^ 31) :
    ∀ c ∈ chunks zlib w h rows, c.Fits := by
  simp only [chunks, List.forall_mem_cons, List.not_mem_nil, false_implies, implies_true, and_true]
  exact ⟨⟨rfl, by simp [header, bigEndian32]⟩, ⟨rfl, zlib.length_compress _ _ size⟩, ⟨rfl, by simp⟩⟩

theorem ok_bind {α β : Type} (a : α) (f : α → Except PngError β) : (.ok a >>= f) = f a := by
  simp only [bind, Except.bind]

theorem error_bind {α β : Type} (e : PngError) (f : α → Except PngError β) : (.error e >>= f) = .error e := by
  simp only [bind, Except.bind]

theorem image_eq (zlib : Zlib) {w h : Nat} {rows : Bytes} (width : w < 2 ^ 32) (height : h < 2 ^ 32)
    (size : rows.length < 2 ^ 31) : image zlib w h rows = .ok (file zlib w h rows) := by
  have fits := chunks_fit zlib w h size
  simp only [chunks, List.forall_mem_cons, List.not_mem_nil, false_implies, implies_true, and_true] at fits
  obtain ⟨first, second, third⟩ := fits
  have first := chunk_eq first.data
  have second := chunk_eq second.data
  have third := chunk_eq third.data
  rw [header] at first
  simp only [image, pack32_natCast width, pack32_natCast height, ok_bind, first, second, third]
  simp [file, chunks, header, pure, Except.pure]

theorem readPng_file (zlib : Zlib) {w h : Nat} {rows : Bytes} (width : w < 2 ^ 32) (height : h < 2 ^ 32)
    (size : rows.length < 2 ^ 31) :
    readPng zlib (file zlib w h rows) =
      if 0 < w ∧ 0 < h then (readRows w h rows).map (Image.mk w h) else none := by
  have body : (file zlib w h rows).drop 8 = (chunks zlib w h rows).flatMap Chunk.encode := List.drop_left' rfl
  have lead : (file zlib w h rows).take 8 = signature := List.take_left' rfl
  have data : (List.filter (fun c : Chunk => decide (c.tag = IDAT)) [⟨IDAT, zlib.compress rows 9⟩, ⟨IEND, []⟩]).flatMap
      Chunk.data = zlib.compress rows 9 := by
    simp [IDAT, IEND]
  rw [readPng, if_pos lead, body, readChunks_encode (chunks_fit zlib w h size), chunks, Option.bind_eq_bind,
    Option.bind_some]
  dsimp only
  rw [readHeader_header width height]
  by_cases some : 0 < w ∧ 0 < h
  · rw [if_pos some, if_pos some, Option.bind_eq_bind, Option.bind_some]
    dsimp only
    rw [if_pos ⟨rfl, rfl⟩, data, zlib.decompress_compress, Option.bind_eq_bind, Option.bind_some]
    cases readRows w h rows <;> rfl
  · rw [if_neg some, if_neg some]
    rfl

theorem width_lt (k : Nat) : W / k < 2 ^ 32 := (Nat.div_le_self W k).trans_lt (by decide)

theorem height_lt (k : Nat) : H / k < 2 ^ 32 := (Nat.div_le_self H k).trans_lt (by decide)

theorem length_rows_lt (d : Bytes) (k : Nat) : ((List.range (H / k)).flatMap (rowBytes d k)).length < 2 ^ 31 := by
  have width : W / k ≤ 1920 := Nat.div_le_self W k
  have height : H / k ≤ 1080 := Nat.div_le_self H k
  rw [List.length_flatMap]
  simp only [length_rowBytes, List.map_const', List.length_range, List.sum_replicate, smul_eq_mul]
  calc H / k * (1 + 3 * (W / k)) ≤ 1080 * (1 + 3 * 1920) := by gcongr
    _ < 2 ^ 31 := by decide

theorem toPng_natCast (zlib : Zlib) (d : Bytes) (out : Option Bytes) {k : Nat} (positive : 0 < k) :
    toPng zlib (some k) d out =
      if Covers k d then ⟨some (file zlib (W / k) (H / k) ((List.range (H / k)).flatMap (rowBytes d k))), none⟩
      else ⟨out, some .indexError⟩ := by
  have nonzero : (k : Int) ≠ 0 := by exact_mod_cast positive.ne'
  have written := image_eq zlib (width_lt k) (height_lt k) (length_rows_lt d k)
  rw [toPng]
  dsimp only
  rw [Option.getD_some, if_neg nonzero, fdiv_natCast, fdiv_natCast, rows_eq]
  by_cases covers : Covers k d
  · rw [if_pos covers, if_pos covers]
    dsimp only
    rw [written, write]
  · rw [if_neg covers, if_neg covers]

theorem toPng_neg (zlib : Zlib) (d : Bytes) (out : Option Bytes) {k : Int} (negative : k < 0) :
    toPng zlib (some k) d out = ⟨some [], some .structError⟩ := by
  have width : (W : Int).fdiv k < 0 := fdiv_neg_of_pos_of_neg (by decide) negative
  have height : (H : Int).fdiv k < 0 := fdiv_neg_of_pos_of_neg (by decide) negative
  have pack : pack32 ((W : Int).fdiv k) = .error .structError := if_neg fun fits => absurd fits.1 (not_le.mpr width)
  have nonzero : (k = 0) = False := by simp [negative.ne]
  simp only [toPng, Option.getD_some, nonzero, if_false, rows_neg d height, image, pack, error_bind, write]

theorem toPng_zero (zlib : Zlib) (d : Bytes) (out : Option Bytes) :
    toPng zlib (some 0) d out = ⟨out, some .zeroDivision⟩ := by
  simp only [toPng, Option.getD_some, if_true]

theorem some_rows_iff {k : Nat} (positive : 0 < k) : (0 < W / k ∧ 0 < H / k) ↔ k ≤ H := by
  rw [Nat.div_pos_iff, Nat.div_pos_iff]
  simp only [positive, true_and, and_iff_right_iff_imp]
  intro low
  exact low.trans (by decide)

/-- The script writes its file for every positive factor whose pixels the frame has, and that file is an image of the
picked pixels unless the factor leaves no row of it. With a negative factor it fails with its file already open. -/
theorem toPng_reads_back (zlib : Zlib) (k : Option Int) (d : Bytes) (out : Option Bytes) :
    ((toPng zlib k d out).raised =
      if k.getD 4 = 0 then some .zeroDivision else if k.getD 4 < 0 then some .structError
      else if Covers (k.getD 4).toNat d then none else some .indexError) ∧
    (∀ e, (toPng zlib k d out).raised = some e →
      (toPng zlib k d out).out = if e = .structError then some [] else out) ∧
    ((toPng zlib k d out).raised = none → ∃ bytes, (toPng zlib k d out).out = some bytes ∧
      readPng zlib bytes = if k.getD 4 ≤ H then some (shrunk (k.getD 4).toNat d) else none) := by
  have same : toPng zlib k d out = toPng zlib (some (k.getD 4)) d out := rfl
  rw [same]
  generalize k.getD 4 = k
  rcases lt_trichotomy k 0 with negative | rfl | positive
  · rw [toPng_neg zlib d out negative, if_neg negative.ne, if_pos negative]
    refine ⟨rfl, ?_, nofun⟩
    rintro e ⟨⟩
    rfl
  · rw [toPng_zero, if_pos rfl]
    refine ⟨rfl, ?_, nofun⟩
    rintro e ⟨⟩
    rfl
  · rw [if_neg positive.ne', if_neg (not_lt.mpr positive.le)]
    obtain ⟨k, rfl⟩ := Int.eq_ofNat_of_zero_le positive.le
    have positive : 0 < k := by exact_mod_cast positive
    rw [toPng_natCast zlib d out positive, Int.toNat_natCast]
    by_cases covers : Covers k d
    · rw [if_pos covers, if_pos covers]
      refine ⟨rfl, nofun, fun _ => ⟨_, rfl, ?_⟩⟩
      rw [readPng_file zlib (width_lt k) (height_lt k) (length_rows_lt d k), readRows_rows, Option.map_some]
      exact if_congr ((some_rows_iff positive).trans Nat.cast_le.symm) rfl rfl
    · rw [if_neg covers, if_neg covers]
      refine ⟨rfl, ?_, nofun⟩
      rintro e ⟨⟩
      rfl

/-- The one row of a frame of one pixel, and what the library makes of it at level 9. -/
def pixelRow : Bytes := [0, 3, 2, 1]
def pixelRowDeflated : Bytes := [0x78, 0xDA, 0x63, 0x60, 0x66, 0x62, 0x04, 0x00, 0x00, 0x12, 0x00, 0x07]

/-- The library on that row, and a zero byte in front of everything else. -/
def pixelZlib : Zlib where
  compress b level := if b = pixelRow ∧ level = 9 then pixelRowDeflated else 0 :: b
  decompress b := if b = pixelRowDeflated then some pixelRow else some b.tail
  decompress_compress b level := by
    by_cases known : b = pixelRow ∧ level = 9
    · rw [if_pos known, if_pos rfl, known.1]
    · rw [if_neg known, if_neg (by simp [pixelRowDeflated]), List.tail_cons]
  length_compress b level small := by
    by_cases known : b = pixelRow ∧ level = 9
    · rw [if_pos known]
      decide
    · rw [if_neg known, List.length_cons]
      omega

theorem toPng_reads_back_pixel : ∃ bytes, (toPng pixelZlib (some 1000) [1, 2, 3] none).out = some bytes ∧
    readPng pixelZlib bytes = some ⟨1, 1, [[⟨3, 2, 1⟩]]⟩ := by
  obtain ⟨raised, _, written⟩ := toPng_reads_back pixelZlib (some 1000) [1, 2, 3] none
  obtain ⟨bytes, file, read⟩ := written (raised.trans (by decide))
  exact ⟨bytes, file, read.trans (by decide)⟩

end LinuxInterview.Wbtest.ToPng
