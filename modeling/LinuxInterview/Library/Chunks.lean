import LinuxInterview.Library.Script

/-!
# Byte strings cut into chunks

A chunk is its length, a tag of four bytes, the data, and a check of the tag and the data. The words are
big-endian.
-/

namespace LinuxInterview.Library

def bigEndian32 (n : Nat) : Bytes :=
  [BitVec.ofNat 8 (n / 2 ^ 24), BitVec.ofNat 8 (n / 2 ^ 16), BitVec.ofNat 8 (n / 2 ^ 8), BitVec.ofNat 8 n]

def readWord : Bytes → Option (Nat × Bytes)
  | a :: b :: c :: d :: rest => some (a.toNat * 2 ^ 24 + b.toNat * 2 ^ 16 + c.toNat * 2 ^ 8 + d.toNat, rest)
  | _ => none

theorem readWord_bigEndian32 {n : Nat} (fits : n < 2 ^ 32) (rest : Bytes) :
    readWord (bigEndian32 n ++ rest) = some (n, rest) := by
  simp only [bigEndian32, List.cons_append, List.nil_append, readWord, BitVec.toNat_ofNat, Option.some.injEq,
    Prod.mk.injEq, and_true]
  omega

/-- The check of `zlib.crc32`. -/
def crcBit (c : BitVec 32) : BitVec 32 := if c.getLsbD 0 then (c >>> 1) ^^^ 0xEDB88320#32 else c >>> 1

def crcByte (c : BitVec 32) (byte : BitVec 8) : BitVec 32 := Nat.repeat crcBit 8 (c ^^^ byte.setWidth 32)

def crc32 (bytes : Bytes) : BitVec 32 := ~~~ bytes.foldl crcByte (BitVec.allOnes 32)

example : crc32 [0x49, 0x45, 0x4E, 0x44] = 0xAE426082 := by decide +kernel

structure Chunk where
  tag : Bytes
  data : Bytes
  deriving DecidableEq

def Chunk.check (c : Chunk) : Nat := (crc32 (c.tag ++ c.data)).toNat

def Chunk.encode (c : Chunk) : Bytes :=
  bigEndian32 c.data.length ++ (c.tag ++ (c.data ++ bigEndian32 c.check))

def readChunk (bytes : Bytes) : Option (Chunk × Bytes) := do
  let (n, bytes) ← readWord bytes
  let c : Chunk := ⟨bytes.take 4, (bytes.drop 4).take n⟩
  let (sum, rest) ← readWord (bytes.drop (4 + n))
  if c.tag.length = 4 ∧ c.data.length = n ∧ sum = c.check then some (c, rest) else none

structure Chunk.Fits (c : Chunk) : Prop where
  tag : c.tag.length = 4
  data : c.data.length < 2 ^ 32

theorem readChunk_encode {c : Chunk} (fits : c.Fits) (rest : Bytes) :
    readChunk (c.encode ++ rest) = some (c, rest) := by
  have size := readWord_bigEndian32 fits.data (c.tag ++ (c.data ++ (bigEndian32 c.check ++ rest)))
  have sum := readWord_bigEndian32 (n := c.check) (BitVec.isLt _) rest
  have tag : (c.tag ++ (c.data ++ (bigEndian32 c.check ++ rest))).take 4 = c.tag := List.take_left' fits.tag
  have body : (c.tag ++ (c.data ++ (bigEndian32 c.check ++ rest))).drop 4 = c.data ++ (bigEndian32 c.check ++ rest) :=
    List.drop_left' fits.tag
  simp only [readChunk, Chunk.encode, List.append_assoc, size, Option.bind_eq_bind, Option.bind_some]
  rw [tag, body, List.take_left' rfl, ← List.drop_drop, body, List.drop_left' rfl, sum, Option.bind_some, if_pos]
  exact ⟨fits.tag, rfl, rfl⟩

/-- All chunks of a byte string, of which there are no more than bytes. -/
def takeChunks : Nat → Bytes → Option (List Chunk)
  | _, [] => some []
  | 0, _ :: _ => none
  | fuel + 1, bytes => do
      let (c, rest) ← readChunk bytes
      return c :: (← takeChunks fuel rest)

def readChunks (bytes : Bytes) : Option (List Chunk) := takeChunks bytes.length bytes

theorem Chunk.encode_ne_nil (c : Chunk) (rest : Bytes) : c.encode ++ rest ≠ [] := by simp [Chunk.encode, bigEndian32]

theorem takeChunks_encode {chunks : List Chunk} (fits : ∀ c ∈ chunks, c.Fits) {fuel : Nat}
    (enough : chunks.length ≤ fuel) : takeChunks fuel (chunks.flatMap Chunk.encode) = some chunks := by
  induction chunks generalizing fuel with
  | nil => cases fuel <;> rfl
  | cons c chunks ih =>
      cases fuel with
      | zero => cases enough
      | succ fuel =>
          have rest := ih (fun c member => fits c (List.mem_cons_of_mem _ member)) (Nat.le_of_succ_le_succ enough)
          obtain ⟨first, others, bytes⟩ := List.exists_cons_of_ne_nil (c.encode_ne_nil (chunks.flatMap Chunk.encode))
          rw [List.flatMap_cons, bytes, takeChunks, ← bytes, readChunk_encode (fits c List.mem_cons_self)]
          · simp [rest]
          · simp

theorem readChunks_encode {chunks : List Chunk} (fits : ∀ c ∈ chunks, c.Fits) :
    readChunks (chunks.flatMap Chunk.encode) = some chunks := by
  apply takeChunks_encode fits
  induction chunks with
  | nil => exact Nat.le_refl _
  | cons c chunks ih =>
      have rest := ih fun c member => fits c (List.mem_cons_of_mem _ member)
      have some := List.length_pos_iff.mpr (c.encode_ne_nil [])
      rw [List.append_nil] at some
      rw [List.flatMap_cons, List.length_append, List.length_cons]
      omega

end LinuxInterview.Library
