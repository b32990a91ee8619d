import LinuxInterview.Library.FirstMatch
import LinuxInterview.Rkspy.Driver

namespace LinuxInterview.Rkspy
open Library

/-- The table entry of a buffer: its fixed names always, the assigned ones as long as it lives. -/
structure Tracks (c : Created) (b : Buf) : Prop where
  handle : b.handle = c.create.handle
  flags : b.flags = c.create.flags
  objAddr : b.objAddr = c.create.objAddr
  dmaAddr : b.dmaAddr = c.create.dmaAddr
  size : b.size = c.create.size
  mapped : c.create.dmaAddr ≠ 0#64
  fits : c.create.dmaAddr.toNat + c.create.size.toNat < 2 ^ 64
  fake : ∀ offset, c.live = true → c.offset = some offset → fakeOffsetBase ≤ offset
  moff : c.live = true → b.moff = c.offset.getD 0#64
  va : c.live = true → b.va = c.va.getD 0#64

namespace Tracks

theorem created {c : MemCreate} {created : List Created} (fresh : FreshNames created c) :
    Tracks ⟨c, true, none, none⟩ ⟨c.handle, c.flags, c.objAddr, c.dmaAddr, c.size, 0#64, 0#64⟩ where
  handle := rfl
  flags := rfl
  objAddr := rfl
  dmaAddr := rfl
  size := rfl
  mapped := fresh.2.1
  fits := fresh.2.2
  fake := by simp
  moff := by simp
  va := by simp

theorem mapCall {c : Created} {b : Buf} (tracks : Tracks c b) (handle : BitVec 32)
    (offset : BitVec 64) (fake : fakeOffsetBase ≤ offset) :
    Tracks (assignOffset handle offset c)
      (if b.handle = handle then { b with moff := offset } else b) := by
  have names := tracks.handle
  by_cases here : c.create.handle = handle
  · rw [if_pos (names.trans here)]
    by_cases live : c.live = true
    · rw [assignOffset, if_pos ⟨live, here⟩]
      exact { tracks with
        fake := by rintro _ _ ⟨⟩; exact fake
        moff := fun _ => rfl }
    · rw [assignOffset, if_neg fun ⟨alive, _⟩ => live alive]
      exact { tracks with moff := fun alive => absurd alive live }
  · rw [if_neg (names ▸ here), assignOffset, if_neg fun ⟨_, same⟩ => here same]
    exact tracks

theorem mmapCall {c : Created} {b : Buf} (tracks : Tracks c b) (offset va : BitVec 64)
    (fake : fakeOffsetBase ≤ offset) :
    Tracks (assignVa offset va c) (if b.moff = offset then { b with va := va } else b) := by
  by_cases live : c.live = true
  · have nonzero : ¬ 0#64 = offset := by
      intro zero
      subst zero
      exact absurd fake (by decide)
    have bound : b.moff = offset ↔ c.offset = some offset := by
      rw [tracks.moff live]
      cases c.offset <;> simp [nonzero]
    by_cases here : c.offset = some offset
    · rw [if_pos (bound.mpr here), assignVa, if_pos ⟨live, here⟩]
      exact { tracks with va := fun _ => rfl }
    · rw [if_neg (mt bound.mp here), assignVa, if_neg fun ⟨_, same⟩ => here same]
      exact tracks
  · rw [assignVa, if_neg fun ⟨alive, _⟩ => live alive]
    split
    · exact { tracks with va := fun alive => absurd alive live }
    · exact tracks

theorem ordinaryMmap {c : Created} {b : Buf} (tracks : Tracks c b) (offset va : BitVec 64)
    (ordinary : offset < fakeOffsetBase) : Tracks (assignVa offset va c) b := by
  have unassigned : ¬ (c.live = true ∧ c.offset = some offset) := fun ⟨live, assigned⟩ =>
    absurd (tracks.fake offset live assigned) (by simpa using ordinary)
  simpa [assignVa, unassigned] using tracks

theorem destroyed {c : Created} {b : Buf} (tracks : Tracks c b) (handle : BitVec 32) :
    Tracks (release handle c) b := by
  by_cases here : c.create.handle = handle
  · rw [release, if_pos here]
    exact { tracks with fake := by simp, moff := by simp, va := by simp }
  · rw [release, if_neg here]
    exact tracks

theorem inDma {c : Created} {b : Buf} (tracks : Tracks c b) (d : BitVec 64) :
    c.create.covers d = b.inDma d := by
  have sum : (c.create.dmaAddr + c.create.size).toNat =
      c.create.dmaAddr.toNat + c.create.size.toNat := by
    rw [BitVec.toNat_add, Nat.mod_eq_of_lt tracks.fits]
  have mapped : (c.create.dmaAddr != 0#64) = true := bne_iff_ne.mpr tracks.mapped
  simp [MemCreate.covers, Buf.inDma, tracks.dmaAddr, tracks.size, mapped,
    BitVec.le_def, BitVec.lt_def, sum]

theorem byObj {c : Created} {b : Buf} (tracks : Tracks c b) (o : BitVec 64) :
    (c.create.objAddr == o) = (b.objAddr == o) := by
  rw [tracks.objAddr]

end Tracks

theorem track_step {created : List Created} {t : Tracker} {op : Op}
    (table : List.Forall₂ Tracks created t.bufs) (permitted : Permits created op)
    (room : op.isCreate = true → created.length < maxb) :
    List.Forall₂ Tracks (serve created op) (track t op).bufs := by
  cases op with
  | create c =>
      have space : t.bufs.length < maxb := table.length_eq ▸ room rfl
      simp only [serve, track, ioctl, ne_eq, not_true_eq_false, ↓reduceIte,
        Tracker.push_bufs _ space]
      exact List.rel_append table (.cons (.created permitted) .nil)
  | map handle offset =>
      obtain ⟨_, fake, _⟩ := permitted
      simp only [serve, track, ioctl, ne_eq, not_true_eq_false, ↓reduceIte, Tracker.update_bufs,
        List.forall₂_map_left_iff, List.forall₂_map_right_iff]
      exact table.imp fun _ _ tracks => tracks.mapCall handle offset fake
  | mmap offset va =>
      have succeeded : va ≠ mapFailed := permitted
      by_cases ordinary : offset < fakeOffsetBase
      · simp only [serve, track, noteMap, succeeded, ordinary, or_true, ↓reduceIte,
          List.forall₂_map_left_iff]
        exact table.imp fun _ _ tracks => tracks.ordinaryMmap offset va ordinary
      · simp only [serve, track, noteMap, succeeded, ordinary, or_self, ↓reduceIte,
          Tracker.update_bufs, List.forall₂_map_left_iff, List.forall₂_map_right_iff]
        exact table.imp fun _ _ tracks => tracks.mmapCall offset va (by simpa using ordinary)
  | destroy handle =>
      simp only [serve, track, ioctl, ne_eq, not_true_eq_false, ↓reduceIte,
        List.forall₂_map_left_iff]
      exact table.imp fun _ _ tracks => tracks.destroyed handle

theorem created_length {ops : List Op} {s : System} (run : System.Run ops s) :
    s.created.length = ops.countP Op.isCreate := by
  apply run.history_invariant (fun ops s => s.created.length = ops.countP Op.isCreate) rfl
  rintro events before op after _ ih ⟨-, rfl⟩
  rw [List.countP_append, ← ih]
  cases op <;> simp [Op.isCreate, System.next, serve]

theorem run_tracks {ops : List Op} {s : System} (run : System.Run ops s)
    (few : ops.countP Op.isCreate ≤ maxb) : List.Forall₂ Tracks s.created s.tracker.bufs := by
  revert few
  apply run.history_invariant
    (fun ops s => ops.countP Op.isCreate ≤ maxb → List.Forall₂ Tracks s.created s.tracker.bufs)
    (fun _ => .nil)
  rintro events before op after previous ih ⟨permitted, rfl⟩ few
  rw [List.countP_append] at few
  apply track_step (ih (by omega)) permitted
  intro creates
  rw [created_length previous]
  simp only [List.countP_singleton, creates, ↓reduceIte] at few
  omega

/-! ## Searching the table -/

def AnswersWith (s : System) (named : Created → Bool) : Option Nat → Prop
  | some i => ∃ c b, s.created[i]? = some c ∧ s.tracker.bufs[i]? = some b ∧
      c.live = true ∧ named c = true ∧ b.va = c.va.getD 0#64
  | none => ∀ c ∈ s.created, c.live = true → named c = false

theorem answersWith_iff {s : System} (table : List.Forall₂ Tracks s.created s.tracker.bufs)
    (named : Created → Bool) (found : Option Nat) :
    AnswersWith s named found ↔ Answers named (fun c => c.live = true) s.created found := by
  cases found with
  | none => rfl
  | some i =>
      constructor
      · rintro ⟨c, b, located, _, live, name, _⟩
        exact ⟨c, located, name, live⟩
      · rintro ⟨c, located, name, live⟩
        obtain ⟨b, entry, tracks⟩ := forall₂_getElem? table located
        exact ⟨c, b, located, entry, live, name, tracks.va live⟩

def Created.around (d : BitVec 64) (c : Created) : Bool := c.create.covers d

def Created.object (o : BitVec 64) (c : Created) : Bool := c.create.objAddr == o

def FirstNamedLives (s : System) (named : Created → Bool) : Prop :=
  FirstMatch named (fun c => c.live = true) s.created

theorem lookups_answer_iff {ops : List Op} {s : System} (run : System.Run ops s)
    (few : ops.countP Op.isCreate ≤ maxb) :
    (∀ d, AnswersWith s (Created.around d) (findByDma s.tracker d) ↔
      FirstNamedLives s (Created.around d)) ∧
    (∀ o, AnswersWith s (Created.object o) (findByObj s.tracker o) ↔
      FirstNamedLives s (Created.object o)) := by
  have table := run_tracks run few
  constructor
  · intro d
    have search : findByDma s.tracker d = s.created.findIdx? (Created.around d) :=
      (findIdx?_eq_of_forall₂ table fun _ _ tracks => tracks.inDma d).symm
    rw [answersWith_iff table, search]
    exact answers_findIdx?_iff _ _ _
  · intro o
    have search : findByObj s.tracker o = s.created.findIdx? (Created.object o) :=
      (findIdx?_eq_of_forall₂ table fun _ _ tracks => tracks.byObj o).symm
    rw [answersWith_iff table, search]
    exact answers_findIdx?_iff _ _ _

/-! The allocator hands the first buffer's device range to the second one after the destroy. -/

def firstBuffer : MemCreate := ⟨1, 0, 0x1000, 0xffff0001, 0xff800000⟩

def secondBuffer : MemCreate := ⟨2, 0, 0x1000, 0xffff0002, 0xff800000⟩

def reuse : List Op :=
  [.create firstBuffer, .map 1 0x100000000, .mmap 0x100000000 0xffff8000, .destroy 1,
    .create secondBuffer, .map 2 0x100001000, .mmap 0x100001000 0xffff9000]

def reused : System := reuse.foldl System.next .init

theorem reuse_run : System.Run reuse reused := run_of_permitted (by decide)

theorem reused_range_finds_destroyed :
    System.Run reuse reused ∧ reuse.countP Op.isCreate ≤ maxb ∧
      ¬ AnswersWith reused (Created.around 0xff800010) (findByDma reused.tracker 0xff800010) := by
  refine ⟨reuse_run, by decide, ?_⟩
  have stale : findByDma reused.tracker 0xff800010 = some 0 := by decide
  rw [stale]
  rintro ⟨c, _, located, _, live, _⟩
  have dead : (reused.created[0]?).map Created.live = some false := by decide
  simp [located, live] at dead

theorem lookups_answer_iff_reuse :
    (∀ d, AnswersWith reused (Created.around d) (findByDma reused.tracker d) ↔
      FirstNamedLives reused (Created.around d)) ∧
    (∀ o, AnswersWith reused (Created.object o) (findByObj reused.tracker o) ↔
      FirstNamedLives reused (Created.object o)) :=
  lookups_answer_iff reuse_run (by decide)

end LinuxInterview.Rkspy
