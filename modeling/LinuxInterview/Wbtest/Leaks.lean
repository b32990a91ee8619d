import LinuxInterview.Wbtest.Run

/-!
# What a scenario leaves behind
-/

namespace LinuxInterview.Wbtest
open Library

variable {k : Kernel} {kind : Kind} {d : Drm} {errno : ℕ+}

/-! ## Single calls -/

theorem create_of_success (kind : Kind) (granted : k.outcome d.calls = none) :
    ∃ id, k.create kind d = (.ok id, ⟨insert (kind, id) d.owned, d.calls + 1⟩) ∧ (kind, id) ∉ d.owned :=
  ⟨k.pick d.owned kind, by simp [Kernel.create, granted], k.fresh d.owned kind⟩

theorem create_of_failure (refused : k.outcome d.calls = some errno) :
    k.create kind d = (.error (-errno), ⟨d.owned, d.calls + 1⟩) := by
  simp [Kernel.create, refused]

theorem call_of_success (granted : k.outcome d.calls = none) :
    k.call d = (.ok (), ⟨d.owned, d.calls + 1⟩) := by
  simp [Kernel.call, granted]

theorem call_of_failure (refused : k.outcome d.calls = some errno) :
    k.call d = (.error (-errno), ⟨d.owned, d.calls + 1⟩) := by
  simp [Kernel.call, refused]

theorem neg_errno_ne_zero (errno : ℕ+) : -(errno : Int) ≠ 0 := by
  have positive := errno.pos
  omega

/-! ## One buffer -/

def Granted (k : Kernel) (fmt : Format) (calls : Nat) : Prop :=
  fmt.bpp.isSome ∧ ∀ j < 4, k.outcome (calls + j) = none

structure Buf.Owns (b : Buf) (held : List (Kind × Nat)) : Prop where
  map : ∃ address, b.map = .mapped address ∧
    held = [(.handle, b.handle), (.fb, b.fb), (.map, address)]

theorem mkbuf_granted (b : Buf) (w h : UInt32) {fmt : Format} (granted : Granted k fmt d.calls) :
    ∃ b' held, mkbuf k b w h fmt d = (0, b', ⟨acquireAll held d.owned, d.calls + 4⟩) ∧ b'.Owns held ∧
      ∀ x ∈ held, x ∉ d.owned := by
  obtain ⟨known, outcome⟩ := granted
  obtain ⟨bpp, format⟩ := Option.isSome_iff_exists.mp known
  obtain ⟨handle, first, newHandle⟩ := create_of_success .handle (outcome 0 (by decide))
  obtain ⟨fb, second, newFb⟩ := create_of_success (d := ⟨insert (.handle, handle) d.owned, d.calls + 1⟩)
    .fb (outcome 1 (by decide))
  obtain ⟨address, fourth, newMap⟩ := create_of_success
    (d := ⟨insert (.fb, fb) (insert (.handle, handle) d.owned), d.calls + 3⟩)
    .map (outcome 3 (by decide))
  simp only [Finset.mem_insert, not_or] at newFb newMap
  refine ⟨⟨w, h, fmt, handle, k.pitch w bpp, fb, k.size w (if fmt = .nv12 then h * 3 / 2 else h) bpp,
    .mapped address⟩, [(.handle, handle), (.fb, fb), (.map, address)], ?_, ⟨address, rfl, rfl⟩, ?_⟩
  · simp only [mkbuf, format, first, second]
    rw [call_of_success (outcome 2 (by decide))]
    simp only [fourth]
    rfl
  · simp only [List.forall_mem_cons]
    exact ⟨newHandle, newFb.2, newMap.2.2, by simp⟩

theorem mkbuf_refused (b : Buf) (w h : UInt32) {fmt : Format} (refused : ¬ Granted k fmt d.calls) :
    ∃ held, (mkbuf k b w h fmt d).1 ≠ 0 ∧
      (mkbuf k b w h fmt d).2.2.owned = acquireAll held d.owned ∧ (∀ x ∈ held, x ∉ d.owned) ∧
      (held = [] ↔ fmt.bpp = none ∨ k.outcome d.calls ≠ none) := by
  cases format : fmt.bpp with
  | none => exact ⟨[], by simp [mkbuf, format, einval], by simp [mkbuf, format]; rfl, by simp, by simp⟩
  | some bpp =>
  cases one : k.outcome d.calls with
  | some errno =>
      refine ⟨[], ?_, ?_, by simp, by simp⟩
      all_goals simp only [mkbuf, format, create_of_failure one]
      · exact neg_errno_ne_zero errno
      · rfl
  | none =>
  obtain ⟨handle, first, newHandle⟩ := create_of_success .handle one
  cases two : k.outcome (d.calls + 1) with
  | some errno =>
      refine ⟨[(.handle, handle)], ?_, ?_, by simpa using newHandle, by simp⟩
      all_goals
        simp only [mkbuf, format, first]
        rw [create_of_failure two]
      · exact neg_errno_ne_zero errno
      · rfl
  | none =>
  obtain ⟨fb, second, newFb⟩ := create_of_success (d := ⟨insert (.handle, handle) d.owned, d.calls + 1⟩)
    .fb two
  simp only [Finset.mem_insert, not_or] at newFb
  have twoFresh : ∀ x ∈ [(Kind.handle, handle), (.fb, fb)], x ∉ d.owned := by
    simp only [List.forall_mem_cons]
    exact ⟨newHandle, newFb.2, by simp⟩
  cases three : k.outcome (d.calls + 2) with
  | some errno =>
      refine ⟨[(.handle, handle), (.fb, fb)], ?_, ?_, twoFresh, by simp⟩
      all_goals
        simp only [mkbuf, format, first, second]
        rw [call_of_failure three]
      · exact neg_errno_ne_zero errno
      · rfl
  | none =>
  cases four : k.outcome (d.calls + 3) with
  | some errno =>
      refine ⟨[(.handle, handle), (.fb, fb)], ?_, ?_, twoFresh, by simp⟩
      all_goals
        simp only [mkbuf, format, first, second]
        rw [call_of_success three]
        simp only
        rw [create_of_failure four]
      · exact neg_errno_ne_zero errno
      · rfl
  | none =>
      refine absurd ⟨by rw [format]; rfl, fun j below => ?_⟩ refused
      obtain rfl | rfl | rfl | rfl : j = 0 ∨ j = 1 ∨ j = 2 ∨ j = 3 := by omega
      · exact one
      · exact two
      · exact three
      · exact four

theorem rmbuf_owned {b : Buf} {held : List (Kind × Nat)} (owns : b.Owns held) (d : Drm) :
    (rmbuf b d).2 = ⟨releaseAll held.reverse d.owned, d.calls⟩ := by
  obtain ⟨address, map, rfl⟩ := owns.map
  simp only [rmbuf, map]
  rfl

/-! ## A scenario -/

theorem commitFrames_owned (frames : Nat) (d : Drm) : (commitFrames k frames d).2.owned = d.owned := by
  induction frames generalizing d with
  | zero => rfl
  | succ frames ih =>
      cases outcome : k.outcome d.calls with
      | some errno => simp [commitFrames, call_of_failure outcome]
      | none =>
          simp only [commitFrames, call_of_success outcome]
          split
          · exact ih _
          · rfl

theorem call_owned (d : Drm) : (k.call d).2.owned = d.owned := by
  cases outcome : k.outcome d.calls with
  | some errno => rw [call_of_failure outcome]
  | none => rw [call_of_success outcome]

def ovlCalls (s : Scen) : Nat := if s.overlay ≠ 0 then 4 else 0

/-- Every call that creates something succeeds, and `mkbuf` knows the format that is written back. -/
def AllGranted (k : Kernel) (s : Scen) (calls : Nat) : Prop :=
  s.wbFmt.bpp.isSome ∧ ∀ j < 9 + ovlCalls s, k.outcome (calls + j) = none

variable {s : Scen} {calls : Nat}

theorem AllGranted.prim (all : AllGranted k s calls) : Granted k .xrgb8888 calls :=
  ⟨rfl, fun j below => all.2 j (by omega)⟩

theorem AllGranted.ovl (all : AllGranted k s calls) (overlay : s.overlay ≠ 0) :
    Granted k .argb8888 (calls + 4) := by
  refine ⟨rfl, fun j below => ?_⟩
  rw [Nat.add_assoc]
  exact all.2 (4 + j) (by unfold ovlCalls; rw [if_pos overlay]; omega)

theorem AllGranted.wb (all : AllGranted k s calls) : Granted k s.wbFmt (calls + 4 + ovlCalls s) := by
  refine ⟨all.1, fun j below => ?_⟩
  rw [Nat.add_assoc, Nat.add_assoc]
  exact all.2 _ (by omega)

theorem AllGranted.blob (all : AllGranted k s calls) :
    k.outcome (calls + 4 + ovlCalls s + 4) = none := by
  rw [Nat.add_assoc, Nat.add_assoc]
  exact all.2 _ (by omega)

theorem allGranted (prim : Granted k .xrgb8888 calls)
    (ovl : s.overlay ≠ 0 → Granted k .argb8888 (calls + 4))
    (wb : Granted k s.wbFmt (calls + 4 + ovlCalls s))
    (blob : k.outcome (calls + 4 + ovlCalls s + 4) = none) : AllGranted k s calls := by
  refine ⟨wb.1, fun j below => ?_⟩
  rcases Nat.lt_or_ge j 4 with early | later
  · exact prim.2 j early
  rcases Nat.lt_or_ge j (4 + ovlCalls s) with middle | late
  · have overlay : s.overlay ≠ 0 := by
      intro none
      rw [ovlCalls, if_neg (not_not.mpr none)] at middle
      omega
    have granted := (ovl overlay).2 (j - 4) (by rw [ovlCalls, if_pos overlay] at middle; omega)
    rwa [show calls + 4 + (j - 4) = calls + j by omega] at granted
  rcases Nat.lt_or_ge j (8 + ovlCalls s) with before | last
  · have granted := wb.2 (j - (4 + ovlCalls s)) (by omega)
    rwa [show calls + 4 + ovlCalls s + (j - (4 + ovlCalls s)) = calls + j by omega] at granted
  · rwa [show calls + j = calls + 4 + ovlCalls s + 4 by omega]

def mkovl (k : Kernel) (s : Scen) (d : Drm) : Int × Buf × Drm :=
  if s.overlay ≠ 0 then mkbuf k .zero 512 512 .argb8888 d else (0, .zero, d)

theorem mkovl_granted (granted : s.overlay ≠ 0 → Granted k .argb8888 d.calls) :
    ∃ b held, mkovl k s d = (0, b, ⟨acquireAll held d.owned, d.calls + ovlCalls s⟩) ∧
      (if s.overlay ≠ 0 then b.Owns held else held = []) ∧ ∀ x ∈ held, x ∉ d.owned := by
  unfold mkovl ovlCalls
  by_cases overlay : s.overlay ≠ 0
  · simp only [if_pos overlay]
    exact mkbuf_granted .zero 512 512 (granted overlay)
  · simp only [if_neg overlay]
    exact ⟨.zero, [], rfl, rfl, by simp⟩

theorem mkovl_refused (refused : ¬ (s.overlay ≠ 0 → Granted k .argb8888 d.calls)) :
    ∃ held, (mkovl k s d).1 ≠ 0 ∧ (mkovl k s d).2.2.owned = acquireAll held d.owned ∧
      ∀ x ∈ held, x ∉ d.owned := by
  obtain ⟨overlay, refused⟩ := Classical.not_imp.mp refused
  obtain ⟨held, failed, owned, fresh, -⟩ := mkbuf_refused .zero 512 512 refused
  unfold mkovl
  rw [if_pos overlay]
  exact ⟨held, failed, owned, fresh⟩

theorem Buf.Owns.ne_nil {b : Buf} {held : List (Kind × Nat)} (owns : b.Owns held) : held ≠ [] := by
  obtain ⟨address, -, rfl⟩ := owns.map
  exact List.cons_ne_nil _ _

section Stages

variable {prim ovl wb : Buf} {held held' held'' : List (Kind × Nat)} {d' d'' d''' : Drm}

theorem run_of_prim_failure (failed : (mkbuf k .zero s.primW s.primH .xrgb8888 d).1 ≠ 0) :
    (run k s d).2 = (mkbuf k .zero s.primW s.primH .xrgb8888 d).2.2 := by
  simp only [run]
  rw [if_pos failed]

theorem run_of_ovl_failure (first : mkbuf k .zero s.primW s.primH .xrgb8888 d = (0, prim, d'))
    (failed : (mkovl k s d').1 ≠ 0) : (run k s d).2 = (mkovl k s d').2.2 := by
  unfold mkovl at failed ⊢
  simp only [run, first]
  rw [if_neg (by decide), if_pos failed]

theorem run_of_wb_failure (first : mkbuf k .zero s.primW s.primH .xrgb8888 d = (0, prim, d'))
    (second : mkovl k s d' = (0, ovl, d''))
    (failed : (mkbuf k .zero s.wbW s.wbH s.wbFmt d'').1 ≠ 0) :
    (run k s d).2 = (mkbuf k .zero s.wbW s.wbH s.wbFmt d'').2.2 := by
  unfold mkovl at second
  simp only [run, first, second]
  rw [if_neg (by decide), if_neg (by decide), if_pos failed]

theorem run_of_blob_failure (first : mkbuf k .zero s.primW s.primH .xrgb8888 d = (0, prim, d'))
    (second : mkovl k s d' = (0, ovl, d''))
    (third : mkbuf k .zero s.wbW s.wbH s.wbFmt d'' = (0, wb, d'''))
    (refused : k.outcome d'''.calls = some errno) : (run k s d).2.owned = d'''.owned := by
  unfold mkovl at second
  simp only [run, first, second, third, create_of_failure refused]
  rfl

theorem run_of_success {d₁ d₂ d₃ : Drm} {blob : Nat}
    (first : mkbuf k .zero s.primW s.primH .xrgb8888 d = (0, prim, d₁))
    (second : mkovl k s d₁ = (0, ovl, d₂))
    (third : mkbuf k .zero s.wbW s.wbH s.wbFmt d₂ = (0, wb, d₃))
    (fourth : k.create .blob d₃ = (.ok blob, d'))
    (primOwns : prim.Owns held) (ovlOwns : if s.overlay ≠ 0 then ovl.Owns held' else held' = [])
    (wbOwns : wb.Owns held'') :
    (run k s d).2.owned =
      releaseAll ([(.blob, blob)] ++ held.reverse ++ held'.reverse ++ held''.reverse) d'.owned := by
  unfold mkovl at second
  simp only [run, first, second, third, fourth]
  rw [if_neg (by decide), if_neg (by decide), if_neg (by decide)]
  have committed : (destroy .blob blob (k.call (commitFrames k s.frames.toInt.toNat d').2).2).owned =
      releaseAll [(.blob, blob)] d'.owned := by
    show Finset.erase _ _ = Finset.erase _ _
    rw [call_owned, commitFrames_owned]
  simp only [rmbuf_owned primOwns, rmbuf_owned wbOwns, List.append_assoc, releaseAll_append]
  split at ovlOwns
  case isTrue overlay =>
    simp only [if_pos overlay, rmbuf_owned ovlOwns, committed]
  case isFalse overlay =>
    subst ovlOwns
    simp only [if_neg overlay, committed]
    rfl

end Stages

/-- Once the first buffer is there, every failure of a creating call leaves it behind. -/
theorem run_after_prim (prim : Granted k .xrgb8888 d.calls) :
    (run k s d).2.owned = d.owned ↔ AllGranted k s d.calls := by
  obtain ⟨prim', held, first, primOwns, fresh⟩ := mkbuf_granted .zero s.primW s.primH prim
  have kept : ∀ later, (∀ x ∈ later, x ∉ acquireAll held d.owned) →
      acquireAll later (acquireAll held d.owned) ≠ d.owned := by
    intro later laterFresh same
    rw [← acquireAll_append, acquireAll_eq_self_iff (fresh_append fresh laterFresh)] at same
    exact primOwns.ne_nil (List.append_eq_nil_iff.mp same).1
  by_cases ovl : s.overlay ≠ 0 → Granted k .argb8888 (d.calls + 4)
  case neg =>
    obtain ⟨held', failed, owned, fresh'⟩ := mkovl_refused (d := ⟨acquireAll held d.owned, d.calls + 4⟩) ovl
    rw [run_of_ovl_failure first failed, owned]
    exact iff_of_false (kept held' fresh') fun all => ovl all.ovl
  obtain ⟨ovl', held', second, ovlOwns, fresh'⟩ :=
    mkovl_granted (d := ⟨acquireAll held d.owned, d.calls + 4⟩) ovl
  by_cases wb : Granted k s.wbFmt (d.calls + 4 + ovlCalls s)
  case neg =>
    obtain ⟨held'', failed, owned, fresh'', -⟩ := mkbuf_refused
      (d := ⟨acquireAll held' (acquireAll held d.owned), d.calls + 4 + ovlCalls s⟩) .zero s.wbW s.wbH wb
    rw [run_of_wb_failure first second failed, owned]
    simp only [← acquireAll_append held'] at fresh'' ⊢
    refine iff_of_false (kept _ (fresh_append fresh' ?_)) fun all => wb all.wb
    simpa only [acquireAll_append] using fresh''
  obtain ⟨wb', held'', third, wbOwns, fresh''⟩ := mkbuf_granted
    (d := ⟨acquireAll held' (acquireAll held d.owned), d.calls + 4 + ovlCalls s⟩) .zero s.wbW s.wbH wb
  cases blob : k.outcome (d.calls + 4 + ovlCalls s + 4) with
  | some errno =>
      rw [run_of_blob_failure first second third blob]
      simp only [← acquireAll_append held'] at fresh'' ⊢
      refine iff_of_false (kept _ (fresh_append fresh' ?_)) fun all => ?_
      · simpa only [acquireAll_append] using fresh''
      · exact Option.some_ne_none _ (blob.symm.trans all.blob)
  | none =>
      obtain ⟨id, fourth, newBlob⟩ := create_of_success (d := ⟨acquireAll held'' (acquireAll held'
        (acquireAll held d.owned)), d.calls + 4 + ovlCalls s + 4⟩) .blob blob
      rw [run_of_success first second third fourth primOwns ovlOwns wbOwns]
      refine iff_of_true ?_ (allGranted prim ovl wb blob)
      have owned : insert (.blob, id) (acquireAll held'' (acquireAll held' (acquireAll held d.owned))) =
          acquireAll (held ++ (held' ++ (held'' ++ [(.blob, id)]))) d.owned := by
        simp only [acquireAll_append]
        rfl
      show releaseAll _ (insert _ _) = _
      rw [owned]
      apply releaseAll_acquireAll
      · apply fresh_append fresh
        apply fresh_append fresh'
        apply fresh_append fresh''
        simpa using newBlob
      · intro x
        simp only [List.mem_append, List.mem_reverse, List.mem_singleton]
        simp only [or_comm, or_left_comm]

theorem run_leaks_nothing_iff (k : Kernel) (s : Scen) (d : Drm) :
    (run k s d).2.owned = d.owned ↔ k.outcome d.calls ≠ none ∨ AllGranted k s d.calls := by
  by_cases prim : Granted k .xrgb8888 d.calls
  · have granted : ¬ k.outcome d.calls ≠ none := not_not.mpr (prim.2 0 (by decide))
    rw [run_after_prim prim, or_iff_right granted]
  · obtain ⟨held, failed, owned, fresh, empty⟩ := mkbuf_refused .zero s.primW s.primH prim
    rw [run_of_prim_failure failed, owned, acquireAll_eq_self_iff fresh, empty]
    constructor
    · rintro (unknown | refused)
      · contradiction
      · exact Or.inl refused
    · rintro (refused | all)
      · exact Or.inr refused
      · exact absurd all.prim prim

def nextId (owned : Owned) : Nat := (owned.image Prod.snd).sup id + 1

theorem nextId_fresh (owned : Owned) (kind : Kind) : (kind, nextId owned) ∉ owned := by
  intro used
  have bounded : nextId owned ≤ (owned.image Prod.snd).sup id :=
    Finset.le_sup (f := id) (Finset.mem_image_of_mem Prod.snd used)
  unfold nextId at bounded
  omega

def refusing (refused : Nat) : Kernel where
  outcome call := if call = refused then some 12 else none
  poll _ := true
  pitch w bpp := w * bpp / 8
  size w h bpp := (w * h * bpp / 8).toUInt64
  pick owned _ := nextId owned
  fresh := nextId_fresh

/-- The second `DRM_IOCTL_MODE_CREATE_DUMB` fails, and `run` returns without `rmbuf(&prim)`. -/
theorem run_keeps_primary :
    (run (refusing 4) ⟨1920, 1080, 0, 1920, 1080, .xrgb8888, 1⟩ ⟨∅, 0⟩).2.owned ≠ ∅ := by
  decide

end LinuxInterview.Wbtest
