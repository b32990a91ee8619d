import LinuxInterview.Library.Grouping
import LinuxInterview.Library.Slices
import LinuxInterview.Rkspy.Printed

/-!
# The report of `exp05_tiling.py`

`main` groups the tiles by operation and width and checks the sum of their heights, group by group. An
operand that is `None` ends it where it stands, with the lines before already printed.
-/

namespace LinuxInterview.Rkspy
open Library

def Tile.layer (r : Tile) : Nat × Nat := (r.op, r.W)

def operand (value : Option Nat) : Except PyError Nat :=
  match value with
  | some n => .ok n
  | none => .error .typeError

structure Verdict where
  op : Nat
  W : Nat
  kh : Nat
  sy : Nat
  n : Nat
  total : Nat
  overlap : Int
  base : Int
  deriving DecidableEq

def Verdict.good (v : Verdict) : Bool := v.base = v.W

structure Report where
  ok : Nat
  bad : Nat
  other : List (Nat × Nat × List Nat)
  verdicts : List Verdict

namespace Report

def start : Report := ⟨0, 0, [], []⟩

def judged (r : Report) (v : Verdict) : Report :=
  { r with
    ok := r.ok + if v.good then 1 else 0
    bad := r.bad + if v.good then 0 else 1
    verdicts := r.verdicts ++ [v] }

/-- `max(hs)` of known heights. -/
def maximum (hs : List Nat) : Nat := hs.foldr max 0

/-- One turn of the loop over `groups`. -/
def judge (r : Report) (group : (Nat × Nat) × List Tile) : Except PyError Report :=
  match group with
  | ((op, W), first :: second :: rest) => do
      let rs := first :: second :: rest
      let hs ← rs.mapM fun tile => operand tile.H
      if W ≤ maximum hs then return { r with other := r.other ++ [(op, W, hs)] }
      else
        let sy ← operand first.sy
        let overlap := ((rs.length : Int) - 1) * ((first.kh : Int) - sy)
        return r.judged ⟨op, W, first.kh, sy, rs.length, hs.sum, overlap, (hs.sum : Int) - overlap⟩
  | (_, _) => .ok r

def examine (r : Report) : List ((Nat × Nat) × List Tile) → Report × Option PyError
  | [] => (r, none)
  | group :: groups =>
      match r.judge group with
      | .ok next => next.examine groups
      | .error e => (r, some e)

end Report

structure Printout where
  report : Report
  raised : Option PyError

/-- Where `load` raises nothing has been printed yet. -/
def main (file : Text) (limit : Int) : Except PyError Printout := do
  let rows ← load file limit
  let (report, raised) := Report.start.examine (grouped Tile.layer rows)
  return ⟨report, raised⟩

/-! ## One group -/

/-- A group that is cut by rows and has no stride where its first tile stands. -/
def Strideless (W : Nat) (rs : List Tile) : Prop :=
  2 ≤ rs.length ∧ (∀ r ∈ rs, ∃ h ∈ r.H, h < W) ∧ ∀ r ∈ rs.head?, r.sy = none

theorem maximum_lt_iff {hs : List Nat} (nonempty : hs ≠ []) {W : Nat} :
    Report.maximum hs < W ↔ ∀ h ∈ hs, h < W := by
  induction hs with
  | nil => contradiction
  | cons h hs ih =>
      rw [Report.maximum, List.foldr_cons, max_lt_iff, List.forall_mem_cons]
      cases hs with
      | nil =>
          constructor
          · exact fun below => ⟨below.1, List.forall_mem_nil _⟩
          · exact fun below => ⟨below.1, Nat.zero_lt_of_lt below.1⟩
      | cons next hs => exact and_congr_right fun _ => ih (List.cons_ne_nil _ _)

theorem mapM_operand {rs : List Tile} {hs : List Nat} (heights : rs.map Tile.H = hs.map some) :
    rs.mapM (fun tile => operand tile.H) = .ok hs := by
  induction rs generalizing hs with
  | nil =>
      obtain rfl := List.map_eq_nil_iff.mp heights.symm
      rfl
  | cons r rs ih =>
      obtain ⟨h, rest, rfl, here, later⟩ := List.map_eq_cons_iff.mp heights.symm
      rw [List.mapM_cons, ← here, ih later.symm]
      rfl

theorem exists_heights {rs : List Tile} (known : ∀ r ∈ rs, r.H ≠ none) :
    ∃ hs : List Nat, rs.map Tile.H = hs.map some := by
  induction rs with
  | nil => exact ⟨[], rfl⟩
  | cons r rs ih =>
      rw [List.forall_mem_cons] at known
      obtain ⟨hs, rest⟩ := ih known.2
      obtain ⟨h, here⟩ := Option.ne_none_iff_exists'.mp known.1
      exact ⟨h :: hs, by rw [List.map_cons, List.map_cons, here, rest]⟩

theorem heights_below {rs : List Tile} {hs : List Nat} (heights : rs.map Tile.H = hs.map some) (W : Nat) :
    (∀ r ∈ rs, ∃ h ∈ r.H, h < W) ↔ ∀ h ∈ hs, h < W := by
  have members : ∀ h, (∃ r ∈ rs, r.H = some h) ↔ h ∈ hs := by
    intro h
    have same := congrArg (some h ∈ ·) heights
    simpa using same
  constructor
  · intro below h member
    obtain ⟨r, inside, height⟩ := (members h).mpr member
    obtain ⟨h', known, less⟩ := below r inside
    rw [height] at known
    obtain rfl := Option.some.inj known
    exact less
  · intro below r member
    have height : r.H ∈ rs.map Tile.H := List.mem_map_of_mem member
    rw [heights] at height
    obtain ⟨h, inside, same⟩ := List.mem_map.mp height
    exact ⟨h, same.symm, below h inside⟩

namespace Report

variable {r : Report} {op W : Nat} {rs : List Tile}

theorem judge_single (few : rs.length < 2) : r.judge ((op, W), rs) = .ok r := by
  match rs with
  | [] => rfl
  | [_] => rfl
  | _ :: _ :: rest => simp at few

theorem judge_eq {first : Tile} {rest : List Tile} (several : 1 ≤ rest.length) {hs : List Nat}
    (heights : (first :: rest).map Tile.H = hs.map some) :
    r.judge ((op, W), first :: rest) =
      if W ≤ maximum hs then .ok { r with other := r.other ++ [(op, W, hs)] }
      else do
        let sy ← operand first.sy
        let overlap := ((rest.length + 1 : Nat) - 1 : Int) * ((first.kh : Int) - sy)
        return r.judged ⟨op, W, first.kh, sy, rest.length + 1, hs.sum, overlap, (hs.sum : Int) - overlap⟩ := by
  cases rest with
  | nil => simp at several
  | cons second rest =>
      unfold judge
      simp only [mapM_operand heights]
      rfl

theorem judge_error_iff (known : ∀ tile ∈ rs, tile.H ≠ none) :
    (∃ e, r.judge ((op, W), rs) = .error e) ↔ Strideless W rs := by
  by_cases few : rs.length < 2
  · rw [judge_single few]
    constructor
    · rintro ⟨e, raised⟩
      cases raised
    · rintro ⟨several, _⟩
      omega
  · obtain ⟨hs, heights⟩ := exists_heights known
    obtain ⟨first, rest, rfl⟩ := List.exists_cons_of_length_pos (by omega : 0 < rs.length)
    have several : 1 ≤ rest.length := by
      rw [List.length_cons] at few
      omega
    have nonempty : hs ≠ [] := by
      rintro rfl
      cases heights
    rw [judge_eq several heights, Strideless, heights_below heights, ← maximum_lt_iff nonempty]
    by_cases tall : W ≤ maximum hs
    · rw [if_pos tall]
      constructor
      · rintro ⟨e, raised⟩
        cases raised
      · rintro ⟨_, below, _⟩
        omega
    · rw [if_neg tall]
      cases stride : first.sy with
      | none =>
          refine ⟨fun _ => ⟨by omega, by omega, ?_⟩, fun _ => ⟨.typeError, rfl⟩⟩
          rintro _ ⟨⟩
          exact stride
      | some sy =>
          constructor
          · rintro ⟨e, raised⟩
            cases raised
          · rintro ⟨_, _, missing⟩
            rw [missing first rfl] at stride
            cases stride

theorem judge_verdicts {next : Report} {group : (Nat × Nat) × List Tile} (judged : r.judge group = .ok next) :
    next.verdicts = r.verdicts ∨ ∃ v, next.verdicts = r.verdicts ++ [v] ∧ (v.op, v.W) = group.1 := by
  unfold judge at judged
  split at judged
  · obtain ⟨hs, _, judged⟩ := bind_eq_ok_iff.mp judged
    split at judged
    · cases judged
      exact Or.inl rfl
    · obtain ⟨sy, _, judged⟩ := bind_eq_ok_iff.mp judged
      cases judged
      exact Or.inr ⟨_, rfl, rfl⟩
  · cases judged
    exact Or.inl rfl

/-! ## The loop -/

theorem examine_append (gs hs : List ((Nat × Nat) × List Tile)) (r : Report) :
    r.examine (gs ++ hs) =
      match r.examine gs with
      | (next, none) => next.examine hs
      | (next, some e) => (next, some e) := by
  induction gs generalizing r with
  | nil => rfl
  | cons g gs ih =>
      rw [List.cons_append, examine, examine]
      cases r.judge g with
      | error e => rfl
      | ok next => exact ih next

theorem examine_raised_iff {gs : List ((Nat × Nat) × List Tile)}
    (known : ∀ g ∈ gs, ∀ tile ∈ g.2, tile.H ≠ none) (r : Report) :
    (r.examine gs).2 ≠ none ↔ ∃ g ∈ gs, Strideless g.1.2 g.2 := by
  induction gs generalizing r with
  | nil => simp [examine]
  | cons g gs ih =>
      rw [List.forall_mem_cons] at known
      have here : (∃ e, r.judge g = .error e) ↔ Strideless g.1.2 g.2 := judge_error_iff known.1
      rw [examine, List.exists_mem_cons_iff]
      cases judged : r.judge g with
      | error e =>
          have strideless : Strideless g.1.2 g.2 := here.mp ⟨e, judged⟩
          simp [strideless]
      | ok next =>
          have strided : ¬ Strideless g.1.2 g.2 := by
            intro strideless
            obtain ⟨e, raised⟩ := here.mpr strideless
            rw [judged] at raised
            cases raised
          rw [or_iff_right strided]
          exact ih known.2 next

theorem mem_examine_verdicts {gs : List ((Nat × Nat) × List Tile)} {r : Report} {v : Verdict}
    (said : v ∈ (r.examine gs).1.verdicts) : v ∈ r.verdicts ∨ ∃ g ∈ gs, (v.op, v.W) = g.1 := by
  induction gs generalizing r with
  | nil => exact Or.inl said
  | cons g gs ih =>
      rw [examine] at said
      cases judged : r.judge g with
      | error e =>
          rw [judged] at said
          exact Or.inl said
      | ok next =>
          rw [judged] at said
          rcases ih said with earlier | ⟨other, member, same⟩
          · rcases judge_verdicts judged with kept | ⟨w, added, about⟩
            · exact Or.inl (kept ▸ earlier)
            · rw [added, List.mem_append, List.mem_singleton] at earlier
              rcases earlier with before | rfl
              · exact Or.inl before
              · exact Or.inr ⟨g, List.mem_cons_self, about⟩
          · exact Or.inr ⟨other, List.mem_cons_of_mem g member, same⟩

theorem mem_verdicts_examine {r : Report} {v : Verdict} (said : v ∈ r.verdicts)
    (gs : List ((Nat × Nat) × List Tile)) : v ∈ (r.examine gs).1.verdicts := by
  induction gs generalizing r with
  | nil => exact said
  | cons g gs ih =>
      rw [examine]
      cases judged : r.judge g with
      | error e => exact said
      | ok next =>
          apply ih
          rcases judge_verdicts judged with kept | ⟨w, added, _⟩
          · rw [kept]
            exact said
          · rw [added]
            exact List.mem_append_left [w] said

end Report

end LinuxInterview.Rkspy
