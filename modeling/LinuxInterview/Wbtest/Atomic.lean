import LinuxInterview.Library.RunLengths
import LinuxInterview.Wbtest.Leaks

/-!
# The atomic request of `wbtest.c`

A store or a read past the end of one of the arrays gives no request.
-/

namespace LinuxInterview.Wbtest
open Library

abbrev MAXP : Nat := 96

structure Call where
  obj : UInt32
  prop : UInt32
  val : UInt64
  deriving DecidableEq, Repr

structure Request where
  a_objs : Vector UInt32 MAXP
  a_cnts : Vector UInt32 MAXP
  a_props : Vector UInt32 MAXP
  a_vals : Vector UInt64 MAXP
  a_nobj : Nat
  a_nprop : Nat

def store {α : Type} {n : Nat} (a : Vector α n) (i : Nat) (x : α) : Option (Vector α n) :=
  if h : i < n then some (a.set i x h) else none

namespace Request

def openObj (obj : UInt32) (r : Request) : Option Request := do
  let objs ← store r.a_objs r.a_nobj obj
  let cnts ← store r.a_cnts r.a_nobj 0
  some { r with
    a_objs := objs
    a_cnts := cnts
    a_nobj := r.a_nobj + 1 }

def addProp (call : Call) (r : Request) : Option Request := do
  let props ← store r.a_props r.a_nprop call.prop
  let vals ← store r.a_vals r.a_nprop call.val
  let cnt ← r.a_cnts[r.a_nobj - 1]?
  let cnts ← store r.a_cnts (r.a_nobj - 1) (cnt + 1)
  some { r with
    a_props := props
    a_vals := vals
    a_nprop := r.a_nprop + 1
    a_cnts := cnts }

end Request

def aadd (r : Request) (call : Call) : Option Request :=
  if call.prop = 0 then some r
  else do
    let other ← if r.a_nobj = 0 then some true else (r.a_objs[r.a_nobj - 1]?).map (· != call.obj)
    let r ← if other then r.openObj call.obj else some r
    r.addProp call

structure DrmModeAtomic where
  flags : UInt32
  count_objs : UInt32
  objs : Vector UInt32 MAXP
  count_props : Vector UInt32 MAXP
  props : Vector UInt32 MAXP
  prop_values : Vector UInt64 MAXP

def Request.atomic (flags : UInt32) (r : Request) : DrmModeAtomic where
  flags := flags
  count_objs := UInt32.ofNat r.a_nobj
  objs := r.a_objs
  count_props := r.a_cnts
  props := r.a_props
  prop_values := r.a_vals

def acommit (k : Kernel) (r : Request) (d : Drm) : Int × Request × Drm :=
  match k.call d with
  | (.error errno, d) => (errno, { r with a_nobj := 0, a_nprop := 0 }, d)
  | (.ok (), d) => (0, { r with a_nobj := 0, a_nprop := 0 }, d)

/-- What the kernel takes from the arrays: the next `count_props[i]` properties are for object `i`. -/
def DrmModeAtomic.expand (a : DrmModeAtomic) : List (UInt32 × UInt32 × UInt64) :=
  deal ((a.objs.toList.take a.count_objs.toNat).zip
      ((a.count_props.toList.take a.count_objs.toNat).map UInt32.toNat))
    (a.props.toList.zip a.prop_values.toList)

/-! ## What the arrays hold -/

structure Lists (r : Request) (runs : List (UInt32 × ℕ)) (kept : List Call) : Prop where
  nobj : r.a_nobj = runs.length
  nprop : r.a_nprop = kept.length
  objs : r.a_objs.toList.take runs.length = runs.map Prod.fst
  cnts : (r.a_cnts.toList.take runs.length).map UInt32.toNat = runs.map Prod.snd
  props : r.a_props.toList.take kept.length = kept.map Call.prop
  vals : r.a_vals.toList.take kept.length = kept.map Call.val

theorem store_eq {α : Type} {n i : Nat} (a : Vector α n) (x : α) (inside : i < n) :
    ∃ a', store a i x = some a' ∧ a'.toList.take i = a.toList.take i ∧
      a'.toList.take (i + 1) = a.toList.take i ++ [x] := by
  refine ⟨a.set i x inside, dif_pos inside, ?_, ?_⟩
  · rw [Vector.toList_set, List.take_set_of_le le_rfl]
  · have within : i < (a.toList.set i x).length := by simpa using inside
    rw [Vector.toList_set, ← List.take_append_getElem within, List.take_set_of_le le_rfl]
    simp

theorem lists_openObj {r : Request} {runs : List (UInt32 × ℕ)} {kept : List Call}
    (lists : Lists r runs kept) (room : runs.length < MAXP) (obj : UInt32) :
    ∃ r', r.openObj obj = some r' ∧ Lists r' (runs ++ [(obj, 0)]) kept := by
  obtain ⟨objs, storedObj, -, holdsObj⟩ := store_eq r.a_objs obj room
  obtain ⟨cnts, storedCnt, -, holdsCnt⟩ := store_eq r.a_cnts 0 room
  refine ⟨{ r with a_objs := objs, a_cnts := cnts, a_nobj := r.a_nobj + 1 }, ?_, ?_, lists.nprop, ?_, ?_,
    lists.props, lists.vals⟩
  · rw [Request.openObj, lists.nobj, storedObj, storedCnt]
    rfl
  · simp [lists.nobj]
  · simp [holdsObj, lists.objs]
  · simp [holdsCnt, ← lists.cnts]

theorem lists_addProp {r : Request} {runs : List (UInt32 × ℕ)} {obj : UInt32} {n : ℕ} {kept : List Call}
    (lists : Lists r (runs ++ [(obj, n)]) kept) (roomObj : runs.length < MAXP)
    (roomProp : kept.length < MAXP) (small : n < MAXP) (call : Call) :
    ∃ r', r.addProp call = some r' ∧ Lists r' (runs ++ [(obj, n + 1)]) (kept ++ [call]) := by
  have inside : runs.length < r.a_cnts.toList.length := by simpa using roomObj
  have counts := lists.cnts
  rw [List.length_append, List.length_singleton, ← List.take_append_getElem inside, List.map_append,
    List.map_append] at counts
  obtain ⟨others, last⟩ := List.append_inj' counts rfl
  obtain ⟨props, storedProp, -, holdsProp⟩ := store_eq r.a_props call.prop roomProp
  obtain ⟨vals, storedVal, -, holdsVal⟩ := store_eq r.a_vals call.val roomProp
  obtain ⟨cnts, storedCnt, -, holdsCnt⟩ :=
    store_eq r.a_cnts (r.a_cnts[runs.length] + 1) roomObj
  refine ⟨{ r with a_props := props, a_vals := vals, a_nprop := r.a_nprop + 1, a_cnts := cnts },
    ?_, ?_, ?_, ?_, ?_, ?_, ?_⟩
  · have latest : r.a_nobj - 1 = runs.length := by simp [lists.nobj]
    rw [Request.addProp, lists.nprop, storedProp, storedVal, latest, Vector.getElem?_eq_getElem roomObj]
    simp [storedCnt]
  · simpa using lists.nobj
  · simp [lists.nprop]
  · simpa using lists.objs
  · have counted : r.a_cnts[runs.length].toNat = n := by simpa using last
    have next : (r.a_cnts[runs.length] + 1).toNat = n + 1 := by
      have bound : n < 96 := small
      rw [UInt32.toNat_add, counted, UInt32.toNat_one]
      omega
    simp [holdsCnt, next, ← others]
  · simp [holdsProp, lists.props]
  · simp [holdsVal, lists.vals]

theorem lists_last {r : Request} {others : List (UInt32 × ℕ)} {b : UInt32} {n : ℕ} {kept : List Call}
    (lists : Lists r (others ++ [(b, n)]) kept) :
    r.a_nobj ≠ 0 ∧ r.a_objs[r.a_nobj - 1]? = some b := by
  have latest := congrArg (·[others.length]?) lists.objs
  constructor
  · simp [lists.nobj]
  · simpa [lists.nobj, List.getElem?_take] using latest

theorem lists_aadd {r : Request} {kept : List Call} (lists : Lists r (runsOf (kept.map Call.obj)) kept)
    (room : kept.length < MAXP) (call : Call) (given : call.prop ≠ 0) :
    ∃ r', aadd r call = some r' ∧
      Lists r' (runsOf ((kept ++ [call]).map Call.obj)) (kept ++ [call]) := by
  have fewer := length_runsOf (kept.map Call.obj)
  have later : runsOf ((kept ++ [call]).map Call.obj) = pushRun (runsOf (kept.map Call.obj)) call.obj := by
    rw [List.map_append, List.map_singleton, runsOf_concat]
  have sum := sum_runsOf (kept.map Call.obj)
  rw [List.length_map] at fewer sum
  rw [later, aadd, if_neg given]
  rcases pushRun_cases (runsOf (kept.map Call.obj)) call.obj with
    ⟨others, n, before, pushed⟩ | ⟨other, pushed⟩
  · rw [before] at lists fewer sum
    simp only [List.length_append, List.length_singleton] at fewer
    have small : n ≤ kept.length := by simp at sum; omega
    obtain ⟨any, last⟩ := lists_last lists
    obtain ⟨r', added, lists⟩ :=
      lists_addProp lists (by omega) room (by omega) call
    exact ⟨r', by simp [any, last, added], pushed ▸ lists⟩
  · obtain ⟨r₁, opened, lists₁⟩ := lists_openObj lists (by omega) call.obj
    obtain ⟨r₂, added, lists₂⟩ := lists_addProp lists₁ (by omega) room (by decide) call
    refine ⟨r₂, ?_, pushed ▸ lists₂⟩
    generalize runsOf (kept.map Call.obj) = runs at lists other
    induction runs using List.reverseRecOn with
    | nil => simp [lists.nobj, opened, added]
    | append_singleton others last _ =>
        obtain ⟨any, stored⟩ := lists_last lists
        have differs : last.1 ≠ call.obj := by simpa using other
        simp [any, stored, differs, opened, added]

theorem lists_aadds {r : Request} {kept calls : List Call}
    (lists : Lists r (runsOf (kept.map Call.obj)) kept) (room : kept.length + calls.length ≤ MAXP) :
    ∃ r', calls.foldlM aadd r = some r' ∧
      let kept' := kept ++ calls.filter (·.prop ≠ 0)
      Lists r' (runsOf (kept'.map Call.obj)) kept' := by
  induction calls generalizing r kept with
  | nil => exact ⟨r, rfl, by simpa using lists⟩
  | cons call calls ih =>
      rw [List.length_cons] at room
      by_cases given : call.prop = 0
      · obtain ⟨r', added, lists'⟩ := ih lists (by omega)
        refine ⟨r', ?_, by simpa [given] using lists'⟩
        rw [List.foldlM_cons, aadd, if_pos given]
        exact added
      · obtain ⟨r₁, first, lists₁⟩ := lists_aadd lists (by omega) call given
        obtain ⟨r', added, lists'⟩ := ih lists₁ (by simp; omega)
        refine ⟨r', ?_, by simpa [given] using lists'⟩
        rw [List.foldlM_cons, first]
        exact added

theorem lists_acommit (k : Kernel) (r : Request) (d : Drm) : Lists (acommit k r d).2.1 [] [] := by
  unfold acommit
  split <;> exact ⟨rfl, rfl, rfl, rfl, rfl, rfl⟩

theorem expand_atomic {r : Request} {kept : List Call} (lists : Lists r (runsOf (kept.map Call.obj)) kept)
    (room : kept.length ≤ MAXP) (flags : UInt32) :
    (r.atomic flags).expand = kept.map fun call => (call.obj, call.prop, call.val) := by
  have fewer := length_runsOf (kept.map Call.obj)
  rw [List.length_map] at fewer
  have count : (r.atomic flags).count_objs.toNat = (runsOf (kept.map Call.obj)).length := by
    rw [Request.atomic, lists.nobj, UInt32.toNat_ofNat']
    apply Nat.mod_eq_of_lt
    have bound : kept.length ≤ 96 := room
    omega
  have entries : (r.a_props.toList.zip r.a_vals.toList).take kept.length =
      (kept.map Call.prop).zip (kept.map Call.val) := by
    rw [List.zip, List.take_zipWith, lists.props, lists.vals]
  have sum := sum_runsOf (kept.map Call.obj)
  rw [List.length_map] at sum
  calc (r.atomic flags).expand
      = deal (runsOf (kept.map Call.obj)) (r.a_props.toList.zip r.a_vals.toList) := by
        rw [DrmModeAtomic.expand, count]
        simp [Request.atomic, lists.objs, lists.cnts, List.zip_map']
    _ = deal (runsOf (kept.map Call.obj)) ((kept.map Call.prop).zip (kept.map Call.val)) := by
        rw [← deal_take, sum, entries]
    _ = (kept.map Call.obj).zip ((kept.map Call.prop).zip (kept.map Call.val)) := deal_runsOf _ _
    _ = kept.map fun call => (call.obj, call.prop, call.val) := by simp [List.zip_map']

theorem aadds_roundtrip (k : Kernel) (r : Request) (d : Drm) (calls : List Call)
    (atMost : calls.length ≤ MAXP) :
    ∃ r', calls.foldlM aadd (acommit k r d).2.1 = some r' ∧
      (∀ flags, (r'.atomic flags).expand =
        (calls.filter (·.prop ≠ 0)).map fun call => (call.obj, call.prop, call.val)) ∧
      ((r'.a_cnts.toList.take r'.a_nobj).map UInt32.toNat).sum = r'.a_nprop ∧
      (r'.a_objs.toList.take r'.a_nobj).IsChain (· ≠ ·) := by
  have empty : Lists (acommit k r d).2.1 (runsOf (([] : List Call).map Call.obj)) [] := lists_acommit k r d
  obtain ⟨r', added, lists⟩ := lists_aadds empty (by simpa using atMost)
  have room : (calls.filter (·.prop ≠ 0)).length ≤ MAXP := (List.length_filter_le _ _).trans atMost
  refine ⟨r', added, expand_atomic lists room, ?_, ?_⟩
  · rw [lists.nobj, lists.cnts, sum_runsOf, lists.nprop, List.length_map]
  · rw [lists.nobj, lists.objs]
    exact distinct_runsOf _

def leftover : Request :=
  ⟨Vector.replicate MAXP 41, Vector.replicate MAXP 3, Vector.replicate MAXP 9, Vector.replicate MAXP 7, 5, 60⟩

def planeAndCrtc : List Call := [⟨41, 17, 1⟩, ⟨41, 0, 2⟩, ⟨88, 20, 3⟩, ⟨88, 22, 4⟩, ⟨41, 17, 5⟩]

theorem aadds_roundtrip_refused :
    ∃ r, planeAndCrtc.foldlM aadd (acommit (refusing 0) leftover ⟨∅, 0⟩).2.1 = some r ∧
      (r.atomic 0).expand = [(41, 17, 1), (88, 20, 3), (88, 22, 4), (41, 17, 5)] := by
  obtain ⟨r, added, expanded, -⟩ :=
    aadds_roundtrip (refusing 0) leftover ⟨∅, 0⟩ planeAndCrtc (by decide)
  exact ⟨r, added, expanded 0⟩

end LinuxInterview.Wbtest
