import LinuxInterview.Library.Assignments
import LinuxInterview.Wbtest.Atomic

/-!
# What a scenario of `wbtest.c` links, it unlinks

The commits of `run` with what they say. The kernel keeps a value for each property of each object; a commit
that it accepts sets those of the request in their order, and one that it refuses sets none. Every ioctl that asks
for a property can fail, too; a property that is not found is left out of its request.
-/

namespace LinuxInterview.Wbtest
open Library

/-- What the driver answers about its objects: the identifiers and values of the properties of an object of a
type, and of a property its name and its enumeration. `fails` numbers the ioctls that ask for one of these. -/
structure Device where
  properties : UInt32 → UInt32 → Option (List (UInt32 × UInt64))
  name : UInt32 → Option String
  enums : UInt32 → Option (List (String × UInt64))
  fails : Nat → Bool

def DRM_MODE_OBJECT_CRTC : UInt32 := 0xcccccccc
def DRM_MODE_OBJECT_CONNECTOR : UInt32 := 0xc0c0c0c0
def DRM_MODE_OBJECT_PLANE : UInt32 := 0xeeeeeeee
def DRM_MODE_ATOMIC_ALLOW_MODESET : UInt32 := 0x400

/-- A property by the object, its type and the name that is looked for. -/
abbrev Named := UInt32 × UInt32 × String

/-- The loop of `propFind`, which goes on to the next property when it cannot learn the name of one. -/
def findName (dev : Device) (name : String) : List (UInt32 × UInt64) → Nat → UInt32 × Nat
  | [], asked => (0, asked)
  | entry :: entries, asked =>
      if dev.fails asked = false ∧ dev.name entry.1 = some name then (entry.1, asked + 1)
      else findName dev name entries (asked + 1)

/-- With a null `val`, when `asked` of these ioctls have been made; the second result counts those it has made, too. -/
def propFind (dev : Device) (n : Named) (asked : Nat) : UInt32 × Nat :=
  if dev.fails asked then (0, asked + 1)
  else
    match dev.properties n.1 n.2.1 with
    | none => (0, asked + 1)
    | some entries =>
        if 128 < entries.length then (0, asked + 1)
        else if dev.fails (asked + 1) then (0, asked + 2)
        else findName dev n.2.2 entries (asked + 2)

def propEnum (dev : Device) (prop : UInt32) (name : String) (asked : Nat) : Int64 × Nat :=
  if dev.fails asked then (-1, asked + 1)
  else
    match dev.enums prop with
    | none => (-1, asked + 1)
    | some entries =>
        if 32 < entries.length then (-1, asked + 1)
        else if dev.fails (asked + 1) then (-1, asked + 2)
        else ((entries.find? fun entry => entry.1 = name).elim (-1) fun entry => entry.2.toInt64, asked + 2)

/-- What `find_resources` has found. -/
structure Resources where
  crtc_id : UInt32
  wb_conn : UInt32
  prim_plane : UInt32
  ovl_plane : UInt32

/-- The locals of `run` and what it reads of its mode, when the first frame is sent. -/
structure Setup where
  scen : Scen
  blend : Option String
  hdisplay : UInt16
  vdisplay : UInt16
  prim : Buf
  ovl : Buf
  wb : Buf
  blob_id : UInt32
  out_fence : UInt64

/-- A line `aadd(obj, prop_find(obj, type, name, NULL), val)` of the source. -/
abbrev Line := Named × UInt64

/-- The calls that such lines make, one after the other. -/
def lookUp (dev : Device) : List Line → Nat → List Call × Nat
  | [], asked => ([], asked)
  | (n, val) :: lines, asked =>
      let (prop, asked) := propFind dev n asked
      let (calls, asked) := lookUp dev lines asked
      (⟨n.1, prop, val⟩ :: calls, asked)

section Calls

variable (dev : Device) (res : Resources) (s : Setup)

def planeSet (plane : UInt32) (b : Option Buf) (cx cy cw ch : UInt32) : List Line :=
  let line (name : String) (val : UInt64) : Line := ((plane, DRM_MODE_OBJECT_PLANE, name), val)
  [line "FB_ID" (b.elim 0 fun b => (UInt32.ofNat b.fb).toUInt64),
    line "CRTC_ID" (b.elim 0 fun _ => res.crtc_id.toUInt64)] ++
    match b with
    | none => []
    | some b =>
        [line "SRC_X" 0, line "SRC_Y" 0, line "SRC_W" (b.w.toUInt64 <<< 16), line "SRC_H" (b.h.toUInt64 <<< 16),
          line "CRTC_X" cx.toUInt64, line "CRTC_Y" cy.toUInt64, line "CRTC_W" cw.toUInt64,
          line "CRTC_H" ch.toUInt64]

def blendCalls (asked : Nat) : List Call × Nat :=
  match s.blend with
  | none => ([], asked)
  | some blend =>
      let (bp, asked) := propFind dev (res.ovl_plane, DRM_MODE_OBJECT_PLANE, "pixel blend mode") asked
      let (v, asked) := if bp = 0 then (-1, asked) else propEnum dev bp blend asked
      (if 0 ≤ v then [⟨res.ovl_plane, bp, v.toUInt64⟩] else [], asked)

/-- What the first frame sends besides the blend mode and the lines of every frame. -/
def firstLines : List Line :=
  [((res.crtc_id, DRM_MODE_OBJECT_CRTC, "MODE_ID"), s.blob_id.toUInt64),
    ((res.crtc_id, DRM_MODE_OBJECT_CRTC, "ACTIVE"), 1)] ++
    planeSet res res.prim_plane (some s.prim) 0 0 s.hdisplay.toUInt32 s.vdisplay.toUInt32 ++
    if s.scen.overlay ≠ 0 then planeSet res res.ovl_plane (some s.ovl) 200 200 512 512 else []

def wbLines : List Line :=
  [((res.wb_conn, DRM_MODE_OBJECT_CONNECTOR, "CRTC_ID"), res.crtc_id.toUInt64),
    ((res.wb_conn, DRM_MODE_OBJECT_CONNECTOR, "WRITEBACK_FB_ID"), (UInt32.ofNat s.wb.fb).toUInt64),
    ((res.wb_conn, DRM_MODE_OBJECT_CONNECTOR, "WRITEBACK_OUT_FENCE_PTR"), s.out_fence)]

def firstCalls (asked : Nat) : List Call × Nat :=
  let (calls, asked) := lookUp dev (firstLines res s) asked
  let (blend, asked) := if s.scen.overlay ≠ 0 then blendCalls dev res s asked else ([], asked)
  (calls ++ blend, asked)

def frameCalls (f asked : Nat) : List Call × Nat :=
  let (first, asked) := if f = 0 then firstCalls dev res s asked else ([], asked)
  let (wb, asked) := lookUp dev (wbLines res s) asked
  (first ++ wb, asked)

def disableLines : List Line :=
  planeSet res res.prim_plane none 0 0 0 0 ++
    (if s.scen.overlay ≠ 0 then planeSet res res.ovl_plane none 0 0 0 0 else []) ++
    [((res.wb_conn, DRM_MODE_OBJECT_CONNECTOR, "CRTC_ID"), 0), ((res.crtc_id, DRM_MODE_OBJECT_CRTC, "ACTIVE"), 0),
      ((res.crtc_id, DRM_MODE_OBJECT_CRTC, "MODE_ID"), 0)]

def disableCalls (asked : Nat) : List Call × Nat := lookUp dev (disableLines res s) asked

end Calls

/-- The value of a property of an object. -/
abbrev Values := UInt32 × UInt32 → UInt64

def DrmModeAtomic.applied (a : DrmModeAtomic) (v : Values) : Values :=
  assign (a.expand.map fun (obj, prop, val) => ((obj, prop), val)) v

/-- The arrays of the request, what the process owns, what the kernel shows, and how often it has been asked for a
property. -/
structure Display where
  request : Request
  drm : Drm
  values : Values
  asked : Nat

def Display.commit (k : Kernel) (flags : UInt32) (x : Display) : Int × Display :=
  let (r, request, drm) := acommit k x.request x.drm
  (r, ⟨request, drm, if r = 0 then (x.request.atomic flags).applied x.values else x.values, x.asked⟩)

def Display.add (x : Display) (made : List Call × Nat) : Option Display :=
  (made.1.foldlM aadd x.request).map fun request => { x with
    request := request
    asked := made.2 }

section Run

variable (k : Kernel) (dev : Device) (res : Resources) (s : Setup)

/-- The frames from the one numbered `f` on. -/
def showFrames : Nat → Nat → Display → Option (Int × Display)
  | _, 0, x => some (0, x)
  | f, frames + 1, x => do
      let x ← x.add (frameCalls dev res s f x.asked)
      let (r, x) := x.commit k (if f = 0 then DRM_MODE_ATOMIC_ALLOW_MODESET else 0)
      if r ≠ 0 then some (r, x)
      else if k.poll x.drm.calls then showFrames (f + 1) frames x
      else some (-etimedout, x)

/-- The results of the frames and of the commit that turns everything off. -/
def showScen (x : Display) : Option (Int × Int × Display) := do
  let (ret, x) ← showFrames k dev res s 0 s.scen.frames.toInt.toNat x
  let x ← x.add (disableCalls dev res s x.asked)
  let (r, x) := x.commit k DRM_MODE_ATOMIC_ALLOW_MODESET
  return (ret, r, x)

end Run

/-! ## The names of the properties -/

/-- What ties a framebuffer, a mode or a CRTC to another object, or drives it. -/
def linkNames (res : Resources) (s : Setup) : List Named :=
  let plane (id : UInt32) : List Named := [(id, DRM_MODE_OBJECT_PLANE, "FB_ID"), (id, DRM_MODE_OBJECT_PLANE, "CRTC_ID")]
  plane res.prim_plane ++ (if s.scen.overlay ≠ 0 then plane res.ovl_plane else []) ++
    [(res.wb_conn, DRM_MODE_OBJECT_CONNECTOR, "CRTC_ID"), (res.crtc_id, DRM_MODE_OBJECT_CRTC, "ACTIVE"),
      (res.crtc_id, DRM_MODE_OBJECT_CRTC, "MODE_ID")]

/-- What only says how a linked plane is shown, or is taken by one commit. -/
def plainNames (res : Resources) (s : Setup) : List Named :=
  let plane (id : UInt32) : List Named :=
    ["SRC_X", "SRC_Y", "SRC_W", "SRC_H", "CRTC_X", "CRTC_Y", "CRTC_W", "CRTC_H"].map
      fun name => (id, DRM_MODE_OBJECT_PLANE, name)
  plane res.prim_plane ++
    (if s.scen.overlay ≠ 0 then plane res.ovl_plane ++ [(res.ovl_plane, DRM_MODE_OBJECT_PLANE, "pixel blend mode")]
      else []) ++
    [(res.wb_conn, DRM_MODE_OBJECT_CONNECTOR, "WRITEBACK_FB_ID"),
      (res.wb_conn, DRM_MODE_OBJECT_CONNECTOR, "WRITEBACK_OUT_FENCE_PTR")]

/-- The property that a line finds when no ioctl fails, or 0. -/
def Named.prop (dev : Device) (n : Named) : UInt32 :=
  match dev.properties n.1 n.2.1 with
  | none => 0
  | some entries =>
      if 128 < entries.length then 0
      else (entries.find? fun entry => dev.name entry.1 = some n.2.2).elim 0 Prod.fst

def Named.key (dev : Device) (n : Named) : UInt32 × UInt32 := (n.1, n.prop dev)

/-- The object has a property with this identifier and the name. -/
def Named.Is (dev : Device) (n : Named) (key : UInt32 × UInt32) : Prop :=
  key.1 = n.1 ∧ (∃ entries, dev.properties n.1 n.2.1 = some entries ∧ key.2 ∈ entries.map Prod.fst) ∧
    dev.name key.2 = some n.2.2

def Call.key (c : Call) : UInt32 × UInt32 := (c.obj, c.prop)

variable {k : Kernel} {dev : Device} {res : Resources} {s : Setup}

/-! ## Looking a property up -/

theorem findName_named {name : String} {entries : List (UInt32 × UInt64)} {asked : Nat}
    (found : (findName dev name entries asked).1 ≠ 0) :
    (findName dev name entries asked).1 ∈ entries.map Prod.fst ∧
      dev.name (findName dev name entries asked).1 = some name := by
  induction entries generalizing asked with
  | nil => exact absurd rfl found
  | cons entry entries ih =>
      rw [findName] at found ⊢
      by_cases here : dev.fails asked = false ∧ dev.name entry.1 = some name
      · rw [if_pos here]
        exact ⟨List.mem_cons_self, here.2⟩
      · rw [if_neg here] at found ⊢
        exact ⟨List.mem_cons_of_mem _ (ih found).1, (ih found).2⟩

theorem le_findName (name : String) (entries : List (UInt32 × UInt64)) (asked : Nat) :
    asked ≤ (findName dev name entries asked).2 := by
  induction entries generalizing asked with
  | nil => exact le_rfl
  | cons entry entries ih =>
      rw [findName]
      split_ifs
      · exact Nat.le_succ asked
      · exact (Nat.le_succ asked).trans (ih (asked + 1))

/-- None of the ioctls between these two fails. -/
def Served (dev : Device) (first last : Nat) : Prop := ∀ i, first ≤ i → i < last → dev.fails i = false

theorem findName_served {name : String} {entries : List (UInt32 × UInt64)} {asked : Nat}
    (served : Served dev asked (findName dev name entries asked).2) :
    (findName dev name entries asked).1 =
      (entries.find? fun entry => dev.name entry.1 = some name).elim 0 Prod.fst := by
  induction entries generalizing asked with
  | nil => rfl
  | cons entry entries ih =>
      rw [findName] at served ⊢
      by_cases named : dev.name entry.1 = some name
      · have made : dev.fails asked = false := by
          refine served asked le_rfl ?_
          split_ifs
          · exact Nat.lt_succ_self asked
          · exact le_findName _ _ _
        rw [if_pos ⟨made, named⟩, List.find?_cons_of_pos (by simpa using named)]
        rfl
      · rw [if_neg fun both => named both.2] at served ⊢
        rw [ih fun i low high => served i ((Nat.le_succ asked).trans low) high,
          List.find?_cons_of_neg (by simpa using named)]

variable (dev) in
theorem propFind_cases (n : Named) (asked : Nat) :
    ((propFind dev n asked).1 = 0 ∧ asked < (propFind dev n asked).2 ∧
      (Served dev asked (propFind dev n asked).2 → n.prop dev = 0)) ∨
    ∃ entries, dev.properties n.1 n.2.1 = some entries ∧ n.prop dev =
      (entries.find? fun entry => dev.name entry.1 = some n.2.2).elim 0 Prod.fst ∧
      propFind dev n asked = findName dev n.2.2 entries (asked + 2) := by
  by_cases first : dev.fails asked = true
  · have same : propFind dev n asked = (0, asked + 1) := if_pos first
    rw [same]
    exact .inl ⟨rfl, Nat.lt_succ_self asked, fun served =>
      absurd (served asked le_rfl (Nat.lt_succ_self asked)) (by simp [first])⟩
  · cases known : dev.properties n.1 n.2.1 with
    | none =>
        have same : propFind dev n asked = (0, asked + 1) := by rw [propFind, if_neg first, known]
        rw [same]
        exact .inl ⟨rfl, Nat.lt_succ_self asked, fun _ => by rw [Named.prop, known]⟩
    | some entries =>
        by_cases many : 128 < entries.length
        · have same : propFind dev n asked = (0, asked + 1) := by simp only [propFind, first, known, many]; rfl
          rw [same]
          exact .inl ⟨rfl, Nat.lt_succ_self asked, fun _ => by simp only [Named.prop, known, many, if_true]⟩
        · by_cases second : dev.fails (asked + 1) = true
          · have same : propFind dev n asked = (0, asked + 2) := by
              simp only [propFind, first, known, many, second]
              rfl
            rw [same]
            exact .inl ⟨rfl, Nat.lt_add_of_pos_right Nat.two_pos, fun served =>
              absurd (served (asked + 1) (Nat.le_succ asked) (Nat.lt_succ_self _)) (by simp [second])⟩
          · refine .inr ⟨entries, rfl, by simp only [Named.prop, known, many, if_false], ?_⟩
            simp only [propFind, first, known, many, second]
            rfl

theorem propFind_named {n : Named} {asked : Nat} (found : (propFind dev n asked).1 ≠ 0) :
    n.Is dev (n.1, (propFind dev n asked).1) := by
  rcases propFind_cases dev n asked with ⟨none, -⟩ | ⟨entries, known, -, same⟩
  · exact absurd none found
  · rw [same] at found ⊢
    obtain ⟨inside, named⟩ := findName_named found
    exact ⟨rfl, ⟨entries, known, inside⟩, named⟩

theorem le_propFind (n : Named) (asked : Nat) : asked ≤ (propFind dev n asked).2 := by
  rcases propFind_cases dev n asked with ⟨-, later, -⟩ | ⟨entries, -, -, same⟩
  · exact later.le
  · rw [same]
    exact (Nat.le_add_right asked 2).trans (le_findName _ _ _)

theorem propFind_served {n : Named} {asked : Nat} (served : Served dev asked (propFind dev n asked).2) :
    (propFind dev n asked).1 = n.prop dev := by
  rcases propFind_cases dev n asked with ⟨none, -, absent⟩ | ⟨entries, -, prop, same⟩
  · rw [none, absent served]
  · rw [same] at served ⊢
    rw [prop]
    exact findName_served fun i low high => served i ((Nat.le_add_right asked 2).trans low) high

/-! ## The calls of some lines -/

theorem length_lookUp (lines : List Line) (asked : Nat) : (lookUp dev lines asked).1.length = lines.length := by
  induction lines generalizing asked with
  | nil => rfl
  | cons line lines ih => simp only [lookUp, List.length_cons, ih]

theorem le_lookUp (lines : List Line) (asked : Nat) : asked ≤ (lookUp dev lines asked).2 := by
  induction lines generalizing asked with
  | nil => exact le_rfl
  | cons line lines ih => exact (le_propFind line.1 asked).trans (ih _)

theorem mem_lookUp {lines : List Line} {asked : Nat} {c : Call} (member : c ∈ (lookUp dev lines asked).1) :
    ∃ line ∈ lines, c.val = line.2 ∧ (c.prop ≠ 0 → line.1.Is dev c.key) := by
  induction lines generalizing asked with
  | nil => cases member
  | cons line lines ih =>
      rcases List.mem_cons.mp member with rfl | later
      · exact ⟨line, List.mem_cons_self, rfl, propFind_named⟩
      · obtain ⟨other, inside, rest⟩ := ih later
        exact ⟨other, List.mem_cons_of_mem _ inside, rest⟩

/-- When no ioctl fails, every line asks for what the driver's table gives. -/
theorem lookUp_served {lines : List Line} {asked : Nat} (served : Served dev asked (lookUp dev lines asked).2) :
    (lookUp dev lines asked).1 = lines.map fun line => ⟨line.1.1, line.1.prop dev, line.2⟩ := by
  induction lines generalizing asked with
  | nil => rfl
  | cons line lines ih =>
      have first : (propFind dev line.1 asked).1 = line.1.prop dev :=
        propFind_served fun i low high => served i low (high.trans_le (le_lookUp lines _))
      have rest := ih fun i low high => served i ((le_propFind line.1 asked).trans low) high
      rw [List.map_cons, ← first, ← rest]
      rfl

theorem key_firstLines {line : Line} (member : line ∈ firstLines res s) :
    line.1 ∈ linkNames res s ++ plainNames res s := by
  unfold firstLines planeSet at member
  simp only [List.mem_append, List.mem_cons, List.not_mem_nil, or_false, List.mem_ite_nil_right] at member
  rcases member with ((rfl | rfl) | (rfl | rfl) | rfl | rfl | rfl | rfl | rfl | rfl | rfl | rfl) |
    ⟨overlay, (rfl | rfl) | rfl | rfl | rfl | rfl | rfl | rfl | rfl | rfl⟩
  all_goals simp [linkNames, plainNames, *]

theorem key_wbLines {line : Line} (member : line ∈ wbLines res s) :
    line.1 ∈ linkNames res s ++ plainNames res s := by
  simp only [wbLines, List.mem_cons, List.not_mem_nil, or_false] at member
  rcases member with rfl | rfl | rfl
  all_goals simp [linkNames, plainNames]

theorem key_blendCalls {asked : Nat} {c : Call} (member : c ∈ (blendCalls dev res s asked).1) (given : c.prop ≠ 0) :
    Named.Is dev (res.ovl_plane, DRM_MODE_OBJECT_PLANE, "pixel blend mode") c.key := by
  unfold blendCalls at member
  cases blend : s.blend with
  | none => simp [blend] at member
  | some name =>
      simp only [blend] at member
      obtain ⟨-, only⟩ := List.mem_ite_nil_right.mp member
      obtain rfl := List.mem_singleton.mp only
      exact propFind_named given

/-- A property that the scenario can set. -/
def Sets (dev : Device) (res : Resources) (s : Setup) (key : UInt32 × UInt32) : Prop :=
  ∃ n ∈ linkNames res s ++ plainNames res s, n.Is dev key

theorem key_frameCalls {f asked : Nat} {c : Call} (member : c ∈ (frameCalls dev res s f asked).1)
    (given : c.prop ≠ 0) : Sets dev res s c.key := by
  unfold frameCalls firstCalls at member
  rcases List.mem_append.mp member with first | wb
  · split_ifs at first with begins overlay
    · rcases List.mem_append.mp first with lines | blend
      · obtain ⟨line, inside, -, named⟩ := mem_lookUp lines
        exact ⟨line.1, key_firstLines inside, named given⟩
      · exact ⟨_, by simp [plainNames, overlay], key_blendCalls blend given⟩
    · rcases List.mem_append.mp first with lines | none
      · obtain ⟨line, inside, -, named⟩ := mem_lookUp lines
        exact ⟨line.1, key_firstLines inside, named given⟩
      · cases none
    · cases first
  · obtain ⟨line, inside, -, named⟩ := mem_lookUp wb
    exact ⟨line.1, key_wbLines inside, named given⟩

theorem disableLines_eq (res : Resources) (s : Setup) : disableLines res s = (linkNames res s).map fun n => (n, 0) := by
  unfold disableLines linkNames
  split <;> rfl

variable (dev res s) in
theorem length_frameCalls (f asked : Nat) : (frameCalls dev res s f asked).1.length ≤ MAXP := by
  have blend (asked : Nat) : (blendCalls dev res s asked).1.length ≤ 1 := by
    unfold blendCalls
    cases s.blend with
    | none => exact Nat.zero_le 1
    | some name =>
        dsimp only
        split_ifs <;> simp
  have lines : (firstLines res s).length ≤ 22 := by
    unfold firstLines planeSet
    split_ifs <;> simp
  have first (asked : Nat) : (firstCalls dev res s asked).1.length ≤ 23 := by
    unfold firstCalls
    rw [List.length_append, length_lookUp]
    split_ifs
    · exact Nat.add_le_add lines (blend _)
    · exact lines.trans (Nat.le_succ 22)
  have wb : (wbLines res s).length = 3 := rfl
  unfold frameCalls
  rw [List.length_append, length_lookUp, wb]
  split_ifs
  · exact (Nat.add_le_add_right (first asked) 3).trans (by decide)
  · exact (by decide : 0 + 3 ≤ MAXP)

variable (dev res s) in
theorem length_disableCalls (asked : Nat) : (disableCalls dev res s asked).1.length ≤ MAXP := by
  rw [disableCalls, length_lookUp]
  unfold disableLines planeSet
  split_ifs
  all_goals simp [MAXP]

/-! ## One commit -/

/-- The arrays are empty, as they are before the first request and after every commit. -/
def Display.Empty (x : Display) : Prop := x.request.a_nobj = 0 ∧ x.request.a_nprop = 0

theorem Display.Empty.lists {x : Display} (empty : x.Empty) : Lists x.request [] [] :=
  ⟨empty.1, empty.2, rfl, rfl, rfl, rfl⟩

def writes (calls : List Call) : List ((UInt32 × UInt32) × UInt64) :=
  (calls.filter (·.prop ≠ 0)).map fun c => (c.key, c.val)

/-- The result of a call that creates nothing. -/
def Kernel.result (k : Kernel) (d : Drm) : Int := (k.outcome d.calls).elim 0 fun errno => -errno

theorem acommit_eq (k : Kernel) (r : Request) (d : Drm) :
    acommit k r d = (k.result d, { r with a_nobj := 0, a_nprop := 0 }, (k.call d).2) := by
  unfold acommit Kernel.call Kernel.result
  cases k.outcome d.calls <;> rfl

theorem commit_spec {x : Display} (empty : x.Empty) {made : List Call × Nat} (room : made.1.length ≤ MAXP)
    (flags : UInt32) :
    ∃ y, x.add made = some y ∧ (y.commit k flags).1 = k.result x.drm ∧ (y.commit k flags).2.drm = (k.call x.drm).2 ∧
      (y.commit k flags).2.Empty ∧ (y.commit k flags).2.asked = made.2 ∧ (y.commit k flags).2.values =
        if k.result x.drm = 0 then assign (writes made.1) x.values else x.values := by
  have lists : Lists x.request (runsOf (([] : List Call).map Call.obj)) [] := empty.lists
  obtain ⟨request, added, holds⟩ := lists_aadds lists (by simpa using room)
  have kept : (made.1.filter (·.prop ≠ 0)).length ≤ MAXP := (List.length_filter_le _ _).trans room
  have sent : (request.atomic flags).applied x.values = assign (writes made.1) x.values := by
    rw [DrmModeAtomic.applied, expand_atomic holds kept, List.map_map]
    rfl
  refine ⟨{ x with request := request, asked := made.2 }, by simp [Display.add, added], ?_⟩
  simp only [Display.commit, acommit_eq]
  refine ⟨trivial, trivial, ⟨rfl, rfl⟩, trivial, ?_⟩
  rw [sent]

theorem writes_key {calls : List Call} {entry : (UInt32 × UInt32) × UInt64} (member : entry ∈ writes calls) :
    ∃ c ∈ calls, c.prop ≠ 0 ∧ c.key = entry.1 ∧ c.val = entry.2 := by
  obtain ⟨c, inside, rfl⟩ := List.mem_map.mp member
  obtain ⟨inside, given⟩ := List.mem_filter.mp inside
  exact ⟨c, inside, by simpa using given, rfl, rfl⟩

theorem assign_writes_other {calls : List Call} {key : UInt32 × UInt32}
    (absent : ∀ c ∈ calls, c.prop ≠ 0 → c.key ≠ key) (v : Values) : assign (writes calls) v key = v key := by
  apply assign_other
  intro entry member here
  obtain ⟨c, inside, given, same, -⟩ := writes_key member
  exact absent c inside given (same.trans here)

/-- The last request asks for a property, and sets it to 0. -/
def Clears (dev : Device) (res : Resources) (s : Setup) (asked : Nat) (key : UInt32 × UInt32) : Prop :=
  ∃ c ∈ (disableCalls dev res s asked).1, c.prop ≠ 0 ∧ c.key = key

theorem val_disableCalls {asked : Nat} {c : Call} (member : c ∈ (disableCalls dev res s asked).1) : c.val = 0 := by
  obtain ⟨line, inside, val, -⟩ := mem_lookUp member
  rw [disableLines_eq] at inside
  obtain ⟨n, -, rfl⟩ := List.mem_map.mp inside
  exact val

theorem assign_disableCalls {asked : Nat} {key : UInt32 × UInt32} (clears : Clears dev res s asked key) (v : Values) :
    assign (writes (disableCalls dev res s asked).1) v key = 0 := by
  apply assign_of_mem
  · intro entry member _
    obtain ⟨c, inside, -, -, val⟩ := writes_key member
    exact val.symm.trans (val_disableCalls inside)
  · obtain ⟨c, inside, given, key⟩ := clears
    exact ⟨(c.key, c.val), List.mem_map.mpr ⟨c, List.mem_filter.mpr ⟨inside, by simpa using given⟩, rfl⟩, key⟩

theorem Clears.link {asked : Nat} {key : UInt32 × UInt32} (clears : Clears dev res s asked key) :
    ∃ n ∈ linkNames res s, n.Is dev key := by
  obtain ⟨c, inside, given, rfl⟩ := clears
  obtain ⟨line, member, -, named⟩ := mem_lookUp inside
  rw [disableLines_eq] at member
  obtain ⟨n, link, rfl⟩ := List.mem_map.mp member
  exact ⟨n, link, named given⟩

theorem Clears.of_served {asked : Nat} (served : Served dev asked (disableCalls dev res s asked).2) {n : Named}
    (link : n ∈ linkNames res s) (given : n.prop dev ≠ 0) : Clears dev res s asked (n.key dev) := by
  refine ⟨⟨n.1, n.prop dev, 0⟩, ?_, given, rfl⟩
  rw [disableCalls, lookUp_served served, disableLines_eq]
  exact List.mem_map.mpr ⟨(n, 0), List.mem_map.mpr ⟨n, link, rfl⟩, rfl⟩

/-! ## A scenario -/

theorem commitFrames_succ (k : Kernel) (frames : Nat) (d : Drm) : commitFrames k (frames + 1) d =
    if k.result d ≠ 0 then (k.result d, (k.call d).2)
    else if k.poll (k.call d).2.calls then commitFrames k frames (k.call d).2 else (-etimedout, (k.call d).2) := by
  rw [commitFrames]
  unfold Kernel.call Kernel.result
  cases k.outcome d.calls with
  | none => rfl
  | some errno => simp

variable (k dev res s) in
theorem showFrames_spec (frames f : Nat) {x : Display} (empty : x.Empty) :
    ∃ y, showFrames k dev res s f frames x = some ((commitFrames k frames x.drm).1, y) ∧
      y.drm = (commitFrames k frames x.drm).2 ∧ y.Empty ∧
      ∀ key, ¬ Sets dev res s key → y.values key = x.values key := by
  induction frames generalizing f x with
  | zero => exact ⟨x, rfl, rfl, empty, fun _ _ => rfl⟩
  | succ frames ih =>
      rw [showFrames]
      generalize (if f = 0 then DRM_MODE_ATOMIC_ALLOW_MODESET else 0) = flags
      obtain ⟨y, added, ret, drm, emptied, -, values⟩ :=
        commit_spec (k := k) empty (length_frameCalls dev res s f x.asked) flags
      have kept : ∀ key, ¬ Sets dev res s key → (y.commit k flags).2.values key = x.values key := by
        intro key unset
        rw [values]
        split
        · apply assign_writes_other
          rintro c member given rfl
          exact unset (key_frameCalls member given)
        · rfl
      rw [added, Option.bind_eq_bind, Option.bind_some, commitFrames_succ, ← ret, ← drm]
      dsimp only
      by_cases failed : (y.commit k flags).1 ≠ 0
      · rw [if_pos failed, if_pos failed]
        exact ⟨_, rfl, rfl, emptied, kept⟩
      · rw [if_neg failed, if_neg failed]
        by_cases polled : k.poll (y.commit k flags).2.drm.calls = true
        · rw [if_pos polled, if_pos polled]
          obtain ⟨z, shown, same, empty', rest⟩ := ih (f + 1) emptied
          exact ⟨z, shown, same, empty', fun key unset => (rest key unset).trans (kept key unset)⟩
        · rw [if_neg polled, if_neg polled]
          exact ⟨_, rfl, rfl, emptied, kept⟩

/-- What is left on the display when `run` comes to `rmbuf`: `ret` is what it returns, `off` the result of its
last commit, and `w` the display before the last request is made. -/
structure Unlinks (k : Kernel) (dev : Device) (res : Resources) (s : Setup) (x : Display) (ret : Int) (w : Display)
    (off : Int) (y : Display) : Prop where
  ret : ret = (commitFrames k s.scen.frames.toInt.toNat x.drm).1
  drm : y.drm = (k.call (commitFrames k s.scen.frames.toInt.toNat x.drm).2).2
  empty : y.Empty
  cleared : off = 0 → ∀ key, Clears dev res s w.asked key → y.values key = 0
  kept : ∀ key, off ≠ 0 ∨ ¬ Clears dev res s w.asked key → y.values key = w.values key
  unlinked : off = 0 → Served dev w.asked y.asked → ∀ n ∈ linkNames res s, n.prop dev ≠ 0 → y.values (n.key dev) = 0
  rest : ∀ key, y.values key ≠ x.values key → Sets dev res s key

/-- Whatever the ioctls answer, the last request clears the links whose properties it finds, and that is all of them
when none of the ioctls that look for these fails. -/
theorem showScen_unlinks (k : Kernel) (dev : Device) (res : Resources) (s : Setup) {x : Display} (empty : x.Empty) :
    ∃ ret w off y, showFrames k dev res s 0 s.scen.frames.toInt.toNat x = some (ret, w) ∧
      showScen k dev res s x = some (ret, off, y) ∧ Unlinks k dev res s x ret w off y := by
  obtain ⟨w, shown, drm, emptied, kept⟩ := showFrames_spec k dev res s s.scen.frames.toInt.toNat 0 empty
  obtain ⟨z, added, off, drm', emptied', asked, values⟩ := commit_spec (k := k) emptied
    (length_disableCalls dev res s w.asked) DRM_MODE_ATOMIC_ALLOW_MODESET
  have cleared : k.result w.drm = 0 → ∀ key, Clears dev res s w.asked key →
      (z.commit k DRM_MODE_ATOMIC_ALLOW_MODESET).2.values key = 0 := by
    intro accepted key clears
    rw [values, if_pos accepted]
    exact assign_disableCalls clears w.values
  have same : ∀ key, k.result w.drm ≠ 0 ∨ ¬ Clears dev res s w.asked key →
      (z.commit k DRM_MODE_ATOMIC_ALLOW_MODESET).2.values key = w.values key := by
    intro key untouched
    rw [values]
    by_cases accepted : k.result w.drm = 0
    · rw [if_pos accepted]
      have left := untouched.resolve_left fun refused => refused accepted
      exact assign_writes_other (fun c member given here => left ⟨c, member, given, here⟩) w.values
    · rw [if_neg accepted]
  refine ⟨(commitFrames k s.scen.frames.toInt.toNat x.drm).1, w, (z.commit k DRM_MODE_ATOMIC_ALLOW_MODESET).1,
    (z.commit k DRM_MODE_ATOMIC_ALLOW_MODESET).2, shown, ?_, ?_⟩
  · rw [showScen, shown, Option.bind_eq_bind, Option.bind_some]
    dsimp only
    rw [added]
    rfl
  · constructor
    · rfl
    · rw [drm', drm]
    · exact emptied'
    · rw [off]
      exact cleared
    · rw [off]
      exact same
    · rw [off, asked]
      intro accepted served n link given
      exact cleared accepted _ (Clears.of_served served link given)
    · intro key changed
      by_contra unset
      apply changed
      rw [same key (.inr ?_), kept key unset]
      intro clears
      obtain ⟨n, link, named⟩ := clears.link
      exact unset ⟨n, List.mem_append_left _ link, named⟩

/-- Object 1 is the plane, 3 the writeback connector and 4 the CRTC; a property has its number for all. The ioctl
that fails is the one by which the first line would find `MODE_ID`. -/
def small : Device where
  properties obj _ := if obj ∈ [1, 3, 4] then some [(10, 0), (11, 0), (12, 0), (13, 0), (14, 0)] else none
  name id := ([(10, "FB_ID"), (11, "CRTC_ID"), (12, "MODE_ID"), (13, "ACTIVE"), (14, "SRC_W")].lookup id)
  enums _ := none
  fails i := i = 4

def smallSetup : Setup :=
  ⟨⟨960, 540, 0, 960, 540, .argb8888, 2⟩, none, 960, 540, { Buf.zero with fb := 7, w := 960 }, .zero,
    { Buf.zero with fb := 8 }, 5, 0⟩

def dark : Display := ⟨{ leftover with a_nobj := 0, a_nprop := 0 }, ⟨∅, 0⟩, fun _ => 0, 0⟩

theorem showScen_unlinks_small : ∃ off y, showScen (refusing 99) small ⟨4, 3, 1, 0⟩ smallSetup dark = some (0, off, y) ∧
    off = 0 ∧ y.values (1, 10) = 0 ∧ y.values (4, 13) = 0 := by
  obtain ⟨ret, w, off, y, before, shown, unlinks⟩ :=
    showScen_unlinks (refusing 99) small ⟨4, 3, 1, 0⟩ smallSetup (x := dark) ⟨rfl, rfl⟩
  have ran : (showScen (refusing 99) small ⟨4, 3, 1, 0⟩ smallSetup dark).map (fun r => (r.1, r.2.1)) = some (0, 0) := by
    decide +kernel
  have asked : (showFrames (refusing 99) small ⟨4, 3, 1, 0⟩ smallSetup 0 2 dark).map (fun r => decide (4 < r.2.asked)) =
      some true := by
    decide +kernel
  rw [shown] at ran
  cases ran
  rw [show smallSetup.scen.frames.toInt.toNat = 2 from rfl] at before
  have asked : 4 < w.asked := by simpa [before] using asked
  have served : Served small w.asked y.asked := fun i low _ => decide_eq_false (by omega)
  refine ⟨0, y, shown, rfl, ?_, ?_⟩
  · exact unlinks.unlinked rfl served (1, DRM_MODE_OBJECT_PLANE, "FB_ID") (by decide) (by decide)
  · exact unlinks.unlinked rfl served (4, DRM_MODE_OBJECT_CRTC, "ACTIVE") (by decide) (by decide)

end LinuxInterview.Wbtest
