import LinuxInterview.Rkspy.ReportLines

/-!
# The tiling rule in the report

The heights of the slices of a layer add up to the height of the map and the rows that the seams share,
which is what `main` checks. It reaches the layer where no group before it lacks its stride.
-/

namespace LinuxInterview.Rkspy
open Library

/-! ## The tiles of a log -/

theorem isSome_findSome? {α β : Type} {f : α → Option β} {xs : List α} :
    (xs.findSome? f).isSome = true ↔ ∃ x ∈ xs, (f x).isSome = true := by
  simp [List.findSome?_isSome_iff]

/-- Width and height are two fields of one register. -/
theorem height_inForce (d : Dump) (before : List Nat) (k : Nat) :
    (d.inForceAfter before .H k).isSome = (d.inForceAfter before .W k).isSome := by
  have together : ∀ j, (d.reading .H j).isSome = (d.reading .W j).isSome := by
    intro j
    simp only [Dump.reading, Dump.found, Key.column, Column.W, Column.H, Option.isSome_map]
  rw [Bool.eq_iff_iff, Dump.inForceAfter, Dump.inForceAfter, isSome_findSome?, isSome_findSome?]
  simp only [together]

theorem height_known_of_mem {d : Dump} {before ks : List Nat} {r : Tile}
    (member : r ∈ d.tilesAfter before ks) : r.H ≠ none := by
  induction ks generalizing before with
  | nil => cases member
  | cons k ks ih =>
      rcases List.mem_append.mp member with here | later
      · have tile : d.tileAfter before k = some r := Option.mem_toList.mp here
        obtain ⟨w, width, tile⟩ := Option.bind_eq_some_iff.mp tile
        obtain ⟨kh, _, tile⟩ := Option.bind_eq_some_iff.mp tile
        cases tile
        have known := height_inForce d before k
        rw [width, Option.isSome_some] at known
        exact Option.ne_none_iff_isSome.mpr known
      · exact ih later

theorem height_known (limit : Int) (outputs : List Output) : ∀ r ∈ tilesOf limit outputs, r.H ≠ none := by
  intro r member
  induction outputs with
  | nil => cases member
  | cons output outputs ih =>
      cases output with
      | remark remark => exact ih member
      | submit d =>
          rw [tilesOf] at member
          split at member
          · cases member
          · split at member
            · cases member
            · exact height_known_of_mem member

theorem main_printed (limit : Int) (outputs : List Output) :
    main (printed (log 0 outputs)) limit =
      .ok ⟨(Report.start.examine (grouped Tile.layer (tilesOf limit outputs))).1,
        (Report.start.examine (grouped Tile.layer (tilesOf limit outputs))).2⟩ := by
  rw [main, load_printed]
  rfl

theorem height_known_ofKey {rows : List Tile} (known : ∀ r ∈ rows, r.H ≠ none) (key : Nat × Nat) :
    ∀ r ∈ ofKey Tile.layer rows key, r.H ≠ none := fun r member =>
  known r (List.mem_of_mem_filter member)

theorem examine_groups_raised_iff {rows : List Tile} (known : ∀ r ∈ rows, r.H ≠ none) (keys : List (Nat × Nat)) :
    (Report.start.examine (keys.map fun key => (key, ofKey Tile.layer rows key))).2 ≠ none ↔
      ∃ key ∈ keys, Strideless key.2 (ofKey Tile.layer rows key) := by
  rw [Report.examine_raised_iff (List.forall_mem_map.mpr fun key _ => height_known_ofKey known key)]
  constructor
  · rintro ⟨g, member, strideless⟩
    obtain ⟨key, inside, rfl⟩ := List.mem_map.mp member
    exact ⟨key, inside, strideless⟩
  · rintro ⟨key, inside, strideless⟩
    exact ⟨_, List.mem_map_of_mem inside, strideless⟩

theorem mem_layers_of_length_pos {rows : List Tile} {key : Nat × Nat} (several : 0 < (ofKey Tile.layer rows key).length) :
    key ∈ rows.map Tile.layer := by
  obtain ⟨r, member⟩ := List.exists_mem_of_length_pos several
  obtain ⟨inside, same⟩ := List.mem_filter.mp member
  exact of_decide_eq_true same ▸ List.mem_map_of_mem inside

/-- `main` comes to its end on a log of the spy just where no group is without its stride. -/
theorem main_completes_iff (limit : Int) (outputs : List Output) :
    (∃ p, main (printed (log 0 outputs)) limit = .ok p ∧ p.raised = none) ↔
      ∀ op W, ¬ Strideless W (ofKey Tile.layer (tilesOf limit outputs) (op, W)) := by
  let rows := tilesOf limit outputs
  have raises := examine_groups_raised_iff (height_known limit outputs) (firstKeys (rows.map Tile.layer))
  rw [← grouped_eq] at raises
  rw [main_printed]
  constructor
  · rintro ⟨p, ran, complete⟩ op W strideless
    cases ran
    have present : (op, W) ∈ rows.map Tile.layer :=
      mem_layers_of_length_pos (Nat.zero_lt_two.trans_le strideless.1)
    exact raises.mpr ⟨(op, W), mem_firstKeys.mpr present, strideless⟩ complete
  · intro strided
    refine ⟨_, rfl, ?_⟩
    by_contra raised
    obtain ⟨key, _, strideless⟩ := raises.mp raised
    exact strided key.1 key.2 strideless

/-- Two operations of two tasks each, of which the first writes sizes and kernel and no stride. -/
def stridelessFirst : Dump where
  tracker := threeTasks.tracker
  memory a :=
    if a = 0x7000 then 0x00e000711020
    else if a = 0x7008 then 0x030300001038
    else if a = 0x7040 then 0x00e000701020
    else if a = 0x7080 then 0x00e000711020
    else if a = 0x7088 then 0x030300001038
    else if a = 0x7090 then 0x000000121014
    else if a = 0x70c0 then 0x00e000701020
    else 0
  submit := ⟨0, 0, 4, 0xff, 0, 0, 1, 0, fun _ => ⟨0, 4⟩⟩
  tasks i :=
    if i = 0 then ⟨1, 1, 0x1000⟩
    else if i = 1 then ⟨1, 1, 0x1040⟩
    else if i = 2 then ⟨2, 1, 0x1080⟩
    else ⟨2, 1, 0x10c0⟩
  physical := []
  raw := []

theorem tilesOf_stridelessFirst : tilesOf 4 [.submit stridelessFirst] =
    [⟨0, 1, 224, some 113, 3, none⟩, ⟨1, 1, 224, some 112, 3, none⟩,
      ⟨2, 2, 224, some 113, 3, some 2⟩, ⟨3, 2, 224, some 112, 3, some 2⟩] := by decide

theorem main_raises_without_stride :
    ¬ ∃ p, main (printed (log 0 [.submit stridelessFirst])) 4 = .ok p ∧ p.raised = none := by
  rw [main_printed, tilesOf_stridelessFirst]
  rintro ⟨p, ran, complete⟩
  cases ran
  cases complete

/-! ## A layer that is cut by rows -/

def LayerOf (s : Split) (rows : List Tile) (op W : Nat) : Prop :=
  (ofKey Tile.layer rows (op, W)).map (fun r => (r.H.map Int.ofNat, r.kh, r.sy)) =
    s.heights.map fun h => (some h, s.window, some s.stride)

instance (s : Split) (rows : List Tile) (op W : Nat) : Decidable (LayerOf s rows op W) :=
  inferInstanceAs (Decidable (_ = _))

def ReportedOk (file : Text) (limit : Int) (op W : Nat) : Prop :=
  ∃ p, main file limit = .ok p ∧ ∃ line ∈ p.lines, SaysOk op W line

theorem heights_of_layer {s : Split} {rs : List Tile}
    (same : rs.map (fun r => (r.H.map Int.ofNat, r.kh, r.sy)) =
      s.heights.map fun h => (some h, s.window, some s.stride)) :
    ∃ hs : List Nat, rs.map Tile.H = hs.map some ∧ hs.map Int.ofNat = s.heights := by
  have heights := congrArg (List.map Prod.fst) same
  simp only [List.map_map] at heights
  generalize s.heights = all at heights
  clear same
  induction all generalizing rs with
  | nil =>
      obtain rfl := List.map_eq_nil_iff.mp heights
      exact ⟨[], rfl, rfl⟩
  | cons h all ih =>
      obtain ⟨r, rest, rfl, here, later⟩ := List.map_eq_cons_iff.mp heights
      obtain ⟨hs, known, cast⟩ := ih later
      obtain ⟨n, height, value⟩ := Option.map_eq_some_iff.mp here
      exact ⟨n :: hs, by rw [List.map_cons, List.map_cons, height, known],
        by rw [List.map_cons, value, cast]⟩

theorem sum_ofNat (hs : List Nat) : (hs.map Int.ofNat).sum = (hs.sum : Int) := by
  induction hs with
  | nil => rfl
  | cons h hs ih =>
      rw [List.map_cons, List.sum_cons, List.sum_cons, ih]
      rfl

theorem judge_layer {s : Split} {rs : List Tile} {op W : Nat}
    (same : rs.map (fun r => (r.H.map Int.ofNat, r.kh, r.sy)) =
      s.heights.map fun h => (some h, s.window, some s.stride))
    (whole : s.used = W) (short : ∀ h ∈ s.heights, h < W) (r : Report) :
    ∃ next v, r.judge ((op, W), rs) = .ok next ∧ v ∈ next.verdicts ∧ v.op = op ∧ v.W = W ∧ v.good = true := by
  obtain ⟨hs, heights, cast⟩ := heights_of_layer same
  have count : rs.length = s.outputs.length := by
    have lengths := congrArg List.length same
    rwa [List.length_map, List.length_map, s.length_heights] at lengths
  have several := s.several
  obtain ⟨first, rest, rfl⟩ := List.exists_cons_of_length_pos (by omega : 0 < rs.length)
  rw [List.length_cons] at count
  have nonempty : hs ≠ [] := by
    rintro rfl
    cases heights
  have below : ¬ W ≤ Report.maximum hs := by
    rw [not_le, maximum_lt_iff nonempty]
    intro h member
    have inside : (h : Int) ∈ s.heights := cast ▸ List.mem_map_of_mem member
    exact_mod_cast short h inside
  have head : first.kh = s.window ∧ first.sy = some s.stride := by
    obtain ⟨h, _, _, here, _⟩ := List.map_eq_cons_iff.mp same.symm
    exact ⟨(congrArg (·.2.1) here).symm, (congrArg (·.2.2) here).symm⟩
  have total : (hs.sum : Int) = s.used + (s.outputs.length - 1) * ((s.window : Int) - s.stride) := by
    rw [← sum_ofNat, cast, s.sum_heights]
  rw [Report.judge_eq (by omega) heights, if_neg below, head.2, head.1]
  refine ⟨_, _, rfl, List.mem_append_right _ (List.mem_singleton_self _), rfl, rfl, ?_⟩
  rw [Verdict.good, decide_eq_true_eq, total, whole, ← count]
  ring

theorem LayerOf.present {s : Split} {rows : List Tile} {op W : Nat} (layer : LayerOf s rows op W) :
    (op, W) ∈ rows.map Tile.layer := by
  apply mem_layers_of_length_pos
  have count := congrArg List.length layer
  rw [List.length_map, List.length_map, s.length_heights] at count
  rw [count]
  exact Nat.zero_lt_two.trans_le s.several

theorem verdict_of_groups {rows : List Tile} {keys : List (Nat × Nat)} {v : Verdict}
    (said : v ∈ (Report.start.examine (keys.map fun key => (key, ofKey Tile.layer rows key))).1.verdicts) :
    (v.op, v.W) ∈ keys := by
  rcases Report.mem_examine_verdicts said with none | ⟨g, member, about⟩
  · cases none
  · obtain ⟨key, inside, rfl⟩ := List.mem_map.mp member
    exact about ▸ inside

theorem layer_reported_iff (s : Split) :
    s.heights.sum = s.used + (s.outputs.length - 1) * ((s.window : Int) - s.stride) ∧
    ∀ (outputs : List Output) (limit : Int) (op W : Nat), LayerOf s (tilesOf limit outputs) op W →
      s.used = W → (∀ h ∈ s.heights, h < W) →
      (ReportedOk (printed (log 0 outputs)) limit op W ↔
        ∀ r ∈ (tilesOf limit outputs).takeWhile fun r => r.layer ≠ (op, W),
          ¬ Strideless r.W (ofKey Tile.layer (tilesOf limit outputs) r.layer)) := by
  refine ⟨s.sum_heights, ?_⟩
  intro outputs limit op W layer whole short
  have known := height_known limit outputs
  simp only [ReportedOk, main_printed, exists_saysOk_iff]
  generalize tilesOf limit outputs = rows at layer known
  -- the groups of the tiles before the layer's first, then the layer
  obtain ⟨later, order⟩ := exists_grouped_of_mem layer.present
  have fresh := not_mem_takeWhile_key Tile.layer rows (op, W)
  generalize (rows.takeWhile fun r => r.layer ≠ (op, W)) = before at fresh order
  let keys := firstKeys (before.map Tile.layer)
  let earlier := keys.map fun key => (key, ofKey Tile.layer rows key)
  have stops : (Report.start.examine earlier).2 ≠ none ↔
      ∃ r ∈ before, Strideless r.W (ofKey Tile.layer rows r.layer) := by
    rw [examine_groups_raised_iff known keys]
    simp only [keys, mem_firstKeys, List.mem_map, exists_exists_and_eq_and, Tile.layer]
  have goes := Report.examine_append earlier (((op, W), ofKey Tile.layer rows (op, W)) :: later) .start
  rw [order, goes]
  rcases reached : Report.start.examine earlier with ⟨report, raised⟩
  rw [reached] at stops
  cases raised with
  | some e =>
      -- nothing is said of the layer where the loop has ended before it
      obtain ⟨r, member, strideless⟩ := stops.mp (by simp)
      refine iff_of_false ?_ fun strided => strided r member strideless
      rintro ⟨p, ran, v, said, sameOp, sameW, _⟩
      cases ran
      have said : v ∈ (Report.start.examine earlier).1.verdicts := by
        rw [reached]
        exact said
      have about := mem_firstKeys.mp (verdict_of_groups said)
      rw [sameOp, sameW] at about
      exact fresh about
  | none =>
      have runs : ¬ ∃ r ∈ before, Strideless r.W (ofKey Tile.layer rows r.layer) := fun stopped =>
        stops.mpr stopped rfl
      obtain ⟨next, v, judged, said, sameOp, sameW, good⟩ := judge_layer layer whole short report
      refine iff_of_true ?_ fun r member strideless => runs ⟨r, member, strideless⟩
      refine ⟨_, rfl, v, ?_, sameOp, sameW, good⟩
      change v ∈ (report.examine (((op, W), ofKey Tile.layer rows (op, W)) :: later)).1.verdicts
      rw [Report.examine, judged]
      exact Report.mem_verdicts_examine said later

/-- A map of 224 rows with one row of padding below it, 56 rows of output to each slice. -/
def twoSlices : Split := ⟨3, 2, 0, 1, [56, 56], by decide, by decide⟩

theorem layer_after_strideless_unreported :
    LayerOf twoSlices (tilesOf 4 [.submit stridelessFirst]) 2 224 ∧ twoSlices.used = (224 : Nat) ∧
      (∀ h ∈ twoSlices.heights, h < (224 : Nat)) ∧
      ¬ ReportedOk (printed (log 0 [.submit stridelessFirst])) 4 2 224 := by
  simp only [ReportedOk, main_printed, tilesOf_stridelessFirst, exists_saysOk_iff]
  refine ⟨by decide, by decide, by decide, ?_⟩
  rintro ⟨p, ran, v, said, _⟩
  cases ran
  cases said

theorem layer_reported_iff_threeTasks :
    ReportedOk (printed (log 0 [.submit threeTasks])) 3 1 224 ↔
      ∀ r ∈ (tilesOf 3 [.submit threeTasks]).takeWhile fun r => r.layer ≠ (1, 224),
        ¬ Strideless r.W (ofKey Tile.layer (tilesOf 3 [.submit threeTasks]) r.layer) :=
  (layer_reported_iff twoSlices).2 [.submit threeTasks] 3 1 224 (by decide) (by decide) (by decide)

end LinuxInterview.Rkspy
