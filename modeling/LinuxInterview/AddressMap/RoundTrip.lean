import LinuxInterview.AddressMap.Join

/-!
# What the join reads of an inventory

The inventory prints its columns between commas and quotes nothing, while the reader splits a line
at every comma.
-/

namespace LinuxInterview.AddressMap
open Library Library.Csv Mmio

structure Row.Plain (r : Row) : Prop where
  node : Csv.Plain r.node
  status : Csv.Plain r.status
  compatible : Csv.Plain r.compatible
  driver : Csv.Plain r.driver
  runtimePm : Csv.Plain r.runtimePm

def Row.written (r : Row) : List Text := [hex8 r.addr, r.node, r.status, r.driver]

def readBack (d : Dict) : List (Option Text) :=
  ["addr", "node", "status", "driver"].map fun key => (d.lookup key.toList).join

def ReadsBack (rows : List Row) : Prop :=
  ∃ dt, readDicts (output rows) = some dt ∧
    dt.map readBack = (sortRows rows).map fun r => r.written.map some

/-- The last column of a block's row names drivers of nodes that the block contains. -/
def ListsRealDrivers (rows : List Row) : Prop :=
  ∀ blocks table, join blocks (output rows) = .ok table → ∀ columns ∈ table, ∃ block ∈ blocks,
    ∃ drivers, columns.getLast? = some ([' '].intercalate drivers) ∧
      ∀ driver ∈ drivers, driver ≠ [] ∧
        ∃ r ∈ rows, block.Contains r.addr ∧ r.driver = driver

/-- The columns before the driver fill the reader's fields one by one, or the second part of
`compatible` happens to be the driver's name. -/
structure Row.Aligned (r : Row) : Prop where
  node : ',' ∉ r.node
  status : ',' ∉ r.status
  driver : if ',' ∈ r.compatible then (splitAt ',' r.compatible)[1]? = some r.driver
    else ',' ∉ r.driver

/-! ## The fields of a printed row -/

def Row.record (r : Row) : List Text :=
  hex8 r.addr :: hex r.size :: (splitAt ',' r.node ++ (splitAt ',' r.status ++
    (splitAt ',' r.compatible ++ (splitAt ',' r.driver ++ splitAt ',' r.runtimePm))))

theorem digit_of_mem_hex8 {n : Nat} {c : Char} (inside : c ∈ hex8 n) : c.isAlphanum = true := by
  rcases List.mem_append.mp inside with zero | digit
  · rw [List.eq_of_mem_replicate zero]
    decide
  · exact isAlphanum_of_mem_hex digit

theorem plain_of_alphanum {text : Text} (alphanum : ∀ c ∈ text, c.isAlphanum = true) :
    Csv.Plain text ∧ ',' ∉ text := by
  have noComma : ',' ∉ text := fun inside => absurd (alphanum _ inside) (by decide)
  refine ⟨⟨fun c inside => ?_, ?_⟩, noComma⟩
  · constructor
    all_goals
      rintro rfl
      exact absurd (alphanum _ inside) (by decide)
  · rw [splitAt_eq_singleton noComma]
    intro cell member quote
    rw [List.mem_singleton.mp member] at quote
    exact absurd (alphanum _ (List.mem_of_head? quote)) (by decide)

theorem Row.Plain.columns {r : Row} (plain : r.Plain) : ∀ column ∈ r.columns, Csv.Plain column := by
  have addr := (plain_of_alphanum fun c => digit_of_mem_hex8 (n := r.addr) (c := c)).1
  have size := (plain_of_alphanum fun c => isAlphanum_of_mem_hex (n := r.size) (c := c)).1
  simp only [Row.columns, List.forall_mem_cons]
  exact ⟨addr, size, plain.node, plain.status, plain.compatible, plain.driver, plain.runtimePm,
    by simp⟩

theorem flatMap_splitAt_columns (r : Row) : r.columns.flatMap (splitAt ',') = r.record := by
  have addr := (plain_of_alphanum fun c => digit_of_mem_hex8 (n := r.addr) (c := c)).2
  have size := (plain_of_alphanum fun c => isAlphanum_of_mem_hex (n := r.size) (c := c)).2
  simp [Row.columns, Row.record, splitAt_eq_singleton addr, splitAt_eq_singleton size]

theorem readDicts_output {rows : List Row} (plain : ∀ r ∈ rows, r.Plain) :
    readDicts (output rows) = some ((sortRows rows).map fun r => dictOf header r.record) := by
  have lines : output rows =
      ((header :: (sortRows rows).map Row.columns).map ([','].intercalate)).flatMap (· ++ ['\n']) := by
    rw [List.flatMap_map]
    rfl
  have columns : ∀ line ∈ header :: (sortRows rows).map Row.columns,
      line ≠ [] ∧ (∀ column ∈ line, Csv.Plain column) ∧ [','].intercalate line ≠ [] := by
    rw [List.forall_mem_cons]
    refine ⟨by decide, fun line member => ?_⟩
    obtain ⟨r, inside, rfl⟩ := List.mem_map.mp member
    refine ⟨by simp [Row.columns], (plain r (List.mem_mergeSort.mp inside)).columns, ?_⟩
    simp [Row.columns, List.intercalate_cons_cons]
  have read := @Csv.readFile_plain ((header :: (sortRows rows).map Row.columns).map ([','].intercalate))
    (List.forall_mem_map.mpr fun line member =>
      plain_intercalate (columns line member).1 (columns line member).2.1)
    (List.forall_mem_map.mpr fun line member => (columns line member).2.2)
  have records : (header :: (sortRows rows).map Row.columns).map (splitAt ',' ∘ [','].intercalate) =
      header :: (sortRows rows).map Row.record := by
    rw [List.map_cons, List.map_map]
    congr 1
    apply List.map_congr_left
    intro r _
    rw [← flatMap_splitAt_columns]
    exact splitAt_intercalate (by simp [Row.columns])
  rw [← lines, List.map_map, records] at read
  have kept : (sortRows rows).filter ((!·.isEmpty) ∘ Row.record) = sortRows rows :=
    List.filter_eq_self.mpr fun r _ => rfl
  simp [readDicts, read, List.filter_map, kept]

theorem readBack_dictOf (record : List Text) :
    readBack (dictOf header record) = [record[0]?, record[2]?, record[3]?, record[5]?] := rfl

theorem readBack_eq_iff (r : Row) :
    readBack (dictOf header r.record) = r.written.map some ↔ r.Aligned := by
  have columns : readBack (dictOf header r.record) = r.written.map some ↔
      r.record[2]? = some r.node ∧ r.record[3]? = some r.status ∧ r.record[5]? = some r.driver := by
    rw [readBack_dictOf]
    simp [Row.written, Row.record]
  have node : r.record[2]? = some r.node ↔ ',' ∉ r.node := getElem?_splitAt_append_iff _
  rw [columns, node]
  by_cases nodeComma : ',' ∈ r.node
  · exact iff_of_false (fun same => same.1 nodeComma) (fun aligned => aligned.node nodeComma)
  have status : r.record[3]? = some r.status ↔ ',' ∉ r.status := by
    rw [Row.record, splitAt_eq_singleton nodeComma]
    exact getElem?_splitAt_append_iff _
  rw [status]
  by_cases statusComma : ',' ∈ r.status
  · exact iff_of_false (fun same => same.2.1 statusComma) (fun aligned => aligned.status statusComma)
  have driver : r.record[5]? = some r.driver ↔
      if ',' ∈ r.compatible then (splitAt ',' r.compatible)[1]? = some r.driver else ',' ∉ r.driver := by
    rw [Row.record, splitAt_eq_singleton nodeComma, splitAt_eq_singleton statusComma]
    by_cases compatibleComma : ',' ∈ r.compatible
    · obtain ⟨first, second, others, split⟩ := splitAt_eq_cons_cons compatibleComma
      rw [if_pos compatibleComma, split]
      rfl
    · rw [if_neg compatibleComma, splitAt_eq_singleton compatibleComma]
      exact getElem?_splitAt_append_iff _
  rw [driver]
  exact ⟨fun same => ⟨same.1, same.2.1, same.2.2⟩,
    fun aligned => ⟨aligned.node, aligned.status, aligned.driver⟩⟩

/-! ## The round trip -/

theorem readsBack_iff {rows : List Row} (plain : ∀ r ∈ rows, r.Plain) :
    ReadsBack rows ↔ ∀ r ∈ rows, r.Aligned := by
  unfold ReadsBack
  rw [readDicts_output plain]
  simp only [Option.some.injEq, exists_eq_left', List.map_map, List.map_inj_left, Function.comp_apply,
    readBack_eq_iff, sortRows, List.mem_mergeSort]

theorem of_mem_hits {block : Block} {dt hit : List Dict} (found : hits block dt = .ok hit) :
    ∀ d ∈ hit, d ∈ dt ∧ ∃ addr, getText d "addr" >>= intHex = .ok addr ∧ block.Contains addr := by
  induction dt generalizing hit with
  | nil =>
      cases found
      simp
  | cons d dt ih =>
      unfold hits at found
      obtain ⟨addr, number, found⟩ := bind_eq_ok_iff.mp found
      obtain ⟨rest, later, kept⟩ := bind_eq_ok_iff.mp found
      cases kept
      intro other member
      split at member
      · rename_i inside
        rcases List.mem_cons.mp member with rfl | earlier
        · exact ⟨List.mem_cons_self, addr, number, inside⟩
        · exact (ih later other earlier).imp_left (List.mem_cons_of_mem d)
      · exact (ih later other member).imp_left (List.mem_cons_of_mem d)

theorem mem_driversOf {hit : List Dict} {drivers : List Text} (found : driversOf hit = .ok drivers)
    {driver : Text} (member : driver ∈ drivers) :
    driver ≠ [] ∧ ∃ d ∈ hit, get d "driver" = .ok (some driver) := by
  obtain ⟨texts, mapped, sorted⟩ := bind_eq_ok_iff.mp found
  cases sorted
  simp only [sortedSet, List.mem_mergeSort, List.mem_dedup, List.mem_filter, List.mem_filterMap, id,
    exists_eq_right, Bool.not_eq_true', List.isEmpty_eq_false_iff] at member
  exact ⟨member.2, exists_of_mem_mapM mapped _ member.1⟩

theorem listsRealDrivers {rows : List Row} (plain : ∀ r ∈ rows, r.Plain)
    (aligned : ∀ r ∈ rows, r.Aligned) : ListsRealDrivers rows := by
  intro blocks table joined columns printed
  unfold join at joined
  rw [readDicts_output plain] at joined
  obtain ⟨block, listed, row⟩ := exists_of_mem_mapM joined columns printed
  obtain ⟨hit, found, row⟩ := bind_eq_ok_iff.mp row
  obtain ⟨statuses, _, row⟩ := bind_eq_ok_iff.mp row
  obtain ⟨nodes, _, row⟩ := bind_eq_ok_iff.mp row
  obtain ⟨drivers, sorted, row⟩ := bind_eq_ok_iff.mp row
  cases row
  refine ⟨block, listed, drivers, rfl, fun driver member => ?_⟩
  obtain ⟨nonempty, d, inside, named⟩ := mem_driversOf sorted member
  obtain ⟨read, addr, number, contains⟩ := of_mem_hits found d inside
  obtain ⟨r, inventoried, rfl⟩ := List.mem_map.mp read
  have known : r ∈ rows := List.mem_mergeSort.mp inventoried
  have same := (readBack_eq_iff r).mpr (aligned r known)
  have address : getText (dictOf header r.record) "addr" >>= intHex = .ok r.addr := intHex_hex8 r.addr
  have field : get (dictOf header r.record) "driver" = .ok r.record[5]? := rfl
  have written : r.record[5]? = some r.driver := by
    rw [readBack_dictOf, Row.written] at same
    simp only [List.map_cons, List.map_nil, List.cons.injEq] at same
    exact same.2.2.2.1
  rw [address] at number
  rw [field, written] at named
  cases number
  cases named
  exact ⟨nonempty, r, known, contains, rfl⟩

/-- The file that the script prints for a device tree gives its rows back if and only if they are aligned. -/
theorem inventory_round_trip_iff {rows : List Row} (plain : ∀ r ∈ rows, r.Plain) :
    (∀ addressCells sizeCells platform dirs, Inventories addressCells sizeCells platform dirs rows →
      main addressCells sizeCells platform dirs = .ok (output rows)) ∧
    ((ReadsBack rows ∧ ListsRealDrivers rows) ↔ ∀ r ∈ rows, r.Aligned) := by
  refine ⟨fun _ _ _ _ inventories => main_eq inventories, ?_⟩
  constructor
  · intro property
    exact (readsBack_iff plain).mp property.1
  · intro aligned
    exact ⟨(readsBack_iff plain).mpr aligned, listsRealDrivers plain aligned⟩

/-! A GPU node whose compatible string names its vendor. -/

def gpuRow : Row where
  addr := 0xfb000000
  size := 0x200000
  node := "gpu@fb000000".toList
  status := "okay".toList
  compatible := "rockchip,rk3588-mali".toList
  driver := "panthor".toList
  runtimePm := "suspended".toList

theorem gpuRow_plain : ∀ r ∈ [gpuRow], r.Plain := by
  rw [List.forall_mem_singleton]
  constructor
  all_goals decide

def gpuDir : DtDir where
  name := gpuRow.node
  reg := some [0, 0, 0, 0, 0xfb, 0, 0, 0, 0, 0, 0, 0, 0, 0x20, 0, 0]
  compatible := some "rockchip,rk3588-mali\x00".toList
  status := some []

def gpuPlatform (_ : Text) : PlatformDevice := ⟨some "panthor".toList, some "suspended\n".toList⟩

theorem inventory_round_trip_iff_gpu : main none none gpuPlatform [gpuDir] = .ok (output [gpuRow]) ∧
    ((ReadsBack [gpuRow] ∧ ListsRealDrivers [gpuRow]) ↔ ∀ r ∈ [gpuRow], r.Aligned) := by
  obtain ⟨printed, back⟩ := inventory_round_trip_iff gpuRow_plain
  have read : row gpuPlatform 2 2 gpuDir = .ok (some gpuRow) := by rfl
  exact ⟨printed none none gpuPlatform [gpuDir] ⟨2, 2, [some gpuRow], rfl, rfl, .cons read .nil, .refl _⟩, back⟩

theorem vendor_comma_shifts_driver : (∀ r ∈ [gpuRow], r.Plain) ∧ ¬ ReadsBack [gpuRow] := by
  refine ⟨gpuRow_plain, fun read => ?_⟩
  have aligned := ((readsBack_iff gpuRow_plain).mp read gpuRow List.mem_cons_self).driver
  exact absurd aligned (by decide)

end LinuxInterview.AddressMap
