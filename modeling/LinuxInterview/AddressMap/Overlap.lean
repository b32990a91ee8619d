import LinuxInterview.AddressMap.Sizes

/-!
# Nodes that touch a block and nodes that the join finds

The join asks of a node where it starts. The inventory also says how far it reaches.
-/

namespace LinuxInterview.AddressMap
open Library Library.Csv Mmio

def Block.range (block : Block) : Set Nat := Set.Ico block.start (block.start + block.size)

def Row.range (r : Row) : Set Nat := Set.Ico r.addr (r.addr + r.size)

def Touches (block : Block) (r : Row) : Prop := (block.range ∩ r.range).Nonempty

theorem touches_iff {block : Block} {r : Row} : Touches block r ↔
    max block.start r.addr < min (block.start + block.size) (r.addr + r.size) := by
  rw [Touches, Block.range, Row.range, Set.Ico_inter_Ico, Set.nonempty_Ico]

instance (block : Block) (r : Row) : Decidable (Touches block r) := decidable_of_iff _ touches_iff.symm

/-- The row as the reader has it where no column holds a comma. -/
def Row.dict (r : Row) : Dict := dictOf header r.columns

/-- The row of a block lists the nodes that touch it, and says `no-node` only where there are none. -/
structure Exact (block : Block) (rows : List Row) : Prop where
  nodes : hits block (rows.map Row.dict) = .ok ((rows.filter (Touches block ·)).map Row.dict)
  written : ∀ columns, joinRow (rows.map Row.dict) block = .ok columns →
    columns[3]? = some ([' '].intercalate ((rows.filter (Touches block ·)).map Row.node))
  noNode : ∀ columns, joinRow (rows.map Row.dict) block = .ok columns →
    columns[4]? = some "no-node".toList → ∀ r ∈ rows, ¬ Touches block r

/-- Every node that starts in the block has registers, none that starts before it reaches into it, and the
nodes that start in it do not all have an empty status, nor all the status `no-node`. -/
structure Decided (block : Block) (rows : List Row) : Prop where
  within : ∀ r ∈ rows, block.Contains r.addr → 0 < r.size
  before : ∀ r ∈ rows, r.addr < block.start → block.size = 0 ∨ r.addr + r.size ≤ block.start
  status : (∃ r ∈ rows, block.Contains r.addr) → ∀ silent ∈ [[], "no-node".toList],
    ∃ r ∈ rows, block.Contains r.addr ∧ r.status ≠ silent

/-! ## What is written -/

def listed (block : Block) (rows : List Row) : List Row := rows.filter (block.Contains ·.addr)

theorem mem_listed {block : Block} {rows : List Row} {r : Row} :
    r ∈ listed block rows ↔ r ∈ rows ∧ block.Contains r.addr := by
  rw [listed, List.mem_filter, decide_eq_true_eq]

theorem getText_addr (r : Row) : getText r.dict "addr" >>= intHex = .ok r.addr := intHex_hex8 r.addr

theorem hex8_injective {m n : Nat} (same : hex8 m = hex8 n) : m = n := by
  have read := intHex_hex8 m
  rw [same, intHex_hex8] at read
  exact (Except.ok.inj read).symm

theorem range_of_dict {r s : Row} (same : r.dict = s.dict) : r.addr = s.addr ∧ r.size = s.size := by
  have addr (r : Row) : getText r.dict "addr" = .ok (hex8 r.addr) := rfl
  have size (r : Row) : getText r.dict "size" = .ok (hex r.size) := rfl
  have sameAddr : hex8 r.addr = hex8 s.addr := Except.ok.inj (by rw [← addr, ← addr, same])
  have sameSize : hex r.size = hex s.size := Except.ok.inj (by rw [← size, ← size, same])
  exact ⟨hex8_injective sameAddr, hex8_injective (congrArg (padLeft 8 '0') sameSize)⟩

theorem hits_dict (block : Block) (rows : List Row) :
    hits block (rows.map Row.dict) = .ok ((listed block rows).map Row.dict) := by
  induction rows with
  | nil => rfl
  | cons r rows ih =>
      rw [List.map_cons, hits, ih, getText_addr]
      simp only [bind, Except.bind, pure, Except.pure, listed, List.filter_cons, decide_eq_true_eq]
      split <;> rfl

def statusCell (statuses : List Text) : Text :=
  let st := ['/'].intercalate (sortedSet statuses)
  if st = [] then "no-node".toList else st

theorem joinRow_dict (block : Block) (rows : List Row) : joinRow (rows.map Row.dict) block =
    .ok [block.module, hex8 block.start, block.sizeText,
      [' '].intercalate ((listed block rows).map Row.node),
      statusCell ((listed block rows).map Row.status),
      [' '].intercalate (sortedSet (((listed block rows).map Row.driver).filter (!·.isEmpty)))] := by
  have column {key : String} {value : Row → Text} (read : ∀ r : Row, getText r.dict key = .ok (value r)) :
      ((listed block rows).map Row.dict).mapM (getText · key) = .ok ((listed block rows).map value) := by
    rw [List.mapM_map]
    exact mapM_ok read _
  have drivers : ((listed block rows).map Row.dict).mapM (get · "driver") =
      .ok ((listed block rows).map fun r => some r.driver) := by
    rw [List.mapM_map]
    exact mapM_ok (fun r => rfl) _
  have named : (((listed block rows).map fun r => some r.driver).filterMap id) =
      (listed block rows).map Row.driver := by
    rw [List.filterMap_map]
    exact congrFun List.filterMap_eq_map' _
  rw [joinRow, hits_dict]
  simp only [bind, Except.bind, column (fun r => rfl : ∀ r : Row, getText r.dict "status" = .ok r.status),
    column (fun r => rfl : ∀ r : Row, getText r.dict "node" = .ok r.node), driversOf, drivers, named]
  rfl

/-! ## When it says that there is no node -/

theorem mem_sortedSet (texts : List Text) {text : Text} : text ∈ sortedSet texts ↔ text ∈ texts := by
  rw [sortedSet, List.mem_mergeSort, List.mem_dedup]

theorem nodup_sortedSet (texts : List Text) : (sortedSet texts).Nodup :=
  (List.mergeSort_perm _ _).nodup_iff.mpr (List.nodup_dedup texts)

theorem statusCell_eq_noNode_iff (statuses : List Text) : statusCell statuses = "no-node".toList ↔
    (∀ status ∈ statuses, status = []) ∨ ∀ status ∈ statuses, status = "no-node".toList := by
  have distinct := nodup_sortedSet statuses
  simp only [← mem_sortedSet statuses]
  rw [statusCell]
  match sortedSet statuses, distinct with
  | [], _ => simp
  | [x], _ =>
      simp only [List.intercalate_singleton, List.forall_mem_singleton]
      split
      · rename_i empty
        simp [empty]
      · rename_i full
        simp [full]
  | x :: y :: rest, distinct =>
      have apart : x ≠ y := by
        rintro rfl
        simp at distinct
      have slash : '/' ∈ ['/'].intercalate (x :: y :: rest) := by
        simp [List.intercalate_cons_cons]
      simp only [if_neg (List.ne_nil_of_mem slash)]
      constructor
      · intro named
        rw [named] at slash
        exact absurd slash (by decide)
      · rintro (all | all)
        all_goals
          refine absurd ?_ apart
          rw [all x (by simp), all y (by simp)]

/-! ## The join -/

theorem contains_iff_touches {block : Block} {r : Row} :
    (block.Contains r.addr ↔ Touches block r) ↔
      (block.Contains r.addr → 0 < r.size) ∧
        (r.addr < block.start → block.size = 0 ∨ r.addr + r.size ≤ block.start) := by
  rw [touches_iff, Block.Contains]
  omega

theorem nodes_iff {block : Block} {rows : List Row} :
    hits block (rows.map Row.dict) = .ok ((rows.filter (Touches block ·)).map Row.dict) ↔
      ∀ r ∈ rows, block.Contains r.addr ↔ Touches block r := by
  rw [hits_dict, Except.ok.injEq]
  constructor
  · intro same r inside
    constructor
    · intro contains
      have member : r.dict ∈ (listed block rows).map Row.dict :=
        List.mem_map_of_mem (mem_listed.mpr ⟨inside, contains⟩)
      rw [same] at member
      obtain ⟨s, touching, equal⟩ := List.mem_map.mp member
      obtain ⟨addr, size⟩ := range_of_dict equal
      have touches := of_decide_eq_true (List.mem_filter.mp touching).2
      rwa [touches_iff, addr, size, ← touches_iff] at touches
    · intro touches
      have member : r.dict ∈ (rows.filter (Touches block ·)).map Row.dict :=
        List.mem_map_of_mem (List.mem_filter.mpr ⟨inside, decide_eq_true touches⟩)
      rw [← same] at member
      obtain ⟨s, found, equal⟩ := List.mem_map.mp member
      rw [← (range_of_dict equal).1]
      exact (mem_listed.mp found).2
  · intro same
    congr 1
    apply List.filter_congr
    intro r inside
    simp only [same r inside]

theorem written_of_same {block : Block} {rows : List Row} (same : ∀ r ∈ rows, block.Contains r.addr ↔ Touches block r)
    {columns : List Text} (joined : joinRow (rows.map Row.dict) block = .ok columns) :
    columns[3]? = some ([' '].intercalate ((rows.filter (Touches block ·)).map Row.node)) := by
  have found : listed block rows = rows.filter (Touches block ·) := by
    apply List.filter_congr
    intro r inside
    simp only [same r inside]
  rw [joinRow_dict, found] at joined
  cases joined
  rfl

theorem noNode_iff {block : Block} {rows : List Row} :
    (∀ columns, joinRow (rows.map Row.dict) block = .ok columns →
        columns[4]? = some "no-node".toList → ∀ r ∈ rows, ¬ Touches block r) ↔
      ((∃ r ∈ rows, Touches block r) → ∀ silent ∈ [[], "no-node".toList],
        ∃ r ∈ rows, block.Contains r.addr ∧ r.status ≠ silent) := by
  have cell : (∀ columns, joinRow (rows.map Row.dict) block = .ok columns →
      columns[4]? = some "no-node".toList → ∀ r ∈ rows, ¬ Touches block r) ↔
        (statusCell ((listed block rows).map Row.status) = "no-node".toList → ∀ r ∈ rows, ¬ Touches block r) := by
    rw [joinRow_dict]
    constructor
    · intro told named
      exact told _ rfl (congrArg some named)
    · rintro told columns written named
      cases written
      exact told (Option.some.inj named)
  rw [cell, statusCell_eq_noNode_iff]
  simp only [List.forall_mem_map, mem_listed, List.forall_mem_cons, List.not_mem_nil, false_imp_iff,
    implies_true, and_true]
  constructor
  · rintro told ⟨r, inside, touches⟩
    have heard (silent : Text) (quiet : (∀ s, s ∈ rows ∧ block.Contains s.addr → s.status = silent) →
        ∀ r ∈ rows, ¬ Touches block r) : ∃ s ∈ rows, block.Contains s.addr ∧ s.status ≠ silent := by
      by_contra all
      push Not at all
      exact quiet (fun s found => all s found.1 found.2) r inside touches
    exact ⟨heard [] fun all => told (Or.inl all), heard _ fun all => told (Or.inr all)⟩
  · rintro heard (all | all) r inside touches
    · obtain ⟨s, known, contains, status⟩ := (heard ⟨r, inside, touches⟩).1
      exact status (all s ⟨known, contains⟩)
    · obtain ⟨s, known, contains, status⟩ := (heard ⟨r, inside, touches⟩).2
      exact status (all s ⟨known, contains⟩)

/-- For a block as it is read from the address map. -/
theorem joinRow_exact_iff (block : Block) (rows : List Row) :
    (block.Sized → readBlock block.dict = some block) ∧ (Exact block rows ↔ Decided block rows) := by
  refine ⟨readBlock_dict, ?_⟩
  constructor
  · intro exact_
    have same := nodes_iff.mp exact_.nodes
    have heard := noNode_iff.mp exact_.noNode
    refine ⟨fun r inside => (contains_iff_touches.mp (same r inside)).1,
      fun r inside => (contains_iff_touches.mp (same r inside)).2, ?_⟩
    rintro ⟨r, inside, contains⟩
    exact heard ⟨r, inside, (same r inside).mp contains⟩
  · intro decided
    have same : ∀ r ∈ rows, block.Contains r.addr ↔ Touches block r := fun r inside =>
      contains_iff_touches.mpr ⟨decided.within r inside, decided.before r inside⟩
    refine ⟨nodes_iff.mpr same, fun _ => written_of_same same, noNode_iff.mpr ?_⟩
    rintro ⟨r, inside, touches⟩
    exact decided.status ⟨r, inside, (same r inside).mpr touches⟩

/-! The registers of the pin controllers are one node, and eight blocks of the manual. -/

def iocNode : Row :=
  ⟨0xfd5f0000, 0x10000, "syscon@fd5f0000".toList, "okay".toList, "rockchip".toList, "rk3588-ioc".toList, []⟩

def pmu2Ioc : Block := ⟨"PMU2_IOC".toList, 0xfd5f4000, 0x4000, "16KB".toList⟩

theorem covered_block_has_no_node :
    joinRow ([iocNode].map Row.dict) pmu2Ioc =
        .ok [pmu2Ioc.module, hex8 pmu2Ioc.start, pmu2Ioc.sizeText, [], "no-node".toList, []] ∧
      ¬ Exact pmu2Ioc [iocNode] := by
  have nothing : listed pmu2Ioc [iocNode] = [] := by decide
  have written : joinRow ([iocNode].map Row.dict) pmu2Ioc =
      .ok [pmu2Ioc.module, hex8 pmu2Ioc.start, pmu2Ioc.sizeText, [], "no-node".toList, []] := by
    rw [joinRow_dict, nothing]
    simp [statusCell, sortedSet]
  refine ⟨written, fun exact_ => exact_.noNode _ written rfl iocNode List.mem_cons_self ?_⟩
  rw [touches_iff]
  decide

end LinuxInterview.AddressMap
