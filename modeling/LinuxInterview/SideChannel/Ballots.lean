import LinuxInterview.Library.Votes
import LinuxInterview.SideChannel.Reload

/-!
# The receivers that count votes

`covert_channel` of `flush_reload` and the attack of `spectre_v1`. In each round the slots that are loaded
faster than the threshold get a vote. How long a slot takes to load in a round is the machine's answer.
-/

namespace LinuxInterview.SideChannel
open Library

variable (threshold : Cycles)

/-- One scan of all slots in the scrambled order. -/
def voteRound (time : Nat → Cycles) (hits : Nat → Nat) : Nat → Nat :=
  (List.range 256).foldl (fun hits i =>
    if time (scrambled i) < threshold then Function.update hits (scrambled i) (hits (scrambled i) + 1) else hits) hits

/-- The counters after `memset` and a number of rounds. -/
def voteRounds (rounds : Nat) (time : Nat → Nat → Cycles) : Nat → Nat :=
  (List.range rounds).foldl (fun hits i => voteRound threshold (time i) hits) fun _ => 0

def printable (best : Nat) : Bool := 32 ≤ best ∧ best < 127

/-! ## `covert_channel` -/

def receiveByte (time : Nat → Nat → Cycles) : Nat :=
  let hits := voteRounds threshold 100 time
  (List.range 256).foldl (fun best i => if hits best < hits i then i else best) 0

/-- What is printed, then `ok` and `tot`. -/
structure Received where
  printed : List Nat
  ok : Nat
  tot : Nat
  deriving DecidableEq, Repr

def Received.next (r : Received) (secret : UInt8) (best : Nat) : Received where
  printed := r.printed ++ [if printable best then best else '?'.toNat]
  ok := r.ok + if best = secret.toNat then 1 else 0
  tot := r.tot + 1

/-- `time k` are the times while character `k` of the message is sent. -/
def covertChannel (time : Nat → Nat → Nat → Cycles) (msg : List UInt8) : Received :=
  msg.zipIdx.foldl (fun r (secret, k) => r.next secret (receiveByte threshold (time k))) ⟨[], 0, 0⟩

/-! ## `spectre_v1` -/

abbrev array1Size : Nat := 16

/-- The bytes of `array1` below its size. -/
def array1 (i : Nat) : Nat := i + 1

/-- All ones where `x` is to be the malicious index, and otherwise zero. -/
def maliciousMask (j : Int32) : UInt64 :=
  let x := ((j % 6 - 1) &&& ~~~0xFFFF).toInt64.toUInt64
  x ||| x >>> 16

def victimX (trainingX maliciousX : UInt64) (j : Int32) : UInt64 :=
  trainingX ^^^ (maliciousMask j &&& (maliciousX ^^^ trainingX))

/-- The calls of `victim` in one try, from `j = 29` down to 0. -/
def victimCalls (tries : Nat) (maliciousX : UInt64) : List UInt64 :=
  let trainingX := UInt64.ofNat (tries % array1Size)
  (List.range 30).map fun k => victimX trainingX maliciousX (29 - Int32.ofNat k)

/-- The counters without what the training leaves behind, and without index 0. -/
def leakVotes (time : Nat → Nat → Cycles) : Nat → Nat :=
  (List.range array1Size).foldl (fun results i => Function.update results (array1 i) 0)
    (Function.update (voteRounds threshold 1000 time) 0 0)

/-- The best guess and the one after it. -/
def leakByte (time : Nat → Nat → Cycles) : Option Nat × Option Nat :=
  (List.range 256).foldl (topTwo (leakVotes threshold time)) (none, none)

/-- The array `out` of `main`, and how many bytes are right. -/
structure Leaked where
  out : List UInt8
  ok : Nat
  deriving DecidableEq, Repr

def Leaked.start : Leaked := ⟨List.replicate 128 0, 0⟩

/-- A guess that is none would be -1, and is written as a question mark. Past the end of `out` there is no byte
to write to. -/
def Leaked.next (l : Leaked) (k : Nat) (secret : UInt8) (best : Option Nat) : Option Leaked :=
  if k < l.out.length then some {
    out := l.out.set k (UInt8.ofNat (match best with
      | some v => if 0 < v then v else '?'.toNat
      | none => '?'.toNat))
    ok := l.ok + if best = some secret.toNat then 1 else 0 }
  else none

def leakSecret (time : Nat → Nat → Nat → Cycles) (theSecret : List UInt8) : Option Leaked :=
  theSecret.zipIdx.foldlM (fun l (secret, k) => l.next k secret (leakByte threshold (time k)).1) .start

/-- The string that `%s` prints. -/
def Leaked.printed (l : Leaked) : List UInt8 := l.out.takeWhile fun c => c ≠ 0

/-! ## The counters -/

def fastRounds (rounds : Nat) (time : Nat → Nat → Cycles) (slot : Nat) : Nat :=
  (List.range rounds).countP fun i => time i slot < threshold

theorem nodup_scrambled : ((List.range 256).map scrambled).Nodup := by
  refine List.Nodup.map_on ?_ List.nodup_range
  intro i inside j inside' same
  have back := position_scrambled i (List.mem_range.mp inside)
  rw [same, position_scrambled j (List.mem_range.mp inside')] at back
  exact back.symm

variable {threshold} {time : Nat → Nat → Cycles}

theorem voteRound_eq (time : Nat → Cycles) (hits : Nat → Nat) : voteRound threshold time hits =
    castVotes (fun slot => time slot < threshold) ((List.range 256).map scrambled) hits := by
  rw [voteRound, castVotes, List.foldl_map]
  simp only [decide_eq_true_eq]

/-- Every slot is visited once in a round. -/
theorem voteRounds_apply (rounds : Nat) {slot : Nat} (inside : slot < 256) :
    voteRounds threshold rounds time slot = fastRounds threshold rounds time slot := by
  have all := foldl_castVotes (fun i slot => decide (time i slot < threshold)) nodup_scrambled rounds slot
  rw [if_pos (mem_scanned.mpr inside)] at all
  simp only [voteRounds, voteRound_eq]
  exact all

/-! ## What `covert_channel` receives -/

theorem receiveByte_eq_iff {v : Nat} :
    receiveByte threshold time = v ↔ Wins (fastRounds threshold 100 time) 256 v := by
  rw [← wins_congr fun slot inside => voteRounds_apply 100 inside, ← argmax_range, ← foldl_argmax (by decide)]
  exact Option.some_inj.symm

theorem forall_mem_zipIdx {α : Type} (xs : List α) (p : α × Nat → Prop) :
    (∀ x ∈ xs.zipIdx, p x) ↔ ∀ k x, xs[k]? = some x → p (x, k) := by
  constructor
  · exact fun all k x found => all (x, k) (List.mk_mem_zipIdx_iff_getElem?.mpr found)
  · rintro all ⟨x, k⟩ member
    exact all k x (List.mk_mem_zipIdx_iff_getElem?.mp member)

structure Arrives (threshold : Cycles) (time : Nat → Nat → Nat → Cycles) (msg : List UInt8) (r : Received) : Prop where
  tot : r.tot = msg.length
  ok_le : r.ok ≤ r.tot
  complete : r.ok = r.tot ↔ ∀ k secret, msg[k]? = some secret → Wins (fastRounds threshold 100 (time k)) 256 secret.toNat
  length : r.printed.length = msg.length
  printed : ∀ k < msg.length, ∃ v, Wins (fastRounds threshold 100 (time k)) 256 v ∧
    r.printed[k]? = some (if printable v then v else '?'.toNat)

theorem covertChannel_eq (time : Nat → Nat → Nat → Cycles) (msg : List UInt8) : covertChannel threshold time msg =
    ⟨(List.range msg.length).map fun k =>
        if printable (receiveByte threshold (time k)) then receiveByte threshold (time k) else '?'.toNat,
      msg.zipIdx.countP fun x => receiveByte threshold (time x.2) = x.1.toNat, msg.length⟩ := by
  induction msg using List.reverseRecOn with
  | nil => rfl
  | append_singleton msg secret ih =>
      have step : covertChannel threshold time (msg ++ [secret]) =
          (covertChannel threshold time msg).next secret (receiveByte threshold (time msg.length)) := by
        simp [covertChannel, List.zipIdx_append]
      rw [step, ih]
      simp [Received.next, List.zipIdx_append, List.countP_append, List.countP_cons, List.range_succ]

theorem covertChannel_arrives (threshold : Cycles) (time : Nat → Nat → Nat → Cycles) (msg : List UInt8) :
    Arrives threshold time msg (covertChannel threshold time msg) := by
  rw [covertChannel_eq]
  constructor
  · rfl
  · exact List.countP_le_length.trans_eq List.length_zipIdx
  · have all := forall_mem_zipIdx msg fun x => receiveByte threshold (time x.2) = x.1.toNat
    simp only [receiveByte_eq_iff] at all
    rw [← all, ← List.length_zipIdx (l := msg) (i := 0), List.countP_eq_length]
    simp only [decide_eq_true_eq, receiveByte_eq_iff]
  · simp
  · intro k inside
    exact ⟨_, receiveByte_eq_iff.mp rfl, by simp [inside]⟩

/-! ## What the attack restores -/

/-- The votes that count: neither index 0 nor a byte that the training loads. -/
def score (threshold : Cycles) (time : Nat → Nat → Cycles) (v : Nat) : Nat :=
  if v ≤ 16 then 0 else fastRounds threshold 1000 time v

theorem clear_apply (n : Nat) (results : Nat → Nat) (v : Nat) :
    (List.range n).foldl (fun results i => Function.update results (array1 i) 0) results v =
      if 1 ≤ v ∧ v ≤ n then 0 else results v := by
  induction n with
  | zero =>
      have nowhere : ¬ (1 ≤ v ∧ v ≤ 0) := by omega
      rw [if_neg nowhere]
      rfl
  | succ n ih =>
      rw [List.range_succ, List.foldl_append, List.foldl_cons, List.foldl_nil]
      rcases eq_or_ne v (array1 n) with rfl | other
      · rw [Function.update_self, if_pos ⟨Nat.le_add_left 1 n, le_rfl⟩]
      · rw [Function.update_of_ne other, ih]
        have same : (1 ≤ v ∧ v ≤ n) ↔ (1 ≤ v ∧ v ≤ n + 1) := by
          unfold array1 at other
          omega
        simp only [same]

theorem leakVotes_apply {v : Nat} (inside : v < 256) : leakVotes threshold time v = score threshold time v := by
  rw [leakVotes, clear_apply, score]
  rcases eq_or_ne v 0 with rfl | other
  · simp
  · rw [Function.update_of_ne other, voteRounds_apply 1000 inside]
    have same : (1 ≤ v ∧ v ≤ 16) ↔ v ≤ 16 := by omega
    simp only [same]

theorem fst_leakByte {v : Nat} : (leakByte threshold time).1 = some v ↔ Wins (score threshold time) 256 v := by
  rw [← wins_congr fun slot inside => leakVotes_apply inside, ← argmax_range, leakByte, fst_topTwo]

/-- A byte that the training loads is never guessed. -/
theorem guess_bounds {v : Nat} (wins : Wins (score threshold time) 256 v) : v = 0 ∨ 16 < v := by
  by_contra between
  obtain ⟨nonzero, small⟩ := not_or.mp between
  have more := wins.first 0 (Nat.pos_of_ne_zero nonzero)
  rw [score, score, if_pos (by omega), if_pos (by omega)] at more
  exact absurd more (lt_irrefl 0)

theorem maliciousMask_eq : ∀ k < 30, maliciousMask (29 - Int32.ofNat k) = if k % 6 = 5 then -1 else 0 := by
  decide +kernel

theorem victimX_eq (trainingX maliciousX : UInt64) {k : Nat} (inside : k < 30) :
    victimX trainingX maliciousX (29 - Int32.ofNat k) = if k % 6 = 5 then maliciousX else trainingX := by
  rw [victimX, maliciousMask_eq k inside]
  split
  · rw [UInt64.neg_one_and, UInt64.xor_comm, UInt64.xor_assoc, UInt64.xor_self, UInt64.xor_zero]
  · rw [UInt64.zero_and, UInt64.xor_zero]

theorem victimCalls_eq (tries : Nat) (maliciousX : UInt64) : victimCalls tries maliciousX =
    (List.replicate 5 (List.replicate 5 (UInt64.ofNat (tries % array1Size)) ++ [maliciousX])).flatten := by
  have calls : victimCalls tries maliciousX =
      (List.range 30).map fun k => if k % 6 = 5 then maliciousX else UInt64.ofNat (tries % array1Size) :=
    List.map_congr_left fun k member => victimX_eq _ _ (List.mem_range.mp member)
  rw [calls]
  rfl

/-- The guess for one byte, and the one after it. -/
structure Guesses (threshold : Cycles) (time : Nat → Nat → Cycles) (best second : Nat) : Prop where
  wins : Wins (score threshold time) 256 best
  inside : second < 256
  other : second ≠ best
  leads : ∀ v < 256, v ≠ best → score threshold time v ≤ score threshold time second
  untrained : best = 0 ∨ 16 < best

theorem leakByte_guesses (threshold : Cycles) (time : Nat → Nat → Cycles) :
    ∃ best second, leakByte threshold time = (some best, some second) ∧ Guesses threshold time best second := by
  rcases both : leakByte threshold time with ⟨first, second⟩
  cases first with
  | none =>
      have winner := fst_topTwo (leakVotes threshold time) (List.range 256)
      rw [← leakByte, both] at winner
      cases List.argmax_eq_none.mp winner.symm
  | some best =>
      have wins : Wins (score threshold time) 256 best := fst_leakByte.mp (congrArg Prod.fst both)
      have ahead : IsSecond (leakVotes threshold time) (List.range 256) best second :=
        isSecond_topTwo List.nodup_range both
      obtain ⟨v, inside, other⟩ : ∃ v < 256, v ≠ best := by
        rcases eq_or_ne best 0 with rfl | nonzero
        · exact ⟨1, by decide, by decide⟩
        · exact ⟨0, by decide, nonzero.symm⟩
      obtain ⟨next, rfl, -⟩ := ahead.leads v (List.mem_range.mpr inside) other
      obtain ⟨member, apart⟩ := ahead.other next rfl
      refine ⟨best, next, rfl, wins, List.mem_range.mp member, apart, fun u below differs => ?_, guess_bounds wins⟩
      obtain ⟨_, ⟨⟩, led⟩ := ahead.leads u (List.mem_range.mpr below) differs
      rwa [leakVotes_apply below, leakVotes_apply (List.mem_range.mp member)] at led

/-- What `spectre_v1` makes of a secret: five legal indices train the branch before each malicious one, and a byte is
restored just where it has won the votes that count. -/
structure Restores (threshold : Cycles) (time : Nat → Nat → Nat → Cycles) (theSecret : List UInt8) (l : Leaked) :
    Prop where
  calls : ∀ tries maliciousX, victimCalls tries maliciousX =
    (List.replicate 5 (List.replicate 5 (UInt64.ofNat (tries % array1Size)) ++ [maliciousX])).flatten
  guesses : ∀ k, ∃ best second, leakByte threshold (time k) = (some best, some second) ∧
    Guesses threshold (time k) best second
  ok_le : l.ok ≤ theSecret.length
  complete : l.ok = theSecret.length ↔
    ∀ k secret, theSecret[k]? = some secret → Wins (score threshold (time k)) 256 secret.toNat
  length : l.printed.length = theSecret.length
  printed : ∀ k < theSecret.length, ∃ v, Wins (score threshold (time k)) 256 v ∧
    l.printed[k]? = some (UInt8.ofNat (if 0 < v then v else '?'.toNat))

/-- The byte that is written for one of the secret. -/
def restored (threshold : Cycles) (time : Nat → Nat → Cycles) : UInt8 :=
  UInt8.ofNat (match (leakByte threshold time).1 with
    | some v => if 0 < v then v else '?'.toNat
    | none => '?'.toNat)

theorem restored_eq {v : Nat} (wins : Wins (score threshold time) 256 v) :
    restored threshold time = UInt8.ofNat (if 0 < v then v else '?'.toNat) := by
  rw [restored, fst_leakByte.mpr wins]

theorem restored_ne_zero (threshold : Cycles) (time : Nat → Nat → Cycles) : restored threshold time ≠ 0 := by
  obtain ⟨best, _, _, guesses⟩ := leakByte_guesses threshold time
  rw [restored_eq guesses.wins]
  have small := guesses.wins.inside
  intro zero
  have value := congrArg UInt8.toNat zero
  rw [UInt8.toNat_ofNat'] at value
  split at value
  · rename_i positive
    rw [Nat.mod_eq_of_lt (show best < 2 ^ 8 from small)] at value
    exact positive.ne' value
  · cases value

theorem leakSecret_eq (time : Nat → Nat → Nat → Cycles) {theSecret : List UInt8} (short : theSecret.length ≤ 128) :
    leakSecret threshold time theSecret = some
      ⟨(List.range theSecret.length).map (fun k => restored threshold (time k)) ++
          List.replicate (128 - theSecret.length) 0,
        theSecret.zipIdx.countP fun x => (leakByte threshold (time x.2)).1 = some x.1.toNat⟩ := by
  induction theSecret using List.reverseRecOn with
  | nil => rfl
  | append_singleton theSecret secret ih =>
      rw [List.length_append, List.length_singleton] at short
      have step : leakSecret threshold time (theSecret ++ [secret]) =
          (leakSecret threshold time theSecret).bind fun l =>
            l.next theSecret.length secret (leakByte threshold (time theSecret.length)).1 := by
        simp [leakSecret, List.zipIdx_append]
      have room : 128 - theSecret.length = 128 - (theSecret.length + 1) + 1 := by omega
      rw [step, ih (by omega), Option.bind_some]
      unfold Leaked.next
      rw [if_pos (by simp; omega)]
      simp only [Option.some.injEq, Leaked.mk.injEq]
      constructor
      · rw [List.set_append_right _ _ (by simp), room, List.replicate_succ]
        simp [List.range_succ, restored]
      · simp [List.zipIdx_append, List.countP_append, List.countP_cons]

theorem printed_eq {restored : List UInt8} (nonzero : ∀ c ∈ restored, c ≠ 0) {left : Nat} (some_ : 0 < left) (ok : Nat) :
    Leaked.printed ⟨restored ++ List.replicate left 0, ok⟩ = restored := by
  obtain ⟨left, rfl⟩ := Nat.exists_eq_succ_of_ne_zero some_.ne'
  rw [Leaked.printed, List.takeWhile_append_of_pos (by simpa using nonzero), List.replicate_succ, List.takeWhile_cons]
  simp

/-- A secret of 128 bytes or more would leave `out` without the NUL that ends it. -/
theorem leakSecret_restores (threshold : Cycles) (time : Nat → Nat → Nat → Cycles) {theSecret : List UInt8}
    (short : theSecret.length < 128) :
    ∃ l, leakSecret threshold time theSecret = some l ∧ Restores threshold time theSecret l := by
  refine ⟨_, leakSecret_eq time short.le, ?_⟩
  have nonzero : ∀ c ∈ (List.range theSecret.length).map (fun k => restored threshold (time k)), c ≠ 0 := by
    intro c member
    obtain ⟨k, -, rfl⟩ := List.mem_map.mp member
    exact restored_ne_zero threshold (time k)
  have printed := printed_eq nonzero (Nat.sub_pos_of_lt short)
  constructor
  · exact victimCalls_eq
  · exact fun k => leakByte_guesses threshold (time k)
  · exact List.countP_le_length.trans_eq List.length_zipIdx
  · have all := forall_mem_zipIdx theSecret fun x => (leakByte threshold (time x.2)).1 = some x.1.toNat
    simp only [fst_leakByte] at all
    rw [← all, ← List.length_zipIdx (l := theSecret) (i := 0), List.countP_eq_length]
    simp only [decide_eq_true_eq, fst_leakByte]
  · rw [printed]
    simp
  · intro k inside
    obtain ⟨best, second, both, guesses⟩ := leakByte_guesses threshold (time k)
    refine ⟨best, guesses.wins, ?_⟩
    rw [printed, ← restored_eq guesses.wins]
    simp [inside]

theorem leakSecret_restores_key :
    ∃ l, leakSecret 100 (fun k _ slot => if slot = 107 + k then 50 else 300) [107, 101, 121] = some l ∧
      Restores 100 (fun k _ slot => if slot = 107 + k then 50 else 300) [107, 101, 121] l :=
  leakSecret_restores 100 _ (by decide)

end LinuxInterview.SideChannel
