import NetBlast.L2fwd.Modes
import NetBlast.L2fwd.Distribution

/-!
# The statistics

The counters of `main.c`: what a poll of `l2fwd_main_loop` adds to them, `get_aggregated_stats`, and
`print_stats` with the variables it keeps between two reports. The rate in Mpps is a `double`; a
report has the integers it is computed from. `maglevPoll_counts` and `dramblastPoll_counts` say that
the two modes of the forwarding loop count what `L2fwdPortStatistics.poll` counts.
-/

namespace NetBlast.L2fwd
open Hashmap Dramblast

/-- `struct l2fwd_port_statistics`. -/
structure L2fwdPortStatistics extends PortStatistics where
  tx : BitVec 64
  txDropped : BitVec 64
  hashTsc : BitVec 64
deriving DecidableEq

/-- The counters after `memset`. -/
def L2fwdPortStatistics.zero : L2fwdPortStatistics :=
  { rxCnt := 0, rx := 0, fwded := 0, unmapped := 0, tx := 0, txDropped := 0, hashTsc := 0 }

/-- One round of the loop of `l2fwd_main_loop`: the lcore and the queue it polls, the frames that
    were received, forwarded and sent, and the time in between. -/
structure Poll where
  lcoreId : Nat
  queue : RxPort
  nbRx : Nat
  fwded : Nat
  duration : BitVec 64
  nbTx : Nat
  nbRx_le : nbRx ≤ maxPktBurst
  fwded_le : fwded ≤ nbRx
  nbTx_le : nbTx ≤ nbRx

/-- The counters after a poll. -/
def L2fwdPortStatistics.poll (s : L2fwdPortStatistics) (p : Poll) : L2fwdPortStatistics :=
  let s := { s with rxCnt := s.rxCnt + 1 }
  if p.nbRx > 0 then
    let s :=
      { s with
        rx := s.rx + BitVec.ofNat 64 p.nbRx
        fwded := s.fwded + BitVec.ofNat 64 p.fwded
        unmapped := s.unmapped + BitVec.ofNat 64 (p.nbRx - p.fwded)
        hashTsc := s.hashTsc + p.duration }
    let s :=
      if p.nbTx < p.nbRx then
        { s with txDropped := s.txDropped + BitVec.ofNat 64 (p.nbRx - p.nbTx) }
      else s
    if p.nbTx > 0 then { s with tx := s.tx + BitVec.ofNat 64 p.nbTx } else s
  else s

/-- The body of the loop of `get_aggregated_stats`. -/
def L2fwdPortStatistics.accumulate (agg s : L2fwdPortStatistics) : L2fwdPortStatistics where
  tx := agg.tx + s.tx
  rx := agg.rx + s.rx
  unmapped := agg.unmapped + s.unmapped
  hashTsc := agg.hashTsc + s.hashTsc
  fwded := agg.fwded + s.fwded
  txDropped := agg.txDropped + s.txDropped
  rxCnt := agg.rxCnt + s.rxCnt

/-- `get_aggregated_stats`, of the counters of one port by lcore. -/
def getAggregatedStats (rteMaxLcore : Nat) (portStatistics : Nat → L2fwdPortStatistics) :
    L2fwdPortStatistics :=
  (List.range rteMaxLcore).foldl (fun agg lcoreId => agg.accumulate (portStatistics lcoreId))
    L2fwdPortStatistics.zero

/-- The variables that live on between two reports. -/
structure Globals where
  portStatistics : Nat → Nat → L2fwdPortStatistics
  prevAgg : L2fwdPortStatistics
  sampleSize : BitVec 32
  totalPacketsFwdedPrev : BitVec 64

/-- The variables at the start of the program. -/
def Globals.start : Globals where
  portStatistics _ _ := L2fwdPortStatistics.zero
  prevAgg := L2fwdPortStatistics.zero
  sampleSize := 0
  totalPacketsFwdedPrev := 0

/-- A poll counts for its port and its lcore. -/
def Globals.poll (g : Globals) (p : Poll) : Globals :=
  let stats := g.portStatistics p.queue.portId
  { g with
    portStatistics := Function.update g.portStatistics p.queue.portId
      (Function.update stats p.lcoreId ((stats p.lcoreId).poll p)) }

/-- What is printed for a port. `average` is the average batch size, if it is printed, and `rx` and
    `rxCnt` are the differences it is the quotient of. -/
structure PortReport where
  portid : Nat
  agg : L2fwdPortStatistics
  rx : BitVec 64
  rxCnt : BitVec 64
  average : Option (BitVec 64)

/-- What the rate in Mpps is computed from, and the place in `samples` it is written to. -/
structure Sample where
  index : BitVec 32
  packets : BitVec 64
  seconds : BitVec 64

/-- What is printed by `print_stats`. -/
structure Report where
  ports : List PortReport
  sample : Option Sample
  cyclesPerPacket : Option (BitVec 64)

/-- The variables of the loop over the ports. -/
structure PortLoop where
  ports : List PortReport
  prevAgg : L2fwdPortStatistics
  totalPacketsFwded : BitVec 64
  totalHashDuration : BitVec 64

section
variable (eal : Eal) (l2fwdEnabledPortMask : BitVec 32) (timerPeriod timerHz : BitVec 64)

/-- The body of the loop over the ports. -/
def printPort (g : Globals) (s : PortLoop) (portid : Nat) : PortLoop :=
  let agg := getAggregatedStats eal.rteMaxLcore (g.portStatistics portid)
  let rx := agg.rx - s.prevAgg.rx
  let rxCnt := agg.rxCnt - s.prevAgg.rxCnt
  { ports := s.ports ++
      [{ portid, agg, rx, rxCnt, average := if rxCnt > 0 then some (rx / rxCnt) else none }]
    prevAgg := agg
    totalPacketsFwded := s.totalPacketsFwded + agg.fwded
    totalHashDuration := s.totalHashDuration + agg.hashTsc }

/-- `print_stats`. -/
def printStats (g : Globals) : Report × Globals :=
  let s := (List.range eal.rteMaxEthports).foldl
    (fun s portid =>
      if l2fwdEnabledPortMask &&& (1 <<< portid) = 0 then s else printPort eal g s portid)
    { ports := [], prevAgg := g.prevAgg, totalPacketsFwded := 0, totalHashDuration := 0 }
  let sample : Option Sample :=
    if timerPeriod > 0 then
      some
        { index := g.sampleSize
          packets := s.totalPacketsFwded - g.totalPacketsFwdedPrev
          seconds := timerPeriod / timerHz }
    else none
  let cyclesPerPacket :=
    if s.totalPacketsFwded > 0 then some (s.totalHashDuration / s.totalPacketsFwded) else none
  ({ ports := s.ports, sample, cyclesPerPacket },
    { g with
      prevAgg := s.prevAgg
      sampleSize := if timerPeriod > 0 then g.sampleSize + 1 else g.sampleSize
      totalPacketsFwdedPrev := s.totalPacketsFwded })

/-- The ports of a report. -/
def reportedPorts : List Nat :=
  (List.range eal.rteMaxEthports).filter fun portid => l2fwdEnabledPortMask &&& (1 <<< portid) ≠ 0

end

/-- The counters that the forwarding loop counts frames with, after a poll. -/
def PortStatistics.poll (s : PortStatistics) (nbRx fwded : Nat) : PortStatistics where
  rxCnt := s.rxCnt + 1
  rx := s.rx + BitVec.ofNat 64 nbRx
  fwded := s.fwded + BitVec.ofNat 64 fwded
  unmapped := s.unmapped + BitVec.ofNat 64 (nbRx - fwded)

/-- A poll counts packets as the reduced counters do. -/
lemma L2fwdPortStatistics.poll_counts (s : L2fwdPortStatistics) (p : Poll) :
    (s.poll p).toPortStatistics = s.toPortStatistics.poll p.nbRx p.fwded := by
  unfold L2fwdPortStatistics.poll PortStatistics.poll
  have le := p.fwded_le
  by_cases some : p.nbRx > 0
  · simp only [if_pos some]
    split <;> split <;> rfl
  · have none : p.nbRx = 0 := by omega
    have noneFwded : p.fwded = 0 := by omega
    simp [none, noneFwded]

/-- The members of `struct l2fwd_port_statistics` that `get_aggregated_stats` adds up. -/
inductive Counter where
  | tx
  | rx
  | unmapped
  | hashTsc
  | fwded
  | txDropped
  | rxCnt

/-- The value of a member. -/
def L2fwdPortStatistics.get (s : L2fwdPortStatistics) : Counter → BitVec 64
  | .tx => s.tx
  | .rx => s.rx
  | .unmapped => s.unmapped
  | .hashTsc => s.hashTsc
  | .fwded => s.fwded
  | .txDropped => s.txDropped
  | .rxCnt => s.rxCnt

/-- Every counter of a port is added up over the lcores. -/
lemma aggregated_get (c : Counter) (n : Nat) (stats : Nat → L2fwdPortStatistics) :
    (getAggregatedStats n stats).get c = ∑ id ∈ Finset.range n, (stats id).get c := by
  have accumulate (agg s : L2fwdPortStatistics) :
      (agg.accumulate s).get c = agg.get c + s.get c := by
    cases c <;> rfl
  unfold getAggregatedStats
  induction n with
  | zero => cases c <;> rfl
  | succ n ih =>
    rw [List.range_succ, List.foldl_append, List.foldl_cons, List.foldl_nil, accumulate, ih,
      Finset.sum_range_succ]

/-- What is added to the counter of one lcore is added to the sum. -/
lemma aggregated_update (c : Counter) {n id : Nat} (lt : id < n)
    (stats : Nat → L2fwdPortStatistics) {s : L2fwdPortStatistics} {d : BitVec 64}
    (added : s.get c = (stats id).get c + d) :
    (getAggregatedStats n (Function.update stats id s)).get c =
      (getAggregatedStats n stats).get c + d := by
  rw [aggregated_get, aggregated_get]
  have pointwise : (fun i => (Function.update stats id s i).get c) =
      Function.update (fun i => (stats i).get c) id (s.get c) := by
    funext i
    by_cases here : i = id <;> simp [here]
  have mem := Finset.mem_range.mpr lt
  rw [pointwise, Finset.sum_update_of_mem mem, Finset.sdiff_singleton_eq_erase,
    ← Finset.add_sum_erase _ (fun i => (stats i).get c) mem, added]
  ring

section
variable {eal : Eal} {mask : BitVec 32} {timerPeriod timerHz : BitVec 64}

/-- The loop of `print_stats` is a loop over the enabled ports. -/
lemma printStats_loop (g : Globals) :
    let s := (reportedPorts eal mask).foldl (printPort eal g)
      { ports := [], prevAgg := g.prevAgg, totalPacketsFwded := 0, totalHashDuration := 0 }
    (printStats eal mask timerPeriod timerHz g).1.ports = s.ports ∧
      (printStats eal mask timerPeriod timerHz g).2.prevAgg = s.prevAgg ∧
      (printStats eal mask timerPeriod timerHz g).2.portStatistics = g.portStatistics := by
  have loop : (fun s portid => if mask &&& (1 <<< portid) = 0 then s else printPort eal g s portid) =
      fun s portid =>
        if decide (mask &&& (1 <<< portid) ≠ 0) then printPort eal g s portid else s := by
    funext s portid
    simp
  unfold printStats reportedPorts
  rw [List.foldl_filter, loop]
  exact ⟨rfl, rfl, rfl⟩

end

/-- The counters of a received burst, before any frame is looked at. -/
lemma countRx_eq (stats : Statistics) (burst : Burst) :
    countRx stats burst = stats.modify burst.portid fun s =>
      { s with rxCnt := s.rxCnt + 1, rx := s.rx + BitVec.ofNat 64 burst.frames.length } := by
  unfold countRx
  dsimp only
  by_cases some : burst.frames.length > 0
  · rw [if_pos some, Statistics.modify_modify]
  · have none : burst.frames.length = 0 := by omega
    rw [if_neg some, none]
    simp

/-- What the frames of a burst add to the counters of the burst. -/
lemma countRx_count (stats : Statistics) (burst : Burst) (fwded : Nat) :
    (countRx stats burst).modify burst.portid
        (fun s => s.count fwded (burst.frames.length - fwded)) =
      stats.modify burst.portid fun s => s.poll burst.frames.length fwded := by
  rw [countRx_eq, Statistics.modify_modify]
  rfl

section
variable (ports : L2fwdPorts) (crc : BitVec 64 → BitVec 64)

/-- A frame of the maglev mode is forwarded or dropped. -/
lemma maglevFrame_counts (cap : Capacity) (lookup : LookUpTable) (portid : Nat)
    (s : List Frame × MaglevLcore) (m : Frame) :
    ∃ fwded ≤ 1, (maglevFrame ports crc cap lookup portid s m).2.stats =
      s.2.stats.modify portid fun s => s.count fwded (1 - fwded) := by
  unfold maglevFrame
  dsimp only
  split
  · refine ⟨0, Nat.zero_le 1, ?_⟩
    simp [PortStatistics.count]
  · refine ⟨1, le_rfl, ?_⟩
    simp [PortStatistics.count]

/-- Each frame is either forwarded or unmapped. -/
lemma maglevFrames_counts (cap : Capacity) (lookup : LookUpTable) (portid : Nat)
    (burst : List Frame) (s : List Frame × MaglevLcore) :
    ∃ fwded ≤ burst.length,
      (burst.foldl (maglevFrame ports crc cap lookup portid) s).2.stats =
        s.2.stats.modify portid fun s => s.count fwded (burst.length - fwded) := by
  induction burst generalizing s with
  | nil =>
    refine ⟨0, le_rfl, ?_⟩
    simp [PortStatistics.count, Statistics.modify]
  | cons m burst ih =>
    obtain ⟨one, le_one, first⟩ := maglevFrame_counts ports crc cap lookup portid s m
    obtain ⟨rest, le, others⟩ := ih (maglevFrame ports crc cap lookup portid s m)
    refine ⟨one + rest, by rw [List.length_cons]; omega, ?_⟩
    have unmapped : 1 - one + (burst.length - rest) = burst.length + 1 - (one + rest) := by omega
    rw [List.foldl_cons, others, first, Statistics.modify_modify]
    simp only [PortStatistics.count_count, unmapped, List.length_cons]

/-- The maglev mode counts what a poll counts. -/
theorem maglevPoll_counts (cap : Capacity) (lookup : LookUpTable) (lcore : MaglevLcore)
    (burst : Burst) :
    ∃ fwded ≤ burst.frames.length,
      (maglevPoll ports crc cap lookup lcore burst).2.stats =
        lcore.stats.modify burst.portid fun s => s.poll burst.frames.length fwded := by
  obtain ⟨fwded, le, counts⟩ := maglevFrames_counts ports crc cap lookup burst.portid burst.frames
    ([], { lcore with stats := countRx lcore.stats burst })
  exact ⟨fwded, le, counts.trans (countRx_count lcore.stats burst fwded)⟩

/-- No more frames are forwarded than there are places. -/
lemma rewriteFrames_found (portid : Nat) (macAddrs : Nat → BitVec 64) (places : List (Nat × Nat))
    (s : List Frame × Nat) :
    (places.foldl (rewriteFrame ports portid macAddrs) s).2 ≤ s.2 + places.length := by
  induction places generalizing s with
  | nil => exact le_rfl
  | cons place places ih =>
    have step : (rewriteFrame ports portid macAddrs s place).2 ≤ s.2 + 1 := by
      unfold rewriteFrame
      dsimp only
      split <;> simp
    have := ih (rewriteFrame ports portid macAddrs s place)
    rw [List.foldl_cons, List.length_cons]
    omega

/-- No more frames are collected than there are in the burst. -/
lemma collectFrames_length (burst : List (Frame × Nat)) (s : List Nat × List DramblastArg) :
    (burst.foldl collectFrame s).1.length ≤ s.1.length + burst.length := by
  induction burst generalizing s with
  | nil => exact le_rfl
  | cons m burst ih =>
    have step : (collectFrame s m).1.length ≤ s.1.length + 1 := by
      unfold collectFrame
      dsimp only
      split <;> simp
    have := ih (collectFrame s m)
    rw [List.foldl_cons, List.length_cons]
    omega

/-- The dramblast mode counts what a poll counts. -/
theorem dramblastPoll_counts (id : Nat) (backends : LookUpTable) (lcore : DramblastLcore)
    (burst : Burst) {out lcore'}
    (run : dramblastPoll ports crc id backends lcore burst = some (out, lcore')) :
    ∃ fwded ≤ burst.frames.length,
      lcore'.stats = lcore.stats.modify burst.portid fun s => s.poll burst.frames.length fwded := by
  unfold dramblastPoll at run
  dsimp only at run
  split at run
  · obtain ⟨st, answered, run⟩ := Option.bind_eq_some_iff.mp run
    cases run
    have found := rewriteFrames_found ports burst.portid st.ret
      (burst.frames.zipIdx.foldl collectFrame ([], [])).1.zipIdx (burst.frames, 0)
    have places := collectFrames_length burst.frames.zipIdx ([], [])
    rw [List.length_zipIdx] at found places
    refine ⟨_, ?_, countRx_count lcore.stats burst _⟩
    dsimp only [List.length_nil] at found places
    omega
  · next none =>
    cases run
    have empty : burst.frames.length = 0 := by omega
    refine ⟨0, Nat.zero_le _, ?_⟩
    dsimp only
    rw [countRx_eq, empty]
    simp [PortStatistics.poll]

end

end NetBlast.L2fwd
