import NetBlast.Pktgen.Transmit

/-!
# The receiving worker

`rx_worker_loop` of `pktgen.c`. `RxInv` is the invariant of its loop: the counters are those of the
frames the worker has taken from its queue, and the latency is the sum over their time stamps.
-/

namespace NetBlast.Pktgen
open Wire L2fwd

/-- The members of `struct rte_mbuf` that the loop reads. -/
structure Mbuf where
  data : Frame
  pktLen : BitVec 32

/-- The variables of `rx_worker_loop`. -/
structure RxLocals where
  localPkts : BitVec 64
  localBytes : BitVec 64
  localLatencyCycles : BitVec 64
  lastTsc : BitVec 64

/-- A receiving worker, with its entry in `g_stats`. -/
structure RxWorker where
  locals : RxLocals
  stats : WorkerStats

/-- What a round of a receiving worker meets: what `rte_eth_rx_burst` returns, and the clock before
    and after it is handled. -/
structure RxRound where
  bufs : List Mbuf
  short : bufs.length ≤ burstSize
  rxTsc : BitVec 64
  curTsc : BitVec 64

/-- A receiving worker in front of its loop, at time `tsc`. -/
def RxWorker.start (tsc : BitVec 64) : RxWorker where
  locals := { localPkts := 0, localBytes := 0, localLatencyCycles := 0, lastTsc := tsc }
  stats := .zero

/-- Publish the counters. -/
def RxWorker.publish (s : RxWorker) : RxWorker :=
  { s with
    stats :=
      { s.stats with
        rxPkts := s.locals.localPkts
        rxBytes := s.locals.localBytes
        totalLatencyCycles := s.locals.localLatencyCycles } }

/-- One round of the loop over a burst. -/
def rxFrame (rxTsc : BitVec 64) (s : RxLocals) (m : Mbuf) : RxLocals :=
  let s := { s with localBytes := s.localBytes + (m.pktLen + 24).setWidth 64 }
  if IsProbe m.data then
    let payload := readPayload m.data
    if rxTsc > payload.txTimestamp then
      { s with localLatencyCycles := s.localLatencyCycles + (rxTsc - payload.txTimestamp) }
    else s
  else s

section
variable (updateInterval : BitVec 64)

/-- A round of `rx_worker_loop`. -/
def rxRound (s : RxWorker) (r : RxRound) : RxWorker :=
  if r.bufs.length = 0 then s
  else
    let l := r.bufs.foldl (rxFrame r.rxTsc) s.locals
    let l := { l with localPkts := l.localPkts + BitVec.ofNat 64 r.bufs.length }
    let s := { s with locals := l }
    if r.curTsc - l.lastTsc ≥ updateInterval then
      { s.publish with locals := { l with lastTsc := r.curTsc } }
    else s

/-- `rx_worker_loop`: it publishes its counters when it is told to stop. -/
def rxWorkerLoop (tsc : BitVec 64) (rs : List RxRound) : RxWorker :=
  (rs.foldl (rxRound updateInterval) (.start tsc)).publish

end

/-- A frame and the time its burst was received. -/
structure Arrival where
  mbuf : Mbuf
  rxTsc : BitVec 64

/-- The frames of a round. -/
def RxRound.arrivals (r : RxRound) : List Arrival :=
  r.bufs.map fun mbuf => { mbuf, rxTsc := r.rxTsc }

/-- The time between two readings of the clock, or 0 if the second is not the later one. -/
def latency (rxTsc txTsc : BitVec 64) : BitVec 64 :=
  if rxTsc > txTsc then rxTsc - txTsc else 0

/-- What a frame adds to the latency. -/
def Arrival.latency (a : Arrival) : BitVec 64 :=
  if IsProbe a.mbuf.data then Pktgen.latency a.rxTsc (readPayload a.mbuf.data).txTimestamp else 0

/-- The octets of a frame on the wire. -/
def Arrival.wireLen (a : Arrival) : BitVec 64 :=
  (a.mbuf.pktLen + 24).setWidth 64

/-- The counters after these frames. -/
def rxStats (as : List Arrival) : WorkerStats :=
  { WorkerStats.zero with
    rxPkts := BitVec.ofNat 64 as.length
    rxBytes := (as.map Arrival.wireLen).sum
    totalLatencyCycles := (as.map Arrival.latency).sum }

/-- The invariant of a receiving worker that has taken these frames from its queue. -/
structure RxInv (taken : List Arrival) (s : RxWorker) : Prop where
  pkts : s.locals.localPkts = BitVec.ofNat 64 taken.length
  bytes : s.locals.localBytes = (taken.map Arrival.wireLen).sum
  cycles : s.locals.localLatencyCycles = (taken.map Arrival.latency).sum
  published : ∃ n ≤ taken.length, s.stats = rxStats (taken.take n)

/-- What a received frame adds. -/
lemma rxFrame_eq (rxTsc : BitVec 64) (s : RxLocals) (m : Mbuf) :
    rxFrame rxTsc s m =
      { s with
        localBytes := s.localBytes + Arrival.wireLen { mbuf := m, rxTsc }
        localLatencyCycles := s.localLatencyCycles + Arrival.latency { mbuf := m, rxTsc } } := by
  unfold rxFrame Arrival.latency Arrival.wireLen latency
  dsimp only
  split_ifs <;> simp

/-- The loop over a burst adds up what its frames add. -/
lemma foldl_rxFrame (rxTsc : BitVec 64) (bufs : List Mbuf) (s : RxLocals) :
    bufs.foldl (rxFrame rxTsc) s =
      { s with
        localBytes := s.localBytes +
          (bufs.map fun mbuf => Arrival.wireLen { mbuf, rxTsc }).sum
        localLatencyCycles := s.localLatencyCycles +
          (bufs.map fun mbuf => Arrival.latency { mbuf, rxTsc }).sum } := by
  induction bufs generalizing s with
  | nil => simp
  | cons m bufs ih =>
    rw [List.foldl_cons, ih, rxFrame_eq]
    simp only [List.map_cons, List.sum_cons, BitVec.add_assoc]

section
variable {taken : List Arrival} {s : RxWorker}

/-- The invariant holds before the first round. -/
lemma RxInv.start (tsc : BitVec 64) : RxInv [] (.start tsc) where
  pkts := rfl
  bytes := rfl
  cycles := rfl
  published := ⟨0, le_rfl, rfl⟩

/-- Publishing brings the counters up to date. -/
lemma RxInv.publish_stats (inv : RxInv taken s) : s.publish.stats = rxStats taken := by
  obtain ⟨n, -, stats⟩ := inv.published
  unfold RxWorker.publish
  rw [stats, inv.pkts, inv.bytes, inv.cycles]
  rfl

/-- Publishing keeps the invariant. -/
lemma RxInv.publish (inv : RxInv taken s) : RxInv taken s.publish where
  pkts := inv.pkts
  bytes := inv.bytes
  cycles := inv.cycles
  published := ⟨taken.length, le_rfl, by rw [List.take_length, inv.publish_stats]⟩

/-- A round keeps the invariant. -/
lemma RxInv.round (inv : RxInv taken s) (updateInterval : BitVec 64) (r : RxRound) :
    RxInv (taken ++ r.arrivals) (rxRound updateInterval s r) := by
  unfold rxRound
  by_cases none : r.bufs.length = 0
  · have no_arrivals : r.arrivals = [] := by
      unfold RxRound.arrivals
      rw [List.eq_nil_of_length_eq_zero none, List.map_nil]
    rw [if_pos none, no_arrivals, List.append_nil]
    exact inv
  · rw [if_neg none]
    dsimp only
    rw [foldl_rxFrame]
    have counted : RxInv (taken ++ r.arrivals)
        { s with
          locals :=
            { localPkts := s.locals.localPkts + BitVec.ofNat 64 r.bufs.length
              localBytes := s.locals.localBytes +
                (r.bufs.map fun mbuf => Arrival.wireLen { mbuf, rxTsc := r.rxTsc }).sum
              localLatencyCycles := s.locals.localLatencyCycles +
                (r.bufs.map fun mbuf => Arrival.latency { mbuf, rxTsc := r.rxTsc }).sum
              lastTsc := s.locals.lastTsc } } := by
      refine ⟨?_, ?_, ?_, ?_⟩
      · dsimp only
        rw [inv.pkts, List.length_append, BitVec.ofNat_add, RxRound.arrivals, List.length_map]
      · dsimp only
        rw [inv.bytes, List.map_append, List.sum_append, RxRound.arrivals, List.map_map]
        rfl
      · dsimp only
        rw [inv.cycles, List.map_append, List.sum_append, RxRound.arrivals, List.map_map]
        rfl
      · obtain ⟨n, le, stats⟩ := inv.published
        refine ⟨n, by rw [List.length_append]; omega, ?_⟩
        rw [List.take_append_of_le_length le]
        exact stats
    split
    · obtain ⟨pkts, bytes, cycles, published⟩ := counted.publish
      exact ⟨pkts, bytes, cycles, published⟩
    · exact counted

/-- The rounds of a run keep the invariant. -/
lemma RxInv.rounds (inv : RxInv taken s) (updateInterval : BitVec 64) (rs : List RxRound) :
    RxInv (taken ++ rs.flatMap RxRound.arrivals) (rs.foldl (rxRound updateInterval) s) := by
  induction rs generalizing taken s with
  | nil =>
    rw [List.flatMap_nil, List.append_nil]
    exact inv
  | cons r rs ih =>
    rw [List.flatMap_cons, ← List.append_assoc]
    exact ih (inv.round updateInterval r)

/-- The worker leaves with its counters published. -/
lemma rxWorkerLoop_stats (updateInterval tsc : BitVec 64) (rs : List RxRound) :
    (rxWorkerLoop updateInterval tsc rs).stats = rxStats (rs.flatMap RxRound.arrivals) := by
  have inv := (RxInv.start tsc).rounds updateInterval rs
  rw [List.nil_append] at inv
  exact inv.publish_stats

end

end NetBlast.Pktgen
