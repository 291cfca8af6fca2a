import NetBlast.Pktgen.Frame

/-!
# The transmitting worker

`tx_worker_loop` of `pktgen.c`. A round gets what the environment decides: whether there are
buffers, what stands in them, the clock, and how many frames the port takes. `sentLog` says which
frames should leave, `TxInv` is the invariant of the loop, and `tx_worker_log` says that those frames
leave and no others.
-/

namespace NetBlast.Pktgen
open Wire L2fwd

/-- `BURST_SIZE`. -/
def burstSize : Nat := 64

/-- `struct worker_stats`, the entry of a worker in `g_stats`. -/
structure WorkerStats where
  txPkts : BitVec 64
  txBytes : BitVec 64
  rxPkts : BitVec 64
  rxBytes : BitVec 64
  totalLatencyCycles : BitVec 64
deriving DecidableEq

/-- An entry of `g_stats` when the workers are launched. -/
def WorkerStats.zero : WorkerStats where
  txPkts := 0
  txBytes := 0
  rxPkts := 0
  rxBytes := 0
  totalLatencyCycles := 0

/-- A transmitting worker, with its entry in `g_stats`. -/
structure TxWorker where
  locals : TxLocals
  stats : WorkerStats

/-- What a round of a transmitting worker meets: the buffers of `rte_pktmbuf_alloc_bulk` with
    their stale octets, if there are any, the clock before each frame and after the burst, and what
    `rte_eth_tx_burst` returns. -/
structure TxRound where
  bufs : Option (Nat → Frame)
  tsc : Nat → BitVec 64
  nbTx : Nat
  nbTx_le : nbTx ≤ burstSize
  curTsc : BitVec 64

/-- The initial value of `client_port_counter`. -/
def TxConf.firstPort (conf : TxConf) : BitVec 16 :=
  (1025 + conf.lcoreId * 100).setWidth 16

/-- `wire_len`. -/
def Globals.wireLen (g : Globals) : BitVec 32 :=
  g.l2PayloadLen + 24

/-- A transmitting worker in front of its loop, at time `tsc`. -/
def TxWorker.start (conf : TxConf) (tsc : BitVec 64) : TxWorker where
  locals :=
    { clientIpCounter := 1
      clientPortCounter := conf.firstPort
      localPkts := 0
      localBytes := 0
      lastTsc := tsc }
  stats := .zero

/-- Publish the counters. -/
def TxWorker.publish (s : TxWorker) : TxWorker :=
  { s with
    stats := { s.stats with txPkts := s.locals.localPkts, txBytes := s.locals.localBytes } }

section
variable (cksum : List Byte → BitVec 16) (g : Globals) (conf : TxConf) (updateInterval : BitVec 64)

/-- One round of the loop over the buffers of a burst. -/
def txFrame (bufs : Nat → Frame) (tsc : Nat → BitVec 64) (s : List Frame × TxLocals) (i : Nat) :
    List Frame × TxLocals :=
  let (burst, s) := s
  let (m, s) := fillFrame cksum g conf s i (bufs i) (tsc i)
  (burst ++ [m], s)

/-- A round of `tx_worker_loop`: the frames that leave, and the worker afterwards. -/
def txRound (s : TxWorker) (r : TxRound) : List Frame × TxWorker :=
  match r.bufs with
  | none => ([], s)
  | some bufs =>
    let (burst, l) := (List.range burstSize).foldl (txFrame cksum g conf bufs r.tsc) ([], s.locals)
    let l :=
      if r.nbTx > 0 then
        { l with
          localPkts := l.localPkts + BitVec.ofNat 64 r.nbTx
          localBytes := l.localBytes + (BitVec.ofNat 32 r.nbTx * g.wireLen).setWidth 64 }
      else l
    let s := { s with locals := l }
    if r.curTsc - l.lastTsc ≥ updateInterval then
      (burst.take r.nbTx, { s.publish with locals := { l with lastTsc := r.curTsc } })
    else (burst.take r.nbTx, s)

/-- The rounds of `tx_worker_loop`: what the worker puts on the wire, and the worker afterwards. -/
def txRounds : TxWorker → List TxRound → List Frame × TxWorker
  | s, [] => ([], s)
  | s, r :: rs =>
    let (out, s) := txRound cksum g conf updateInterval s r
    let (outs, s) := txRounds s rs
    (out ++ outs, s)

/-- `tx_worker_loop`: it publishes its counters when it is told to stop. -/
def txWorkerLoop (tsc : BitVec 64) (rs : List TxRound) : List Frame × TxWorker :=
  let (wire, s) := txRounds cksum g conf updateInterval (.start conf tsc) rs
  (wire, s.publish)

end

/-- What a frame on the wire should be: the number of its client, its own number, and when it was
    filled. -/
structure Sent where
  client : Nat
  number : Nat
  stamp : BitVec 64

/-- Its payload. -/
def Sent.payload (conf : TxConf) (d : Sent) : CustomPayload where
  threadId := conf.lcoreId
  packetId := BitVec.ofNat 64 d.number
  txTimestamp := d.stamp

/-- The frames of a round that the port takes, if the next client is `client` and the next frame
    `number`. -/
def roundLog (client number : Nat) (r : TxRound) : List Sent :=
  match r.bufs with
  | none => []
  | some _ =>
    (List.range r.nbTx).map fun i =>
      { client := client + i, number := number + i, stamp := r.tsc i }

/-- The next client after a round: the clients of frames that the port did not take are skipped. -/
def nextClient (client : Nat) (r : TxRound) : Nat :=
  match r.bufs with
  | none => client
  | some _ => client + burstSize

/-- The frames of the rounds of a worker that the port takes. -/
def sentLog : Nat → Nat → List TxRound → List Sent
  | _, _, [] => []
  | client, number, r :: rs =>
    let log := roundLog client number r
    log ++ sentLog (nextClient client r) (number + log.length) rs

/-- The port of a client. A port above 65000 is used for the first one only. -/
def clientPort (conf : TxConf) (client : Nat) : BitVec 16 :=
  if 1 < client ∧ conf.firstPort > 65000 then 1025 else conf.firstPort

/-- A frame on the wire is what it should be: for a receiver of the generator, and for the
    forwarder. -/
structure Shows (g : Globals) (conf : TxConf) (m : Frame) (d : Sent) : Prop where
  probe : readProbe m = some (d.payload conf)
  accepted : Accepted m
  flow : List.ofFn (flowTuple m) =
    clientFlow (currentIp g conf (BitVec.ofNat 32 d.client)) (clientPort conf d.client)

/-- The next client is `client`. -/
structure AtClient (conf : TxConf) (client : Nat) (s : TxLocals) : Prop where
  pos : 0 < client
  ip : s.clientIpCounter = BitVec.ofNat 32 client
  port : s.clientPortCounter = clientPort conf client

section
variable (cksum : List Byte → BitVec 16) {g : Globals} {conf : TxConf} {s : TxLocals}
  {client number : Nat}

/-- A filled frame shows its client, its number and its time. -/
lemma shows_fillFrame (there : AtClient conf client s)
    (pkts : s.localPkts = BitVec.ofNat 64 number) (i : Nat) (m : Frame) (tsc : BitVec 64) :
    Shows g conf (fillFrame cksum g conf s i m tsc).1
      { client, number := number + i, stamp := tsc } where
  probe := by
    have probe := readProbe_fillData cksum g conf s i m tsc
    rw [pkts, ← BitVec.ofNat_add] at probe
    exact probe
  accepted := accepted_fillData cksum g conf s i m tsc
  flow := by
    have flow := flowTuple_fillData cksum g conf s i m tsc
    rw [there.ip, there.port] at flow
    exact flow

/-- A frame takes one client, also if the port has to be reset. -/
lemma AtClient.fillFrame (there : AtClient conf client s) (i : Nat) (m : Frame) (tsc : BitVec 64) :
    AtClient conf (client + 1) (fillFrame cksum g conf s i m tsc).2 where
  pos := Nat.succ_pos client
  ip := by
    change s.clientIpCounter + 1 = _
    rw [there.ip, BitVec.ofNat_add]
    rfl
  port := by
    have pos := there.pos
    change (if s.clientPortCounter > 65000 then 1025 else s.clientPortCounter) = _
    rw [there.port]
    unfold clientPort
    have later : 1 < client + 1 := by omega
    by_cases high : 65000#16 < conf.firstPort
    · by_cases first : 1 < client
      · simp [first, later, high]
      · simp [first, later, high]
    · simp [high]

/-- The loop over the buffers fills one frame for each of the next clients. -/
lemma burst_shows (bufs : Nat → Frame) (tsc : Nat → BitVec 64) (there : AtClient conf client s)
    (pkts : s.localPkts = BitVec.ofNat 64 number) (n : Nat) :
    ∃ burst l, (List.range n).foldl (txFrame cksum g conf bufs tsc) ([], s) = (burst, l) ∧
      List.Forall₂ (Shows g conf) burst
        ((List.range n).map fun i =>
          { client := client + i, number := number + i, stamp := tsc i }) ∧
      AtClient conf (client + n) l ∧ l.localPkts = s.localPkts ∧ l.localBytes = s.localBytes ∧
      l.lastTsc = s.lastTsc := by
  induction n with
  | zero => exact ⟨[], s, rfl, .nil, there, rfl, rfl, rfl⟩
  | succ n ih =>
    obtain ⟨burst, l, run, shows, there', pkts', bytes, last⟩ := ih
    have pkts_l : l.localPkts = BitVec.ofNat 64 number := pkts'.trans pkts
    refine ⟨burst ++ [(fillFrame cksum g conf l n (bufs n) (tsc n)).1],
      (fillFrame cksum g conf l n (bufs n) (tsc n)).2, ?_, ?_, there'.fillFrame cksum .., pkts',
      bytes, last⟩
    · rw [List.range_succ, List.foldl_append, run]
      rfl
    · rw [List.range_succ, List.map_append]
      exact List.rel_append shows (.cons (shows_fillFrame cksum there' pkts_l ..) .nil)

end

/-- The octets of `n` frames on the wire. -/
def wireBytes (g : Globals) (n : Nat) : BitVec 64 :=
  BitVec.ofNat 64 (n * g.wireLen.toNat)

/-- The counters after `n` frames. -/
def txStats (g : Globals) (n : Nat) : WorkerStats :=
  { WorkerStats.zero with txPkts := BitVec.ofNat 64 n, txBytes := wireBytes g n }

/-- The invariant of a transmitting worker that has put `wire` on the wire. -/
structure TxInv (g : Globals) (conf : TxConf) (client : Nat) (log : List Sent) (wire : List Frame)
    (s : TxWorker) : Prop where
  there : AtClient conf client s.locals
  shows : List.Forall₂ (Shows g conf) wire log
  pkts : s.locals.localPkts = BitVec.ofNat 64 log.length
  bytes : s.locals.localBytes = wireBytes g log.length
  published : ∃ n ≤ log.length, s.stats = txStats g n

section
variable {g : Globals} {conf : TxConf} {client : Nat} {log : List Sent} {wire : List Frame}
  {s : TxWorker}

/-- The invariant holds before the first round. -/
lemma TxInv.start (tsc : BitVec 64) : TxInv g conf 1 [] [] (.start conf tsc) where
  there :=
    { pos := Nat.one_pos
      ip := rfl
      port := (if_neg fun h => absurd h.1 (lt_irrefl 1)).symm }
  shows := .nil
  pkts := rfl
  bytes := by simp [TxWorker.start, wireBytes]
  published := ⟨0, le_rfl, by simp [TxWorker.start, txStats, WorkerStats.zero, wireBytes]⟩

/-- The length on the wire does not wrap around. -/
lemma wireLen_toNat (g : Globals) : g.wireLen.toNat = 66 + g.gPayloadSize.toNat := by
  have payload := g.payload
  have len := l2PayloadLen_toNat g
  have frame : (24 : BitVec 32).toNat = 24 := rfl
  unfold Globals.wireLen
  rw [BitVec.toNat_add, frame]
  omega

/-- The product of a round is computed without overflow. -/
lemma wireBytes_add (n : Nat) {nbTx : Nat} (le : nbTx ≤ burstSize) :
    wireBytes g n + (BitVec.ofNat 32 nbTx * g.wireLen).setWidth 64 = wireBytes g (n + nbTx) := by
  have small : nbTx * g.wireLen.toNat ≤ 64 * 1466 := by
    have payload := g.payload
    have len := wireLen_toNat g
    exact Nat.mul_le_mul le (by omega)
  have product : (BitVec.ofNat 32 nbTx * g.wireLen).setWidth 64 =
      BitVec.ofNat 64 (nbTx * g.wireLen.toNat) := by
    apply BitVec.eq_of_toNat_eq
    have burst : burstSize = 64 := rfl
    rw [BitVec.toNat_setWidth, BitVec.toNat_mul, BitVec.toNat_ofNat, BitVec.toNat_ofNat,
      Nat.mod_eq_of_lt (show nbTx < 2 ^ 32 by omega),
      Nat.mod_eq_of_lt (show nbTx * g.wireLen.toNat < 2 ^ 32 by omega)]
  rw [product, wireBytes, wireBytes, ← BitVec.ofNat_add, Nat.add_mul]

/-- Publishing brings the counters up to date. -/
lemma TxInv.publish_stats (inv : TxInv g conf client log wire s) :
    s.publish.stats = txStats g log.length := by
  obtain ⟨n, -, stats⟩ := inv.published
  unfold TxWorker.publish
  rw [stats, inv.pkts, inv.bytes]
  rfl

/-- Publishing keeps the invariant. -/
lemma TxInv.publish (inv : TxInv g conf client log wire s) :
    TxInv g conf client log wire s.publish where
  there := inv.there
  shows := inv.shows
  pkts := inv.pkts
  bytes := inv.bytes
  published := ⟨log.length, le_rfl, inv.publish_stats⟩

/-- A round keeps the invariant. -/
lemma TxInv.round (inv : TxInv g conf client log wire s) (cksum : List Byte → BitVec 16)
    (updateInterval : BitVec 64) (r : TxRound) :
    TxInv g conf (nextClient client r) (log ++ roundLog client log.length r)
      (wire ++ (txRound cksum g conf updateInterval s r).1)
      (txRound cksum g conf updateInterval s r).2 := by
  unfold txRound roundLog nextClient
  cases r.bufs with
  | none =>
    dsimp only
    rw [List.append_nil, List.append_nil]
    exact inv
  | some bufs =>
    obtain ⟨burst, l, run, shows, there, pkts, bytes, -⟩ :=
      burst_shows (g := g) cksum bufs r.tsc inv.there inv.pkts burstSize
    dsimp only
    rw [run]
    dsimp only
    set news := (List.range r.nbTx).map fun i =>
      ({ client := client + i, number := log.length + i, stamp := r.tsc i } : Sent) with def_news
    have length : (log ++ news).length = log.length + r.nbTx := by
      rw [List.length_append, def_news, List.length_map, List.length_range]
    have sent : List.Forall₂ (Shows g conf) (wire ++ burst.take r.nbTx) (log ++ news) := by
      refine List.rel_append inv.shows ?_
      have taken := List.forall₂_take r.nbTx shows
      rwa [← List.map_take, List.take_range, Nat.min_eq_left r.nbTx_le] at taken
    set l' := if r.nbTx > 0 then
        { l with
          localPkts := l.localPkts + BitVec.ofNat 64 r.nbTx
          localBytes := l.localBytes + (BitVec.ofNat 32 r.nbTx * g.wireLen).setWidth 64 }
      else l with def_l'
    have counted : TxInv g conf (client + burstSize) (log ++ news) (wire ++ burst.take r.nbTx)
        { s with locals := l' } := by
      refine ⟨?_, sent, ?_, ?_, ?_⟩
      · dsimp only
        rw [def_l']
        split
        · exact ⟨there.pos, there.ip, there.port⟩
        · exact there
      · dsimp only
        rw [def_l', length]
        split
        · dsimp only
          rw [pkts, inv.pkts, ← BitVec.ofNat_add]
        · next none =>
          rw [pkts, inv.pkts, Nat.eq_zero_of_not_pos none, Nat.add_zero]
      · dsimp only
        rw [def_l', length]
        split
        · dsimp only
          rw [bytes, inv.bytes, wireBytes_add _ r.nbTx_le]
        · next none =>
          rw [bytes, inv.bytes, Nat.eq_zero_of_not_pos none, Nat.add_zero]
      · obtain ⟨n, le, published⟩ := inv.published
        exact ⟨n, by omega, published⟩
    split
    · obtain ⟨⟨pos, ip, port⟩, shows, pkts, bytes, published⟩ := counted.publish
      exact ⟨⟨pos, ip, port⟩, shows, pkts, bytes, published⟩
    · exact counted

/-- The rounds of a run keep the invariant. -/
lemma TxInv.rounds (inv : TxInv g conf client log wire s) (cksum : List Byte → BitVec 16)
    (updateInterval : BitVec 64) (rs : List TxRound) :
    ∃ client', TxInv g conf client' (log ++ sentLog client log.length rs)
      (wire ++ (txRounds cksum g conf updateInterval s rs).1)
      (txRounds cksum g conf updateInterval s rs).2 := by
  induction rs generalizing client log wire s with
  | nil =>
    refine ⟨client, ?_⟩
    rw [sentLog, txRounds, List.append_nil, List.append_nil]
    exact inv
  | cons r rs ih =>
    obtain ⟨client', inv'⟩ := ih (inv.round cksum updateInterval r)
    rw [List.length_append, List.append_assoc, List.append_assoc] at inv'
    exact ⟨client', inv'⟩

/-- The worker leaves with its counters published. -/
lemma TxInv.loop (cksum : List Byte → BitVec 16) (g : Globals) (conf : TxConf)
    (updateInterval tsc : BitVec 64) (rs : List TxRound) :
    ∃ client, TxInv g conf client (sentLog 1 0 rs)
        (txWorkerLoop cksum g conf updateInterval tsc rs).1
        (txWorkerLoop cksum g conf updateInterval tsc rs).2 ∧
      (txWorkerLoop cksum g conf updateInterval tsc rs).2.stats =
        txStats g (sentLog 1 0 rs).length := by
  have start : TxInv g conf 1 [] [] (.start conf tsc) := .start tsc
  obtain ⟨client, inv⟩ := start.rounds cksum updateInterval rs
  rw [List.nil_append, List.nil_append] at inv
  exact ⟨client, inv.publish, inv.publish_stats⟩

end

/-- The frames are numbered one after the other. -/
lemma number_roundLog (client number : Nat) (r : TxRound) :
    (roundLog client number r).map (·.number) =
      (List.range (roundLog client number r).length).map (number + ·) := by
  unfold roundLog
  split
  · rfl
  · rw [List.map_map, List.length_map, List.length_range]
    rfl

/-- The frames are numbered one after the other. -/
lemma number_sentLog (client number : Nat) (rs : List TxRound) :
    (sentLog client number rs).map (·.number) =
      (List.range (sentLog client number rs).length).map (number + ·) := by
  induction rs generalizing client number with
  | nil => rfl
  | cons r rs ih =>
    rw [sentLog, List.map_append, number_roundLog, ih, List.length_append, List.range_add, List.map_append,
      List.map_map]
    congr 2
    funext i
    exact Nat.add_assoc ..

/-- However many frames of a burst the port takes, the frames on the wire are numbered from 0 on
    without a gap; each shows its number, its time stamp and the flow of its client, and all of them
    are counted. -/
theorem tx_worker_log (cksum : List Byte → BitVec 16) (g : Globals) (conf : TxConf)
    (updateInterval tsc : BitVec 64) (rs : List TxRound) :
    List.Forall₂ (Shows g conf) (txWorkerLoop cksum g conf updateInterval tsc rs).1
      (sentLog 1 0 rs) ∧
    (sentLog 1 0 rs).map (·.number) = List.range (sentLog 1 0 rs).length ∧
    (txWorkerLoop cksum g conf updateInterval tsc rs).2.stats =
      txStats g (sentLog 1 0 rs).length := by
  obtain ⟨_, inv, stats⟩ := TxInv.loop cksum g conf updateInterval tsc rs
  refine ⟨inv.shows, ?_, stats⟩
  rw [number_sentLog, List.map_congr_left fun i _ => Nat.zero_add i, List.map_id']

end NetBlast.Pktgen
