import NetBlast.Pktgen.Receive
import NetBlast.Pktgen.Flows
import NetBlast.L2fwd.Plane

/-!
# The generator and the forwarder

Transmitters put frames on the links, the forwarding plane takes them from its queues and puts them
on the links again, and receivers take them from there. The links lose frames and deliver them late
and in any order, but they neither alter a frame nor deliver it twice. `probes_come_back` says that
then every frame a receiver counts is one frame of one transmitter, and that the latency it adds up
is counted from the time stamps the transmitters wrote.
-/

namespace NetBlast.Pktgen
open Wire L2fwd

/-- A part of a list shows a part of what the list shows. -/
lemma subperm_map {α β : Type} {l l' : List α} (f : α → β) (part : l.Subperm l') :
    (l.map f).Subperm (l'.map f) := by
  obtain ⟨l'', perm, sub⟩ := part
  exact ⟨l''.map f, perm.map f, sub.map f⟩

/-- A part of a list without repetitions has none. -/
lemma nodup_of_subperm {α : Type} {l l' : List α} (part : l.Subperm l') (nodup : l'.Nodup) :
    l.Nodup := by
  obtain ⟨l'', perm, sub⟩ := part
  exact perm.nodup_iff.mp (nodup.sublist sub)

/-- A transmitter, with what its environment does to it. -/
structure Transmitter where
  id : Nat
  conf : TxConf
  tsc : BitVec 64
  rounds : List TxRound
  named : conf.lcoreId = BitVec.ofNat 32 id
  id_lt : id < 2 ^ 32

/-- A receiver, with what its environment does to it. -/
structure Receiver where
  tsc : BitVec 64
  rounds : List RxRound

/-- The frames a receiver has taken from its queue. -/
def Receiver.arrivals (rx : Receiver) : List Arrival :=
  rx.rounds.flatMap RxRound.arrivals

/-- The frames a transmitter should have sent. -/
def Transmitter.log (tx : Transmitter) : List Sent :=
  sentLog 1 0 tx.rounds

section
variable (cksum : List Byte → BitVec 16) (g : Globals) (updateInterval : BitVec 64)

/-- The frames a transmitter has put on the wire. -/
def Transmitter.sent (tx : Transmitter) : List Frame :=
  (txWorkerLoop cksum g tx.conf updateInterval tx.tsc tx.rounds).1

/-- What a receiver leaves in `g_stats`. -/
def Receiver.stats (rx : Receiver) : WorkerStats :=
  (rxWorkerLoop updateInterval rx.tsc rx.rounds).stats

end

/-- The payloads of the frames of the transmitters. -/
def payloads (txs : List Transmitter) : List CustomPayload :=
  txs.flatMap fun tx => tx.log.map fun d => d.payload tx.conf

section
variable {cksum : List Byte → BitVec 16} {g : Globals} {updateInterval : BitVec 64}

/-- A receiver would read the payloads of the transmitters from the wire. -/
lemma sent_readProbe (txs : List Transmitter) :
    (txs.flatMap fun tx => tx.sent cksum g updateInterval).map readProbe =
      (payloads txs).map some := by
  have one (tx : Transmitter) : (tx.sent cksum g updateInterval).map readProbe =
      tx.log.map fun d => some (d.payload tx.conf) := by
    obtain ⟨_, inv, _⟩ := TxInv.loop cksum g tx.conf updateInterval tx.tsc tx.rounds
    have probes {ms : List Frame} {log : List Sent}
        (shows : List.Forall₂ (Shows g tx.conf) ms log) :
        ms.map readProbe = log.map fun d => some (d.payload tx.conf) := by
      induction shows with
      | nil => rfl
      | cons here _ ih => rw [List.map_cons, List.map_cons, here.probe, ih]
    exact probes inv.shows
  unfold payloads
  rw [List.map_flatMap, List.map_flatMap]
  refine List.flatMap_congr fun tx _ => ?_
  rw [one, List.map_map]
  rfl

/-- No two frames have the same payload, as long as the numbers do not wrap. -/
lemma nodup_payloads {txs : List Transmitter} (nodup : (txs.map (·.id)).Nodup)
    (short : ∀ tx ∈ txs, tx.log.length ≤ 2 ^ 64) :
    ((payloads txs).map fun p => (p.threadId, p.packetId)).Nodup := by
  have names (tx : Transmitter) : (tx.log.map fun d => d.payload tx.conf).map
      (fun p => (p.threadId, p.packetId)) =
        (List.range tx.log.length).map fun n => (tx.conf.lcoreId, BitVec.ofNat 64 n) := by
    have numbers : tx.log.map (·.number) = List.range tx.log.length := by
      unfold Transmitter.log
      rw [number_sentLog, List.map_congr_left fun i _ => Nat.zero_add i, List.map_id']
    rw [← numbers, List.map_map, List.map_map]
    rfl
  unfold payloads
  rw [List.map_flatMap, List.nodup_flatMap]
  constructor
  · intro tx mem
    rw [names]
    refine List.nodup_range.map_on fun n mem_n n' mem_n' same => ?_
    have lt := (List.mem_range.mp mem_n).trans_le (short tx mem)
    have lt' := (List.mem_range.mp mem_n').trans_le (short tx mem)
    have same := congrArg BitVec.toNat (Prod.mk.inj same).2
    rwa [BitVec.toNat_ofNat, BitVec.toNat_ofNat, Nat.mod_eq_of_lt lt, Nat.mod_eq_of_lt lt'] at same
  · refine (List.pairwise_map.mp nodup).imp fun {tx tx'} ne => ?_
    intro name mem mem'
    beta_reduce at mem mem'
    rw [names] at mem mem'
    obtain ⟨n, _, rfl⟩ := List.mem_map.mp mem
    obtain ⟨n', _, same⟩ := List.mem_map.mp mem'
    have ids := congrArg BitVec.toNat (Prod.mk.inj same).1
    rw [tx.named, tx'.named, BitVec.toNat_ofNat, BitVec.toNat_ofNat, Nat.mod_eq_of_lt tx.id_lt,
      Nat.mod_eq_of_lt tx'.id_lt] at ids
    exact ne ids.symm

/-- The frames on the links behind the forwarder show what frames on the links in front of it
    showed. -/
lemma forwarded_sublist {β : Type} {eal : Eal} {mask : BitVec 32} {queues : Nat}
    {ports : L2fwdPorts} {rxPortList : Nat → List RxPort} {s : Plane}
    (dist : Distributed eal mask queues rxPortList) (run : s.Reachable ports rxPortList)
    {f : Frame → β} (behind : ∀ m m', SamePacket m m' → f m' = f m) :
    (((rxPorts eal mask queues).flatMap s.wire).map f).Sublist
      (((rxPorts eal mask queues).flatMap s.arrived).map f) := by
  rw [List.map_flatMap, List.map_flatMap]
  refine List.Sublist.flatMap_right _ fun q mem => ?_
  obtain ⟨enabled, lt⟩ := mem_rxPorts.mp mem
  obtain ⟨_, _, account⟩ := run.account dist enabled lt
  exact account.sublist_map behind

/-- The latency of a probe is counted from its time stamp. -/
lemma Arrival.latency_eq {a : Arrival} {p : CustomPayload} (probe : readProbe a.mbuf.data = some p) :
    a.latency = Pktgen.latency a.rxTsc p.txTimestamp := by
  unfold readProbe at probe
  split at probe
  · next test =>
    cases probe
    exact if_pos test
  · cases probe

end

/-- Whatever the lcores of the forwarder do and however the links lose and delay frames, every frame
    that a receiver takes was sent by a transmitter, under the number it still carries, and no frame
    is taken twice; and the latency a receiver adds up runs from the time stamps of the
    transmitters. -/
theorem probes_come_back (cksum : List Byte → BitVec 16) (g : Globals) (updateInterval : BitVec 64)
    (txs : List Transmitter) (rxs : List Receiver) (eal : Eal) (mask : BitVec 32) (queues : Nat)
    (d : Distribution) (ports : L2fwdPorts) (s : Plane)
    (startUp : distributeQueues eal mask queues = some d) (run : s.Reachable ports d.rxPortList)
    (named : (txs.map (·.id)).Nodup) (short : ∀ tx ∈ txs, tx.log.length ≤ 2 ^ 64)
    (outbound : ((rxPorts eal mask queues).flatMap s.arrived).Subperm
      (txs.flatMap fun tx => tx.sent cksum g updateInterval))
    (inbound : ((rxs.flatMap Receiver.arrivals).map fun a => a.mbuf.data).Subperm
      ((rxPorts eal mask queues).flatMap s.wire)) :
    ∃ origin : Arrival → Transmitter × Sent,
      (∀ a ∈ rxs.flatMap Receiver.arrivals, (origin a).1 ∈ txs ∧ (origin a).2 ∈ (origin a).1.log ∧
        readProbe a.mbuf.data = some ((origin a).2.payload (origin a).1.conf)) ∧
      ((rxs.flatMap Receiver.arrivals).map fun a => ((origin a).1.id, (origin a).2.number)).Nodup ∧
      ∀ rx ∈ rxs, (rx.stats updateInterval).rxPkts = BitVec.ofNat 64 rx.arrivals.length ∧
        (rx.stats updateInterval).totalLatencyCycles =
          (rx.arrivals.map fun a => latency a.rxTsc (origin a).2.stamp).sum := by
  set arrivals := rxs.flatMap Receiver.arrivals with def_arrivals
  have dist := Distributed.of_run startUp
  have shown : (arrivals.map fun a => readProbe a.mbuf.data).Subperm ((payloads txs).map some) := by
    have behind := subperm_map readProbe inbound
    have through := (forwarded_sublist dist run readProbe_samePacket).subperm
    have front := subperm_map readProbe outbound
    rw [List.map_map] at behind
    rw [sent_readProbe] at front
    exact behind.trans (through.trans front)
  have sender (a : Arrival) (mem : a ∈ arrivals) : ∃ o : Transmitter × Sent, o.1 ∈ txs ∧
      o.2 ∈ o.1.log ∧ readProbe a.mbuf.data = some (o.2.payload o.1.conf) := by
    obtain ⟨p, mem_p, probe⟩ := List.mem_map.mp (shown.subset (List.mem_map_of_mem mem))
    obtain ⟨tx, mem_tx, mem_p⟩ := List.mem_flatMap.mp mem_p
    obtain ⟨d, mem_d, rfl⟩ := List.mem_map.mp mem_p
    exact ⟨(tx, d), mem_tx, mem_d, probe.symm⟩
  have : Nonempty (Transmitter × Sent) :=
    ⟨⟨0, ⟨0, fun _ => 0⟩, 0, [], rfl, by decide⟩, ⟨0, 0, 0⟩⟩
  choose! origin from_tx from_log probe using sender
  refine ⟨origin, fun a mem => ⟨from_tx a mem, from_log a mem, probe a mem⟩, ?_, ?_⟩
  · -- the name a frame carries is made from its origin
    have names : ((arrivals.map fun a => readProbe a.mbuf.data).map
        (Option.map fun p => (p.threadId, p.packetId))).Nodup := by
      refine nodup_of_subperm (subperm_map _ shown) ?_
      rw [List.map_map]
      have some_names := (nodup_payloads named short).map (Option.some_injective _)
      rwa [List.map_map] at some_names
    refine List.Nodup.of_map (fun o => some (BitVec.ofNat 32 o.1, BitVec.ofNat 64 o.2)) ?_
    rw [List.map_map] at names ⊢
    convert names using 1
    refine List.map_congr_left fun a mem => ?_
    dsimp only [Function.comp]
    rw [probe a mem, ← (origin a).1.named]
    rfl
  · intro rx mem
    have stats : rx.stats updateInterval = rxStats rx.arrivals :=
      rxWorkerLoop_stats updateInterval rx.tsc rx.rounds
    rw [stats]
    refine ⟨rfl, congrArg List.sum (List.map_congr_left fun a mem_a => ?_)⟩
    exact Arrival.latency_eq (probe a (List.mem_flatMap_of_mem mem mem_a))

/-- A transmitter that has sent one burst. -/
def oneBurst : Transmitter where
  id := 1
  conf := fourRoles.txConf 1
  tsc := 0
  rounds := [fullRound]
  named := rfl
  id_lt := by decide

/-- A receiver that takes one frame at time 500. -/
def oneArrival (data : Frame) : Receiver where
  tsc := 0
  rounds :=
    [{ bufs := [{ data, pktLen := 62 }]
       short := Nat.succ_le_of_lt (by decide)
       rxTsc := 500
       curTsc := 501 }]

/-- The only frame that arrives. -/
lemma arrivals_oneArrival (data : Frame) : (oneArrival data).arrivals = [⟨⟨data, 62⟩, 500⟩] :=
  rfl

/-- The first frame of a burst comes back, and the second is lost in the forwarder. -/
theorem probes_come_back_oneBurst :
    ∃ data, ∃ origin : Arrival → Transmitter × Sent,
      readProbe data = some ((origin ⟨⟨data, 62⟩, 500⟩).2.payload oneBurst.conf) ∧
      ((oneArrival data).stats 100).totalLatencyCycles =
        latency 500 (origin ⟨⟨data, 62⟩, 500⟩).2.stamp := by
  obtain ⟨_, inv, _⟩ := TxInv.loop (fun _ => 0) twoClients oneBurst.conf 100 0 [fullRound]
  have length : (oneBurst.sent (fun _ => 0) twoClients 100).length = 64 := inv.shows.length_eq
  obtain ⟨m, m', rest, sent⟩ : ∃ m m' rest,
      oneBurst.sent (fun _ => 0) twoClients 100 = m :: m' :: rest := by
    cases e : oneBurst.sent (fun _ => 0) twoClients 100 with
    | nil => rw [e] at length; cases length
    | cons m ms =>
      cases ms with
      | nil => rw [e] at length; cases length
      | cons m' rest => exact ⟨m, m', rest, rfl⟩
  obtain ⟨s, run, arrived, wire, _⟩ := twoFrames_run m m'
  set data := answerFrame ⟨fun p => p + 1, fun _ _ => 7⟩ 0 m 255
  have arrivals : [oneArrival data].flatMap Receiver.arrivals = [⟨⟨data, 62⟩, 500⟩] := rfl
  have back := probes_come_back (fun _ => 0) twoClients 100 [oneBurst] [oneArrival data] twoCores 1 1
    oneQueue _ s oneQueue_run run (by simp) (by decide)
    (by
      rw [rxPorts_twoCores, List.flatMap_singleton, List.flatMap_singleton, arrived, sent]
      exact (List.sublist_append_left [m, m'] rest).subperm)
    (by
      rw [arrivals, rxPorts_twoCores, List.flatMap_singleton, wire]
      exact List.Subperm.refl _)
  rw [arrivals] at back
  obtain ⟨origin, from_tx, _, stats⟩ := back
  obtain ⟨mem, _, probe⟩ := from_tx _ (List.mem_singleton_self _)
  rw [List.mem_singleton.mp mem] at probe
  have total := (stats _ (List.mem_singleton_self _)).2
  rw [arrivals_oneArrival, List.map_singleton, List.sum_singleton] at total
  exact ⟨data, origin, probe, total⟩

end NetBlast.Pktgen
