import NetBlast.Pktgen.Transmit
import NetBlast.Pktgen.Roles
import NetBlast.L2fwd.Baseline

/-!
# The flows of the packet generator

`main` of `pktgen.c` prints `max_capable_flows` before its loop. `flows_max` says that this is the
number of flows on the wires: no transmitter leaves its share, no two shares have a flow in common,
and each flow is sent by a transmitter whose port keeps up. `generated_flows_served` says what it
means for the forwarder: with room for that many flows, it forwards every frame.
-/

namespace NetBlast.Pktgen
open Wire L2fwd

/-- What `tx_worker_loop` finds in `lcore_config`. -/
def Assignment.txConf (s : Assignment) (id : Nat) : TxConf where
  lcoreId := BitVec.ofNat 32 id
  portMac := (s.lcoreConfig id).portMac

section
variable (eal : Eal) (s : Assignment) (g : Globals)

/-- The lcores that transmit on a port which is set up. -/
def transmitters : List Nat :=
  (workerIds eal).filter fun id =>
    (s.lcoreConfig id).type = .coreTx ∧ (s.lcoreConfig id).portId ∈ eal.devs

/-- `total_tx_queues`. -/
def totalTxQueues : Nat :=
  (eal.devs.map s.txQueuesPerPort).sum

/-- `max_capable_flows`. -/
def maxCapableFlows : BitVec 64 :=
  (g.gIpMask + 1).setWidth 64 * BitVec.ofNat 64 (totalTxQueues eal s)

/-- The flows of a transmitter. -/
def clientFlows (conf : TxConf) : Finset (List Byte) :=
  (Finset.range (g.gIpMask.toNat + 1)).image fun j =>
    clientFlow (conf.baseIp + BitVec.ofNat 32 j) conf.firstPort

/-- The flows of all transmitters. -/
def allFlows : Finset (List Byte) :=
  (transmitters eal s).toFinset.biUnion fun id => clientFlows g (s.txConf id)

end

section
variable {eal : Eal} {s : Assignment} {g : Globals}

/-- The first ports of lcores below 640 do not wrap. -/
lemma firstPort_toNat {id : Nat} (lt : id < 640) :
    (s.txConf id).firstPort.toNat = 1025 + 100 * id := by
  have sum : 1025 + BitVec.ofNat 32 id * 100 = BitVec.ofNat 32 (1025 + id * 100) := by
    rw [BitVec.ofNat_add, BitVec.ofNat_mul]
    rfl
  unfold TxConf.firstPort Assignment.txConf
  dsimp only
  rw [sum, BitVec.toNat_setWidth, BitVec.toNat_ofNat]
  omega

/-- They are not reset. -/
lemma clientPort_eq {id : Nat} (lt : id < 640) (client : Nat) :
    clientPort (s.txConf id) client = (s.txConf id).firstPort := by
  have low : ¬ (s.txConf id).firstPort > 65000 := by
    rw [gt_iff_lt, BitVec.lt_def, firstPort_toNat lt]
    simp
    omega
  exact if_neg fun h => low h.2

/-- A transmitter has a flow for each client. -/
lemma card_clientFlows (conf : TxConf) : (clientFlows g conf).card = g.gIpMask.toNat + 1 := by
  unfold clientFlows
  rw [Finset.card_image_of_injOn, Finset.card_range]
  intro j mem j' mem' same
  have small := gIpMask_lt g
  have lt := Finset.mem_range.mp mem
  have lt' := Finset.mem_range.mp mem'
  have offsets := congrArg BitVec.toNat (add_left_cancel (clientFlow_inj same).1)
  rwa [BitVec.toNat_ofNat, BitVec.toNat_ofNat, Nat.mod_eq_of_lt (by omega),
    Nat.mod_eq_of_lt (by omega)] at offsets

/-- No two lcores below 640 have a flow in common. -/
lemma disjoint_clientFlows {id id' : Nat} (lt : id < 640) (lt' : id' < 640) (ne : id ≠ id') :
    Disjoint (clientFlows g (s.txConf id)) (clientFlows g (s.txConf id')) := by
  rw [Finset.disjoint_left]
  intro flow mem mem'
  obtain ⟨j, _, rfl⟩ := Finset.mem_image.mp mem
  obtain ⟨j', _, same⟩ := Finset.mem_image.mp mem'
  have ports := congrArg BitVec.toNat (clientFlow_inj same).2
  rw [firstPort_toNat lt, firstPort_toNat lt'] at ports
  omega

/-- A transmitter is an lcore. -/
lemma lt_of_mem_transmitters {id : Nat} (mem : id ∈ transmitters eal s) : id < eal.rteMaxLcore :=
  List.mem_range.mp (List.mem_filter.mp (List.mem_filter.mp mem).1).1

/-- No transmitter is listed twice. -/
lemma nodup_transmitters (eal : Eal) (s : Assignment) : (transmitters eal s).Nodup :=
  (nodup_workerIds eal).filter _

/-- Every queue of a port that is set up is of one transmitter. -/
lemma totalTxQueues_eq
    (numbered : ∀ type p,
      ((withRole s (workerIds eal) type p).map fun id => (s.lcoreConfig id).queueId) =
        List.range (s.queuesPerPort type p)) :
    totalTxQueues eal s = (transmitters eal s).length := by
  have queues (p : Nat) : s.txQueuesPerPort p = (withRole s (workerIds eal) .coreTx p).length := by
    have length := congrArg List.length (numbered .coreTx p)
    rw [List.length_map, List.length_range] at length
    exact length.symm
  have nodup : eal.devs.Nodup := List.nodup_range.filter _
  have at_dev : Set.MapsTo (fun id => (s.lcoreConfig id).portId) (transmitters eal s).toFinset
      eal.devs.toFinset := fun id mem => by
    have role := of_decide_eq_true (List.mem_filter.mp (List.mem_toFinset.mp mem)).2
    exact List.mem_toFinset.mpr role.2
  have fiber (p : Nat) (dev : p ∈ eal.devs.toFinset) :
      (transmitters eal s).toFinset.filter (fun id => (s.lcoreConfig id).portId = p) =
        (withRole s (workerIds eal) .coreTx p).toFinset := by
    ext id
    rw [Finset.mem_filter, List.mem_toFinset, List.mem_toFinset]
    unfold transmitters withRole
    rw [List.mem_filter, List.mem_filter, decide_eq_true_iff, decide_eq_true_iff]
    constructor
    · rintro ⟨⟨mem, type, _⟩, port⟩
      exact ⟨mem, port, type⟩
    · rintro ⟨mem, rfl, type⟩
      exact ⟨⟨mem, type, List.mem_toFinset.mp dev⟩, rfl⟩
  rw [← List.toFinset_card_of_nodup (nodup_transmitters eal s), totalTxQueues,
    ← List.sum_toFinset _ nodup, Finset.card_eq_sum_card_fiberwise at_dev]
  refine Finset.sum_congr rfl fun p dev => ?_
  have nodup : (withRole s (workerIds eal) .coreTx p).Nodup := (nodup_workerIds eal).filter _
  rw [queues, fiber p dev, List.toFinset_card_of_nodup nodup]

/-- The mask and the number of queues do not overflow. -/
lemma maxCapableFlows_toNat (few : eal.rteMaxLcore ≤ 640)
    (total : totalTxQueues eal s = (transmitters eal s).length) :
    (maxCapableFlows eal s g).toNat = (transmitters eal s).length * (g.gIpMask.toNat + 1) := by
  have small := gIpMask_lt g
  have length : (transmitters eal s).length ≤ 640 := by
    unfold transmitters workerIds
    refine (List.length_filter_le _ _).trans ((List.length_filter_le _ _).trans ?_)
    rwa [List.length_range]
  have product : (transmitters eal s).length * (g.gIpMask.toNat + 1) ≤ 640 * 2 ^ 30 :=
    Nat.mul_le_mul length small
  unfold maxCapableFlows
  rw [total, BitVec.toNat_mul, BitVec.toNat_setWidth, BitVec.toNat_add, BitVec.toNat_ofNat,
    Nat.mul_comm]
  have one : (1 : BitVec 32).toNat = 1 := rfl
  rw [one, Nat.mod_eq_of_lt (show g.gIpMask.toNat + 1 < 2 ^ 32 by omega),
    Nat.mod_eq_of_lt (show g.gIpMask.toNat + 1 < 2 ^ 64 by omega),
    Nat.mod_eq_of_lt (show (transmitters eal s).length < 2 ^ 64 by omega),
    Nat.mod_eq_of_lt (show _ < 2 ^ 64 by omega)]

/-- All flows of all transmitters are distinct. -/
lemma card_allFlows (few : eal.rteMaxLcore ≤ 640) :
    (allFlows eal s g).card = (transmitters eal s).length * (g.gIpMask.toNat + 1) := by
  have lt {id : Nat} (mem : id ∈ (transmitters eal s).toFinset) : id < 640 :=
    (lt_of_mem_transmitters (List.mem_toFinset.mp mem)).trans_le few
  unfold allFlows
  rw [Finset.card_biUnion fun id mem id' mem' ne => disjoint_clientFlows (lt mem) (lt mem') ne,
    Finset.sum_congr rfl fun id _ => card_clientFlows (s.txConf id), Finset.sum_const, smul_eq_mul,
    List.toFinset_card_of_nodup (nodup_transmitters eal s)]

/-- The flow of a frame on the wire is one of its transmitter. -/
lemma Shows.mem_clientFlows {id : Nat} {m : Frame} {d : Sent} (shows : Shows g (s.txConf id) m d)
    (lt : id < 640) : List.ofFn (flowTuple m) ∈ clientFlows g (s.txConf id) := by
  rw [shows.flow, clientPort_eq lt]
  unfold currentIp
  rw [and_gIpMask]
  exact Finset.mem_image_of_mem _ (Finset.mem_range.mpr (Nat.mod_lt _ (Nat.succ_pos _)))

/-- What stands in one of two related lists is related to something in the other. -/
lemma exists_of_forall₂ {α β : Type} {R : α → β → Prop} {as : List α} {bs : List β}
    (related : List.Forall₂ R as bs) {a : α} (mem : a ∈ as) : ∃ b ∈ bs, R a b := by
  induction related with
  | nil => cases mem
  | @cons a' b _ _ here _ ih =>
    rcases List.mem_cons.mp mem with rfl | mem
    · exact ⟨b, List.mem_cons_self, here⟩
    · obtain ⟨b', mem', there⟩ := ih mem
      exact ⟨b', List.mem_cons_of_mem b mem', there⟩

/-- The flows of a run are those of its transmitter. -/
lemma mem_allFlows (cksum : List Byte → BitVec 16) (updateInterval tsc : BitVec 64)
    (rs : List TxRound) (few : eal.rteMaxLcore ≤ 640) {id : Nat} (mem : id ∈ transmitters eal s)
    {m : Frame} (sent : m ∈ (txWorkerLoop cksum g (s.txConf id) updateInterval tsc rs).1) :
    Accepted m ∧ List.ofFn (flowTuple m) ∈ allFlows eal s g := by
  obtain ⟨_, inv, _⟩ := TxInv.loop cksum g (s.txConf id) updateInterval tsc rs
  obtain ⟨d, _, shows⟩ := exists_of_forall₂ inv.shows sent
  refine ⟨shows.accepted, Finset.mem_biUnion.mpr ⟨id, List.mem_toFinset.mpr mem, ?_⟩⟩
  exact shows.mem_clientFlows ((lt_of_mem_transmitters mem).trans_le few)

/-- The port takes every frame of the round. -/
def TxRound.Full (r : TxRound) : Prop :=
  r.bufs.isSome ∧ r.nbTx = burstSize

/-- If the port keeps up, no client is skipped. -/
lemma client_sentLog (client number : Nat) (rs : List TxRound) (full : ∀ r ∈ rs, r.Full) :
    (sentLog client number rs).map (·.client) =
      (List.range (burstSize * rs.length)).map (client + ·) := by
  induction rs generalizing client number with
  | nil => rfl
  | cons r rs ih =>
    obtain ⟨some, all⟩ := full r (by simp)
    obtain ⟨bufs, eq⟩ := Option.isSome_iff_exists.mp some
    have here : (roundLog client number r).map (·.client) =
        (List.range burstSize).map (client + ·) := by
      unfold roundLog
      rw [eq]
      dsimp only
      rw [all, List.map_map]
      rfl
    have next : nextClient client r = client + burstSize := by
      unfold nextClient
      rw [eq]
    rw [sentLog, List.map_append, here, ih _ _ fun r' mem => full r' (by simp [mem]), next,
      List.length_cons, Nat.mul_succ, Nat.add_comm (burstSize * rs.length),
      List.range_add, List.map_append,
      List.map_map]
    congr 2
    funext i
    exact Nat.add_assoc ..

/-- The masks of as many consecutive clients as there are values take every value. -/
lemma exists_client {n count j : Nat} (lt : j < n) (le : n ≤ count) :
    ∃ i < count, (1 + i) % n = j := by
  cases j with
  | zero => exact ⟨n - 1, by omega, by rw [Nat.add_sub_cancel' (by omega), Nat.mod_self]⟩
  | succ j => exact ⟨j, by omega, by rw [Nat.add_comm, Nat.mod_eq_of_lt lt]⟩

/-- A transmitter whose port keeps up for long enough sends each of its flows. -/
lemma sends_every_flow (cksum : List Byte → BitVec 16) (updateInterval tsc : BitVec 64)
    {rs : List TxRound} {id : Nat} (lt : id < 640) {flow : List Byte}
    (mem : flow ∈ clientFlows g (s.txConf id)) (full : ∀ r ∈ rs, r.Full)
    (enough : g.gIpMask.toNat < burstSize * rs.length) :
    ∃ m ∈ (txWorkerLoop cksum g (s.txConf id) updateInterval tsc rs).1,
      List.ofFn (flowTuple m) = flow := by
  obtain ⟨j, hj, rfl⟩ := Finset.mem_image.mp mem
  obtain ⟨i, hi, client⟩ := exists_client (Finset.mem_range.mp hj) enough
  have logged : 1 + i ∈ (sentLog 1 0 rs).map (·.client) := by
    rw [client_sentLog 1 0 rs full]
    exact List.mem_map_of_mem (List.mem_range.mpr hi)
  obtain ⟨d, mem_log, def_d⟩ := List.mem_map.mp logged
  obtain ⟨_, inv, _⟩ := TxInv.loop cksum g (s.txConf id) updateInterval tsc rs
  obtain ⟨m, sent, shows⟩ := exists_of_forall₂ inv.shows.flip mem_log
  refine ⟨m, sent, ?_⟩
  rw [shows.flow, clientPort_eq lt]
  unfold currentIp
  rw [and_gIpMask, def_d, client]

end

/-- The printed number is that of the flows that can be on the wires: every frame that leaves has one
    of them, and each is sent by a transmitter whose port takes its frames for long enough. -/
theorem flows_max (cksum : List Byte → BitVec 16) (g : Globals) (updateInterval : BitVec 64)
    (eal : Eal) (macaddr : Nat → Fin 6 → Byte) (s : Assignment) (few : eal.rteMaxLcore ≤ 640)
    (run : assignRoles macaddr eal = some s) :
    (allFlows eal s g).card = (maxCapableFlows eal s g).toNat ∧
    (∀ id ∈ transmitters eal s, ∀ tsc rs,
      ∀ m ∈ (txWorkerLoop cksum g (s.txConf id) updateInterval tsc rs).1,
        List.ofFn (flowTuple m) ∈ allFlows eal s g) ∧
    ∀ flow ∈ allFlows eal s g, ∃ id ∈ transmitters eal s, ∀ tsc rs, (∀ r ∈ rs, r.Full) →
      g.gIpMask.toNat < burstSize * rs.length →
      ∃ m ∈ (txWorkerLoop cksum g (s.txConf id) updateInterval tsc rs).1,
        List.ofFn (flowTuple m) = flow := by
  obtain ⟨_, inv⟩ := RolesInv.of_run run
  refine ⟨?_, ?_, ?_⟩
  · rw [card_allFlows few, maxCapableFlows_toNat few (totalTxQueues_eq inv.numbered)]
  · intro id mem tsc rs m sent
    exact (mem_allFlows cksum updateInterval tsc rs few mem sent).2
  · intro flow mem
    obtain ⟨id, mem_id, mem⟩ := Finset.mem_biUnion.mp mem
    have mem_id := List.mem_toFinset.mp mem_id
    exact ⟨id, mem_id, fun tsc rs =>
      sends_every_flow cksum updateInterval tsc ((lt_of_mem_transmitters mem_id).trans_le few) mem⟩

/-- Two clients for each transmitter. -/
def twoClients : Globals where
  gIpMask := 1
  gPayloadSize := 20
  mask := ⟨1, by decide, by decide⟩
  payload := by decide
  fits := by decide

/-- The four flows of two transmitters with two clients. -/
theorem flows_max_fiveCores :
    (allFlows fiveCores fourRoles twoClients).card =
      (maxCapableFlows fiveCores fourRoles twoClients).toNat :=
  (flows_max (fun _ => 0) twoClients 100 fiveCores (fun _ _ => 7) fourRoles (by decide)
    fourRoles_run).1

/-- A frame that a transmitter has put on the wire, maybe with other addresses. -/
def Generated (cksum : List Byte → BitVec 16) (g : Globals) (updateInterval : BitVec 64) (eal : Eal)
    (s : Assignment) (m : Frame) : Prop :=
  ∃ id ∈ transmitters eal s, ∃ tsc rs,
    ∃ m' ∈ (txWorkerLoop cksum g (s.txConf id) updateInterval tsc rs).1, SamePacket m' m

/-- The flow key of a generated frame is the hash of one of the flows. -/
lemma Generated.flowhash_mem {cksum : List Byte → BitVec 16} {g : Globals}
    {updateInterval : BitVec 64} {eal : Eal} {s : Assignment} {m : Frame}
    (generated : Generated cksum g updateInterval eal s m) (few : eal.rteMaxLcore ≤ 640) :
    flowhash m ∈ (allFlows eal s g).image fnv1 := by
  obtain ⟨id, mem, tsc, rs, m', sent, same⟩ := generated
  obtain ⟨accepted, flow⟩ := mem_allFlows cksum updateInterval tsc rs few mem sent
  rw [same.flowhash_eq, flowhash_of_accepted accepted]
  exact Finset.mem_image_of_mem fnv1 flow

/-- A forwarder with zeroed tables that have room for the printed number of flows sends every
    generated frame with a flow key to its backend, in both modes with a table and on runs of any
    length. -/
theorem generated_flows_served (cksum : List Byte → BitVec 16) (g : Globals)
    (updateInterval : BitVec 64) (eal : Eal) (macaddr : Nat → Fin 6 → Byte) (s : Assignment)
    (few : eal.rteMaxLcore ≤ 640) (run : assignRoles macaddr eal = some s)
    (crc : BitVec 64 → BitVec 64) (id : Nat) (cap : Hashmap.Capacity) (ports : L2fwdPorts)
    (backends : LookUpTable) (ht : Dramblast.DramblastHt) (map : Hashmap.MaglevHashmap)
    (macAddrs : Nat → BitVec 64) (stats : Statistics) (bursts : List Burst)
    (len : ht.len = cap.val) (zero : ht.AllZero) (idle : Dramblast.Idle id ht)
    (zero' : map.AllZero cap)
    (source : ∀ burst ∈ bursts, ∀ m ∈ burst.frames, Generated cksum g updateInterval eal s m)
    (room : (maxCapableFlows eal s g).toNat ≤ cap.val - 4) :
    let out := bursts.map fun burst => burst.frames.map (forwardFrame ports backends burst.portid)
    (∃ lcore, maglevPolls ports crc cap backends { conntrack := map, stats } bursts =
        (out, lcore) ∧ lcore.stats = countRun backends bursts stats) ∧
      ∃ lcore, dramblastPolls ports crc id backends { ht, macAddrs, stats } bursts =
        some (out, lcore) ∧ lcore.stats = countRun backends bursts stats := by
  intro out
  obtain ⟨_, inv⟩ := RolesInv.of_run run
  set T := (allFlows eal s g).image fnv1 with def_T
  have fits : T.card ≤ cap.val - 4 := by
    calc T.card ≤ (allFlows eal s g).card := Finset.card_image_le
      _ = (maxCapableFlows eal s g).toNat := by
        rw [card_allFlows few, maxCapableFlows_toNat few (totalTxQueues_eq inv.numbered)]
      _ ≤ cap.val - 4 := room
  have among (burst) (mem : burst ∈ bursts) (m) (mem' : m ∈ burst.frames)
      (_ : flowhash m ≠ 0) : flowhash m ∈ T := (source burst mem m mem').flowhash_mem few
  have serves : DramblastServes crc id backends T ht := .init zero idle
  have serves' : MaglevServes crc cap backends T map := .init zero'
  exact ⟨serves'.polls ports bursts { conntrack := map, stats } (fits.trans (Nat.sub_le _ _)) among,
    serves.polls ports bursts { ht, macAddrs, stats } (len ▸ fits) among⟩

/-- A round of a transmitter whose port takes every frame. -/
def fullRound : TxRound where
  bufs := some fun _ _ => 0xaa
  tsc i := BitVec.ofNat 64 i
  nbTx := 64
  nbTx_le := le_rfl
  curTsc := 99

/-- The first two frames of lcore 1. -/
def probeBurst : Burst where
  portid := 0
  frames :=
    (txWorkerLoop (fun _ => 0) twoClients (fourRoles.txConf 1) 100 0 [fullRound]).1.take 2
  short := (List.length_take_le _ _).trans (by decide)

/-- Two generated frames, which arrive twice, in tables with eight slots. -/
theorem generated_flows_served_fiveCores :
    ∃ lcore, maglevPolls ⟨fun p => p + 1, fun _ _ => 7⟩ mmCrc32U64 eightSlots (fun _ => 255)
        { conntrack := ⟨fun _ => ⟨0, 0⟩⟩, stats := fun _ => ⟨0, 0, 0, 0⟩ } [probeBurst, probeBurst] =
      ([probeBurst, probeBurst].map fun burst => burst.frames.map
        (forwardFrame ⟨fun p => p + 1, fun _ _ => 7⟩ (fun _ => 255) burst.portid), lcore) ∧
      lcore.stats =
        countRun (fun _ => 255) [probeBurst, probeBurst] fun _ => ⟨0, 0, 0, 0⟩ := by
  have transmits : 1 ∈ transmitters fiveCores fourRoles := by decide
  refine (generated_flows_served (fun _ => 0) twoClients 100 fiveCores (fun _ _ => 7) fourRoles
    (by decide) fourRoles_run mmCrc32U64 0 eightSlots ⟨fun p => p + 1, fun _ _ => 7⟩ (fun _ => 255)
    (Dramblast.dramblastInit 8 ⟨3, by decide, by decide, rfl⟩
      fun _ _ => { k := 0, idx := 0, visitCount := 0, id := 0 })
    ⟨fun _ => ⟨0, 0⟩⟩ (fun _ => 3) (fun _ => ⟨0, 0, 0, 0⟩) [probeBurst, probeBurst] rfl
    (fun _ _ => rfl) rfl (fun _ _ => rfl) (fun burst mem m mem' => ?_) (by decide)).1
  have here : burst = probeBurst := by simpa using mem
  rw [here] at mem'
  exact ⟨1, transmits, 0, [fullRound], m, List.mem_of_mem_take mem', SamePacket.refl m⟩

end NetBlast.Pktgen
