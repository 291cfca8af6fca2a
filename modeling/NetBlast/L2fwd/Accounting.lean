import NetBlast.L2fwd.Plane

/-!
# The counters of the forwarding plane

The counters of a port in a state of the plane, each added up over the lcores. An lcore counts the
frames of a round in three places, so between them its counters are out of step by the frames it
holds: `Balanced` is the relation that every step keeps. `plane_counts` adds it up over the lcores,
and `plane_traffic` says that the counters are the frames that went through the queues of the port.
-/

namespace NetBlast.L2fwd

/-- The counters of an lcore for a port, with `unanswered` frames counted as received only, and
    `unaccounted` frames counted neither as sent nor as dropped. -/
structure Balanced (st : L2fwdPortStatistics) (unanswered unaccounted : Nat) : Prop where
  served : st.rx = st.fwded + st.unmapped + BitVec.ofNat 64 unanswered
  sent : st.rx = st.tx + st.txDropped + BitVec.ofNat 64 unaccounted

/-- The frames of a port that an lcore has in some part of its round. -/
def Plane.partCount (rxPortList : Nat → List RxPort) (s : Plane) (part : Phase → Nat)
    (id portid : Nat) : Nat :=
  if (rxPortList id)[(s.phase id).place]?.map (·.portId) = some portid then part (s.phase id) else 0

section
variable {st : L2fwdPortStatistics} {n m : Nat}

/-- What receiving a burst counts. -/
lemma received_eq : st.received n =
    { st with rxCnt := st.rxCnt + 1, rx := st.rx + BitVec.ofNat 64 n } := by
  unfold L2fwdPortStatistics.received
  by_cases some : n > 0
  · rw [if_pos some]
  · simp [Nat.eq_zero_of_not_pos some]

/-- What sending a burst counts. -/
lemma sent_eq : st.sent n m =
    { st with
      tx := st.tx + BitVec.ofNat 64 m
      txDropped := st.txDropped + BitVec.ofNat 64 (n - m) } := by
  unfold L2fwdPortStatistics.sent
  by_cases all : m < n
  · by_cases none : m > 0
    · rw [if_pos none, if_pos all]
    · rw [if_neg none, if_pos all, Nat.eq_zero_of_not_pos none, BitVec.add_zero]
  · have same : n - m = 0 := by omega
    by_cases none : m > 0
    · rw [if_pos none, if_neg all, same, BitVec.add_zero]
    · rw [if_neg none, if_neg all, same, Nat.eq_zero_of_not_pos none, BitVec.add_zero,
        BitVec.add_zero]

/-- After receiving, the burst is unanswered and unsent. -/
lemma Balanced.received (balanced : Balanced st 0 0) (n : Nat) : Balanced (st.received n) n n := by
  rw [received_eq]
  obtain ⟨served, sent⟩ := balanced
  rw [BitVec.add_zero] at served sent
  constructor
  · dsimp only
    rw [served]
  · dsimp only
    rw [sent]

/-- After answering, the burst is unsent. -/
lemma Balanced.answered (balanced : Balanced st n m) {found : Nat} (le : found ≤ n)
    (duration : BitVec 64) : Balanced (st.answered n found duration) 0 m := by
  obtain ⟨served, sent⟩ := balanced
  have split : BitVec.ofNat 64 n = BitVec.ofNat 64 found + BitVec.ofNat 64 (n - found) := by
    rw [← BitVec.ofNat_add, Nat.add_sub_cancel' le]
  refine ⟨?_, sent⟩
  unfold L2fwdPortStatistics.answered
  dsimp only
  rw [served, split, BitVec.add_zero]
  ring

/-- After sending, nothing is pending. -/
lemma Balanced.sent_ (balanced : Balanced st 0 m) {nbTx : Nat} (le : nbTx ≤ m) :
    Balanced (st.sent m nbTx) 0 0 := by
  rw [sent_eq]
  obtain ⟨served, sent⟩ := balanced
  have split : BitVec.ofNat 64 m = BitVec.ofNat 64 nbTx + BitVec.ofNat 64 (m - nbTx) := by
    rw [← BitVec.ofNat_add, Nat.add_sub_cancel' le]
  refine ⟨served, ?_⟩
  dsimp only
  rw [sent, split, BitVec.add_zero]
  ring

end

/-- The invariant of the counters. -/
structure CountsInv (rxPortList : Nat → List RxPort) (s : Plane) : Prop where
  balanced : ∀ id portid, Balanced (s.portStatistics portid id)
    (s.partCount rxPortList Phase.unanswered id portid)
    (s.partCount rxPortList Phase.unaccounted id portid)
  short : ∀ id, (s.phase id).unaccounted ≤ maxPktBurst

variable {ports : L2fwdPorts} {rxPortList : Nat → List RxPort} {s s' : Plane}

/-- The invariant holds of counters at zero. -/
lemma CountsInv.start : CountsInv rxPortList Plane.start where
  balanced _ _ := by
    unfold Plane.partCount Plane.start Phase.unanswered Phase.unaccounted
    rw [ite_self]
    exact ⟨rfl, rfl⟩
  short _ := Nat.zero_le _

/-- A count changes the counters of its queue. -/
lemma count_self {portid id : Nat} {f : L2fwdPortStatistics → L2fwdPortStatistics} :
    s.count portid id f portid id = f (s.portStatistics portid id) := by
  unfold Plane.count
  rw [Function.update_self, Function.update_self]

/-- A count leaves the counters of the other queues alone. -/
lemma count_other {portid id portid' id' : Nat} {f : L2fwdPortStatistics → L2fwdPortStatistics}
    (other : portid' ≠ portid ∨ id' ≠ id) :
    s.count portid id f portid' id' = s.portStatistics portid' id' := by
  unfold Plane.count
  by_cases same : portid' = portid
  · subst same
    rw [Function.update_self, Function.update_of_ne (other.resolve_left (not_not_intro rfl))]
  · rw [Function.update_of_ne same]

/-- The part of an lcore that is at a queue, or has nothing in that part. -/
lemma partCount_eq {part : Phase → Nat} {id i portid : Nat} {q : RxPort}
    (here : (rxPortList id)[i]? = some q)
    (at_place : (s.phase id).place = i ∨ part (s.phase id) = 0) :
    s.partCount rxPortList part id portid =
      if q.portId = portid then part (s.phase id) else 0 := by
  unfold Plane.partCount
  rcases at_place with place | none
  · simp only [place, here, Option.map_some, Option.some.injEq]
  · rw [none, ite_self, ite_self]

/-- The part of an lcore that has not moved. -/
lemma partCount_other {part : Phase → Nat} {id portid : Nat} (same : s'.phase id = s.phase id) :
    s'.partCount rxPortList part id portid = s.partCount rxPortList part id portid := by
  unfold Plane.partCount
  rw [same]

/-- A count that changes nothing. -/
lemma count_id (s : Plane) (portid id : Nat) :
    s.count portid id (fun st => st) = s.portStatistics := by
  unfold Plane.count
  rw [Function.update_eq_self, Function.update_eq_self]

/-- A step of an lcore at a queue keeps the invariant if it keeps the counters of its port in step. -/
lemma CountsInv.move (inv : CountsInv rxPortList s) {id i : Nat} {q : RxPort} {phase : Phase}
    {f : L2fwdPortStatistics → L2fwdPortStatistics} (here : (rxPortList id)[i]? = some q)
    (at_place : (s.phase id).place = i)
    (stays : phase.place = i ∨ phase.unanswered = 0 ∧ phase.unaccounted = 0)
    (moved : s'.phase = Function.update s.phase id phase) (short : phase.unaccounted ≤ maxPktBurst)
    (counted : s'.portStatistics = s.count q.portId id f)
    (balanced : ∀ st, Balanced st (s.phase id).unanswered (s.phase id).unaccounted →
      Balanced (f st) phase.unanswered phase.unaccounted) :
    CountsInv rxPortList s' where
  balanced id' portid := by
    have old := inv.balanced id' portid
    rw [counted]
    by_cases mine : id' = id
    · subst mine
      have now : s'.phase id' = phase := by rw [moved, Function.update_self]
      rw [partCount_eq here (Or.inl at_place), partCount_eq here (Or.inl at_place)] at old
      rw [partCount_eq here (now.symm ▸ stays.imp_right (·.1)),
        partCount_eq here (now.symm ▸ stays.imp_right (·.2)), now]
      by_cases its_port : q.portId = portid
      · subst its_port
        rw [if_pos rfl, if_pos rfl] at old ⊢
        rw [count_self]
        exact balanced _ old
      · rw [if_neg its_port, if_neg its_port] at old ⊢
        rw [count_other (Or.inl (Ne.symm its_port))]
        exact old
    · have same : s'.phase id' = s.phase id' := by rw [moved, Function.update_of_ne mine]
      rw [partCount_other same, partCount_other same, count_other (Or.inr mine)]
      exact old
  short id' := by
    rw [moved, Function.update_apply]
    split
    · exact short
    · exact inv.short id'

/-- Every step keeps the counters in step. -/
lemma CountsInv.step (inv : CountsInv rxPortList s) (step : Plane.Step ports rxPortList s s') :
    CountsInv rxPortList s' := by
  cases step with
  | arrive q ms => exact ⟨inv.balanced, inv.short⟩
  | @idle id i q at_phase here =>
    refine inv.move here (by rw [at_phase]; rfl) (Or.inr ⟨rfl, rfl⟩) rfl (Nat.zero_le _) rfl
      fun st balanced => ?_
    rw [at_phase] at balanced
    exact balanced.received 0
  | @receive id i q burst rest at_phase here _ _ short =>
    refine inv.move here (by rw [at_phase]; rfl) (Or.inl rfl) rfl short rfl fun st balanced => ?_
    rw [at_phase] at balanced
    exact balanced.received burst.length
  | @answer id i q burst answers duration at_phase here length =>
    have short : burst.length ≤ maxPktBurst := by
      have short := inv.short id
      rwa [at_phase] at short
    have same : (Phase.answered i (answerFrames ports q.portId burst answers)).unaccounted =
        burst.length := length_answerFrames ports q.portId length
    refine inv.move here (by rw [at_phase]; rfl) (Or.inl rfl) rfl (same.trans_le short) rfl
      fun st balanced => ?_
    rw [at_phase] at balanced
    rw [same]
    exact balanced.answered ((foundIn_le answers).trans_eq length) duration
  | @transmit id i q burst nbTx at_phase here le =>
    have short : burst.length ≤ maxPktBurst := by
      have short := inv.short id
      rwa [at_phase] at short
    have same : (Phase.sent i nbTx (burst.drop nbTx)).unaccounted = burst.length := by
      change nbTx + (burst.drop nbTx).length = burst.length
      rw [List.length_drop]
      omega
    refine inv.move here (by rw [at_phase]; rfl) (Or.inl rfl) rfl (same.trans_le short)
      (count_id s q.portId id).symm fun st balanced => ?_
    rw [at_phase] at balanced
    rw [same]
    exact balanced
  | @finish id i q nbTx unsent at_phase here =>
    refine inv.move here (by rw [at_phase]; rfl) (Or.inr ⟨rfl, rfl⟩) rfl (Nat.zero_le _) rfl
      fun st balanced => ?_
    rw [at_phase] at balanced
    exact balanced.sent_ (Nat.le_add_right _ _)

/-- Every reachable state has its counters in step. -/
lemma Plane.Reachable.counts (run : s.Reachable ports rxPortList) : CountsInv rxPortList s := by
  induction run with
  | refl => exact CountsInv.start
  | tail _ step ih => exact ih.step step

/-- A sum of counters is the sum modulo 2^64. -/
lemma sum_ofNat (n : Nat) (f : Nat → Nat) :
    ∑ id ∈ Finset.range n, BitVec.ofNat 64 (f id) = BitVec.ofNat 64 (∑ id ∈ Finset.range n, f id) := by
  induction n with
  | zero => rfl
  | succ n ih => rw [Finset.sum_range_succ, Finset.sum_range_succ, ih, BitVec.ofNat_add]

/-- A counter that is the sum of two others and of a number is so after adding up the lcores. -/
lemma aggregated_add (whole left right : Counter) {stats : Nat → L2fwdPortStatistics}
    {part : Nat → Nat}
    (each : ∀ id, (stats id).get whole =
      (stats id).get left + (stats id).get right + BitVec.ofNat 64 (part id))
    (n : Nat) :
    (getAggregatedStats n stats).get whole =
      (getAggregatedStats n stats).get left + (getAggregatedStats n stats).get right +
        BitVec.ofNat 64 (∑ id ∈ Finset.range n, part id) := by
  rw [aggregated_get, aggregated_get, aggregated_get, ← sum_ofNat, ← Finset.sum_add_distrib,
    ← Finset.sum_add_distrib]
  exact Finset.sum_congr rfl fun id _ => each id

/-- In every state of a run, with each counter of a port added up over the lcores, the received frames
    are those forwarded and those unmapped, and also those sent and those dropped, but for the frames
    of the bursts that the lcores hold in that state, at most `MAX_PKT_BURST` for each lcore. -/
theorem plane_counts (ports : L2fwdPorts) (rxPortList : Nat → List RxPort) (s : Plane)
    (run : s.Reachable ports rxPortList) (rteMaxLcore portid : Nat) :
    let agg := getAggregatedStats rteMaxLcore (s.portStatistics portid)
    let inRounds (part : Phase → Nat) :=
      ∑ id ∈ Finset.range rteMaxLcore, s.partCount rxPortList part id portid
    agg.rx = agg.fwded + agg.unmapped + BitVec.ofNat 64 (inRounds Phase.unanswered) ∧
      agg.rx = agg.tx + agg.txDropped + BitVec.ofNat 64 (inRounds Phase.unaccounted) ∧
      inRounds Phase.unanswered ≤ inRounds Phase.unaccounted ∧
      ∀ id, s.partCount rxPortList Phase.unaccounted id portid ≤ maxPktBurst := by
  have inv := run.counts
  refine ⟨aggregated_add .rx .fwded .unmapped (fun id => (inv.balanced id portid).served) rteMaxLcore,
    aggregated_add .rx .tx .txDropped (fun id => (inv.balanced id portid).sent) rteMaxLcore,
    Finset.sum_le_sum fun id _ => ?_, fun id => ?_⟩
  · unfold Plane.partCount
    split
    · cases s.phase id <;> simp [Phase.unanswered, Phase.unaccounted]
    · exact le_rfl
  · unfold Plane.partCount
    split
    · exact inv.short id
    · exact Nat.zero_le _

/-- The counters while an lcore holds a burst of two frames that it has not answered. -/
theorem plane_counts_twoFrames :
    ∃ s : Plane, s.phase 2 = .received 0 [udpFrame 1, udpFrame 2] ∧
      let agg := getAggregatedStats 128 (s.portStatistics 0)
      agg.rx = 2 ∧ agg.rx = agg.fwded + agg.unmapped + 2 := by
  have arrived : Plane.Reachable ⟨fun p => p + 1, fun _ _ => 7⟩ oneQueue.rxPortList _ :=
    Relation.ReflTransGen.single (Plane.Step.arrive Plane.start ⟨0, 0⟩ [udpFrame 1, udpFrame 2])
  have received := arrived.tail
    (@Plane.Step.receive _ _ _ 2 0 _ [udpFrame 1, udpFrame 2] [] rfl rfl rfl (by simp)
      (by simp [maxPktBurst]))
  obtain ⟨served, _⟩ := plane_counts _ _ _ received 128 0
  exact ⟨_, rfl, by decide +kernel, served.trans (by decide +kernel)⟩

/-- The sum of a number over the queues of a port that an lcore polls. -/
def traffic (rxPortList : Nat → List RxPort) (number : RxPort → Nat) (id portid : Nat) : Nat :=
  (((rxPortList id).filter fun q => q.portId = portid).map number).sum

/-- A counter of the lcores is the sum of a number over their queues, but for what is in `part`. -/
def Tracks (rxPortList : Nat → List RxPort) (c : Counter) (number : Plane → RxPort → Nat)
    (part : Phase → Nat) (s : Plane) : Prop :=
  ∀ id portid, (s.portStatistics portid id).get c +
    BitVec.ofNat 64 (s.partCount rxPortList part id portid) =
      BitVec.ofNat 64 (traffic rxPortList (number s) id portid)

/-- Raising one number raises the sum. -/
lemma sum_update_mem {qs : List RxPort} (nodup : qs.Nodup) {q : RxPort} (mem : q ∈ qs)
    (number : RxPort → Nat) (n : Nat) :
    (qs.map (Function.update number q (number q + n))).sum = (qs.map number).sum + n := by
  induction qs with
  | nil => cases mem
  | cons q' qs ih =>
    obtain ⟨fresh, nodup⟩ := List.nodup_cons.mp nodup
    rw [List.map_cons, List.map_cons, List.sum_cons, List.sum_cons]
    rcases List.mem_cons.mp mem with rfl | later
    · have rest : qs.map (Function.update number q (number q + n)) = qs.map number :=
        List.map_congr_left fun q' mem' => Function.update_of_ne (ne_of_mem_of_not_mem mem' fresh) ..
      rw [Function.update_self, rest]
      omega
    · have other : q' ≠ q := (ne_of_mem_of_not_mem later fresh).symm
      rw [Function.update_of_ne other, ih nodup later]
      omega

/-- What is added to the number of a queue is added to the sum of the lcore and port it is of. -/
lemma traffic_update (once : ∀ id, (rxPortList id).Nodup) (number : RxPort → Nat) (q : RxPort)
    (n id portid : Nat) :
    traffic rxPortList (Function.update number q (number q + n)) id portid =
      traffic rxPortList number id portid +
        if q ∈ rxPortList id ∧ q.portId = portid then n else 0 := by
  unfold traffic
  split
  · next mine =>
    refine sum_update_mem ((once id).filter _) ?_ number n
    rw [List.mem_filter]
    exact ⟨mine.1, decide_eq_true mine.2⟩
  · next other =>
    rw [Nat.add_zero]
    congr 1
    refine List.map_congr_left fun q' mem => Function.update_of_ne ?_ ..
    rintro rfl
    rw [List.mem_filter, decide_eq_true_eq] at mem
    exact other mem

/-- A step of an lcore at a queue keeps a counter on track if it adds as much to the counter, or to
    the part that is not counted yet, as to the number of the queue. -/
lemma Tracks.move {c : Counter} {number : Plane → RxPort → Nat} {part : Phase → Nat}
    (tracks : Tracks rxPortList c number part s)
    (exclusive : Exclusive rxPortList) (once : ∀ id, (rxPortList id).Nodup) {id i n : Nat}
    {q : RxPort} {phase : Phase} {f : L2fwdPortStatistics → L2fwdPortStatistics}
    (here : (rxPortList id)[i]? = some q) (at_place : (s.phase id).place = i)
    (stays : phase.place = i ∨ part phase = 0)
    (moved : s'.phase = Function.update s.phase id phase)
    (counted : s'.portStatistics = s.count q.portId id f)
    (added : number s' = Function.update (number s) q (number s q + n))
    (law : ∀ st, (f st).get c + BitVec.ofNat 64 (part phase) =
      st.get c + BitVec.ofNat 64 (part (s.phase id)) + BitVec.ofNat 64 n) :
    Tracks rxPortList c number part s' := by
  intro id' portid
  have old := tracks id' portid
  have mine : q ∈ rxPortList id' ↔ id' = id := by
    constructor
    · intro mem
      obtain ⟨i', hi', e⟩ := List.mem_iff_getElem.mp mem
      exact (exclusive (List.getElem?_eq_some_iff.mpr ⟨hi', e⟩) here).1
    · rintro rfl
      exact List.mem_of_getElem? here
  rw [added, traffic_update once, BitVec.ofNat_add, ← old, counted]
  by_cases same : id' = id
  · subst same
    have now : s'.phase id' = phase := by rw [moved, Function.update_self]
    rw [partCount_eq here (now.symm ▸ stays), partCount_eq here (Or.inl at_place), now]
    by_cases its_port : q.portId = portid
    · subst its_port
      rw [count_self, if_pos rfl, if_pos rfl, if_pos ⟨mine.mpr rfl, rfl⟩]
      exact law _
    · rw [count_other (Or.inl (Ne.symm its_port)), if_neg its_port, if_neg its_port,
        if_neg fun h => its_port h.2, BitVec.add_zero, BitVec.add_zero]
  · have still : s'.phase id' = s.phase id' := by rw [moved, Function.update_of_ne same]
    rw [partCount_other still, count_other (Or.inr same), if_neg fun h => same (mine.mp h.1),
      BitVec.add_zero]

/-- The frames that `rte_eth_tx_burst` took and that are not counted yet. -/
def Phase.handedOver : Phase → Nat
  | sent _ nbTx _ => nbTx
  | polling _ | received _ _ | answered _ _ => 0

/-- No frames. -/
def Phase.nothing (_ : Phase) : Nat := 0

/-- The frames that were taken from a queue. -/
def Plane.taken (s : Plane) (q : RxPort) : Nat :=
  (s.arrived q).length - (s.pending q).length

/-- The counters of received, sent and dropped frames are the frames of the queues. -/
structure TrafficInv (rxPortList : Nat → List RxPort) (s : Plane) : Prop where
  rx : Tracks rxPortList .rx Plane.taken Phase.nothing s
  tx : Tracks rxPortList .tx (fun s q => (s.wire q).length) Phase.handedOver s
  txDropped : Tracks rxPortList .txDropped (fun s q => (s.freed q).length) Phase.nothing s
  arrived : ∀ q, (s.pending q).length ≤ (s.arrived q).length

/-- Where nothing was received there is no traffic. -/
lemma traffic_zero (id portid : Nat) : traffic rxPortList (fun _ => 0) id portid = 0 := by
  unfold traffic
  rw [List.map_const', List.sum_replicate, smul_zero]

/-- The invariant holds before the first step. -/
lemma TrafficInv.start : TrafficInv rxPortList Plane.start := by
  have zero (part : Phase → Nat) (none : part (.polling 0) = 0) (id portid) :
      (0 : BitVec 64) + BitVec.ofNat 64 (Plane.start.partCount rxPortList part id portid) =
        BitVec.ofNat 64 (traffic rxPortList (fun _ => 0) id portid) := by
    unfold Plane.partCount Plane.start
    rw [none, ite_self, traffic_zero]
    rfl
  exact ⟨zero _ rfl, zero _ rfl, zero _ rfl, fun _ => le_rfl⟩

/-- A number that a step leaves as it is. -/
lemma number_same (number : RxPort → Nat) (q : RxPort) :
    number = Function.update number q (number q + 0) :=
  (Function.update_eq_self q number).symm

/-- Frames that are added to a list of a queue. -/
lemma length_update (lists : RxPort → List Frame) (q : RxPort) (ms : List Frame) :
    (fun q' => (Function.update lists q (lists q ++ ms) q').length) =
      Function.update (fun q' => (lists q').length) q ((lists q).length + ms.length) := by
  funext q'
  by_cases same : q' = q
  · rw [same, Function.update_self, Function.update_self, List.length_append]
  · rw [Function.update_of_ne same, Function.update_of_ne same]

/-- Frames that arrive are pending, and not taken. -/
lemma taken_arrive (s : Plane) (q : RxPort) (ms : List Frame) :
    Plane.taken { s with
      arrived := Function.update s.arrived q (s.arrived q ++ ms)
      pending := Function.update s.pending q (s.pending q ++ ms) } = s.taken := by
  funext q'
  unfold Plane.taken
  dsimp only
  by_cases same : q' = q
  · subst same
    rw [Function.update_self, Function.update_self, List.length_append, List.length_append,
      Nat.add_sub_add_right]
  · rw [Function.update_of_ne same, Function.update_of_ne same]

/-- A burst is taken from its queue. -/
lemma taken_receive {q : RxPort} {burst rest : List Frame} (pending : s.pending q = burst ++ rest)
    (le : (s.pending q).length ≤ (s.arrived q).length) (arrived : s'.arrived = s.arrived)
    (received : s'.pending = Function.update s.pending q rest) :
    s'.taken = Function.update s.taken q (s.taken q + burst.length) := by
  funext q'
  unfold Plane.taken
  rw [arrived, received]
  by_cases same : q' = q
  · subst same
    rw [pending, List.length_append] at le
    rw [Function.update_self, Function.update_self, pending, List.length_append]
    omega
  · rw [Function.update_of_ne same, Function.update_of_ne same]

/-- A step of an lcore at a queue keeps the invariant if it counts what it takes, hands over and
    frees. -/
lemma TrafficInv.move (inv : TrafficInv rxPortList s) (exclusive : Exclusive rxPortList)
    (once : ∀ id, (rxPortList id).Nodup) {id i taken sent freed : Nat} {q : RxPort} {phase : Phase}
    {f : L2fwdPortStatistics → L2fwdPortStatistics} (here : (rxPortList id)[i]? = some q)
    (at_place : (s.phase id).place = i) (stays : phase.place = i ∨ phase.handedOver = 0)
    (moved : s'.phase = Function.update s.phase id phase)
    (counted : s'.portStatistics = s.count q.portId id f)
    (takes : s'.taken = Function.update s.taken q (s.taken q + taken))
    (sends : (fun q => (s'.wire q).length) =
      Function.update (fun q => (s.wire q).length) q ((s.wire q).length + sent))
    (frees : (fun q => (s'.freed q).length) =
      Function.update (fun q => (s.freed q).length) q ((s.freed q).length + freed))
    (arrived : ∀ q, (s'.pending q).length ≤ (s'.arrived q).length)
    (law : ∀ st, (f st).rx = st.rx + BitVec.ofNat 64 taken ∧
      (f st).tx + BitVec.ofNat 64 phase.handedOver =
        st.tx + BitVec.ofNat 64 (s.phase id).handedOver + BitVec.ofNat 64 sent ∧
      (f st).txDropped = st.txDropped + BitVec.ofNat 64 freed) :
    TrafficInv rxPortList s' where
  rx := inv.rx.move exclusive once here at_place (Or.inr rfl) moved counted takes fun st => by
    unfold Phase.nothing L2fwdPortStatistics.get
    rw [BitVec.add_zero, BitVec.add_zero]
    exact (law st).1
  tx := inv.tx.move exclusive once here at_place stays moved counted sends fun st => (law st).2.1
  txDropped :=
    inv.txDropped.move exclusive once here at_place (Or.inr rfl) moved counted frees fun st => by
      unfold Phase.nothing L2fwdPortStatistics.get
      rw [BitVec.add_zero, BitVec.add_zero]
      exact (law st).2.2
  arrived := arrived

/-- Every step keeps the counters on track. -/
lemma TrafficInv.step (inv : TrafficInv rxPortList s) (exclusive : Exclusive rxPortList)
    (once : ∀ id, (rxPortList id).Nodup) (step : Plane.Step ports rxPortList s s') :
    TrafficInv rxPortList s' := by
  cases step with
  | arrive q ms =>
    refine ⟨fun id portid => ?_, inv.tx, inv.txDropped, fun q' => ?_⟩
    · rw [taken_arrive]
      exact inv.rx id portid
    · have old := inv.arrived q'
      dsimp only
      by_cases same : q' = q
      · subst same
        rw [Function.update_self, Function.update_self, List.length_append, List.length_append]
        exact Nat.add_le_add_right old _
      · rwa [Function.update_of_ne same, Function.update_of_ne same]
  | @idle id i q at_phase here =>
    refine inv.move exclusive once here (by rw [at_phase]; rfl) (Or.inr rfl) rfl rfl (number_same ..)
      (number_same ..) (number_same ..) inv.arrived fun st => ?_
    rw [at_phase, received_eq]
    exact ⟨rfl, (BitVec.add_zero _).symm, (BitVec.add_zero _).symm⟩
  | @receive id i q burst rest at_phase here pending _ _ =>
    have le := inv.arrived q
    refine inv.move exclusive once here (by rw [at_phase]; rfl) (Or.inl rfl) rfl rfl
      (taken_receive pending le rfl rfl) (number_same ..) (number_same ..) ?_ fun st => ?_
    · rw [pending, List.length_append] at le
      refine (Function.forall_update_iff s.pending fun q' ms => ms.length ≤ (s.arrived q').length).mpr
        ⟨by omega, fun q' _ => inv.arrived q'⟩
    · rw [at_phase, received_eq]
      exact ⟨rfl, (BitVec.add_zero _).symm, (BitVec.add_zero _).symm⟩
  | @answer id i q burst answers duration at_phase here length =>
    refine inv.move exclusive once here (by rw [at_phase]; rfl) (Or.inl rfl) rfl rfl (number_same ..)
      (number_same ..) (number_same ..) inv.arrived fun st => ?_
    rw [at_phase]
    exact ⟨(BitVec.add_zero _).symm, (BitVec.add_zero _).symm, (BitVec.add_zero _).symm⟩
  | @transmit id i q burst nbTx at_phase here le =>
    refine inv.move exclusive once here (by rw [at_phase]; rfl) (Or.inl rfl) rfl
      (count_id s q.portId id).symm (number_same ..) (length_update ..) (number_same ..) inv.arrived
      fun st => ?_
    rw [at_phase, List.length_take, Nat.min_eq_left le]
    refine ⟨(BitVec.add_zero _).symm, ?_, (BitVec.add_zero _).symm⟩
    change st.tx + BitVec.ofNat 64 nbTx = st.tx + 0#64 + _
    rw [BitVec.add_zero]
  | @finish id i q nbTx unsent at_phase here =>
    refine inv.move exclusive once here (by rw [at_phase]; rfl) (Or.inr rfl) rfl rfl (number_same ..)
      (number_same ..) (length_update ..) inv.arrived fun st => ?_
    rw [at_phase, sent_eq, Nat.add_sub_cancel_left]
    exact ⟨(BitVec.add_zero _).symm, rfl, rfl⟩

/-- In every reachable state the counters are on track. -/
lemma Plane.Reachable.traffic (run : s.Reachable ports rxPortList)
    (exclusive : Exclusive rxPortList) (once : ∀ id, (rxPortList id).Nodup) :
    TrafficInv rxPortList s := by
  induction run with
  | refl => exact TrafficInv.start
  | tail _ step ih => exact ih.step exclusive once step

/-- The queues of the lcores are the queues of the port. -/
lemma sum_traffic {eal : Eal} {mask : BitVec 32} {queues portid : Nat}
    (dist : Distributed eal mask queues rxPortList) (enabled : portid ∈ enabledPorts eal mask)
    (number : RxPort → Nat) :
    ∑ id ∈ Finset.range eal.rteMaxLcore, traffic rxPortList number id portid =
      ∑ k ∈ Finset.range queues, number { portId := portid, queueId := k } := by
  let ofLcore (id : Nat) : Finset RxPort :=
    ((rxPortList id).filter fun q => q.portId = portid).toFinset
  have mem {id q} : q ∈ ofLcore id ↔ q ∈ rxPortList id ∧ q.portId = portid := by
    rw [List.mem_toFinset, List.mem_filter, decide_eq_true_eq]
  have each (id) : traffic rxPortList number id portid = ∑ q ∈ ofLcore id, number q :=
    (List.sum_toFinset number ((dist.once id).filter _)).symm
  have apart : ((Finset.range eal.rteMaxLcore : Finset Nat) : Set Nat).PairwiseDisjoint ofLcore := by
    intro id _ id' _ ne
    rw [Function.onFun, Finset.disjoint_left]
    intro q here there
    obtain ⟨inList, e⟩ := mem.mp here
    obtain ⟨isPort, lt⟩ := dist.only id q inList
    exact ne ((dist.assigned q.portId isPort q.queueId lt).unique inList (mem.mp there).1)
  have all : (Finset.range eal.rteMaxLcore).biUnion ofLcore =
      (Finset.range queues).image fun k => { portId := portid, queueId := k } := by
    ext q
    rw [Finset.mem_biUnion, Finset.mem_image]
    constructor
    · rintro ⟨id, _, here⟩
      obtain ⟨inList, rfl⟩ := mem.mp here
      exact ⟨q.queueId, Finset.mem_range.mpr (dist.only id q inList).2, rfl⟩
    · rintro ⟨k, lt, rfl⟩
      obtain ⟨id, inList, _⟩ := dist.assigned portid enabled k (Finset.mem_range.mp lt)
      have worker := dist.worker id (List.ne_nil_of_mem inList)
      exact ⟨id, Finset.mem_range.mpr (eal.enabled_lt id worker.1), mem.mpr ⟨inList, rfl⟩⟩
  rw [Finset.sum_congr rfl fun id _ => each id, ← Finset.sum_biUnion apart, all,
    Finset.sum_image fun k _ k' _ e => (RxPort.mk.inj e).2]

/-- A counter that is on track, added up over the lcores. -/
lemma Tracks.aggregated {eal : Eal} {mask : BitVec 32} {queues portid : Nat}
    {c : Counter} {number : Plane → RxPort → Nat} {part : Phase → Nat}
    (tracks : Tracks rxPortList c number part s) (dist : Distributed eal mask queues rxPortList)
    (enabled : portid ∈ enabledPorts eal mask) :
    (getAggregatedStats eal.rteMaxLcore (s.portStatistics portid)).get c +
        BitVec.ofNat 64 (∑ id ∈ Finset.range eal.rteMaxLcore, s.partCount rxPortList part id portid) =
      BitVec.ofNat 64 (∑ k ∈ Finset.range queues, number s { portId := portid, queueId := k }) := by
  rw [aggregated_get, ← sum_ofNat, ← Finset.sum_add_distrib, ← sum_traffic dist enabled, ← sum_ofNat]
  exact Finset.sum_congr rfl fun id _ => tracks id portid

/-- A phase without frames has none of the burst. -/
lemma partCount_nothing (id portid : Nat) : s.partCount rxPortList Phase.nothing id portid = 0 := by
  unfold Plane.partCount Phase.nothing
  rw [ite_self]

/-- In every state of a run, the counters of a port, each added up over the lcores, are the frames that
    went through its queues: received are those taken from the queues, dropped those freed, and sent
    those on the wire, but for the frames that were handed over in a round that has not been counted
    yet. -/
theorem plane_traffic (eal : Eal) (mask : BitVec 32) (queues : Nat) (d : Distribution)
    (ports : L2fwdPorts) (s : Plane) (portid : Nat)
    (startUp : distributeQueues eal mask queues = some d) (run : s.Reachable ports d.rxPortList)
    (enabled : portid ∈ enabledPorts eal mask) :
    let agg := getAggregatedStats eal.rteMaxLcore (s.portStatistics portid)
    let overQueues (number : RxPort → Nat) :=
      ∑ k ∈ Finset.range queues, number { portId := portid, queueId := k }
    agg.rx = BitVec.ofNat 64 (overQueues s.taken) ∧
      agg.txDropped = BitVec.ofNat 64 (overQueues fun q => (s.freed q).length) ∧
      agg.tx + BitVec.ofNat 64
          (∑ id ∈ Finset.range eal.rteMaxLcore,
            s.partCount d.rxPortList Phase.handedOver id portid) =
        BitVec.ofNat 64 (overQueues fun q => (s.wire q).length) := by
  have dist := Distributed.of_run startUp
  have inv := run.traffic dist.exclusive dist.once
  have rx := inv.rx.aggregated dist enabled
  have txDropped := inv.txDropped.aggregated dist enabled
  simp only [partCount_nothing, Finset.sum_const_zero, BitVec.add_zero] at rx txDropped
  exact ⟨rx, txDropped, inv.tx.aggregated dist enabled⟩

/-- The counters of a port after a round over a burst of two frames. -/
theorem plane_traffic_twoFrames :
    ∃ s : Plane, (s.wire ⟨0, 0⟩).length = 1 ∧ (s.freed ⟨0, 0⟩).length = 1 ∧
      (getAggregatedStats twoCores.rteMaxLcore (s.portStatistics 0)).rx =
        BitVec.ofNat 64 (∑ k ∈ Finset.range 1, s.taken ⟨0, k⟩) := by
  obtain ⟨s, run, _, sent, freed⟩ := twoFrames_run (udpFrame 1) (udpFrame 2)
  exact ⟨s, by rw [sent]; rfl, by rw [freed]; rfl,
    (plane_traffic twoCores 1 1 oneQueue _ s 0 oneQueue_run run (by decide)).1⟩

end NetBlast.L2fwd
