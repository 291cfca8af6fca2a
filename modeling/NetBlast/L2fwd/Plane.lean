import NetBlast.L2fwd.Rewrite
import Mathlib.Logic.Relation

/-!
# The forwarding plane

All lcores that run `l2fwd_main_loop`, with the queues of the ports. A round of an lcore over one of
its queues is four steps: `rte_eth_rx_burst`, the branch that answers the frames, `rte_eth_tx_burst`,
and the loop that frees the frames that were not sent, each with what is counted after it; between
them any other lcore may take steps, and frames may arrive. `Accounts` is the invariant of a queue: every frame that arrived is pending,
in the burst of the lcore that polls the queue, sent, or freed, once and in the order of arrival.
`plane_accounts` says so in every state of every run.
-/

namespace NetBlast.L2fwd

/-- Where an lcore is in a round over the queue at place `i` of its `rx_port_list`. -/
inductive Phase where
  | polling (i : Nat)
  | received (i : Nat) (burst : List Frame)
  | answered (i : Nat) (burst : List Frame)
  | sent (i nbTx : Nat) (unsent : List Frame)

namespace Phase

/-- The place of the queue. -/
def place : Phase → Nat
  | polling i | received i _ | answered i _ | sent i _ _ => i

/-- The frames whose fate is open. -/
def held : Phase → List Frame
  | received _ burst | answered _ burst => burst
  | polling _ | sent _ _ _ => []

/-- The frames that are still to be freed. -/
def unsent : Phase → List Frame
  | sent _ _ unsent => unsent
  | polling _ | received _ _ | answered _ _ => []

/-- The frames that are received and counted neither as forwarded nor as unmapped. -/
def unanswered : Phase → Nat
  | received _ burst => burst.length
  | polling _ | answered _ _ | sent _ _ _ => 0

/-- The frames that are received and counted neither as sent nor as dropped. -/
def unaccounted : Phase → Nat
  | received _ burst | answered _ burst => burst.length
  | sent _ nbTx unsent => nbTx + unsent.length
  | polling _ => 0

end Phase

/-- The queues, the lcores and the counters. `arrived` and `wire` are the frames of a queue that the
    port received and sent since the start. -/
structure Plane where
  arrived : RxPort → List Frame
  pending : RxPort → List Frame
  wire : RxPort → List Frame
  freed : RxPort → List Frame
  phase : Nat → Phase
  portStatistics : Nat → Nat → L2fwdPortStatistics

/-- The plane when the lcores are launched. -/
def Plane.start : Plane where
  arrived _ := []
  pending _ := []
  wire _ := []
  freed _ := []
  phase _ := .polling 0
  portStatistics _ _ := L2fwdPortStatistics.zero

/-- Count for a port and an lcore. -/
def Plane.count (s : Plane) (portid lcoreId : Nat) (f : L2fwdPortStatistics → L2fwdPortStatistics) :
    Nat → Nat → L2fwdPortStatistics :=
  Function.update s.portStatistics portid
    (Function.update (s.portStatistics portid) lcoreId (f (s.portStatistics portid lcoreId)))

/-- The counters after `rte_eth_rx_burst`. -/
def L2fwdPortStatistics.received (nbRx : Nat) (s : L2fwdPortStatistics) : L2fwdPortStatistics :=
  let s := { s with rxCnt := s.rxCnt + 1 }
  if nbRx > 0 then { s with rx := s.rx + BitVec.ofNat 64 nbRx } else s

/-- The counters after the frames are answered. -/
def L2fwdPortStatistics.answered (nbRx found : Nat) (duration : BitVec 64)
    (s : L2fwdPortStatistics) : L2fwdPortStatistics :=
  { s with
    fwded := s.fwded + BitVec.ofNat 64 found
    unmapped := s.unmapped + BitVec.ofNat 64 (nbRx - found)
    hashTsc := s.hashTsc + duration }

/-- The counters after `rte_eth_tx_burst`. -/
def L2fwdPortStatistics.sent (nbRx nbTx : Nat) (s : L2fwdPortStatistics) : L2fwdPortStatistics :=
  let s :=
    if nbTx < nbRx then { s with txDropped := s.txDropped + BitVec.ofNat 64 (nbRx - nbTx) } else s
  if nbTx > 0 then { s with tx := s.tx + BitVec.ofNat 64 nbTx } else s

/-- The steps of a round count what a poll counts. -/
lemma L2fwdPortStatistics.poll_eq (s : L2fwdPortStatistics) (p : Poll) :
    s.poll p =
      if p.nbRx > 0 then
        ((s.received p.nbRx).answered p.nbRx p.fwded p.duration).sent p.nbRx p.nbTx
      else s.received p.nbRx := by
  unfold poll received answered sent
  split <;> rfl

section
variable (ports : L2fwdPorts) (rxPortList : Nat → List RxPort)

/-- The place after place `i` of the list of an lcore. -/
def nextPlace (lcoreId i : Nat) : Nat :=
  if i + 1 < (rxPortList lcoreId).length then i + 1 else 0

/-- The steps of the plane. A call and what is counted after it are one step: `rte_eth_rx_burst` with
    `rx_cnt` and `rx`, the branch of the mode with its counters, and the loop that frees frames with
    `tx_dropped` and `tx`. -/
inductive Plane.Step : Plane → Plane → Prop where
  | arrive (s : Plane) (q : RxPort) (ms : List Frame) :
    Plane.Step s
      { s with
        arrived := Function.update s.arrived q (s.arrived q ++ ms)
        pending := Function.update s.pending q (s.pending q ++ ms) }
  | idle (s : Plane) {id i q} :
    s.phase id = .polling i →
    (rxPortList id)[i]? = some q →
    Plane.Step s
      { s with
        phase := Function.update s.phase id (.polling (nextPlace rxPortList id i))
        portStatistics := s.count q.portId id (L2fwdPortStatistics.received 0) }
  | receive (s : Plane) {id i q burst rest} :
    s.phase id = .polling i →
    (rxPortList id)[i]? = some q →
    s.pending q = burst ++ rest →
    0 < burst.length →
    burst.length ≤ maxPktBurst →
    Plane.Step s
      { s with
        pending := Function.update s.pending q rest
        phase := Function.update s.phase id (.received i burst)
        portStatistics := s.count q.portId id (L2fwdPortStatistics.received burst.length) }
  | answer (s : Plane) {id i q burst} (answers : List (BitVec 64)) (duration : BitVec 64) :
    s.phase id = .received i burst →
    (rxPortList id)[i]? = some q →
    answers.length = burst.length →
    Plane.Step s
      { s with
        phase := Function.update s.phase id
          (.answered i (answerFrames ports q.portId burst answers))
        portStatistics := s.count q.portId id
          (L2fwdPortStatistics.answered burst.length (foundIn answers) duration) }
  | transmit (s : Plane) {id i q burst nbTx} :
    s.phase id = .answered i burst →
    (rxPortList id)[i]? = some q →
    nbTx ≤ burst.length →
    Plane.Step s
      { s with
        wire := Function.update s.wire q (s.wire q ++ burst.take nbTx)
        phase := Function.update s.phase id (.sent i nbTx (burst.drop nbTx)) }
  | finish (s : Plane) {id i q nbTx unsent} :
    s.phase id = .sent i nbTx unsent →
    (rxPortList id)[i]? = some q →
    Plane.Step s
      { s with
        freed := Function.update s.freed q (s.freed q ++ unsent)
        phase := Function.update s.phase id (.polling (nextPlace rxPortList id i))
        portStatistics := s.count q.portId id
          (L2fwdPortStatistics.sent (nbTx + unsent.length) nbTx) }

/-- The states of the plane. -/
def Plane.Reachable (s : Plane) : Prop :=
  Relation.ReflTransGen (Plane.Step ports rxPortList) Plane.start s

/-- The part of an lcore's burst that is of a queue; `part` is the part whose fate is open, or the
    part that is going to be freed. -/
def Plane.partOf (s : Plane) (part : Phase → List Frame) (id : Nat) (q : RxPort) : List Frame :=
  if (rxPortList id)[(s.phase id).place]? = some q then part (s.phase id) else []

end

/-- The frames with a fate: sent if the flag is set, and freed otherwise. -/
def fated (sent : Bool) (log : List (Frame × Bool)) : List Frame :=
  (log.filter fun m => m.2 = sent).map (·.1)

/-- The account of a queue. `log` is the fate of the frames that left it; `held` is in the burst of
    the lcore, and what is in `unsent` is going to be freed. -/
def Accounts (arrived pending wire freed held unsent : List Frame) : Prop :=
  ∃ log : List (Frame × Bool),
    List.Forall₂ SamePacket arrived (log.map (·.1) ++ held ++ pending) ∧
    wire = fated true log ∧ freed ++ unsent = fated false log

section
variable {arrived pending wire freed held unsent : List Frame}

/-- The frames of one fate in two logs. -/
lemma fated_append {sent : Bool} {log log' : List (Frame × Bool)} :
    fated sent (log ++ log') = fated sent log ++ fated sent log' := by
  unfold fated
  rw [List.filter_append, List.map_append]

/-- In a log of one fate, all frames have it. -/
lemma fated_all {sent flag : Bool} {ms : List Frame} :
    fated sent (ms.map fun m => (m, flag)) = if flag = sent then ms else [] := by
  unfold fated
  split
  · next same => simp [List.filter_map, same, Function.comp_def]
  · next other => simp [List.filter_map, other, Function.comp_def]

/-- New frames are pending. -/
lemma Accounts.arrive (account : Accounts arrived pending wire freed held unsent)
    (ms : List Frame) : Accounts (arrived ++ ms) (pending ++ ms) wire freed held unsent := by
  obtain ⟨log, same, sent, dropped⟩ := account
  refine ⟨log, ?_, sent, dropped⟩
  rw [← List.append_assoc]
  exact List.rel_append same (samePackets_refl ms)

/-- Received frames are held. -/
lemma Accounts.receive {burst : List Frame}
    (account : Accounts arrived (burst ++ pending) wire freed [] unsent) :
    Accounts arrived pending wire freed burst unsent := by
  obtain ⟨log, same, fates⟩ := account
  refine ⟨log, ?_, fates⟩
  rwa [List.append_nil, ← List.append_assoc] at same

/-- Rewritten frames are held in place of the old ones. -/
lemma Accounts.answer {out : List Frame} (account : Accounts arrived pending wire freed held unsent)
    (rewritten : List.Forall₂ SamePacket held out) :
    Accounts arrived pending wire freed out unsent := by
  obtain ⟨log, same, fates⟩ := account
  refine ⟨log, ?_, fates⟩
  refine samePackets_trans same ?_
  exact List.rel_append (List.rel_append (samePackets_refl (log.map (·.1))) rewritten)
    (samePackets_refl pending)

/-- Of the held frames some are sent and the others unsent. -/
lemma Accounts.transmit (account : Accounts arrived pending wire freed held []) (nbTx : Nat) :
    Accounts arrived pending (wire ++ held.take nbTx) freed [] (held.drop nbTx) := by
  obtain ⟨log, same, sent, dropped⟩ := account
  refine ⟨log ++ ((held.take nbTx).map fun m => (m, true)) ++
    (held.drop nbTx).map fun m => (m, false), ?_, ?_, ?_⟩
  · have frames : (log ++ ((held.take nbTx).map fun m => (m, true)) ++
        (held.drop nbTx).map fun m => (m, false)).map (·.1) = log.map (·.1) ++ held := by
      rw [List.map_append, List.map_append, List.map_map, List.map_map, List.append_assoc]
      simp [Function.comp_def]
    rw [frames, List.append_nil]
    exact same
  · rw [fated_append, fated_append, fated_all, fated_all, if_pos rfl, if_neg (by decide),
      List.append_nil, sent]
  · rw [fated_append, fated_append, fated_all, fated_all, if_pos rfl, if_neg (by decide),
      List.append_nil, ← dropped, List.append_nil]

/-- The unsent frames are freed. -/
lemma Accounts.finish (account : Accounts arrived pending wire freed held unsent) :
    Accounts arrived pending wire (freed ++ unsent) held [] := by
  obtain ⟨log, same, sent, dropped⟩ := account
  exact ⟨log, same, sent, by rwa [List.append_nil]⟩

end

/-- Every queue is in the list of one lcore, at one place. -/
def Exclusive (rxPortList : Nat → List RxPort) : Prop :=
  ∀ {id id' i i' : Nat} {q : RxPort}, (rxPortList id)[i]? = some q →
    (rxPortList id')[i']? = some q → id = id' ∧ i = i'

/-- The account of a queue in a state, for the lcore that polls it. -/
def Plane.Account (s : Plane) (rxPortList : Nat → List RxPort) (id : Nat) (q : RxPort) : Prop :=
  Accounts (s.arrived q) (s.pending q) (s.wire q) (s.freed q) (s.partOf rxPortList Phase.held id q)
    (s.partOf rxPortList Phase.unsent id q)

/-- The invariant of the plane. -/
structure PlaneInv (rxPortList : Nat → List RxPort) (s : Plane) : Prop where
  account : ∀ {id i : Nat} {q : RxPort}, (rxPortList id)[i]? = some q → s.Account rxPortList id q
  short : ∀ id, (s.phase id).unaccounted ≤ maxPktBurst

variable {ports : L2fwdPorts} {rxPortList : Nat → List RxPort} {s s' : Plane}

/-- The invariant holds before the first step. -/
lemma PlaneInv.start : PlaneInv rxPortList Plane.start where
  account _ := by
    unfold Plane.Account Plane.partOf Plane.start Phase.held Phase.unsent
    rw [ite_self]
    exact ⟨[], .nil, rfl, rfl⟩
  short _ := Nat.zero_le _

/-- A step of an lcore at a queue keeps the invariant if it keeps the account of that queue. -/
lemma PlaneInv.move (inv : PlaneInv rxPortList s) (exclusive : Exclusive rxPortList) {id i : Nat}
    {q : RxPort} {phase : Phase} (here : (rxPortList id)[i]? = some q) (at_place : (s.phase id).place = i)
    (stays : phase.place = i ∨ phase.held = [] ∧ phase.unsent = [])
    (moved : s'.phase = Function.update s.phase id phase) (short : phase.unaccounted ≤ maxPktBurst)
    (others : ∀ q' ≠ q, s'.arrived q' = s.arrived q' ∧ s'.pending q' = s.pending q' ∧
      s'.wire q' = s.wire q' ∧ s'.freed q' = s.freed q')
    (account : Accounts (s.arrived q) (s.pending q) (s.wire q) (s.freed q) (s.phase id).held
        (s.phase id).unsent →
      Accounts (s'.arrived q) (s'.pending q) (s'.wire q) (s'.freed q) phase.held phase.unsent) :
    PlaneInv rxPortList s' where
  account {id' i' q'} there := by
    have old := inv.account there
    unfold Plane.Account Plane.partOf at old ⊢
    rw [moved]
    by_cases same : q' = q
    · obtain ⟨rfl, rfl⟩ := exclusive here (same ▸ there)
      subst same
      rw [at_place, if_pos there, if_pos there] at old
      rw [Function.update_self]
      rcases stays with place | ⟨held, unsent⟩
      · rw [place, if_pos there, if_pos there]
        exact account old
      · have new := account old
        rw [held, unsent] at new ⊢
        rwa [ite_self]
    · obtain ⟨arrived, pending, wire, freed⟩ := others q' same
      rw [arrived, pending, wire, freed]
      by_cases mine : id' = id
      · subst mine
        have not_before : (rxPortList id')[(s.phase id').place]? ≠ some q' := by
          rw [at_place, here]
          exact fun e => same (Option.some.inj e).symm
        rw [if_neg not_before, if_neg not_before] at old
        rw [Function.update_self]
        rcases stays with place | ⟨held, unsent⟩
        · rw [at_place] at not_before
          rw [place, if_neg not_before, if_neg not_before]
          exact old
        · rw [held, unsent, ite_self]
          exact old
      · rw [Function.update_of_ne mine]
        exact old
  short id' := by
    rw [moved, Function.update_apply]
    split
    · exact short
    · exact inv.short id'

/-- Every step keeps the invariant. -/
lemma PlaneInv.step (inv : PlaneInv rxPortList s) (exclusive : Exclusive rxPortList)
    (step : Plane.Step ports rxPortList s s') : PlaneInv rxPortList s' := by
  have other {f : RxPort → List Frame} {q : RxPort} {ms : List Frame} : ∀ q' ≠ q, Function.update f q ms q' = f q' :=
    fun q' ne => Function.update_of_ne ne ms f
  cases step with
  | arrive q ms =>
    refine ⟨fun {id i q'} there => ?_, inv.short⟩
    have old := inv.account there
    unfold Plane.Account at old ⊢
    dsimp only
    by_cases same : q' = q
    · subst same
      rw [Function.update_self, Function.update_self]
      exact old.arrive ms
    · rw [other q' same, other q' same]
      exact old
  | @idle id i q at_phase here =>
    refine inv.move exclusive here (by rw [at_phase]; rfl) (Or.inr ⟨rfl, rfl⟩) rfl (Nat.zero_le _)
      (fun q' _ => ⟨rfl, rfl, rfl, rfl⟩) fun account => ?_
    rw [at_phase] at account
    exact account
  | @receive id i q burst rest at_phase here pending _ short =>
    refine inv.move exclusive here (by rw [at_phase]; rfl) (Or.inl rfl) rfl short
      (fun q' ne => ⟨rfl, other q' ne, rfl, rfl⟩) fun account => ?_
    rw [at_phase, pending] at account
    dsimp only
    rw [Function.update_self]
    exact account.receive
  | @answer id i q burst answers duration at_phase here length =>
    have short : burst.length ≤ maxPktBurst := by
      have short := inv.short id
      rwa [at_phase] at short
    refine inv.move exclusive here (by rw [at_phase]; rfl) (Or.inl rfl) rfl ?_
      (fun q' _ => ⟨rfl, rfl, rfl, rfl⟩) fun account => ?_
    · change (answerFrames ports q.portId burst answers).length ≤ maxPktBurst
      rwa [length_answerFrames ports q.portId length]
    · rw [at_phase] at account
      exact account.answer (answerFrames_same ports q.portId burst answers length)
  | @transmit id i q burst nbTx at_phase here le =>
    have short : burst.length ≤ maxPktBurst := by
      have short := inv.short id
      rwa [at_phase] at short
    refine inv.move exclusive here (by rw [at_phase]; rfl) (Or.inl rfl) rfl ?_
      (fun q' ne => ⟨rfl, rfl, other q' ne, rfl⟩) fun account => ?_
    · change nbTx + (burst.drop nbTx).length ≤ maxPktBurst
      rw [List.length_drop]
      omega
    · rw [at_phase] at account
      dsimp only
      rw [Function.update_self]
      exact account.transmit nbTx
  | @finish id i q nbTx unsent at_phase here =>
    refine inv.move exclusive here (by rw [at_phase]; rfl) (Or.inr ⟨rfl, rfl⟩) rfl (Nat.zero_le _)
      (fun q' ne => ⟨rfl, rfl, rfl, other q' ne⟩) fun account => ?_
    rw [at_phase] at account
    dsimp only
    rw [Function.update_self]
    exact account.finish

/-- Every reachable state satisfies the invariant. -/
lemma Plane.Reachable.inv (run : s.Reachable ports rxPortList) (exclusive : Exclusive rxPortList) :
    PlaneInv rxPortList s := by
  induction run with
  | refl => exact PlaneInv.start
  | tail _ step ih => exact ih.step exclusive step

/-- The start-up gives every queue to one lcore. -/
lemma Distributed.exclusive {eal : Eal} {mask : BitVec 32} {queues : Nat}
    (dist : Distributed eal mask queues rxPortList) : Exclusive rxPortList := by
  intro id id' i i' q here there
  have mem := List.mem_of_getElem? here
  have mem' := List.mem_of_getElem? there
  obtain ⟨enabled, lt⟩ := dist.only id q mem
  have same := (dist.assigned q.portId enabled q.queueId lt).unique mem mem'
  refine ⟨same, ?_⟩
  obtain ⟨hi, e⟩ := List.getElem?_eq_some_iff.mp here
  obtain ⟨hi', e'⟩ := List.getElem?_eq_some_iff.mp there
  subst same
  exact (dist.once id).getElem_inj_iff.mp (e.trans e'.symm)

/-- What the start-up leaves is a distribution of the queues. -/
lemma Distributed.of_run {eal : Eal} {mask : BitVec 32} {queues : Nat} {d : Distribution}
    (run : distributeQueues eal mask queues = some d) :
    Distributed eal mask queues d.rxPortList := by
  rw [distributeQueues_eq] at run
  rcases DistributionInv.start.run (rxPorts eal mask queues) rxPorts_nodup with
    ⟨none, _⟩ | ⟨s, some, inv⟩
  · rw [none] at run
    cases run
  · rw [some] at run
    cases run
    exact inv.distributed

/-- The frames that were sent show what frames that arrived showed behind their addresses, in their
    order. -/
lemma Accounts.sublist_map {β : Type} {arrived pending wire freed held unsent : List Frame}
    (account : Accounts arrived pending wire freed held unsent) {f : Frame → β}
    (behind : ∀ m m', SamePacket m m' → f m' = f m) :
    (wire.map f).Sublist (arrived.map f) := by
  obtain ⟨log, same, sent, _⟩ := account
  have shown {ms ms' : List Frame} (same : List.Forall₂ SamePacket ms ms') :
      ms.map f = ms'.map f := by
    induction same with
    | nil => rfl
    | cons here _ ih => rw [List.map_cons, List.map_cons, behind _ _ here, ih]
  rw [shown same, sent, List.append_assoc]
  exact ((List.filter_sublist.map _).trans (List.sublist_append_left _ _)).map _

/-- Every enabled queue has its account with one worker. -/
lemma Plane.Reachable.account {eal : Eal} {mask : BitVec 32} {queues : Nat}
    (run : s.Reachable ports rxPortList) (dist : Distributed eal mask queues rxPortList) {q : RxPort}
    (enabled : q.portId ∈ enabledPorts eal mask) (lt : q.queueId < queues) :
    ∃ id, q ∈ rxPortList id ∧ s.Account rxPortList id q := by
  obtain ⟨id, mem, _⟩ := dist.assigned q.portId enabled q.queueId lt
  obtain ⟨i, hi, here⟩ := List.mem_iff_getElem.mp mem
  exact ⟨id, mem, (run.inv dist.exclusive).account (List.getElem?_eq_some_iff.mpr ⟨hi, here⟩)⟩

/-- Whatever the lcores do and however their steps interleave, every frame that arrived at an enabled
    queue is pending, in the burst of the one worker that polls the queue, sent, or freed. It is so
    once and in the order of arrival, with no octet behind its addresses changed. -/
theorem plane_accounts (eal : Eal) (mask : BitVec 32) (queues : Nat) (d : Distribution)
    (ports : L2fwdPorts) (s : Plane) (startUp : distributeQueues eal mask queues = some d)
    (run : s.Reachable ports d.rxPortList) (q : RxPort) (enabled : q.portId ∈ enabledPorts eal mask)
    (lt : q.queueId < queues) :
    ((s.wire q).map flowhash).Sublist ((s.arrived q).map flowhash) ∧
    ∃ id, Worker eal id ∧ q ∈ d.rxPortList id ∧ ∃ log : List (Frame × Bool),
      List.Forall₂ SamePacket (s.arrived q)
        (log.map (·.1) ++ s.partOf d.rxPortList Phase.held id q ++ s.pending q) ∧
      s.wire q = fated true log ∧
      s.freed q ++ s.partOf d.rxPortList Phase.unsent id q = fated false log ∧
      (s.partOf d.rxPortList Phase.held id q).length ≤ maxPktBurst := by
  have dist := Distributed.of_run startUp
  obtain ⟨id, mem, account⟩ := run.account dist enabled lt
  refine ⟨account.sublist_map fun _ _ => SamePacket.flowhash_eq, id,
    dist.worker id (List.ne_nil_of_mem mem), mem, ?_⟩
  have inv := run.inv dist.exclusive
  obtain ⟨log, same, sent, dropped⟩ := account
  refine ⟨log, same, sent, dropped, ?_⟩
  have short := inv.short id
  unfold Plane.partOf
  split
  · refine le_trans ?_ short
    cases s.phase id <;> simp [Phase.held, Phase.unaccounted]
  · exact Nat.zero_le _

/-- The one queue of a port goes to the one lcore that is not the main one. -/
def oneQueue : Distribution where
  rxPortList := Function.update (fun _ => []) 2 [{ portId := 0, queueId := 0 }]
  rxLcoreId := 3

/-- One port with one queue. -/
lemma rxPorts_twoCores : rxPorts twoCores 1 1 = [{ portId := 0, queueId := 0 }] := by
  decide +kernel

/-- The only queue goes to the only worker. -/
lemma oneQueue_run : distributeQueues twoCores 1 1 = some oneQueue := by
  rw [distributeQueues_eq, rxPorts_twoCores]
  simp [assignQueue, findLcore, skips, twoCores, maxRxQueuePerLcore, oneQueue]

/-- A round over a burst of two frames, of which one is sent and one is freed. -/
lemma twoFrames_run (m m' : Frame) :
    ∃ s : Plane, s.Reachable ⟨fun p => p + 1, fun _ _ => 7⟩ oneQueue.rxPortList ∧
      s.arrived ⟨0, 0⟩ = [m, m'] ∧
      s.wire ⟨0, 0⟩ = [answerFrame ⟨fun p => p + 1, fun _ _ => 7⟩ 0 m 255] ∧
      s.freed ⟨0, 0⟩ = [m'] := by
  have here : (oneQueue.rxPortList 2)[0]? = some ⟨0, 0⟩ := rfl
  have arrived : Plane.Reachable ⟨fun p => p + 1, fun _ _ => 7⟩ oneQueue.rxPortList _ :=
    Relation.ReflTransGen.single (Plane.Step.arrive Plane.start ⟨0, 0⟩ [m, m'])
  have received := arrived.tail
    (@Plane.Step.receive _ _ _ 2 0 _ [m, m'] [] rfl here rfl (by simp) (by simp [maxPktBurst]))
  have answered := received.tail (@Plane.Step.answer _ _ _ 2 0 _ _ [255, 0] 9 rfl here rfl)
  have sent := answered.tail (@Plane.Step.transmit _ _ _ 2 0 _ _ 1 rfl here
    (by simp [answerFrames]))
  have finished := sent.tail (@Plane.Step.finish _ _ _ 2 0 _ _ _ rfl here)
  exact ⟨_, finished, rfl, rfl, rfl⟩

/-- The account of the queue after a round. -/
theorem plane_accounts_twoFrames :
    ∃ s : Plane, (s.wire ⟨0, 0⟩).length = 1 ∧ (s.freed ⟨0, 0⟩).length = 1 ∧
      ((s.wire ⟨0, 0⟩).map flowhash).Sublist ((s.arrived ⟨0, 0⟩).map flowhash) := by
  obtain ⟨s, run, _, sent, freed⟩ := twoFrames_run (udpFrame 1) (udpFrame 2)
  exact ⟨s, by rw [sent]; rfl, by rw [freed]; rfl,
    (plane_accounts twoCores 1 1 oneQueue _ s oneQueue_run run ⟨0, 0⟩ (by decide) (by decide)).1⟩

/-- A poll in any of the three modes and with any tables is a run of the plane. The frames are received
    and answered as the mode answers them, or the lcore goes on to its next queue if there are none. -/
theorem modes_refine_plane (ports : L2fwdPorts) (rxPortList : Nat → List RxPort) (s : Plane)
    {id i : Nat} {q : RxPort} (burst : Burst) {rest out : List Frame} {stats stats' : Statistics}
    (at_phase : s.phase id = .polling i) (here : (rxPortList id)[i]? = some q)
    (pending : s.pending q = burst.frames ++ rest) (portid : burst.portid = q.portId)
    (agree : ∀ p, stats p = (s.portStatistics p id).toPortStatistics)
    (poll : ModePoll ports stats burst out stats') :
    ∃ s', Relation.ReflTransGen (Plane.Step ports rxPortList) s s' ∧
      s'.phase id =
        (if burst.frames.length > 0 then .answered i out else .polling (nextPlace rxPortList id i)) ∧
      s'.pending q = rest ∧
      ∀ p, stats' p = (s'.portStatistics p id).toPortStatistics := by
  obtain ⟨answers, length, rfl, counts⟩ := poll.answers
  -- the counters of the port, after whatever steps the lcore took
  have counted (f : L2fwdPortStatistics → L2fwdPortStatistics)
      (same : ∀ st, (f st).toPortStatistics =
        st.toPortStatistics.poll burst.frames.length (foundIn answers)) (p : Nat) :
      stats' p = (s.count q.portId id f p id).toPortStatistics := by
    rw [counts]
    unfold Statistics.modify Plane.count
    by_cases its_port : p = q.portId
    · subst its_port
      rw [portid, Function.update_self, Function.update_self, Function.update_self, same, agree]
    · rw [Function.update_of_ne (portid ▸ its_port), Function.update_of_ne its_port, agree]
  by_cases some : burst.frames.length > 0
  · have received := @Plane.Step.receive ports rxPortList s id i q burst.frames rest at_phase here
      pending some burst.short
    refine ⟨_, (Relation.ReflTransGen.single received).tail
      (Plane.Step.answer _ answers 0 (Function.update_self ..) here length), ?_, ?_, fun p => ?_⟩
    · rw [if_pos some, portid]
      exact Function.update_self ..
    · exact Function.update_self ..
    · rw [counted (fun st =>
        (st.received burst.frames.length).answered burst.frames.length (foundIn answers) 0) ?_ p]
      · unfold Plane.count
        dsimp only
        rw [Function.update_self, Function.update_idem, Function.update_self, Function.update_idem]
      · intro st
        unfold L2fwdPortStatistics.answered L2fwdPortStatistics.received PortStatistics.poll
        rw [if_pos some]
  · have none : burst.frames = [] := List.eq_nil_of_length_eq_zero (Nat.eq_zero_of_not_pos some)
    have noAnswers : answers = [] := List.eq_nil_of_length_eq_zero (by rw [length, none]; rfl)
    refine ⟨_, Relation.ReflTransGen.single (Plane.Step.idle s at_phase here), ?_, ?_, ?_⟩
    · rw [if_neg some]
      exact Function.update_self ..
    · rw [pending, none, List.nil_append]
    · refine counted (L2fwdPortStatistics.received 0) fun st => ?_
      rw [none, noAnswers]
      unfold L2fwdPortStatistics.received PortStatistics.poll foundIn
      simp

/-- A burst of one frame. -/
def oneFrame : Burst :=
  { portid := 0, frames := [udpFrame 1], short := by decide }

/-- A poll in the maglev mode, as two steps of the plane. -/
theorem modes_refine_plane_udp :
    let poll := maglevPoll ⟨fun p => p + 1, fun _ _ => 7⟩ mmCrc32U64 eightSlots (fun _ => 255)
      { conntrack := ⟨fun _ => ⟨0, 0⟩⟩, stats := fun _ => ⟨0, 0, 0, 0⟩ } oneFrame
    ∃ s', Relation.ReflTransGen (Plane.Step ⟨fun p => p + 1, fun _ _ => 7⟩ oneQueue.rxPortList)
        { Plane.start with pending := fun _ => [udpFrame 1, udpFrame 2] } s' ∧
      s'.phase 2 = .answered 0 poll.1 ∧ s'.pending ⟨0, 0⟩ = [udpFrame 2] ∧
      ∀ p, poll.2.stats p = (s'.portStatistics p 2).toPortStatistics :=
  modes_refine_plane ⟨fun p => p + 1, fun _ _ => 7⟩ oneQueue.rxPortList
    { Plane.start with pending := fun _ => [udpFrame 1, udpFrame 2] } oneFrame rfl rfl rfl rfl
    (fun _ => rfl) (.maglev mmCrc32U64 eightSlots (fun _ => 255) _ rfl)

end NetBlast.L2fwd
