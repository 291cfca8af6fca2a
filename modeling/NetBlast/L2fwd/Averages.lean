import NetBlast.L2fwd.Statistics

/-!
# The averages of the reports

`print_stats` compares the counters of a port with `prev_agg`, which is set to the counters of each
port in turn: a port is compared with the port before it, and the first one with the last one of the
previous report. With one port this is the port itself, and the differences are what was counted
since (`CountedSince` is the invariant, `StatsRun.right_iff` the induction over a run). With a
second port a single poll is enough to print wrong averages: `averages_right_iff`.
-/

namespace NetBlast.L2fwd

/-- What happens to the counters: an lcore polls a queue, or the main lcore prints a report. -/
inductive Event where
  | poll (p : Poll)
  | report (r : Report)

/-- The sum of `f` over the polls since the previous report; the last event comes first. -/
def since (f : Poll → Nat) : List Event → Nat
  | [] => 0
  | .poll p :: past => f p + since f past
  | .report _ :: _ => 0

/-- The polls of a port since the previous report. -/
def pollsSince (portid : Nat) : List Event → Nat :=
  since fun p => if p.queue.portId = portid then 1 else 0

/-- The packets received on a port since the previous report. -/
def packetsSince (portid : Nat) : List Event → Nat :=
  since fun p => if p.queue.portId = portid then p.nbRx else 0

/-- What holds at each report, of the events before it. -/
def AtReports (P : List Event → Report → Prop) : List Event → Prop
  | [] => True
  | .poll _ :: past => AtReports P past
  | .report r :: past => P past r ∧ AtReports P past

/-- The average printed for a port is its own: no difference wraps around, and the quotient is
    printed exactly if the port was polled. -/
structure RightAverage (past : List Event) (e : PortReport) : Prop where
  rx : e.rx.toNat = packetsSince e.portid past
  rxCnt : e.rxCnt.toNat = pollsSince e.portid past
  average : e.average.map BitVec.toNat =
    if pollsSince e.portid past = 0 then none
    else some (packetsSince e.portid past / pollsSince e.portid past)
  le : ∀ a ∈ e.average, a.toNat ≤ maxPktBurst

/-- Each report has one right average for each of the ports. -/
def AllRight (ports : List Nat) : List Event → Prop :=
  AtReports fun past r => r.ports.map (·.portid) = ports ∧ ∀ e ∈ r.ports, RightAverage past e

/-- No port counts as far as `2 ^ 64` between two reports. -/
def Moderate (ports : List Nat) : List Event → Prop :=
  AtReports fun past _ =>
    ∀ portid ∈ ports, packetsSince portid past < 2 ^ 64 ∧ pollsSince portid past < 2 ^ 64

section
variable (eal : Eal) (mask : BitVec 32) (timerPeriod timerHz : BitVec 64)
  (rxPortList : Nat → List RxPort)

/-- The runs of the program, as far as its counters are concerned: the lcores poll the queues they
    were given, in any order, and reports are printed in between. -/
inductive StatsRun : List Event → Globals → Prop where
  | start : StatsRun [] Globals.start
  | poll {past g} (run : StatsRun past g) (p : Poll) (lcore : p.lcoreId < eal.rteMaxLcore)
      (queue : p.queue ∈ rxPortList p.lcoreId) : StatsRun (.poll p :: past) (g.poll p)
  | report {past g} (run : StatsRun past g) :
      StatsRun (.report (printStats eal mask timerPeriod timerHz g).1 :: past)
        (printStats eal mask timerPeriod timerHz g).2

/-- Some lcore polls the port. -/
def Polled (portid : Nat) : Prop :=
  ∃ id < eal.rteMaxLcore, ∃ queue ∈ rxPortList id, queue.portId = portid

/-- The aggregated counters of a port. -/
def Globals.agg (g : Globals) (portid : Nat) : L2fwdPortStatistics :=
  getAggregatedStats eal.rteMaxLcore (g.portStatistics portid)

/-- What is printed for a port, if `prev` is in `prev_agg`. -/
def portReport (g : Globals) (prev : L2fwdPortStatistics) (portid : Nat) : PortReport :=
  let agg := g.agg eal portid
  let rx := agg.rx - prev.rx
  let rxCnt := agg.rxCnt - prev.rxCnt
  { portid, agg, rx, rxCnt, average := if rxCnt > 0 then some (rx / rxCnt) else none }

/-- What is printed for the ports: each one is compared with the one before. -/
def portReports (g : Globals) : L2fwdPortStatistics → List Nat → List PortReport
  | _, [] => []
  | prev, portid :: ports => portReport eal g prev portid :: portReports g (g.agg eal portid) ports

end

variable {eal : Eal} {mask : BitVec 32} {timerPeriod timerHz : BitVec 64}
  {rxPortList : Nat → List RxPort}

/-- The loop over the ports appends their reports and ends with the last aggregate. -/
lemma foldl_printPort (g : Globals) (ports : List Nat) (s : PortLoop) :
    (ports.foldl (printPort eal g) s).ports = s.ports ++ portReports eal g s.prevAgg ports ∧
      (ports.foldl (printPort eal g) s).prevAgg =
        ports.foldl (fun _ p => g.agg eal p) s.prevAgg := by
  induction ports generalizing s with
  | nil => exact ⟨(List.append_nil _).symm, rfl⟩
  | cons portid ports ih =>
    obtain ⟨printed, last⟩ := ih (printPort eal g s portid)
    rw [List.foldl_cons, printed, last]
    exact ⟨List.append_assoc _ _ _, rfl⟩

/-- The ports of a report. -/
lemma printStats_ports (g : Globals) :
    (printStats eal mask timerPeriod timerHz g).1.ports =
      portReports eal g g.prevAgg (reportedPorts eal mask) := by
  rw [(printStats_loop g).1, (foldl_printPort g _ _).1, List.nil_append]

/-- What a report leaves in `prev_agg`. -/
lemma printStats_prevAgg (g : Globals) :
    (printStats eal mask timerPeriod timerHz g).2.prevAgg =
      (reportedPorts eal mask).foldl (fun _ p => g.agg eal p) g.prevAgg := by
  rw [(printStats_loop g).2.1, (foldl_printPort g _ _).2]

/-- A report leaves the aggregates alone. -/
lemma printStats_agg (g : Globals) (portid : Nat) :
    (printStats eal mask timerPeriod timerHz g).2.agg eal portid = g.agg eal portid := by
  unfold Globals.agg
  rw [(printStats_loop g).2.2]

/-- There is one report for each port. -/
lemma portReports_portid (g : Globals) (prev : L2fwdPortStatistics) (ports : List Nat) :
    (portReports eal g prev ports).map (·.portid) = ports := by
  induction ports generalizing prev with
  | nil => rfl
  | cons portid ports ih => exact congrArg (portid :: ·) (ih _)

/-- The counters of a port grow with its polls. -/
lemma agg_poll (g : Globals) {p : Poll} (lcore : p.lcoreId < eal.rteMaxLcore) (portid : Nat) :
    ((g.poll p).agg eal portid).rx =
        (g.agg eal portid).rx + BitVec.ofNat 64 (if p.queue.portId = portid then p.nbRx else 0) ∧
      ((g.poll p).agg eal portid).rxCnt =
        (g.agg eal portid).rxCnt + BitVec.ofNat 64 (if p.queue.portId = portid then 1 else 0) := by
  unfold Globals.agg Globals.poll
  dsimp only
  by_cases own : p.queue.portId = portid
  · rw [own, Function.update_self, if_pos rfl, if_pos rfl]
    have counts := L2fwdPortStatistics.poll_counts (g.portStatistics portid p.lcoreId) p
    exact ⟨aggregated_update .rx lcore _ (congrArg PortStatistics.rx counts),
      aggregated_update .rxCnt lcore _ (congrArg PortStatistics.rxCnt counts)⟩
  · rw [Function.update_of_ne (Ne.symm own), if_neg own, if_neg own]
    exact ⟨(BitVec.add_zero _).symm, (BitVec.add_zero _).symm⟩

/-- The invariant between two reports: the counters of a port have moved on from `prev_agg` by what
    was counted since. -/
def CountedSince (eal : Eal) (ports : List Nat) (past : List Event) (g : Globals) : Prop :=
  ∀ portid ∈ ports,
    (g.agg eal portid).rx = g.prevAgg.rx + BitVec.ofNat 64 (packetsSince portid past) ∧
      (g.agg eal portid).rxCnt = g.prevAgg.rxCnt + BitVec.ofNat 64 (pollsSince portid past)

/-- The aggregates are zero at the start. -/
lemma agg_start (portid : Nat) :
    (Globals.start.agg eal portid).rx = 0#64 ∧ (Globals.start.agg eal portid).rxCnt = 0#64 :=
  ⟨(aggregated_get .rx _ _).trans (Finset.sum_eq_zero fun _ _ => rfl),
    (aggregated_get .rxCnt _ _).trans (Finset.sum_eq_zero fun _ _ => rfl)⟩

/-- The invariant holds before the first event. -/
lemma CountedSince.start (ports : List Nat) : CountedSince eal ports [] Globals.start :=
  fun portid _ => agg_start portid

/-- A poll keeps the invariant. -/
lemma CountedSince.poll {ports past g} (inv : CountedSince eal ports past g) {p : Poll}
    (lcore : p.lcoreId < eal.rteMaxLcore) :
    CountedSince eal ports (.poll p :: past) (g.poll p) := by
  intro portid mem
  obtain ⟨rx, rxCnt⟩ := agg_poll g lcore portid
  obtain ⟨rx', rxCnt'⟩ := inv portid mem
  rw [rx, rxCnt, rx', rxCnt', BitVec.add_assoc, BitVec.add_assoc, ← BitVec.ofNat_add,
    ← BitVec.ofNat_add, Nat.add_comm, Nat.add_comm (pollsSince portid past)]
  exact ⟨rfl, rfl⟩

/-- If nothing was counted for any port, or if there is only one, each port is compared with its
    own counters. -/
def Comparable (ports : List Nat) (past : List Event) : Prop :=
  ports.length ≤ 1 ∨ ∀ portid ∈ ports, packetsSince portid past = 0 ∧ pollsSince portid past = 0

/-- What is printed for a port if each port is compared with its own counters. -/
structure OwnReport (past : List Event) (e : PortReport) : Prop where
  rx : e.rx = BitVec.ofNat 64 (packetsSince e.portid past)
  rxCnt : e.rxCnt = BitVec.ofNat 64 (pollsSince e.portid past)
  average : e.average = if e.rxCnt > 0 then some (e.rx / e.rxCnt) else none

/-- A report against the last aggregate of its own port says what has happened since. -/
lemma ownReport {past : List Event} {g : Globals} {prev : L2fwdPortStatistics} {portid : Nat}
    (rx : (g.agg eal portid).rx = prev.rx + BitVec.ofNat 64 (packetsSince portid past))
    (rxCnt : (g.agg eal portid).rxCnt = prev.rxCnt + BitVec.ofNat 64 (pollsSince portid past)) :
    OwnReport past (portReport eal g prev portid) where
  rx := by
    change (g.agg eal portid).rx - prev.rx = _
    rw [rx, BitVec.add_comm, BitVec.add_sub_cancel]
    rfl
  rxCnt := by
    change (g.agg eal portid).rxCnt - prev.rxCnt = _
    rw [rxCnt, BitVec.add_comm, BitVec.add_sub_cancel]
    rfl
  average := rfl

/-- Where nothing was counted, `prev_agg` stays what it is. -/
lemma still_reports {past : List Event} {g : Globals} {ports : List Nat}
    (prev : L2fwdPortStatistics)
    (still : ∀ portid ∈ ports, packetsSince portid past = 0 ∧ pollsSince portid past = 0)
    (same : ∀ portid ∈ ports,
      (g.agg eal portid).rx = prev.rx ∧ (g.agg eal portid).rxCnt = prev.rxCnt) :
    (∀ e ∈ portReports eal g prev ports, OwnReport past e) ∧
      (ports.foldl (fun _ p => g.agg eal p) prev).rx = prev.rx ∧
      (ports.foldl (fun _ p => g.agg eal p) prev).rxCnt = prev.rxCnt := by
  induction ports generalizing prev with
  | nil => exact ⟨nofun, rfl, rfl⟩
  | cons portid ports ih =>
    rw [List.forall_mem_cons] at still same
    obtain ⟨⟨packets, polls⟩, still⟩ := still
    obtain ⟨⟨rx, rxCnt⟩, same⟩ := same
    obtain ⟨own, lastRx, lastRxCnt⟩ := ih (g.agg eal portid) still fun p mem =>
      ⟨(same p mem).1.trans rx.symm, (same p mem).2.trans rxCnt.symm⟩
    refine ⟨?_, lastRx.trans rx, lastRxCnt.trans rxCnt⟩
    rw [portReports, List.forall_mem_cons]
    refine ⟨ownReport ?_ ?_, own⟩
    · rw [packets, rx]
      exact (BitVec.add_zero _).symm
    · rw [polls, rxCnt]
      exact (BitVec.add_zero _).symm

/-- A report on comparable ports is about each port's own counters, and keeps the invariant. -/
lemma CountedSince.report {past g} (inv : CountedSince eal (reportedPorts eal mask) past g)
    (comparable : Comparable (reportedPorts eal mask) past) :
    (∀ e ∈ (printStats eal mask timerPeriod timerHz g).1.ports, OwnReport past e) ∧
      CountedSince eal (reportedPorts eal mask)
        (.report (printStats eal mask timerPeriod timerHz g).1 :: past)
        (printStats eal mask timerPeriod timerHz g).2 := by
  unfold CountedSince at inv ⊢
  simp only [printStats_agg, printStats_prevAgg, printStats_ports]
  generalize reportedPorts eal mask = ports at inv comparable
  rcases comparable with single | still
  · match ports, single with
    | [], _ => exact ⟨nofun, nofun⟩
    | [portid], _ =>
      obtain ⟨rx, rxCnt⟩ := inv portid (List.mem_singleton_self portid)
      simp only [List.forall_mem_singleton, portReports]
      exact ⟨ownReport rx rxCnt, (BitVec.add_zero _).symm, (BitVec.add_zero _).symm⟩
  · have same : ∀ portid ∈ ports, (g.agg eal portid).rx = g.prevAgg.rx ∧
        (g.agg eal portid).rxCnt = g.prevAgg.rxCnt := by
      intro portid mem
      obtain ⟨rx, rxCnt⟩ := inv portid mem
      obtain ⟨packets, polls⟩ := still portid mem
      rw [rx, rxCnt, packets, polls]
      exact ⟨BitVec.add_zero _, BitVec.add_zero _⟩
    obtain ⟨own, rx, rxCnt⟩ := still_reports g.prevAgg still same
    refine ⟨own, fun portid mem => ?_⟩
    rw [rx, rxCnt, (same portid mem).1, (same portid mem).2]
    exact ⟨(BitVec.add_zero _).symm, (BitVec.add_zero _).symm⟩

/-- A port that no lcore polls counts nothing. -/
lemma StatsRun.not_polled {past g} (run : StatsRun eal mask timerPeriod timerHz rxPortList past g)
    {portid : Nat} (silent : ¬ Polled eal rxPortList portid) :
    packetsSince portid past = 0 ∧ pollsSince portid past = 0 := by
  induction run with
  | start => exact ⟨rfl, rfl⟩
  | poll run p lcore queue ih =>
    have other : p.queue.portId ≠ portid := fun own => silent ⟨_, lcore, _, queue, own⟩
    unfold packetsSince pollsSince since
    rw [if_neg other, if_neg other, Nat.zero_add, Nat.zero_add]
    exact ih
  | report run ih => exact ⟨rfl, rfl⟩

/-- A poll receives at most a burst. -/
lemma packetsSince_le (portid : Nat) (past : List Event) :
    packetsSince portid past ≤ maxPktBurst * pollsSince portid past := by
  induction past with
  | nil => exact Nat.zero_le _
  | cons event past ih =>
    cases event with
    | poll p =>
      unfold packetsSince pollsSince at ih ⊢
      rw [since, since, Nat.mul_add]
      have := p.nbRx_le
      split <;> omega
    | report r => exact Nat.zero_le _

/-- A number is its 64-bit value exactly if it is small enough. -/
lemma toNat_ofNat_eq_iff (n : Nat) : (BitVec.ofNat 64 n).toNat = n ↔ n < 2 ^ 64 := by
  rw [BitVec.toNat_ofNat, Nat.mod_eq_iff_lt (by decide)]

/-- A report on a port's own counters is right exactly if they stay below `2 ^ 64`. -/
lemma OwnReport.right_iff {past e} (own : OwnReport past e) :
    RightAverage past e ↔
      packetsSince e.portid past < 2 ^ 64 ∧ pollsSince e.portid past < 2 ^ 64 := by
  obtain ⟨rx, rxCnt, average⟩ := own
  constructor
  · intro right
    have packets := right.rx
    have polls := right.rxCnt
    rw [rx, toNat_ofNat_eq_iff] at packets
    rw [rxCnt, toNat_ofNat_eq_iff] at polls
    exact ⟨packets, polls⟩
  · rintro ⟨packets, polls⟩
    have rx' : e.rx.toNat = _ := rx ▸ (toNat_ofNat_eq_iff _).mpr packets
    have rxCnt' : e.rxCnt.toNat = _ := rxCnt ▸ (toNat_ofNat_eq_iff _).mpr polls
    have pos : e.rxCnt > 0 ↔ pollsSince e.portid past ≠ 0 := by
      rw [gt_iff_lt, BitVec.lt_def, rxCnt']
      exact Nat.pos_iff_ne_zero
    have quotient : e.average.map BitVec.toNat =
        if pollsSince e.portid past = 0 then none
        else some (packetsSince e.portid past / pollsSince e.portid past) := by
      rw [average]
      by_cases polled : pollsSince e.portid past = 0
      · rw [if_neg (pos.not.mpr (not_not_intro polled)), if_pos polled]
        rfl
      · rw [if_pos (pos.mpr polled), if_neg polled, Option.map_some, BitVec.toNat_udiv, rx', rxCnt']
    refine ⟨rx', rxCnt', quotient, fun a mem => ?_⟩
    rw [Option.mem_def.mp mem, Option.map_some] at quotient
    split at quotient
    · cases quotient
    · rw [Option.some.inj quotient]
      exact Nat.div_le_of_le_mul ((packetsSince_le _ _).trans_eq (Nat.mul_comm _ _))

/-- One report is right on comparable ports exactly if their counters stay below `2 ^ 64`. -/
lemma CountedSince.report_right_iff {past g}
    (inv : CountedSince eal (reportedPorts eal mask) past g)
    (comparable : Comparable (reportedPorts eal mask) past) :
    ((printStats eal mask timerPeriod timerHz g).1.ports.map (·.portid) = reportedPorts eal mask ∧
        ∀ e ∈ (printStats eal mask timerPeriod timerHz g).1.ports, RightAverage past e) ↔
      ∀ portid ∈ reportedPorts eal mask,
        packetsSince portid past < 2 ^ 64 ∧ pollsSince portid past < 2 ^ 64 := by
  have own : ∀ e ∈ (printStats eal mask timerPeriod timerHz g).1.ports, OwnReport past e :=
    (inv.report comparable).1
  have portids : (printStats eal mask timerPeriod timerHz g).1.ports.map (·.portid) =
      reportedPorts eal mask := by
    rw [printStats_ports, portReports_portid]
  rw [and_iff_right portids, ← portids, List.forall_mem_map]
  exact forall₂_congr fun e mem => (own e mem).right_iff

/-- On ports that stay comparable, all reports are right exactly if all counts are moderate. -/
lemma StatsRun.right_iff {past g} (run : StatsRun eal mask timerPeriod timerHz rxPortList past g)
    (few : (reportedPorts eal mask).length ≤ 1 ∨
      ∀ portid ∈ reportedPorts eal mask, ¬ Polled eal rxPortList portid) :
    CountedSince eal (reportedPorts eal mask) past g ∧
      (AllRight (reportedPorts eal mask) past ↔ Moderate (reportedPorts eal mask) past) := by
  induction run with
  | start => exact ⟨.start _, Iff.rfl⟩
  | poll run p lcore queue ih => exact ⟨ih.1.poll lcore, ih.2⟩
  | @report past g run ih =>
    obtain ⟨inv, right⟩ := ih
    have comparable : Comparable (reportedPorts eal mask) past :=
      few.imp_right fun silent portid mem => run.not_polled (silent portid mem)
    exact ⟨(inv.report comparable).2, and_congr (inv.report_right_iff comparable) right⟩

/-- If no port counted a poll, then each one agrees with the one before. -/
lemma portReports_still {g : Globals} {ports : List Nat} (prev : L2fwdPortStatistics)
    (still : ∀ e ∈ portReports eal g prev ports, e.rxCnt = 0) :
    ∀ portid ∈ ports, (g.agg eal portid).rxCnt = prev.rxCnt := by
  induction ports generalizing prev with
  | nil => exact nofun
  | cons portid ports ih =>
    rw [portReports, List.forall_mem_cons] at still
    have first : (g.agg eal portid).rxCnt = prev.rxCnt :=
      (BitVec.sub_eq_iff_eq_add.mp still.1).trans (BitVec.zero_add _)
    rw [List.forall_mem_cons]
    exact ⟨first, fun p mem => (ih (g.agg eal portid) still.2 p mem).trans first⟩

/-- A poll that receives nothing. -/
def emptyPoll (lcoreId : Nat) (queue : RxPort) : Poll where
  lcoreId := lcoreId
  queue := queue
  nbRx := 0
  fwded := 0
  duration := 0
  nbTx := 0
  nbRx_le := by decide
  fwded_le := le_rfl
  nbTx_le := le_rfl

/-- With a second port, a port is polled once and two reports follow: the second one finds the ports
    different, though nothing happened. -/
lemma wrong_average {portid other : Nat} (mem : portid ∈ reportedPorts eal mask)
    (mem' : other ∈ reportedPorts eal mask) (ne : other ≠ portid)
    (polled : Polled eal rxPortList portid) :
    ∃ past g, StatsRun eal mask timerPeriod timerHz rxPortList past g ∧
      Moderate (reportedPorts eal mask) past ∧ ¬ AllRight (reportedPorts eal mask) past := by
  obtain ⟨id, lcore, queue, here, rfl⟩ := polled
  have run : StatsRun eal mask timerPeriod timerHz rxPortList _ _ :=
    (StatsRun.start.poll (emptyPoll id queue) lcore here).report.report
  refine ⟨_, _, run, ⟨?_, ?_, trivial⟩, ?_⟩
  · exact fun _ _ => ⟨Nat.two_pow_pos 64, Nat.two_pow_pos 64⟩
  · intro p _
    have packets : packetsSince p [.poll (emptyPoll id queue)] = 0 := ite_self 0
    have polls : pollsSince p [.poll (emptyPoll id queue)] ≤ 1 := by
      unfold pollsSince since since
      split <;> decide
    rw [packets]
    exact ⟨Nat.two_pow_pos 64, by omega⟩
  · rintro ⟨⟨_, second⟩, _⟩
    have still := portReports_still _ fun e here =>
      BitVec.eq_of_toNat_eq (second e (printStats_ports _ ▸ here)).rxCnt
    have count (p : Nat) : ((Globals.start.poll (emptyPoll id queue)).agg eal p).rxCnt =
        BitVec.ofNat 64 (if queue.portId = p then 1 else 0) := by
      rw [(agg_poll Globals.start lcore p).2, (agg_start p).2, BitVec.zero_add]
      rfl
    -- nothing was polled in between, so the two ports would have to count the same
    have one := (still queue.portId mem).trans (still other mem').symm
    rw [printStats_agg, printStats_agg, count, count, if_pos rfl, if_neg (Ne.symm ne)] at one
    exact absurd one (by decide)

/-- The averages of all runs with moderate counts are right exactly if there is only one port to
    report, or none of the ports of the reports is polled; and then no other run is right. -/
theorem averages_right_iff (eal : Eal) (mask : BitVec 32) (timerPeriod timerHz : BitVec 64)
    (rxPortList : Nat → List RxPort) :
    let few := (reportedPorts eal mask).length ≤ 1 ∨
      ∀ portid ∈ reportedPorts eal mask, ¬ Polled eal rxPortList portid
    ((∀ past g, StatsRun eal mask timerPeriod timerHz rxPortList past g →
        Moderate (reportedPorts eal mask) past → AllRight (reportedPorts eal mask) past) ↔ few) ∧
      (few → ∀ past g, StatsRun eal mask timerPeriod timerHz rxPortList past g →
        AllRight (reportedPorts eal mask) past → Moderate (reportedPorts eal mask) past) := by
  refine ⟨⟨fun right => ?_, fun few past g run => (run.right_iff few).2.mpr⟩,
    fun few past g run => (run.right_iff few).2.mp⟩
  by_contra wrong
  rw [not_or] at wrong
  obtain ⟨many, polled⟩ := wrong
  push Not at polled
  obtain ⟨portid, mem, polled⟩ := polled
  obtain ⟨other, mem', ne⟩ : ∃ other ∈ reportedPorts eal mask, other ≠ portid := by
    by_contra same
    push Not at same
    have nodup : (reportedPorts eal mask).Nodup := List.nodup_range.filter _
    have sub : reportedPorts eal mask ⊆ [portid] :=
      fun p here => List.mem_singleton.mpr (same p here)
    exact many (nodup.subperm sub).length_le
  obtain ⟨past, g, run, moderate, bad⟩ := wrong_average mem mem' ne polled
  exact bad (right past g run moderate)

/-- Two ports, and two lcores beside the main one to poll them. -/
def twoPorts : Eal where
  rteMaxLcore := 128
  lcoreIsEnabled id := id < 3
  mainLcore := 0
  rteMaxEthports := 32
  devIsValid portId := portId < 2
  enabled_lt id on := by
    rw [decide_eq_true_eq] at on
    omega
  main_enabled := rfl

/-- Lcore 1 receives 32 packets on port 0. -/
def poll32 : Poll where
  lcoreId := 1
  queue := { portId := 0, queueId := 0 }
  nbRx := 32
  fwded := 32
  duration := 0
  nbTx := 32
  nbRx_le := by decide
  fwded_le := le_rfl
  nbTx_le := le_rfl

/-- Port 1 is not polled, and still an average is printed for it. -/
theorem average_of_other_port :
    (printStats twoPorts 3 2000000000 2000000000 (Globals.start.poll poll32)).1.ports.map
        (fun e => (e.portid, e.rx, e.rxCnt, e.average)) =
      [(0, 32, 1, some 32), (1, -32, -1, some 0)] ∧
    ¬ ∀ (eal : Eal) (mask : BitVec 32) (timerPeriod timerHz : BitVec 64) (queues : Nat)
      (s : Distribution), distributeQueues eal mask queues = some s →
      ∀ past g, StatsRun eal mask timerPeriod timerHz s.rxPortList past g →
        Moderate (reportedPorts eal mask) past → AllRight (reportedPorts eal mask) past := by
  have printed :
      (printStats twoPorts 3 2000000000 2000000000 (Globals.start.poll poll32)).1.ports.map
        (fun e => (e.portid, e.rx, e.rxCnt, e.average)) =
      [(0, 32, 1, some 32), (1, -32, -1, some 0)] := by
    decide +kernel
  refine ⟨printed, fun allRight => ?_⟩
  have distributed : (distributeQueues twoPorts 3 1).map (fun s => s.rxPortList 1) =
      some [{ portId := 0, queueId := 0 }] := by
    decide +kernel
  obtain ⟨s, e, queues⟩ := Option.map_eq_some_iff.mp distributed
  have queue : poll32.queue ∈ s.rxPortList poll32.lcoreId := by
    rw [show s.rxPortList poll32.lcoreId = [poll32.queue] from queues]
    exact List.mem_singleton_self _
  have moderate (p : Nat) :
      packetsSince p [.poll poll32] < 2 ^ 64 ∧ pollsSince p [.poll poll32] < 2 ^ 64 := by
    unfold packetsSince pollsSince since since
    constructor <;> split <;> decide
  have right := allRight twoPorts 3 2000000000 2000000000 1 s e _ _
    (StatsRun.start.poll poll32 (by decide) queue).report ⟨fun p _ => moderate p, trivial⟩
  have mem : (1, -32, -1, some 0) ∈ (printStats twoPorts 3 2000000000 2000000000
      (Globals.start.poll poll32)).1.ports.map (fun e => (e.portid, e.rx, e.rxCnt, e.average)) := by
    rw [printed]
    decide
  obtain ⟨e, mem, values⟩ := List.mem_map.mp mem
  have rxCnt := (right.1.2 e mem).rxCnt
  simp only [Prod.mk.injEq] at values
  rw [values.1, values.2.2.1] at rxCnt
  exact absurd rxCnt (by decide)

end NetBlast.L2fwd
