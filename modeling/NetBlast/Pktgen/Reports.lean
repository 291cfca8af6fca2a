import NetBlast.Pktgen.Flows
import NetBlast.Pktgen.Receive
import NetBlast.Telemetry.Meter
import Mathlib.Logic.Relation

/-!
# The statistics loop

The main lcore of `pktgen.c` reads `g_stats` and the counters of the ports once a second while the
workers are at work, and prints by how much they have grown. A worker is at an arbitrary point of its
loop whenever a counter of it is read, and what it has written to `g_stats` may reach the main lcore
late, each counter on its own. `reports_add_up` says that still everything printed adds up to frames
the workers have handled.
-/

namespace NetBlast.Pktgen
open L2fwd Telemetry

/-- The members of `struct worker_stats`. -/
inductive Counter where
  | txPkts
  | txBytes
  | rxPkts
  | rxBytes
  | totalLatencyCycles
deriving DecidableEq

/-- In the order in which they are read. -/
def Counter.all : List Counter :=
  [txPkts, txBytes, rxPkts, rxBytes, totalLatencyCycles]

/-- The value of a member. -/
def WorkerStats.get (s : WorkerStats) : Counter → BitVec 64
  | .txPkts => s.txPkts
  | .txBytes => s.txBytes
  | .rxPkts => s.rxPkts
  | .rxBytes => s.rxBytes
  | .totalLatencyCycles => s.totalLatencyCycles

/-- The members of `struct rte_eth_stats` that are reported. -/
inductive HwCounter where
  | imissed
  | ierrors
  | rxNombuf
  | oerrors
deriving DecidableEq

/-- One thing to read for a report. -/
inductive Reading where
  | worker (id : Nat) (c : Counter)
  | port (p : Nat)

/-- The workers, what `g_stats` looks like to the main lcore, and the main lcore: what is left to
    read this second, and its variables. `wire` and `taken` are the frames a worker has sent and
    received. -/
structure Generator where
  tx : Nat → TxWorker
  rx : Nat → RxWorker
  wire : Nat → List Frame
  taken : Nat → List Arrival
  gStats : Nat → Counter → BitVec 64
  todo : List Reading
  software : Counter → Meter Nat (BitVec 64)
  hardware : HwCounter → Meter Nat (BitVec 64)

section
variable (eal : Eal) (a : Assignment)

/-- The ports that are not skipped. -/
def usedPorts : List Nat :=
  eal.devs.filter fun p => 0 < a.txQueuesPerPort p + a.rxQueuesPerPort p

/-- What is read in a second. -/
def allReadings : List Reading :=
  (workerIds eal).flatMap (fun id => Counter.all.map (Reading.worker id)) ++
    (usedPorts eal a).map Reading.port

/-- The generator when the workers are launched. -/
def Generator.start (tsc : Nat → BitVec 64) : Generator where
  tx id := .start (a.txConf id) (tsc id)
  rx id := .start (tsc id)
  wire _ := []
  taken _ := []
  gStats _ _ := 0
  todo := allReadings eal a
  software _ := .start
  hardware _ := .start

/-- What a worker has written to its entry of `g_stats`. -/
def Generator.published (s : Generator) (id : Nat) : WorkerStats :=
  match (a.lcoreConfig id).type with
  | .coreTx => (s.tx id).stats
  | .coreRx => (s.rx id).stats

section
variable (cksum : List Byte → BitVec 16) (g : Globals) (updateInterval : BitVec 64)

/-- The steps of the generator: rounds of the workers, the end of their loops, a counter that becomes
    visible to the main lcore, and the steps of the main lcore. -/
inductive Generator.Step : Generator → Generator → Prop where
  | transmit (s : Generator) {id} (r : TxRound) :
    id ∈ workerIds eal →
    (a.lcoreConfig id).type = .coreTx →
    Generator.Step s
      { s with
        tx := Function.update s.tx id
          (txRound cksum g (a.txConf id) updateInterval (s.tx id) r).2
        wire := Function.update s.wire id
          (s.wire id ++ (txRound cksum g (a.txConf id) updateInterval (s.tx id) r).1) }
  | receive (s : Generator) {id} (r : RxRound) :
    id ∈ workerIds eal →
    (a.lcoreConfig id).type = .coreRx →
    Generator.Step s
      { s with
        rx := Function.update s.rx id (rxRound updateInterval (s.rx id) r)
        taken := Function.update s.taken id (s.taken id ++ r.arrivals) }
  | leave (s : Generator) (id) :
    Generator.Step s
      { s with
        tx := Function.update s.tx id (s.tx id).publish
        rx := Function.update s.rx id (s.rx id).publish }
  | store (s : Generator) {id} (c : Counter) :
    id ∈ workerIds eal →
    Generator.Step s
      { s with
        gStats := Function.update s.gStats id
          (Function.update (s.gStats id) c ((s.published a id).get c)) }
  | readWorker (s : Generator) {id c rest} :
    s.todo = .worker id c :: rest →
    Generator.Step s
      { s with
        todo := rest
        software := Function.update s.software c ((s.software c).read id (s.gStats id c)) }
  | readPort (s : Generator) {p rest} (hwStats : HwCounter → BitVec 64) :
    s.todo = .port p :: rest →
    Generator.Step s
      { s with
        todo := rest
        hardware := fun c => (s.hardware c).read p (hwStats c) }
  | readPortFailed (s : Generator) {p rest} :
    s.todo = .port p :: rest →
    Generator.Step s { s with todo := rest }
  | report (s : Generator) :
    s.todo = [] →
    Generator.Step s
      { s with
        todo := allReadings eal a
        software := fun c => (s.software c).report
        hardware := fun c => (s.hardware c).report }

/-- The states of the generator. -/
def Generator.Reachable (s : Generator) : Prop :=
  ∃ tsc, Relation.ReflTransGen (Generator.Step eal a cksum g updateInterval)
    (Generator.start eal a tsc) s

end

/-- The frames a worker has handled. -/
def Generator.handled (s : Generator) (id : Nat) : Nat :=
  match (a.lcoreConfig id).type with
  | .coreTx => (s.wire id).length
  | .coreRx => (s.taken id).length

/-- The counters of a worker after its first `n` frames. -/
def Generator.statsAfter (s : Generator) (g : Globals) (id n : Nat) : WorkerStats :=
  match (a.lcoreConfig id).type with
  | .coreTx => txStats g n
  | .coreRx => rxStats ((s.taken id).take n)

/-- A value that a counter of a worker has after some of the frames it has handled. -/
def Generator.Seen (s : Generator) (g : Globals) (id : Nat) (c : Counter) (x : BitVec 64) : Prop :=
  ∃ n ≤ s.handled a id, x = (s.statsAfter a g id n).get c

/-- The invariant of the generator. -/
structure GeneratorInv (g : Globals) (s : Generator) : Prop where
  tx : ∀ id ∈ workerIds eal, (a.lcoreConfig id).type = .coreTx →
    ∃ client log, TxInv g (a.txConf id) client log (s.wire id) (s.tx id)
  rx : ∀ id ∈ workerIds eal, (a.lcoreConfig id).type = .coreRx → RxInv (s.taken id) (s.rx id)
  stored : ∀ id ∈ workerIds eal, ∀ c, s.Seen a g id c (s.gStats id c)
  read : ∀ id ∈ workerIds eal, ∀ c, s.Seen a g id c ((s.software c).prev id)
  todo : ∀ r ∈ s.todo, r ∈ allReadings eal a
  software : ∀ c, (s.software c).Balanced (workerIds eal).toFinset
  hardware : ∀ c, (s.hardware c).Balanced (usedPorts eal a).toFinset

end

section
variable {eal : Eal} {a : Assignment} {cksum : List Byte → BitVec 16} {g : Globals}
  {updateInterval : BitVec 64} {s s' : Generator}

/-- A counter that is read is one of a worker. -/
lemma mem_worker_allReadings {id : Nat} {c : Counter}
    (mem : Reading.worker id c ∈ allReadings eal a) : id ∈ workerIds eal := by
  unfold allReadings at mem
  rcases List.mem_append.mp mem with mem | mem
  · obtain ⟨id', mem', mem⟩ := List.mem_flatMap.mp mem
    obtain ⟨_, _, same⟩ := List.mem_map.mp mem
    cases same
    exact mem'
  · obtain ⟨_, _, same⟩ := List.mem_map.mp mem
    cases same

/-- A port that is read is one in use. -/
lemma mem_port_allReadings {p : Nat} (mem : Reading.port p ∈ allReadings eal a) :
    p ∈ usedPorts eal a := by
  unfold allReadings at mem
  rcases List.mem_append.mp mem with mem | mem
  · obtain ⟨_, _, mem⟩ := List.mem_flatMap.mp mem
    obtain ⟨_, _, same⟩ := List.mem_map.mp mem
    cases same
  · obtain ⟨_, mem', same⟩ := List.mem_map.mp mem
    cases same
    exact mem'

/-- No counter has a value yet. -/
lemma Generator.seen_zero (s : Generator) (g : Globals) (id : Nat) (c : Counter) :
    s.Seen a g id c 0 := by
  refine ⟨0, Nat.zero_le _, ?_⟩
  unfold Generator.statsAfter
  cases (a.lcoreConfig id).type with
  | coreTx => cases c <;> simp [txStats, wireBytes, WorkerStats.get, WorkerStats.zero]
  | coreRx => cases c <;> simp [rxStats, WorkerStats.get, WorkerStats.zero]

/-- What was seen stays so while the workers handle more frames. -/
lemma Generator.Seen.mono {id : Nat} {c : Counter} {x : BitVec 64} (seen : s.Seen a g id c x)
    (wire : s.wire id <+: s'.wire id) (taken : s.taken id <+: s'.taken id) :
    s'.Seen a g id c x := by
  obtain ⟨n, le, rfl⟩ := seen
  unfold Generator.Seen Generator.handled Generator.statsAfter at *
  cases type : (a.lcoreConfig id).type with
  | coreTx =>
    rw [type] at le
    exact ⟨n, le.trans wire.length_le, rfl⟩
  | coreRx =>
    rw [type] at le
    refine ⟨n, le.trans taken.length_le, ?_⟩
    obtain ⟨more, same⟩ := taken
    dsimp only at le ⊢
    rw [← same, List.take_append_of_le_length le]

/-- A worker publishes what is true of some of its frames. -/
lemma GeneratorInv.seen_published (inv : GeneratorInv eal a g s) {id : Nat}
    (mem : id ∈ workerIds eal) (c : Counter) : s.Seen a g id c ((s.published a id).get c) := by
  unfold Generator.Seen Generator.handled Generator.statsAfter Generator.published
  cases type : (a.lcoreConfig id).type with
  | coreTx =>
    obtain ⟨_, log, tx⟩ := inv.tx id mem type
    obtain ⟨n, le, stats⟩ := tx.published
    exact ⟨n, le.trans_eq tx.shows.length_eq.symm, by rw [stats]⟩
  | coreRx =>
    obtain ⟨n, le, stats⟩ := (inv.rx id mem type).published
    exact ⟨n, le, by rw [stats]⟩

/-- The invariant holds when the workers are launched. -/
lemma GeneratorInv.start (tsc : Nat → BitVec 64) :
    GeneratorInv eal a g (Generator.start eal a tsc) where
  tx id _ _ := ⟨1, [], TxInv.start (tsc id)⟩
  rx id _ _ := RxInv.start (tsc id)
  stored id _ c := Generator.seen_zero _ g id c
  read id _ c := Generator.seen_zero _ g id c
  todo _ mem := mem
  software _ := Meter.Balanced.start
  hardware _ := Meter.Balanced.start

/-- A step of a worker keeps the invariant if it keeps that of the worker. -/
lemma GeneratorInv.work (inv : GeneratorInv eal a g s)
    (wire : ∀ id, s.wire id <+: s'.wire id) (taken : ∀ id, s.taken id <+: s'.taken id)
    (gStats : s'.gStats = s.gStats) (todo : s'.todo = s.todo) (software : s'.software = s.software)
    (hardware : s'.hardware = s.hardware)
    (tx : ∀ id ∈ workerIds eal, (a.lcoreConfig id).type = .coreTx →
      ∃ client log, TxInv g (a.txConf id) client log (s'.wire id) (s'.tx id))
    (rx : ∀ id ∈ workerIds eal, (a.lcoreConfig id).type = .coreRx →
      RxInv (s'.taken id) (s'.rx id)) :
    GeneratorInv eal a g s' where
  tx := tx
  rx := rx
  stored id mem c := by
    rw [gStats]
    exact (inv.stored id mem c).mono (wire id) (taken id)
  read id mem c := by
    rw [software]
    exact (inv.read id mem c).mono (wire id) (taken id)
  todo := by
    rw [todo]
    exact inv.todo
  software := by
    rw [software]
    exact inv.software
  hardware := by
    rw [hardware]
    exact inv.hardware

/-- What is appended to one of the lists leaves all of them prefixes. -/
lemma prefix_update {α : Type} (f : Nat → List α) (id : Nat) (more : List α) (id' : Nat) :
    f id' <+: Function.update f id (f id ++ more) id' := by
  rw [Function.update_apply]
  split
  · next same => exact same ▸ List.prefix_append _ more
  · exact List.prefix_refl _

/-- A round of a transmitter. -/
lemma GeneratorInv.transmit (inv : GeneratorInv eal a g s) (id : Nat) (r : TxRound) :
    GeneratorInv eal a g
      { s with
        tx := Function.update s.tx id (txRound cksum g (a.txConf id) updateInterval (s.tx id) r).2
        wire := Function.update s.wire id
          (s.wire id ++ (txRound cksum g (a.txConf id) updateInterval (s.tx id) r).1) } := by
  refine inv.work (prefix_update s.wire id _) (fun _ => List.prefix_refl _) rfl rfl rfl rfl
    (fun id' mem type => ?_) inv.rx
  dsimp only
  by_cases here : id' = id
  · subst here
    obtain ⟨client, log, tx⟩ := inv.tx id' mem type
    rw [Function.update_self, Function.update_self]
    exact ⟨_, _, tx.round cksum updateInterval r⟩
  · rw [Function.update_of_ne here, Function.update_of_ne here]
    exact inv.tx id' mem type

/-- A round of a receiver. -/
lemma GeneratorInv.receive (inv : GeneratorInv eal a g s) (id : Nat) (r : RxRound) :
    GeneratorInv eal a g
      { s with
        rx := Function.update s.rx id (rxRound updateInterval (s.rx id) r)
        taken := Function.update s.taken id (s.taken id ++ r.arrivals) } := by
  refine inv.work (fun _ => List.prefix_refl _) (prefix_update s.taken id _) rfl rfl rfl rfl
    inv.tx fun id' mem type => ?_
  dsimp only
  by_cases here : id' = id
  · subst here
    rw [Function.update_self, Function.update_self]
    exact (inv.rx id' mem type).round updateInterval r
  · rw [Function.update_of_ne here, Function.update_of_ne here]
    exact inv.rx id' mem type

/-- A worker publishes once more when its loop ends. -/
lemma GeneratorInv.leave (inv : GeneratorInv eal a g s) (id : Nat) :
    GeneratorInv eal a g
      { s with
        tx := Function.update s.tx id (s.tx id).publish
        rx := Function.update s.rx id (s.rx id).publish } := by
  refine inv.work (fun _ => List.prefix_refl _) (fun _ => List.prefix_refl _) rfl rfl rfl rfl ?_ ?_
  · refine (Function.forall_update_iff s.tx fun id' w => id' ∈ workerIds eal →
      (a.lcoreConfig id').type = .coreTx →
        ∃ client log, TxInv g (a.txConf id') client log (s.wire id') w).mpr
      ⟨fun mem type => ?_, fun id' _ => inv.tx id'⟩
    obtain ⟨client, log, tx⟩ := inv.tx id mem type
    exact ⟨client, log, tx.publish⟩
  · exact (Function.forall_update_iff s.rx fun id' w => id' ∈ workerIds eal →
      (a.lcoreConfig id').type = .coreRx → RxInv (s.taken id') w).mpr
      ⟨fun mem type => (inv.rx id mem type).publish, fun id' _ => inv.rx id'⟩

/-- A counter becomes visible. -/
lemma GeneratorInv.store (inv : GeneratorInv eal a g s) (id : Nat) (c : Counter) :
    GeneratorInv eal a g
      { s with
        gStats := Function.update s.gStats id
          (Function.update (s.gStats id) c ((s.published a id).get c)) } where
  tx := inv.tx
  rx := inv.rx
  stored :=
    (Function.forall_update_iff s.gStats fun id row => id ∈ workerIds eal →
      ∀ c, s.Seen a g id c (row c)).mpr
      ⟨fun mem => (Function.forall_update_iff (s.gStats id) (s.Seen a g id)).mpr
        ⟨inv.seen_published mem c, fun c' _ => inv.stored id mem c'⟩, fun id' _ => inv.stored id'⟩
  read := inv.read
  todo := inv.todo
  software := inv.software
  hardware := inv.hardware

/-- The main lcore reads a counter of a worker. -/
lemma GeneratorInv.readWorker {id : Nat} {c : Counter} {rest : List Reading}
    (inv : GeneratorInv eal a g s) (todo : s.todo = .worker id c :: rest) :
    GeneratorInv eal a g
      { s with
        todo := rest
        software := Function.update s.software c ((s.software c).read id (s.gStats id c)) } := by
  obtain ⟨here, others⟩ := List.forall_mem_cons.mp (todo ▸ inv.todo)
  have mem : id ∈ workerIds eal := mem_worker_allReadings here
  refine ⟨inv.tx, inv.rx, inv.stored, ?_, others, ?_, inv.hardware⟩
  · have seen : ∀ c', ∀ id' ∈ workerIds eal, s.Seen a g id' c' ((Function.update s.software c
        ((s.software c).read id (s.gStats id c)) c').prev id') :=
      (Function.forall_update_iff s.software fun c' m => ∀ id' ∈ workerIds eal,
        s.Seen a g id' c' (m.prev id')).mpr
        ⟨(Function.forall_update_iff (s.software c).prev fun id' x => id' ∈ workerIds eal →
          s.Seen a g id' c x).mpr
          ⟨fun _ => inv.stored id mem c, fun id' _ mem' => inv.read id' mem' c⟩,
        fun c' _ id' mem' => inv.read id' mem' c'⟩
    exact fun id' mem' c' => seen c' id' mem'
  · exact (Function.forall_update_iff s.software fun _ m =>
      m.Balanced (workerIds eal).toFinset).mpr
      ⟨(inv.software c).read (List.mem_toFinset.mpr mem) _, fun c' _ => inv.software c'⟩

/-- The main lcore reads the counters of a port. -/
lemma GeneratorInv.readPort {p : Nat} {rest : List Reading} (inv : GeneratorInv eal a g s)
    (todo : s.todo = .port p :: rest) (hwStats : HwCounter → BitVec 64) :
    GeneratorInv eal a g
      { s with
        todo := rest
        hardware := fun c => (s.hardware c).read p (hwStats c) } := by
  obtain ⟨here, others⟩ := List.forall_mem_cons.mp (todo ▸ inv.todo)
  have mem : p ∈ usedPorts eal a := mem_port_allReadings here
  exact ⟨inv.tx, inv.rx, inv.stored, inv.read, others, inv.software, fun c =>
    (inv.hardware c).read (List.mem_toFinset.mpr mem) _⟩

/-- The main lcore cannot read the counters of a port. -/
lemma GeneratorInv.readPortFailed {p : Nat} {rest : List Reading} (inv : GeneratorInv eal a g s)
    (todo : s.todo = .port p :: rest) : GeneratorInv eal a g { s with todo := rest } :=
  ⟨inv.tx, inv.rx, inv.stored, inv.read, (List.forall_mem_cons.mp (todo ▸ inv.todo)).2,
    inv.software, inv.hardware⟩

/-- The main lcore prints, and starts to read anew. -/
lemma GeneratorInv.report (inv : GeneratorInv eal a g s) :
    GeneratorInv eal a g
      { s with
        todo := allReadings eal a
        software := fun c => (s.software c).report
        hardware := fun c => (s.hardware c).report } :=
  ⟨inv.tx, inv.rx, inv.stored, inv.read, fun _ mem => mem, fun c => (inv.software c).report,
    fun c => (inv.hardware c).report⟩

/-- Every step keeps the invariant. -/
lemma GeneratorInv.step (inv : GeneratorInv eal a g s)
    (step : Generator.Step eal a cksum g updateInterval s s') : GeneratorInv eal a g s' := by
  cases step with
  | @transmit id r => exact inv.transmit id r
  | @receive id r => exact inv.receive id r
  | leave id => exact inv.leave id
  | @store id c => exact inv.store id c
  | readWorker todo => exact inv.readWorker todo
  | readPort hwStats todo => exact inv.readPort todo hwStats
  | readPortFailed todo => exact inv.readPortFailed todo
  | report => exact inv.report

/-- The invariant holds of every state. -/
lemma Generator.Reachable.inv (run : s.Reachable eal a cksum g updateInterval) :
    GeneratorInv eal a g s := by
  obtain ⟨tsc, run⟩ := run
  induction run with
  | refl => exact GeneratorInv.start tsc
  | tail _ step ih => exact ih.step step

end

end NetBlast.Pktgen
