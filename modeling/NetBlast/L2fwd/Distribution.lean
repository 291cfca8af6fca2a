import Mathlib.Tactic
import Mathlib.Data.Finset.Card

/-!
# Distributing the queues

The loop of `main` in `main.c` that gives every queue of every enabled port to an lcore. Its cursor
moves on after every queue and never comes back, so no lcore gets a second queue: `DistributionInv`
is the invariant that says so, and `distributes_iff` says when the lcores suffice.
-/

namespace NetBlast.L2fwd

/-- `MAX_RX_QUEUE_PER_LCORE`. -/
def maxRxQueuePerLcore : Nat := 16

/-- What the environment abstraction layer says about lcores and ports: the enabled lcores with the
    main one among them, and the ports that `RTE_ETH_FOREACH_DEV` visits. -/
structure Eal where
  rteMaxLcore : Nat
  lcoreIsEnabled : Nat → Bool
  mainLcore : Nat
  rteMaxEthports : Nat
  devIsValid : Nat → Bool
  enabled_lt : ∀ id, lcoreIsEnabled id → id < rteMaxLcore
  main_enabled : lcoreIsEnabled mainLcore

/-- An entry of `rx_port_list`. -/
structure RxPort where
  portId : Nat
  queueId : Nat
deriving DecidableEq

/-- The variables of the loop: the first `n_rx_port` entries of the `rx_port_list` of every lcore,
    and the cursor. -/
structure Distribution where
  rxPortList : Nat → List RxPort
  rxLcoreId : Nat

section
variable (eal : Eal)

/-- The ports `RTE_ETH_FOREACH_DEV` visits. -/
def Eal.devs : List Nat :=
  (List.range eal.rteMaxEthports).filter eal.devIsValid

/-- The condition of the `while` loop: lcore `id` is skipped. -/
def skips (rxPortList : Nat → List RxPort) (id : Nat) : Bool :=
  !eal.lcoreIsEnabled id || id == eal.mainLcore || (rxPortList id).length == maxRxQueuePerLcore

/-- The `while` loop; `none` is its `rte_exit`. -/
def findLcore (rxPortList : Nat → List RxPort) (rxLcoreId : Nat) : Option Nat :=
  if skips eal rxPortList rxLcoreId then
    if rxLcoreId + 1 ≥ eal.rteMaxLcore then none
    else findLcore rxPortList (rxLcoreId + 1)
  else some rxLcoreId
termination_by eal.rteMaxLcore - rxLcoreId

/-- The body of the loop over the queues of a port. -/
def assignQueue (s : Distribution) (p : RxPort) : Option Distribution :=
  (findLcore eal s.rxPortList s.rxLcoreId).map fun id =>
    { rxPortList := Function.update s.rxPortList id (s.rxPortList id ++ [p])
      rxLcoreId := id + 1 }

/-- The loops over the ports and their queues. -/
def distributeQueues (l2fwdEnabledPortMask : BitVec 32) (l2fwdQueuesPerPort : Nat) :
    Option Distribution :=
  eal.devs.foldlM
    (fun s portId =>
      if l2fwdEnabledPortMask &&& (1 <<< portId) = 0 then some s
      else (List.range l2fwdQueuesPerPort).foldlM
        (fun s queueId => assignQueue eal s { portId, queueId }) s)
    { rxPortList := fun _ => [], rxLcoreId := 0 }

/-- The enabled ports. -/
def enabledPorts (mask : BitVec 32) : List Nat :=
  eal.devs.filter fun portId => mask &&& (1 <<< portId) ≠ 0

/-- The queues of the enabled ports, in the order of the loops. -/
def rxPorts (mask : BitVec 32) (queues : Nat) : List RxPort :=
  (enabledPorts eal mask).flatMap fun portId => (List.range queues).map (RxPort.mk portId)

/-- An enabled lcore other than the main one. -/
def Worker (id : Nat) : Prop :=
  eal.lcoreIsEnabled id ∧ id ≠ eal.mainLcore

instance (id : Nat) : Decidable (Worker eal id) :=
  inferInstanceAs (Decidable (_ ∧ _))

/-- The enabled lcores other than the main one. -/
def workers : Finset Nat :=
  (Finset.range eal.rteMaxLcore).filter (Worker eal)

end

variable {eal : Eal} {mask : BitVec 32} {queues : Nat}

/-- The workers as a set. -/
lemma mem_workers {id : Nat} : id ∈ workers eal ↔ Worker eal id := by
  unfold workers
  rw [Finset.mem_filter, Finset.mem_range]
  exact and_iff_right_of_imp fun worker => eal.enabled_lt id worker.1

/-- The two loops are one loop over all queues. -/
lemma distributeQueues_eq :
    distributeQueues eal mask queues =
      (rxPorts eal mask queues).foldlM (assignQueue eal)
        { rxPortList := fun _ => [], rxLcoreId := 0 } := by
  unfold distributeQueues rxPorts enabledPorts
  generalize Distribution.mk (fun _ => []) 0 = s
  induction eal.devs generalizing s with
  | nil => rfl
  | cons portId devs ih =>
    rw [List.foldlM_cons, List.filter_cons]
    by_cases off : mask &&& (1 <<< portId) = 0
    · rw [if_pos off, if_neg (by simpa using off)]
      exact ih s
    · rw [if_neg off, if_pos (by simpa using off), List.flatMap_cons, List.foldlM_append,
        List.foldlM_map]
      congr 1
      funext s'
      exact ih s'

/-- No queue is listed twice. -/
lemma rxPorts_nodup : (rxPorts eal mask queues).Nodup := by
  unfold rxPorts enabledPorts Eal.devs
  rw [List.nodup_flatMap]
  constructor
  · intro portId _
    exact List.nodup_range.map fun a b e => (RxPort.mk.inj e).2
  · refine List.Nodup.pairwise_of_forall_ne ((List.nodup_range.filter _).filter _) ?_
    intro a _ b _ ne p memA memB
    obtain ⟨_, _, rfl⟩ := List.mem_map.mp memA
    obtain ⟨_, _, e⟩ := List.mem_map.mp memB
    exact ne (RxPort.mk.inj e).1.symm

/-- The queues are those of the enabled ports. -/
lemma mem_rxPorts {p : RxPort} :
    p ∈ rxPorts eal mask queues ↔ p.portId ∈ enabledPorts eal mask ∧ p.queueId < queues := by
  unfold rxPorts
  rw [List.mem_flatMap]
  constructor
  · rintro ⟨portId, mem, mem'⟩
    obtain ⟨queueId, lt, rfl⟩ := List.mem_map.mp mem'
    exact ⟨mem, List.mem_range.mp lt⟩
  · rintro ⟨mem, lt⟩
    exact ⟨p.portId, mem, List.mem_map.mpr ⟨p.queueId, List.mem_range.mpr lt, rfl⟩⟩

/-- The number of queues. -/
lemma length_rxPorts :
    (rxPorts eal mask queues).length = (enabledPorts eal mask).length * queues := by
  unfold rxPorts
  simp

/-- An lcore with no queue is skipped exactly if it is not a worker. -/
lemma skips_iff {rxPortList : Nat → List RxPort} {id : Nat} (free : rxPortList id = []) :
    skips eal rxPortList id ↔ ¬ Worker eal id := by
  unfold skips Worker
  rw [free]
  cases eal.lcoreIsEnabled id <;> simp [maxRxQueuePerLcore]

/-- As long as no lcore from the cursor on has a queue, the cursor moves to the next worker. -/
lemma findLcore_spec (eal : Eal) {rxPortList : Nat → List RxPort} {rxLcoreId : Nat}
    (free : ∀ id, rxLcoreId ≤ id → rxPortList id = []) :
    (findLcore eal rxPortList rxLcoreId = none ∧ ∀ id, rxLcoreId ≤ id → ¬ Worker eal id) ∨
    ∃ id, findLcore eal rxPortList rxLcoreId = some id ∧ rxLcoreId ≤ id ∧ Worker eal id ∧
      ∀ j, rxLcoreId ≤ j → j < id → ¬ Worker eal j := by
  fun_induction findLcore eal rxPortList rxLcoreId with
  | case1 rxLcoreId skip last =>
    rw [skips_iff (free _ le_rfl)] at skip
    refine Or.inl ⟨rfl, fun id le worker => ?_⟩
    have lt := eal.enabled_lt id worker.1
    have here : id = rxLcoreId := by omega
    exact skip (here ▸ worker)
  | case2 rxLcoreId skip more ih =>
    rw [skips_iff (free _ le_rfl)] at skip
    have from_next {j} (le : rxLcoreId ≤ j) : j = rxLcoreId ∨ rxLcoreId + 1 ≤ j := by omega
    rcases ih fun id le => free id (by omega) with ⟨none, rest⟩ | ⟨id, found, le, worker, rest⟩
    · refine Or.inl ⟨none, fun id le => ?_⟩
      rcases from_next le with rfl | later
      · exact skip
      · exact rest id later
    · refine Or.inr ⟨id, found, by omega, worker, fun j le lt => ?_⟩
      rcases from_next le with rfl | later
      · exact skip
      · exact rest j later lt
  | case3 rxLcoreId take =>
    rw [skips_iff (free _ le_rfl), not_not] at take
    exact Or.inr ⟨rxLcoreId, rfl, le_rfl, take, fun j le lt => by omega⟩

/-- The workers behind the next worker `id` are the workers behind the cursor, and `id`. -/
lemma workers_behind {rxLcoreId id : Nat} (le : rxLcoreId ≤ id) (worker : Worker eal id)
    (skipped : ∀ j, rxLcoreId ≤ j → j < id → ¬ Worker eal j) :
    (workers eal).filter (· < id + 1) = insert id ((workers eal).filter (· < rxLcoreId)) := by
  ext j
  rw [Finset.mem_insert, Finset.mem_filter, Finset.mem_filter, mem_workers]
  constructor
  · rintro ⟨isWorker, lt⟩
    by_contra other
    rw [not_or, not_and] at other
    have later := other.2 isWorker
    exact skipped j (by omega) (by omega) isWorker
  · rintro (rfl | ⟨isWorker, lt⟩)
    · exact ⟨worker, by omega⟩
    · exact ⟨isWorker, by omega⟩

/-- The invariant of the loop: the queues in `done` went to as many workers, one to each, and the
    cursor is behind these workers. -/
structure DistributionInv (eal : Eal) (done : List RxPort) (s : Distribution) : Prop where
  free : ∀ id, s.rxLcoreId ≤ id → s.rxPortList id = []
  single : ∀ id, (s.rxPortList id).length ≤ 1
  worker : ∀ id, s.rxPortList id ≠ [] → Worker eal id
  assigned : ∀ p, p ∈ done ↔ ∃ id, p ∈ s.rxPortList id
  exclusive : ∀ p i j, p ∈ s.rxPortList i → p ∈ s.rxPortList j → i = j
  passed : ((workers eal).filter (· < s.rxLcoreId)).card = done.length

/-- The invariant holds before the first queue. -/
lemma DistributionInv.start :
    DistributionInv eal [] { rxPortList := fun _ => [], rxLcoreId := 0 } where
  free _ _ := rfl
  single _ := by simp
  worker _ occupied := absurd rfl occupied
  assigned p := by simp
  exclusive p i _ mem := by simp at mem
  passed := by simp

/-- Giving a new queue to the next worker keeps the invariant. -/
lemma DistributionInv.assign {done s p id} (inv : DistributionInv eal done s) (new : p ∉ done)
    (le : s.rxLcoreId ≤ id) (worker : Worker eal id)
    (skipped : ∀ j, s.rxLcoreId ≤ j → j < id → ¬ Worker eal j) :
    DistributionInv eal (done ++ [p])
      { rxPortList := Function.update s.rxPortList id (s.rxPortList id ++ [p])
        rxLcoreId := id + 1 } := by
  -- the worker has no queue yet, so the new one is its only one
  rw [inv.free id le, List.nil_append]
  have mem_iff {q j} : q ∈ Function.update s.rxPortList id [p] j ↔
      j = id ∧ q = p ∨ j ≠ id ∧ q ∈ s.rxPortList j := by
    rw [Function.update_apply]
    split
    · next here => simp [here]
    · next other => simp [other]
  have old {q j} (mem : q ∈ s.rxPortList j) : q ∈ done ∧ j ≠ id := by
    refine ⟨(inv.assigned q).mpr ⟨j, mem⟩, ?_⟩
    rintro rfl
    rw [inv.free j le] at mem
    cases mem
  refine ⟨fun j after => ?_, fun j => ?_, fun j occupied => ?_, fun q => ?_, fun q i j => ?_, ?_⟩
  · dsimp only at after ⊢
    rw [Function.update_of_ne (by omega)]
    exact inv.free j (by omega)
  · dsimp only
    rw [Function.update_apply]
    split
    · exact le_rfl
    · exact inv.single j
  · dsimp only at occupied
    by_cases here : j = id
    · exact here ▸ worker
    · rw [Function.update_of_ne here] at occupied
      exact inv.worker j occupied
  · simp only [mem_iff, List.mem_append, List.mem_singleton, inv.assigned q]
    constructor
    · rintro (⟨j, mem⟩ | rfl)
      · exact ⟨j, Or.inr ⟨(old mem).2, mem⟩⟩
      · exact ⟨id, Or.inl ⟨rfl, rfl⟩⟩
    · rintro ⟨j, ⟨_, rfl⟩ | ⟨_, mem⟩⟩
      · exact Or.inr rfl
      · exact Or.inl ⟨j, mem⟩
  · simp only [mem_iff]
    rintro (⟨rfl, rfl⟩ | ⟨_, mem⟩) (⟨rfl, e⟩ | ⟨_, mem'⟩)
    · rfl
    · exact absurd (old mem').1 new
    · exact absurd (e ▸ (old mem).1) new
    · exact inv.exclusive q i j mem mem'
  · dsimp only
    rw [workers_behind le worker skipped, Finset.card_insert_of_notMem, inv.passed,
      List.length_append, List.length_singleton]
    rw [Finset.mem_filter]
    rintro ⟨_, lt⟩
    omega

/-- One queue is assigned exactly if a worker is left. -/
lemma DistributionInv.step {done s p} (inv : DistributionInv eal done s) (new : p ∉ done) :
    (assignQueue eal s p = none ∧ (workers eal).card = done.length) ∨
    ∃ s', assignQueue eal s p = some s' ∧ DistributionInv eal (done ++ [p]) s' := by
  rcases findLcore_spec eal inv.free with ⟨none, rest⟩ | ⟨id, found, le, worker, skipped⟩
  · refine Or.inl ⟨by rw [assignQueue, none, Option.map_none], ?_⟩
    rw [← inv.passed, Finset.filter_true_of_mem]
    intro id mem
    by_contra later
    exact rest id (by omega) (mem_workers.mp mem)
  · refine Or.inr ⟨_, by rw [assignQueue, found, Option.map_some], ?_⟩
    exact inv.assign new le worker skipped

/-- At most as many queues as workers have been given away. -/
lemma DistributionInv.length_le {done s} (inv : DistributionInv eal done s) :
    done.length ≤ (workers eal).card := by
  rw [← inv.passed]
  exact Finset.card_filter_le _ _

/-- All queues are assigned exactly if there are as many workers. -/
lemma DistributionInv.run {done s} (todo : List RxPort) (inv : DistributionInv eal done s)
    (nodup : (done ++ todo).Nodup) :
    (todo.foldlM (assignQueue eal) s = none ∧ (workers eal).card < (done ++ todo).length) ∨
    ∃ s', todo.foldlM (assignQueue eal) s = some s' ∧ DistributionInv eal (done ++ todo) s' := by
  induction todo generalizing done s with
  | nil => exact Or.inr ⟨s, rfl, by rwa [List.append_nil]⟩
  | cons p todo ih =>
    have new : p ∉ done := by
      intro mem
      exact (List.nodup_append.mp nodup).2.2 p mem p (by simp) rfl
    rw [List.foldlM_cons]
    rcases inv.step new with ⟨none, all⟩ | ⟨s', some, inv'⟩
    · refine Or.inl ⟨by rw [none]; rfl, ?_⟩
      rw [all, List.length_append, List.length_cons]
      omega
    · rw [some, ← List.singleton_append, ← List.append_assoc]
      rw [← List.singleton_append, ← List.append_assoc] at nodup
      exact ih inv' nodup

/-- What the distribution is for. -/
structure Distributed (eal : Eal) (mask : BitVec 32) (queues : Nat)
    (rxPortList : Nat → List RxPort) : Prop where
  assigned : ∀ portId ∈ enabledPorts eal mask, ∀ queueId < queues,
    ∃! id, { portId, queueId } ∈ rxPortList id
  only : ∀ id, ∀ p ∈ rxPortList id, p.portId ∈ enabledPorts eal mask ∧ p.queueId < queues
  once : ∀ id, (rxPortList id).Nodup
  worker : ∀ id, rxPortList id ≠ [] → eal.lcoreIsEnabled id ∧ id ≠ eal.mainLcore
  bounded : ∀ id, (rxPortList id).length ≤ maxRxQueuePerLcore

/-- Once all queues have been given away they are distributed. -/
lemma DistributionInv.distributed {s} (inv : DistributionInv eal (rxPorts eal mask queues) s) :
    Distributed eal mask queues s.rxPortList where
  assigned portId mem queueId lt := by
    obtain ⟨id, here⟩ := (inv.assigned ⟨portId, queueId⟩).mp (mem_rxPorts.mpr ⟨mem, lt⟩)
    exact ⟨id, here, fun j other => inv.exclusive _ j id other here⟩
  only id p mem := mem_rxPorts.mp ((inv.assigned p).mpr ⟨id, mem⟩)
  once id := List.nodup_iff_count_le_one.mpr fun _ => List.count_le_length.trans (inv.single id)
  worker := inv.worker
  bounded id := (inv.single id).trans (by decide)

/-- The start-up distributes all queues exactly if there is an lcore of its own for each of them. -/
theorem distributes_iff (eal : Eal) (mask : BitVec 32) (queues : Nat) :
    (∃ s, distributeQueues eal mask queues = some s ∧ Distributed eal mask queues s.rxPortList) ↔
      (enabledPorts eal mask).length * queues ≤ (workers eal).card := by
  rw [distributeQueues_eq, ← length_rxPorts]
  rcases DistributionInv.start.run (rxPorts eal mask queues) rxPorts_nodup with
    ⟨none, few⟩ | ⟨s, some, inv⟩
  · rw [none]
    refine iff_of_false (fun ⟨_, e, _⟩ => ?_) (not_le.mpr few)
    cases e
  · exact iff_of_true ⟨s, some, inv.distributed⟩ inv.length_le

/-- Lcores 0 and 2 and one port, as `run.sh` starts the program with 2 cores. -/
def twoCores : Eal where
  rteMaxLcore := 128
  lcoreIsEnabled id := id = 0 ∨ id = 2
  mainLcore := 0
  rteMaxEthports := 32
  devIsValid portId := portId = 0
  enabled_lt id on := by
    rw [decide_eq_true_eq] at on
    omega
  main_enabled := rfl

/-- Two queues of a port are not distributed to the one lcore that is not the main one. -/
theorem not_enough_cores :
    distributeQueues twoCores 1 2 = none ∧
    ¬ ∀ (eal : Eal) (mask : BitVec 32) (queues : Nat), 1 ≤ queues →
      (enabledPorts eal mask).length * queues ≤ maxRxQueuePerLcore * (workers eal).card →
      ∃ s, distributeQueues eal mask queues = some s ∧
        Distributed eal mask queues s.rxPortList := by
  have failed : distributeQueues twoCores 1 2 = none := by decide +kernel
  refine ⟨failed, fun distributes => ?_⟩
  obtain ⟨s, e, _⟩ := distributes twoCores 1 2 (by decide) (by decide +kernel)
  rw [failed] at e
  cases e

end NetBlast.L2fwd
