import NetBlast.L2fwd.Compaction
import NetBlast.Dramblast.Frames

/-!
# The two modes forward alike

As long as the flow keys of a run fit the tables, with four slots to spare, both modes forward every
frame to the backend that the lookup table has for its flow key, whatever the tables hold: a table
only caches the lookup table. `maglevPoll_spec` and `dramblastPoll_spec` say so for one burst, and
`modes_forward_identically` is the induction over the bursts of a run.
-/

namespace NetBlast.L2fwd
open Probing Hashmap Dramblast

/-- The represented map is a part of the lookup table, with keys in `T` only. -/
def Backed (backends : LookUpTable) (T : Finset (BitVec 64)) (m : BitVec 64 → Option (BitVec 64)) :
    Prop :=
  ∀ k v, m k = some v → v = backends.backend k ∧ k ∈ T

/-- The connection table of the maglev mode caches the lookup table. -/
structure MaglevServes (crc : BitVec 64 → BitVec 64) (cap : Capacity) (backends : LookUpTable)
    (T : Finset (BitVec 64)) (map : MaglevHashmap) : Prop where
  wf : MaglevWf crc cap map
  cached : ∃ m, Represents cap.val 0 map.keys map.values m ∧ Backed backends T m

/-- The table of the dramblast mode caches the lookup table. -/
structure DramblastServes (crc : BitVec 64 → BitVec 64) (id : Nat) (backends : LookUpTable)
    (T : Finset (BitVec 64)) (ht : DramblastHt) : Prop where
  wf : Wf crc ht
  idle : Idle id ht
  cached : ∃ m, ht.Maps m ∧ Backed backends T m

/-- Add to the counters of forwarded and of unmapped frames. -/
def PortStatistics.count (s : PortStatistics) (fwded unmapped : Nat) : PortStatistics :=
  { s with
    fwded := s.fwded + BitVec.ofNat 64 fwded
    unmapped := s.unmapped + BitVec.ofNat 64 unmapped }

/-- The counters after a burst: every frame with a backend is forwarded, and no other. -/
def countBurst (backends : LookUpTable) (portid : Nat) (burst : List Frame) (stats : Statistics) :
    Statistics :=
  stats.modify portid fun s => s.count (burst.countP fun m => flowBackend backends m ≠ 0)
    (burst.countP fun m => flowBackend backends m = 0)

/-- The flow keys of a run. -/
def flowKeys (bursts : List Burst) : Finset (BitVec 64) :=
  ((bursts.flatMap (·.frames)).map flowhash).toFinset.erase 0

variable {crc : BitVec 64 → BitVec 64} {cap : Capacity} {id : Nat} {backends : LookUpTable}
  {ports : L2fwdPorts} {T : Finset (BitVec 64)}

/-- The key of a frame of a burst is a flow key of the run. -/
lemma mem_flowKeys {bursts : List Burst} {burst} {m : Frame} (mem : burst ∈ bursts)
    (mem' : m ∈ burst.frames) (key : flowhash m ≠ 0) : flowhash m ∈ flowKeys bursts := by
  unfold flowKeys
  rw [Finset.mem_erase, List.mem_toFinset]
  exact ⟨key, List.mem_map_of_mem (List.mem_flatMap_of_mem mem mem')⟩

/-- Two changes of the counters of a port are one. -/
lemma Statistics.modify_modify {stats : Statistics} {portid f g} :
    (stats.modify portid f).modify portid g = stats.modify portid fun s => g (f s) := by
  unfold Statistics.modify
  rw [Function.update_self, Function.update_idem]

/-- Two counts are one. -/
lemma PortStatistics.count_count {s : PortStatistics} {a b c d : Nat} :
    (s.count a b).count c d = s.count (a + c) (b + d) := by
  simp only [PortStatistics.count, BitVec.ofNat_add, BitVec.add_assoc]

/-- An empty burst counts nothing. -/
lemma countBurst_nil {portid} {stats : Statistics} : countBurst backends portid [] stats = stats := by
  unfold countBurst Statistics.modify
  simp [PortStatistics.count]

/-- A burst is counted frame by frame. -/
lemma countBurst_cons {portid m burst} {stats : Statistics} :
    countBurst backends portid (m :: burst) stats =
      countBurst backends portid burst (countBurst backends portid [m] stats) := by
  unfold countBurst
  rw [Statistics.modify_modify]
  simp only [PortStatistics.count_count, List.countP_cons, List.countP_nil, Nat.zero_add, Nat.add_comm]

/-- Only keys of `T` are stored. -/
lemma Backed.among {n keys} {vals : Nat → BitVec 64} {m} (backed : Backed backends T m)
    (rep : Represents n 0 keys vals m) : ∀ k, k ≠ 0 → Stored n keys k → k ∈ T := by
  intro k ne st
  rw [rep.stored_iff ne, Option.isSome_iff_exists] at st
  obtain ⟨v, e⟩ := st
  exact (backed k v e).2

/-- Mapping a flow to its backend keeps the map backed. -/
lemma Backed.update {m k} (backed : Backed backends T m) (mem : k ∈ T) :
    Backed backends T (Function.update m k (some (backends.backend k))) := by
  intro k' v e
  rw [Function.update_apply] at e
  split at e
  · next same =>
    cases e
    rw [same]
    exact ⟨rfl, mem⟩
  · exact backed k' v e

/-- A frame in the maglev mode gets its backend, and the table still caches the lookup table. -/
lemma MaglevServes.processFrame {map : MaglevHashmap} {m : Frame}
    (serves : MaglevServes crc cap backends T map) (few : T.card ≤ cap.val)
    (mem : flowhash m ≠ 0 → flowhash m ∈ T) :
    ∃ map', maglevProcessFrame crc cap backends map m = (flowBackend backends m, map') ∧
      MaglevServes crc cap backends T map' := by
  obtain ⟨wf, b, rep, backed⟩ := serves
  unfold maglevProcessFrame flowBackend
  by_cases key : flowhash m = 0
  · rw [if_neg fun pos => pos_iff_ne_zero.mp pos key, if_pos key]
    exact ⟨map, rfl, wf, b, rep, backed⟩
  · rw [if_pos (pos_iff_ne_zero.mpr key), if_neg key]
    have cached := wf.get_eq rep key
    cases e : b (flowhash m) with
    | some v =>
      rw [e] at cached
      obtain ⟨s, _, got, pair⟩ := cached
      rw [got, ← (backed _ _ e).1]
      dsimp only
      rw [pair]
      exact ⟨map, rfl, wf, b, rep, backed⟩
    | none =>
      rw [e] at cached
      rw [cached]
      rcases wf.insert_cases rep (flowhash m) (backends.backend (flowhash m)) with
        ⟨refused, _⟩ | ⟨_, map', inserted, wf', rep'⟩
      · exfalso
        apply refused
        refine ⟨key, Or.inr fun full => ?_⟩
        have missing : ¬ Stored cap.val map.keys (flowhash m) := by
          rw [rep.stored_iff key, e]
          exact nofun
        have lt := wf.chained.card_lt_of_missing (fun s hs => Finset.mem_range.mp hs)
          (fun s hs => full s (Finset.mem_range.mp hs)) (backed.among rep) (mem key) missing
        rw [Finset.card_range] at lt
        omega
      · dsimp only
        rw [inserted]
        exact ⟨map', rfl, wf', _, rep', backed.update (mem key)⟩

/-- The maglev loop forwards every frame of a burst. -/
lemma MaglevServes.frames (ports : L2fwdPorts) (portid : Nat) (burst : List Frame)
    (out : List Frame) (lcore : MaglevLcore)
    (serves : MaglevServes crc cap backends T lcore.conntrack) (few : T.card ≤ cap.val)
    (mem : ∀ m ∈ burst, flowhash m ≠ 0 → flowhash m ∈ T) :
    ∃ lcore', burst.foldl (maglevFrame ports crc cap backends portid) (out, lcore) =
        (out ++ burst.map (forwardFrame ports backends portid), lcore') ∧
      MaglevServes crc cap backends T lcore'.conntrack ∧
      lcore'.stats = countBurst backends portid burst lcore.stats := by
  induction burst generalizing out lcore with
  | nil => exact ⟨lcore, by simp, serves, countBurst_nil.symm⟩
  | cons m burst ih =>
    obtain ⟨map', run, serves'⟩ := serves.processFrame few (mem m (by simp))
    have step : maglevFrame ports crc cap backends portid (out, lcore) m =
        (out ++ [forwardFrame ports backends portid m],
          { conntrack := map', stats := countBurst backends portid [m] lcore.stats }) := by
      unfold maglevFrame forwardFrame countBurst
      dsimp only
      rw [run]
      dsimp only
      split
      · next none => simp [none, PortStatistics.count]
      · next some =>
        have some : flowBackend backends m ≠ 0#64 := some
        simp [some, PortStatistics.count]
    rw [List.foldl_cons, step]
    obtain ⟨lcore', run', serves'', stats⟩ := ih (out ++ [forwardFrame ports backends portid m])
      { conntrack := map', stats := countBurst backends portid [m] lcore.stats } serves'
      fun m' mem' => mem m' (by simp [mem'])
    refine ⟨lcore', ?_, serves'', stats.trans countBurst_cons.symm⟩
    rw [run', List.append_assoc, List.singleton_append, List.map_cons]

/-- A poll in the maglev mode forwards every frame of its burst. -/
lemma MaglevServes.poll (ports : L2fwdPorts) {lcore : MaglevLcore} (burst : Burst)
    (serves : MaglevServes crc cap backends T lcore.conntrack) (few : T.card ≤ cap.val)
    (mem : ∀ m ∈ burst.frames, flowhash m ≠ 0 → flowhash m ∈ T) :
    ∃ lcore', maglevPoll ports crc cap backends lcore burst =
        (burst.frames.map (forwardFrame ports backends burst.portid), lcore') ∧
      MaglevServes crc cap backends T lcore'.conntrack ∧
      lcore'.stats = countBurst backends burst.portid burst.frames (countRx lcore.stats burst) := by
  obtain ⟨lcore', run, served⟩ := MaglevServes.frames ports burst.portid
    burst.frames [] { lcore with stats := countRx lcore.stats burst } serves few mem
  exact ⟨lcore', run, served⟩

/-- A key of the run that is not stored can be stored, and its lookup does not meet the probe
    bound. -/
lemma not_refused {ht₀ ht : DramblastHt} {m₀ m k} (wf₀ : Wf crc ht₀) (rep₀ : ht₀.Maps m₀)
    (backed₀ : Backed backends T m₀) (wf : Wf crc ht) (rep : ht.Maps m) (backed : Backed backends T m)
    (kept : ∀ k v, m₀ k = some v → m k = some v) (few : T.card ≤ ht₀.len - 4) (len : ht.len = ht₀.len)
    (ne : k ≠ 0) (mem : k ∈ T) : ¬ Refused crc ht₀ ht k := by
  have pos := ht₀.four_le
  rintro ⟨missing, closed | full⟩
  · have missing₀ : ¬ ht₀.Stores k := by
      intro st
      obtain ⟨v, e⟩ := (stores_iff rep₀ ne).mp st
      exact missing ((stores_iff rep ne).mpr ⟨v, kept k v e⟩)
    unfold OpenBeforeLast at closed
    push Not at closed
    -- all slots outside the last bucket are in use
    have lt := wf₀.chained.card_lt_of_missing
      (S := (Finset.range (ht₀.len - 4)).image (ht₀.probe crc k)) ?_ ?_ (backed₀.among rep₀) mem missing₀
    · rw [Finset.card_image_of_injOn, Finset.card_range] at lt
      · omega
      · intro i hi j hj e
        rw [Finset.mem_coe, Finset.mem_range] at hi hj
        exact slotAt_inj (by omega) (by omega) e
    · intro s hs
      obtain ⟨i, _, rfl⟩ := Finset.mem_image.mp hs
      exact DramblastHt.probe_lt
    · intro s hs
      obtain ⟨i, hi, rfl⟩ := Finset.mem_image.mp hs
      exact closed i (Finset.mem_range.mp hi)
  · have lt := wf.chained.card_lt_of_missing (fun s hs => Finset.mem_range.mp hs)
      (fun s hs => full s (Finset.mem_range.mp hs)) (backed.among rep) mem missing
    rw [Finset.card_range] at lt
    omega

/-- A batch whose keys fit the table is answered with the backends of its keys. -/
lemma DramblastServes.processFrames {ht : DramblastHt} {args} (ret : Nat → BitVec 64)
    (serves : DramblastServes crc id backends T ht) (few : T.card ≤ ht.len - 4)
    (wn : WellNumbered args) (nz : NonZero args) (mem : ∀ arg ∈ args, arg.k ∈ T) :
    ∃ st, dramblastProcessFrames crc id backends ht args ret = some st ∧
      DramblastServes crc id backends T st.ht ∧ st.ht.len = ht.len ∧
      ∀ i (hi : i < args.length), st.ret i = backends.backend args[i].k := by
  obtain ⟨wf, idle, m, rep, backed⟩ := serves
  obtain ⟨st, m', call, fin⟩ := processFrames_spec backends ret wf rep idle wn nz
  have backed' : Backed backends T m' := by
    intro k v e
    cases e₀ : m k with
    | some v₀ =>
      have bound := fin.kept k v₀ e₀
      rw [e, Option.some.injEq] at bound
      rw [bound]
      exact backed k v₀ e₀
    | none =>
      obtain ⟨ev, _, arg, mem', rfl⟩ := fin.fresh k v e e₀
      exact ⟨ev, mem arg mem'⟩
  refine ⟨st, call, ⟨fin.wf, fin.idle, m', fin.rep, backed'⟩, fin.len, fun i hi => ?_⟩
  have here := List.getElem_mem hi
  rcases fin.answered i hi with bound | ⟨refused, _⟩
  · exact (backed' _ _ bound).1
  · exact absurd refused (not_refused wf rep backed fin.wf fin.rep backed' fin.kept few fin.len
      (nz _ here) (mem _ here))

/-- The batch of a burst is numbered, and consists of the flow keys of the burst. -/
lemma batchOf_hashable {burst : List Frame} (short : burst.length ≤ maxPktBurst)
    (mem : ∀ m ∈ burst, flowhash m ≠ 0 → flowhash m ∈ T) :
    WellNumbered (batchOf (hashable burst)) ∧ NonZero (batchOf (hashable burst)) ∧
      ∀ arg ∈ batchOf (hashable burst), arg.k ∈ T := by
  have key : ∀ arg ∈ batchOf (hashable burst), ∃ m ∈ burst, flowhash m ≠ 0 ∧ arg.k = flowhash m := by
    intro arg mem'
    obtain ⟨j, hj', rfl⟩ := List.mem_iff_getElem.mp mem'
    have hj : j < (hashable burst).length := by rwa [length_batchOf] at hj'
    rw [getElem_batchOf hj]
    obtain ⟨here, ne⟩ := List.mem_filter.mp (List.getElem_mem hj)
    exact ⟨_, List.fst_mem_of_mem_zipIdx here, of_decide_eq_true ne, rfl⟩
  refine ⟨fun j hj => ?_, fun arg mem' => ?_, fun arg mem' => ?_⟩
  · have le : (hashable burst).length ≤ burst.length := length_hashable_le
    have small : maxPktBurst = 64 := rfl
    rw [length_batchOf] at hj
    rw [getElem_batchOf hj, BitVec.toNat_ofNat, Nat.mod_eq_of_lt]
    omega
  · obtain ⟨m, _, ne, e⟩ := key arg mem'
    rwa [e]
  · obtain ⟨m, mem'', ne, e⟩ := key arg mem'
    rw [e]
    exact mem m mem'' ne

/-- A batch, empty or not, is answered with the backends of its keys. -/
lemma DramblastServes.answerBatch {lcore : DramblastLcore} {args}
    (serves : DramblastServes crc id backends T lcore.ht) (few : T.card ≤ lcore.ht.len - 4)
    (wn : WellNumbered args) (nz : NonZero args) (mem : ∀ arg ∈ args, arg.k ∈ T) :
    ∃ st, answerBatch crc id backends lcore args = some st ∧
      DramblastServes crc id backends T st.ht ∧ st.ht.len = lcore.ht.len ∧
      ∀ i (hi : i < args.length), st.ret i = backends.backend args[i].k := by
  unfold L2fwd.answerBatch
  split
  · exact serves.processFrames lcore.macAddrs few wn nz mem
  · exact ⟨_, rfl, serves, rfl, fun i hi => by omega⟩

/-- A poll in the dramblast mode forwards every frame of its burst. -/
lemma DramblastServes.poll (ports : L2fwdPorts) {lcore : DramblastLcore} (burst : Burst)
    (serves : DramblastServes crc id backends T lcore.ht) (few : T.card ≤ lcore.ht.len - 4)
    (mem : ∀ m ∈ burst.frames, flowhash m ≠ 0 → flowhash m ∈ T) :
    ∃ lcore', dramblastPoll ports crc id backends lcore burst =
        some (burst.frames.map (forwardFrame ports backends burst.portid), lcore') ∧
      DramblastServes crc id backends T lcore'.ht ∧ lcore'.ht.len = lcore.ht.len ∧
      lcore'.stats = countBurst backends burst.portid burst.frames (countRx lcore.stats burst) := by
  unfold dramblastPoll
  by_cases some : burst.frames.length > 0
  · obtain ⟨wn, nz, among⟩ := batchOf_hashable burst.short mem
    obtain ⟨st, call, serves', len, answers⟩ := serves.answerBatch few wn nz among
    have rewritten := rewrite_eq ports backends burst.portid st.ret burst.frames ?_
    · rw [if_pos some, collect_eq, ← hashable]
      dsimp only
      rw [call, Option.bind_eq_bind, Option.bind_some, rewritten]
      refine ⟨_, rfl, serves', len, ?_⟩
      unfold countBurst PortStatistics.count
      have split := List.length_eq_countP_add_countP (fun m => decide (flowBackend backends m ≠ 0))
        (l := burst.frames)
      have none : burst.frames.countP (fun m => decide ¬ (decide (flowBackend backends m ≠ 0) = true)) =
          burst.frames.countP fun m => flowBackend backends m = 0 := by
        simp
      rw [none] at split
      dsimp only
      rw [split, Nat.add_sub_cancel_left]
    · intro j hj
      have answer := answers j (by rwa [length_batchOf])
      have key := (List.mem_filter.mp (List.getElem_mem hj)).2
      rw [getElem_batchOf hj] at answer
      rw [answer, flowBackend, if_neg (of_decide_eq_true key)]
  · have empty : burst.frames = [] := List.eq_nil_of_length_eq_zero (by omega)
    rw [if_neg some, empty]
    exact ⟨_, rfl, serves, rfl, countBurst_nil.symm⟩

/-- The two modes leave every frame of a run equal, and count alike, if the tables have four slots
    more than the run has flow keys. -/
theorem modes_forward_identically (crc : BitVec 64 → BitVec 64) (id : Nat) (cap : Capacity)
    (ports : L2fwdPorts) (backends : LookUpTable) (ht : DramblastHt) (map : MaglevHashmap)
    (macAddrs : Nat → BitVec 64) (stats : Statistics) (bursts : List Burst) (len : ht.len = cap.val)
    (zero : ht.AllZero) (idle : Idle id ht) (zero' : map.AllZero cap)
    (few : (flowKeys bursts).card ≤ cap.val - 4) :
    ∃ out lcore, dramblastPolls ports crc id backends { ht, macAddrs, stats } bursts =
        some (out, lcore) ∧
      out = (maglevPolls ports crc cap backends { conntrack := map, stats } bursts).1 ∧
      lcore.stats = (maglevPolls ports crc cap backends { conntrack := map, stats } bursts).2.stats := by
  have serves : DramblastServes crc id backends (flowKeys bursts) ht :=
    { wf := Wf.init zero
      idle := idle
      cached := ⟨_, Represents.init fun s hs => by rw [DramblastHt.keys, zero s hs], nofun⟩ }
  have serves' : MaglevServes crc cap backends (flowKeys bursts) map :=
    { wf := MaglevWf.init zero'
      cached := ⟨_, Represents.init fun s hs => by rw [MaglevHashmap.keys, zero' s hs], nofun⟩ }
  -- the induction is on the bursts still to come, with the flow keys of the whole run fixed
  suffices run : ∀ (T : Finset (BitVec 64)) (todo : List Burst) (d : DramblastLcore) (m : MaglevLcore),
      T.card ≤ cap.val - 4 →
      (∀ burst ∈ todo, ∀ f ∈ burst.frames, flowhash f ≠ 0 → flowhash f ∈ T) →
      d.ht.len = cap.val → DramblastServes crc id backends T d.ht →
      MaglevServes crc cap backends T m.conntrack → d.stats = m.stats →
      ∃ out lcore, dramblastPolls ports crc id backends d todo = some (out, lcore) ∧
        out = (maglevPolls ports crc cap backends m todo).1 ∧
        lcore.stats = (maglevPolls ports crc cap backends m todo).2.stats from
    run (flowKeys bursts) bursts _ _ few (fun _ mem _ mem' => mem_flowKeys mem mem') len serves serves' rfl
  intro T todo d m few among len serves serves' stats
  induction todo generalizing d m with
  | nil => exact ⟨[], d, rfl, rfl, stats⟩
  | cons burst todo ih =>
    have here := among burst (by simp)
    obtain ⟨d', poll, served, len', count⟩ := serves.poll ports burst (by omega) here
    obtain ⟨m', poll', served', count'⟩ := serves'.poll ports burst (by omega) here
    have stats' : d'.stats = m'.stats := by
      rw [count, count', stats]
    obtain ⟨out, lcore, rest, same, same'⟩ := ih d' m' (fun b mem => among b (by simp [mem]))
      (len'.trans len) served served' stats'
    refine ⟨burst.frames.map (forwardFrame ports backends burst.portid) :: out, lcore, ?_, ?_, ?_⟩
    · rw [dramblastPolls, poll, Option.bind_eq_bind, Option.bind_some]
      dsimp only
      rw [rest]
      rfl
    · rw [maglevPolls, poll', same]
    · rw [maglevPolls, poll', same']

/-- A capacity of eight slots. -/
def eightSlots : Capacity :=
  ⟨8, 3, by decide, rfl⟩

/-- The header of a UDP packet from port `x`, all other octets zero. -/
def udpFrame (x : Byte) : Frame := fun i =>
  if i = 14 then 0x45 else if i = 23 then 17 else if i = 35 then x else 0

/-- A burst with a flow in it twice, and a frame that has no flow key. -/
def udpBurst : Burst :=
  { portid := 1, frames := [udpFrame 1, fun _ => 0, udpFrame 1, udpFrame 2], short := by decide }

/-- The modes on a burst that is received twice. -/
theorem modes_forward_identically_udp :
    ∃ out lcore, dramblastPolls ⟨fun p => p + 1, fun _ _ => 7⟩ mmCrc32U64 0 (fun _ => 255)
        { ht := dramblastInit 8 ⟨3, by decide, by decide, rfl⟩
            fun _ _ => { k := 0, idx := 0, visitCount := 0, id := 0 }
          macAddrs := fun _ => 3
          stats := fun _ => ⟨0, 0, 0, 0⟩ } [udpBurst, udpBurst] = some (out, lcore) ∧
      out = (maglevPolls ⟨fun p => p + 1, fun _ _ => 7⟩ mmCrc32U64 eightSlots (fun _ => 255)
        { conntrack := ⟨fun _ => ⟨0, 0⟩⟩, stats := fun _ => ⟨0, 0, 0, 0⟩ } [udpBurst, udpBurst]).1 ∧
      lcore.stats = (maglevPolls ⟨fun p => p + 1, fun _ _ => 7⟩ mmCrc32U64 eightSlots (fun _ => 255)
        { conntrack := ⟨fun _ => ⟨0, 0⟩⟩, stats := fun _ => ⟨0, 0, 0, 0⟩ }
          [udpBurst, udpBurst]).2.stats :=
  modes_forward_identically mmCrc32U64 0 eightSlots ⟨fun p => p + 1, fun _ _ => 7⟩ (fun _ => 255) _ _ _
    _ [udpBurst, udpBurst] rfl (fun _ _ => rfl) rfl (fun _ _ => rfl) (by decide +kernel)

end NetBlast.L2fwd
