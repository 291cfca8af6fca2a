import NetBlast.L2fwd.Modes
import NetBlast.Admission.FirstCome

/-!
# The maglev mode with a table that fills up

The connection table never gives a flow up, so with room for `CAPACITY` flows it serves the first
`CAPACITY` different flows of a run, and no other, however long the run is. `FirstCome` is the
invariant: the table caches the lookup table for the flows that have been admitted.
`maglev_first_come` says which frames of a run are forwarded, what is counted, and what the table
holds in the end.
-/

namespace NetBlast.L2fwd
open Probing Hashmap Admission

/-- The flow keys of frames, in their order. -/
def keysOf (frames : List Frame) : List (BitVec 64) :=
  (frames.map flowhash).filter (· ≠ 0)

/-- The bindings of a table that caches the lookup table for `keys`. -/
def cacheOf (backends : LookUpTable) (keys : List (BitVec 64)) (k : BitVec 64) :
    Option (BitVec 64) :=
  if k ∈ keys then some (backends.backend k) else none

/-- The connection table caches the lookup table for the flows of `keys`. -/
structure FirstCome (crc : BitVec 64 → BitVec 64) (cap : Capacity) (backends : LookUpTable)
    (keys : List (BitVec 64)) (map : MaglevHashmap) : Prop where
  wf : MaglevWf crc cap map
  sound : Sound cap.val keys
  nonzero : 0 ∉ keys
  rep : Represents cap.val 0 map.keys map.values (cacheOf backends keys)

/-- The backend of a frame if its flow is among `keys`, and 0 otherwise. -/
def admittedBackend (backends : LookUpTable) (keys : List (BitVec 64)) (m : Frame) : BitVec 64 :=
  if flowhash m ∈ keys then backends.backend (flowhash m) else 0

/-- What becomes of a frame if the flows of `keys` are served. -/
def forwardAdmitted (ports : L2fwdPorts) (backends : LookUpTable) (keys : List (BitVec 64))
    (portid : Nat) (m : Frame) : Frame :=
  if admittedBackend backends keys m = 0 then m
  else l2fwdMacUpdating ports m (ports.dstPorts portid) (admittedBackend backends keys m)

/-- The frames of a run that were received on a port. -/
def framesOf (bursts : List Burst) (portid : Nat) : List Frame :=
  (bursts.filter fun burst => burst.portid = portid).flatMap (·.frames)

/-- Count the frames of a burst that get a backend, and those that get none. -/
def countServed (served : Frame → Bool) (portid : Nat) (burst : List Frame) (stats : Statistics) :
    Statistics :=
  stats.modify portid fun s => s.count (burst.countP served) (burst.countP fun m => !served m)

variable {crc : BitVec 64 → BitVec 64} {cap : Capacity} {backends : LookUpTable}
  {keys : List (BitVec 64)} {map : MaglevHashmap}

/-- The keys of a run are those of its first frame and of the rest. -/
lemma keysOf_cons {m : Frame} {frames : List Frame} :
    keysOf (m :: frames) = keysOf [m] ++ keysOf frames := by
  unfold keysOf
  rw [← List.filter_append, ← List.map_append, List.singleton_append]

/-- The keys of two runs come one after the other. -/
lemma keysOf_append {frames frames' : List Frame} :
    keysOf (frames ++ frames') = keysOf frames ++ keysOf frames' := by
  unfold keysOf
  rw [List.map_append, List.filter_append]

/-- A frame without a flow key has none. -/
lemma keysOf_zero {m : Frame} (none : flowhash m = 0) : keysOf [m] = [] := by
  simp [keysOf, none]

/-- A frame with a flow key has that one. -/
lemma keysOf_key {m : Frame} (key : flowhash m ≠ 0) : keysOf [m] = [flowhash m] := by
  unfold keysOf
  rw [List.map_singleton, List.filter_singleton, decide_eq_true key]
  rfl

/-- One more flow is one more binding. -/
lemma cacheOf_concat {k : BitVec 64} :
    cacheOf backends (keys ++ [k]) =
      Function.update (cacheOf backends keys) k (some (backends.backend k)) := by
  funext k'
  unfold cacheOf
  rw [Function.update_apply]
  by_cases e : k' = k <;> simp [e]

/-- Nobody has asked a zeroed table. -/
lemma FirstCome.init (crc : BitVec 64 → BitVec 64) (backends : LookUpTable)
    (zero : map.AllZero cap) : FirstCome crc cap backends [] map where
  wf := MaglevWf.init zero
  sound := Sound.init
  nonzero := List.not_mem_nil
  rep := Represents.init fun s hs => by rw [MaglevHashmap.keys, zero s hs]

/-- The table stores the flows of `keys`. -/
lemma FirstCome.stored_iff (fc : FirstCome crc cap backends keys map) {k : BitVec 64} (ne : k ≠ 0) :
    Stored cap.val map.keys k ↔ k ∈ keys := by
  rw [fc.rep.stored_iff ne, cacheOf]
  split <;> simp [*]

/-- The table is full exactly if it serves as many flows as it has slots. -/
lemma FirstCome.full_iff (fc : FirstCome crc cap backends keys map) :
    Full cap.val 0 map.keys ↔ cap.val ≤ keys.length := by
  have stored : storedKeys cap.val 0 map.keys = keys.toFinset := by
    ext k
    rw [mem_storedKeys, List.mem_toFinset]
    constructor
    · rintro ⟨ne, st⟩
      exact (fc.stored_iff ne).mp st
    · intro mem
      have ne : k ≠ 0 := fun e => fc.nonzero (e ▸ mem)
      exact ⟨ne, (fc.stored_iff ne).mpr mem⟩
  rw [fc.wf.chained.full_iff_card, stored, List.toFinset_card_of_nodup fc.sound.nodup]

/-- A frame in the maglev mode asks for its flow to be admitted, and gets its backend if it is. -/
lemma FirstCome.processFrame (fc : FirstCome crc cap backends keys map) (m : Frame) :
    ∃ map', maglevProcessFrame crc cap backends map m =
        (admittedBackend backends (grantAll cap.val keys (keysOf [m])) m, map') ∧
      FirstCome crc cap backends (grantAll cap.val keys (keysOf [m])) map' := by
  unfold maglevProcessFrame admittedBackend
  by_cases key : flowhash m = 0
  · rw [if_neg fun pos => pos_iff_ne_zero.mp pos key, keysOf_zero key, key, grantAll_none,
      if_neg fc.nonzero]
    exact ⟨map, rfl, fc⟩
  · rw [if_pos (pos_iff_ne_zero.mpr key), keysOf_key key, grantAll_one]
    have cached := fc.wf.get_eq fc.rep key
    by_cases old : flowhash m ∈ keys
    · rw [cacheOf, if_pos old] at cached
      obtain ⟨s, _, got, pair⟩ := cached
      have same : grant cap.val keys (flowhash m) = keys := if_pos old
      rw [got, same, if_pos old]
      dsimp only
      rw [pair]
      exact ⟨map, rfl, fc⟩
    · rw [cacheOf, if_neg old] at cached
      dsimp only at cached ⊢
      rw [cached]
      rcases fc.wf.insert_cases fc.rep (flowhash m) (backends.backend (flowhash m)) with
        ⟨refused, failed⟩ | ⟨⟨_, accepted⟩, map', inserted, wf', rep'⟩
      · have full : Full cap.val 0 map.keys := by
          by_contra room
          exact refused ⟨key, Or.inr room⟩
        have same : grant cap.val keys (flowhash m) = keys := grant_of_full (fc.full_iff.mp full)
        dsimp only
        rw [failed, same, if_neg old]
        exact ⟨map, rfl, fc⟩
      · have room : keys.length < cap.val := by
          rw [fc.stored_iff key, fc.full_iff] at accepted
          exact Nat.not_le.mp (accepted.resolve_left old)
        have added : grant cap.val keys (flowhash m) = keys ++ [flowhash m] := by
          rw [grant, if_neg old, if_pos room]
        dsimp only
        rw [inserted, added, if_pos (List.mem_append_right _ (List.mem_singleton_self _))]
        refine ⟨map', rfl, wf', added ▸ fc.sound.grant _, ?_, ?_⟩
        · rw [List.mem_append, List.mem_singleton]
          rintro (mem | e)
          · exact fc.nonzero mem
          · exact key e.symm
        · rw [cacheOf_concat]
          exact rep'

/-- What becomes of a flow is settled when its first frame is handled. -/
lemma FirstCome.settled (fc : FirstCome crc cap backends keys map) (m : Frame)
    (later : List (BitVec 64)) (nonzero : 0 ∉ later) :
    admittedBackend backends (grantAll cap.val keys (keysOf [m] ++ later)) m =
      admittedBackend backends (grantAll cap.val keys (keysOf [m])) m := by
  unfold admittedBackend
  rw [grantAll_append]
  by_cases key : flowhash m = 0
  · rw [key, keysOf_zero key, grantAll_none, if_neg fc.nonzero, if_neg]
    intro mem
    rcases mem_of_mem_grantAll mem with mem | mem
    · exact fc.nonzero mem
    · exact nonzero mem
  · rw [keysOf_key key, grantAll_one]
    exact if_congr mem_grantAll rfl rfl

/-- The empty marker is no flow key. -/
lemma zero_notMem_keysOf {frames : List Frame} : 0 ∉ keysOf frames := by
  simp [keysOf]

/-- An empty burst counts nothing. -/
lemma countServed_nil {served : Frame → Bool} {portid} {stats : Statistics} :
    countServed served portid [] stats = stats := by
  unfold countServed Statistics.modify
  simp [PortStatistics.count]

/-- A burst is counted frame by frame. -/
lemma countServed_cons {served : Frame → Bool} {portid m burst} {stats : Statistics} :
    countServed served portid (m :: burst) stats =
      countServed served portid burst (countServed served portid [m] stats) := by
  unfold countServed
  rw [Statistics.modify_modify]
  simp only [PortStatistics.count_count, List.countP_cons, List.countP_nil, Nat.zero_add, Nat.add_comm]

/-- One round of the maglev loop, for a frame whose backend is known. -/
lemma maglevFrame_eq (ports : L2fwdPorts) (portid : Nat) (out : List Frame) (lcore : MaglevLcore)
    (served : Frame → Bool) {m : Frame} {mac : BitVec 64} {map' : MaglevHashmap}
    (run : maglevProcessFrame crc cap backends lcore.conntrack m = (mac, map'))
    (agrees : served m = decide (mac ≠ 0)) :
    maglevFrame ports crc cap backends portid (out, lcore) m =
      (out ++ [if mac = 0 then m else l2fwdMacUpdating ports m (ports.dstPorts portid) mac],
        { conntrack := map', stats := countServed served portid [m] lcore.stats }) := by
  unfold maglevFrame countServed
  dsimp only
  rw [run]
  dsimp only
  by_cases none : mac = 0
  · rw [if_pos none, if_pos none]
    simp [agrees, none, PortStatistics.count]
  · have some : ¬ mac = 0#64 := none
    rw [if_neg none, if_neg none]
    simp [agrees, some, PortStatistics.count]

/-- The maglev loop serves the frames of a burst by the flows that are admitted in the end. -/
lemma FirstCome.frames (ports : L2fwdPorts) (portid : Nat) (burst : List Frame) (out : List Frame)
    (lcore : MaglevLcore) (fc : FirstCome crc cap backends keys lcore.conntrack)
    (later : List (BitVec 64)) (nonzero : 0 ∉ later) {final : List (BitVec 64)}
    (settled : final = grantAll cap.val keys (keysOf burst ++ later)) :
    ∃ lcore', burst.foldl (maglevFrame ports crc cap backends portid) (out, lcore) =
        (out ++ burst.map (forwardAdmitted ports backends final portid), lcore') ∧
      FirstCome crc cap backends (grantAll cap.val keys (keysOf burst)) lcore'.conntrack ∧
      lcore'.stats =
        countServed (fun m => admittedBackend backends final m ≠ 0) portid burst lcore.stats := by
  induction burst generalizing out lcore keys with
  | nil => exact ⟨lcore, by simp, fc, countServed_nil.symm⟩
  | cons m burst ih =>
    obtain ⟨map', run, fc'⟩ := fc.processFrame m
    rw [keysOf_cons, List.append_assoc] at settled
    have mac : admittedBackend backends (grantAll cap.val keys (keysOf [m])) m =
        admittedBackend backends final m := by
      rw [settled, fc.settled m (keysOf burst ++ later)]
      rw [List.mem_append]
      exact not_or.mpr ⟨zero_notMem_keysOf, nonzero⟩
    rw [mac] at run
    rw [List.foldl_cons, maglevFrame_eq ports portid out lcore
      (fun m => admittedBackend backends final m ≠ 0) run rfl]
    rw [grantAll_append] at settled
    obtain ⟨lcore', run', fc'', stats⟩ := ih (out ++ [forwardAdmitted ports backends final portid m])
      { conntrack := map'
        stats := countServed (fun m => admittedBackend backends final m ≠ 0) portid [m] lcore.stats }
      fc' settled
    refine ⟨lcore', ?_, ?_, stats.trans countServed_cons.symm⟩
    · refine Eq.trans run' ?_
      rw [List.append_assoc, List.singleton_append, List.map_cons]
    · rw [keysOf_cons, grantAll_append]
      exact fc''

/-- The polls of a run serve its frames by the flows that are admitted in the end. -/
lemma FirstCome.polls (ports : L2fwdPorts) (bursts : List Burst) (lcore : MaglevLcore)
    (fc : FirstCome crc cap backends keys lcore.conntrack) {final : List (BitVec 64)}
    (settled : final = grantAll cap.val keys (keysOf (bursts.flatMap (·.frames)))) :
    ∃ lcore', maglevPolls ports crc cap backends lcore bursts =
        (bursts.map fun burst =>
          burst.frames.map (forwardAdmitted ports backends final burst.portid), lcore') ∧
      FirstCome crc cap backends final lcore'.conntrack ∧
      lcore'.stats = bursts.foldl
        (fun stats burst => countServed (fun m => admittedBackend backends final m ≠ 0) burst.portid
          burst.frames (countRx stats burst)) lcore.stats := by
  induction bursts generalizing lcore keys with
  | nil =>
    rw [settled]
    exact ⟨lcore, rfl, fc, rfl⟩
  | cons burst bursts ih =>
    rw [List.flatMap_cons, keysOf_append] at settled
    obtain ⟨lcore', poll, fc', stats⟩ := FirstCome.frames ports burst.portid burst.frames []
      { lcore with stats := countRx lcore.stats burst } fc _ zero_notMem_keysOf settled
    rw [grantAll_append] at settled
    obtain ⟨lcore'', rest, fc'', stats'⟩ := ih lcore' fc' settled
    refine ⟨lcore'', ?_, fc'', ?_⟩
    · rw [maglevPolls, maglevPoll, poll]
      dsimp only
      rw [rest]
      rfl
    · rw [List.foldl_cons, stats', stats]

/-- The counters of a port after a run: every frame is counted once, as forwarded or as unmapped. -/
lemma counts_of_run (served : Frame → Bool) (bursts : List Burst) (stats : Statistics) (p : Nat) :
    let after := bursts.foldl
      (fun stats burst => countServed served burst.portid burst.frames (countRx stats burst)) stats p
    after.fwded = (stats p).fwded + BitVec.ofNat 64 ((framesOf bursts p).countP served) ∧
      after.unmapped = (stats p).unmapped +
        BitVec.ofNat 64 ((framesOf bursts p).countP fun m => !served m) := by
  induction bursts generalizing stats with
  | nil => simp [framesOf]
  | cons burst bursts ih =>
    obtain ⟨fwded, unmapped⟩ :=
      ih (countServed served burst.portid burst.frames (countRx stats burst))
    have other : (countRx stats burst p).fwded = (stats p).fwded ∧
        (countRx stats burst p).unmapped = (stats p).unmapped := by
      unfold countRx Statistics.modify
      by_cases here : p = burst.portid <;> split <;> simp [here]
    rw [List.foldl_cons]
    dsimp only
    rw [fwded, unmapped]
    unfold framesOf countServed Statistics.modify
    rw [List.filter_cons]
    by_cases here : burst.portid = p
    · subst here
      rw [if_pos (decide_eq_true rfl), Function.update_self, List.flatMap_cons, List.countP_append,
        List.countP_append, BitVec.ofNat_add, BitVec.ofNat_add, ← BitVec.add_assoc,
        ← BitVec.add_assoc, ← other.1, ← other.2]
      exact ⟨rfl, rfl⟩
    · rw [if_neg (by simpa using here), Function.update_of_ne (Ne.symm here), other.1, other.2]
      exact ⟨rfl, rfl⟩

/-- Of a run of any length, the maglev mode serves the first `CAPACITY` different flows: their frames
    get their backends, all others are sent as they came; each frame is counted accordingly; and the
    table ends up with these flows and no other. -/
theorem maglev_first_come (crc : BitVec 64 → BitVec 64) (cap : Capacity) (ports : L2fwdPorts)
    (backends : LookUpTable) (map : MaglevHashmap) (stats : Statistics) (bursts : List Burst)
    (zero : map.AllZero cap) :
    let keys := (keysOf (bursts.flatMap (·.frames))).eraseDups.take cap.val
    let served := fun m => decide (admittedBackend backends keys m ≠ 0)
    let run := maglevPolls ports crc cap backends { conntrack := map, stats } bursts
    run.1 = bursts.map (fun burst =>
        burst.frames.map (forwardAdmitted ports backends keys burst.portid)) ∧
      (∀ p, (run.2.stats p).fwded =
            (stats p).fwded + BitVec.ofNat 64 ((framesOf bursts p).countP served) ∧
          (run.2.stats p).unmapped =
            (stats p).unmapped + BitVec.ofNat 64 ((framesOf bursts p).countP fun m => !served m)) ∧
      ∀ key, key ≠ 0 →
        match maglevHashmapGet crc cap run.2.conntrack key with
        | some s => key ∈ keys ∧
            run.2.conntrack.pairs s = { key, value := backends.backend key }
        | none => key ∉ keys := by
  intro keys served run
  have settled : keys = grantAll cap.val [] (keysOf (bursts.flatMap (·.frames))) := grantAll_nil.symm
  obtain ⟨lcore, polls, fc, counts⟩ := (FirstCome.init crc backends zero).polls ports bursts
    { conntrack := map, stats } settled
  have here : run = _ := polls
  rw [here]
  refine ⟨rfl, fun p => ?_, fun key ne => ?_⟩
  · dsimp only
    rw [counts]
    exact counts_of_run served bursts stats p
  · have got := fc.wf.get_eq fc.rep ne
    unfold cacheOf at got
    by_cases mem : key ∈ keys
    · rw [if_pos mem] at got
      obtain ⟨s, _, found, pair⟩ := got
      rw [found]
      exact ⟨mem, pair⟩
    · rw [if_neg mem] at got
      dsimp only at got ⊢
      rw [got]
      exact mem

/-- A capacity of one slot. -/
def oneSlot : Capacity :=
  ⟨1, 0, by decide, rfl⟩

/-- A table of one slot, which the first of two flows fills. -/
theorem maglev_first_come_full :
    let keys := (keysOf ([udpBurst, udpBurst].flatMap (·.frames))).eraseDups.take oneSlot.val
    let served := fun m => decide (admittedBackend (fun _ => 255) keys m ≠ 0)
    let run := maglevPolls ⟨fun p => p + 1, fun _ _ => 7⟩ mmCrc32U64 oneSlot (fun _ => 255)
      { conntrack := ⟨fun _ => ⟨0, 0⟩⟩, stats := fun _ => ⟨0, 0, 0, 0⟩ } [udpBurst, udpBurst]
    run.1 = [udpBurst, udpBurst].map (fun burst => burst.frames.map
        (forwardAdmitted ⟨fun p => p + 1, fun _ _ => 7⟩ (fun _ => 255) keys burst.portid)) ∧
      (∀ p, (run.2.stats p).fwded =
            0 + BitVec.ofNat 64 ((framesOf [udpBurst, udpBurst] p).countP served) ∧
          (run.2.stats p).unmapped =
            0 + BitVec.ofNat 64 ((framesOf [udpBurst, udpBurst] p).countP fun m => !served m)) ∧
      ∀ key, key ≠ 0 →
        match maglevHashmapGet mmCrc32U64 oneSlot run.2.conntrack key with
        | some s => key ∈ keys ∧ run.2.conntrack.pairs s = { key, value := 255 }
        | none => key ∉ keys :=
  maglev_first_come mmCrc32U64 oneSlot ⟨fun p => p + 1, fun _ _ => 7⟩ (fun _ => 255) _ _
    [udpBurst, udpBurst] fun _ _ => rfl

end NetBlast.L2fwd
