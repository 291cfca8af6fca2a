import NetBlast.L2fwd.Rewrite
import NetBlast.Populate

/-!
# The modes on the wire

With the lookup table that `populate_lut` leaves, every flow has the same backend, and it is the
address that the mode `none` writes without looking at the frame. So while the tables have room, the
two modes with a table send what the mode `none` sends, but for the frames that have no flow key,
which they send as they came.
-/

namespace NetBlast.L2fwd
open Hashmap Dramblast

variable {crc : BitVec 64 → BitVec 64} {cap : Capacity} {id : Nat} {backends : LookUpTable}
  {ports : L2fwdPorts} {T : Finset (BitVec 64)}

/-- The counters after a run in which every frame is forwarded to its backend. -/
def countRun (backends : LookUpTable) (bursts : List Burst) (stats : Statistics) : Statistics :=
  bursts.foldl
    (fun stats burst => countBurst backends burst.portid burst.frames (countRx stats burst)) stats

/-- A zeroed table caches every lookup table. -/
lemma MaglevServes.init {map : MaglevHashmap} (zero : map.AllZero cap) :
    MaglevServes crc cap backends T map where
  wf := MaglevWf.init zero
  cached :=
    ⟨_, Probing.Represents.init fun s hs => by rw [MaglevHashmap.keys, zero s hs], nofun⟩

/-- The invariant holds of a zeroed table. -/
lemma DramblastServes.init {ht : DramblastHt} (zero : ht.AllZero) (idle : Idle id ht) :
    DramblastServes crc id backends T ht where
  wf := Wf.init zero
  idle := idle
  cached :=
    ⟨_, Probing.Represents.init fun s hs => by rw [DramblastHt.keys, zero s hs], nofun⟩

/-- The maglev mode forwards every frame of a run that fits its table. -/
lemma MaglevServes.polls (ports : L2fwdPorts) (bursts : List Burst) (lcore : MaglevLcore)
    (serves : MaglevServes crc cap backends T lcore.conntrack) (few : T.card ≤ cap.val)
    (among : ∀ burst ∈ bursts, ∀ m ∈ burst.frames, flowhash m ≠ 0 → flowhash m ∈ T) :
    ∃ lcore', maglevPolls ports crc cap backends lcore bursts =
        (bursts.map fun burst => burst.frames.map (forwardFrame ports backends burst.portid),
          lcore') ∧
      lcore'.stats = countRun backends bursts lcore.stats := by
  induction bursts generalizing lcore with
  | nil => exact ⟨lcore, rfl, rfl⟩
  | cons burst bursts ih =>
    obtain ⟨lcore', poll, serves', stats⟩ := serves.poll ports burst few (among burst (by simp))
    obtain ⟨lcore'', rest, stats'⟩ := ih lcore' serves' fun b mem => among b (by simp [mem])
    refine ⟨lcore'', ?_, ?_⟩
    · rw [maglevPolls, poll]
      dsimp only
      rw [rest]
      rfl
    · rw [stats', stats]
      rfl

/-- The dramblast mode forwards every frame of a run that fits its table. -/
lemma DramblastServes.polls (ports : L2fwdPorts) (bursts : List Burst) (lcore : DramblastLcore)
    (serves : DramblastServes crc id backends T lcore.ht) (few : T.card ≤ lcore.ht.len - 4)
    (among : ∀ burst ∈ bursts, ∀ m ∈ burst.frames, flowhash m ≠ 0 → flowhash m ∈ T) :
    ∃ lcore', dramblastPolls ports crc id backends lcore bursts =
        some (bursts.map fun burst => burst.frames.map (forwardFrame ports backends burst.portid),
          lcore') ∧
      lcore'.stats = countRun backends bursts lcore.stats := by
  induction bursts generalizing lcore with
  | nil => exact ⟨lcore, rfl, rfl⟩
  | cons burst bursts ih =>
    obtain ⟨lcore', poll, serves', len, stats⟩ :=
      serves.poll ports burst few (among burst (by simp))
    obtain ⟨lcore'', rest, stats'⟩ :=
      ih lcore' serves' (len ▸ few) fun b mem => among b (by simp [mem])
    refine ⟨lcore'', ?_, ?_⟩
    · rw [dramblastPolls, poll, Option.bind_eq_bind, Option.bind_some]
      dsimp only
      rw [rest]
      rfl
    · rw [stats', stats]
      rfl

/-- What the mode `none` sends for a burst. -/
lemma nonePoll_frames (ports : L2fwdPorts) (stats : Statistics) (burst : Burst) :
    (nonePoll ports stats burst).1 =
      burst.frames.map fun m => l2fwdMacUpdating ports m (ports.dstPorts burst.portid) 0xff := by
  unfold nonePoll
  dsimp only
  split
  · rfl
  · next none =>
    rw [List.eq_nil_of_length_eq_zero (Nat.eq_zero_of_not_pos none)]
    rfl

/-- Mode none rewrites every frame. -/
lemma nonePolls_eq (ports : L2fwdPorts) (stats : Statistics) (bursts : List Burst) :
    (nonePolls ports stats bursts).1 = bursts.map fun burst =>
      burst.frames.map fun m => l2fwdMacUpdating ports m (ports.dstPorts burst.portid) 0xff := by
  induction bursts generalizing stats with
  | nil => rfl
  | cons burst bursts ih =>
    rw [nonePolls, List.map_cons, ← nonePoll_frames ports stats,
      ← ih (nonePoll ports stats burst).2]

/-- With the table of `populate_lut` there is one backend. -/
lemma flowBackend_populateLut (lut : LookUpTable) (m : Frame) :
    flowBackend (populateLut lut) m = if flowhash m = 0 then 0 else 0xff := by
  unfold flowBackend LookUpTable.backend
  rw [populateLut_apply]

/-- With a populated lookup table every frame with a flow key is rewritten. -/
lemma forwardFrame_populateLut (lut : LookUpTable) (portid : Nat) (m : Frame) :
    forwardFrame ports (populateLut lut) portid m =
      if flowhash m = 0 then m else l2fwdMacUpdating ports m (ports.dstPorts portid) 0xff := by
  unfold forwardFrame
  rw [flowBackend_populateLut]
  by_cases none : flowhash m = 0
  · rw [if_pos none, if_pos rfl, if_pos none]
  · rw [if_neg none, if_neg (by decide), if_neg none]

/-- From tables that are zero, with the lookup table of `populate_lut`, and on a run whose flows fit,
    both modes with a table send for a frame with a flow key what the mode `none` sends, and a frame
    without one as it came; and both count alike. -/
theorem modes_agree_with_none (crc : BitVec 64 → BitVec 64) (id : Nat) (cap : Capacity)
    (ports : L2fwdPorts) (lut : LookUpTable) (ht : DramblastHt) (map : MaglevHashmap)
    (macAddrs : Nat → BitVec 64) (stats : Statistics) (bursts : List Burst) (len : ht.len = cap.val)
    (zero : ht.AllZero) (idle : Idle id ht) (zero' : map.AllZero cap)
    (few : (flowKeys bursts).card ≤ cap.val - 4) :
    let backends := populateLut lut
    let out := (bursts.zip (nonePolls ports stats bursts).1).map fun (burst, sent) =>
      List.zipWith (fun m m' => if flowhash m = 0 then m else m') burst.frames sent
    (maglevPolls ports crc cap backends { conntrack := map, stats } bursts).1 = out ∧
      ∃ lcore, dramblastPolls ports crc id backends { ht, macAddrs, stats } bursts =
          some (out, lcore) ∧
        lcore.stats =
          (maglevPolls ports crc cap backends { conntrack := map, stats } bursts).2.stats := by
  intro backends out
  have sent : out = bursts.map fun burst =>
      burst.frames.map (forwardFrame ports backends burst.portid) := by
    have frames (portid : Nat) (ms : List Frame) :
        List.zipWith (fun m m' => if flowhash m = 0 then m else m') ms
          (ms.map fun m => l2fwdMacUpdating ports m (ports.dstPorts portid) 0xff) =
        ms.map (forwardFrame ports backends portid) := by
      rw [List.zipWith_map_right, List.zipWith_self]
      exact List.map_congr_left fun m _ => (forwardFrame_populateLut lut portid m).symm
    have zipped (bs : List Burst) (f : Burst → List Frame) :
        bs.zip (bs.map f) = bs.map fun b => (b, f b) := by
      induction bs with
      | nil => rfl
      | cons b bs ih => rw [List.map_cons, List.map_cons, List.zip_cons_cons, ih]
    have unfolded : out = (bursts.zip (nonePolls ports stats bursts).1).map _ := rfl
    rw [unfolded, nonePolls_eq, zipped, List.map_map]
    exact List.map_congr_left fun burst _ => frames burst.portid burst.frames
  have serves : DramblastServes crc id backends (flowKeys bursts) ht := .init zero idle
  have serves' : MaglevServes crc cap backends (flowKeys bursts) map := .init zero'
  have among (burst) (mem : burst ∈ bursts) (m) (mem' : m ∈ burst.frames) (key : flowhash m ≠ 0) :
      flowhash m ∈ flowKeys bursts := mem_flowKeys mem mem' key
  obtain ⟨m', run', counts'⟩ := serves'.polls ports bursts { conntrack := map, stats }
    (few.trans (Nat.sub_le _ _)) among
  obtain ⟨d', run, counts⟩ := serves.polls ports bursts { ht, macAddrs, stats } (len ▸ few) among
  rw [run', sent]
  exact ⟨rfl, d', run, counts.trans counts'.symm⟩

/-- The modes on a burst that is received twice, with two flows and a frame without a flow key. -/
theorem modes_agree_with_none_udp :
    let backends := populateLut fun _ => 0
    let out := ([udpBurst, udpBurst].zip (nonePolls ⟨fun p => p + 1, fun _ _ => 7⟩
        (fun _ => ⟨0, 0, 0, 0⟩) [udpBurst, udpBurst]).1).map fun (burst, sent) =>
      List.zipWith (fun m m' => if flowhash m = 0 then m else m') burst.frames sent
    (maglevPolls ⟨fun p => p + 1, fun _ _ => 7⟩ mmCrc32U64 eightSlots backends
        { conntrack := ⟨fun _ => ⟨0, 0⟩⟩, stats := fun _ => ⟨0, 0, 0, 0⟩ } [udpBurst, udpBurst]).1 =
      out :=
  (modes_agree_with_none mmCrc32U64 0 eightSlots ⟨fun p => p + 1, fun _ _ => 7⟩ (fun _ => 0)
    (dramblastInit 8 ⟨3, by decide, by decide, rfl⟩
      fun _ _ => { k := 0, idx := 0, visitCount := 0, id := 0 })
    ⟨fun _ => ⟨0, 0⟩⟩ (fun _ => 3) (fun _ => ⟨0, 0, 0, 0⟩) [udpBurst, udpBurst] rfl
    (fun _ _ => rfl) rfl (fun _ _ => rfl) (by decide +kernel)).1

end NetBlast.L2fwd
