import NetBlast.L2fwd.MainLoop

/-!
# Compaction of a burst

The dramblast mode gathers the frames with a flow key, has them answered as one batch, and writes
the answers back to the places of the frames in the burst. `collect_eq` says which frames are
gathered, and `rewrite_eq` says that the places line up: if every gathered frame is answered with
its backend, then every frame of the burst is forwarded as it would be alone.
-/

namespace NetBlast.L2fwd
open Dramblast

/-- The backend of a frame, 0 if it has no flow key. -/
def flowBackend (backends : LookUpTable) (m : Frame) : BitVec 64 :=
  if flowhash m = 0 then 0 else backends.backend (flowhash m)

/-- What becomes of a frame that is forwarded to its backend. -/
def forwardFrame (ports : L2fwdPorts) (backends : LookUpTable) (portid : Nat) (m : Frame) : Frame :=
  if flowBackend backends m = 0 then m
  else l2fwdMacUpdating ports m (ports.dstPorts portid) (flowBackend backends m)

/-- The frames of a burst that have a flow key, with their places. -/
def hashable (burst : List Frame) : List (Frame × Nat) :=
  burst.zipIdx.filter fun m => flowhash m.1 ≠ 0

/-- The batch for the frames `ms`. -/
def batchOf (ms : List (Frame × Nat)) : List DramblastArg :=
  ms.mapIdx fun j m => { k := flowhash m.1, id := BitVec.ofNat 32 j }

variable {ports : L2fwdPorts} {backends : LookUpTable} {portid : Nat}

/-- A word is positive if it is not zero. -/
lemma pos_iff_ne_zero {x : BitVec 64} : x > 0 ↔ x ≠ 0 := by
  rw [gt_iff_lt, BitVec.lt_def, Ne, ← BitVec.toNat_inj]
  simp [Nat.pos_iff_ne_zero]

/-- A batch has an argument for each frame. -/
lemma length_batchOf {ms : List (Frame × Nat)} : (batchOf ms).length = ms.length := by
  simp [batchOf]

/-- The frames with a flow key are among the burst. -/
lemma length_hashable_le {burst : List Frame} : (hashable burst).length ≤ burst.length := by
  have le := List.length_filter_le (fun m : Frame × Nat => flowhash m.1 ≠ 0) burst.zipIdx
  rwa [List.length_zipIdx] at le

/-- The argument at a place has the key of its frame and the place as id. -/
lemma getElem_batchOf {ms : List (Frame × Nat)} {j} (hj : j < ms.length)
    (hj' : j < (batchOf ms).length) :
    (batchOf ms)[j] = { k := flowhash ms[j].1, id := BitVec.ofNat 32 j } := by
  simp [batchOf]

/-- One more frame adds an argument at the end. -/
lemma batchOf_concat {ms : List (Frame × Nat)} {m} :
    batchOf (ms ++ [m]) =
      batchOf ms ++ [{ k := flowhash m.1, id := BitVec.ofNat 32 ms.length }] := by
  simp [batchOf]

/-- The first loop gathers the places of the hashable frames and their batch. -/
lemma collect_eq (ms : List (Frame × Nat)) :
    ms.foldl collectFrame ([], []) =
      ((ms.filter fun m => flowhash m.1 ≠ 0).map (·.2),
        batchOf (ms.filter fun m => flowhash m.1 ≠ 0)) := by
  induction ms using List.reverseRecOn with
  | nil => rfl
  | append_singleton ms m ih =>
    rw [List.foldl_concat, ih, List.filter_append, collectFrame]
    by_cases key : flowhash m.1 = 0
    · have skipped : [m].filter (fun m => flowhash m.1 ≠ 0) = [] := by
        rw [List.filter_singleton, decide_eq_false (not_not.mpr key)]
        rfl
      rw [if_neg fun pos => pos_iff_ne_zero.mp pos key, skipped, List.append_nil]
    · have kept : [m].filter (fun m => flowhash m.1 ≠ 0) = [m] := by
        rw [List.filter_singleton, decide_eq_true key]
        rfl
      rw [if_pos (pos_iff_ne_zero.mpr key), kept, List.map_append, batchOf_concat, length_batchOf]
      rfl

/-- The rewriting of one frame, for a frame that is answered with its backend. -/
def rewriteAt (ports : L2fwdPorts) (backends : LookUpTable) (portid : Nat) (s : List Frame × Nat)
    (m : Frame × Nat) : List Frame × Nat :=
  if flowBackend backends m.1 ≠ 0 then
    (s.1.modify m.2 fun f => l2fwdMacUpdating ports f (ports.dstPorts portid)
      (flowBackend backends m.1), s.2 + 1)
  else s

/-- The second loop rewrites the frame that each answer is for. -/
lemma rewrite_answers {macAddrs : Nat → BitVec 64} (ms : List (Frame × Nat)) (from_ : Nat)
    (s : List Frame × Nat)
    (answered : ∀ j (hj : j < ms.length), macAddrs (from_ + j) = flowBackend backends ms[j].1) :
    ((ms.map (·.2)).zipIdx from_).foldl (rewriteFrame ports portid macAddrs) s =
      ms.foldl (rewriteAt ports backends portid) s := by
  induction ms generalizing from_ s with
  | nil => rfl
  | cons m ms ih =>
    have here := answered 0 (by simp)
    have same : rewriteFrame ports portid macAddrs s (m.2, from_) =
        rewriteAt ports backends portid s m := by
      rw [Nat.add_zero, List.getElem_cons_zero] at here
      simp only [rewriteFrame, rewriteAt, here, pos_iff_ne_zero]
    rw [List.map_cons, List.zipIdx_cons, List.foldl_cons, List.foldl_cons, same]
    refine ih (from_ + 1) _ fun j hj => ?_
    have next := answered (j + 1) (by simpa using hj)
    rw [List.getElem_cons_succ] at next
    rw [← next]
    congr 1
    omega

/-- Rewriting every frame at its own place forwards every frame. -/
lemma rewrite_places (ports : L2fwdPorts) (backends : LookUpTable) (portid : Nat)
    (before burst : List Frame) (found : Nat) :
    (burst.zipIdx before.length).foldl (rewriteAt ports backends portid) (before ++ burst, found) =
      (before ++ burst.map (forwardFrame ports backends portid),
        found + burst.countP fun m => flowBackend backends m ≠ 0) := by
  induction burst generalizing before found with
  | nil => simp
  | cons m burst ih =>
    have step : rewriteAt ports backends portid (before ++ m :: burst, found) (m, before.length) =
        (before ++ [forwardFrame ports backends portid m] ++ burst,
          found + if flowBackend backends m ≠ 0 then 1 else 0) := by
      unfold rewriteAt forwardFrame
      by_cases none : flowBackend backends m = 0
      · rw [if_neg (not_not.mpr none), if_pos none, if_neg (not_not.mpr none), List.append_assoc]
        rfl
      · have place (f : Frame → Frame) :
            (before ++ m :: burst).modify before.length f = before ++ f m :: burst := by
          rw [List.modify_eq_take_cons_drop (by simp)]
          simp
        rw [if_pos none, if_neg none, if_pos none, place, List.append_assoc]
        rfl
    have next := ih (before ++ [forwardFrame ports backends portid m])
      (found + if flowBackend backends m ≠ 0 then 1 else 0)
    rw [List.length_append, List.length_singleton] at next
    rw [List.zipIdx_cons, List.foldl_cons, step, next, List.countP_cons, List.map_cons]
    simp [Nat.add_assoc, Nat.add_comm]

/-- If the hashable frames are answered with their backends, every frame of the burst is
    forwarded. -/
lemma rewrite_eq (ports : L2fwdPorts) (backends : LookUpTable) (portid : Nat)
    (macAddrs : Nat → BitVec 64) (burst : List Frame)
    (answered : ∀ j (hj : j < (hashable burst).length),
      macAddrs j = flowBackend backends (hashable burst)[j].1) :
    ((hashable burst).map (·.2)).zipIdx.foldl (rewriteFrame ports portid macAddrs) (burst, 0) =
      (burst.map (forwardFrame ports backends portid),
        burst.countP fun m => flowBackend backends m ≠ 0) := by
  rw [rewrite_answers (hashable burst) 0 (burst, 0) (by simpa using answered), hashable,
    List.foldl_filter]
  -- a frame without a flow key has no backend, so the filter makes no difference
  have all : (fun s (m : Frame × Nat) => if decide (flowhash m.1 ≠ 0) = true then
      rewriteAt ports backends portid s m else s) = rewriteAt ports backends portid := by
    funext s m
    split
    · rfl
    · next key =>
      rw [decide_eq_true_eq, not_not] at key
      have none : flowBackend backends m.1 = 0 := if_pos key
      rw [rewriteAt, if_neg (not_not.mpr none)]
  rw [all]
  have places := rewrite_places ports backends portid [] burst 0
  rwa [List.nil_append, List.nil_append, Nat.zero_add] at places

end NetBlast.L2fwd
