import NetBlast.L2fwd.Statistics

/-!
# What forwarding does to a burst

`l2fwd_mac_updating` writes the two addresses at the start of a frame and nothing else, so the frame
that is sent belongs to the flow of the frame that was received. In each of the three branches of
`l2fwd_main_loop` the frames of a burst are answered with a backend or with 0, and those with a
backend are rewritten. `maglevPoll_answers` and `dramblastPoll_answers` say so of the two modes with
a table, whatever their tables hold; the third branch, of the mode `none`, is modelled here.
-/

namespace NetBlast.L2fwd
open Hashmap Dramblast

/-- Two frames that differ in their addresses at most. -/
def SamePacket (m m' : Frame) : Prop :=
  ∀ i, 12 ≤ i → m' i = m i

/-- A frame is the packet it was. -/
lemma SamePacket.refl (m : Frame) : SamePacket m m := fun _ _ => rfl

/-- Two rewrites of a packet are one. -/
lemma SamePacket.trans {m m' m'' : Frame} (same : SamePacket m m') (same' : SamePacket m' m'') :
    SamePacket m m'' := fun i le => (same' i le).trans (same i le)

/-- Frames are the packets they were. -/
lemma samePackets_refl (ms : List Frame) : List.Forall₂ SamePacket ms ms :=
  List.forall₂_same.mpr fun m _ => SamePacket.refl m

/-- Two rewrites of a burst are one. -/
lemma samePackets_trans {ms ms' ms'' : List Frame} (same : List.Forall₂ SamePacket ms ms')
    (same' : List.Forall₂ SamePacket ms' ms'') : List.Forall₂ SamePacket ms ms'' := by
  induction same generalizing ms'' with
  | nil => exact same'
  | cons here _ ih =>
    cases same' with
    | cons here' rest' => exact .cons (here.trans here') (ih rest')

/-- The flow key is behind the addresses. -/
lemma SamePacket.flowhash_eq {m m' : Frame} (same : SamePacket m m') : flowhash m' = flowhash m := by
  have slice (off len) (le : 12 ≤ off) : Frame.slice m' off len = Frame.slice m off len := by
    unfold Frame.slice
    exact List.map_congr_left fun i _ => same _ (by omega)
  unfold flowhash
  dsimp only
  rw [same _ (by decide), same _ (by decide), slice (ethHeaderLen + ipv4SrcdstOffset) _ (by decide),
    slice (ethHeaderLen + ipv4ProtoOffset) _ (by decide),
    slice (ethHeaderLen + _) _ (by unfold ethHeaderLen; omega)]

section
variable (ports : L2fwdPorts)

/-- The destination is the answer, the source the address of the destination port, and the rest of
    the frame is as it was. -/
lemma l2fwdMacUpdating_apply (m : Frame) (destPortid : Nat) (mac : BitVec 64) (i : Nat) :
    l2fwdMacUpdating ports m destPortid mac i =
      if i < 6 then mac.extractLsb' (8 * i) 8
      else if h : 6 ≤ i ∧ i < 12 then ports.portsEthAddr destPortid ⟨i - 6, by omega⟩
      else m i := by
  unfold l2fwdMacUpdating etherAddrCopy storeU64
  by_cases low : i < 6
  · rw [dif_neg (by omega), if_pos (by omega), if_pos low, Nat.sub_zero]
  · by_cases high : i < 12
    · rw [dif_pos (by omega), if_neg low, dif_pos (by omega)]
    · rw [dif_neg (by omega), if_neg (by omega), if_neg low, dif_neg (by omega)]

/-- The addresses are no part of the packet. -/
lemma l2fwdMacUpdating_same (m : Frame) (destPortid : Nat) (mac : BitVec 64) :
    SamePacket m (l2fwdMacUpdating ports m destPortid mac) := by
  intro i le
  rw [l2fwdMacUpdating_apply, if_neg (by omega), dif_neg (by omega)]

/-- What becomes of a frame that is answered with a backend, or with 0. -/
def answerFrame (portid : Nat) (m : Frame) (mac : BitVec 64) : Frame :=
  if mac = 0 then m else l2fwdMacUpdating ports m (ports.dstPorts portid) mac

/-- What becomes of the frames of a burst that are answered. -/
def answerFrames (portid : Nat) (burst : List Frame) (answers : List (BitVec 64)) : List Frame :=
  List.zipWith (answerFrame ports portid) burst answers

/-- The number of frames that are answered with a backend. -/
def foundIn (answers : List (BitVec 64)) : Nat :=
  answers.countP fun mac => mac ≠ 0

/-- An answered frame is the same packet. -/
lemma answerFrame_same (portid : Nat) (m : Frame) (mac : BitVec 64) :
    SamePacket m (answerFrame ports portid m mac) := by
  unfold answerFrame
  split
  · exact SamePacket.refl m
  · exact l2fwdMacUpdating_same ports m _ mac

/-- All frames are answered. -/
lemma length_answerFrames (portid : Nat) {burst : List Frame} {answers : List (BitVec 64)}
    (length : answers.length = burst.length) :
    (answerFrames ports portid burst answers).length = burst.length := by
  unfold answerFrames
  rw [List.length_zipWith, length, Nat.min_self]

/-- An answered burst consists of the same packets. -/
lemma answerFrames_same (portid : Nat) (burst : List Frame) (answers : List (BitVec 64))
    (length : answers.length = burst.length) :
    List.Forall₂ SamePacket burst (answerFrames ports portid burst answers) := by
  induction burst generalizing answers with
  | nil => exact List.Forall₂.nil
  | cons m burst ih =>
    cases answers with
    | nil => cases length
    | cons mac answers =>
      exact .cons (answerFrame_same ports portid m mac) (ih answers (Nat.succ.inj length))

/-- No more answers are backends than there are answers. -/
lemma foundIn_le (answers : List (BitVec 64)) : foundIn answers ≤ answers.length :=
  List.countP_le_length

/-- A poll in the mode `none`: every frame goes to one backend. -/
def nonePoll (stats : Statistics) (burst : Burst) : List Frame × Statistics :=
  let stats := countRx stats burst
  if burst.frames.length > 0 then
    let out := burst.frames.map fun m =>
      let dstPort := ports.dstPorts burst.portid
      let mac := 0xff
      l2fwdMacUpdating ports m dstPort mac
    (out, stats.modify burst.portid fun s =>
      { s with fwded := s.fwded + BitVec.ofNat 64 burst.frames.length })
  else ([], stats)

/-- The polls of a run in the mode `none`. -/
def nonePolls : Statistics → List Burst → List (List Frame) × Statistics
  | stats, [] => ([], stats)
  | stats, burst :: bursts =>
    let (out, stats) := nonePoll ports stats burst
    let (outs, stats) := nonePolls stats bursts
    (out :: outs, stats)

/-- What a poll does: frames are answered, and counted by their answers. -/
structure PollAnswers (burst : Burst) (stats : Statistics) (out : List Frame) (stats' : Statistics)
    (answers : List (BitVec 64)) : Prop where
  length : answers.length = burst.frames.length
  frames : out = answerFrames ports burst.portid burst.frames answers
  counts : stats' =
    stats.modify burst.portid fun s => s.poll burst.frames.length (foundIn answers)

/-- Every frame has been found. -/
lemma foundIn_replicate (n : Nat) : foundIn (List.replicate n 0xff) = n := by
  unfold foundIn
  rw [List.countP_replicate, if_pos (by decide)]

/-- The mode `none` answers every frame with the same backend. -/
lemma nonePoll_answers (stats : Statistics) (burst : Burst) :
    PollAnswers ports burst stats (nonePoll ports stats burst).1 (nonePoll ports stats burst).2
      (List.replicate burst.frames.length 0xff) where
  length := List.length_replicate
  frames := by
    have all (frames : List Frame) : answerFrames ports burst.portid frames
        (List.replicate frames.length 0xff) =
          frames.map fun m => l2fwdMacUpdating ports m (ports.dstPorts burst.portid) 0xff := by
      induction frames with
      | nil => rfl
      | cons m frames ih =>
        rw [List.length_cons, List.replicate_succ, answerFrames, List.zipWith_cons_cons,
          ← answerFrames, ih]
        rfl
    unfold nonePoll
    dsimp only
    split
    · exact (all burst.frames).symm
    · next none =>
      rw [List.eq_nil_of_length_eq_zero (Nat.eq_zero_of_not_pos none)]
      rfl
  counts := by
    unfold nonePoll
    dsimp only
    rw [foundIn_replicate, countRx_eq]
    split
    · rw [Statistics.modify_modify]
      simp [PortStatistics.poll]
    · next none =>
      rw [Nat.eq_zero_of_not_pos none]
      simp [PortStatistics.poll]

/-- The maglev loop answers the frames one by one. -/
lemma maglevFrames_answers (crc : BitVec 64 → BitVec 64) (cap : Capacity) (lookup : LookUpTable)
    (portid : Nat) (burst : List Frame) (out : List Frame) (lcore : MaglevLcore) :
    ∃ answers : List (BitVec 64), answers.length = burst.length ∧
      ∃ conntrack, burst.foldl (maglevFrame ports crc cap lookup portid) (out, lcore) =
        (out ++ answerFrames ports portid burst answers,
          { conntrack
            stats := lcore.stats.modify portid fun s =>
              s.count (foundIn answers) (burst.length - foundIn answers) }) := by
  induction burst generalizing out lcore with
  | nil =>
    refine ⟨[], rfl, lcore.conntrack, ?_⟩
    simp [answerFrames, foundIn, PortStatistics.count, Statistics.modify]
  | cons m burst ih =>
    set mac := (maglevProcessFrame crc cap lookup lcore.conntrack m).1 with def_mac
    have step : maglevFrame ports crc cap lookup portid (out, lcore) m =
        (out ++ [answerFrame ports portid m mac],
          { conntrack := (maglevProcessFrame crc cap lookup lcore.conntrack m).2
            stats := lcore.stats.modify portid fun s =>
              s.count (foundIn [mac]) (1 - foundIn [mac]) }) := by
      unfold maglevFrame answerFrame foundIn
      dsimp only
      rw [← def_mac, List.countP_singleton]
      by_cases none : mac = 0
      · rw [if_pos none, if_pos none, if_neg (by simp [none])]
        simp [PortStatistics.count]
      · rw [if_neg none, if_neg none, if_pos (by simpa using none)]
        simp [PortStatistics.count]
    obtain ⟨answers, length, conntrack, run⟩ := ih (out ++ [answerFrame ports portid m mac])
      { conntrack := (maglevProcessFrame crc cap lookup lcore.conntrack m).2
        stats := lcore.stats.modify portid fun s =>
          s.count (foundIn [mac]) (1 - foundIn [mac]) }
    have le := foundIn_le answers
    have le_one : foundIn [mac] ≤ 1 := foundIn_le [mac]
    have found : foundIn (mac :: answers) = foundIn [mac] + foundIn answers := by
      unfold foundIn
      rw [← List.countP_append, List.singleton_append]
    have unmapped : 1 - foundIn [mac] + (burst.length - foundIn answers) =
        burst.length + 1 - (foundIn [mac] + foundIn answers) := by omega
    refine ⟨mac :: answers, by rw [List.length_cons, length, List.length_cons], conntrack, ?_⟩
    rw [List.foldl_cons, step, run, Statistics.modify_modify, found, List.length_cons]
    simp only [PortStatistics.count_count, unmapped, List.append_assoc, List.singleton_append]
    rfl

/-- A poll in the maglev mode answers its frames, whatever the connection table holds. -/
lemma maglevPoll_answers (crc : BitVec 64 → BitVec 64) (cap : Capacity) (lookup : LookUpTable)
    (lcore : MaglevLcore) (burst : Burst) :
    ∃ answers, PollAnswers ports burst lcore.stats (maglevPoll ports crc cap lookup lcore burst).1
      (maglevPoll ports crc cap lookup lcore burst).2.stats answers := by
  obtain ⟨answers, length, conntrack, run⟩ := maglevFrames_answers ports crc cap lookup burst.portid
    burst.frames [] { lcore with stats := countRx lcore.stats burst }
  refine ⟨answers, length, ?_, ?_⟩
  · rw [maglevPoll, run]
    rfl
  · rw [maglevPoll, run]
    exact countRx_count lcore.stats burst (foundIn answers)

/-- An answer that comes later changes its frame, if it was answered with 0 so far. -/
lemma answerFrames_set (portid : Nat) {burst : List Frame} {answers : List (BitVec 64)} {j : Nat}
    {mac : BitVec 64} (unanswered : answers[j]? = some 0) (ne : mac ≠ 0) :
    (answerFrames ports portid burst answers).modify j
        (fun m => l2fwdMacUpdating ports m (ports.dstPorts portid) mac) =
      answerFrames ports portid burst (answers.set j mac) := by
  unfold answerFrames
  induction burst generalizing answers j with
  | nil => simp
  | cons m burst ih =>
    cases answers with
    | nil => cases unanswered
    | cons answer answers =>
      cases j with
      | zero =>
        rw [List.getElem?_cons_zero, Option.some.injEq] at unanswered
        rw [List.zipWith_cons_cons, List.modify_zero_cons, List.set_cons_zero,
          List.zipWith_cons_cons, unanswered, answerFrame, if_pos rfl, answerFrame, if_neg ne]
      | succ j =>
        rw [List.getElem?_cons_succ] at unanswered
        rw [List.zipWith_cons_cons, List.modify_succ_cons, List.set_cons_succ,
          List.zipWith_cons_cons, ih unanswered]

/-- A backend for an unanswered frame is one more. -/
lemma foundIn_set {answers : List (BitVec 64)} {j : Nat} {mac : BitVec 64}
    (unanswered : answers[j]? = some 0) (ne : mac ≠ 0) :
    foundIn (answers.set j mac) = foundIn answers + 1 := by
  obtain ⟨lt, zero⟩ := List.getElem?_eq_some_iff.mp unanswered
  unfold foundIn
  rw [List.countP_set lt, zero, if_neg (by simp), if_pos (by simpa using ne), Nat.sub_zero]

/-- The loop over the gathered frames answers them at their places. -/
lemma rewriteFrames_answers (portid : Nat) (macAddrs : Nat → BitVec 64) (burst : List Frame)
    (places : List (Nat × Nat)) (answers : List (BitVec 64)) (found : Nat)
    (nodup : (places.map (·.1)).Nodup) (unanswered : ∀ place ∈ places, answers[place.1]? = some 0) :
    ∃ answers' : List (BitVec 64), answers'.length = answers.length ∧
      foundIn answers ≤ foundIn answers' ∧
      places.foldl (rewriteFrame ports portid macAddrs)
          (answerFrames ports portid burst answers, found) =
        (answerFrames ports portid burst answers', found + (foundIn answers' - foundIn answers)) := by
  induction places generalizing answers found with
  | nil => exact ⟨answers, rfl, le_rfl, by simp⟩
  | cons place places ih =>
    obtain ⟨fresh, nodup⟩ := List.nodup_cons.mp nodup
    have here := unanswered place (by simp)
    rw [List.foldl_cons, rewriteFrame]
    by_cases none : macAddrs place.2 = 0
    · rw [if_neg (by rw [pos_iff_ne_zero]; exact not_not.mpr none)]
      exact ih answers found nodup fun p mem => unanswered p (by simp [mem])
    · rw [if_pos (pos_iff_ne_zero.mpr none), answerFrames_set ports portid here none]
      have unanswered' (p) (mem : p ∈ places) : (answers.set place.1 (macAddrs place.2))[p.1]? = some 0 := by
        have other : place.1 ≠ p.1 := by
          intro e
          apply fresh
          dsimp only
          rw [e]
          exact List.mem_map_of_mem (f := fun place => place.1) mem
        rw [List.getElem?_set_ne other]
        exact unanswered p (by simp [mem])
      obtain ⟨answers', length, more, run⟩ := ih _ (found + 1) nodup unanswered'
      rw [List.length_set] at length
      rw [foundIn_set here none] at more run
      refine ⟨answers', length, by omega, ?_⟩
      rw [run]
      congr 1
      omega

/-- The frames that are gathered stand at different places of the burst. -/
lemma hashable_places (burst : List Frame) :
    ((hashable burst).map (·.2)).Nodup ∧ ∀ j ∈ (hashable burst).map (·.2), j < burst.length := by
  have sub : ((hashable burst).map (·.2)).Sublist (List.range burst.length) := by
    have all : burst.zipIdx.map (·.2) = List.range burst.length := by
      rw [List.zipIdx_map_snd, List.range_eq_range']
    rw [← all]
    exact List.filter_sublist.map _
  exact ⟨sub.nodup List.nodup_range, fun j mem => List.mem_range.mp (sub.subset mem)⟩

/-- Frames without an answer are left alone. -/
lemma answerFrames_none (portid : Nat) (burst : List Frame) :
    answerFrames ports portid burst (List.replicate burst.length 0) = burst := by
  induction burst with
  | nil => rfl
  | cons m burst ih =>
    rw [List.length_cons, List.replicate_succ, answerFrames, List.zipWith_cons_cons, ← answerFrames,
      ih, answerFrame, if_pos rfl]

/-- A poll in the dramblast mode answers its frames, whatever the table holds. -/
lemma dramblastPoll_answers (crc : BitVec 64 → BitVec 64) (id : Nat) (backends : LookUpTable)
    (lcore : DramblastLcore) (burst : Burst) {out lcore'}
    (run : dramblastPoll ports crc id backends lcore burst = some (out, lcore')) :
    ∃ answers, PollAnswers ports burst lcore.stats out lcore'.stats answers := by
  unfold dramblastPoll at run
  dsimp only at run
  split at run
  · obtain ⟨st, answered, run⟩ := Option.bind_eq_some_iff.mp run
    obtain ⟨nodup, inside⟩ := hashable_places burst.frames
    rw [collect_eq, ← hashable] at run
    obtain ⟨answers, length, _, rewritten⟩ := rewriteFrames_answers ports burst.portid st.ret
      burst.frames ((hashable burst.frames).map (·.2)).zipIdx
      (List.replicate burst.frames.length 0) 0 (by rwa [List.zipIdx_map_fst]) (by
        intro place mem
        have here := inside place.1 (List.fst_mem_of_mem_zipIdx mem)
        rw [List.getElem?_replicate, if_pos here])
    have none : foundIn (List.replicate burst.frames.length 0) = 0 := by
      unfold foundIn
      rw [List.countP_replicate, if_neg (by decide)]
    rw [answerFrames_none, none, Nat.zero_add, Nat.sub_zero] at rewritten
    dsimp only at run
    rw [rewritten] at run
    cases run
    rw [List.length_replicate] at length
    exact ⟨answers, length, rfl, countRx_count lcore.stats burst (foundIn answers)⟩
  · next none =>
    cases run
    have empty : burst.frames = [] := List.eq_nil_of_length_eq_zero (Nat.eq_zero_of_not_pos none)
    refine ⟨[], by rw [empty]; rfl, by rw [empty]; rfl, ?_⟩
    dsimp only
    rw [countRx_eq, empty]
    simp [PortStatistics.poll, foundIn]

/-- A poll in one of the modes, and the counters before and after it. -/
inductive ModePoll (stats : Statistics) (burst : Burst) : List Frame → Statistics → Prop where
  | maglev (crc : BitVec 64 → BitVec 64) (cap : Capacity) (lookup : LookUpTable)
      (conntrack : MaglevHashmap) {out lcore} :
    maglevPoll ports crc cap lookup { conntrack, stats } burst = (out, lcore) →
    ModePoll stats burst out lcore.stats
  | dramblast (crc : BitVec 64 → BitVec 64) (id : Nat) (backends : LookUpTable) (ht : DramblastHt)
      (macAddrs : Nat → BitVec 64) {out lcore} :
    dramblastPoll ports crc id backends { ht, macAddrs, stats } burst = some (out, lcore) →
    ModePoll stats burst out lcore.stats
  | none {out stats'} :
    nonePoll ports stats burst = (out, stats') →
    ModePoll stats burst out stats'

/-- Every mode answers the frames of a burst. -/
lemma ModePoll.answers {ports : L2fwdPorts} {stats stats' : Statistics} {burst : Burst}
    {out : List Frame} (poll : ModePoll ports stats burst out stats') :
    ∃ answers, PollAnswers ports burst stats out stats' answers := by
  cases poll with
  | maglev crc cap lookup conntrack run =>
    have answered := maglevPoll_answers ports crc cap lookup { conntrack, stats } burst
    rwa [run] at answered
  | dramblast crc id backends ht macAddrs run =>
    exact dramblastPoll_answers ports crc id backends { ht, macAddrs, stats } burst run
  | none run =>
    have answered := nonePoll_answers ports stats burst
    rw [run] at answered
    exact ⟨_, answered⟩

end

end NetBlast.L2fwd
