import NetBlast.Dramblast.Lookup
import NetBlast.Ring.Fifo

/-!
# The batched lookup

`dramblast_find_batch_sync` interleaves the lookups of a batch through a ring of 64 items. `FindInv`
is the invariant of its loops: the ring holds exactly the pushed arguments without a result, and the
results written, the answers owed to the ring and the answers owed to the rest of the batch are the
batch looked up one by one. `FindVisits` lists the states the loops pass through, with the pushes
and pops so far. `find_batch_sync_eq_lookups` is the result: the loops end, each argument gets its
own answer, and the ring never holds more than 63 items nor is popped when it is empty.
-/

namespace NetBlast.Dramblast
open Probing Ring

namespace DramblastQueue
variable {α : Type} (q : DramblastQueue α)

/-- The items in the ring, oldest first. -/
def contents : List α :=
  window q.findQueue dramblastFindQueueSize q.findQueueTail q.sz

/-- The head is within the ring. -/
lemma head_lt_size : q.findQueueHead < dramblastFindQueueSize :=
  q.size_eq ▸ q.head_lt

/-- The tail is within the ring. -/
lemma tail_lt_size : q.findQueueTail < dramblastFindQueueSize :=
  q.size_eq ▸ q.tail_lt

/-- Masking an index is reducing it modulo the size of the ring. -/
lemma land_size (x : Nat) : x &&& (q.findQueueSize - 1) = x % dramblastFindQueueSize := by
  rw [q.size_eq]
  exact land_pred (m := 6) rfl

/-- The number of items is the distance from the tail to the head. -/
lemma sz_eq : q.sz = ringCount dramblastFindQueueSize q.findQueueHead q.findQueueTail := by
  have hh := q.head_lt_size
  have ht := q.tail_lt_size
  unfold sz ringCount
  rw [q.land_size]
  unfold dramblastFindQueueSize at *
  omega

/-- There are as many items as `sz` says. -/
@[simp] lemma length_contents : q.contents.length = q.sz :=
  length_window

/-- One slot of the ring is always free. -/
lemma sz_lt : q.sz < dramblastFindQueueSize := by
  rw [q.sz_eq]
  exact ringCount_lt q.tail_lt_size

/-- An idle ring is empty, and an empty ring is idle. -/
lemma sz_eq_zero_iff : q.sz = 0 ↔ q.findQueueHead = q.findQueueTail := by
  rw [q.sz_eq]
  constructor
  · intro e
    have at_head := slotAt_ringCount q.head_lt_size q.tail_lt_size
    rw [e, slotAt_zero q.tail_lt_size] at at_head
    exact at_head.symm
  · intro e
    rw [e, ringCount_self q.tail_lt_size]

/-- A push adds an item. -/
lemma sz_push {item} (room : q.sz < dramblastFindQueueSize - 1) : (q.push item).sz = q.sz + 1 := by
  have pos := q.tail_lt_size
  rw [sz_eq] at room ⊢
  rw [q.sz_eq]
  simp only [push, q.land_size]
  exact ringCount_push (by omega)

/-- Pushing onto a ring with a spare cell appends. -/
lemma contents_push {item} (room : q.sz < dramblastFindQueueSize - 1) :
    (q.push item).contents = q.contents ++ [item] := by
  unfold contents
  rw [q.sz_push room]
  have at_head := slotAt_ringCount q.head_lt_size q.tail_lt_size
  rw [← q.sz_eq] at at_head
  simp only [push]
  rw [← window_push (x := item) (by omega), at_head]

/-- A pop takes an item. -/
lemma sz_pop (live : 0 < q.sz) : q.pop.2.sz + 1 = q.sz := by
  rw [sz_eq] at live ⊢
  rw [q.sz_eq]
  simp only [pop, q.land_size]
  exact ringCount_pop q.head_lt_size q.tail_lt_size live

/-- Popping a ring that is not empty takes the oldest item. -/
lemma contents_pop (live : 0 < q.sz) : q.contents = q.pop.1 :: q.pop.2.contents := by
  have sz := q.sz_pop live
  unfold contents
  rw [← sz, window_pop q.tail_lt_size]
  simp only [pop, q.land_size]

end DramblastQueue

variable {crc : BitVec 64 → BitVec 64} {id : Nat}

/-- The number of rounds an item can still take. -/
def rounds (len : Nat) (item : DramblastQueueItem) : Nat :=
  (len - item.visitCount) / 4

/-- An item whose visit count is within the probe bound. -/
def Bounded (len : Nat) (item : DramblastQueueItem) : Prop :=
  4 ∣ item.visitCount ∧ item.visitCount < len

/-- The invariant of the loops of `dramblast_find_batch_sync`. -/
structure FindInv (crc : BitVec 64 → BitVec 64) (id : Nat) (ht₀ : DramblastHt)
    (args : List DramblastArg) (s : FindState) : Prop where
  table : s.ht.table = ht₀.table
  len : s.ht.len = ht₀.len
  others : ∀ j, j ≠ id → s.ht.queues j = ht₀.queues j
  head_le : s.argsHead ≤ args.length
  pending : (s.ht.queues id).sz + s.results.length = s.argsHead
  bounded : ∀ item ∈ (s.ht.queues id).contents, Bounded ht₀.len item
  answers : (s.results ++ (s.ht.queues id).contents.map (lookupFrom ht₀) ++
    (args.drop s.argsHead).map (lookupOne crc ht₀)).Perm (args.map (lookupOne crc ht₀))

/-- The rounds the loop has left: every item visits each remaining bucket once. -/
def roundsLeft (id : Nat) (ht₀ : DramblastHt) (args : List DramblastArg) (s : FindState) : Nat :=
  ((s.ht.queues id).contents.map (rounds ht₀.len)).sum +
    (args.length - s.argsHead) * (ht₀.len / 4)

/-- The invariant holds before the first step. -/
lemma FindInv.init {ht₀ args} (idle : (ht₀.queues id).sz = 0) :
    FindInv crc id ht₀ args { ht := ht₀, argsHead := 0, results := [] } where
  table := rfl
  len := rfl
  others _ _ := rfl
  head_le := Nat.zero_le _
  pending := by rw [idle]; rfl
  bounded := by
    have empty : (ht₀.queues id).contents = [] := by
      rw [← List.length_eq_zero_iff, DramblastQueue.length_contents, idle]
    simp [empty]
  answers := by
    have empty : (ht₀.queues id).contents = [] := by
      rw [← List.length_eq_zero_iff, DramblastQueue.length_contents, idle]
    simp [empty]

/-- A step of the lookup sees the table and its length only. -/
lemma lookupStep_congr {ht ht' : DramblastHt} (et : ht'.table = ht.table) (el : ht'.len = ht.len) :
    lookupStep ht' = lookupStep ht := by
  have words : bucketWord ht' = bucketWord ht := by
    funext idx w
    unfold bucketWord
    rw [et]
  funext item
  unfold lookupStep mm512LoadSi512
  rw [words, el]

/-- A push on the ring of an lcore. -/
@[simp] lemma push_queues {ht : DramblastHt} {idx k vc item} :
    (dramblastPushQueue ht idx k vc item id).queues id =
      (ht.queues id).push { k, idx, visitCount := vc, id := item } := by
  unfold dramblastPushQueue
  simp

/-- A push leaves the other rings alone. -/
lemma push_queues_of_ne {ht : DramblastHt} {idx k vc item j} (ne : j ≠ id) :
    (dramblastPushQueue ht idx k vc item id).queues j = ht.queues j :=
  Function.update_of_ne ne ..

/-- A pop leaves the other rings alone. -/
lemma pop_queues_of_ne {ht : DramblastHt} {j} (ne : j ≠ id) :
    (dramblastPopQueue ht id).2.queues j = ht.queues j :=
  Function.update_of_ne ne ..

/-- Pushing the next argument keeps the invariant and costs no round. -/
lemma FindInv.push {ht₀ args s arg} (inv : FindInv crc id ht₀ args s)
    (next : args.drop s.argsHead = arg :: args.drop (s.argsHead + 1))
    (room : dramblastGetQueueSz s.ht id < dramblastFindQueueSize - 1) :
    FindInv crc id ht₀ args (findPush crc id arg s) ∧
      roundsLeft id ht₀ args (findPush crc id arg s) = roundsLeft id ht₀ args s := by
  have pos := ht₀.four_le
  have more : s.argsHead < args.length := by
    by_contra le
    rw [List.drop_eq_nil_of_le (by omega)] at next
    cases next
  have queue : (findPush crc id arg s).ht.queues id =
      (s.ht.queues id).push (startItem crc ht₀ arg) := by
    simp only [findPush, push_queues, startItem, dramblastHash_congr inv.len]
  have head : (findPush crc id arg s).argsHead = s.argsHead + 1 := rfl
  have results : (findPush crc id arg s).results = s.results := rfl
  refine ⟨⟨inv.table, inv.len, ?_, ?_, ?_, ?_, ?_⟩, ?_⟩
  · intro j ne
    exact (push_queues_of_ne ne).trans (inv.others j ne)
  · rw [head]
    exact more
  · rw [queue, DramblastQueue.sz_push _ room, head, results, ← inv.pending]
    omega
  · intro item
    rw [queue, DramblastQueue.contents_push _ room, List.mem_append, List.mem_singleton]
    rintro (old | rfl)
    · exact inv.bounded item old
    · exact ⟨Nat.dvd_zero _, by simp only [startItem]; omega⟩
  · have answers := inv.answers
    rw [next, List.map_cons] at answers
    rw [queue, DramblastQueue.contents_push _ room, head, results, List.map_append]
    refine List.Perm.trans (List.Perm.of_eq ?_) answers
    simp only [List.append_assoc, List.map_singleton, List.singleton_append]
    rfl
  · unfold roundsLeft
    rw [queue, DramblastQueue.contents_push _ room, head, List.map_append, List.sum_append]
    obtain ⟨d, ed⟩ : ∃ d, args.length - s.argsHead = d + 1 :=
      ⟨args.length - s.argsHead - 1, by omega⟩
    rw [ed, show args.length - (s.argsHead + 1) = d by omega, Nat.add_mul]
    simp only [rounds, startItem, List.map_singleton, List.sum_singleton]
    omega

/-- After the inner loop the ring is full or the batch is exhausted. -/
lemma FindInv.refill {ht₀ args s} (inv : FindInv crc id ht₀ args s) :
    FindInv crc id ht₀ args (findRefill crc id args s) ∧
      roundsLeft id ht₀ args (findRefill crc id args s) = roundsLeft id ht₀ args s ∧
      (findRefill crc id args s).results = s.results ∧
      ¬ ((findRefill crc id args s).argsHead < args.length ∧
        dramblastGetQueueSz (findRefill crc id args s).ht id < dramblastFindQueueSize - 1) := by
  fun_induction findRefill crc id args s with
  | case1 s more ih =>
    obtain ⟨inv', cost⟩ := inv.push (List.drop_eq_getElem_cons more.1) more.2
    obtain ⟨inv', cost', same, stop⟩ := ih inv'
    exact ⟨inv', cost'.trans cost, same, stop⟩
  | case2 s stop => exact ⟨inv, rfl, rfl, stop⟩

/-- With arguments unanswered, a refilled ring is not empty. -/
lemma FindInv.live {ht₀ args s} (inv : FindInv crc id ht₀ args s)
    (unanswered : s.results.length < args.length)
    (stop : ¬ (s.argsHead < args.length ∧
      dramblastGetQueueSz s.ht id < dramblastFindQueueSize - 1)) :
    0 < (s.ht.queues id).sz := by
  have pending := inv.pending
  have head_le := inv.head_le
  unfold dramblastGetQueueSz dramblastFindQueueSize at stop
  omega

/-- One visit of the oldest item, in terms of `lookupStep`. -/
lemma findProbe_eq {s : FindState} :
    findProbe id s =
      match lookupStep s.ht (s.ht.queues id).pop.1 with
      | .inl r =>
        { s with ht := (dramblastPopQueue s.ht id).2, results := s.results ++ [r] }
      | .inr item =>
        { s with
          ht := dramblastPushQueue (dramblastPopQueue s.ht id).2 item.idx item.k item.visitCount
            item.id id } := by
  unfold findProbe lookupStep
  simp only [dramblastPopQueue, FindState.emit]
  have words : bucketWord { s.ht with queues := Function.update s.ht.queues id (s.ht.queues id).pop.2 }
      = bucketWord s.ht := rfl
  have load : mm512LoadSi512
      { s.ht with queues := Function.update s.ht.queues id (s.ht.queues id).pop.2 } =
      mm512LoadSi512 s.ht := rfl
  rw [words, load]
  cases findCompare s.ht.len (s.ht.queues id).pop.1
    (mm512LoadSi512 s.ht (s.ht.queues id).pop.1.idx) <;> rfl

/-- A step pushes its item back exactly if the lookup goes on. -/
lemma findRepushes_eq {s : FindState} :
    findRepushes id s =
      match lookupStep s.ht (s.ht.queues id).pop.1 with
      | .inl _ => 0
      | .inr _ => 1 := by
  unfold findRepushes lookupStep
  simp only [dramblastPopQueue]
  cases findCompare s.ht.len (s.ht.queues id).pop.1
    (mm512LoadSi512 s.ht (s.ht.queues id).pop.1.idx) <;> rfl

/-- Visiting the oldest item keeps the invariant and takes one of its rounds. -/
lemma FindInv.probe {ht₀ args s} (inv : FindInv crc id ht₀ args s)
    (live : 0 < (s.ht.queues id).sz) :
    FindInv crc id ht₀ args (findProbe id s) ∧
      roundsLeft id ht₀ args (findProbe id s) + 1 ≤ roundsLeft id ht₀ args s := by
  have contents := DramblastQueue.contents_pop _ live
  have sz := DramblastQueue.sz_pop _ live
  have dvd := ht₀.four_dvd
  have bound := inv.bounded (s.ht.queues id).pop.1 (by simp [contents])
  have step := lookupStep_congr inv.table inv.len
  have popped : (dramblastPopQueue s.ht id).2.queues id = (s.ht.queues id).pop.2 := by
    simp [dramblastPopQueue]
  have answers := inv.answers
  rw [contents] at answers
  have left : roundsLeft id ht₀ args s = rounds ht₀.len (s.ht.queues id).pop.1 +
      ((s.ht.queues id).pop.2.contents.map (rounds ht₀.len)).sum +
      (args.length - s.argsHead) * (ht₀.len / 4) := by
    rw [roundsLeft, contents, List.map_cons, List.sum_cons]
  unfold Bounded at bound
  rw [findProbe_eq, step]
  cases e : lookupStep ht₀ (s.ht.queues id).pop.1 with
  | inl r =>
    refine ⟨⟨inv.table, inv.len, ?_, inv.head_le, ?_, ?_, ?_⟩, ?_⟩
    · intro j ne
      exact (pop_queues_of_ne ne).trans (inv.others j ne)
    · simp only [popped, List.length_append, List.length_singleton]
      have := inv.pending
      omega
    · intro item mem
      simp only [popped] at mem
      exact inv.bounded item (by simp [contents, mem])
    · simp only [popped]
      refine List.Perm.trans (List.Perm.of_eq ?_) answers
      exact chase_answer e
    · rw [left]
      simp only [roundsLeft, popped, rounds]
      omega
  | inr item =>
    obtain ⟨rfl, lt⟩ := lookupStep_inr e
    have room : (s.ht.queues id).pop.2.sz < dramblastFindQueueSize - 1 := by
      have := DramblastQueue.sz_lt (s.ht.queues id)
      omega
    refine ⟨⟨inv.table, inv.len, ?_, inv.head_le, ?_, ?_, ?_⟩, ?_⟩
    · intro j ne
      exact (push_queues_of_ne ne).trans ((pop_queues_of_ne ne).trans (inv.others j ne))
    · simp only [push_queues, popped, DramblastQueue.sz_push _ room]
      have := inv.pending
      omega
    · intro item mem
      simp only [push_queues, popped, DramblastQueue.contents_push _ room, List.mem_append,
        List.mem_singleton] at mem
      rcases mem with old | rfl
      · exact inv.bounded item (by simp [contents, old])
      · unfold Bounded
        simp only [DramblastQueueItem.advance]
        omega
    · simp only [push_queues, popped, DramblastQueue.contents_push _ room]
      exact List.Perm.trans (chase_perm e) answers
    · rw [left]
      simp only [roundsLeft, push_queues, popped, DramblastQueue.contents_push _ room,
        List.map_append, List.sum_append, List.map_singleton, List.sum_singleton, rounds,
        DramblastQueueItem.advance]
      omega

/-- The outer loop ends when its fuel covers the rounds left, with every argument answered. -/
lemma FindInv.loop {ht₀ args fuel s} (inv : FindInv crc id ht₀ args s)
    (enough : roundsLeft id ht₀ args s < fuel) :
    ∃ s', findLoop crc id args fuel s = some s' ∧ FindInv crc id ht₀ args s' ∧
      s'.results.length = args.length := by
  induction fuel generalizing s with
  | zero => omega
  | succ fuel ih =>
    rw [findLoop]
    split
    · next unanswered =>
      obtain ⟨inv', cost, same, stop⟩ := inv.refill
      have live := inv'.live (by rwa [same]) stop
      obtain ⟨inv'', paid⟩ := inv'.probe live
      exact ih inv'' (by omega)
    · have := inv.pending
      have := inv.head_le
      exact ⟨s, rfl, inv, by omega⟩

/-- The ring of lcore `id` has its head at its tail. -/
def Idle (id : Nat) (ht : DramblastHt) : Prop :=
  (ht.queues id).findQueueHead = (ht.queues id).findQueueTail

/-- An idle ring is empty. -/
lemma Idle.sz {ht} (idle : Idle id ht) : (ht.queues id).sz = 0 :=
  (DramblastQueue.sz_eq_zero_iff _).mpr idle

/-- When all arguments are answered, the results are the answers and the ring is idle. -/
lemma FindInv.finished {ht₀ args s} (inv : FindInv crc id ht₀ args s)
    (answered : s.results.length = args.length) :
    s.results.Perm (args.map (lookupOne crc ht₀)) ∧ Idle id s.ht := by
  have pending := inv.pending
  have head_le := inv.head_le
  have sz : (s.ht.queues id).sz = 0 := by omega
  have empty : (s.ht.queues id).contents = [] := by
    rw [← List.length_eq_zero_iff, DramblastQueue.length_contents, sz]
  have answers := inv.answers
  rw [empty, List.drop_eq_nil_of_le (by omega)] at answers
  refine ⟨by simpa using answers, ?_⟩
  exact (DramblastQueue.sz_eq_zero_iff _).mp sz

/-- What a call of `dramblast_find_batch_sync` on an idle ring returns. -/
lemma findBatchSync_spec (crc : BitVec 64 → BitVec 64) {ht : DramblastHt}
    (args : List DramblastArg) (idle : Idle id ht) :
    ∃ out ht', dramblastFindBatchSync crc id ht args = some (args.length, out, ht') ∧
      out.Perm (args.map (lookupOne crc ht)) ∧ ht'.table = ht.table ∧ ht'.len = ht.len ∧
      Idle id ht' ∧ ∀ j, j ≠ id → ht'.queues j = ht.queues j := by
  have inv : FindInv crc id ht args { ht, argsHead := 0, results := [] } := FindInv.init idle.sz
  have left : roundsLeft id ht args { ht, argsHead := 0, results := [] } =
      args.length * (ht.len / 4) := by
    have empty : (ht.queues id).contents = [] := by
      rw [← List.length_eq_zero_iff, DramblastQueue.length_contents, idle.sz]
    simp [roundsLeft, empty]
  obtain ⟨s, run, inv, answered⟩ := inv.loop (by rw [left]; exact Nat.lt_succ_self _)
  obtain ⟨perm, idle'⟩ := inv.finished answered
  refine ⟨s.results, s.ht, ?_, perm, inv.table, inv.len, idle', inv.others⟩
  rw [dramblastFindBatchSync, run, Option.map_some, answered]

/-- The program points of the loops: the test of the outer loop, the test of the inner loop, and the
    pop that follows it. -/
inductive FindPoint where
  | outer
  | refill
  | pop

/-- The states `dramblast_find_batch_sync` passes through, with the number of pushes and pops it has
    made on the ring when it gets there. -/
inductive FindVisits (crc : BitVec 64 → BitVec 64) (id : Nat) (ht : DramblastHt)
    (args : List DramblastArg) : FindPoint → Nat → Nat → FindState → Prop where
  | start :
    FindVisits crc id ht args .outer 0 0 { ht, argsHead := 0, results := [] }
  | enter {pushes pops s} :
    FindVisits crc id ht args .outer pushes pops s →
    s.results.length < args.length →
    FindVisits crc id ht args .refill pushes pops s
  | push {pushes pops s} (more : s.argsHead < args.length) :
    FindVisits crc id ht args .refill pushes pops s →
    dramblastGetQueueSz s.ht id < dramblastFindQueueSize - 1 →
    FindVisits crc id ht args .refill (pushes + 1) pops (findPush crc id args[s.argsHead] s)
  | leave {pushes pops s} :
    FindVisits crc id ht args .refill pushes pops s →
    ¬ (s.argsHead < args.length ∧ dramblastGetQueueSz s.ht id < dramblastFindQueueSize - 1) →
    FindVisits crc id ht args .pop pushes pops s
  | probe {pushes pops s} :
    FindVisits crc id ht args .pop pushes pops s →
    FindVisits crc id ht args .outer (pushes + findRepushes id s) (pops + 1) (findProbe id s)

/-- The inner loop passes from its entry to the pop. -/
lemma FindVisits.refill {ht args pushes pops s}
    (vis : FindVisits crc id ht args .refill pushes pops s) :
    ∃ pushes', FindVisits crc id ht args .pop pushes' pops (findRefill crc id args s) := by
  fun_induction findRefill crc id args s generalizing pushes with
  | case1 s more ih => exact ih (.push more.1 vis more.2)
  | case2 s stop => exact ⟨_, .leave vis stop⟩

/-- The outer loop stays within the visited states. -/
lemma FindVisits.loop {ht args pushes pops s s' fuel}
    (vis : FindVisits crc id ht args .outer pushes pops s)
    (run : findLoop crc id args fuel s = some s') :
    ∃ pushes' pops', FindVisits crc id ht args .outer pushes' pops' s' := by
  induction fuel generalizing pushes pops s with
  | zero => cases run
  | succ fuel ih =>
    rw [findLoop] at run
    split at run
    · next unanswered =>
      obtain ⟨_, vis'⟩ := (vis.enter unanswered).refill
      exact ih vis'.probe run
    · cases run
      exact ⟨_, _, vis⟩

/-- The size of the ring after a probe. -/
lemma sz_findProbe {s : FindState} (live : 0 < (s.ht.queues id).sz) :
    ((findProbe id s).ht.queues id).sz + 1 = (s.ht.queues id).sz + findRepushes id s := by
  have sz := DramblastQueue.sz_pop _ live
  have popped : (dramblastPopQueue s.ht id).2.queues id = (s.ht.queues id).pop.2 := by
    simp [dramblastPopQueue]
  have room : (s.ht.queues id).pop.2.sz < dramblastFindQueueSize - 1 := by
    have := DramblastQueue.sz_lt (s.ht.queues id)
    omega
  rw [findProbe_eq, findRepushes_eq]
  cases lookupStep s.ht (s.ht.queues id).pop.1 with
  | inl r =>
    dsimp only
    rw [popped, sz, Nat.add_zero]
  | inr item =>
    dsimp only
    rw [push_queues, popped, DramblastQueue.sz_push _ room, sz]

/-- At every visited state the ring holds the pushes that are not popped, and a pop finds one. -/
lemma FindVisits.inv {ht args point pushes pops s} (idle : Idle id ht)
    (vis : FindVisits crc id ht args point pushes pops s) :
    FindInv crc id ht args s ∧ pushes = pops + (s.ht.queues id).sz ∧
      (point ≠ .outer → s.results.length < args.length) ∧
      (point = .pop → 0 < (s.ht.queues id).sz) := by
  induction vis with
  | start => exact ⟨FindInv.init idle.sz, by rw [idle.sz], nofun, nofun⟩
  | enter _ unanswered ih =>
    obtain ⟨inv, count, _, _⟩ := ih
    exact ⟨inv, count, fun _ => unanswered, nofun⟩
  | @push pushes pops s more _ room ih =>
    obtain ⟨inv, count, unanswered, _⟩ := ih
    refine ⟨(inv.push (List.drop_eq_getElem_cons more) room).1, ?_, fun _ => unanswered nofun, nofun⟩
    simp only [findPush, push_queues, DramblastQueue.sz_push _ room]
    omega
  | leave _ stop ih =>
    obtain ⟨inv, count, unanswered, _⟩ := ih
    exact ⟨inv, count, fun _ => unanswered nofun, fun _ => inv.live (unanswered nofun) stop⟩
  | probe _ ih =>
    obtain ⟨inv, count, _, live⟩ := ih
    refine ⟨(inv.probe (live rfl)).1, ?_, fun ne => absurd rfl ne, nofun⟩
    have := sz_findProbe (live rfl)
    omega

/-- A batch behaves as if every argument were looked up alone: the call returns the batch length,
    its results are the results of the one-argument calls in some order, the table is as before and
    the ring is idle again. On the way the ring never holds more than 63 items and no pop finds it
    empty. -/
def BatchEqLookups (crc : BitVec 64 → BitVec 64) (id : Nat) (ht : DramblastHt)
    (args : List DramblastArg) : Prop :=
  ∃ out ht', dramblastFindBatchSync crc id ht args = some (args.length, out, ht') ∧
    (∃ alone : DramblastArg → DramblastResult,
      (∀ arg ∈ args, ∃ ht₁, dramblastFindBatchSync crc id ht [arg] = some (1, [alone arg], ht₁)) ∧
      out.Perm (args.map alone)) ∧
    out.length = args.length ∧ ht'.table = ht.table ∧ ht'.len = ht.len ∧ Idle id ht' ∧
    (∃ pushes pops s, FindVisits crc id ht args .outer pushes pops s ∧
      s.ht = ht' ∧ s.results = out) ∧
    ∀ point pushes pops s, FindVisits crc id ht args point pushes pops s →
      pops ≤ pushes ∧ pushes ≤ pops + 63 ∧ (point = .pop → pops < pushes)

/-- The reordering batch equals independent single lookups. -/
theorem find_batch_sync_eq_lookups (crc : BitVec 64 → BitVec 64) (id : Nat) (ht : DramblastHt)
    (args : List DramblastArg) (idle : Idle id ht) : BatchEqLookups crc id ht args := by
  obtain ⟨out, ht', run, perm, table, len, idle', _⟩ := findBatchSync_spec crc args idle
  refine ⟨out, ht', run, ⟨lookupOne crc ht, ?_, perm⟩, ?_, table, len, idle', ?_, ?_⟩
  · intro arg _
    obtain ⟨out₁, ht₁, run₁, perm₁, _⟩ := findBatchSync_spec crc [arg] idle
    rw [List.map_singleton, List.perm_singleton] at perm₁
    exact ⟨ht₁, by rw [run₁, perm₁]; rfl⟩
  · simpa using perm.length_eq
  · have run' := run
    rw [dramblastFindBatchSync, Option.map_eq_some_iff] at run'
    obtain ⟨s, loop, e⟩ := run'
    obtain ⟨pushes, pops, vis⟩ := FindVisits.start.loop loop
    rw [Prod.mk.injEq, Prod.mk.injEq] at e
    exact ⟨pushes, pops, s, vis, e.2.2, e.2.1⟩
  · intro point pushes pops s vis
    obtain ⟨_, count, _, live⟩ := vis.inv idle
    have lt := DramblastQueue.sz_lt (s.ht.queues id)
    unfold dramblastFindQueueSize at lt
    refine ⟨by omega, by omega, fun e => ?_⟩
    have := live e
    omega

/-- Four buckets, of which the first is full, and a ring at its last place. -/
def chainedBuckets : DramblastHt where
  table s := if s < 5 then { k := BitVec.ofNat 64 (s + 1), v := 7 } else { k := 0, v := 0 }
  len := 16
  queues _ :=
    { findQueue := fun _ => { k := 3, idx := 0, visitCount := 4, id := 9 }
      findQueueHead := 63
      findQueueTail := 63
      findQueueSize := dramblastFindQueueSize
      size_eq := rfl
      head_lt := by decide
      tail_lt := by decide }
  len_pow := ⟨4, by decide, by decide, rfl⟩

/-- A batch in which a key of the second bucket and a key that is missing are pushed again, and are
    answered after a key of the first bucket that comes later in the batch. -/
theorem find_batch_sync_eq_lookups_chained :
    BatchEqLookups (fun _ => 0) 0 chainedBuckets
        [{ k := 5, id := 0 }, { k := 9, id := 1 }, { k := 2, id := 2 }, { k := 5, id := 3 }] ∧
      (dramblastFindBatchSync (fun _ => 0) 0 chainedBuckets
          [{ k := 5, id := 0 }, { k := 9, id := 1 }, { k := 2, id := 2 }, { k := 5, id := 3 }]).map
          (fun call => call.2.1.map fun r => (r.id, r.status)) =
        some [(2, .found), (0, .found), (1, .absent), (3, .found)] :=
  ⟨find_batch_sync_eq_lookups _ _ _ _ rfl, by decide +kernel⟩

end NetBlast.Dramblast
