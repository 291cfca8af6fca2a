import NetBlast.Intrinsics
import NetBlast.Conshash
import NetBlast.Probing.Sequence

/-!
# The dramblast table

`dramblast.h` and `dramblast.c`: the key/value slots, the per-lcore find ring, the slot-by-slot
insert and the bucket-by-bucket batched lookup. Memory is a function from slot numbers, of which the
first `len` are the table. A slot index and a slot count are natural numbers: `len` is a power of
two that fits `uint64_t`, so neither `idx + 4` nor `count + 4` wraps.
-/

namespace NetBlast.Dramblast

/-- `dramblast_kv_t`. -/
structure DramblastKv where
  k : BitVec 64
  v : BitVec 64
deriving DecidableEq, Repr

/-- `DRAMBLAST_FOUND`, `DRAMBLAST_ABSENT` and `DRAMBLAST_TABLE_FULL`. -/
inductive DramblastStatus where
  | found
  | absent
  | tableFull
deriving DecidableEq, Repr

/-- `dramblast_result_t`. -/
structure DramblastResult where
  v : BitVec 64
  id : BitVec 32
  status : DramblastStatus
deriving DecidableEq, Repr

/-- `dramblast_arg_t`. -/
structure DramblastArg where
  k : BitVec 64
  id : BitVec 32
deriving DecidableEq, Repr

/-- `dramblast_queue_item_t`. -/
structure DramblastQueueItem where
  k : BitVec 64
  idx : Nat
  visitCount : Nat
  id : BitVec 32
deriving DecidableEq, Repr

/-- `DRAMBLAST_FIND_QUEUE_SIZE`. -/
def dramblastFindQueueSize : Nat := 64

/-- `DRAMBLAST_BUCKET_IDX_MASK`: the `int` `~0x3` as a `uint64_t`. -/
def dramblastBucketIdxMask : Nat := 2 ^ 64 - 4

/-- `DRAMBLAST_SIMD_KEY_MASK`. -/
def dramblastSimdKeyMask : BitVec 8 := 0b01010101

/-- `dramblast_queue_t`: a ring of items, with both indices inside it. -/
structure DramblastQueue (α : Type) where
  findQueue : Nat → α
  findQueueHead : Nat
  findQueueTail : Nat
  findQueueSize : Nat
  size_eq : findQueueSize = dramblastFindQueueSize
  head_lt : findQueueHead < findQueueSize
  tail_lt : findQueueTail < findQueueSize

namespace DramblastQueue
variable {α : Type}

/-- A masked index is within the ring. -/
lemma land_lt (q : DramblastQueue α) (i : Nat) : i &&& (q.findQueueSize - 1) < q.findQueueSize := by
  have := q.head_lt
  have := Nat.and_le_right (n := i) (m := q.findQueueSize - 1)
  omega

/-- `(head - tail) & (size - 1)` on `uint32_t`. -/
@[irreducible] def sz (q : DramblastQueue α) : Nat :=
  (q.findQueueHead + 2 ^ 32 - q.findQueueTail) % 2 ^ 32 &&& (q.findQueueSize - 1)

/-- Write the head slot, then advance the head. -/
def push (q : DramblastQueue α) (item : α) : DramblastQueue α :=
  { q with
    findQueue := Function.update q.findQueue q.findQueueHead item
    findQueueHead := (q.findQueueHead + 1) &&& (q.findQueueSize - 1)
    head_lt := q.land_lt _ }

/-- The tail slot, and the ring with the tail advanced. -/
def pop (q : DramblastQueue α) : α × DramblastQueue α :=
  (q.findQueue q.findQueueTail,
    { q with
      findQueueTail := (q.findQueueTail + 1) &&& (q.findQueueSize - 1)
      tail_lt := q.land_lt _ })

end DramblastQueue

/-- `dramblast_ht_t`: `len` slots, a power of two that holds at least one bucket, and a find ring
    for every lcore. -/
structure DramblastHt where
  table : Nat → DramblastKv
  len : Nat
  queues : Nat → DramblastQueue DramblastQueueItem
  len_pow : ∃ m, 2 ≤ m ∧ m < 64 ∧ len = 2 ^ m

/-- `dramblast_init` for a valid capacity: a zeroed table, and idle rings over whatever memory
    `aligned_alloc` returned. -/
def dramblastInit (capacity : Nat) (valid : ∃ m, 2 ≤ m ∧ m < 64 ∧ capacity = 2 ^ m)
    (mem : Nat → Nat → DramblastQueueItem) : DramblastHt where
  table := fun _ => { k := 0, v := 0 }
  len := capacity
  queues := fun i =>
    { findQueue := mem i
      findQueueHead := 0
      findQueueTail := 0
      findQueueSize := dramblastFindQueueSize
      size_eq := rfl
      head_lt := by decide
      tail_lt := by decide }
  len_pow := valid

/-- `dramblast_get_queue_sz`. -/
def dramblastGetQueueSz (ht : DramblastHt) (id : Nat) : Nat :=
  (ht.queues id).sz

/-- `dramblast_push_queue`. -/
def dramblastPushQueue (ht : DramblastHt) (idx : Nat) (k : BitVec 64) (visitCount : Nat)
    (itemId : BitVec 32) (tid : Nat) : DramblastHt :=
  { ht with
    queues := Function.update ht.queues tid
      ((ht.queues tid).push { k, idx, visitCount, id := itemId }) }

/-- `dramblast_pop_queue`. -/
def dramblastPopQueue (ht : DramblastHt) (id : Nat) : DramblastQueueItem × DramblastHt :=
  ((ht.queues id).pop.1,
    { ht with queues := Function.update ht.queues id (ht.queues id).pop.2 })

/-- Store to one slot. -/
def DramblastHt.write (ht : DramblastHt) (idx : Nat) (kv : DramblastKv) : DramblastHt :=
  { ht with table := Function.update ht.table idx kv }

section
variable (crc : BitVec 64 → BitVec 64)

/-- `dramblast_hash`. -/
def dramblastHash (ht : DramblastHt) (k : BitVec 64) : Nat :=
  (crc k).toNat &&& (ht.len - 1) &&& dramblastBucketIdxMask

/-- The loop of `dramblast_insert_one` from `try_insert` on. -/
def dramblastTryInsert (ht : DramblastHt) (k v : BitVec 64) (idx count : Nat) : Int × DramblastHt :=
  let kv := ht.table idx
  let count := count + 1
  -- the compare-and-swap takes all 128 bits from zero, or falls through to the key test
  if kv.k = 0 ∧ kv = { k := 0, v := 0 } then
    (0, ht.write idx { k, v })
  else if kv.k = k then
    (0, ht.write idx { kv with v })
  else
    let idx := (idx + 1) &&& (ht.len - 1)
    if count ≥ ht.len then (-1, ht)
    else dramblastTryInsert ht k v idx count
termination_by ht.len - count

/-- `dramblast_insert_one`. -/
def dramblastInsertOne (ht : DramblastHt) (k v : BitVec 64) : Int × DramblastHt :=
  let idx := dramblastHash crc ht k
  if k = 0 then (-1, ht)
  else dramblastTryInsert ht k v idx 0

end

/-- Word `w` of the bucket at `idx`, read through a `uint64_t *`. -/
def bucketWord (ht : DramblastHt) (idx w : Nat) : BitVec 64 :=
  if w % 2 = 0 then (ht.table (idx + w / 2)).k else (ht.table (idx + w / 2)).v

/-- `_mm512_load_si512` of the bucket at `idx`. -/
def mm512LoadSi512 (ht : DramblastHt) (idx : Nat) : M512i :=
  fun l => bucketWord ht idx l

/-- The item pushed back for the next bucket. -/
def DramblastQueueItem.advance (len : Nat) (item : DramblastQueueItem) : DramblastQueueItem :=
  { item with
    idx := (item.idx + 4) &&& (len - 1) &&& dramblastBucketIdxMask
    visitCount := item.visitCount + 4 }

/-- What comparing one loaded bucket decides. -/
inductive FindOutcome where
  | hit (offset : Nat)
  | tableFull
  | absent
  | next (item : DramblastQueueItem)

/-- The comparisons of `dramblast_find_batch_sync` on a loaded cacheline. -/
def findCompare (len : Nat) (item : DramblastQueueItem) (cacheline : M512i) : FindOutcome :=
  let keyCmp := mm512MaskCmpeqEpu64Mask dramblastSimdKeyMask cacheline (mm512Set1Epi64 item.k)
  if keyCmp > 0 then .hit (builtinCtz keyCmp)
  else
    let count := item.visitCount + 4
    if count ≥ len then .tableFull
    else
      let eptCmp := mm512MaskCmpeqEpu64Mask dramblastSimdKeyMask cacheline mm512SetzeroSi512
      if eptCmp = 0 then .next (item.advance len)
      else .absent

/-- The variables of `dramblast_find_batch_sync`: `results` holds the `result_head` results written
    so far. -/
structure FindState where
  ht : DramblastHt
  argsHead : Nat
  results : List DramblastResult

/-- Write a result and advance `result_head`. -/
def FindState.emit (s : FindState) (v : BitVec 64) (id : BitVec 32) (status : DramblastStatus) :
    FindState :=
  { s with results := s.results ++ [{ v, id, status }] }

section
variable (crc : BitVec 64 → BitVec 64) (id : Nat)

/-- Push the next argument. -/
def findPush (arg : DramblastArg) (s : FindState) : FindState :=
  { s with
    ht := dramblastPushQueue s.ht (dramblastHash crc s.ht arg.k) arg.k 0 arg.id id
    argsHead := s.argsHead + 1 }

/-- The inner loop: push as many arguments as the ring takes. -/
def findRefill (args : List DramblastArg) (s : FindState) : FindState :=
  if h : s.argsHead < args.length ∧ dramblastGetQueueSz s.ht id < dramblastFindQueueSize - 1 then
    findRefill args (findPush crc id args[s.argsHead] s)
  else s
termination_by args.length - s.argsHead
decreasing_by simp only [findPush]; omega

/-- The rest of the outer loop: pop an item, load its bucket, and answer it or push it back. -/
def findProbe (s : FindState) : FindState :=
  let (item, ht) := dramblastPopQueue s.ht id
  let s := { s with ht }
  match findCompare ht.len item (mm512LoadSi512 ht item.idx) with
  | .hit offset => s.emit (bucketWord ht item.idx (offset + 1)) item.id .found
  | .tableFull => s.emit 0 item.id .tableFull
  | .absent => s.emit 0 item.id .absent
  | .next item =>
    { s with ht := dramblastPushQueue ht item.idx item.k item.visitCount item.id id }

/-- The number of items `findProbe` pushes back. -/
def findRepushes (s : FindState) : Nat :=
  let item := (dramblastPopQueue s.ht id).1
  match findCompare s.ht.len item (mm512LoadSi512 s.ht item.idx) with
  | .next _ => 1
  | _ => 0

/-- The outer loop, for at most `fuel` rounds. -/
def findLoop (args : List DramblastArg) : Nat → FindState → Option FindState
  | 0, _ => none
  | fuel + 1, s =>
    if s.results.length < args.length then
      findLoop args fuel (findProbe id (findRefill crc id args s))
    else some s

/-- `dramblast_find_batch_sync`: the return value, the results and the table. A key takes at most
    one round for every bucket, so `none` would be a loop that never ends. -/
def dramblastFindBatchSync (ht : DramblastHt) (args : List DramblastArg) :
    Option (Nat × List DramblastResult × DramblastHt) :=
  (findLoop crc id args (args.length * (ht.len / 4) + 1) { ht, argsHead := 0, results := [] }).map
    fun s => (s.results.length, s.results, s.ht)

/-- The memory `dramblast_process_frames` writes. -/
structure FramesState where
  ht : DramblastHt
  ret : Nat → BitVec 64

/-- One round of the loop of `dramblast_process_frames` over the results. -/
def processResult (backends : LookUpTable) (args : List DramblastArg) (s : FramesState)
    (result : DramblastResult) : FramesState :=
  match result.status with
  | .absent =>
    let clientHash := (args.getD result.id.toNat { k := 0, id := 0 }).k
    let backendMacAddr := backends.backend clientHash
    let (r, ht) := dramblastInsertOne crc s.ht clientHash backendMacAddr
    let backendMacAddr := if r < 0 then 0 else backendMacAddr
    { ht, ret := Function.update s.ret result.id.toNat backendMacAddr }
  | .tableFull => { s with ret := Function.update s.ret result.id.toNat 0 }
  | .found => { s with ret := Function.update s.ret result.id.toNat result.v }

/-- `dramblast_process_frames`; `none` is its `exit(-1)`. -/
def dramblastProcessFrames (backends : LookUpTable) (ht : DramblastHt) (args : List DramblastArg)
    (ret : Nat → BitVec 64) : Option FramesState :=
  match dramblastFindBatchSync crc id ht args with
  | none => none
  | some (len, results, ht) =>
    if len ≠ args.length then none
    else some ((results.take len).foldl (processResult crc backends args) { ht, ret })

end

end NetBlast.Dramblast
