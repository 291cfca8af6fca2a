import NetBlast.Dramblast.Table
import NetBlast.Storage.Blocks

/-!
# The memory of the dramblast table

`dramblast_init` and `dramblast_destroy` with the blocks they request and give back.
`memory_reclaimed` says that, however the requests are answered, the table is mapped with whole
pages that hold it, and `dramblast_destroy` leaves the memory as it was before `dramblast_init`.
-/

namespace NetBlast.Dramblast
open Storage

/-- `MAX_CPU`. -/
def maxCpu : Nat := 128

/-- A block from `aligned_alloc`, or one from `mmap` with pages of a size. -/
inductive Block where
  | allocated (size : BitVec 64)
  | mapped (len pageSize : BitVec 64)
deriving DecidableEq

/-- A block that `free` takes. -/
def Block.isAllocated : Block → Bool
  | .allocated _ => true
  | .mapped .. => false

/-- A block that `munmap` with length `len` takes, the whole of it. -/
def Block.isMapping (len : BitVec 64) : Block → Bool
  | .allocated _ => false
  | .mapped len' _ => len' = len

/-- `PAGE_SIZE_2MB`. -/
def pageSize2mb : BitVec 64 := 2 * 1024 * 1024

/-- `PAGE_SIZE_1GB`. -/
def pageSize1gb : BitVec 64 := 1024 * 1024 * 1024

/-- `get_aligned_table_size`. -/
def getAlignedTableSize (bytes : BitVec 64) : BitVec 64 :=
  if bytes > pageSize1gb then alignUp bytes pageSize1gb else alignUp bytes pageSize2mb

/-- The page size in the flags of `allocate_dramblast_table`. -/
def tablePageSize (bytes : BitVec 64) : BitVec 64 :=
  if bytes > pageSize1gb then pageSize1gb else pageSize2mb

/-- The size that `dramblast_alloc64` requests. -/
def alloc64Size (bytes : BitVec 64) : BitVec 64 :=
  (bytes + 63) &&& ~~~63

/-- `sizeof(dramblast_ht_t)`. -/
def dramblastHtLen : BitVec 64 := 24

/-- `sizeof(dramblast_queue_t)`. -/
def dramblastQueueLen : BitVec 64 := 24

/-- `sizeof(dramblast_queue_item_t)`. -/
def dramblastQueueItemLen : BitVec 64 := 32

/-- `sizeof(dramblast_kv_t)`. -/
def dramblastKvLen : BitVec 64 := 16

/-- The pointers of a `dramblast_ht_t`, where `none` is `NULL`. -/
structure HtPointers where
  table : Option Nat
  len : BitVec 64
  queues : Option Nat
  findQueue : Nat → Option Nat

/-- The memory, and the global `dramblast_ht` with what it points to. -/
structure Process where
  store : Store Block
  dramblastHt : Option (Nat × HtPointers)

/-- Why a call does not come back: `exit`, or undefined behaviour. -/
inductive Stop where
  | exit
  | nullPointer
  | invalidFree
deriving DecidableEq

section
variable (A : Allocator Block)

/-- `dramblast_alloc64`. -/
def dramblastAlloc64 (bytes : BitVec 64) (s : Store Block) : Option Nat × Store Block :=
  A.request s (.allocated (alloc64Size bytes))

/-- `allocate_dramblast_table`. -/
def allocateDramblastTable (bytes : BitVec 64) (s : Store Block) : Option Nat × Store Block :=
  A.request s (.mapped (getAlignedTableSize bytes) (tablePageSize bytes))

/-- The body of the loop of `dramblast_init`, with the pointers of the queues so far. -/
def initQueue (st : Store Block × (Nat → Option Nat)) (i : Nat) :
    Store Block × (Nat → Option Nat) :=
  let (s, findQueue) := st
  let (p, s) := dramblastAlloc64 A
    (dramblastQueueItemLen * BitVec.ofNat 64 dramblastFindQueueSize) s
  (s, Function.update findQueue i p)

/-- `dramblast_init`. -/
def Process.init (capacity : BitVec 64) (m : Process) : Except Stop Process :=
  match dramblastAlloc64 A dramblastHtLen m.store with
  | (none, _) => .error .exit
  | (some root, s) =>
    match dramblastAlloc64 A (dramblastQueueLen * BitVec.ofNat 64 maxCpu) s with
    | (none, _) => .error .nullPointer
    | (some queues, s) =>
      let (s, findQueue) := (List.range maxCpu).foldl (initQueue A) (s, fun _ => none)
      match allocateDramblastTable A (capacity * dramblastKvLen) s with
      | (none, _) => .error .exit
      | (some table, s) =>
        let ht := { table := some table, len := capacity, queues := some queues, findQueue }
        .ok { store := s, dramblastHt := some (root, ht) }

variable (m : Process)

end

/-- `free` of a pointer that is not `NULL`. -/
def free (s : Store Block) (p : Nat) : Except Stop (Store Block) :=
  match s.release p Block.isAllocated with
  | none => .error .invalidFree
  | some s => .ok s

/-- `munmap`; `none` where it fails. -/
def munmap (s : Store Block) (p : Nat) (len : BitVec 64) : Option (Store Block) :=
  s.release p (Block.isMapping len)

/-- The body of the loop of `dramblast_destroy`. -/
def freeQueue (findQueue : Nat → Option Nat) (s : Store Block) (i : Nat) :
    Except Stop (Store Block) :=
  match findQueue i with
  | none => .ok s
  | some p => free s p

/-- `dramblast_destroy`. It goes on if `munmap` fails. -/
def Process.destroy (m : Process) : Except Stop Process :=
  match m.dramblastHt with
  | none => .ok m
  | some (root, ht) => do
    let s :=
      match ht.table with
      | none => m.store
      | some table =>
        (munmap m.store table (getAlignedTableSize (ht.len * dramblastKvLen))).getD m.store
    let s ←
      match ht.queues with
      | none => .ok s
      | some queues => do
        let s ← (List.range maxCpu).foldlM (freeQueue ht.findQueue) s
        free s queues
    let s ← free s root
    return { store := s, dramblastHt := none }

/-- The states of a process that starts with the store `base` and calls the two functions, the first
    of them only where there is no table. -/
inductive Process.Reachable (A : Allocator Block) (base : Store Block) : Process → Prop where
  | start : Process.Reachable A base { store := base, dramblastHt := none }
  | init {m m' capacity} :
    Process.Reachable A base m →
    m.dramblastHt = none →
    capacity.toNat ≤ 2 ^ 32 →
    m.init A capacity = .ok m' →
    Process.Reachable A base m'
  | destroy {m m'} :
    Process.Reachable A base m →
    m.destroy = .ok m' →
    Process.Reachable A base m'

/-- The block of a find queue. -/
def queueBlock : Block :=
  .allocated (alloc64Size (dramblastQueueItemLen * BitVec.ofNat 64 dramblastFindQueueSize))

/-- The blocks of the find queues. -/
def queueBlocks (findQueue : Nat → Option Nat) (l : List Nat) : List (Nat × Block) :=
  l.flatMap fun i => granted (findQueue i) queueBlock

/-- The blocks of a table that is complete. -/
structure Owns (base : Store Block) (s : Store Block) (root : Nat) (ht : HtPointers)
    (table queues : Nat) : Prop where
  tableAt : ht.table = some table
  queuesAt : ht.queues = some queues
  small : ht.len.toNat ≤ 2 ^ 32
  holds : Extends base.live s.live
    ((table, .mapped (getAlignedTableSize (ht.len * dramblastKvLen))
        (tablePageSize (ht.len * dramblastKvLen))) ::
      (queueBlocks ht.findQueue (List.range maxCpu) ++
        [(queues, .allocated (alloc64Size (dramblastQueueLen * BitVec.ofNat 64 maxCpu))),
          (root, .allocated (alloc64Size dramblastHtLen))]))

/-- The invariant of a process: without a table the store is as it was. -/
def Process.Inv (base : Store Block) (m : Process) : Prop :=
  match m.dramblastHt with
  | none => m.store.live = base.live
  | some (root, ht) => ∃ table queues, Owns base m.store root ht table queues

section
variable {A : Allocator Block} {base s : Store Block} {l : List (Nat × Block)}

/-- The loop of `dramblast_init` adds the blocks of the find queues. -/
lemma holds_initQueues (holds : Extends base.live s.live l) (n : Nat) :
    Extends base.live ((List.range n).foldl (initQueue A) (s, fun _ => none)).1.live
      (queueBlocks ((List.range n).foldl (initQueue A) (s, fun _ => none)).2 (List.range n) ++
        l) := by
  induction n with
  | zero => exact holds
  | succ n ih =>
    rw [List.range_succ, List.foldl_append, List.foldl_cons, List.foldl_nil]
    generalize (List.range n).foldl (initQueue A) (s, fun _ => none) = st at ih
    obtain ⟨s', findQueue⟩ := st
    have added := ih.request (A := A) queueBlock
    set p := (A.request s' queueBlock).1 with def_p
    have blocks : queueBlocks (Function.update findQueue n p) (List.range n ++ [n]) =
        queueBlocks findQueue (List.range n) ++ granted p queueBlock := by
      unfold queueBlocks
      rw [List.flatMap_append, List.flatMap_singleton, Function.update_self]
      congr 1
      refine List.flatMap_congr fun i mem => ?_
      rw [Function.update_of_ne (List.mem_range.mp mem).ne]
    have step : initQueue A (s', findQueue) n =
        ((A.request s' queueBlock).2, Function.update findQueue n p) := rfl
    rw [step]
    dsimp only
    rw [blocks]
    refine added.perm ?_
    rw [← List.append_assoc]
    exact List.perm_append_comm.append_right l

/-- A held block of `aligned_alloc` can be freed. -/
lemma free_ok {p : Nat} {size : BitVec 64}
    (holds : Extends base.live s.live ((p, .allocated size) :: l)) :
    ∃ s', free s p = .ok s' ∧ Extends base.live s'.live l := by
  obtain ⟨s', released, holds⟩ := holds.release Block.isAllocated rfl
  refine ⟨s', ?_, holds⟩
  unfold free
  rw [released]

/-- The loop of `dramblast_destroy` gives them back. -/
lemma freeQueues (findQueue : Nat → Option Nat) (is : List Nat) {s : Store Block}
    (holds : Extends base.live s.live (queueBlocks findQueue is ++ l)) :
    ∃ s', is.foldlM (freeQueue findQueue) s = .ok s' ∧ Extends base.live s'.live l := by
  induction is generalizing s with
  | nil => exact ⟨s, rfl, holds⟩
  | cons i is ih =>
    unfold queueBlocks at holds
    rw [List.flatMap_cons, List.append_assoc] at holds
    rw [List.foldlM_cons]
    unfold freeQueue
    cases e : findQueue i with
    | none =>
      rw [e] at holds
      exact ih holds
    | some p =>
      rw [e] at holds
      obtain ⟨s', freed, holds⟩ := free_ok holds
      dsimp only
      rw [freed]
      exact ih holds

/-- A table that `dramblast_init` has set up is complete. -/
lemma owns_init {m m' : Process} {capacity : BitVec 64} (live : m.store.live = base.live)
    (small : capacity.toNat ≤ 2 ^ 32) (ok : m.init A capacity = .ok m') :
    ∃ root ht table queues, m'.dramblastHt = some (root, ht) ∧ ht.len = capacity ∧
      Owns base m'.store root ht table queues := by
  have start : Extends base.live m.store.live [] := live ▸ .refl base.live
  unfold Process.init dramblastAlloc64 allocateDramblastTable at ok
  have root_held := start.request (A := A) (.allocated (alloc64Size dramblastHtLen))
  generalize A.request m.store (.allocated (alloc64Size dramblastHtLen)) = r at ok root_held
  obtain ⟨_ | root, s⟩ := r
  · cases ok
  have queues_held := root_held.request (A := A)
    (.allocated (alloc64Size (dramblastQueueLen * BitVec.ofNat 64 maxCpu)))
  dsimp only at ok queues_held
  generalize A.request s
    (.allocated (alloc64Size (dramblastQueueLen * BitVec.ofNat 64 maxCpu))) = r at ok queues_held
  obtain ⟨_ | queues, s⟩ := r
  · cases ok
  have rings_held := holds_initQueues (A := A) queues_held maxCpu
  dsimp only at ok rings_held
  generalize (List.range maxCpu).foldl (initQueue A) (s, fun _ => none) = r at ok rings_held
  obtain ⟨s, findQueue⟩ := r
  have table_held := rings_held.request (A := A) (.mapped
    (getAlignedTableSize (capacity * dramblastKvLen)) (tablePageSize (capacity * dramblastKvLen)))
  dsimp only at ok table_held
  generalize A.request s (.mapped (getAlignedTableSize (capacity * dramblastKvLen))
    (tablePageSize (capacity * dramblastKvLen))) = r at ok table_held
  obtain ⟨_ | table, s⟩ := r
  · cases ok
  cases ok
  exact ⟨root, _, table, queues, rfl, rfl, rfl, rfl, small, table_held⟩

/-- `dramblast_destroy` gives everything back that a complete table owns. -/
lemma Owns.destroy {root : Nat} {ht : HtPointers} {table queues : Nat}
    (owns : Owns base s root ht table queues) :
    ∃ s', Process.destroy { store := s, dramblastHt := some (root, ht) } =
        .ok { store := s', dramblastHt := none } ∧ s'.live = base.live := by
  obtain ⟨s₁, unmapped, holds⟩ := owns.holds.release
    (Block.isMapping (getAlignedTableSize (ht.len * dramblastKvLen))) (decide_eq_true rfl)
  obtain ⟨s₂, freed, holds⟩ := freeQueues ht.findQueue (List.range maxCpu) holds
  obtain ⟨s₃, freed', holds⟩ := free_ok holds
  obtain ⟨s₄, freed'', holds⟩ := free_ok holds
  refine ⟨s₄, ?_, holds.live_eq⟩
  unfold Process.destroy munmap
  dsimp only
  rw [owns.tableAt, owns.queuesAt]
  dsimp only
  rw [unmapped, Option.getD_some, freed]
  dsimp only [bind, Except.bind]
  rw [freed']
  dsimp only
  rw [freed'']
  rfl

/-- The calls keep the invariant. -/
lemma Process.Reachable.inv {m : Process} (run : m.Reachable A base) : m.Inv base := by
  induction run with
  | start => rfl
  | @init m m' capacity _ idle small ok ih =>
    unfold Process.Inv at ih
    rw [idle] at ih
    obtain ⟨root, ht, table, queues, there, _, owns⟩ := owns_init ih small ok
    unfold Process.Inv
    rw [there]
    exact ⟨table, queues, owns⟩
  | @destroy m m' _ ok ih =>
    unfold Process.Inv at ih
    obtain ⟨s, _ | ⟨root, ht⟩⟩ := m
    · cases ok
      exact ih
    · obtain ⟨table, queues, owns⟩ := ih
      obtain ⟨s', destroyed, live⟩ := owns.destroy
      rw [destroyed] at ok
      cases ok
      exact live

/-- The octets of a table. -/
lemma tableLen_toNat {len : BitVec 64} (small : len.toNat ≤ 2 ^ 32) :
    (len * dramblastKvLen).toNat = 16 * len.toNat := by
  have kv : dramblastKvLen.toNat = 16 := rfl
  rw [BitVec.toNat_mul, kv, Nat.mod_eq_of_lt (by omega), Nat.mul_comm]

/-- A table of more than 1 GB gets pages of 1 GB, and any other pages of 2 MB. -/
lemma tablePageSize_spec {len : BitVec 64} (small : len.toNat ≤ 2 ^ 32) :
    (tablePageSize (len * dramblastKvLen)).toNat =
      if 2 ^ 30 < 16 * len.toNat then 2 ^ 30 else 2 ^ 21 := by
  have gb : pageSize1gb.toNat = 2 ^ 30 := rfl
  have mb : pageSize2mb.toNat = 2 ^ 21 := rfl
  unfold tablePageSize
  rw [← tableLen_toNat small]
  split_ifs with large not_large not_large
  · exact gb
  · exact absurd (BitVec.lt_def.mp large) not_large
  · rw [← gb] at not_large
    exact absurd (BitVec.lt_def.mpr not_large) large
  · exact mb

/-- The length of a mapping is the smallest number of whole pages that holds the table. -/
lemma alignedTableSize_spec {len : BitVec 64} (small : len.toNat ≤ 2 ^ 32) :
    let bytes := len * dramblastKvLen
    (tablePageSize bytes).toNat ∣ (getAlignedTableSize bytes).toNat ∧
      16 * len.toNat ≤ (getAlignedTableSize bytes).toNat ∧
      (getAlignedTableSize bytes).toNat < 16 * len.toNat + (tablePageSize bytes).toNat := by
  intro bytes
  have toNat : bytes.toNat = 16 * len.toNat := tableLen_toNat small
  rw [← toNat]
  have pages (k : Nat) (le : k ≤ 30) :
      let align := BitVec.ofNat 64 (2 ^ k)
      align.toNat ∣ (alignUp bytes align).toNat ∧ bytes.toNat ≤ (alignUp bytes align).toNat ∧
        (alignUp bytes align).toNat < bytes.toNat + align.toNat := by
    have pos := Nat.two_pow_pos k
    have pow : 2 ^ k ≤ 2 ^ 30 := Nat.pow_le_pow_right (by decide) le
    have align : (BitVec.ofNat 64 (2 ^ k)).toNat = 2 ^ k := Nat.mod_eq_of_lt (by omega)
    dsimp only
    rw [alignUp_toNat bytes (by omega) (by omega), align]
    have split := Nat.div_add_mod' (bytes.toNat + 2 ^ k - 1) (2 ^ k)
    have lt := Nat.mod_lt (bytes.toNat + 2 ^ k - 1) pos
    exact ⟨Nat.dvd_mul_left .., by omega, by omega⟩
  unfold getAlignedTableSize tablePageSize
  split_ifs
  · exact pages 30 (by decide)
  · exact pages 21 (by decide)

end

/-- However the requests are answered and in whatever order the two functions are called,
    `dramblast_destroy` comes back and leaves the memory as it was before: no block is freed twice,
    with a wrong length or not at all. A table has the smallest mapping that holds its slots in whole
    pages, of 1 GB if it is larger than such a page and of 2 MB otherwise, and a ring has room for
    its 64 items. -/
theorem memory_reclaimed (A : Allocator Block) (base : Store Block) (m : Process)
    (run : m.Reachable A base) :
    (∃ s, m.destroy = .ok { store := s, dramblastHt := none } ∧ s.live = base.live) ∧
    (m.dramblastHt = none → m.store.live = base.live) ∧
    ∀ root ht, m.dramblastHt = some (root, ht) →
      (∃ table len pageSize, ht.table = some table ∧
        m.store.live table = some (.mapped len pageSize) ∧
        pageSize.toNat = (if 2 ^ 30 < 16 * ht.len.toNat then 2 ^ 30 else 2 ^ 21) ∧
        pageSize.toNat ∣ len.toNat ∧
        16 * ht.len.toNat ≤ len.toNat ∧ len.toNat < 16 * ht.len.toNat + pageSize.toNat) ∧
      ∀ i < maxCpu, ∀ p, ht.findQueue i = some p →
        m.store.live p = some (.allocated (64 * 32)) := by
  have inv := run.inv
  unfold Process.Inv at inv
  obtain ⟨s, _ | ⟨root, ht⟩⟩ := m
  · exact ⟨⟨s, rfl, inv⟩, fun _ => inv, nofun⟩
  · obtain ⟨table, queues, owns⟩ := inv
    refine ⟨owns.destroy, nofun, ?_⟩
    intro root' ht' same
    cases same
    refine ⟨⟨table, _, _, owns.tableAt, owns.holds.held _ (List.mem_cons_self ..),
      tablePageSize_spec owns.small, alignedTableSize_spec owns.small⟩, fun i lt p here => ?_⟩
    have mem : (p, queueBlock) ∈ queueBlocks ht.findQueue (List.range maxCpu) := by
      refine List.mem_flatMap.mpr ⟨i, List.mem_range.mpr lt, ?_⟩
      rw [here]
      exact List.mem_singleton_self _
    exact owns.holds.held _ (List.mem_cons_of_mem _ (List.mem_append_left _ mem))

/-- An allocator that has no ring for the third lcore. -/
def shortAllocator : Allocator Block where
  next s _ := if s.live s.requests = none ∧ s.requests ≠ 4 then some s.requests else none
  fresh {s b p} next := by
    split_ifs at next with free
    cases next
    exact free.1

/-- An empty store, and no table. -/
def noTable : Process where
  store := ⟨fun _ => none, 0⟩
  dramblastHt := none

/-- A successful computation has a result. -/
lemma exists_ok {x : Except Stop Process} (ok : x.toBool) : ∃ m, x = .ok m := by
  cases x with
  | error stop => cases ok
  | ok m => exact ⟨m, rfl⟩

/-- A table with a page of 2 MB, and after it one with 64 pages of 1 GB. -/
theorem memory_reclaimed_twoTables :
    ∃ m m' m'' : Process, noTable.init shortAllocator 0x20000 = .ok m ∧ m.destroy = .ok m' ∧
      m'.init shortAllocator 0x100000000 = .ok m'' ∧
      (∃ table len pageSize, m.store.live table = some (.mapped len pageSize) ∧
        pageSize.toNat = 2 ^ 21 ∧ len.toNat = 2 ^ 21) ∧
      (∃ table len pageSize, m''.store.live table = some (.mapped len pageSize) ∧
        pageSize.toNat = 2 ^ 30 ∧ len.toNat = 64 * 2 ^ 30) ∧
      ∃ s, m''.destroy = .ok { store := s, dramblastHt := none } ∧ s.live = fun _ => none := by
  have fresh : noTable.Reachable shortAllocator noTable.store := .start
  obtain ⟨m, ok⟩ : ∃ m, noTable.init shortAllocator 0x20000 = .ok m :=
    exists_ok (by decide +kernel)
  have run := fresh.init rfl (by decide) ok
  obtain ⟨⟨s, destroyed, live⟩, _, mapped⟩ := memory_reclaimed shortAllocator noTable.store m run
  have second : (((noTable.init shortAllocator 0x20000).bind Process.destroy).bind
      (Process.init shortAllocator 0x100000000)).toBool := by decide +kernel
  dsimp only [Except.bind] at second
  rw [ok] at second
  dsimp only at second
  rw [destroyed] at second
  obtain ⟨m'', ok'⟩ := exists_ok second
  have run' := (run.destroy destroyed).init rfl (by decide) ok'
  obtain ⟨reclaimed, _, mapped'⟩ := memory_reclaimed shortAllocator noTable.store m'' run'
  refine ⟨m, _, m'', ok, destroyed, ok', ?_, ?_, reclaimed⟩
  · obtain ⟨root, ht, _, _, there, slots, _⟩ := owns_init (rfl : noTable.store.live = _) (by decide) ok
    obtain ⟨table, len, pageSize, _, here, size, whole, holds, smallest⟩ := (mapped root ht there).1
    have slots' : ht.len.toNat = 0x20000 := congrArg BitVec.toNat slots
    rw [slots', if_neg (by decide)] at size
    rw [size] at whole
    exact ⟨table, len, pageSize, here, size, by omega⟩
  · obtain ⟨root, ht, _, _, there, slots, _⟩ := owns_init live (by decide) ok'
    obtain ⟨table, len, pageSize, _, here, size, whole, holds, smallest⟩ := (mapped' root ht there).1
    have slots' : ht.len.toNat = 0x100000000 := congrArg BitVec.toNat slots
    rw [slots', if_pos (by decide)] at size
    rw [size] at whole
    exact ⟨table, len, pageSize, here, size, by omega⟩

end NetBlast.Dramblast
