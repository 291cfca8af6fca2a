import NetBlast.Concurrent.Insert
import NetBlast.Dramblast.Batch

/-!
# Lookups among concurrent inserts

`dramblast_find_batch_sync` while calls of `dramblast_insert_one` are under way on the same table. A
vector load is not atomic: its lanes are read one at a time, in any order, and the value of a hit is
read in yet another step. A call of the lookup is a `Finder` with the find ring of its lcore; the
items of the ring carry the place of their argument in the batch, which the code does not have but
which tells the lookups of a batch apart, and `probes` counts the buckets visited for each place. A
later batch of the same lcore is another finder, which starts with the ring as the earlier one
leaves it.
-/

namespace NetBlast.Concurrent
open Probing Dramblast

/-- A ring item with the place of its argument. -/
abbrev Lookup := DramblastQueueItem × Nat

/-- Where a call of `dramblast_find_batch_sync` stands: filling the ring, with a part of the lanes
    of a bucket read, before the read of a value, or after its return. -/
inductive FindPc where
  | fill
  | load (item : Lookup) (lanes : Fin 8 → Option (BitVec 64))
  | value (item : Lookup) (offset : Nat)
  | returned

/-- A call of `dramblast_find_batch_sync`. -/
structure Finder where
  queue : DramblastQueue Lookup
  argsHead : Nat
  results : List (DramblastResult × Nat)
  probes : Nat → Nat
  pc : FindPc

/-- The test of the outer loop. -/
def findNext (args : List DramblastArg) (resultHead : Nat) : FindPc :=
  if resultHead < args.length then .fill else .returned

/-- A call before its first step. -/
def findStart (args : List DramblastArg) (queue : DramblastQueue Lookup) : Finder :=
  { queue, argsHead := 0, results := [], probes := fun _ => 0, pc := findNext args 0 }

/-- Write a result and go on with the outer loop. -/
def Finder.emit (fd : Finder) (args : List DramblastArg) (item : Lookup) (v : BitVec 64)
    (status : DramblastStatus) : Finder :=
  { fd with
    results := fd.results ++ [({ v, id := item.1.id, status }, item.2)]
    pc := findNext args (fd.results.length + 1) }

/-- The next step of a call: push an argument, pop an item, compare a loaded bucket, or read a
    value. It is not possible while a lane is missing, nor after the return. -/
def findStep (crc : BitVec 64 → BitVec 64) (ht : DramblastHt) (args : List DramblastArg)
    (fd : Finder) : Option Finder :=
  match fd.pc with
  | .fill =>
    if h : fd.argsHead < args.length ∧ fd.queue.sz < dramblastFindQueueSize - 1 then
      let arg := args[fd.argsHead]
      let idx := dramblastHash crc ht arg.k
      some { fd with
        queue := fd.queue.push ({ k := arg.k, idx, visitCount := 0, id := arg.id }, fd.argsHead)
        argsHead := fd.argsHead + 1 }
    else
      let (item, queue) := fd.queue.pop
      some { fd with
        queue
        probes := Function.update fd.probes item.2 (fd.probes item.2 + 1)
        pc := .load item fun _ => none }
  | .load item lanes =>
    if ∀ l, (lanes l).isSome then
      match findCompare ht.len item.1 fun l => (lanes l).getD 0 with
      | .hit offset => some { fd with pc := .value item offset }
      | .tableFull => some (fd.emit args item 0 .tableFull)
      | .absent => some (fd.emit args item 0 .absent)
      | .next item' => some { fd with queue := fd.queue.push (item', item.2), pc := .fill }
    else none
  | .value item offset =>
    some (fd.emit args item (bucketWord ht item.1.idx (offset + 1)) .found)
  | .returned => none

/-- The read of lane `l` of the bucket, which is possible once. -/
def laneStep (ht : DramblastHt) (l : Fin 8) (fd : Finder) : Option Finder :=
  match fd.pc with
  | .load item lanes =>
    if (lanes l).isNone then
      some { fd with
        pc := .load item (Function.update lanes l (some (bucketWord ht item.1.idx l))) }
    else none
  | _ => none

/-- The inserts `C` and the finders `F` on one table. -/
structure System (C F : Type*) where
  race : InsertRace C
  finders : F → Finder

/-- Who takes a step. -/
inductive Event (C F : Type*) where
  | insert (c : C)
  | find (f : F)
  | lane (f : F) (l : Fin 8)

/-- A step of the finder `f`. -/
def Event.isOf {C F : Type*} [DecidableEq F] (f : F) : Event C F → Bool
  | .insert _ => false
  | .find g => g = f
  | .lane g _ => g = f

section
variable {C F : Type*} [DecidableEq C] [DecidableEq F] (crc : BitVec 64 → BitVec 64)
  (k v : C → BitVec 64) (args : F → List DramblastArg)

/-- One step of the system, if it is possible. -/
def systemStep (s : System C F) : Event C F → Option (System C F)
  | .insert c => some { s with race := insertStep k v c s.race }
  | .find f =>
    (findStep crc s.race.ht (args f) (s.finders f)).map fun fd =>
      { s with finders := Function.update s.finders f fd }
  | .lane f l =>
    (laneStep s.race.ht l (s.finders f)).map fun fd =>
      { s with finders := Function.update s.finders f fd }

/-- The steps of a schedule, if all of them are possible. -/
def systemRun : List (Event C F) → System C F → Option (System C F)
  | [], s => some s
  | e :: schedule, s => (systemStep crc k v args s e).bind (systemRun schedule)

/-- All calls before their first step. -/
def systemStart (ht : DramblastHt) (queues : F → DramblastQueue Lookup) : System C F :=
  { race := insertStart crc k ht, finders := fun f => findStart (args f) (queues f) }

end

end NetBlast.Concurrent
