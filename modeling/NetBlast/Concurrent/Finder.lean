import NetBlast.Concurrent.Find

/-!
# What a racing lookup knows

The invariant of one finder, over a table that inserts are extending. The lookups in flight and the
results account for every pushed argument once (`FinderInv.account`). A relation `P j p` marks
lookups that may not fail: the key of argument `j` was in the slot of its probe `p` before the
argument was pushed. Such a lookup never gets past that slot (`LookupAt.ahead`), because occupied
slots keep their keys. `Finder.work` counts the steps that a finder has left at most.
-/

namespace NetBlast.Concurrent
open Probing Dramblast

/-- The item that a call is working on. -/
def FindPc.hand : FindPc → List Lookup
  | .load item _ => [item]
  | .value item _ => [item]
  | _ => []

/-- The lookups without a result. -/
def Finder.inFlight (fd : Finder) : List Lookup :=
  fd.queue.contents ++ fd.pc.hand

/-- A lookup that is to visit bucket `b` of its probe sequence. -/
structure LookupAt (crc : BitVec 64 → BitVec 64) (ht : DramblastHt) (args : List DramblastArg)
    (P : Nat → Nat → Prop) (x : Lookup) (arg : DramblastArg) (b : Nat) : Prop where
  here : args[x.2]? = some arg
  item : x.1 = bucketItem crc ht arg b
  more : 4 * b < ht.len
  ahead : ∀ p, P x.2 p → 4 * b ≤ p

/-- What the word read from the slot of probe `q` still says. -/
structure LaneOk (crc : BitVec 64 → BitVec 64) (ht : DramblastHt) (P : Nat → Nat → Prop) (j : Nat)
    (key : BitVec 64) (q : Nat) (w : BitVec 64) : Prop where
  occupied : w ≠ 0 → ht.keys (ht.probe crc key q) = w
  promised : ∀ p, P j p → q ≤ p → ht.keys (ht.probe crc key q) = w

/-- A result that is right. -/
structure ResultOk {C : Type*} (k v : C → BitVec 64) (args : List DramblastArg) (P : Nat → Nat → Prop)
    (x : DramblastResult × Nat) (arg : DramblastArg) : Prop where
  here : args[x.2]? = some arg
  id : x.1.id = arg.id
  promised : ∀ p, P x.2 p → x.1.status = .found
  passed : arg.k ≠ 0 → x.1.status = .found → ∃ c, k c = arg.k ∧ v c = x.1.v

/-- What a call knows at each point. -/
def PcInv (crc : BitVec 64 → BitVec 64) (ht : DramblastHt) (args : List DramblastArg)
    (P : Nat → Nat → Prop) (fd : Finder) : FindPc → Prop
  | .fill => fd.results.length < args.length
  | .load x lanes => fd.queue.sz < dramblastFindQueueSize - 1 ∧ ∃ arg b,
      LookupAt crc ht args P x arg b ∧ fd.probes x.2 = b + 1 ∧
      ∀ (i : Fin 4) w, lanes (keyLane i) = some w → LaneOk crc ht P x.2 arg.k (4 * b + i) w
  | .value x offset => ∃ arg b, LookupAt crc ht args P x arg b ∧ ∃ i : Fin 4, offset = 2 * i ∧
      (arg.k ≠ 0 → ht.keys (ht.probe crc arg.k (4 * b + i)) = arg.k)
  | .returned => fd.results.length = args.length

/-- The invariant of a finder. -/
structure FinderInv {C : Type*} (crc : BitVec 64 → BitVec 64) (k v : C → BitVec 64) (ht : DramblastHt)
    (args : List DramblastArg) (P : Nat → Nat → Prop) (fd : Finder) : Prop where
  head_le : fd.argsHead ≤ args.length
  account : (fd.inFlight.map (·.2) ++ fd.results.map (·.2)).Perm (List.range fd.argsHead)
  waiting : ∀ x ∈ fd.queue.contents, ∃ arg b, LookupAt crc ht args P x arg b ∧ fd.probes x.2 = b
  pc : PcInv crc ht args P fd fd.pc
  results : ∀ x ∈ fd.results, ∃ arg, ResultOk k v args P x arg
  probes_le : ∀ j, fd.probes j ≤ ht.len / 4
  fresh : ∀ j, fd.argsHead ≤ j → fd.probes j = 0
  promise : ∀ j p, P j p → ∃ arg, args[j]? = some arg ∧ arg.k ≠ 0 ∧ p < ht.len ∧
    ht.keys (ht.probe crc arg.k p) = arg.k

/-- The lanes that are still to be read. -/
def unread (lanes : Fin 8 → Option (BitVec 64)) : Nat :=
  (Finset.univ.filter fun l => (lanes l).isNone).card

/-- The steps that the item at work takes at most before it has a result or is pushed back. -/
def FindPc.work (len : Nat) : FindPc → Nat
  | .load x lanes => 12 * (rounds len x.1 - 1) + 2 + unread lanes
  | .value x _ => 12 * (rounds len x.1 - 1) + 1
  | _ => 0

/-- The steps that a finder takes at most: twelve for every bucket of every argument, and its
    push. -/
def Finder.work (len : Nat) (args : List DramblastArg) (fd : Finder) : Nat :=
  (fd.queue.contents.map fun x => 12 * rounds len x.1).sum + fd.pc.work len +
    (args.length - fd.argsHead) * (12 * (len / 4) + 1)

variable {C : Type*} {crc : BitVec 64 → BitVec 64} {k v : C → BitVec 64} {ht ht' : DramblastHt}
  {args : List DramblastArg} {P : Nat → Nat → Prop} {fd fd' : Finder}

/-- The item of a bucket depends on the length of the table only. -/
lemma bucketItem_congr {arg b} (len : ht'.len = ht.len) :
    bucketItem crc ht' arg b = bucketItem crc ht arg b := by
  unfold bucketItem
  rw [probe_congr len]

/-- The rounds that an item has left. -/
lemma rounds_bucketItem {arg b} : rounds ht.len (bucketItem crc ht arg b) = ht.len / 4 - b := by
  have vc : (bucketItem crc ht arg b).visitCount = 4 * b := rfl
  unfold rounds
  rw [vc]
  omega

/-- What is known of a lookup stays true when the table grows. -/
lemma LookupAt.grow {x arg b} (at_ : LookupAt crc ht args P x arg b) (len : ht'.len = ht.len) :
    LookupAt crc ht' args P x arg b where
  here := at_.here
  item := by rw [bucketItem_congr len, at_.item]
  more := by rw [len]; exact at_.more
  ahead := at_.ahead

/-- A promised key, and everything on the way to it, is in an occupied slot. -/
lemma FinderInv.promised_occupied (inv : FinderInv crc k v ht args P fd)
    (ch : Chained ht.len (dramblastHash crc ht) 0 ht.keys) {j p q arg} (hP : P j p)
    (here : args[j]? = some arg) (le : q ≤ p) : ht.keys (ht.probe crc arg.k q) ≠ 0 := by
  obtain ⟨arg', here', ne, lt, e⟩ := inv.promise j p hP
  rw [here, Option.some.injEq] at here'
  subst here'
  rcases Nat.lt_or_eq_of_le le with before | rfl
  · exact ch.chain lt ne e before
  · rw [e]
    exact ne

/-- What a finder knows stays true when the table grows. -/
lemma FinderInv.grow (inv : FinderInv crc k v ht args P fd)
    (ch : Chained ht.len (dramblastHash crc ht) 0 ht.keys) (len : ht'.len = ht.len)
    (grows : Grows 0 ht.keys ht'.keys) : FinderInv crc k v ht' args P fd where
  head_le := inv.head_le
  account := inv.account
  waiting x mem := by
    obtain ⟨arg, b, at_, visited⟩ := inv.waiting x mem
    exact ⟨arg, b, at_.grow len, visited⟩
  pc := by
    have known := inv.pc
    unfold PcInv at known ⊢
    cases pc : fd.pc with
    | fill => rwa [pc] at known
    | load x lanes =>
      rw [pc] at known
      obtain ⟨room, arg, b, at_, visited, read⟩ := known
      refine ⟨room, arg, b, at_.grow len, visited, fun i w e => ?_⟩
      obtain ⟨occupied, promised⟩ := read i w e
      constructor
      · intro ne
        rw [probe_congr len, grows _ (by rw [occupied ne]; exact ne)]
        exact occupied ne
      · intro p hP le
        rw [probe_congr len, grows _ (inv.promised_occupied ch hP at_.here le)]
        exact promised p hP le
    | value x offset =>
      rw [pc] at known
      obtain ⟨arg, b, at_, i, e, found⟩ := known
      refine ⟨arg, b, at_.grow len, i, e, fun ne => ?_⟩
      rw [probe_congr len, grows _ (by rw [found ne]; exact ne)]
      exact found ne
    | returned => rwa [pc] at known
  results := inv.results
  probes_le := by
    rw [len]
    exact inv.probes_le
  fresh := inv.fresh
  promise j p hP := by
    obtain ⟨arg, here, ne, lt, e⟩ := inv.promise j p hP
    refine ⟨arg, here, ne, by rwa [len], ?_⟩
    rw [probe_congr len, grows _ (by rw [e]; exact ne)]
    exact e

/-- The places in flight and those answered are different. -/
lemma FinderInv.nodup (inv : FinderInv crc k v ht args P fd) :
    (fd.inFlight.map (·.2) ++ fd.results.map (·.2)).Nodup :=
  inv.account.nodup_iff.mpr List.nodup_range

/-- The arguments pushed are in the ring, in hand, or answered. -/
lemma FinderInv.counted (inv : FinderInv crc k v ht args P fd) :
    fd.queue.sz + fd.pc.hand.length + fd.results.length = fd.argsHead := by
  have length := inv.account.length_eq
  unfold Finder.inFlight at length
  simp only [List.map_append, List.length_append, List.length_map, DramblastQueue.length_contents,
    List.length_range] at length
  exact length

/-- A place in flight was pushed. -/
lemma FinderInv.pushed (inv : FinderInv crc k v ht args P fd) {x} (mem : x ∈ fd.inFlight) :
    x.2 < fd.argsHead :=
  List.mem_range.mp (inv.account.mem_iff.mp
    (List.mem_append_left _ (List.mem_map_of_mem mem)))

/-- Answering the item at work keeps the invariant. -/
lemma FinderInv.emit {x arg w status} (inv : FinderInv crc k v ht args P fd)
    (hand : fd.pc.hand = [x])
    (ok : ResultOk k v args P ({ v := w, id := x.1.id, status }, x.2) arg) :
    FinderInv crc k v ht args P (fd.emit args x w status) where
  head_le := inv.head_le
  account := by
    have rest : (findNext args (fd.results.length + 1)).hand = [] := by
      unfold findNext
      split <;> rfl
    have perm := inv.account
    unfold Finder.inFlight at perm ⊢
    rw [hand] at perm
    simp only [Finder.emit, rest, List.append_nil, List.map_append, List.map_cons, List.map_nil] at perm ⊢
    refine List.Perm.trans ?_ perm
    rw [List.append_assoc]
    exact List.Perm.append_left _ List.perm_append_comm
  waiting := inv.waiting
  pc := by
    have counted := inv.counted
    have head_le := inv.head_le
    rw [hand] at counted
    unfold Finder.emit findNext
    dsimp only
    split
    · next more =>
      unfold PcInv
      simpa using more
    · next done =>
      unfold PcInv
      simp only [List.length_append, List.length_singleton] at counted ⊢
      omega
  results y mem := by
    rcases List.mem_append.mp mem with old | new
    · exact inv.results y old
    · rw [List.mem_singleton] at new
      rw [new]
      exact ⟨arg, ok⟩
  probes_le := inv.probes_le
  fresh := inv.fresh
  promise := inv.promise

/-- An answer takes work away. -/
lemma emit_work (ht : DramblastHt) (args : List DramblastArg) (fd : Finder) (x : Lookup)
    (w : BitVec 64) (status : DramblastStatus) :
    (fd.emit args x w status).work ht.len args + fd.pc.work ht.len = fd.work ht.len args := by
  have done : (findNext args (fd.results.length + 1)).work ht.len = 0 := by
    unfold findNext
    split <;> rfl
  unfold Finder.work Finder.emit
  dsimp only
  rw [done]
  omega

/-- Pushing the next argument. -/
lemma FinderInv.push (inv : FinderInv crc k v ht args P fd) (pc : fd.pc = .fill)
    (more : fd.argsHead < args.length) (room : fd.queue.sz < dramblastFindQueueSize - 1)
    (e : fd' = { fd with
      queue := fd.queue.push (bucketItem crc ht args[fd.argsHead] 0, fd.argsHead)
      argsHead := fd.argsHead + 1
      pc := .fill }) :
    FinderInv crc k v ht args P fd' ∧ fd'.work ht.len args < fd.work ht.len args := by
  have pos := ht.four_le
  have contents : fd'.queue.contents =
      fd.queue.contents ++ [(bucketItem crc ht args[fd.argsHead] 0, fd.argsHead)] := by
    rw [e]
    exact fd.queue.contents_push room
  have head : fd'.argsHead = fd.argsHead + 1 := by rw [e]
  have probes : fd'.probes = fd.probes := by rw [e]
  have results : fd'.results = fd.results := by rw [e]
  have pc' : fd'.pc = .fill := by rw [e]
  clear e
  constructor
  · constructor
    · rw [head]
      exact more
    · have account := inv.account
      unfold Finder.inFlight at account ⊢
      rw [pc] at account
      rw [pc', contents, results, head]
      simp only [FindPc.hand, List.append_nil, List.map_append, List.map_cons,
        List.map_nil, List.range_succ] at account ⊢
      rw [List.append_assoc]
      refine (List.Perm.append_left _ List.perm_append_comm).trans ?_
      rw [← List.append_assoc]
      exact account.append_right _
    · intro x mem
      rw [contents, List.mem_append, List.mem_singleton] at mem
      rw [probes]
      rcases mem with old | rfl
      · exact inv.waiting x old
      · have here : args[fd.argsHead]? = some args[fd.argsHead] := List.getElem?_eq_getElem more
        exact ⟨args[fd.argsHead], 0, ⟨here, rfl, by omega, fun p _ => by omega⟩, inv.fresh _ le_rfl⟩
    · have known := inv.pc
      rw [pc] at known
      rw [pc']
      unfold PcInv at known ⊢
      rw [results]
      exact known
    · rw [results]
      exact inv.results
    · rw [probes]
      exact inv.probes_le
    · rw [probes, head]
      intro j le
      exact inv.fresh j (by omega)
    · exact inv.promise
  · unfold Finder.work
    rw [contents, pc, pc', head]
    simp only [List.map_append, List.sum_append, List.map_cons, List.map_nil, List.sum_cons,
      List.sum_nil, rounds_bucketItem, FindPc.work]
    have less : args.length - fd.argsHead = (args.length - (fd.argsHead + 1)) + 1 := by omega
    rw [less, Nat.add_mul]
    omega

/-- Popping the oldest item, and its visit. -/
lemma FinderInv.pop (inv : FinderInv crc k v ht args P fd) (pc : fd.pc = .fill)
    (live : 0 < fd.queue.sz)
    (e : fd' = { fd with
      queue := fd.queue.pop.2
      probes := Function.update fd.probes fd.queue.pop.1.2 (fd.probes fd.queue.pop.1.2 + 1)
      pc := .load fd.queue.pop.1 fun _ => none }) :
    FinderInv crc k v ht args P fd' ∧ fd'.work ht.len args < fd.work ht.len args := by
  have dvd := ht.four_dvd
  have contents := fd.queue.contents_pop live
  have sz := fd.queue.sz_pop live
  have lt := fd.queue.sz_lt
  have queue : fd'.queue = fd.queue.pop.2 := by rw [e]
  have head : fd'.argsHead = fd.argsHead := by rw [e]
  have results : fd'.results = fd.results := by rw [e]
  have pc' : fd'.pc = .load fd.queue.pop.1 fun _ => none := by rw [e]
  have probes : fd'.probes =
      Function.update fd.probes fd.queue.pop.1.2 (fd.probes fd.queue.pop.1.2 + 1) := by rw [e]
  clear e
  rw [← queue] at contents sz
  generalize fd.queue.pop.1 = x at contents pc' probes
  have mem : x ∈ fd.queue.contents := by
    rw [contents]
    exact List.mem_cons_self
  obtain ⟨arg, b, at_, visited⟩ := inv.waiting x mem
  have more := at_.more
  constructor
  · constructor
    · rw [head]
      exact inv.head_le
    · have account := inv.account
      unfold Finder.inFlight at account ⊢
      rw [pc, contents] at account
      rw [pc', results, head]
      simp only [FindPc.hand, List.append_nil, List.map_cons, List.map_append, List.map_nil] at account ⊢
      refine List.Perm.trans ?_ account
      exact List.Perm.append_right _ List.perm_append_comm
    · intro y mem'
      obtain ⟨arg', b', at_', visited'⟩ :=
        inv.waiting y (by rw [contents]; exact List.mem_cons_of_mem _ mem')
      refine ⟨arg', b', at_', ?_⟩
      rw [probes, Function.update_of_ne, visited']
      -- two items of the ring have different places
      intro e
      have nodup := inv.nodup
      unfold Finder.inFlight at nodup
      rw [contents, List.cons_append, List.map_cons, List.cons_append, List.nodup_cons] at nodup
      refine nodup.1 (List.mem_append_left _ (List.mem_map.mpr ⟨y, ?_, e⟩))
      exact List.mem_append_left _ mem'
    · rw [pc']
      refine ⟨by omega, arg, b, at_, ?_, fun _ _ unread => ?_⟩
      · rw [probes, Function.update_self, visited]
      · cases unread
    · rw [results]
      exact inv.results
    · intro j
      rw [probes, Function.update_apply]
      split
      · rw [visited]
        omega
      · exact inv.probes_le j
    · intro j le
      rw [head] at le
      have pushed := inv.pushed (List.mem_append_left _ mem)
      rw [probes, Function.update_of_ne (by omega), inv.fresh j le]
    · exact inv.promise
  · have rounds_x : rounds ht.len x.1 = ht.len / 4 - b := by
      rw [at_.item, rounds_bucketItem]
    have all : unread (fun _ => none) = 8 := rfl
    unfold Finder.work
    rw [pc, pc', contents, head]
    rw [List.map_cons, List.sum_cons, rounds_x]
    unfold FindPc.work
    dsimp only
    rw [rounds_x, all]
    omega

/-- The step of a finder that fills its ring. -/
lemma FinderInv.fill (inv : FinderInv crc k v ht args P fd) (pc : fd.pc = .fill)
    (step : findStep crc ht args fd = some fd') :
    FinderInv crc k v ht args P fd' ∧ fd'.work ht.len args < fd.work ht.len args := by
  have known := inv.pc
  have counted := inv.counted
  rw [pc] at known counted
  unfold findStep at step
  rw [pc] at step
  dsimp only at step
  split at step
  · next more =>
    obtain ⟨more, room⟩ := more
    have item : startItem crc ht args[fd.argsHead] = bucketItem crc ht args[fd.argsHead] 0 :=
      startItem_eq
    unfold startItem at item
    rw [item, Option.some.injEq] at step
    exact inv.push pc more room step.symm
  · next full =>
    -- the ring is not empty, because some argument has no result yet
    have live : 0 < fd.queue.sz := by
      have size : dramblastFindQueueSize = 64 := rfl
      unfold PcInv at known
      simp only [FindPc.hand, List.length_nil] at counted
      by_contra none
      apply full
      constructor <;> omega
    rw [Option.some.injEq] at step
    exact inv.pop pc live step.symm

/-- A step within the work on one item. -/
lemma FinderInv.goto {pc'} (inv : FinderInv crc k v ht args P fd) (hand : pc'.hand = fd.pc.hand)
    (known : PcInv crc ht args P fd pc') :
    FinderInv crc k v ht args P { fd with pc := pc' } where
  head_le := inv.head_le
  account := by
    have account := inv.account
    unfold Finder.inFlight at account ⊢
    rw [← hand] at account
    exact account
  waiting := inv.waiting
  pc := by
    cases pc' with
    | fill => exact known
    | load x lanes => exact known
    | value x offset => exact known
    | returned => exact known
  results := inv.results
  probes_le := inv.probes_le
  fresh := inv.fresh
  promise := inv.promise

/-- What the read of a lane does. -/
lemma laneStep_eq {l} (step : laneStep ht l fd = some fd') :
    ∃ x lanes, fd.pc = .load x lanes ∧ (lanes l).isNone ∧
      fd' = { fd with
        pc := .load x (Function.update lanes l (some (bucketWord ht x.1.idx l))) } := by
  unfold laneStep at step
  split at step
  · next x lanes pc =>
    split at step
    · next missing =>
      rw [Option.some.injEq] at step
      exact ⟨x, lanes, pc, missing, step.symm⟩
    · cases step
  · cases step

/-- Reading a lane leaves one lane less. -/
lemma card_unread {lanes : Fin 8 → Option (BitVec 64)} {l w} (missing : (lanes l).isNone) :
    unread (Function.update lanes l (some w)) + 1 = unread lanes := by
  unfold unread
  have mem : l ∈ Finset.univ.filter fun l => (lanes l).isNone :=
    Finset.mem_filter.mpr ⟨Finset.mem_univ l, missing⟩
  have erased : (Finset.univ.filter fun l' => (Function.update lanes l (some w) l').isNone) =
      (Finset.univ.filter fun l => (lanes l).isNone).erase l := by
    ext l'
    rw [Finset.mem_erase, Finset.mem_filter, Finset.mem_filter, Function.update_apply]
    by_cases e : l' = l
    · simp [e]
    · simp [e]
  rw [erased, Finset.card_erase_add_one mem]

/-- The step that reads a lane. -/
lemma FinderInv.lane {l} (inv : FinderInv crc k v ht args P fd) (step : laneStep ht l fd = some fd') :
    FinderInv crc k v ht args P fd' ∧ fd'.work ht.len args < fd.work ht.len args := by
  obtain ⟨x, lanes, pc, missing, rfl⟩ := laneStep_eq step
  have known := inv.pc
  rw [pc] at known
  obtain ⟨room, arg, b, at_, visited, read⟩ := known
  constructor
  · refine inv.goto (by rw [pc]; rfl) ⟨room, arg, b, at_, visited, fun i w e => ?_⟩
    rw [Function.update_apply] at e
    split at e
    · next here =>
      -- the lane that was read just now holds the key of its slot
      have now : bucketWord ht x.1.idx l = ht.keys (ht.probe crc arg.k (4 * b + i)) := by
        rw [← here, at_.item, ← probe_add]
        exact mm512LoadSi512_keyLane
      rw [Option.some.injEq, now] at e
      exact ⟨fun _ => e, fun _ _ _ => e⟩
    · exact read i w e
  · have less := card_unread (w := bucketWord ht x.1.idx l) missing
    unfold Finder.work
    rw [pc]
    unfold FindPc.work
    dsimp only
    omega

/-- The comparison of a bucket whose lanes are all read. -/
lemma findStep_load {x lanes} (pc : fd.pc = .load x lanes)
    (step : findStep crc ht args fd = some fd') :
    (∀ l, (lanes l).isSome) ∧
      fd' = match findCompare ht.len x.1 fun l => (lanes l).getD 0 with
        | .hit offset => { fd with pc := .value x offset }
        | .tableFull => fd.emit args x 0 .tableFull
        | .absent => fd.emit args x 0 .absent
        | .next item => { fd with queue := fd.queue.push (item, x.2), pc := .fill } := by
  unfold findStep at step
  rw [pc] at step
  dsimp only at step
  split at step
  · next all =>
    refine ⟨all, ?_⟩
    cases e : findCompare ht.len x.1 fun l => (lanes l).getD 0 <;>
    · rw [e] at step
      exact (Option.some.inj step).symm
  · cases step

/-- Pushing the item at work back for its next bucket. -/
lemma FinderInv.again {x lanes arg b} (inv : FinderInv crc k v ht args P fd)
    (pc : fd.pc = .load x lanes) (room : fd.queue.sz < dramblastFindQueueSize - 1)
    (at_ : LookupAt crc ht args P x arg b) (visited : fd.probes x.2 = b + 1)
    (more : 4 * b + 4 < ht.len) (later : ∀ p, P x.2 p → 4 * b + 4 ≤ p)
    (e : fd' = { fd with queue := fd.queue.push (x.1.advance ht.len, x.2), pc := .fill }) :
    FinderInv crc k v ht args P fd' ∧ fd'.work ht.len args < fd.work ht.len args := by
  have dvd := ht.four_dvd
  have item : x.1.advance ht.len = bucketItem crc ht arg (b + 1) := by
    rw [at_.item, advance_bucketItem]
  have hand : fd.pc.hand = [x] := by rw [pc]; rfl
  have contents : fd'.queue.contents = fd.queue.contents ++ [(bucketItem crc ht arg (b + 1), x.2)] := by
    rw [e, ← item]
    exact fd.queue.contents_push room
  have head : fd'.argsHead = fd.argsHead := by rw [e]
  have results : fd'.results = fd.results := by rw [e]
  have probes : fd'.probes = fd.probes := by rw [e]
  have pc' : fd'.pc = .fill := by rw [e]
  clear e
  constructor
  · constructor
    · rw [head]
      exact inv.head_le
    · have account := inv.account
      unfold Finder.inFlight at account ⊢
      rw [hand] at account
      rw [contents, pc', results, head]
      simp only [FindPc.hand, List.append_nil, List.map_append, List.map_cons,
        List.map_nil] at account ⊢
      exact account
    · intro y mem
      rw [contents, List.mem_append, List.mem_singleton] at mem
      rw [probes]
      rcases mem with old | rfl
      · exact inv.waiting y old
      · refine ⟨arg, b + 1, ⟨at_.here, rfl, by omega, fun p hP => ?_⟩, visited⟩
        have := later p hP
        omega
    · have counted := inv.counted
      have head_le := inv.head_le
      rw [hand, List.length_singleton] at counted
      rw [pc']
      unfold PcInv
      rw [results]
      omega
    · rw [results]
      exact inv.results
    · rw [probes]
      exact inv.probes_le
    · rw [probes, head]
      exact inv.fresh
    · exact inv.promise
  · have now : rounds ht.len x.1 = ht.len / 4 - b := by
      rw [at_.item, rounds_bucketItem]
    unfold Finder.work
    rw [contents, pc, pc', head, List.map_append, List.sum_append, List.map_singleton,
      List.sum_singleton, rounds_bucketItem]
    unfold FindPc.work
    dsimp only
    rw [now]
    omega

/-- The words of a bucket without the key of the item: a promised key is in a later bucket. -/
lemma FinderInv.later {x arg b} {word : Fin 4 → BitVec 64} (inv : FinderInv crc k v ht args P fd)
    (at_ : LookupAt crc ht args P x arg b)
    (read : ∀ i : Fin 4, LaneOk crc ht P x.2 arg.k (4 * b + i) (word i))
    (other : ∀ i, word i ≠ arg.k) {p} (hP : P x.2 p) : 4 * b + 4 ≤ p ∧ p < ht.len := by
  obtain ⟨arg', here, ne, lt, e⟩ := inv.promise x.2 p hP
  rw [at_.here, Option.some.injEq] at here
  subst here
  refine ⟨?_, lt⟩
  by_contra near
  have ahead := at_.ahead p hP
  obtain ⟨i, rfl⟩ : ∃ i : Fin 4, p = 4 * b + i :=
    ⟨⟨p - 4 * b, by omega⟩, (Nat.add_sub_cancel' ahead).symm⟩
  have same := (read i).promised _ hP le_rfl
  exact other i (same.symm.trans e)

/-- An answer without a value is right if nothing is promised. -/
lemma LookupAt.missed {x arg b status} (at_ : LookupAt crc ht args P x arg b)
    (no : ∀ p, ¬ P x.2 p) (ne : status ≠ .found) :
    ResultOk k v args P ({ v := 0, id := x.1.id, status }, x.2) arg where
  here := at_.here
  id := by rw [at_.item]; rfl
  promised p hP := absurd hP (no p)
  passed _ found := absurd found ne

/-- The step that compares a loaded bucket. -/
lemma FinderInv.compare {x lanes} (inv : FinderInv crc k v ht args P fd)
    (ch : Chained ht.len (dramblastHash crc ht) 0 ht.keys) (pc : fd.pc = .load x lanes)
    (step : findStep crc ht args fd = some fd') :
    FinderInv crc k v ht args P fd' ∧ fd'.work ht.len args < fd.work ht.len args := by
  have known := inv.pc
  rw [pc] at known
  obtain ⟨room, arg, b, at_, visited, read⟩ := known
  have hand : fd.pc.hand = [x] := by rw [pc]; rfl
  have work : fd.pc.work ht.len = 12 * (rounds ht.len x.1 - 1) + 2 + unread lanes := by rw [pc]; rfl
  have key : x.1.k = arg.k := by rw [at_.item]; rfl
  have count : x.1.visitCount = 4 * b := by rw [at_.item]; rfl
  obtain ⟨all, e'⟩ := findStep_load pc step
  have word (i : Fin 4) : LaneOk crc ht P x.2 arg.k (4 * b + i) ((lanes (keyLane i)).getD 0) := by
    obtain ⟨w, e⟩ := Option.isSome_iff_exists.mp (all (keyLane i))
    rw [e]
    exact read i w e
  rcases findCompare_cases ht.len x.1 fun l => (lanes l).getD 0 with
    ⟨i, e, hit, _⟩ | ⟨other, rest⟩
  · rw [e] at e'
    rw [key] at hit
    dsimp only at e'
    subst e'
    constructor
    · refine inv.goto (by rw [hand]; rfl) ⟨arg, b, at_, i, rfl, fun ne => ?_⟩
      have occupied := (word i).occupied
      rw [hit] at occupied
      exact occupied ne
    · unfold Finder.work
      rw [work]
      unfold FindPc.work
      dsimp only
      omega
  · rw [key] at other
    rw [count] at rest
    have later {p} (hP : P x.2 p) := inv.later at_ word other hP
    rcases rest with ⟨bound, e⟩ | ⟨more, ⟨i, free⟩, e⟩ | ⟨more, full, e⟩
    · -- the probe bound: a promised key would be in a bucket that does not exist
      rw [e] at e'
      dsimp only at e'
      subst e'
      refine ⟨inv.emit hand (at_.missed (fun p hP => ?_) nofun), ?_⟩
      · have := later hP
        omega
      · have := emit_work ht args fd x 0 .tableFull
        omega
    · -- a free slot: the way to a promised key has none
      rw [e] at e'
      dsimp only at e'
      subst e'
      refine ⟨inv.emit hand (at_.missed (fun p hP => ?_) nofun), ?_⟩
      · have far := (later hP).1
        have same := (word i).promised p hP (by omega)
        rw [free] at same
        exact inv.promised_occupied ch hP at_.here (by omega) same
      · have := emit_work ht args fd x 0 .absent
        omega
    · rw [e] at e'
      exact inv.again pc room at_ visited more (fun p hP => (later hP).1) e'

/-- The step that reads a value: next to the key that was found stands a value inserted with it. -/
lemma FinderInv.value {x offset} (inv : FinderInv crc k v ht args P fd)
    (origin : ∀ s < ht.len, ht.keys s ≠ 0 → ∃ c, k c = ht.keys s ∧ v c = ht.vals s)
    (pc : fd.pc = .value x offset) (step : findStep crc ht args fd = some fd') :
    FinderInv crc k v ht args P fd' ∧ fd'.work ht.len args < fd.work ht.len args := by
  have known := inv.pc
  rw [pc] at known
  obtain ⟨arg, b, at_, i, e, found⟩ := known
  have hand : fd.pc.hand = [x] := by rw [pc]; rfl
  have id : x.1.id = arg.id := by rw [at_.item]; rfl
  have read : bucketWord ht x.1.idx (offset + 1) = ht.vals (ht.probe crc arg.k (4 * b + i)) := by
    rw [e, bucketWord_value, at_.item, ← probe_add]
    rfl
  unfold findStep at step
  rw [pc] at step
  dsimp only at step
  rw [read, Option.some.injEq] at step
  subst step
  constructor
  · refine inv.emit hand ⟨at_.here, id, fun _ _ => rfl, fun ne _ => ?_⟩
    have here := found ne
    obtain ⟨c, ek, ev⟩ := origin _ DramblastHt.probe_lt (by rw [here]; exact ne)
    exact ⟨c, ek.trans here, ev⟩
  · have work : fd.pc.work ht.len = 12 * (rounds ht.len x.1 - 1) + 1 := by rw [pc]; rfl
    have := emit_work ht args fd x (ht.vals (ht.probe crc arg.k (4 * b + i))) .found
    omega

/-- The steps of a finder keep its invariant and take work away. -/
lemma FinderInv.step (inv : FinderInv crc k v ht args P fd)
    (ch : Chained ht.len (dramblastHash crc ht) 0 ht.keys)
    (origin : ∀ s < ht.len, ht.keys s ≠ 0 → ∃ c, k c = ht.keys s ∧ v c = ht.vals s)
    (step : findStep crc ht args fd = some fd') :
    FinderInv crc k v ht args P fd' ∧ fd'.work ht.len args < fd.work ht.len args := by
  cases pc : fd.pc with
  | fill => exact inv.fill pc step
  | load x lanes => exact inv.compare ch pc step
  | value x offset => exact inv.value origin pc step
  | returned =>
    unfold findStep at step
    rw [pc] at step
    cases step

/-- An idle ring is empty. -/
lemma contents_idle {queue : DramblastQueue Lookup}
    (idle : queue.findQueueHead = queue.findQueueTail) :
    queue.contents = [] := by
  rw [← List.length_eq_zero_iff, DramblastQueue.length_contents]
  exact queue.sz_eq_zero_iff.mpr idle

/-- A call on an idle ring, before its first step: nothing is promised yet. -/
lemma FinderInv.start {queue : DramblastQueue Lookup}
    (idle : queue.findQueueHead = queue.findQueueTail) :
    FinderInv crc k v ht args (fun _ _ => False) (findStart args queue) := by
  have empty := contents_idle idle
  have hand : (findNext args 0).hand = [] := by
    unfold findNext
    split <;> rfl
  unfold findStart
  constructor
  · exact Nat.zero_le _
  · unfold Finder.inFlight
    dsimp only
    rw [empty, hand]
    exact List.Perm.refl _
  · intro x mem
    rw [empty] at mem
    cases mem
  · dsimp only
    unfold findNext
    split
    · next some => exact some
    · next none => exact (Nat.le_zero.mp (Nat.not_lt.mp none)).symm
  · intro x mem
    cases mem
  · exact fun _ => Nat.zero_le _
  · exact fun _ _ => rfl
  · exact fun _ _ promised => promised.elim

/-- The work of a whole batch. -/
lemma start_work {queue : DramblastQueue Lookup}
    (idle : queue.findQueueHead = queue.findQueueTail) :
    (findStart args queue).work ht.len args = args.length * (12 * (ht.len / 4) + 1) := by
  have work : (findNext args 0).work ht.len = 0 := by
    unfold findNext
    split <;> rfl
  unfold findStart Finder.work
  dsimp only
  rw [contents_idle idle, work, List.map_nil, List.sum_nil, Nat.sub_zero]
  omega

/-- The key of argument `j` is in the table, and the argument is still to be pushed. -/
def Promised (crc : BitVec 64 → BitVec 64) (ht : DramblastHt) (args : List DramblastArg) (fd : Finder)
    (j p : Nat) : Prop :=
  fd.argsHead ≤ j ∧ ∃ arg, args[j]? = some arg ∧ arg.k ≠ 0 ∧ p < ht.len ∧
    ht.keys (ht.probe crc arg.k p) = arg.k

/-- What the table holds now is promised to the arguments that are still to be pushed. -/
lemma FinderInv.promised (inv : FinderInv crc k v ht args (fun _ _ => False) fd) :
    FinderInv crc k v ht args (Promised crc ht args fd) fd where
  head_le := inv.head_le
  account := inv.account
  waiting x mem := by
    obtain ⟨arg, b, at_, visited⟩ := inv.waiting x mem
    have pushed := inv.pushed (List.mem_append_left _ mem)
    exact ⟨arg, b, ⟨at_.here, at_.item, at_.more, fun p hP => absurd pushed hP.1.not_gt⟩, visited⟩
  pc := by
    have known := inv.pc
    cases pc : fd.pc with
    | fill =>
      rw [pc] at known
      exact known
    | load x lanes =>
      rw [pc] at known
      obtain ⟨room, arg, b, at_, visited, read⟩ := known
      have mem : x ∈ fd.inFlight := by
        unfold Finder.inFlight
        rw [pc]
        exact List.mem_append_right _ (List.mem_singleton_self x)
      have pushed := inv.pushed mem
      refine ⟨room, arg, b, ⟨at_.here, at_.item, at_.more, ?_⟩, visited, fun i w e => ?_⟩
      · exact fun p hP => absurd pushed hP.1.not_gt
      · exact ⟨(read i w e).occupied, fun p hP => absurd pushed hP.1.not_gt⟩
    | value x offset =>
      rw [pc] at known
      obtain ⟨arg, b, at_, found⟩ := known
      have mem : x ∈ fd.inFlight := by
        unfold Finder.inFlight
        rw [pc]
        exact List.mem_append_right _ (List.mem_singleton_self x)
      have pushed := inv.pushed mem
      exact ⟨arg, b, ⟨at_.here, at_.item, at_.more, fun p hP => absurd pushed hP.1.not_gt⟩, found⟩
    | returned =>
      rw [pc] at known
      exact known
  results x mem := by
    obtain ⟨arg, ok⟩ := inv.results x mem
    have answered : x.2 < fd.argsHead :=
      List.mem_range.mp (inv.account.mem_iff.mp (List.mem_append_right _ (List.mem_map_of_mem mem)))
    exact ⟨arg, ok.here, ok.id, fun p hP => absurd answered hP.1.not_gt, ok.passed⟩
  probes_le := inv.probes_le
  fresh := inv.fresh
  promise _ _ hP := hP.2

/-- After the return every argument has one result, and the ring is idle again. -/
lemma FinderInv.returned (inv : FinderInv crc k v ht args P fd) (pc : fd.pc = .returned) :
    (fd.results.map (·.2)).Perm (List.range args.length) ∧
      fd.queue.findQueueHead = fd.queue.findQueueTail := by
  have known := inv.pc
  have counted := inv.counted
  have head_le := inv.head_le
  have account := inv.account
  unfold Finder.inFlight at account
  rw [pc] at known counted account
  unfold PcInv at known
  have hand : FindPc.returned.hand = [] := rfl
  rw [hand, List.length_nil] at counted
  have sz : fd.queue.sz = 0 := by omega
  have empty : fd.queue.contents = [] := by
    rw [← List.length_eq_zero_iff, DramblastQueue.length_contents, sz]
  have head : fd.argsHead = args.length := by omega
  rw [empty, hand, head] at account
  exact ⟨account, fd.queue.sz_eq_zero_iff.mp sz⟩

/-- A call that has not returned can take a step or read a lane. -/
lemma finder_enabled (crc : BitVec 64 → BitVec 64) (ht : DramblastHt) (args : List DramblastArg)
    (pc : fd.pc ≠ .returned) :
    (findStep crc ht args fd).isSome ∨ ∃ l, (laneStep ht l fd).isSome := by
  unfold findStep laneStep
  cases e : fd.pc with
  | fill =>
    left
    dsimp only
    split <;> rfl
  | load x lanes =>
    dsimp only
    by_cases all : ∀ l, (lanes l).isSome
    · left
      rw [if_pos all]
      split <;> rfl
    · right
      obtain ⟨l, missing⟩ := not_forall.mp all
      exact ⟨l, by rw [if_pos (Option.not_isSome_iff_eq_none.mp missing ▸ rfl)]; rfl⟩
  | value x offset =>
    left
    rfl
  | returned => exact absurd e pc

end NetBlast.Concurrent
