import NetBlast.Dramblast.Insert
import NetBlast.Hashmap.Maglev
import NetBlast.Interleaving.Schedule
import NetBlast.Probing.Race

/-!
# Concurrent inserts

`dramblast_insert_one` and `maglev_hashmap_insert` with any number of calls under way on one table.
An atomic step is one access to the table: the read of a key, the 128-bit compare-and-swap, the
second read of the key, or the store of a value. Both are instances of the race of
`Probing.raceStep` (`InsertRace.abs_step`, `MaglevRace.abs_step`), and `concurrent_inserts_safe` is
what that race guarantees in every interleaving.
-/

namespace NetBlast.Concurrent
open Probing Dramblast Hashmap Interleaving

/-- Where a call of `dramblast_insert_one` stands, with its locals: before `kv->k == 0`, before the
    swap, before `kv->k == k`, before `kv->v = v`, or after its return. -/
inductive InsertPc where
  | load (idx count : Nat)
  | swap (idx count : Nat)
  | reload (idx count : Nat)
  | assign (idx count : Nat)
  | returned (r : Int)
deriving DecidableEq

/-- The table, and where the calls `C` stand. -/
structure InsertRace (C : Type*) where
  ht : DramblastHt
  pc : C → InsertPc

/-- Where a call of `maglev_hashmap_insert` stands, with its counter. -/
inductive MaglevPc where
  | load (i : Nat)
  | swap (i : Nat)
  | reload (i : Nat)
  | assign (i : Nat)
  | returned (r : Int)
deriving DecidableEq

/-- The connection table, and where the calls `C` stand. -/
structure MaglevRace (C : Type*) where
  map : MaglevHashmap
  pc : C → MaglevPc

section
variable {C : Type*} [DecidableEq C] (crc : BitVec 64 → BitVec 64) (k v : C → BitVec 64)

/-- A step of `c` that leaves the table alone. -/
def InsertRace.goto (s : InsertRace C) (c : C) (pc : InsertPc) : InsertRace C :=
  { s with pc := Function.update s.pc c pc }

/-- One access of the call `c` of `dramblast_insert_one`. -/
def insertStep (c : C) (s : InsertRace C) : InsertRace C :=
  match s.pc c with
  | .load idx count =>
    let count := count + 1
    if (s.ht.table idx).k = 0 then s.goto c (.swap idx count) else s.goto c (.reload idx count)
  | .swap idx count =>
    if s.ht.table idx = { k := 0, v := 0 } then
      { ht := s.ht.write idx { k := k c, v := v c }
        pc := Function.update s.pc c (.returned 0) }
    else s.goto c (.reload idx count)
  | .reload idx count =>
    if (s.ht.table idx).k = k c then s.goto c (.assign idx count)
    else
      let idx := (idx + 1) &&& (s.ht.len - 1)
      if count ≥ s.ht.len then s.goto c (.returned (-1)) else s.goto c (.load idx count)
  | .assign idx _ =>
    { ht := s.ht.write idx { s.ht.table idx with v := v c }
      pc := Function.update s.pc c (.returned 0) }
  | .returned _ => s

/-- All calls of `dramblast_insert_one` before their first access. -/
def insertStart (ht : DramblastHt) : InsertRace C :=
  { ht, pc := fun c => if k c = 0 then .returned (-1) else .load (dramblastHash crc ht (k c)) 0 }

/-- The calls of `dramblast_insert_one` take their steps in the order of a schedule. -/
def insertRun (schedule : List C) (s : InsertRace C) : InsertRace C :=
  schedule.foldl (fun s c => insertStep k v c s) s

variable (cap : Capacity)

/-- A step of `c` that leaves the connection table alone. -/
def MaglevRace.goto (s : MaglevRace C) (c : C) (pc : MaglevPc) : MaglevRace C :=
  { s with pc := Function.update s.pc c pc }

/-- The test of the loop counter. -/
def maglevNext (i : Nat) : MaglevPc :=
  if i < cap.val then .load i else .returned (-1)

/-- One access of the call `c` of `maglev_hashmap_insert`. -/
def maglevStep (c : C) (s : MaglevRace C) : MaglevRace C :=
  let hash := maglevHash crc cap (k c)
  match s.pc c with
  | .load i =>
    let slot := (hash + i) &&& (cap.val - 1)
    if (s.map.pairs slot).key = 0 then s.goto c (.swap i) else s.goto c (.reload i)
  | .swap i =>
    let slot := (hash + i) &&& (cap.val - 1)
    if s.map.pairs slot = { key := 0, value := 0 } then
      { map := s.map.write slot { key := k c, value := v c }
        pc := Function.update s.pc c (.returned 0) }
    else s.goto c (.reload i)
  | .reload i =>
    let slot := (hash + i) &&& (cap.val - 1)
    if (s.map.pairs slot).key = k c then s.goto c (.assign i)
    else s.goto c (maglevNext cap (i + 1))
  | .assign i =>
    let slot := (hash + i) &&& (cap.val - 1)
    { map := s.map.write slot { s.map.pairs slot with value := v c }
      pc := Function.update s.pc c (.returned 0) }
  | .returned _ => s

/-- All calls of `maglev_hashmap_insert` before their first access. -/
def maglevStart (map : MaglevHashmap) : MaglevRace C :=
  { map, pc := fun c => if k c = 0 then .returned (-1) else maglevNext cap 0 }

/-- The calls of `maglev_hashmap_insert` take their steps in the order of a schedule. -/
def maglevRun (schedule : List C) (s : MaglevRace C) : MaglevRace C :=
  schedule.foldl (fun s c => maglevStep crc k v cap c s) s

end

variable {C : Type*} {crc : BitVec 64 → BitVec 64} {k v : C → BitVec 64} {cap : Capacity}

/-- What a call has returned. -/
def InsertPc.ret : InsertPc → Option Int
  | .returned r => some r
  | _ => none

/-- What a call has returned. -/
def MaglevPc.ret : MaglevPc → Option Int
  | .returned r => some r
  | _ => none

/-- The point of the race that a call stands at: `count` is one ahead of the probe after the
    load. -/
def InsertPc.abs : InsertPc → RacePc
  | .load _ count => .read count
  | .swap _ count => .cas (count - 1)
  | .reload _ count => .reread (count - 1)
  | .assign _ count => .store (count - 1)
  | .returned r => if r = 0 then .stored else .gaveUp

/-- The point of the race that a call stands at. -/
def MaglevPc.abs : MaglevPc → RacePc
  | .load i => .read i
  | .swap i => .cas i
  | .reload i => .reread i
  | .assign i => .store i
  | .returned r => if r = 0 then .stored else .gaveUp

/-- The race that the calls of `dramblast_insert_one` run. -/
def InsertRace.abs (s : InsertRace C) : RaceState C (BitVec 64) (BitVec 64) :=
  { keys := s.ht.keys, vals := s.ht.vals, pc := fun c => (s.pc c).abs }

/-- The race that the calls of `maglev_hashmap_insert` run. -/
def MaglevRace.abs (s : MaglevRace C) : RaceState C (BitVec 64) (BitVec 64) :=
  { keys := s.map.keys, vals := s.map.values, pc := fun c => (s.pc c).abs }

/-- The locals of a call: `idx` is the slot of the probe that `count` counts. -/
def InsertPc.Aligned (crc : BitVec 64 → BitVec 64) (ht : DramblastHt) (key : BitVec 64) :
    InsertPc → Prop
  | .load idx count => idx = ht.probe crc key count
  | .swap idx count => 0 < count ∧ idx = ht.probe crc key (count - 1)
  | .reload idx count => 0 < count ∧ idx = ht.probe crc key (count - 1)
  | .assign idx count => 0 < count ∧ idx = ht.probe crc key (count - 1)
  | .returned _ => True

/-- The locals of every call are in order. -/
def InsertRace.Aligned (crc : BitVec 64 → BitVec 64) (k : C → BitVec 64) (s : InsertRace C) : Prop :=
  ∀ c, (s.pc c).Aligned crc s.ht (k c)

/-- The probe sequence depends on the length of the table only. -/
lemma probe_congr {ht ht' : DramblastHt} {key} (len : ht'.len = ht.len) :
    ht'.probe crc key = ht.probe crc key := by
  funext i
  unfold DramblastHt.probe
  rw [len, dramblastHash_congr len]

/-- The locals stay in order when the table changes and its length does not. -/
lemma InsertPc.Aligned.congr {ht ht' : DramblastHt} {key pc} (len : ht'.len = ht.len)
    (aligned : InsertPc.Aligned crc ht key pc) : InsertPc.Aligned crc ht' key pc := by
  unfold InsertPc.Aligned at aligned ⊢
  rwa [probe_congr len]

/-- What a call at a point of the race has returned: 0 once its key is stored, another value once it
    has given up, and nothing before. -/
def Reports (point : RacePc) : Option Int → Prop
  | some r => point = if r = 0 then .stored else .gaveUp
  | none => point ≠ .stored ∧ point ≠ .gaveUp

/-- A call returns 0 exactly if its key is stored. -/
lemma Reports.stored_iff {point : RacePc} {ret : Option Int} (reports : Reports point ret) :
    point = .stored ↔ ret = some 0 := by
  cases ret with
  | none => exact iff_of_false reports.1 nofun
  | some r =>
    have here : point = if r = 0 then .stored else .gaveUp := reports
    rw [here, Option.some.injEq]
    split
    · next zero => exact iff_of_true rfl zero
    · next nonzero => exact iff_of_false nofun nonzero

/-- A call that has returned -1 has given up. -/
lemma Reports.gaveUp {point : RacePc} {ret : Option Int} (reports : Reports point ret)
    (refused : ret = some (-1)) : point = .gaveUp := by
  subst refused
  exact reports

/-- A call that has stored its key or given up has returned. -/
lemma Reports.returned {point : RacePc} {ret : Option Int} (reports : Reports point ret)
    (done : point = .stored ∨ point = .gaveUp) : ret.isSome := by
  cases ret with
  | none => exact absurd done (not_or.mpr reports)
  | some r => rfl

/-- A call of `dramblast_insert_one` reports where it stands in the race. -/
lemma InsertPc.reports (pc : InsertPc) : Reports pc.abs pc.ret := by
  cases pc with
  | returned r => rfl
  | _ => exact ⟨nofun, nofun⟩

/-- A call of `maglev_hashmap_insert` reports where it stands in the race. -/
lemma MaglevPc.reports (pc : MaglevPc) : Reports pc.abs pc.ret := by
  cases pc with
  | returned r => rfl
  | _ => exact ⟨nofun, nofun⟩

/-- The accesses a call of `dramblast_insert_one` still makes at most. -/
def InsertRace.work (s : InsertRace C) (c : C) : Nat :=
  (s.pc c).abs.work s.ht.len

/-- The accesses a call of `maglev_hashmap_insert` still makes at most. -/
def MaglevRace.work (cap : Capacity) (s : MaglevRace C) (c : C) : Nat :=
  (s.pc c).abs.work cap.val

/-- What holds of the calls of `dramblast_insert_one` in every interleaving. -/
structure InsertInv (crc : BitVec 64 → BitVec 64) (k v : C → BitVec 64) (s : InsertRace C) : Prop where
  aligned : s.Aligned crc k
  race : RaceInv s.ht.len (dramblastHash crc s.ht) 0 0 k v s.abs

/-- The invariant holds before the first access. -/
lemma InsertInv.start (crc : BitVec 64 → BitVec 64) (v : C → BitVec 64) {ht : DramblastHt}
    (zero : ht.AllZero) (ne : ∀ c, k c ≠ 0) :
    InsertInv crc k v (insertStart crc k ht) := by
  have pos := ht.four_le
  have first : ∀ c, (insertStart crc k ht).pc c = .load (dramblastHash crc ht (k c)) 0 :=
    fun c => if_neg (ne c)
  constructor
  · intro c
    rw [first c]
    exact (slotAt_zero dramblastHash_lt).symm
  · apply RaceInv.init (show 0 < ht.len by omega)
    · intro j hj
      have e := zero j hj
      rw [ht.table_eq, DramblastKv.mk.injEq] at e
      exact e
    · intro c
      exact congrArg InsertPc.abs (first c)

/-- The invariant of the race holds before the first access. -/
lemma maglevStart_inv (crc : BitVec 64 → BitVec 64) (v : C → BitVec 64) {map : MaglevHashmap}
    (zero : map.AllZero cap) (ne : ∀ c, k c ≠ 0) :
    RaceInv cap.val (maglevHash crc cap) 0 0 k v (maglevStart k cap map).abs := by
  apply RaceInv.init cap.pos
  · intro j hj
    have e := zero j hj
    rw [map.pairs_eq, MaglevKvPair.mk.injEq] at e
    exact e
  · intro c
    have first : (maglevStart k cap map).pc c = .load 0 := (if_neg (ne c)).trans (if_pos cap.pos)
    exact congrArg MaglevPc.abs first

/-- What is promised of a table of `n` slots on which calls for `k c` with values `v c` are under
    way. -/
structure InsertsSafe (n : Nat) (keys vals : Nat → BitVec 64) (k v : C → BitVec 64)
    (ret : C → Option Int) : Prop where
  unique : ∀ s t, s < n → t < n → keys s ≠ 0 → keys s = keys t → s = t
  clean : ∀ s < n, keys s = 0 → vals s = 0
  refused : ∀ c, ret c = some (-1) → Full n 0 keys ∧ ¬ Stored n keys (k c)
  settled : (∀ c, (ret c).isSome) → ∀ key, key ≠ 0 →
    (Stored n keys key ↔ ∃ c, k c = key ∧ ret c = some 0)
  values : (∀ c, (ret c).isSome) → ∀ s < n, keys s ≠ 0 → ∃ c, k c = keys s ∧ v c = vals s

/-- The race keeps the promise. -/
lemma InsertsSafe.of_race {n home ret} {s : RaceState C (BitVec 64) (BitVec 64)}
    (inv : RaceInv n home 0 0 k v s) (reports : ∀ c, Reports (s.pc c) (ret c)) :
    InsertsSafe n s.keys s.vals k v ret where
  unique _ _ hs ht occ e := inv.chained.unique hs ht occ e
  clean := inv.clean
  refused c e := inv.gaveUp ((reports c).gaveUp e)
  settled _ key ne := by
    rw [inv.stored_iff ne]
    simp only [fun c => (reports c).stored_iff]
  values _ j hj occ := by
    obtain ⟨c, _, ek, ev⟩ := inv.origin j hj occ
    exact ⟨c, ek, ev⟩

variable [DecidableEq C]

/-- Moving one call moves it in the race. -/
lemma update_abs {P : Type*} (abs : P → RacePc) (pc : C → P) (c : C) (p : P) :
    (fun c' => abs (Function.update pc c p c')) =
      Function.update (fun c' => abs (pc c')) c (abs p) := by
  funext c'
  rw [Function.update_apply, Function.update_apply]
  split <;> rfl

/-- A step that leaves the table alone does so in the race. -/
lemma InsertRace.abs_goto {s : InsertRace C} {c pc} : (s.goto c pc).abs = s.abs.goto c pc.abs := by
  unfold InsertRace.abs InsertRace.goto RaceState.goto
  rw [update_abs InsertPc.abs]

/-- A call that moves alone keeps the locals of the others in order. -/
lemma InsertRace.Aligned.goto {s : InsertRace C} {c pc} (aligned : s.Aligned crc k)
    (here : pc.Aligned crc s.ht (k c)) : (s.goto c pc).Aligned crc k := by
  intro c'
  unfold InsertRace.goto
  dsimp only
  rw [Function.update_apply]
  split
  · next e => rwa [e]
  · exact aligned c'

/-- A call that writes returns. -/
lemma InsertRace.Aligned.write {s : InsertRace C} {c slot kv r} (aligned : s.Aligned crc k) :
    InsertRace.Aligned crc k
      { ht := s.ht.write slot kv, pc := Function.update s.pc c (.returned r) } := by
  intro c'
  dsimp only
  rw [Function.update_apply]
  split
  · trivial
  · exact (aligned c').congr rfl

/-- A step of `dramblast_insert_one` is a step of the race. -/
lemma InsertRace.abs_step {s : InsertRace C} (aligned : s.Aligned crc k) (c : C) :
    (insertStep k v c s).abs = raceStep s.ht.len (dramblastHash crc s.ht) 0 0 k v c s.abs ∧
      (insertStep k v c s).Aligned crc k ∧ (insertStep k v c s).ht.len = s.ht.len := by
  have here := aligned c
  have pc_abs : s.abs.pc c = (s.pc c).abs := rfl
  unfold insertStep raceStep
  rw [pc_abs]
  cases pc : s.pc c with
  | load idx count =>
    rw [pc] at here
    cases here
    dsimp only [InsertPc.abs]
    by_cases free : (s.ht.table (s.ht.probe crc (k c) count)).k = 0
    · have free' : s.abs.keys (slotAt s.ht.len (dramblastHash crc s.ht (k c)) count) = 0 := free
      rw [if_pos free, if_pos free', InsertRace.abs_goto]
      exact ⟨rfl, aligned.goto ⟨Nat.succ_pos _, rfl⟩, rfl⟩
    · have occ : s.abs.keys (slotAt s.ht.len (dramblastHash crc s.ht (k c)) count) ≠ 0 := free
      rw [if_neg free, if_neg occ, InsertRace.abs_goto]
      exact ⟨rfl, aligned.goto ⟨Nat.succ_pos _, rfl⟩, rfl⟩
  | swap idx count =>
    rw [pc] at here
    obtain ⟨pos, rfl⟩ := here
    dsimp only [InsertPc.abs]
    have free_iff : s.ht.table (s.ht.probe crc (k c) (count - 1)) = { k := 0, v := 0 } ↔
        s.abs.keys (slotAt s.ht.len (dramblastHash crc s.ht (k c)) (count - 1)) = 0 ∧
          s.abs.vals (slotAt s.ht.len (dramblastHash crc s.ht (k c)) (count - 1)) = 0 := by
      rw [s.ht.table_eq, DramblastKv.mk.injEq]
      rfl
    by_cases free : s.ht.table (s.ht.probe crc (k c) (count - 1)) = { k := 0, v := 0 }
    · rw [if_pos free, if_pos (free_iff.mp free)]
      refine ⟨?_, aligned.write, rfl⟩
      unfold InsertRace.abs
      rw [update_abs InsertPc.abs, DramblastHt.keys_write, DramblastHt.vals_write]
      rfl
    · rw [if_neg free, if_neg fun e => free (free_iff.mpr e), InsertRace.abs_goto]
      exact ⟨rfl, aligned.goto ⟨pos, rfl⟩, rfl⟩
  | reload idx count =>
    rw [pc] at here
    obtain ⟨pos, rfl⟩ := here
    dsimp only [InsertPc.abs]
    by_cases same : (s.ht.table (s.ht.probe crc (k c) (count - 1))).k = k c
    · have same' : s.abs.keys (slotAt s.ht.len (dramblastHash crc s.ht (k c)) (count - 1)) = k c :=
        same
      rw [if_pos same, if_pos same', InsertRace.abs_goto]
      exact ⟨rfl, aligned.goto ⟨pos, rfl⟩, rfl⟩
    · have other : s.abs.keys (slotAt s.ht.len (dramblastHash crc s.ht (k c)) (count - 1)) ≠ k c :=
        same
      rw [if_neg same, if_neg other]
      by_cases last : count ≥ s.ht.len
      · rw [if_pos last, if_neg (by omega), InsertRace.abs_goto]
        exact ⟨rfl, aligned.goto trivial, rfl⟩
      · rw [if_neg last, if_pos (by omega), InsertRace.abs_goto, Nat.sub_add_cancel pos]
        refine ⟨rfl, aligned.goto ?_, rfl⟩
        unfold InsertPc.Aligned DramblastHt.probe
        rw [s.ht.land_len, slotAt_succ, Nat.sub_add_cancel pos]
  | assign idx count =>
    rw [pc] at here
    obtain ⟨pos, rfl⟩ := here
    dsimp only [InsertPc.abs]
    refine ⟨?_, aligned.write, rfl⟩
    unfold InsertRace.abs
    rw [update_abs InsertPc.abs, DramblastHt.keys_write, DramblastHt.vals_write,
      Function.update_eq_self_iff.mpr (by rfl)]
    rfl
  | returned r =>
    dsimp only [InsertPc.abs]
    by_cases zero : r = 0
    · rw [if_pos zero]
      exact ⟨rfl, aligned, rfl⟩
    · rw [if_neg zero]
      exact ⟨rfl, aligned, rfl⟩

/-- A step that leaves the connection table alone does so in the race. -/
lemma MaglevRace.abs_goto {s : MaglevRace C} {c pc} : (s.goto c pc).abs = s.abs.goto c pc.abs := by
  unfold MaglevRace.abs MaglevRace.goto RaceState.goto
  rw [update_abs MaglevPc.abs]

/-- A step of `maglev_hashmap_insert` is a step of the race. -/
lemma MaglevRace.abs_step {s : MaglevRace C} (c : C) :
    (maglevStep crc k v cap c s).abs = raceStep cap.val (maglevHash crc cap) 0 0 k v c s.abs := by
  have pc_abs : s.abs.pc c = (s.pc c).abs := rfl
  unfold maglevStep raceStep
  simp only [cap.land]
  rw [pc_abs]
  cases pc : s.pc c with
  | load i =>
    dsimp only [MaglevPc.abs]
    by_cases free : (s.map.pairs ((maglevHash crc cap (k c) + i) % cap.val)).key = 0
    · have free' : s.abs.keys (slotAt cap.val (maglevHash crc cap (k c)) i) = 0 := free
      rw [if_pos free, if_pos free', MaglevRace.abs_goto]
      rfl
    · have occ : s.abs.keys (slotAt cap.val (maglevHash crc cap (k c)) i) ≠ 0 := free
      rw [if_neg free, if_neg occ, MaglevRace.abs_goto]
      rfl
  | swap i =>
    dsimp only [MaglevPc.abs]
    have free_iff : s.map.pairs ((maglevHash crc cap (k c) + i) % cap.val) = { key := 0, value := 0 } ↔
        s.abs.keys (slotAt cap.val (maglevHash crc cap (k c)) i) = 0 ∧
          s.abs.vals (slotAt cap.val (maglevHash crc cap (k c)) i) = 0 := by
      rw [s.map.pairs_eq, MaglevKvPair.mk.injEq]
      rfl
    by_cases free : s.map.pairs ((maglevHash crc cap (k c) + i) % cap.val) = { key := 0, value := 0 }
    · rw [if_pos free, if_pos (free_iff.mp free)]
      unfold MaglevRace.abs
      rw [update_abs MaglevPc.abs, MaglevHashmap.keys_write, MaglevHashmap.values_write]
      rfl
    · rw [if_neg free, if_neg fun e => free (free_iff.mpr e), MaglevRace.abs_goto]
      rfl
  | reload i =>
    dsimp only [MaglevPc.abs]
    by_cases same : (s.map.pairs ((maglevHash crc cap (k c) + i) % cap.val)).key = k c
    · have same' : s.abs.keys (slotAt cap.val (maglevHash crc cap (k c)) i) = k c := same
      rw [if_pos same, if_pos same', MaglevRace.abs_goto]
      rfl
    · have other : s.abs.keys (slotAt cap.val (maglevHash crc cap (k c)) i) ≠ k c := same
      rw [if_neg same, if_neg other, MaglevRace.abs_goto, maglevNext]
      by_cases more : i + 1 < cap.val
      · rw [if_pos more, if_pos more]
        rfl
      · rw [if_neg more, if_neg more]
        rfl
  | assign i =>
    dsimp only [MaglevPc.abs]
    unfold MaglevRace.abs
    rw [update_abs MaglevPc.abs, MaglevHashmap.keys_write, MaglevHashmap.values_write,
      Function.update_eq_self_iff.mpr (by rfl)]
    rfl
  | returned r =>
    dsimp only [MaglevPc.abs]
    by_cases zero : r = 0
    · rw [if_pos zero]
    · rw [if_neg zero]

/-- One access keeps the invariant and the keys of the occupied slots. -/
lemma InsertInv.step {s : InsertRace C} (inv : InsertInv crc k v s) (ne : ∀ c, k c ≠ 0) (c : C) :
    InsertInv crc k v (insertStep k v c s) ∧ (insertStep k v c s).ht.len = s.ht.len ∧
      Grows 0 s.ht.keys (insertStep k v c s).ht.keys := by
  obtain ⟨abs, aligned, len⟩ := s.abs_step (v := v) inv.aligned c
  have race := inv.race.step ne c
  rw [← abs] at race
  refine ⟨⟨aligned, ?_⟩, len, race.2⟩
  rw [len, dramblastHash_congr len]
  exact race.1

/-- An access takes from the work of its call. -/
lemma InsertInv.pays {s : InsertRace C} (inv : InsertInv crc k v s) (c d : C) :
    (insertStep k v c s).work d ≤ s.work d - if d = c then 1 else 0 := by
  obtain ⟨abs, _, len⟩ := s.abs_step (v := v) inv.aligned c
  have paid := inv.race.pays c d
  rw [← abs] at paid
  unfold InsertRace.work
  rw [len]
  exact paid

/-- An access of a call that is under way takes something from its work. -/
lemma InsertInv.work_lt {s : InsertRace C} (inv : InsertInv crc k v s) {c : C}
    (running : (s.pc c).ret = none) : (insertStep k v c s).work c < s.work c := by
  obtain ⟨abs, _, len⟩ := s.abs_step (v := v) inv.aligned c
  have reports := InsertPc.reports (s.pc c)
  rw [running] at reports
  have less := inv.race.work_lt reports
  rw [← abs] at less
  unfold InsertRace.work
  rw [len]
  exact less

/-- An access takes from the work of its call. -/
lemma maglevStep_pays {s : MaglevRace C}
    (inv : RaceInv cap.val (maglevHash crc cap) 0 0 k v s.abs) (c d : C) :
    (maglevStep crc k v cap c s).work cap d ≤ s.work cap d - if d = c then 1 else 0 := by
  have paid := inv.pays c d
  rw [← MaglevRace.abs_step] at paid
  exact paid

/-- Every interleaving keeps the invariant and the keys of the occupied slots. -/
lemma InsertInv.run {s : InsertRace C} (inv : InsertInv crc k v s) (ne : ∀ c, k c ≠ 0)
    (schedule : List C) :
    InsertInv crc k v (insertRun k v schedule s) ∧ (insertRun k v schedule s).ht.len = s.ht.len ∧
      Grows 0 s.ht.keys (insertRun k v schedule s).ht.keys := by
  induction schedule generalizing s with
  | nil => exact ⟨inv, rfl, Grows.refl⟩
  | cons c schedule ih =>
    obtain ⟨inv', len, grows⟩ := inv.step ne c
    obtain ⟨inv'', len', grows'⟩ := ih inv'
    exact ⟨inv'', len'.trans len, grows.trans grows'⟩

/-- Every interleaving of `maglev_hashmap_insert` is an interleaving of the race. -/
lemma maglevRun_inv {s : MaglevRace C} (ne : ∀ c, k c ≠ 0) (schedule : List C)
    (inv : RaceInv cap.val (maglevHash crc cap) 0 0 k v s.abs) :
    RaceInv cap.val (maglevHash crc cap) 0 0 k v (maglevRun crc k v cap schedule s).abs ∧
      Grows 0 s.map.keys (maglevRun crc k v cap schedule s).map.keys := by
  induction schedule generalizing s with
  | nil => exact ⟨inv, Grows.refl⟩
  | cons c schedule ih =>
    have race := inv.step ne c
    rw [← MaglevRace.abs_step] at race
    obtain ⟨inv', grows⟩ := ih race.1
    exact ⟨inv', race.2.trans grows⟩

/-- A call of `dramblast_insert_one` that has taken enough steps has returned. -/
lemma InsertInv.returned {s : InsertRace C} (inv : InsertInv crc k v s) (ne : ∀ c, k c ≠ 0)
    (schedule : List C) {c : C} (enough : s.work c ≤ schedule.count c) :
    ((insertRun k v schedule s).pc c).ret.isSome := by
  have paid : (insertRun k v schedule s).work c ≤ s.work c - schedule.count c :=
    run_pays (fun c inv => (InsertInv.step inv ne c).1) (fun c d inv => InsertInv.pays inv c d)
      schedule inv c
  have idle : (insertRun k v schedule s).work c = 0 := by omega
  exact (InsertPc.reports _).returned (((inv.run ne schedule).1.race.holds c).done idle)

/-- A call of `maglev_hashmap_insert` that has taken enough steps has returned. -/
lemma maglevRun_returned {s : MaglevRace C} (ne : ∀ c, k c ≠ 0) (schedule : List C)
    (inv : RaceInv cap.val (maglevHash crc cap) 0 0 k v s.abs) {c : C}
    (enough : s.work cap c ≤ schedule.count c) :
    ((maglevRun crc k v cap schedule s).pc c).ret.isSome := by
  have keeps {s : MaglevRace C} (c : C)
      (inv : RaceInv cap.val (maglevHash crc cap) 0 0 k v s.abs) :
      RaceInv cap.val (maglevHash crc cap) 0 0 k v (maglevStep crc k v cap c s).abs :=
    MaglevRace.abs_step (s := s) c ▸ (inv.step ne c).1
  have paid : (maglevRun crc k v cap schedule s).work cap c ≤ s.work cap c - schedule.count c :=
    run_pays keeps (fun c d inv => maglevStep_pays inv c d) schedule inv c
  have idle : (maglevRun crc k v cap schedule s).work cap c = 0 := by omega
  exact (MaglevPc.reports _).returned (((maglevRun_inv ne schedule inv).1.holds c).done idle)

/-- Concurrent inserts, of either kind, never duplicate, lose or corrupt a key, in any interleaving;
    the key of an occupied slot never changes; and a call on a table of `n` slots returns after at
    most `3 * n + 1` accesses of its own, whatever the others do. -/
theorem concurrent_inserts_safe (crc : BitVec 64 → BitVec 64) (cap : Capacity) (k v : C → BitVec 64)
    (ht : DramblastHt) (map : MaglevHashmap) (schedule more : List C) (ne : ∀ c, k c ≠ 0)
    (zero : ht.AllZero) (zero' : map.AllZero cap) :
    let s := insertRun k v schedule (insertStart crc k ht)
    let m := maglevRun crc k v cap schedule (maglevStart k cap map)
    InsertsSafe ht.len s.ht.keys s.ht.vals k v (fun c => (s.pc c).ret) ∧
      Grows 0 s.ht.keys (insertRun k v more s).ht.keys ∧
      (∀ c, 3 * ht.len + 1 ≤ schedule.count c → (s.pc c).ret.isSome) ∧
    InsertsSafe cap.val m.map.keys m.map.values k v (fun c => (m.pc c).ret) ∧
      Grows 0 m.map.keys (maglevRun crc k v cap more m).map.keys ∧
      ∀ c, 3 * cap.val + 1 ≤ schedule.count c → (m.pc c).ret.isSome := by
  intro s m
  have start := InsertInv.start crc v zero ne
  have start' := maglevStart_inv crc v zero' ne
  obtain ⟨inv, len, _⟩ := start.run ne schedule
  obtain ⟨inv', _⟩ := maglevRun_inv ne schedule start'
  refine ⟨?_, (inv.run ne more).2.2, fun c enough => start.returned ne schedule ?_, ?_,
    (maglevRun_inv ne more inv').2, fun c enough => maglevRun_returned ne schedule start' ?_⟩
  · have safe := InsertsSafe.of_race inv.race fun c => InsertPc.reports (s.pc c)
    rw [len] at safe
    exact safe
  · have first : (insertStart crc k ht).work c = 3 * ht.len + 1 :=
      congrArg (fun pc => (InsertPc.abs pc).work ht.len) (if_neg (ne c))
    rwa [first]
  · exact InsertsSafe.of_race inv' fun c => MaglevPc.reports (m.pc c)
  · have first : (maglevStart k cap map).work cap c = 3 * cap.val + 1 :=
      congrArg (fun pc => (MaglevPc.abs pc).work cap.val) ((if_neg (ne c)).trans (if_pos cap.pos))
    rwa [first]

/-- Two calls race for one key on a table of four slots: both see it empty before either swaps, and
    the one that loses the swap overwrites the value. -/
theorem concurrent_inserts_safe_duel :
    let k : Fin 2 → BitVec 64 := fun _ => 5
    let v : Fin 2 → BitVec 64 := fun c => if c = 0 then 7 else 9
    let ht := dramblastInit 4 ⟨2, by decide, by decide, rfl⟩
      fun _ _ => { k := 0, idx := 0, visitCount := 0, id := 0 }
    let map : MaglevHashmap := { pairs := fun _ => { key := 0, value := 0 } }
    let schedule : List (Fin 2) := [0, 1, 0, 1, 1, 1]
    let s := insertRun k v schedule (insertStart mmCrc32U64 k ht)
    let m := maglevRun mmCrc32U64 k v fourSlots schedule (maglevStart k fourSlots map)
    (InsertsSafe 4 s.ht.keys s.ht.vals k v (fun c => (s.pc c).ret) ∧
      Grows 0 s.ht.keys (insertRun k v [0] s).ht.keys ∧
      (∀ c, (s.pc c).ret = some 0) ∧ s.ht.table 0 = { k := 5, v := 9 }) ∧
    InsertsSafe 4 m.map.keys m.map.values k v (fun c => (m.pc c).ret) ∧
      Grows 0 m.map.keys (maglevRun mmCrc32U64 k v fourSlots [0] m).map.keys ∧
      (∀ c, (m.pc c).ret = some 0) ∧
      m.map.pairs (maglevHash mmCrc32U64 fourSlots 5) = { key := 5, value := 9 } := by
  intro k v ht map schedule
  obtain ⟨safe, grows, _, safe', grows', _⟩ := concurrent_inserts_safe mmCrc32U64 fourSlots k v ht map
    schedule [0] (fun _ => by decide) (fun _ _ => rfl) (fun _ _ => rfl)
  exact ⟨⟨safe, grows, by decide +kernel, by decide +kernel⟩, safe', grows', by decide +kernel,
    by decide +kernel⟩

end NetBlast.Concurrent
