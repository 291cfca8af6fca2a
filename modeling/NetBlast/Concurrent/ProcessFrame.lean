import NetBlast.Concurrent.Insert
import NetBlast.L2fwd.Compaction

/-!
# The maglev mode in atomic steps

All lcores share one connection table and one lookup table. A call of `maglev_process_frame` is a
lookup, the read of a value, or an insert, and an atomic step is one access to the connection table.
`alone_process_frame` says that these steps are those of `maglev_process_frame`: a call that no other
call interrupts does what the function does.
-/

namespace NetBlast.Concurrent
open Probing Hashmap L2fwd

/-- Where a call of `maglev_process_frame` stands: in the loop of `maglev_hashmap_get`, before
    `pair->key == 0` or before `pair->key == key`, before the read of `cached->value`, in
    `maglev_hashmap_insert`, or after its return. -/
inductive FramePc where
  | load (i : Nat)
  | reload (i : Nat)
  | value (slot : Nat)
  | insert
  | returned (backend : BitVec 64)
deriving DecidableEq

/-- The connection table, with where the calls `C` stand in `maglev_hashmap_insert`, and where they
    stand in all. -/
structure FrameRace (C : Type*) where
  race : MaglevRace C
  pc : C → FramePc

section
variable {C : Type*} [DecidableEq C] (crc : BitVec 64 → BitVec 64) (cap : Capacity)
  (lookup : LookUpTable) (hash : C → BitVec 64)

/-- A step of `c` that leaves the connection table alone. -/
def FrameRace.goto (s : FrameRace C) (c : C) (pc : FramePc) : FrameRace C :=
  { s with pc := Function.update s.pc c pc }

/-- The test of the loop counter of `maglev_hashmap_get`, which returns `NULL` at the end. -/
def getNext (i : Nat) : FramePc :=
  if i < cap.val then .load i else .insert

/-- One access of the call `c` of `maglev_process_frame`. -/
def frameStep (c : C) (s : FrameRace C) : FrameRace C :=
  let backend := fun c => lookup.backend (hash c)
  let slot := fun i => (maglevHash crc cap (hash c) + i) &&& (cap.val - 1)
  match s.pc c with
  | .load i =>
    if (s.race.map.pairs (slot i)).key = 0 then s.goto c .insert else s.goto c (.reload i)
  | .reload i =>
    if (s.race.map.pairs (slot i)).key = hash c then s.goto c (.value (slot i))
    else s.goto c (getNext cap (i + 1))
  | .value slot => s.goto c (.returned (s.race.map.pairs slot).value)
  | .insert =>
    match s.race.pc c with
    | .returned r => s.goto c (.returned (if r < 0 then 0 else backend c))
    | _ => { s with race := maglevStep crc hash backend cap c s.race }
  | .returned _ => s

/-- All calls before their first access. A call without a flow key returns at once, so the same test
    in `maglev_hashmap_insert` never fails. -/
def frameStart (map : MaglevHashmap) : FrameRace C where
  race := { map, pc := fun _ => maglevNext cap 0 }
  pc c := if hash c > 0 then getNext cap 0 else .returned 0

/-- The calls take their steps in the order of a schedule. -/
def frameRun (schedule : List C) (s : FrameRace C) : FrameRace C :=
  schedule.foldl (fun s c => frameStep crc cap lookup hash c s) s

end

section
variable {C : Type*} [DecidableEq C] {crc : BitVec 64 → BitVec 64} {cap : Capacity}
  {lookup : LookUpTable} {hash : C → BitVec 64} {c : C} {s s' s'' : FrameRace C}

/-- The call `c` gets from `s` to `s'` by accesses of its own. -/
def Alone (crc : BitVec 64 → BitVec 64) (cap : Capacity) (lookup : LookUpTable) (hash : C → BitVec 64)
    (c : C) (s s' : FrameRace C) : Prop :=
  ∃ n, frameRun crc cap lookup hash (List.replicate n c) s = s'

/-- No access leads from a state to itself. -/
lemma Alone.refl : Alone crc cap lookup hash c s s :=
  ⟨0, rfl⟩

/-- One access first. -/
lemma Alone.head (step : frameStep crc cap lookup hash c s = s')
    (rest : Alone crc cap lookup hash c s' s'') : Alone crc cap lookup hash c s s'' := by
  obtain ⟨n, run⟩ := rest
  refine ⟨n + 1, ?_⟩
  rw [List.replicate_succ]
  unfold frameRun at run ⊢
  rw [List.foldl_cons, step, run]

/-- Runs of a call alone compose. -/
lemma Alone.trans (first : Alone crc cap lookup hash c s s')
    (rest : Alone crc cap lookup hash c s' s'') : Alone crc cap lookup hash c s s'' := by
  obtain ⟨n, run⟩ := first
  obtain ⟨n', run'⟩ := rest
  refine ⟨n + n', ?_⟩
  rw [List.replicate_add]
  unfold frameRun at run run' ⊢
  rw [List.foldl_append, run, run']

/-- Only the last move of a call counts. -/
lemma goto_goto (s : FrameRace C) (pc pc' : FramePc) : (s.goto c pc).goto c pc' = s.goto c pc' := by
  unfold FrameRace.goto
  rw [Function.update_idem]

/-- Where a call stands after `maglev_hashmap_get`. -/
def afterGet : Option Nat → FramePc
  | none => .insert
  | some slot => .value slot

/-- The loop of `maglev_hashmap_get`. -/
lemma alone_get (i : Nat) (pc : s.pc c = getNext cap i) :
    Alone crc cap lookup hash c s
      (s.goto c (afterGet
        (maglevGetFrom cap s.race.map (hash c) (maglevHash crc cap (hash c)) i))) := by
  induction left : cap.val - i generalizing i s with
  | zero =>
    have out : ¬ i < cap.val := by omega
    rw [maglevGetFrom, if_neg out]
    rw [getNext, if_neg out] at pc
    have stays : s.goto c (afterGet none) = s := by
      unfold FrameRace.goto afterGet
      rw [← pc, Function.update_eq_self]
    rw [stays]
    exact .refl
  | succ left ih =>
    have lt : i < cap.val := by omega
    rw [maglevGetFrom, if_pos lt]
    rw [getNext, if_pos lt] at pc
    dsimp only
    by_cases free :
        (s.race.map.pairs ((maglevHash crc cap (hash c) + i) &&& (cap.val - 1))).key = 0
    · rw [if_pos free]
      refine .head ?_ .refl
      unfold frameStep
      rw [pc]
      exact if_pos free
    · rw [if_neg free]
      have step : frameStep crc cap lookup hash c s = s.goto c (.reload i) := by
        unfold frameStep
        rw [pc]
        exact if_neg free
      refine .head step ?_
      have pc' : (s.goto c (.reload i)).pc c = .reload i := Function.update_self ..
      by_cases here :
          (s.race.map.pairs ((maglevHash crc cap (hash c) + i) &&& (cap.val - 1))).key = hash c
      · rw [if_pos here]
        refine .head ?_ .refl
        unfold frameStep
        rw [pc']
        exact (if_pos here).trans (goto_goto ..)
      · rw [if_neg here]
        have step' : frameStep crc cap lookup hash c (s.goto c (.reload i)) =
            s.goto c (getNext cap (i + 1)) := by
          unfold frameStep
          rw [pc']
          exact (if_neg here).trans (goto_goto ..)
        refine .head step' ?_
        have rest := ih (s := s.goto c (getNext cap (i + 1))) (i + 1) (Function.update_self ..)
          (by omega)
        rwa [goto_goto] at rest

/-- The call has returned from `maglev_hashmap_insert`. -/
def FrameRace.inserted (s : FrameRace C) (c : C) (out : Int × MaglevHashmap) : FrameRace C :=
  { s with race := { map := out.2, pc := Function.update s.race.pc c (.returned out.1) } }

/-- The call stands at `pc` in `maglev_hashmap_insert`. -/
def FrameRace.inserting (s : FrameRace C) (c : C) (pc : MaglevPc) : FrameRace C :=
  { s with race := s.race.goto c pc }

/-- Only the last point of an insert counts. -/
lemma inserting_inserting (s : FrameRace C) (pc pc' : MaglevPc) :
    (s.inserting c pc).inserting c pc' = s.inserting c pc' := by
  unfold FrameRace.inserting MaglevRace.goto
  dsimp only
  rw [Function.update_idem]

/-- The outcome of an insert does not depend on where it stood. -/
lemma inserting_inserted (s : FrameRace C) (pc : MaglevPc) (out : Int × MaglevHashmap) :
    (s.inserting c pc).inserted c out = s.inserted c out := by
  unfold FrameRace.inserting FrameRace.inserted MaglevRace.goto
  dsimp only
  rw [Function.update_idem]

/-- An access of a call in `maglev_hashmap_insert`. -/
lemma frameStep_insert (pc : s.pc c = .insert) (running : (s.race.pc c).ret = none) :
    frameStep crc cap lookup hash c s =
      { s with race := maglevStep crc hash (fun c => lookup.backend (hash c)) cap c s.race } := by
  unfold frameStep
  rw [pc]
  dsimp only
  cases e : s.race.pc c with
  | returned r =>
    rw [e] at running
    cases running
  | load _ | swap _ | reload _ | assign _ => rfl

/-- The access that follows a point of `maglev_hashmap_insert`. -/
lemma frameStep_inserting (pc : s.pc c = .insert) {here : MaglevPc} (running : here.ret = none) :
    frameStep crc cap lookup hash c (s.inserting c here) =
      { s with
        race := maglevStep crc hash (fun c => lookup.backend (hash c)) cap c
          (s.race.goto c here) } := by
  have at_here : (s.inserting c here).race.pc c = here := Function.update_self ..
  exact frameStep_insert (s := s.inserting c here) pc (at_here.symm ▸ running)

/-- An access that leaves the table alone. -/
lemma frameStep_moves (pc : s.pc c = .insert) {here there : MaglevPc} (running : here.ret = none)
    (moves : maglevStep crc hash (fun c => lookup.backend (hash c)) cap c (s.race.goto c here) =
      (s.race.goto c here).goto c there) :
    frameStep crc cap lookup hash c (s.inserting c here) = s.inserting c there := by
  rw [frameStep_inserting pc running, moves, ← inserting_inserting s here]
  rfl

/-- An access that is the last one. -/
lemma frameStep_ends (pc : s.pc c = .insert) {here : MaglevPc} {out : Int × MaglevHashmap}
    (running : here.ret = none)
    (ends : maglevStep crc hash (fun c => lookup.backend (hash c)) cap c (s.race.goto c here) =
      { map := out.2, pc := Function.update (s.race.goto c here).pc c (.returned out.1) }) :
    frameStep crc cap lookup hash c (s.inserting c here) = s.inserted c out := by
  rw [frameStep_inserting pc running, ends, ← inserting_inserted s here]
  rfl

/-- A probe of `maglev_hashmap_insert` from the second test on: either the slot has the key, or the
    loop goes on. -/
lemma alone_reload (i : Nat) (pc : s.pc c = .insert)
    (rest : Alone crc cap lookup hash c (s.inserting c (maglevNext cap (i + 1)))
      (s.inserted c (maglevInsertFrom cap s.race.map (hash c) (lookup.backend (hash c))
        (maglevHash crc cap (hash c)) (i + 1)))) :
    let slot := (maglevHash crc cap (hash c) + i) &&& (cap.val - 1)
    Alone crc cap lookup hash c (s.inserting c (.reload i)) (s.inserted c
      (if (s.race.map.pairs slot).key = hash c then
        (0, s.race.map.write slot { s.race.map.pairs slot with value := lookup.backend (hash c) })
      else maglevInsertFrom cap s.race.map (hash c) (lookup.backend (hash c))
        (maglevHash crc cap (hash c)) (i + 1))) := by
  intro slot
  have at_pc (pc : MaglevPc) : (s.race.goto c pc).pc c = pc := Function.update_self ..
  by_cases here : (s.race.map.pairs slot).key = hash c
  · rw [if_pos here]
    have moves : frameStep crc cap lookup hash c (s.inserting c (.reload i)) =
        s.inserting c (.assign i) := by
      apply frameStep_moves pc rfl
      unfold maglevStep
      rw [at_pc]
      exact if_pos here
    refine .head moves (.head (frameStep_ends pc rfl ?_) .refl)
    unfold maglevStep
    rw [at_pc]
    rfl
  · rw [if_neg here]
    have moves : frameStep crc cap lookup hash c (s.inserting c (.reload i)) =
        s.inserting c (maglevNext cap (i + 1)) := by
      apply frameStep_moves pc rfl
      unfold maglevStep
      rw [at_pc]
      exact if_neg here
    exact .head moves rest

/-- The loop of `maglev_hashmap_insert`. -/
lemma alone_insert (i : Nat) (pc : s.pc c = .insert) (pc' : s.race.pc c = maglevNext cap i) :
    Alone crc cap lookup hash c s
      (s.inserted c (maglevInsertFrom cap s.race.map (hash c) (lookup.backend (hash c))
        (maglevHash crc cap (hash c)) i)) := by
  induction left : cap.val - i generalizing i s with
  | zero =>
    have out : ¬ i < cap.val := by omega
    rw [maglevInsertFrom, if_neg out]
    rw [maglevNext, if_neg out] at pc'
    have stays : s.inserted c (-1, s.race.map) = s := by
      unfold FrameRace.inserted
      rw [← pc', Function.update_eq_self]
    rw [stays]
    exact .refl
  | succ left ih =>
    have lt : i < cap.val := by omega
    have at_pc (pc : MaglevPc) : (s.race.goto c pc).pc c = pc := Function.update_self ..
    have rest := ih (s := s.inserting c (maglevNext cap (i + 1))) (i + 1) pc (at_pc _) (by omega)
    rw [inserting_inserted] at rest
    have reload := alone_reload i pc rest
    rw [maglevInsertFrom, if_pos lt]
    rw [maglevNext, if_pos lt] at pc'
    have first : s.inserting c (.load i) = s := by
      unfold FrameRace.inserting MaglevRace.goto
      rw [← pc', Function.update_eq_self]
    rw [← first, inserting_inserted]
    dsimp only
    set slot := (maglevHash crc cap (hash c) + i) &&& (cap.val - 1) with def_slot
    by_cases free : (s.race.map.pairs slot).key = 0
    · have moves : frameStep crc cap lookup hash c (s.inserting c (.load i)) =
          s.inserting c (.swap i) := by
        apply frameStep_moves pc rfl
        unfold maglevStep
        rw [at_pc]
        exact if_pos free
      refine .head moves ?_
      by_cases zero : s.race.map.pairs slot = { key := 0, value := 0 }
      · rw [if_pos ⟨free, zero⟩]
        refine .head (frameStep_ends pc rfl ?_) .refl
        unfold maglevStep
        rw [at_pc]
        exact if_pos zero
      · rw [if_neg fun both => zero both.2]
        refine .head (frameStep_moves pc rfl ?_) reload
        unfold maglevStep
        rw [at_pc]
        exact if_neg zero
    · rw [if_neg fun both => free both.1]
      refine .head (frameStep_moves pc rfl ?_) reload
      unfold maglevStep
      rw [at_pc]
      exact if_neg free

/-- A call that no other call interrupts is `maglev_process_frame`, whatever the table holds. -/
theorem alone_process_frame (crc : BitVec 64 → BitVec 64) (cap : Capacity) (lookup : LookUpTable)
    (frames : C → Frame) (c : C) (s : FrameRace C)
    (start : s.pc c = (frameStart cap (fun c => flowhash (frames c)) s.race.map).pc c)
    (start' : s.race.pc c = maglevNext cap 0) :
    ∃ s', Alone crc cap lookup (fun c => flowhash (frames c)) c s s' ∧
      s'.pc c = .returned (maglevProcessFrame crc cap lookup s.race.map (frames c)).1 ∧
      s'.race.map = (maglevProcessFrame crc cap lookup s.race.map (frames c)).2 := by
  unfold frameStart at start
  dsimp only at start
  unfold maglevProcessFrame
  dsimp only
  by_cases key : flowhash (frames c) > 0
  · rw [if_pos key] at start ⊢
    have got : Alone crc cap lookup (fun c => flowhash (frames c)) c s
        (s.goto c (afterGet (maglevHashmapGet crc cap s.race.map (flowhash (frames c))))) :=
      alone_get 0 start
    cases e : maglevHashmapGet crc cap s.race.map (flowhash (frames c)) with
    | some slot =>
      rw [e] at got
      have pc : (s.goto c (.value slot)).pc c = .value slot := Function.update_self ..
      have hit : frameStep crc cap lookup (fun c => flowhash (frames c)) c
          (s.goto c (.value slot)) = s.goto c (.returned (s.race.map.pairs slot).value) := by
        unfold frameStep
        rw [pc]
        exact goto_goto ..
      exact ⟨_, got.trans (.head hit .refl), Function.update_self .., rfl⟩
    | none =>
      rw [e] at got
      have ne : flowhash (frames c) ≠ 0 := pos_iff_ne_zero.mp key
      have pc : (s.goto c .insert).pc c = .insert := Function.update_self ..
      unfold maglevHashmapInsert
      rw [if_neg ne]
      have inserted : Alone crc cap lookup (fun c => flowhash (frames c)) c (s.goto c .insert)
          ((s.goto c .insert).inserted c (maglevInsertFrom cap s.race.map (flowhash (frames c))
            (lookup.backend (flowhash (frames c)))
            (maglevHash crc cap (flowhash (frames c))) 0)) :=
        alone_insert 0 pc start'
      generalize maglevInsertFrom cap s.race.map (flowhash (frames c))
        (lookup.backend (flowhash (frames c))) (maglevHash crc cap (flowhash (frames c))) 0 = out
        at inserted
      have back : ((s.goto c .insert).inserted c out).race.pc c = .returned out.1 :=
        Function.update_self ..
      have returned : frameStep crc cap lookup (fun c => flowhash (frames c)) c
          ((s.goto c .insert).inserted c out) = ((s.goto c .insert).inserted c out).goto c
            (.returned (if out.1 < 0 then 0 else lookup.backend (flowhash (frames c)))) := by
        unfold frameStep
        rw [show ((s.goto c .insert).inserted c out).pc c = .insert from pc]
        dsimp only
        rw [back]
      refine ⟨_, (got.trans inserted).trans (.head returned .refl), ?_, ?_⟩
      · refine (Function.update_self ..).trans ?_
        dsimp only
        split <;> rfl
      · dsimp only
        split <;> rfl
  · rw [if_neg key] at start ⊢
    exact ⟨s, .refl, start, rfl⟩

end

end NetBlast.Concurrent
