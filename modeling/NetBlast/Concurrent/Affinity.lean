import NetBlast.Concurrent.ProcessFrame
import NetBlast.L2fwd.Overflow

/-!
# Affinity on several lcores

The maglev mode with any number of calls under way. `FrameInv` is the invariant of the calls,
`FrameInv.run` carries it through every interleaving, and `concurrent_affinity` says that still all
frames of a flow get one answer.
-/

namespace NetBlast.Concurrent
open Probing Hashmap L2fwd Interleaving

/-- The accesses a call of `maglev_process_frame` still makes at most. -/
def FramePc.work (cap : Capacity) (insertPc : MaglevPc) : FramePc → Nat
  | .load i => 2 * (cap.val - i) + (3 * cap.val + 3)
  | .reload i => 2 * (cap.val - i) - 1 + (3 * cap.val + 3)
  | .value _ => 1
  | .insert => insertPc.abs.work cap.val + 1
  | .returned _ => 0

/-- The accesses the call `c` still makes at most. -/
def FrameRace.work {C : Type*} (cap : Capacity) (s : FrameRace C) (c : C) : Nat :=
  (s.pc c).work cap (s.race.pc c)

/-- A call that has no access left to make has returned. -/
lemma FramePc.returned_of_work {cap : Capacity} {insertPc : MaglevPc} {pc : FramePc}
    (done : pc.work cap insertPc = 0) : ∃ backend, pc = .returned backend := by
  cases pc with
  | returned backend => exact ⟨backend, rfl⟩
  | load i => exact absurd done (Nat.succ_ne_zero _)
  | reload i => exact absurd done (Nat.succ_ne_zero _)
  | value slot => exact absurd done Nat.one_ne_zero
  | insert => exact absurd done (Nat.succ_ne_zero _)

/-- The key of a call in the race. A call without a flow key takes no part in it, so that any key
    will do. -/
def raceKey (key : BitVec 64) : BitVec 64 :=
  if key = 0 then 1 else key

/-- It is never the empty marker. -/
lemma raceKey_ne (key : BitVec 64) : raceKey key ≠ 0 := by
  unfold raceKey
  split
  · decide
  · assumption

/-- What a call with flow key `key` knows at each point. -/
def FramePc.Knows (cap : Capacity) (lookup : LookUpTable) (map : MaglevHashmap) (key : BitVec 64)
    (insertPc : MaglevPc) : FramePc → Prop
  | .load i | .reload i => key ≠ 0 ∧ i < cap.val ∧ insertPc = .load 0
  | .value slot => key ≠ 0 ∧ slot < cap.val ∧ map.keys slot = key
  | .insert => key ≠ 0
  | .returned backend =>
    key = 0 ∧ backend = 0 ∧ insertPc = .load 0 ∨
      key ≠ 0 ∧ (backend = lookup.backend key ∧ Stored cap.val map.keys key ∨
        backend = 0 ∧ insertPc.abs = .gaveUp)

/-- The invariant of the calls. -/
structure FrameInv {C : Type*} (crc : BitVec 64 → BitVec 64) (cap : Capacity) (lookup : LookUpTable)
    (hash : C → BitVec 64) (s : FrameRace C) : Prop where
  race : RaceInv cap.val (maglevHash crc cap) 0 0 (fun c => raceKey (hash c))
    (fun c => lookup.backend (raceKey (hash c))) s.race.abs
  returns : ∀ c r, s.race.pc c = .returned r → r = 0 ∨ r = -1
  calls : ∀ c, (s.pc c).Knows cap lookup s.race.map (hash c) (s.race.pc c)

section
variable {C : Type*} {crc : BitVec 64 → BitVec 64} {cap : Capacity} {lookup : LookUpTable}
  {hash : C → BitVec 64} {s : FrameRace C}

/-- Every value in the table is the one of the lookup table. -/
lemma FrameInv.value (inv : FrameInv crc cap lookup hash s) {j : Nat} (lt : j < cap.val)
    (occ : s.race.map.keys j ≠ 0) :
    s.race.map.values j = lookup.backend (s.race.map.keys j) := by
  obtain ⟨c, _, key, value⟩ := inv.race.origin j lt occ
  exact value.symm.trans (congrArg lookup.backend key)

/-- What a call knows stays true when the table grows. -/
lemma FramePc.Knows.grow {map map' : MaglevHashmap} {key : BitVec 64} {insertPc : MaglevPc}
    {pc : FramePc} (grows : Grows 0 map.keys map'.keys)
    (knows : pc.Knows cap lookup map key insertPc) : pc.Knows cap lookup map' key insertPc := by
  cases pc with
  | load i => exact knows
  | reload i => exact knows
  | value slot =>
    obtain ⟨ne, lt, here⟩ := knows
    exact ⟨ne, lt, (grows slot (by rwa [here])).trans here⟩
  | insert => exact knows
  | returned backend =>
    refine knows.imp_right fun knows => ⟨knows.1, knows.2.imp_left fun found => ?_⟩
    exact ⟨found.1, grows.stored knows.1 found.2⟩

/-- Before the first step all calls know enough. -/
lemma frameStart_inv (crc : BitVec 64 → BitVec 64) (lookup : LookUpTable) (hash : C → BitVec 64)
    {map : MaglevHashmap} (zero : map.AllZero cap) :
    FrameInv crc cap lookup hash (frameStart cap hash map) := by
  have first : maglevNext cap 0 = .load 0 := if_pos cap.pos
  have first' : getNext cap 0 = .load 0 := if_pos cap.pos
  unfold frameStart
  rw [first, first']
  constructor
  · apply RaceInv.init cap.pos
    · intro j lt
      have e := zero j lt
      rw [map.pairs_eq, MaglevKvPair.mk.injEq] at e
      exact e
    · exact fun c => rfl
  · intro c r e
    cases e
  · intro c
    dsimp only
    by_cases key : hash c > 0
    · rw [if_pos key]
      exact ⟨pos_iff_ne_zero.mp key, cap.pos, rfl⟩
    · rw [if_neg key]
      exact Or.inl ⟨not_not.mp fun ne => key (pos_iff_ne_zero.mpr ne), rfl, rfl⟩

/-- The work of a call that has not begun its insert. -/
lemma work_getting (cap : Capacity) {c : C} {pc : FramePc} (here : s.pc c = pc)
    (first : s.race.pc c = .load 0) :
    s.work cap c = pc.work cap (.load 0) ∧
      FramePc.work cap (.load 0) .insert = 3 * cap.val + 2 := by
  unfold FrameRace.work
  rw [here, first]
  exact ⟨rfl, rfl⟩

variable [DecidableEq C]

/-- The step of a call depends on its own key and value only. -/
lemma maglevStep_congr (k k' v v' : C → BitVec 64) {c : C} (key : k c = k' c) (value : v c = v' c)
    (r : MaglevRace C) : maglevStep crc k v cap c r = maglevStep crc k' v' cap c r := by
  unfold maglevStep
  rw [key, value]

/-- An access of an insert moves it alone. -/
lemma maglevStep_pc (crc : BitVec 64 → BitVec 64) (cap : Capacity) (k v : C → BitVec 64)
    {r : MaglevRace C} {c : C} (running : (r.pc c).ret = none) :
    ∃ pc, (maglevStep crc k v cap c r).pc = Function.update r.pc c pc ∧
      ∀ x, pc = .returned x → x = 0 ∨ x = -1 := by
  unfold maglevStep MaglevRace.goto
  dsimp only
  cases e : r.pc c with
  | load i =>
    dsimp only
    split <;> exact ⟨_, rfl, nofun⟩
  | swap i =>
    dsimp only
    split
    · refine ⟨_, rfl, fun x same => ?_⟩
      cases same
      exact Or.inl rfl
    · exact ⟨_, rfl, nofun⟩
  | reload i =>
    dsimp only
    split
    · exact ⟨_, rfl, nofun⟩
    · refine ⟨_, rfl, fun x same => ?_⟩
      unfold maglevNext at same
      split at same <;> cases same
      exact Or.inr rfl
  | assign i =>
    refine ⟨_, rfl, fun x same => ?_⟩
    cases same
    exact Or.inl rfl
  | returned x =>
    rw [e] at running
    cases running

/-- A step that leaves the table alone keeps the invariant, if the call knows enough. -/
lemma FrameInv.goto {c : C} {pc : FramePc} (inv : FrameInv crc cap lookup hash s)
    (knows : pc.Knows cap lookup s.race.map (hash c) (s.race.pc c)) :
    FrameInv crc cap lookup hash (s.goto c pc) where
  race := inv.race
  returns := inv.returns
  calls c' := by
    unfold FrameRace.goto
    dsimp only
    rw [Function.update_apply]
    split
    · next e => rwa [e]
    · exact inv.calls c'

/-- An access of an insert keeps the invariant. -/
lemma FrameInv.insert {c : C} (inv : FrameInv crc cap lookup hash s) (pc : s.pc c = .insert)
    (running : (s.race.pc c).ret = none) :
    let race := maglevStep crc hash (fun c => lookup.backend (hash c)) cap c s.race
    FrameInv crc cap lookup hash { s with race } ∧
      (race.pc c).abs.work cap.val < (s.race.pc c).abs.work cap.val ∧
      ∀ c', c' ≠ c → race.pc c' = s.race.pc c' := by
  have ne : hash c ≠ 0 := by
    have knows := inv.calls c
    rwa [pc] at knows
  have key : raceKey (hash c) = hash c := if_neg ne
  intro race
  have def_race : race = maglevStep crc (fun c => raceKey (hash c))
      (fun c => lookup.backend (raceKey (hash c))) cap c s.race :=
    maglevStep_congr hash (fun c => raceKey (hash c)) _ _ key.symm
      (congrArg lookup.backend key.symm) s.race
  obtain ⟨moved, grows⟩ := inv.race.step (fun c => raceKey_ne (hash c)) c
  have under_way : (s.race.pc c).abs ≠ .stored ∧ (s.race.pc c).abs ≠ .gaveUp := by
    have reports := MaglevPc.reports (s.race.pc c)
    rwa [running] at reports
  have less := inv.race.work_lt under_way
  rw [← MaglevRace.abs_step, ← def_race] at moved grows less
  obtain ⟨pc', def_pc, returns⟩ :=
    maglevStep_pc crc cap hash (fun c => lookup.backend (hash c)) running
  have self : race.pc c = pc' := (congrFun def_pc c).trans (Function.update_self ..)
  have other (c' : C) (ne : c' ≠ c) : race.pc c' = s.race.pc c' :=
    (congrFun def_pc c').trans (Function.update_of_ne ne ..)
  refine ⟨⟨moved, fun c' r e => ?_, fun c' => ?_⟩, less, other⟩
  · by_cases at_c : c' = c
    · rw [at_c] at e
      exact returns r (self.symm.trans e)
    · exact inv.returns c' r ((other c' at_c).symm.trans e)
  · dsimp only
    by_cases at_c : c' = c
    · rw [at_c, pc]
      exact ne
    · rw [other c' at_c]
      exact (inv.calls c').grow grows

/-- The invariant after a step of the call `c` from `s` to `s'`, which takes from the work of `c` and
    adds to no other. -/
structure Moves (crc : BitVec 64 → BitVec 64) (cap : Capacity) (lookup : LookUpTable)
    (hash : C → BitVec 64) (c : C) (s s' : FrameRace C) : Prop where
  inv : FrameInv crc cap lookup hash s'
  pays : ∀ c', s'.work cap c' ≤ s.work cap c' - if c' = c then 1 else 0

/-- A step that leaves the table alone, to a point with less work. -/
lemma FrameInv.moves {c : C} {pc : FramePc} (inv : FrameInv crc cap lookup hash s)
    (knows : pc.Knows cap lookup s.race.map (hash c) (s.race.pc c))
    (less : pc.work cap (s.race.pc c) < s.work cap c) :
    Moves crc cap lookup hash c s (s.goto c pc) := by
  refine ⟨inv.goto knows, fun c' => ?_⟩
  by_cases own : c' = c
  · have here : (s.goto c pc).work cap c = pc.work cap (s.race.pc c) := by
      unfold FrameRace.work FrameRace.goto
      dsimp only
      rw [Function.update_self]
    rw [if_pos own, own, here]
    omega
  · have away : (s.goto c pc).work cap c' = s.work cap c' := by
      unfold FrameRace.work FrameRace.goto
      dsimp only
      rw [Function.update_of_ne own]
    rw [if_neg own, away]
    exact le_rfl

/-- The first read of a key in `maglev_hashmap_get`. -/
lemma FrameInv.load {c : C} {i : Nat} (inv : FrameInv crc cap lookup hash s)
    (pc : s.pc c = .load i) :
    Moves crc cap lookup hash c s (frameStep crc cap lookup hash c s) := by
  have knows := inv.calls c
  rw [pc] at knows
  obtain ⟨ne, lt, first⟩ := knows
  obtain ⟨before, insert⟩ := work_getting cap pc first
  unfold frameStep
  rw [pc]
  dsimp only
  split
  · refine inv.moves ne ?_
    rw [first, before, insert]
    dsimp only [FramePc.work]
    omega
  · refine inv.moves ⟨ne, lt, first⟩ ?_
    rw [first, before]
    dsimp only [FramePc.work]
    omega

/-- The second read of a key in `maglev_hashmap_get`. -/
lemma FrameInv.reload {c : C} {i : Nat} (inv : FrameInv crc cap lookup hash s)
    (pc : s.pc c = .reload i) :
    Moves crc cap lookup hash c s (frameStep crc cap lookup hash c s) := by
  have knows := inv.calls c
  rw [pc] at knows
  obtain ⟨ne, lt, first⟩ := knows
  obtain ⟨before, insert⟩ := work_getting cap pc first
  unfold frameStep
  simp only [cap.land]
  rw [pc]
  dsimp only
  split
  · next here =>
    refine inv.moves ⟨ne, Nat.mod_lt _ cap.pos, here⟩ ?_
    rw [before]
    dsimp only [FramePc.work]
    omega
  · unfold getNext
    split
    · next more =>
      refine inv.moves ⟨ne, more, first⟩ ?_
      rw [first, before]
      dsimp only [FramePc.work]
      omega
    · refine inv.moves ne ?_
      rw [first, before, insert]
      dsimp only [FramePc.work]
      omega

/-- The read of the value in `maglev_process_frame`. -/
lemma FrameInv.readValue {c : C} {slot : Nat} (inv : FrameInv crc cap lookup hash s)
    (pc : s.pc c = .value slot) :
    Moves crc cap lookup hash c s (frameStep crc cap lookup hash c s) := by
  have knows := inv.calls c
  rw [pc] at knows
  obtain ⟨ne, lt, here⟩ := knows
  have value := inv.value lt (here ▸ ne)
  rw [here] at value
  unfold frameStep
  rw [pc]
  refine inv.moves (Or.inr ⟨ne, Or.inl ⟨value, slot, lt, here⟩⟩) ?_
  unfold FrameRace.work
  rw [pc]
  exact Nat.zero_lt_one

/-- The return of `maglev_process_frame` after its insert has returned. -/
lemma FrameInv.inserted {c : C} {r : Int} (inv : FrameInv crc cap lookup hash s)
    (pc : s.pc c = .insert) (done : s.race.pc c = .returned r) :
    Moves crc cap lookup hash c s (frameStep crc cap lookup hash c s) := by
  have ne : hash c ≠ 0 := by
    have knows := inv.calls c
    rwa [pc] at knows
  have key : raceKey (hash c) = hash c := if_neg ne
  have held := inv.race.holds c
  have here : s.race.abs.pc c = (MaglevPc.returned r).abs := congrArg MaglevPc.abs done
  rw [here] at held
  unfold frameStep
  rw [pc, done]
  refine inv.moves (Or.inr ⟨ne, ?_⟩) ?_
  · rw [done]
    rcases inv.returns c r done with rfl | rfl
    · exact Or.inl ⟨rfl, by rw [← key]; exact held⟩
    · exact Or.inr ⟨rfl, rfl⟩
  · unfold FrameRace.work
    rw [pc]
    exact Nat.succ_pos _

/-- An access of the insert of a call. -/
lemma FrameInv.inserting {c : C} (inv : FrameInv crc cap lookup hash s) (pc : s.pc c = .insert)
    (running : (s.race.pc c).ret = none) :
    Moves crc cap lookup hash c s (frameStep crc cap lookup hash c s) := by
  obtain ⟨inv', less, other⟩ := inv.insert pc running
  rw [frameStep_insert pc running]
  refine ⟨inv', fun c' => ?_⟩
  unfold FrameRace.work
  dsimp only
  by_cases own : c' = c
  · rw [if_pos own, own, pc]
    dsimp only [FramePc.work]
    omega
  · rw [if_neg own, other c' own]
    exact le_rfl

/-- Every access keeps the invariant, and a call's own accesses take its work away. -/
lemma FrameInv.step (inv : FrameInv crc cap lookup hash s) (c : C) :
    Moves crc cap lookup hash c s (frameStep crc cap lookup hash c s) := by
  cases pc : s.pc c with
  | load i => exact inv.load pc
  | reload i => exact inv.reload pc
  | value slot => exact inv.readValue pc
  | insert =>
    cases e : s.race.pc c with
    | returned r => exact inv.inserted pc e
    | load _ | swap _ | reload _ | assign _ => exact inv.inserting pc (by rw [e]; rfl)
  | returned backend =>
    have still : frameStep crc cap lookup hash c s = s := by
      unfold frameStep
      rw [pc]
    rw [still]
    refine ⟨inv, fun c' => ?_⟩
    by_cases own : c' = c
    · have idle : s.work cap c = 0 := by
        unfold FrameRace.work
        rw [pc]
        rfl
      rw [own, idle]
      exact Nat.zero_le _
    · rw [if_neg own]
      exact le_rfl

/-- Every interleaving keeps the invariant, and the work of a call pays for its accesses. -/
lemma FrameInv.run (inv : FrameInv crc cap lookup hash s) (schedule : List C) :
    FrameInv crc cap lookup hash (frameRun crc cap lookup hash schedule s) ∧
      ∀ c, (frameRun crc cap lookup hash schedule s).work cap c ≤
        s.work cap c - schedule.count c := by
  have keeps {s : FrameRace C} (c : C) (inv : FrameInv crc cap lookup hash s) :
      FrameInv crc cap lookup hash (frameStep crc cap lookup hash c s) := (inv.step c).inv
  exact ⟨run_keeps keeps schedule inv,
    run_pays keeps (fun c d inv => (FrameInv.step inv c).pays d) schedule inv⟩

end

section
variable {C : Type*} {crc : BitVec 64 → BitVec 64} {cap : Capacity} {lookup : LookUpTable}
  {hash : C → BitVec 64} {s : FrameRace C}

/-- A call that has been refused finds the table full of other keys, and does so ever after. -/
lemma FrameInv.refused {c : C} (inv : FrameInv crc cap lookup hash s) (ne : hash c ≠ 0)
    (gaveUp : (s.race.pc c).abs = .gaveUp) :
    Full cap.val 0 s.race.map.keys ∧ ¬ Stored cap.val s.race.map.keys (hash c) := by
  have key : raceKey (hash c) = hash c := if_neg ne
  have refused := inv.race.gaveUp (c := c) gaveUp
  rwa [key] at refused

/-- A call without a flow key has returned 0 and stored nothing. -/
lemma FrameInv.keyless {c : C} (inv : FrameInv crc cap lookup hash s) (zero : hash c = 0) :
    s.pc c = .returned 0 ∧ s.race.pc c = .load 0 := by
  have knows := inv.calls c
  cases pc : s.pc c with
  | returned backend =>
    rw [pc] at knows
    rcases knows with ⟨_, rfl, first⟩ | ⟨ne, _⟩
    · exact ⟨rfl, first⟩
    · exact absurd zero ne
  | insert =>
    rw [pc] at knows
    exact absurd zero knows
  | load _ | reload _ | value _ =>
    rw [pc] at knows
    exact absurd zero knows.1

/-- The stored keys are flow keys of calls. -/
lemma FrameInv.among {j : Nat} (inv : FrameInv crc cap lookup hash s) (lt : j < cap.val)
    (occ : s.race.map.keys j ≠ 0) : ∃ c, hash c = s.race.map.keys j := by
  obtain ⟨c, done, key, _⟩ := inv.race.origin j lt occ
  refine ⟨c, ?_⟩
  have ne : hash c ≠ 0 := by
    intro zero
    have first : s.race.abs.pc c = (MaglevPc.load 0).abs :=
      congrArg MaglevPc.abs (inv.keyless zero).2
    rw [first] at done
    cases done
  have here : raceKey (hash c) = hash c := if_neg ne
  exact here.symm.trans key

/-- What a call with a flow key has returned. -/
lemma FrameInv.answer {c : C} {backend : BitVec 64} (inv : FrameInv crc cap lookup hash s)
    (done : s.pc c = .returned backend) (ne : hash c ≠ 0) :
    backend = lookup.backend (hash c) ∧ Stored cap.val s.race.map.keys (hash c) ∨
      backend = 0 ∧ Full cap.val 0 s.race.map.keys ∧
        ¬ Stored cap.val s.race.map.keys (hash c) := by
  have knows := inv.calls c
  rw [done] at knows
  rcases knows with ⟨zero, _⟩ | ⟨_, knows⟩
  · exact absurd zero ne
  · exact knows.imp_right fun refused => ⟨refused.1, inv.refused ne refused.2⟩

end

/-- However the lcores interleave, all calls for a flow get one answer: the backend of the lookup
    table, or 0 if there are as many other flows as slots. A call ends after at most
    `5 * CAPACITY + 3` accesses of its own. -/
theorem concurrent_affinity {C : Type*} [DecidableEq C] (crc : BitVec 64 → BitVec 64) (cap : Capacity)
    (lookup : LookUpTable) (hash : C → BitVec 64) (map : MaglevHashmap) (schedule : List C)
    (zero : map.AllZero cap) :
    let s := frameRun crc cap lookup hash schedule (frameStart cap hash map)
    (∀ c d a b, s.pc c = .returned a → s.pc d = .returned b → hash c = hash d → a = b) ∧
    (∀ c a, s.pc c = .returned a → hash c ≠ 0 → a = lookup.backend (hash c) ∨ a = 0 ∧
      ∃ others : Finset (BitVec 64), others.card = cap.val ∧
        ∀ key ∈ others, key ≠ 0 ∧ key ≠ hash c ∧ ∃ d, hash d = key) ∧
    (∀ c a, s.pc c = .returned a → hash c = 0 → a = 0) ∧
    ∀ c, 5 * cap.val + 3 ≤ schedule.count c → ∃ a, s.pc c = .returned a := by
  intro s
  obtain ⟨inv, paid⟩ : FrameInv crc cap lookup hash s ∧ ∀ c, s.work cap c ≤
      (frameStart cap hash map).work cap c - schedule.count c :=
    (frameStart_inv crc lookup hash zero).run schedule
  refine ⟨fun c d a b done done' same => ?_, fun c a done ne => ?_, fun c a done keyless => ?_,
    fun c enough => ?_⟩
  · by_cases keyless : hash c = 0
    · rw [(inv.keyless keyless).1] at done
      rw [(inv.keyless (same ▸ keyless)).1] at done'
      cases done
      cases done'
      rfl
    · rcases inv.answer done keyless with ⟨rfl, stored⟩ | ⟨rfl, _, missing⟩ <;>
        rcases inv.answer done' (same ▸ keyless) with ⟨rfl, stored'⟩ | ⟨rfl, _, missing'⟩
      · rw [same]
      · exact absurd (same ▸ stored) missing'
      · exact absurd (same ▸ stored') missing
      · rfl
  · refine (inv.answer done ne).imp And.left fun ⟨refused, full, missing⟩ => ⟨refused, ?_⟩
    -- the flows that fill the table
    refine ⟨storedKeys cap.val 0 s.race.map.keys, ?_, fun key mem => ?_⟩
    · exact le_antisymm card_storedKeys_le (inv.race.chained.full_iff_card.mp full)
    · obtain ⟨occ, j, lt, rfl⟩ := mem_storedKeys.mp mem
      exact ⟨occ, fun e => missing ⟨j, lt, e⟩, inv.among lt occ⟩
  · rw [(inv.keyless keyless).1] at done
    cases done
    rfl
  · have spent := paid c
    have first : maglevNext cap 0 = .load 0 := if_pos cap.pos
    have first' : getNext cap 0 = .load 0 := if_pos cap.pos
    have budget : (frameStart cap hash map).work cap c ≤ 5 * cap.val + 3 := by
      unfold frameStart FrameRace.work
      dsimp only
      rw [first, first']
      split <;> dsimp only [FramePc.work] <;> omega
    have idle : s.work cap c = 0 := by omega
    exact FramePc.returned_of_work idle

/-- Two lcores race for the only slot with frames of one flow, and a third one comes too late. -/
theorem concurrent_affinity_oneSlot :
    ∃ s, frameRun (·) oneSlot (fun _ => 0xff) ![5, 5, 7]
        ([0, 1, 0, 1, 0, 1, 2, 0, 2, 2, 2, 2, 1, 1, 1, 1, 1] : List (Fin 3))
        (frameStart oneSlot ![5, 5, 7] { pairs := fun _ => { key := 0, value := 0 } }) = s ∧
      s.pc 0 = .returned 0xff ∧ s.pc 1 = .returned 0xff ∧ s.pc 2 = .returned 0 := by
  obtain ⟨same, _, _, ends⟩ := concurrent_affinity (·) oneSlot (fun _ => 0xff) ![5, 5, 7]
    { pairs := fun _ => { key := 0, value := 0 } }
    ([0, 1, 0, 1, 0, 1, 2, 0, 2, 2, 2, 2, 1, 1, 1, 1, 1] : List (Fin 3)) (fun _ _ => rfl)
  obtain ⟨b, second⟩ := ends 1 (by decide +kernel)
  have agree : 0xff = b := same 0 1 _ _ (by decide +kernel) second rfl
  rw [← agree] at second
  exact ⟨_, rfl, by decide +kernel, second, by decide +kernel⟩

end NetBlast.Concurrent
