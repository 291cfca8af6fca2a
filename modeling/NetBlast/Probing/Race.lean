import NetBlast.Probing.Represents

/-!
# Racing inserts

Any number of inserts on one linear-probing table, in atomic steps: read a key, compare-and-swap a
pair from all zero, read the key again, store a value. `raceStep` is one step of one insert. The key
of an occupied slot never changes (`Grows`), so what an insert has learnt about the slots behind it
stays true whatever the others do; `RacePc.Holds` says what it has learnt at each point, and
`RaceInv.step` carries it, with the layout invariant, through every step. `RaceInv.stored_step` says
which step of an insert stores its key, and `RaceInv.pays` that its own steps bring it to its end.
-/

namespace Probing

/-- Where an insert stands; `i` is the number of its probe. -/
inductive RacePc where
  | read (i : Nat)
  | cas (i : Nat)
  | reread (i : Nat)
  | store (i : Nat)
  | stored
  | gaveUp
deriving DecidableEq

/-- The table, and where the inserts `C` stand. -/
structure RaceState (C K V : Type*) where
  keys : Nat → K
  vals : Nat → V
  pc : C → RacePc

variable {C K V : Type*}

/-- A step of `c` that leaves the table alone. -/
def RaceState.goto [DecidableEq C] (s : RaceState C K V) (c : C) (pc : RacePc) : RaceState C K V :=
  { s with pc := Function.update s.pc c pc }

section
variable [DecidableEq C] [DecidableEq K] [DecidableEq V]
variable (n : Nat) (home : K → Nat) (empty : K) (vacant : V) (key : C → K) (value : C → V)

/-- One atomic step of the insert `c`. -/
def raceStep (c : C) (s : RaceState C K V) : RaceState C K V :=
  match s.pc c with
  | .read i =>
    if s.keys (slotAt n (home (key c)) i) = empty then s.goto c (.cas i) else s.goto c (.reread i)
  | .cas i =>
    let slot := slotAt n (home (key c)) i
    if s.keys slot = empty ∧ s.vals slot = vacant then
      { keys := Function.update s.keys slot (key c)
        vals := Function.update s.vals slot (value c)
        pc := Function.update s.pc c .stored }
    else s.goto c (.reread i)
  | .reread i =>
    if s.keys (slotAt n (home (key c)) i) = key c then s.goto c (.store i)
    else if i + 1 < n then s.goto c (.read (i + 1))
    else s.goto c .gaveUp
  | .store i =>
    { s with
      vals := Function.update s.vals (slotAt n (home (key c)) i) (value c)
      pc := Function.update s.pc c .stored }
  | .stored => s
  | .gaveUp => s

end

variable {n : Nat} {home : K → Nat} {empty : K} {vacant : V} {key : C → K} {value : C → V}

/-- Occupied slots keep their key. -/
def Grows (empty : K) (keys keys' : Nat → K) : Prop :=
  ∀ s, keys s ≠ empty → keys' s = keys s

/-- A table grows into itself. -/
lemma Grows.refl {keys : Nat → K} : Grows empty keys keys :=
  fun _ _ => rfl

/-- Growing is transitive. -/
lemma Grows.trans {keys keys' keys'' : Nat → K} (first : Grows empty keys keys')
    (second : Grows empty keys' keys'') : Grows empty keys keys'' := by
  intro s occ
  have same := first s occ
  rw [second s (by rwa [same]), same]

/-- A full table stays full. -/
lemma Grows.full {keys keys' : Nat → K} (grows : Grows empty keys keys') (full : Full n empty keys) :
    Full n empty keys' := by
  intro s hs
  rw [grows s (full s hs)]
  exact full s hs

/-- A stored key stays stored. -/
lemma Grows.stored {keys keys' : Nat → K} {k} (grows : Grows empty keys keys') (ne : k ≠ empty)
    (stored : Stored n keys k) : Stored n keys' k := by
  obtain ⟨s, hs, e⟩ := stored
  exact ⟨s, hs, (grows s (by rwa [e])).trans e⟩

/-- Writing a key where the search for it ends keeps the keys of the occupied slots. -/
lemma Grows.landing [DecidableEq K] {keys : Nat → K} {k s}
    (landed : landing n home empty keys k = some s) :
    Grows empty keys (Function.update keys s k) := by
  intro t occ
  rw [Function.update_apply]
  split
  · next here =>
    rw [here] at occ ⊢
    exact ((landing_eq_some landed).2.resolve_left occ).symm
  · rfl

/-- The first `i` slots of the sequence of `k` hold other keys. -/
def Passed (n : Nat) (home : K → Nat) (empty : K) (keys : Nat → K) (k : K) (i : Nat) : Prop :=
  ∀ j < i, keys (slotAt n (home k) j) ≠ empty ∧ keys (slotAt n (home k) j) ≠ k

/-- Passed slots stay passed. -/
lemma Passed.grow {keys keys' : Nat → K} {k i} (grows : Grows empty keys keys')
    (passed : Passed n home empty keys k i) : Passed n home empty keys' k i := by
  intro j hj
  rw [grows _ (passed j hj).1]
  exact passed j hj

/-- One more slot is passed. -/
lemma Passed.succ {keys : Nat → K} {k i} (passed : Passed n home empty keys k i)
    (here : keys (slotAt n (home k) i) ≠ empty ∧ keys (slotAt n (home k) i) ≠ k) :
    Passed n home empty keys k (i + 1) := by
  intro j hj
  rcases Nat.lt_succ_iff_lt_or_eq.mp hj with lt | rfl
  · exact passed j lt
  · exact here

/-- A whole turn of passed slots is a full table without the key. -/
lemma Passed.full {keys : Nat → K} {k} (passed : Passed n home empty keys k n) :
    Full n empty keys ∧ ¬ Stored n keys k := by
  constructor
  · intro s hs
    obtain ⟨i, hi, rfl⟩ := slotAt_surj (home k) hs
    exact (passed i hi).1
  · rintro ⟨s, hs, e⟩
    obtain ⟨i, hi, rfl⟩ := slotAt_surj (home k) hs
    exact (passed i hi).2 e

/-- What an insert of `k` knows at each point. -/
def RacePc.Holds (n : Nat) (home : K → Nat) (empty : K) (keys : Nat → K) (k : K) : RacePc → Prop
  | .read i => i < n ∧ Passed n home empty keys k i
  | .cas i => i < n ∧ Passed n home empty keys k i
  | .reread i => i < n ∧ Passed n home empty keys k i ∧ keys (slotAt n (home k) i) ≠ empty
  | .store i => i < n ∧ keys (slotAt n (home k) i) = k
  | .stored => Stored n keys k
  | .gaveUp => Passed n home empty keys k n

/-- What an insert knows stays true when the table grows. -/
lemma RacePc.Holds.grow {keys keys' : Nat → K} {k pc} (ne : k ≠ empty)
    (grows : Grows empty keys keys') (holds : RacePc.Holds n home empty keys k pc) :
    RacePc.Holds n home empty keys' k pc := by
  cases pc with
  | read i => exact ⟨holds.1, holds.2.grow grows⟩
  | cas i => exact ⟨holds.1, holds.2.grow grows⟩
  | reread i =>
    refine ⟨holds.1, holds.2.1.grow grows, ?_⟩
    rw [grows _ holds.2.2]
    exact holds.2.2
  | store i =>
    refine ⟨holds.1, ?_⟩
    rw [grows _ (by rw [holds.2]; exact ne)]
    exact holds.2
  | stored =>
    obtain ⟨s, hs, e⟩ := holds
    exact ⟨s, hs, (grows s (by rwa [e])).trans e⟩
  | gaveUp => exact Passed.grow grows holds

/-- The invariant of the race. -/
structure RaceInv (n : Nat) (home : K → Nat) (empty : K) (vacant : V) (key : C → K) (value : C → V)
    (s : RaceState C K V) : Prop where
  chained : Chained n home empty s.keys
  clean : ∀ j < n, s.keys j = empty → s.vals j = vacant
  origin : ∀ j < n, s.keys j ≠ empty →
    ∃ c, s.pc c = .stored ∧ key c = s.keys j ∧ value c = s.vals j
  holds : ∀ c, RacePc.Holds n home empty s.keys (key c) (s.pc c)

/-- The race starts on an empty table. -/
lemma RaceInv.init {s : RaceState C K V} (pos : 0 < n)
    (zero : ∀ j < n, s.keys j = empty ∧ s.vals j = vacant) (start : ∀ c, s.pc c = .read 0) :
    RaceInv n home empty vacant key value s where
  chained := Chained.init fun j hj => (zero j hj).1
  clean j hj _ := (zero j hj).2
  origin j hj occ := absurd (zero j hj).1 occ
  holds c := by
    rw [start c]
    exact ⟨pos, fun j hj => absurd hj (by omega)⟩

/-- The stored keys are those of the inserts that stored something. -/
lemma RaceInv.stored_iff {s : RaceState C K V} {k} (inv : RaceInv n home empty vacant key value s)
    (ne : k ≠ empty) : Stored n s.keys k ↔ ∃ c, key c = k ∧ s.pc c = .stored := by
  constructor
  · rintro ⟨j, hj, e⟩
    obtain ⟨c, done, ek, _⟩ := inv.origin j hj (by rwa [e])
    exact ⟨c, ek.trans e, done⟩
  · rintro ⟨c, rfl, done⟩
    have holds := inv.holds c
    rwa [done] at holds

/-- An insert gives up only on a full table that does not have its key. -/
lemma RaceInv.gaveUp {s : RaceState C K V} {c} (inv : RaceInv n home empty vacant key value s)
    (done : s.pc c = .gaveUp) : Full n empty s.keys ∧ ¬ Stored n s.keys (key c) := by
  have holds := inv.holds c
  rw [done] at holds
  exact Passed.full holds

variable [DecidableEq C]

/-- A step that leaves the table alone keeps the invariant, if the insert knows enough. -/
lemma RaceInv.goto {s : RaceState C K V} {c pc} (inv : RaceInv n home empty vacant key value s)
    (running : s.pc c ≠ .stored) (knows : RacePc.Holds n home empty s.keys (key c) pc) :
    RaceInv n home empty vacant key value (s.goto c pc) where
  chained := inv.chained
  clean := inv.clean
  origin j hj occ := by
    obtain ⟨c', done, e⟩ := inv.origin j hj occ
    refine ⟨c', ?_, e⟩
    have other : c' ≠ c := by
      rintro rfl
      exact running done
    exact (Function.update_of_ne other ..).trans done
  holds c' := by
    unfold RaceState.goto
    dsimp only
    rw [Function.update_apply]
    split
    · next e => rwa [e]
    · exact inv.holds c'

/-- A slot of the sequence of `c` gets the key and the value of `c`: a free slot that only passed
    ones precede, or one that has the key already. -/
lemma RaceInv.write {s : RaceState C K V} {c i} (inv : RaceInv n home empty vacant key value s)
    (ne : ∀ c, key c ≠ empty) (hi : i < n)
    (here : s.keys (slotAt n (home (key c)) i) = key c ∨
      s.keys (slotAt n (home (key c)) i) = empty ∧ Passed n home empty s.keys (key c) i) :
    RaceInv n home empty vacant key value
        { keys := Function.update s.keys (slotAt n (home (key c)) i) (key c)
          vals := Function.update s.vals (slotAt n (home (key c)) i) (value c)
          pc := Function.update s.pc c .stored } ∧
      Grows empty s.keys (Function.update s.keys (slotAt n (home (key c)) i) (key c)) := by
  have lt : slotAt n (home (key c)) i < n := slotAt_lt (by omega)
  have grows : Grows empty s.keys (Function.update s.keys (slotAt n (home (key c)) i) (key c)) := by
    intro j occ
    rw [Function.update_apply]
    split
    · next e =>
      rcases here with same | ⟨free, _⟩
      · rw [e, same]
      · exact absurd (by rw [e, free]) occ
    · rfl
  refine ⟨⟨?_, ?_, ?_, ?_⟩, grows⟩
  · rcases here with same | ⟨free, passed⟩
    · dsimp only
      rw [Function.update_eq_self_iff.mpr same.symm]
      exact inv.chained
    · have fresh := inv.chained.not_stored (ne c) hi free fun j hj => (passed j hj).2
      exact inv.chained.place (ne c) hi fresh fun j hj => (passed j hj).1
  · intro j hj free
    dsimp only at free ⊢
    rw [Function.update_apply] at free ⊢
    split at free
    · exact absurd free (ne c)
    · next other =>
      rw [if_neg other]
      exact inv.clean j hj free
  · intro j hj occ
    dsimp only at occ ⊢
    by_cases e : j = slotAt n (home (key c)) i
    · exact ⟨c, Function.update_self .., by rw [e, Function.update_self],
        by rw [e, Function.update_self]⟩
    · rw [Function.update_of_ne e] at occ ⊢
      rw [Function.update_of_ne e]
      obtain ⟨c', done, ek, ev⟩ := inv.origin j hj occ
      refine ⟨c', ?_, ek, ev⟩
      rw [Function.update_apply, done, ite_self]
  · intro c'
    dsimp only
    rw [Function.update_apply]
    split
    · next e =>
      rw [e]
      exact ⟨_, lt, Function.update_self ..⟩
    · exact (inv.holds c').grow (ne c') grows

/-- Every step keeps the invariant, and the keys of the occupied slots. -/
lemma RaceInv.step [DecidableEq K] [DecidableEq V] {s : RaceState C K V}
    (inv : RaceInv n home empty vacant key value s)
    (ne : ∀ c, key c ≠ empty) (c : C) :
    RaceInv n home empty vacant key value (raceStep n home empty vacant key value c s) ∧
      Grows empty s.keys (raceStep n home empty vacant key value c s).keys := by
  have holds := inv.holds c
  unfold raceStep
  cases pc : s.pc c with
  | read i =>
    rw [pc] at holds
    dsimp only
    split
    · exact ⟨inv.goto (by rw [pc]; exact nofun) holds, Grows.refl⟩
    · next occ => exact ⟨inv.goto (by rw [pc]; exact nofun) ⟨holds.1, holds.2, occ⟩, Grows.refl⟩
  | cas i =>
    rw [pc] at holds
    dsimp only
    split
    · next free => exact inv.write ne holds.1 (Or.inr ⟨free.1, holds.2⟩)
    · next lost =>
      -- a free slot is zero in both halves, so the swap fails only on an occupied one
      refine ⟨inv.goto (by rw [pc]; exact nofun) ⟨holds.1, holds.2, fun free => ?_⟩, Grows.refl⟩
      exact lost ⟨free, inv.clean _ (slotAt_lt (by have := holds.1; omega)) free⟩
  | reread i =>
    rw [pc] at holds
    obtain ⟨hi, passed, occ⟩ := holds
    dsimp only
    split
    · next same => exact ⟨inv.goto (by rw [pc]; exact nofun) ⟨hi, same⟩, Grows.refl⟩
    · next other =>
      have passed' := passed.succ ⟨occ, other⟩
      split
      · next more => exact ⟨inv.goto (by rw [pc]; exact nofun) ⟨more, passed'⟩, Grows.refl⟩
      · next last =>
        rw [show i + 1 = n by omega] at passed'
        exact ⟨inv.goto (by rw [pc]; exact nofun) passed', Grows.refl⟩
  | store i =>
    rw [pc] at holds
    have written := inv.write ne holds.1 (Or.inl holds.2)
    rw [Function.update_eq_self_iff.mpr holds.2.symm] at written
    exact written
  | stored => exact ⟨inv, Grows.refl⟩
  | gaveUp => exact ⟨inv, Grows.refl⟩

/-- The steps an insert still takes at most. -/
def RacePc.work (n : Nat) : RacePc → Nat
  | .read i => 3 * (n - i) + 1
  | .cas i => 3 * (n - i)
  | .reread i => 3 * (n - i) - 1
  | .store _ => 1
  | .stored | .gaveUp => 0

/-- An insert that has no step left to take has stored its key or given up. -/
lemma RacePc.Holds.done {keys : Nat → K} {k : K} {pc : RacePc}
    (holds : RacePc.Holds n home empty keys k pc) (idle : pc.work n = 0) :
    pc = .stored ∨ pc = .gaveUp := by
  cases pc with
  | stored => exact Or.inl rfl
  | gaveUp => exact Or.inr rfl
  | read i => exact absurd idle (Nat.succ_ne_zero _)
  | cas i =>
    have lt := holds.1
    dsimp only [RacePc.work] at idle
    omega
  | reread i =>
    have lt := holds.1
    dsimp only [RacePc.work] at idle
    omega
  | store i => exact absurd idle Nat.one_ne_zero

/-- A step takes from the work of its insert. -/
lemma RaceInv.work_step [DecidableEq K] [DecidableEq V] {s : RaceState C K V}
    (inv : RaceInv n home empty vacant key value s) (c : C) :
    ((raceStep n home empty vacant key value c s).pc c).work n ≤ (s.pc c).work n - 1 := by
  have holds := inv.holds c
  have at_c (pc : RacePc) : (s.goto c pc).pc c = pc := Function.update_self ..
  unfold raceStep
  cases pc : s.pc c with
  | read i =>
    rw [pc] at holds
    have lt : i < n := holds.1
    dsimp only
    split <;> rw [at_c] <;> dsimp only [RacePc.work] <;> omega
  | cas i =>
    dsimp only
    split
    · dsimp only
      rw [Function.update_self]
      exact Nat.zero_le _
    · rw [at_c]
      exact le_rfl
  | reread i =>
    rw [pc] at holds
    have lt : i < n := holds.1
    dsimp only
    split
    · rw [at_c]
      dsimp only [RacePc.work]
      omega
    · split <;> rw [at_c] <;> dsimp only [RacePc.work] <;> omega
  | store i =>
    dsimp only
    rw [Function.update_self]
    exact Nat.zero_le _
  | stored =>
    rw [pc]
    exact Nat.zero_le _
  | gaveUp =>
    rw [pc]
    exact Nat.zero_le _

/-- A step of an insert that is under way takes something from its work. -/
lemma RaceInv.work_lt [DecidableEq K] [DecidableEq V] {s : RaceState C K V}
    (inv : RaceInv n home empty vacant key value s) {c : C}
    (running : s.pc c ≠ .stored ∧ s.pc c ≠ .gaveUp) :
    ((raceStep n home empty vacant key value c s).pc c).work n < (s.pc c).work n := by
  have pos : (s.pc c).work n ≠ 0 :=
    fun idle => ((inv.holds c).done idle).elim running.1 running.2
  have le := inv.work_step c
  omega

/-- A step moves no insert but its own. -/
lemma raceStep_other [DecidableEq K] [DecidableEq V] {s : RaceState C K V} {c d : C} (ne : d ≠ c) :
    (raceStep n home empty vacant key value c s).pc d = s.pc d := by
  have away (pc : RacePc) : (s.goto c pc).pc d = s.pc d := Function.update_of_ne ne ..
  unfold raceStep
  cases s.pc c with
  | read i =>
    dsimp only
    split <;> exact away _
  | cas i =>
    dsimp only
    split
    · exact Function.update_of_ne ne ..
    · exact away _
  | reread i =>
    dsimp only
    split
    · exact away _
    · split <;> exact away _
  | store i => exact Function.update_of_ne ne ..
  | stored => rfl
  | gaveUp => rfl

/-- The work of an insert pays for its own steps. -/
lemma RaceInv.pays [DecidableEq K] [DecidableEq V] {s : RaceState C K V}
    (inv : RaceInv n home empty vacant key value s) (c d : C) :
    ((raceStep n home empty vacant key value c s).pc d).work n ≤
      (s.pc d).work n - if d = c then 1 else 0 := by
  by_cases own : d = c
  · rw [if_pos own, own]
    exact inv.work_step c
  · rw [if_neg own, raceStep_other own]
    exact le_rfl

/-- The insert has stored its key, found it, or given up. -/
def RacePc.decided : RacePc → Bool
  | .store _ | .stored | .gaveUp => true
  | .read _ | .cas _ | .reread _ => false

/-- A step of an insert stores its key if it decides the insert and there is a free slot, and
    nothing else. -/
lemma RaceInv.stored_step [DecidableEq K] [DecidableEq V] {s : RaceState C K V}
    (inv : RaceInv n home empty vacant key value s) (c : C) {k : K} (nonempty : k ≠ empty) :
    Stored n (raceStep n home empty vacant key value c s).keys k ↔
      Stored n s.keys k ∨ k = key c ∧ ¬ Full n empty s.keys ∧ (s.pc c).decided = false ∧
        ((raceStep n home empty vacant key value c s).pc c).decided = true := by
  have holds := inv.holds c
  have at_c (pc : RacePc) : (s.goto c pc).pc c = pc := Function.update_self ..
  unfold raceStep
  cases pc : s.pc c with
  | read i =>
    dsimp only
    split <;> rw [at_c] <;> simp [RacePc.decided, RaceState.goto]
  | cas i =>
    rw [pc] at holds
    dsimp only
    split
    · next free =>
      have lt : slotAt n (home (key c)) i < n := slotAt_lt (by have := holds.1; omega)
      have room : ¬ Full n empty s.keys := fun full => full _ lt free.1
      dsimp only
      rw [Function.update_self, stored_update_iff lt (Or.inr free.1) nonempty, or_comm]
      simp [RacePc.decided, room]
    · rw [at_c]
      simp [RacePc.decided, RaceState.goto]
  | reread i =>
    rw [pc] at holds
    obtain ⟨lt, passed, occ⟩ := holds
    dsimp only
    split
    · next same =>
      refine (or_iff_left_of_imp ?_).symm
      rintro ⟨rfl, _⟩
      exact ⟨_, slotAt_lt (by omega), same⟩
    · next other =>
      split
      · rw [at_c]
        simp [RacePc.decided, RaceState.goto]
      · next last =>
        have passed' := passed.succ ⟨occ, other⟩
        rw [show i + 1 = n by omega] at passed'
        refine (or_iff_left_of_imp ?_).symm
        rintro ⟨_, room, _⟩
        exact absurd passed'.full.1 room
  | store i => simp [RacePc.decided]
  | stored => simp [RacePc.decided]
  | gaveUp => simp [RacePc.decided]

/-- A decided insert stays so. -/
lemma raceStep_decided [DecidableEq K] [DecidableEq V] {s : RaceState C K V} {c : C}
    (done : (s.pc c).decided) :
    ((raceStep n home empty vacant key value c s).pc c).decided := by
  unfold raceStep
  cases pc : s.pc c with
  | read i => rw [pc] at done; cases done
  | cas i => rw [pc] at done; cases done
  | reread i => rw [pc] at done; cases done
  | store i =>
    dsimp only
    rw [Function.update_self]
    rfl
  | stored => exact done
  | gaveUp => exact done

end Probing
