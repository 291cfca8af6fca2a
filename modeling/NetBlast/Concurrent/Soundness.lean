import NetBlast.Concurrent.Finder

/-!
# Lookups racing inserts are sound

The invariant of the whole system: that of the inserts with a non-zero key, which alone touch the
table, and that of every finder. `SystemInv.step` carries it through the steps of all calls, and
`lookups_racing_inserts_sound` says what it means for a batch: a key stored before its push is
found, a found value was inserted with its key, and a call returns within a bound on its own steps
that no insert can move.
-/

namespace NetBlast.Concurrent
open Probing Dramblast

variable {C F : Type*} {crc : BitVec 64 → BitVec 64} {k v : C → BitVec 64}
  {args : F → List DramblastArg} {P : F → Nat → Nat → Prop} {s s' : System C F}

/-- The inserts with a non-zero key. -/
abbrev Proper (k : C → BitVec 64) := { c : C // k c ≠ 0 }

/-- The race of the inserts with a non-zero key. -/
def InsertRace.proper (k : C → BitVec 64) (s : InsertRace C) : InsertRace (Proper k) :=
  { ht := s.ht, pc := fun c => s.pc c }

/-- The invariant of the system, where `P f` marks the lookups of `f` that may not fail. -/
structure SystemInv (crc : BitVec 64 → BitVec 64) (k v : C → BitVec 64) (args : F → List DramblastArg)
    (P : F → Nat → Nat → Prop) (s : System C F) : Prop where
  zero : ∀ c, k c = 0 → s.race.pc c = .returned (-1)
  inserts : InsertInv crc (fun c : Proper k => k c) (fun c => v c) (s.race.proper k)
  finders : ∀ f, FinderInv crc k v s.race.ht (args f) (P f) (s.finders f)

/-- The steps that the finder `f` takes at most. -/
def System.work (args : F → List DramblastArg) (s : System C F) (f : F) : Nat :=
  (s.finders f).work s.race.ht.len (args f)

/-- The layout invariant holds in the system. -/
lemma SystemInv.chained (inv : SystemInv crc k v args P s) :
    Chained s.race.ht.len (dramblastHash crc s.race.ht) 0 s.race.ht.keys :=
  inv.inserts.race.chained

/-- Every pair in the table was inserted. -/
lemma SystemInv.origin (inv : SystemInv crc k v args P s) :
    ∀ j < s.race.ht.len, s.race.ht.keys j ≠ 0 →
      ∃ c, k c = s.race.ht.keys j ∧ v c = s.race.ht.vals j := by
  intro j hj occ
  obtain ⟨c, _, ek, ev⟩ := inv.inserts.race.origin j hj occ
  exact ⟨c, ek, ev⟩

/-- A key for which a call returned 0 is stored. -/
lemma SystemInv.stored {c} (inv : SystemInv crc k v args P s)
    (done : (s.race.pc c).ret = some 0) : k c ≠ 0 ∧ Stored s.race.ht.len s.race.ht.keys (k c) := by
  have ne : k c ≠ 0 := by
    intro zero
    rw [inv.zero c zero] at done
    cases done
  have holds := inv.inserts.race.holds ⟨c, ne⟩
  have stored : (s.race.proper k).abs.pc ⟨c, ne⟩ = .stored := (InsertPc.reports _).stored_iff.mpr done
  rw [stored] at holds
  exact ⟨ne, holds⟩

/-- Before the first step nothing is promised. -/
lemma SystemInv.start {ht : DramblastHt} {queues : F → DramblastQueue Lookup} (zero : ht.AllZero)
    (idle : ∀ f, (queues f).findQueueHead = (queues f).findQueueTail) :
    SystemInv crc k v args (fun _ _ _ => False) (systemStart crc k args ht queues) where
  zero _ e := if_pos e
  inserts := InsertInv.start crc (fun c : Proper k => v c) zero fun c => c.2
  finders f := FinderInv.start (idle f)

/-- What is stored now is promised to every lookup that is still to be pushed. -/
lemma SystemInv.promised (inv : SystemInv crc k v args (fun _ _ _ => False) s) :
    SystemInv crc k v args (fun f => Promised crc s.race.ht (args f) (s.finders f)) s where
  zero := inv.zero
  inserts := inv.inserts
  finders f := (inv.finders f).promised

section
variable [DecidableEq C]

/-- A step of an insert with a non-zero key is a step among those inserts. -/
lemma proper_step {r : InsertRace C} {c} (ne : k c ≠ 0) :
    (insertStep k v c r).proper k =
      insertStep (fun c : Proper k => k c) (fun c => v c) ⟨c, ne⟩ (r.proper k) := by
  have moved (pc : InsertPc) : (fun c' : Proper k => Function.update r.pc c pc c') =
      Function.update (fun c' : Proper k => r.pc c') ⟨c, ne⟩ pc := by
    funext c'
    rw [Function.update_apply, Function.update_apply]
    have same : (c' : C) = c ↔ c' = ⟨c, ne⟩ := ⟨fun e => Subtype.ext e, fun e => congrArg Subtype.val e⟩
    exact if_congr same rfl rfl
  have goto (pc : InsertPc) : (r.goto c pc).proper k = (r.proper k).goto ⟨c, ne⟩ pc := by
    unfold InsertRace.proper InsertRace.goto
    rw [moved]
  unfold insertStep
  have here : (r.proper k).pc ⟨c, ne⟩ = r.pc c := rfl
  have table : (r.proper k).ht = r.ht := rfl
  rw [here, table]
  cases r.pc c with
  | load idx count =>
    dsimp only
    split
    · exact goto _
    · exact goto _
  | swap idx count =>
    dsimp only
    split
    · unfold InsertRace.proper
      rw [moved]
    · exact goto _
  | reload idx count =>
    dsimp only
    split
    · exact goto _
    · split
      · exact goto _
      · exact goto _
  | assign idx count =>
    dsimp only
    unfold InsertRace.proper
    rw [moved]
  | returned r => rfl

/-- A step moves one call. -/
lemma insertStep_of_ne {r : InsertRace C} {c c'} (ne : c' ≠ c) :
    (insertStep k v c r).pc c' = r.pc c' := by
  have moved (pc : InsertPc) : Function.update r.pc c pc c' = r.pc c' := Function.update_of_ne ne ..
  unfold insertStep InsertRace.goto
  cases r.pc c with
  | load idx count =>
    dsimp only
    split <;> exact moved _
  | swap idx count =>
    dsimp only
    split <;> exact moved _
  | reload idx count =>
    dsimp only
    split
    · exact moved _
    · split <;> exact moved _
  | assign idx count => exact moved _
  | returned r => rfl

/-- A step of an insert keeps the invariants, and the keys of the occupied slots. -/
lemma SystemInv.insert (inv : SystemInv crc k v args P s) (c : C) :
    SystemInv crc k v args P { s with race := insertStep k v c s.race } ∧
      (insertStep k v c s.race).ht.len = s.race.ht.len := by
  by_cases ne : k c = 0
  · -- a call for the key 0 has returned before its first access
    have same : insertStep k v c s.race = s.race := by
      unfold insertStep
      rw [inv.zero c ne]
    rw [same]
    exact ⟨inv, rfl⟩
  · obtain ⟨inserts, len, grows⟩ := inv.inserts.step (fun c => c.2) ⟨c, ne⟩
    rw [← proper_step ne] at inserts len grows
    refine ⟨⟨fun c' zero => ?_, inserts, fun f => ?_⟩, len⟩
    · have other : c' ≠ c := by
        rintro rfl
        exact ne zero
      rw [← inv.zero c' zero]
      exact insertStep_of_ne other
    · exact (inv.finders f).grow inv.chained len grows

end

variable [DecidableEq F]

/-- A step of a finder keeps the invariants and takes its work away. -/
lemma SystemInv.moved {f fd} (inv : SystemInv crc k v args P s)
    (moved : FinderInv crc k v s.race.ht (args f) (P f) fd ∧
      fd.work s.race.ht.len (args f) < (s.finders f).work s.race.ht.len (args f)) :
    SystemInv crc k v args P { s with finders := Function.update s.finders f fd } ∧
      ∀ g, System.work args { s with finders := Function.update s.finders f fd } g +
        (if f = g then 1 else 0) ≤ s.work args g := by
  constructor
  · refine ⟨inv.zero, inv.inserts, fun g => ?_⟩
    dsimp only
    rw [Function.update_apply]
    split
    · next e => rw [e]; exact moved.1
    · exact inv.finders g
  · intro g
    unfold System.work
    dsimp only
    rw [Function.update_apply]
    by_cases e : f = g
    · rw [if_pos e, if_pos e.symm, ← e]
      exact moved.2
    · rw [if_neg e, if_neg (Ne.symm e)]
      exact le_rfl

variable [DecidableEq C]

/-- Every step keeps the invariants and the length of the table, and a finder's own steps take its
    work away. -/
lemma SystemInv.step {e} (inv : SystemInv crc k v args P s)
    (step : systemStep crc k v args s e = some s') :
    SystemInv crc k v args P s' ∧ s'.race.ht.len = s.race.ht.len ∧
      ∀ f, s'.work args f + (if e.isOf f then 1 else 0) ≤ s.work args f := by
  cases e with
  | insert c =>
    cases step
    obtain ⟨inv', len⟩ := inv.insert c
    refine ⟨inv', len, fun f => ?_⟩
    unfold System.work
    dsimp only
    rw [len]
    exact le_rfl
  | find f =>
    unfold systemStep at step
    rw [Option.map_eq_some_iff] at step
    obtain ⟨fd, step, rfl⟩ := step
    obtain ⟨inv', less⟩ := inv.moved ((inv.finders f).step inv.chained inv.origin step)
    refine ⟨inv', rfl, fun g => ?_⟩
    simpa only [Event.isOf, decide_eq_true_eq] using less g
  | lane f l =>
    unfold systemStep at step
    rw [Option.map_eq_some_iff] at step
    obtain ⟨fd, step, rfl⟩ := step
    obtain ⟨inv', less⟩ := inv.moved ((inv.finders f).lane step)
    refine ⟨inv', rfl, fun g => ?_⟩
    simpa only [Event.isOf, decide_eq_true_eq] using less g

/-- Every run keeps the invariants, and the work of a finder pays for its steps. -/
lemma SystemInv.run {schedule} (inv : SystemInv crc k v args P s)
    (run : systemRun crc k v args schedule s = some s') :
    SystemInv crc k v args P s' ∧ s'.race.ht.len = s.race.ht.len ∧
      ∀ f, s'.work args f + schedule.countP (Event.isOf f) ≤ s.work args f := by
  induction schedule generalizing s with
  | nil =>
    cases run
    exact ⟨inv, rfl, fun f => le_rfl⟩
  | cons e schedule ih =>
    unfold systemRun at run
    rw [Option.bind_eq_some_iff] at run
    obtain ⟨next, step, run⟩ := run
    obtain ⟨inv', len, paid⟩ := inv.step step
    obtain ⟨inv'', len', paid'⟩ := ih inv' run
    refine ⟨inv'', len'.trans len, fun f => ?_⟩
    have now := paid f
    have later := paid' f
    rw [List.countP_cons]
    omega

/-- What is promised of the batch of `f` on a table of `len` slots, when the system is in `s` and
    has been in `earlier`, and `f` has taken `steps` steps. -/
structure BatchSound (crc : BitVec 64 → BitVec 64) (k v : C → BitVec 64) (args : F → List DramblastArg)
    (len : Nat) (f : F) (earlier s : System C F) (steps : Nat) : Prop where
  stored : ∀ c j arg, (earlier.race.pc c).ret = some 0 → (args f)[j]? = some arg → arg.k = k c →
    (earlier.finders f).argsHead ≤ j → ∀ r, (r, j) ∈ (s.finders f).results → r.status = .found
  value : ∀ j arg r, (args f)[j]? = some arg → arg.k ≠ 0 → (r, j) ∈ (s.finders f).results →
    r.status = .found → ∃ c, k c = arg.k ∧ v c = r.v
  id : ∀ j r, (r, j) ∈ (s.finders f).results → ∃ arg, (args f)[j]? = some arg ∧ r.id = arg.id
  probes : ∀ j, (s.finders f).probes j ≤ len / 4
  steps : steps ≤ (args f).length * (12 * (len / 4) + 1)
  live : (s.finders f).pc ≠ .returned → (systemStep crc k v args s (.find f)).isSome ∨
    ∃ l, (systemStep crc k v args s (.lane f l)).isSome
  finished : (s.finders f).pc = .returned →
    ((s.finders f).results.map (·.2)).Perm (List.range (args f).length) ∧
      (s.finders f).queue.findQueueHead = (s.finders f).queue.findQueueTail

/-- Lookups racing inserts are sound: whatever the interleaving, a key stored before its lookup is
    pushed is found, a found value was inserted together with its key, and a batch ends after at
    most `len / 4` probes of each of its keys. -/
theorem lookups_racing_inserts_sound (crc : BitVec 64 → BitVec 64) (k v : C → BitVec 64)
    (args : F → List DramblastArg) (ht : DramblastHt) (queues : F → DramblastQueue Lookup)
    (first rest : List (Event C F)) (earlier s : System C F) (f : F) (zero : ht.AllZero)
    (idle : ∀ f, (queues f).findQueueHead = (queues f).findQueueTail)
    (run : systemRun crc k v args first (systemStart crc k args ht queues) = some earlier)
    (run' : systemRun crc k v args rest earlier = some s) :
    BatchSound crc k v args ht.len f earlier s ((first ++ rest).countP (Event.isOf f)) := by
  obtain ⟨inv, len, paid⟩ := (SystemInv.start zero idle).run run
  obtain ⟨inv', len', paid'⟩ := inv.promised.run run'
  have fd := inv'.finders f
  have whole : (systemStart crc k args ht queues).work args f =
      (args f).length * (12 * (ht.len / 4) + 1) := start_work (idle f)
  constructor
  · intro c j arg done here e pushed r mem
    obtain ⟨ne, slot, lt, stored⟩ := inv.stored done
    obtain ⟨p, hp, rfl⟩ := slotAt_surj (dramblastHash crc earlier.race.ht arg.k) lt
    obtain ⟨arg', ok⟩ := fd.results _ mem
    refine ok.promised p ⟨pushed, arg, here, ?_, hp, ?_⟩
    · rwa [e]
    · rw [e] at stored ⊢
      exact stored
  · intro j arg r here ne mem found
    obtain ⟨arg', ok⟩ := fd.results _ mem
    have same := ok.here
    rw [here, Option.some.injEq] at same
    subst same
    exact ok.passed ne found
  · intro j r mem
    obtain ⟨arg, ok⟩ := fd.results _ mem
    exact ⟨arg, ok.here, ok.id⟩
  · have probes := fd.probes_le
    rwa [len', len] at probes
  · have := paid f
    have := paid' f
    rw [List.countP_append]
    omega
  · intro pc
    unfold systemStep
    simpa only [Option.isSome_map] using finder_enabled crc s.race.ht (args f) pc
  · exact fd.returned

/-- A batch of two keys while inserts go on between its reads: the value of the first key is
    overwritten after its bucket has been read, and the second key is stored between the lanes. -/
theorem lookups_racing_inserts_sound_between :
    let k : Fin 3 → BitVec 64 := ![5, 6, 5]
    let v : Fin 3 → BitVec 64 := ![7, 9, 8]
    let args : Fin 1 → List DramblastArg := fun _ => [{ k := 5, id := 3 }, { k := 6, id := 4 }]
    let ht := dramblastInit 4 ⟨2, by decide, by decide, rfl⟩
      fun _ _ => { k := 0, idx := 0, visitCount := 0, id := 0 }
    let queue : DramblastQueue Lookup :=
      { findQueue := fun _ => ({ k := 0, idx := 0, visitCount := 0, id := 0 }, 0)
        findQueueHead := 0, findQueueTail := 0, findQueueSize := dramblastFindQueueSize
        size_eq := rfl, head_lt := by decide, tail_lt := by decide }
    let first : List (Event (Fin 3) (Fin 1)) := [.insert 0, .insert 0]
    let rest : List (Event (Fin 3) (Fin 1)) :=
      [.find 0, .find 0, .find 0, .lane 0 7, .insert 2, .lane 0 0, .lane 0 1, .lane 0 2, .insert 2,
        .lane 0 3, .lane 0 4, .lane 0 5, .lane 0 6, .find 0, .insert 2, .find 0,
        .find 0, .insert 1, .lane 0 0, .insert 1, .lane 0 1, .insert 1, .lane 0 3, .insert 1,
        .lane 0 2, .lane 0 4, .lane 0 5, .lane 0 6, .lane 0 7, .find 0, .find 0]
    ∃ earlier s,
      systemRun mmCrc32U64 k v args first (systemStart mmCrc32U64 k args ht fun _ => queue) =
        some earlier ∧
      systemRun mmCrc32U64 k v args rest earlier = some s ∧
      (s.finders 0).results = [({ v := 8, id := 3, status := .found }, 0),
        ({ v := 9, id := 4, status := .found }, 1)] ∧
      BatchSound mmCrc32U64 k v args 4 0 earlier s 24 := by
  intro k v args ht queue first rest
  obtain ⟨earlier, run⟩ : ∃ earlier, systemRun mmCrc32U64 k v args first
      (systemStart mmCrc32U64 k args ht fun _ => queue) = some earlier :=
    Option.isSome_iff_exists.mp (by decide +kernel)
  have whole : ((systemRun mmCrc32U64 k v args first
      (systemStart mmCrc32U64 k args ht fun _ => queue)).bind
        (systemRun mmCrc32U64 k v args rest)).map (fun s => (s.finders 0).results) =
      some [({ v := 8, id := 3, status := .found }, 0),
        ({ v := 9, id := 4, status := .found }, 1)] := by decide +kernel
  rw [run, Option.bind_some, Option.map_eq_some_iff] at whole
  obtain ⟨s, run', results⟩ := whole
  exact ⟨earlier, s, run, run', results, lookups_racing_inserts_sound mmCrc32U64 k v args ht
    (fun _ => queue) first rest earlier s 0 (fun _ _ => rfl) (fun _ => rfl) run run'⟩

end NetBlast.Concurrent
