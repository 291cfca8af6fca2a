import NetBlast.Concurrent.Affinity
import NetBlast.Interleaving.Order

/-!
# The maglev mode one frame after the other

Calls of `maglev_process_frame` that run at the same time on one connection table answer as if they
had run one after the other, in an order that agrees with real time. A call takes effect when
`maglev_hashmap_get` finds its key, or when `maglev_hashmap_insert` swaps its pair in, finds its key
or gives up (`FrameRace.decided`); `FrameInv.effect` says that this step admits its flow as
`FirstCome` does, and `process_frame_linearizable` compares the calls with the run of
`maglev_process_frame` in the order of these steps.
-/

namespace NetBlast.Concurrent
open Probing Hashmap L2fwd Admission Interleaving

/-- The effect of a call is fixed, where `insertPc` is its point in `maglev_hashmap_insert`. -/
def FramePc.decided (insertPc : MaglevPc) : FramePc → Bool
  | .load _ | .reload _ => false
  | .insert => insertPc.abs.decided
  | .value _ | .returned _ => true

/-- The effect of the call `c` is fixed. -/
def FrameRace.decided {C : Type*} (s : FrameRace C) (c : C) : Bool :=
  (s.pc c).decided (s.race.pc c)

section
variable (crc : BitVec 64 → BitVec 64) (cap : Capacity) (lookup : LookUpTable)

/-- `maglev_process_frame` for one frame after the other, with the answers. -/
def maglevProcessFrames : List Frame → MaglevHashmap → List (BitVec 64) × MaglevHashmap
  | [], conntrack => ([], conntrack)
  | frame :: frames, conntrack =>
    let (backend, conntrack) := maglevProcessFrame crc cap lookup conntrack frame
    let (backends, conntrack) := maglevProcessFrames frames conntrack
    (backend :: backends, conntrack)

/-- The calls in the order in which they take effect. -/
def frameOrder {C : Type*} [DecidableEq C] (hash : C → BitVec 64) (schedule : List C)
    (s : FrameRace C) : List C :=
  order (frameStep crc cap lookup hash) FrameRace.decided schedule s

end

section
variable {C : Type*} {crc : BitVec 64 → BitVec 64} {cap : Capacity} {lookup : LookUpTable}
  {hash : C → BitVec 64} {s : FrameRace C}

/-- A call that has returned is decided. -/
lemma decided_returned {c : C} {backend : BitVec 64}
    (done : s.pc c = .returned backend) : s.decided c := by
  unfold FrameRace.decided
  rw [done]
  rfl

/-- The table caches the lookup table for the keys it stores. -/
lemma FrameInv.firstCome {keys : List (BitVec 64)} (inv : FrameInv crc cap lookup hash s)
    (sound : Sound cap.val keys) (nonzero : 0 ∉ keys)
    (stored : ∀ k, k ≠ 0 → (Stored cap.val s.race.map.keys k ↔ k ∈ keys)) :
    FirstCome crc cap lookup keys s.race.map where
  wf := ⟨inv.race.chained, inv.race.clean⟩
  sound := sound
  nonzero := nonzero
  rep k ne v := by
    unfold cacheOf
    constructor
    · intro bound
      split at bound
      · next mem =>
        cases bound
        obtain ⟨j, lt, here⟩ := (stored k ne).mpr mem
        have value := inv.value lt (by rwa [here])
        rw [here] at value
        exact ⟨j, lt, here, value⟩
      · cases bound
    · rintro ⟨j, lt, here, rfl⟩
      rw [if_pos ((stored k ne).mp ⟨j, lt, here⟩), inv.value lt (by rwa [here]), here]

/-- A lookup finds the pair of an admitted flow. -/
lemma firstCome_get {keys : List (BitVec 64)} {map : MaglevHashmap}
    (fc : FirstCome crc cap lookup keys map) {k : BitVec 64} (ne : k ≠ 0) :
    (maglevHashmapGet crc cap map k).map map.pairs =
      (cacheOf lookup keys k).map fun value => { key := k, value } := by
  have got := fc.wf.get_eq fc.rep ne
  cases bound : cacheOf lookup keys k with
  | none =>
    rw [bound] at got
    dsimp only at got
    rw [got]
    rfl
  | some value =>
    rw [bound] at got
    obtain ⟨slot, _, found, pair⟩ := got
    rw [found, Option.map_some, Option.map_some, pair]

/-- The frames that are handled one after the other get the backends of the flows admitted in the
    end. -/
lemma firstCome_frames {keys final : List (BitVec 64)} {conntrack : MaglevHashmap}
    (frames : List Frame) (fc : FirstCome crc cap lookup keys conntrack)
    (settled : final = grantAll cap.val keys (keysOf frames)) :
    (maglevProcessFrames crc cap lookup frames conntrack).1 =
        frames.map (admittedBackend lookup final) ∧
      FirstCome crc cap lookup final (maglevProcessFrames crc cap lookup frames conntrack).2 := by
  induction frames generalizing keys conntrack with
  | nil =>
    rw [settled]
    exact ⟨rfl, fc⟩
  | cons m frames ih =>
    obtain ⟨map', run, fc'⟩ := fc.processFrame m
    rw [keysOf_cons] at settled
    have mac : admittedBackend lookup (grantAll cap.val keys (keysOf [m])) m =
        admittedBackend lookup final m := by
      rw [settled, fc.settled m (keysOf frames) zero_notMem_keysOf]
    rw [mac] at run
    rw [grantAll_append] at settled
    obtain ⟨answers, fc''⟩ := ih fc' settled
    rw [maglevProcessFrames, run]
    dsimp only
    rw [answers]
    exact ⟨rfl, fc''⟩

end

section
variable {C : Type*} [DecidableEq C] {crc : BitVec 64 → BitVec 64} {cap : Capacity}
  {lookup : LookUpTable} {hash : C → BitVec 64} {s : FrameRace C} {c c' : C} {pc : FramePc}

/-- Whether a call is decided after a move. -/
lemma decided_goto : (s.goto c pc).decided c = pc.decided (s.race.pc c) := by
  unfold FrameRace.decided FrameRace.goto
  dsimp only
  rw [Function.update_self]

/-- What a step of a call can do: move the call, which may decide it on a key that is stored, or be
    an access of its insert. -/
lemma FrameInv.step_cases (inv : FrameInv crc cap lookup hash s) (c : C) :
    (∃ pc : FramePc, frameStep crc cap lookup hash c s = s.goto c pc ∧
      (pc.decided (s.race.pc c) = s.decided c ∨
        pc.decided (s.race.pc c) ∧ Stored cap.val s.race.map.keys (hash c))) ∨
    s.pc c = .insert ∧ (s.race.pc c).ret = none ∧
      frameStep crc cap lookup hash c s =
        { s with race := maglevStep crc hash (fun c => lookup.backend (hash c)) cap c s.race } := by
  have knows := inv.calls c
  unfold frameStep FrameRace.decided
  simp only [cap.land]
  cases pc : s.pc c with
  | load i =>
    rw [pc] at knows
    obtain ⟨_, _, first⟩ := knows
    rw [first]
    left
    dsimp only
    split
    · exact ⟨_, rfl, Or.inl rfl⟩
    · exact ⟨_, rfl, Or.inl rfl⟩
  | reload i =>
    rw [pc] at knows
    obtain ⟨_, _, first⟩ := knows
    rw [first]
    left
    dsimp only
    split
    · next here => exact ⟨_, rfl, Or.inr ⟨rfl, _, Nat.mod_lt _ cap.pos, here⟩⟩
    · refine ⟨_, rfl, Or.inl ?_⟩
      unfold getNext
      split <;> rfl
  | value slot => exact Or.inl ⟨_, rfl, Or.inl rfl⟩
  | insert =>
    cases e : s.race.pc c with
    | returned r =>
      refine Or.inl ⟨_, rfl, Or.inl ?_⟩
      unfold FramePc.decided MaglevPc.abs
      dsimp only
      split <;> rfl
    | load _ | swap _ | reload _ | assign _ =>
      exact Or.inr ⟨rfl, rfl, rfl⟩
  | returned backend =>
    have stays : s.goto c (.returned backend) = s := by
      unfold FrameRace.goto
      rw [← pc, Function.update_eq_self]
    exact Or.inl ⟨_, stays.symm, Or.inl rfl⟩

/-- An access of a call in `maglev_hashmap_insert` is a step of the race. -/
lemma FrameInv.insert_abs (inv : FrameInv crc cap lookup hash s) (pc : s.pc c = .insert) :
    hash c ≠ 0 ∧
      (maglevStep crc hash (fun c => lookup.backend (hash c)) cap c s.race).abs =
        raceStep cap.val (maglevHash crc cap) 0 0 (fun c => raceKey (hash c))
          (fun c => lookup.backend (raceKey (hash c))) c s.race.abs := by
  have ne : hash c ≠ 0 := by
    have knows := inv.calls c
    rwa [pc] at knows
  have key : raceKey (hash c) = hash c := if_neg ne
  refine ⟨ne, ?_⟩
  rw [maglevStep_congr hash (fun c => raceKey (hash c)) _
    (fun c => lookup.backend (raceKey (hash c))) key.symm (congrArg lookup.backend key.symm) s.race,
    MaglevRace.abs_step]

/-- The invariant makes the calls decide one by one. -/
lemma frame_decides (crc : BitVec 64 → BitVec 64) (cap : Capacity) (lookup : LookUpTable)
    (hash : C → BitVec 64) :
    Decides (frameStep crc cap lookup hash) FrameRace.decided (FrameInv crc cap lookup hash) := by
  have other {s : FrameRace C} {c d : C} (inv : FrameInv crc cap lookup hash s) (ne : d ≠ c) :
      (frameStep crc cap lookup hash c s).decided d = s.decided d := by
    rcases inv.step_cases c with ⟨pc, step, _⟩ | ⟨pc, running, step⟩
    · rw [step]
      unfold FrameRace.decided FrameRace.goto
      dsimp only
      rw [Function.update_of_ne ne]
    · rw [step]
      unfold FrameRace.decided
      rw [(inv.insert pc running).2.2 d ne]
  constructor
  · exact fun c inv => (inv.step c).inv
  · intro s c d inv done
    by_cases ne : d = c
    · subst ne
      rcases inv.step_cases d with ⟨pc, step, same | found⟩ | ⟨pc, _, step⟩
      · rw [step, decided_goto, same]
        exact done
      · rw [step, decided_goto]
        exact found.1
      · unfold FrameRace.decided FramePc.decided at done ⊢
        rw [pc] at done
        rw [step, pc]
        have abs := congrArg (fun r => (r.pc d).decided) (inv.insert_abs pc).2
        exact abs.trans (raceStep_decided done)
    · rw [other inv ne]
      exact done
  · intro s c d inv ne done
    rwa [other inv ne] at done

/-- A step stores the key of its call if it decides the call and there is a free slot, and nothing
    else. -/
lemma FrameInv.stored_step (inv : FrameInv crc cap lookup hash s) (c : C) {k : BitVec 64}
    (ne : k ≠ 0) :
    Stored cap.val (frameStep crc cap lookup hash c s).race.map.keys k ↔
      Stored cap.val s.race.map.keys k ∨ k = hash c ∧ ¬ Full cap.val 0 s.race.map.keys ∧
        s.decided c = false ∧ (frameStep crc cap lookup hash c s).decided c = true := by
  rcases inv.step_cases c with ⟨pc, step, effect⟩ | ⟨pc, _, step⟩
  · rw [step, decided_goto]
    refine (or_iff_left_of_imp ?_).symm
    rintro ⟨rfl, _, before, after⟩
    rcases effect with same | found
    · rw [before, after] at same
      cases same
    · exact found.2
  · obtain ⟨key, abs⟩ := inv.insert_abs pc
    have stored := inv.race.stored_step c ne
    rw [← abs, show raceKey (hash c) = hash c from if_neg key] at stored
    rw [step]
    unfold FrameRace.decided FramePc.decided
    rw [pc]
    exact stored

/-- The step that decides a call admits its flow, and the other steps admit none. -/
lemma FrameInv.effect {keys : List (BitVec 64)} (c : C) (inv : FrameInv crc cap lookup hash s)
    (fc : FirstCome crc cap lookup keys s.race.map) :
    FirstCome crc cap lookup
      (if !s.decided c && (frameStep crc cap lookup hash c s).decided c then
        grant cap.val keys (hash c) else keys)
      (frameStep crc cap lookup hash c s).race.map := by
  have stored (k : BitVec 64) (ne : k ≠ 0) := inv.stored_step c ne
  split
  · next deciding =>
    obtain ⟨before, after⟩ := Bool.and_eq_true_iff.mp deciding
    have before : s.decided c = false := (Bool.not_eq_true' _).mp before
    have key : hash c ≠ 0 := by
      intro zero
      unfold FrameRace.decided at before
      rw [(inv.keyless zero).1] at before
      cases before
    have mem (k : BitVec 64) (ne : k ≠ 0) :
        Stored cap.val (frameStep crc cap lookup hash c s).race.map.keys k ↔
          k ∈ grant cap.val keys (hash c) := by
      rw [stored k ne, fc.stored_iff ne, fc.full_iff, mem_grant, before, after, Nat.not_le]
      simp
    refine (inv.step c).inv.firstCome (fc.sound.grant _) (fun zero => ?_) mem
    rcases mem_grant.mp zero with zero | ⟨zero, _⟩
    · exact fc.nonzero zero
    · exact key zero.symm
  · next idle =>
    refine (inv.step c).inv.firstCome fc.sound fc.nonzero fun k ne => ?_
    rw [stored k ne, fc.stored_iff ne]
    refine or_iff_left_of_imp ?_
    rintro ⟨_, _, before, after⟩
    rw [before, after] at idle
    exact absurd rfl idle

end

/-- However calls for frames with a flow key interleave, they answer as if they had run one after
    the other. The calls that have taken effect have an order without repetitions, in which a call
    that had returned before another one began comes first; `maglev_process_frame` for their frames
    in this order gives each call that has returned its answer, and leaves a table in which every
    lookup has the same result. -/
theorem process_frame_linearizable {C : Type*} [DecidableEq C] (crc : BitVec 64 → BitVec 64)
    (cap : Capacity) (lookup : LookUpTable) (frames : C → Frame) (conntrack : MaglevHashmap)
    (schedule : List C) (zero : conntrack.AllZero cap) :
    let hash := fun c => flowhash (frames c)
    let start := frameStart cap hash conntrack
    let s := frameRun crc cap lookup hash schedule start
    let calls := frameOrder crc cap lookup hash schedule start
    let sequential := maglevProcessFrames crc cap lookup (calls.map frames) conntrack
    (calls.Nodup ∧ ∀ c ∈ calls, c ∈ schedule) ∧
    (∀ c backend, hash c ≠ 0 → s.pc c = .returned backend → (c, backend) ∈ calls.zip sequential.1) ∧
    (∀ earlier rest c d backend, schedule = earlier ++ rest → hash c ≠ 0 →
      (frameRun crc cap lookup hash earlier start).pc c = .returned backend →
      d ∉ earlier → d ∈ calls → [c, d].Sublist calls) ∧
    ∀ key, key ≠ 0 → (maglevHashmapGet crc cap s.race.map key).map s.race.map.pairs =
      (maglevHashmapGet crc cap sequential.2 key).map sequential.2.pairs := by
  intro hash start s calls sequential
  have inv : FrameInv crc cap lookup hash start := frameStart_inv crc lookup hash zero
  have decides := frame_decides crc cap lookup hash
  have inv' : FrameInv crc cap lookup hash s := run_keeps decides.keeps schedule inv
  have fresh {c : C} (key : hash c ≠ 0) : start.decided c = false := by
    have first : start.pc c = .load 0 :=
      (if_pos (L2fwd.pos_iff_ne_zero.mpr key)).trans (if_pos cap.pos)
    unfold FrameRace.decided
    rw [first]
    rfl
  have keyed {c : C} (mem : c ∈ calls) : hash c ≠ 0 := by
    intro keyless
    have before := ((decides.mem_order inv).mp mem).1
    unfold FrameRace.decided at before
    rw [(inv.keyless keyless).1] at before
    cases before
  have keys : keysOf (calls.map frames) = calls.map hash := by
    unfold keysOf
    rw [List.map_map]
    refine List.filter_eq_self.mpr fun k mem => ?_
    obtain ⟨c, called, rfl⟩ := List.mem_map.mp mem
    exact decide_eq_true (keyed called)
  -- the calls leave the table that they leave in this order
  have fc : FirstCome crc cap lookup (grantAll cap.val [] (calls.map hash)) s.race.map := by
    have run := decides.simulate (fun s keys => FirstCome crc cap lookup keys s.race.map)
      (fun keys c => grant cap.val keys (hash c)) (fun c inv fc => inv.effect c fc) inv
      (FirstCome.init crc lookup zero) schedule
    unfold grantAll
    rwa [List.foldl_map]
  obtain ⟨answers, fc'⟩ := firstCome_frames (calls.map frames) (FirstCome.init crc lookup zero)
    (congrArg (grantAll cap.val []) keys.symm)
  refine ⟨⟨decides.nodup_order inv, fun c mem => mem_of_mem_order mem⟩, ?_, ?_, ?_⟩
  · intro c backend key done
    have mem : c ∈ calls := (decides.mem_order inv).mpr ⟨fresh key, decided_returned done⟩
    have answer : admittedBackend lookup (grantAll cap.val [] (calls.map hash)) (frames c) =
        backend := by
      unfold admittedBackend
      rcases inv'.answer done key with ⟨rfl, stored⟩ | ⟨rfl, _, missing⟩
      · exact if_pos ((fc.stored_iff key).mp stored)
      · exact if_neg fun mem => missing ((fc.stored_iff key).mpr mem)
    rw [answers, List.map_map, ← List.map_prod_left_eq_zip]
    exact List.mem_map.mpr ⟨c, mem, Prod.ext rfl answer⟩
  · rintro earlier rest c d backend rfl key done new mem
    exact decides.order_before inv (fresh key) (decided_returned done) new mem
  · intro key ne
    rw [firstCome_get fc ne, firstCome_get fc' ne]

/-- Two flows. -/
def twoFlows : Fin 2 → Frame :=
  ![udpFrame 1, udpFrame 2]

/-- Two lcores find the only slot free, and the one that came second gets it. -/
theorem process_frame_linearizable_oneSlot :
    ∃ calls sequential,
      frameOrder (·) oneSlot (fun _ => 0xff) (fun c => flowhash (twoFlows c))
        [0, 1, 0, 1, 1, 1, 0, 0, 0] (frameStart oneSlot (fun c => flowhash (twoFlows c))
          { pairs := fun _ => { key := 0, value := 0 } }) = calls ∧
      maglevProcessFrames (·) oneSlot (fun _ => 0xff) (calls.map twoFlows)
        { pairs := fun _ => { key := 0, value := 0 } } = sequential ∧
      (0, 0) ∈ calls.zip sequential.1 ∧ (1, 0xff) ∈ calls.zip sequential.1 := by
  obtain ⟨_, answers, _⟩ := process_frame_linearizable (·) oneSlot (fun _ => 0xff) twoFlows
    { pairs := fun _ => { key := 0, value := 0 } } [0, 1, 0, 1, 1, 1, 0, 0, 0] fun _ _ => rfl
  have keys : (fun c => flowhash (twoFlows c)) = ![15921369350214010551, 15918499624864947516] := by
    funext c
    fin_cases c <;> decide +kernel
  have run (c : Fin 2) : (frameRun (·) oneSlot (fun _ => 0xff) (fun c => flowhash (twoFlows c))
      [0, 1, 0, 1, 1, 1, 0, 0, 0] (frameStart oneSlot (fun c => flowhash (twoFlows c))
        { pairs := fun _ => { key := 0, value := 0 } })).pc c = .returned (![0, 0xff] c) := by
    rw [keys]
    fin_cases c <;> decide +kernel
  exact ⟨_, _, rfl, rfl, answers 0 0 (by decide +kernel) (run 0),
    answers 1 0xff (by decide +kernel) (run 1)⟩

end NetBlast.Concurrent
