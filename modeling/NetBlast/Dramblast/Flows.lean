import NetBlast.Dramblast.Frames

/-!
# What a flow sees

Two properties of the flows that `dramblast_process_frames` maps to backends. Lookup and insert
agree on when the table is full for exactly those keys that have no free slot left in the last
bucket of their probe sequence alone (`table_full_agrees_iff`): the lookup tests its probe bound
before it tests the last bucket for a free slot. Disagreement or not, the answers for one key never
change (`affinity`): `FramesRun.inv` carries through every batch why each answer given so far still
holds.
-/

namespace NetBlast.Dramblast
open Probing

variable {crc : BitVec 64 → BitVec 64} {id : Nat} {backends : LookUpTable}

/-- Lookup and insert agree on the table being full for `k`: a batch answers `tableFull` for `k`
    only if an insert of `k` fails, and `absent` whenever a slot is free; and a batch leaves `k`
    unmapped only if it leaves no slot free. The results for `k` are those whose id no other key of
    the batch has. -/
structure TableFullAgrees (crc : BitVec 64 → BitVec 64) (ht : DramblastHt) (k : BitVec 64) : Prop where
  full : ∀ {id args n out ht' x r}, Idle id ht →
    dramblastFindBatchSync crc id ht args = some (n, out, ht') →
    (∀ arg ∈ args, arg.id = x → arg.k = k) → r ∈ out → r.id = x → r.status = .tableFull →
    Full ht.len 0 ht.keys ∧ ∀ v, dramblastInsertOne crc ht k v = (-1, ht)
  absent : ∀ {id args n out ht' x r}, Idle id ht →
    dramblastFindBatchSync crc id ht args = some (n, out, ht') →
    (∀ arg ∈ args, arg.id = x → arg.k = k) → r ∈ out → r.id = x → ¬ Full ht.len 0 ht.keys →
    r.status = .absent
  unmapped : ∀ {id backends args ret st}, Idle id ht → WellNumbered args → NonZero args →
    (∃ arg ∈ args, arg.k = k) → dramblastProcessFrames crc id backends ht args ret = some st →
    ¬ st.ht.Stores k → Full st.ht.len 0 st.ht.keys

/-- A result whose id only the key `k` has is the lookup of `k`. -/
lemma result_of_id {ht : DramblastHt} {args n out ht' x k r} (idle : Idle id ht)
    (call : dramblastFindBatchSync crc id ht args = some (n, out, ht'))
    (only : ∀ arg ∈ args, arg.id = x → arg.k = k) (mem : r ∈ out) (hx : r.id = x) :
    ∃ arg, arg.k = k ∧ r = lookupOne crc ht arg := by
  obtain ⟨_, _, call', perm, _⟩ := findBatchSync_spec crc args idle
  rw [call] at call'
  cases call'
  obtain ⟨arg, mem', rfl⟩ := List.mem_map.mp (perm.mem_iff.mp mem)
  exact ⟨arg, only arg mem' (lookupOne_id.symm.trans hx), rfl⟩

/-- In every reachable table, lookup and insert agree for a key that is not stored exactly if a free
    slot, when there is one, can be had outside the last bucket of the probe sequence of the key. -/
theorem table_full_agrees_iff (crc : BitVec 64 → BitVec 64) (id : Nat) (ht₀ ht : DramblastHt)
    (past : List DramblastEvent) (k : BitVec 64) (zero : ht₀.AllZero) (idle : Idle id ht₀)
    (run : DramblastRun crc id ht₀ past ht) (ne : k ≠ 0) (missing : ¬ ht.Stores k) :
    TableFullAgrees crc ht k ↔ (¬ Full ht.len 0 ht.keys → OpenBeforeLast crc ht k) := by
  obtain ⟨wf, rep, idle⟩ := run.inv zero idle
  have status : ∀ arg, arg.k = k →
      (OpenBeforeLast crc ht k → (lookupOne crc ht arg).status = .absent) ∧
      (¬ OpenBeforeLast crc ht k → (lookupOne crc ht arg).status = .tableFull) := by
    rintro arg rfl
    constructor
    · intro opened
      rw [lookupOne_absent missing opened]
    · intro closed
      rw [lookupOne_tableFull missing closed]
  constructor
  · intro agrees free
    by_contra closed
    obtain ⟨out, ht', call, perm, _⟩ := findBatchSync_spec crc [{ k, id := 0 }] idle
    have mem : lookupOne crc ht { k, id := 0 } ∈ out := perm.mem_iff.mpr (by simp)
    have absent := agrees.absent idle call (x := 0) (by simp) mem lookupOne_id free
    rw [(status _ rfl).2 closed] at absent
    cases absent
  · intro cond
    have full_of_closed : ¬ OpenBeforeLast crc ht k → Full ht.len 0 ht.keys := by
      intro closed
      by_contra free
      exact closed (cond free)
    refine ⟨?_, ?_, ?_⟩
    · intro id' args n out ht' x r idle' call only mem hx isFull
      obtain ⟨arg, ek, rfl⟩ := result_of_id idle' call only mem hx
      have full : Full ht.len 0 ht.keys := by
        apply full_of_closed
        intro opened
        rw [(status arg ek).1 opened] at isFull
        cases isFull
      refine ⟨full, fun v => ?_⟩
      rcases wf.insertOne_cases k v with ⟨_, e⟩ | ⟨take, _⟩
      · exact e
      · rcases take.2 with st | free
        · exact absurd st missing
        · exact absurd full free
    · intro id' args n out ht' x r idle' call only mem hx free
      obtain ⟨arg, ek, rfl⟩ := result_of_id idle' call only mem hx
      exact (status arg ek).1 (cond free)
    · intro id' backends args ret st idle' wn nz has call unmapped
      obtain ⟨st', m, call', fin⟩ := processFrames_spec backends ret wf rep idle' wn nz
      rw [call] at call'
      cases call'
      obtain ⟨arg, mem, ek⟩ := has
      obtain ⟨i, hi, ea⟩ := List.mem_iff_getElem.mp mem
      have answer := fin.answered i hi
      rw [ea, ek] at answer
      rcases answer with bound | ⟨⟨_, closed | full⟩, _⟩
      · exact absurd ((stores_iff fin.rep ne).mpr ⟨_, bound⟩) unmapped
      · intro t ht
        rw [fin.len] at ht
        have occ := full_of_closed closed t ht
        rwa [fin.grows t occ]
      · exact full

/-- An empty table of two buckets. -/
def twoBuckets : DramblastHt :=
  dramblastInit 8 ⟨3, by decide, by decide, rfl⟩
    fun _ _ => { k := 0, idx := 0, visitCount := 0, id := 0 }

/-- Two buckets into which the keys from 1 to `n` were inserted, with one hash for all keys. -/
def firstKeys (n : Nat) : DramblastHt :=
  insertAll (fun _ => 0) twoBuckets
    ((List.range n).map fun i => { k := BitVec.ofNat 64 (i + 1), v := 7 })

/-- While a slot of the first bucket is free, lookup and insert agree for a key that is missing. Once
    only the last bucket has free slots, they do not. -/
theorem table_full_agrees_iff_twoBuckets :
    TableFullAgrees (fun _ => 0) (firstKeys 3) 9 ∧ ¬ TableFullAgrees (fun _ => 0) (firstKeys 5) 9 := by
  have missing (n : Nat) (none : ∀ s < (firstKeys n).len, (firstKeys n).keys s ≠ 9) :
      ¬ (firstKeys n).Stores 9 :=
    fun ⟨s, lt, here⟩ => none s lt here
  obtain ⟨past, run⟩ : ∃ past, DramblastRun (fun _ => 0) 0 twoBuckets past (firstKeys 3) :=
    DramblastRun.start.insertAll _
  obtain ⟨past', run'⟩ : ∃ past, DramblastRun (fun _ => 0) 0 twoBuckets past (firstKeys 5) :=
    DramblastRun.start.insertAll _
  constructor
  · exact (table_full_agrees_iff _ 0 twoBuckets _ past 9 (fun _ _ => rfl) rfl run (by decide)
      (missing 3 (by decide +kernel))).mpr fun _ => ⟨3, by decide +kernel, by decide +kernel⟩
  · intro agrees
    obtain ⟨p, lt, free⟩ := (table_full_agrees_iff _ 0 twoBuckets _ past' 9 (fun _ _ => rfl) rfl run'
      (by decide) (missing 5 (by decide +kernel))).mp agrees fun full =>
        full 5 (by decide +kernel) (by decide +kernel)
    have occupied : ∀ p < (firstKeys 5).len - 4,
        (firstKeys 5).keys ((firstKeys 5).probe (fun _ => 0) 9 p) ≠ 0 := by decide +kernel
    exact occupied p lt free

/-- On an empty table of one bucket a lookup answers `tableFull`, where an insert succeeds. -/
theorem table_full_with_free_slots :
    (dramblastFindBatchSync mmCrc32U64 0 oneBucket [{ k := 1, id := 0 }]).map (·.2.1) =
        some [{ v := 0, id := 0, status := .tableFull }] ∧
      oneBucket.keys 0 = 0 ∧ (dramblastInsertOne mmCrc32U64 oneBucket 1 7).1 = 0 ∧
      ¬ TableFullAgrees mmCrc32U64 oneBucket 1 := by
  refine ⟨by decide +kernel, rfl, by decide +kernel, fun agrees => ?_⟩
  have idle : Idle 0 oneBucket := rfl
  have failed : (dramblastFindBatchSync mmCrc32U64 0 oneBucket [{ k := 1, id := 0 }]).map (·.2.1) =
      some [{ v := 0, id := 0, status := .tableFull }] := by decide +kernel
  rw [Option.map_eq_some_iff] at failed
  obtain ⟨⟨n, out, ht'⟩, call, rfl⟩ := failed
  have absent := agrees.absent (x := 0) idle call (by simp) (List.mem_singleton_self _) rfl
    fun full => full 0 (by decide) rfl
  cases absent

/-- The answers of one call, with their keys. -/
def answersOf (args : List DramblastArg) (ret : Nat → BitVec 64) : List (BitVec 64 × BitVec 64) :=
  args.mapIdx fun i arg => (arg.k, ret i)

/-- The runs of `dramblast_process_frames` on one lcore, with all the answers given so far. -/
inductive FramesRun (crc : BitVec 64 → BitVec 64) (id : Nat) (backends : LookUpTable)
    (ht₀ : DramblastHt) : List (BitVec 64 × BitVec 64) → DramblastHt → Prop where
  | start :
    FramesRun crc id backends ht₀ [] ht₀
  | batch {answers ht args ret st} :
    FramesRun crc id backends ht₀ answers ht →
    WellNumbered args → NonZero args →
    dramblastProcessFrames crc id backends ht args ret = some st →
    FramesRun crc id backends ht₀ (answersOf args st.ret ++ answers) st.ht

/-- Why an answer `a` for `k` still holds in `ht`: `k` is bound to it, or `a` is 0 and the lookup of
    `k` meets the probe bound. -/
def Holds (crc : BitVec 64 → BitVec 64) (m : BitVec 64 → Option (BitVec 64)) (ht : DramblastHt)
    (k a : BitVec 64) : Prop :=
  m k = some a ∨ ¬ ht.Stores k ∧ ¬ OpenBeforeLast crc ht k ∧ a = 0

/-- An answer that holds before a batch holds after it. -/
lemma FramesDone.holds {ht₀ m₀ args m st k a}
    (fin : FramesDone crc id backends ht₀ m₀ args m st) (rep₀ : ht₀.Maps m₀) (ne : k ≠ 0)
    (holds : Holds crc m₀ ht₀ k a) : Holds crc m st.ht k a := by
  rcases holds with bound | ⟨missing, closed, zero⟩
  · exact Or.inl (fin.kept _ _ bound)
  · refine Or.inr ⟨?_, fun opened => closed (opened.anti fin.len fin.grows), zero⟩
    rw [stores_iff fin.rep ne]
    rintro ⟨v, e⟩
    exact closed (fin.fresh k v e (rep₀.eq_none ne missing)).2.1

/-- An answer given by a batch holds after it. -/
lemma FramesDone.holds_answer {ht₀ m₀ args m st i}
    (fin : FramesDone crc id backends ht₀ m₀ args m st) (hi : i < args.length) :
    Holds crc m st.ht args[i].k (st.ret i) := by
  rcases fin.answered i hi with bound | ⟨⟨missing, closed | full⟩, zero⟩
  · exact Or.inl bound
  · exact Or.inr ⟨missing, fun opened => closed (opened.anti fin.len fin.grows), zero⟩
  · exact Or.inr ⟨missing, not_openBeforeLast_of_full full, zero⟩

/-- In every run the bindings are backends, and every answer given so far still holds. -/
lemma FramesRun.inv {ht₀ answers ht} (zero : ht₀.AllZero) (idle : Idle id ht₀)
    (run : FramesRun crc id backends ht₀ answers ht) :
    ∃ m, Wf crc ht ∧ ht.Maps m ∧ Idle id ht ∧ (∀ k v, m k = some v → v = backends.backend k) ∧
      ∀ k a, (k, a) ∈ answers → k ≠ 0 ∧ Holds crc m ht k a := by
  induction run with
  | start =>
    refine ⟨fun _ => none, Wf.init zero, ?_, idle, nofun, nofun⟩
    exact Represents.init fun s hs => by rw [DramblastHt.keys, zero s hs]
  | @batch answers ht args ret st _ wn nz call ih =>
    obtain ⟨m₀, wf, rep, idle, backed, held⟩ := ih
    obtain ⟨_, m, call', fin⟩ := processFrames_spec backends ret wf rep idle wn nz
    rw [call] at call'
    cases call'
    refine ⟨m, fin.wf, fin.rep, fin.idle, ?_, ?_⟩
    · intro k v e
      cases old : m₀ k with
      | none => exact (fin.fresh k v e old).1
      | some v' =>
        rw [fin.kept k v' old] at e
        cases e
        exact backed k v old
    · intro k a mem
      rw [List.mem_append] at mem
      rcases mem with new | old
      · obtain ⟨i, hi, e⟩ := List.mem_mapIdx.mp new
        cases e
        exact ⟨nz _ (List.getElem_mem hi), fin.holds_answer hi⟩
      · obtain ⟨ne, holds⟩ := held k a old
        exact ⟨ne, fin.holds rep ne holds⟩

/-- Connection affinity: in every run all answers for a key are its backend, or all are 0. -/
theorem affinity (crc : BitVec 64 → BitVec 64) (id : Nat) (backends : LookUpTable)
    (ht₀ ht : DramblastHt) (answers : List (BitVec 64 × BitVec 64)) (k : BitVec 64)
    (zero : ht₀.AllZero) (idle : Idle id ht₀) (run : FramesRun crc id backends ht₀ answers ht) :
    (∀ a, (k, a) ∈ answers → a = backends.backend k) ∨ (∀ a, (k, a) ∈ answers → a = 0) := by
  obtain ⟨m, _, rep, _, backed, held⟩ := run.inv zero idle
  by_cases st : ht.Stores k
  · left
    intro a mem
    obtain ⟨_, bound | ⟨missing, _⟩⟩ := held k a mem
    · exact backed k a bound
    · exact absurd st missing
  · right
    intro a mem
    obtain ⟨ne, bound | ⟨_, _, e⟩⟩ := held k a mem
    · exact absurd ((stores_iff rep ne).mpr ⟨a, bound⟩) st
    · exact e

/-- Affinity of a flow that appears in a first batch with another one, and again in a second
    batch. -/
theorem affinity_twice :
    (∀ a, ((5 : BitVec 64), a) ∈ [(5, 255), (5, 255), (6, 255)] →
        a = LookUpTable.backend (fun _ => 255) 5) ∨
      (∀ a, ((5 : BitVec 64), a) ∈ [(5, 255), (5, 255), ((6 : BitVec 64), (255 : BitVec 64))] → a = 0) := by
  have ok₁ : (dramblastProcessFrames mmCrc32U64 0 (fun _ => 255) twoBuckets
      [{ k := 5, id := 0 }, { k := 6, id := 1 }] fun _ => 1).isSome := by decide +kernel
  have ok₂ : (dramblastProcessFrames mmCrc32U64 0 (fun _ => 255) (Option.get _ ok₁).ht
      [{ k := 5, id := 0 }] fun _ => 2).isSome := by decide +kernel +revert
  have answers : answersOf [{ k := 5, id := 0 }] (Option.get _ ok₂).ret ++
      (answersOf [{ k := 5, id := 0 }, { k := 6, id := 1 }] (Option.get _ ok₁).ret ++ []) =
      [(5, 255), (5, 255), (6, 255)] := by decide +kernel +revert
  have run₁ := FramesRun.batch .start (by unfold WellNumbered; decide) (by unfold NonZero; decide)
    (Option.some_get ok₁).symm
  have run₂ := FramesRun.batch run₁ (by unfold WellNumbered; decide) (by unfold NonZero; decide)
    (Option.some_get ok₂).symm
  rw [answers] at run₂
  exact affinity mmCrc32U64 0 (fun _ => 255) twoBuckets _ _ 5 (fun _ _ => rfl) rfl run₂

end NetBlast.Dramblast
