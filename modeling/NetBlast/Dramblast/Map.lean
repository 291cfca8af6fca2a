import NetBlast.Dramblast.Batch

/-!
# The dramblast table is a finite map

Runs of inserts and batched lookups over one table. `lastStored` reads the abstract map off the
history of a run, and `DramblastRun.inv` says that the table represents it. `lookup_refines_map` is
the refinement: at every fill level a lookup returns what the history stored last.
-/

namespace NetBlast.Dramblast
open Probing

/-- A call and what it returned. -/
inductive DramblastEvent where
  | insert (k v : BitVec 64) (ret : Int)
  | find (args : List DramblastArg) (out : List DramblastResult)

/-- The runs of one lcore over a table, with their history, newest call first. -/
inductive DramblastRun (crc : BitVec 64 → BitVec 64) (id : Nat) (ht₀ : DramblastHt) :
    List DramblastEvent → DramblastHt → Prop where
  | start :
    DramblastRun crc id ht₀ [] ht₀
  | insert {past ht r ht'} (k v : BitVec 64) :
    DramblastRun crc id ht₀ past ht →
    dramblastInsertOne crc ht k v = (r, ht') →
    DramblastRun crc id ht₀ (.insert k v r :: past) ht'
  | find {past ht n out ht'} (args : List DramblastArg) :
    DramblastRun crc id ht₀ past ht →
    dramblastFindBatchSync crc id ht args = some (n, out, ht') →
    DramblastRun crc id ht₀ (.find args out :: past) ht'

/-- The table after a sequence of calls of `dramblast_insert_one`. -/
def insertAll (crc : BitVec 64 → BitVec 64) (ht : DramblastHt) (kvs : List DramblastKv) :
    DramblastHt :=
  kvs.foldl (fun ht kv => (dramblastInsertOne crc ht kv.k kv.v).2) ht

/-- A sequence of inserts extends a run. -/
lemma DramblastRun.insertAll {crc : BitVec 64 → BitVec 64} {id : Nat} {ht₀ past ht}
    (run : DramblastRun crc id ht₀ past ht) (kvs : List DramblastKv) :
    ∃ past', DramblastRun crc id ht₀ past' (insertAll crc ht kvs) := by
  induction kvs generalizing past ht with
  | nil => exact ⟨past, run⟩
  | cons kv kvs ih => exact ih (.insert kv.k kv.v run rfl)

/-- The value of the most recent insert of `key` that returned 0. -/
def lastStored : List DramblastEvent → BitVec 64 → Option (BitVec 64)
  | [], _ => none
  | .insert k v ret :: past, key => if ret = 0 ∧ k = key then some v else lastStored past key
  | .find _ _ :: past, key => lastStored past key

namespace DramblastHt

/-- The table represents the map `m`. -/
def Maps (ht : DramblastHt) (m : BitVec 64 → Option (BitVec 64)) : Prop :=
  Represents ht.len 0 ht.keys ht.vals m

/-- The map of a table depends on its slots and its length only. -/
lemma Maps.congr {ht ht' : DramblastHt} {m} (rep : ht.Maps m) (et : ht'.table = ht.table)
    (el : ht'.len = ht.len) : ht'.Maps m := by
  have ek : ht'.keys = ht.keys := by
    funext s
    rw [keys, et, keys]
  have ev : ht'.vals = ht.vals := by
    funext s
    rw [vals, et, vals]
  unfold Maps
  rw [el, ek, ev]
  exact rep

/-- What an insert does to the map a well-formed table represents. -/
lemma Maps.insertOne {crc} {ht : DramblastHt} {m} (rep : ht.Maps m) (wf : Wf crc ht)
    (k v : BitVec 64) :
    (¬ ht.Takes k ∧ dramblastInsertOne crc ht k v = (-1, ht)) ∨
    (ht.Takes k ∧ ∃ ht', dramblastInsertOne crc ht k v = (0, ht') ∧ Wf crc ht' ∧
      ht'.Maps (Function.update m k (some v)) ∧ ht'.len = ht.len ∧ ht'.queues = ht.queues ∧
      (∀ s, ht.keys s ≠ 0 → ht'.keys s = ht.keys s)) := by
  rcases wf.insertOne_cases k v with refused | ⟨take, s, hs, run, here, wf'⟩
  · exact Or.inl refused
  · right
    refine ⟨take, _, run, wf', ?_, rfl, rfl, ?_⟩
    · unfold Maps
      rw [keys_write, vals_write, write_len]
      exact Represents.write rep wf.chained hs take.1 here
    · intro t occ
      rw [keys_write, Function.update_apply]
      split
      · next e =>
        subst e
        rcases here with same | ⟨free, _⟩
        · exact same.symm
        · exact absurd free occ
      · rfl

end DramblastHt

variable {crc : BitVec 64 → BitVec 64} {id : Nat}

/-- In every run the table is well-formed and represents the map of its history. -/
lemma DramblastRun.inv {ht₀ past ht} (zero : ht₀.AllZero) (idle : Idle id ht₀)
    (run : DramblastRun crc id ht₀ past ht) :
    Wf crc ht ∧ ht.Maps (lastStored past) ∧ Idle id ht := by
  induction run with
  | start =>
    refine ⟨Wf.init zero, ?_, idle⟩
    exact Represents.init fun s hs => by rw [DramblastHt.keys, zero s hs]
  | @insert past ht r ht' k v _ call ih =>
    obtain ⟨wf, rep, idle⟩ := ih
    rcases rep.insertOne wf k v with ⟨_, e⟩ | ⟨_, ht'', e, wf', rep', _, queues, _⟩ <;>
      rw [call] at e <;> cases e
    · refine ⟨wf, ?_, idle⟩
      have same : lastStored (.insert k v (-1) :: past) = lastStored past := by
        funext key
        simp [lastStored]
      rwa [same]
    · have updated : lastStored (.insert k v 0 :: past) =
          Function.update (lastStored past) k (some v) := by
        funext key
        simp only [lastStored, true_and, Function.update_apply, eq_comm]
      rw [updated]
      refine ⟨wf', rep', ?_⟩
      unfold Idle
      rw [queues]
      exact idle
  | @find past ht n out ht' args _ call ih =>
    obtain ⟨wf, rep, idle⟩ := ih
    obtain ⟨_, _, e, _, table, len, idle', _⟩ := findBatchSync_spec crc args idle
    rw [call] at e
    cases e
    exact ⟨wf.congr table len, rep.congr table len, idle'⟩

/-- A batch looked up after the history `past` returns, for every argument with a non-zero key, the
    value stored last under the key, and never `found` if there is none. -/
def AnswersMap (crc : BitVec 64 → BitVec 64) (id : Nat) (past : List DramblastEvent)
    (ht : DramblastHt) (args : List DramblastArg) : Prop :=
  ∃ out ht', dramblastFindBatchSync crc id ht args = some (args.length, out, ht') ∧
    ∃ answer : DramblastArg → DramblastResult, out.Perm (args.map answer) ∧
      ∀ arg ∈ args, (answer arg).id = arg.id ∧ (arg.k ≠ 0 →
        match lastStored past arg.k with
        | some v => (answer arg).status = .found ∧ (answer arg).v = v
        | none => (answer arg).status ≠ .found)

/-- Lookup refines a finite map, in every run from the all-zero table. -/
theorem lookup_refines_map (crc : BitVec 64 → BitVec 64) (id : Nat) (ht₀ ht : DramblastHt)
    (past : List DramblastEvent) (args : List DramblastArg) (zero : ht₀.AllZero)
    (idle : Idle id ht₀) (run : DramblastRun crc id ht₀ past ht) :
    AnswersMap crc id past ht args := by
  obtain ⟨wf, rep, idle⟩ := run.inv zero idle
  obtain ⟨out, ht', call, perm, _⟩ := findBatchSync_spec crc args idle
  refine ⟨out, ht', call, lookupOne crc ht, perm, fun arg _ => ⟨lookupOne_id, fun ne => ?_⟩⟩
  cases e : lastStored past arg.k with
  | some v =>
    obtain ⟨s, hs, here, value⟩ := (rep arg.k ne v).mp e
    dsimp only
    rw [wf.lookupOne_found ne hs here]
    exact ⟨rfl, value⟩
  | none =>
    have fresh : ¬ ht.Stores arg.k := by
      unfold DramblastHt.Stores
      rw [rep.stored_iff ne, e]
      simp
    dsimp only
    by_cases opened : OpenBeforeLast crc ht arg.k
    · rw [lookupOne_absent fresh opened]
      exact nofun
    · rw [lookupOne_tableFull fresh opened]
      exact nofun

/-- An empty table of one bucket. -/
def oneBucket : DramblastHt :=
  dramblastInit 4 ⟨2, by decide, by decide, rfl⟩
    fun _ _ => { k := 0, idx := 0, visitCount := 0, id := 0 }

/-- The refinement on a run that stores a key twice and then looks it up together with a new key. -/
theorem lookup_refines_map_reinsert :
    ∃ past ht, lastStored past 5 = some 9 ∧ lastStored past 6 = none ∧
      AnswersMap mmCrc32U64 0 past ht [{ k := 5, id := 0 }, { k := 6, id := 1 }] := by
  refine ⟨_, _, ?_, ?_, lookup_refines_map mmCrc32U64 0 oneBucket _ _ _ (fun _ _ => rfl) rfl
    (.insert 5 9 (.insert 5 0 .start rfl) rfl)⟩
  · decide +kernel
  · decide +kernel

end NetBlast.Dramblast
