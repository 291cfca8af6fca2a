import NetBlast.Dramblast.Install

/-!
# The layout of the dramblast table

What the lookup and the compare-and-swap rely on: `layout_invariant` reads the representation
invariant as a statement about slots and buckets, for every sequence of inserts.
`insert_one_fails_iff` says when an insert is refused, and that it otherwise changes one slot.
-/

namespace NetBlast.Dramblast
open Probing

/-- The slots in use. -/
def occupied (ht : DramblastHt) : Finset Nat :=
  (Finset.range ht.len).filter (ht.keys · ≠ 0)

/-- The layout of a table whose keys have the home slots `hash`. -/
structure Layout (hash : BitVec 64 → Nat) (ht : DramblastHt) : Prop where
  distinct : ∀ s < ht.len, ∀ t < ht.len, ht.keys s ≠ 0 → ht.keys s = ht.keys t → s = t
  chain : ∀ s < ht.len, ht.keys s ≠ 0 → ∀ d < (s + ht.len - hash (ht.keys s)) % ht.len,
    ht.keys ((hash (ht.keys s) + d) % ht.len) ≠ 0
  packed : ∀ s < ht.len, ∀ t < ht.len, t / 4 = s / 4 → s ≤ t → ht.keys t ≠ 0 → ht.keys s ≠ 0
  clean : ∀ s < ht.len, ht.keys s = 0 → ht.vals s = 0

/-- The hashes of a table are all the functions into the first slots of its buckets. -/
theorem exists_crc_iff (ht : DramblastHt) (hash : BitVec 64 → Nat) :
    (∃ crc, dramblastHash crc ht = hash) ↔ ∀ k, hash k < ht.len ∧ 4 ∣ hash k := by
  constructor
  · rintro ⟨crc, rfl⟩ k
    exact ⟨dramblastHash_lt, four_dvd_dramblastHash crc ht k⟩
  · intro aligned
    refine ⟨fun k => BitVec.ofNat 64 (hash k), ?_⟩
    funext k
    obtain ⟨lt, dvd⟩ := aligned k
    unfold dramblastHash
    rw [ht.land_bucket, BitVec.toNat_ofNat, Nat.mod_eq_of_lt (lt.trans ht.len_lt),
      Nat.mod_eq_of_lt lt, Nat.mod_eq_zero_of_dvd dvd, Nat.sub_zero]

variable {crc : BitVec 64 → BitVec 64}

/-- The representation invariant, slot by slot. -/
lemma Wf.layout {ht : DramblastHt} (wf : Wf crc ht) : Layout (dramblastHash crc ht) ht where
  distinct s hs t ht' occ e := wf.chained.unique hs ht' occ e
  chain s hs occ d hd := by
    have pos := ht.four_le
    have home : dramblastHash crc ht (ht.keys s) < ht.len := dramblastHash_lt
    have here := slotAt_dist home hs
    exact wf.chained.chain (Nat.mod_lt _ (by omega)) occ (by rw [here]) hd
  packed s _ t ht' same le occ :=
    wf.chained.block ht.four_dvd (four_dvd_dramblastHash crc ht) le ht' same.symm occ
  clean := wf.clean

/-- An insert keeps the invariant and the length of the table. -/
lemma Wf.insertOne {ht : DramblastHt} (wf : Wf crc ht) (k v : BitVec 64) :
    Wf crc (dramblastInsertOne crc ht k v).2 ∧ (dramblastInsertOne crc ht k v).2.len = ht.len := by
  rcases wf.insertOne_cases k v with ⟨_, e⟩ | ⟨_, s, _, e, _, wf'⟩ <;> rw [e]
  · exact ⟨wf, rfl⟩
  · exact ⟨wf', rfl⟩

/-- A sequence of inserts keeps the invariant and the length of the table. -/
lemma Wf.insertAll {ht : DramblastHt} (wf : Wf crc ht) (kvs : List DramblastKv) :
    Wf crc (insertAll crc ht kvs) ∧ (Dramblast.insertAll crc ht kvs).len = ht.len := by
  induction kvs generalizing ht with
  | nil => exact ⟨wf, rfl⟩
  | cons kv kvs ih =>
    obtain ⟨wf', len⟩ := wf.insertOne kv.k kv.v
    obtain ⟨wf'', len'⟩ := ih wf'
    exact ⟨wf'', len'.trans len⟩

/-- The layout of every table that inserts build from an all-zero one. -/
theorem layout_invariant (crc : BitVec 64 → BitVec 64) (ht₀ : DramblastHt)
    (kvs : List DramblastKv) (zero : ht₀.AllZero) :
    Layout (dramblastHash crc ht₀) (insertAll crc ht₀ kvs) := by
  obtain ⟨wf, len⟩ := (Wf.init zero : Wf crc ht₀).insertAll kvs
  rw [← dramblastHash_congr len]
  exact wf.layout

/-- A run of inserts that wraps round the end of the table, updates a key and is refused twice. -/
theorem layout_invariant_wrapped :
    Layout (dramblastHash (·) twoBuckets)
      (insertAll (·) twoBuckets [⟨4, 1⟩, ⟨12, 1⟩, ⟨20, 1⟩, ⟨28, 1⟩, ⟨36, 1⟩, ⟨0, 1⟩, ⟨12, 2⟩, ⟨44, 1⟩,
        ⟨52, 1⟩, ⟨8, 1⟩, ⟨16, 1⟩]) :=
  layout_invariant (·) twoBuckets _ fun _ _ => rfl

/-- The loop of `dramblast_insert_one` with at most `fuel` visits of a slot; `none` if they do not
    suffice. -/
def tryInsertWithin (ht : DramblastHt) (k v : BitVec 64) :
    Nat → Nat → Nat → Option (Int × DramblastHt)
  | 0, _, _ => none
  | fuel + 1, idx, count =>
    let kv := ht.table idx
    let count := count + 1
    if kv.k = 0 ∧ kv = { k := 0, v := 0 } then
      some (0, ht.write idx { k, v })
    else if kv.k = k then
      some (0, ht.write idx { kv with v })
    else
      let idx := (idx + 1) &&& (ht.len - 1)
      if count ≥ ht.len then some (-1, ht)
      else tryInsertWithin ht k v fuel idx count

/-- The loop visits at most `len - count` more slots. -/
lemma tryInsertWithin_eq {ht : DramblastHt} {k v fuel idx count} (lt : count < ht.len)
    (le : ht.len - count ≤ fuel) :
    tryInsertWithin ht k v fuel idx count = some (dramblastTryInsert ht k v idx count) := by
  induction fuel generalizing idx count with
  | zero => omega
  | succ fuel ih =>
    rw [tryInsertWithin, dramblastTryInsert]
    dsimp only
    split_ifs with free same bound
    · rfl
    · rfl
    · rfl
    · exact ih (by omega) (by omega)

/-- Writing a key into a free slot, or over itself, adds its slot to those in use. -/
lemma occupied_write {ht : DramblastHt} {s k v} (hs : s < ht.len) (ne : k ≠ 0) :
    occupied (ht.write s { k, v }) = insert s (occupied ht) := by
  ext t
  unfold occupied
  rw [Finset.mem_insert, Finset.mem_filter, Finset.mem_filter, DramblastHt.write_len,
    DramblastHt.keys_write, Function.update_apply]
  split
  · next e =>
    rw [e]
    exact iff_of_true ⟨Finset.mem_range.mpr hs, ne⟩ (Or.inl rfl)
  · next other => rw [or_iff_right other]

/-- What an insert that succeeds does to the table. -/
def Installs (ht : DramblastHt) (k v : BitVec 64) (ht' : DramblastHt) : Prop :=
  (∃ s < ht.len, ht'.table s = { k, v } ∧ (ht.keys s = k ∨ ht.keys s = 0) ∧
    ∀ t, t ≠ s → ht'.table t = ht.table t) ∧
  (¬ ht.Stores k → (occupied ht').card = (occupied ht).card + 1) ∧
  (ht.Stores k → (occupied ht').card = (occupied ht).card)

/-- An insert of a well-formed table that takes the key writes one slot. -/
lemma Wf.installs {ht : DramblastHt} (wf : Wf crc ht) {k v} (take : ht.Takes k) :
    ∃ ht', dramblastInsertOne crc ht k v = (0, ht') ∧ Installs ht k v ht' := by
  rcases wf.insertOne_cases k v with ⟨refused, _⟩ | ⟨_, s, hs, e, here, _⟩
  · exact absurd take refused
  refine ⟨_, e, ⟨s, hs, Function.update_self .., here.imp_right And.left,
    fun t ne => Function.update_of_ne ne ..⟩, ?_, ?_⟩ <;>
    rw [occupied_write hs take.1]
  · intro missing
    apply Finset.card_insert_of_notMem
    unfold occupied
    rw [Finset.mem_filter]
    rintro ⟨_, occ⟩
    rcases here with same | ⟨free, _⟩
    · exact missing ⟨s, hs, same⟩
    · exact occ free
  · intro stored
    rw [Finset.insert_eq_of_mem]
    unfold occupied
    rcases here with same | ⟨_, missing⟩
    · exact Finset.mem_filter.mpr ⟨Finset.mem_range.mpr hs, by rw [same]; exact take.1⟩
    · exact absurd stored missing

/-- In every reachable table an insert visits at most `len` slots, is refused exactly for the key 0
    and for a new key with no slot free, and then changes nothing. -/
theorem insert_one_fails_iff (crc : BitVec 64 → BitVec 64) (id : Nat) (ht₀ ht : DramblastHt)
    (past : List DramblastEvent) (k v : BitVec 64) (zero : ht₀.AllZero) (idle : Idle id ht₀)
    (run : DramblastRun crc id ht₀ past ht) :
    (k ≠ 0 → tryInsertWithin ht k v ht.len (dramblastHash crc ht k) 0 =
      some (dramblastInsertOne crc ht k v)) ∧
    ((dramblastInsertOne crc ht k v).1 = -1 ↔ k = 0 ∨ ¬ ht.Stores k ∧ Full ht.len 0 ht.keys) ∧
    ((dramblastInsertOne crc ht k v).1 = -1 → (dramblastInsertOne crc ht k v).2 = ht) ∧
    ((dramblastInsertOne crc ht k v).1 ≠ -1 →
      (dramblastInsertOne crc ht k v).1 = 0 ∧ Installs ht k v (dramblastInsertOne crc ht k v).2) := by
  obtain ⟨wf, _, _⟩ := run.inv zero idle
  refine ⟨fun ne => ?_, ?_⟩
  · have pos := ht.four_le
    rw [tryInsertWithin_eq (by omega) (by omega), dramblastInsertOne, if_neg ne]
  have takes : ¬ ht.Takes k ↔ k = 0 ∨ ¬ ht.Stores k ∧ Full ht.len 0 ht.keys := by
    unfold DramblastHt.Takes Accepts
    rw [not_and_or, not_ne_iff, not_or, not_not]
    rfl
  rw [← takes]
  by_cases take : ht.Takes k
  · obtain ⟨ht', e, installs⟩ := wf.installs take (v := v)
    have ok : (0 : Int) ≠ -1 := by decide
    rw [e]
    exact ⟨iff_of_false ok (not_not_intro take), fun refused => absurd refused ok,
      fun _ => ⟨rfl, installs⟩⟩
  · rcases wf.insertOne_cases k v with ⟨_, e⟩ | ⟨take', _⟩
    · rw [e]
      exact ⟨iff_of_true rfl take, fun _ => rfl, fun ok => absurd rfl ok⟩
    · exact absurd take' take

/-- A new key takes the last free slot of a table of two buckets. -/
theorem insert_one_fails_iff_oneFree :
    (occupied oneFree).card = 7 ∧ dramblastHash (·) oneFree 16 = 0 ∧
    tryInsertWithin oneFree 16 9 oneFree.len (dramblastHash (·) oneFree 16) 0 =
      some (dramblastInsertOne (·) oneFree 16 9) ∧
    Installs oneFree 16 9 (dramblastInsertOne (·) oneFree 16 9).2 := by
  have run₀ : DramblastRun (·) 0 twoBuckets [] twoBuckets := .start
  obtain ⟨past, run⟩ := run₀.insertAll
    [⟨4, 1⟩, ⟨12, 1⟩, ⟨20, 1⟩, ⟨28, 1⟩, ⟨36, 1⟩, ⟨44, 1⟩, ⟨52, 1⟩]
  obtain ⟨ends, _, _, ok⟩ :=
    insert_one_fails_iff (·) 0 twoBuckets oneFree past 16 9 (fun _ _ => rfl) rfl run
  have taken : (dramblastInsertOne (·) oneFree 16 9).1 ≠ -1 := by decide +kernel
  exact ⟨by decide +kernel, by decide +kernel, ends (by decide), (ok taken).2⟩

end NetBlast.Dramblast
