import NetBlast.Dramblast.Table
import NetBlast.Probing.Represents

/-!
# Inserting into the dramblast table

The table as a linear-probing table: `keys` and `vals` are its two columns and `dramblastHash` is
the home slot. `Wf` is the representation invariant. `Wf.tryInsert_eq` replaces the loop of
`dramblast_insert_one` by the slot where the search for its key ends, and `Wf.insertOne_cases` says
everything an insert of a well-formed table can do; the later files use only that lemma.
-/

namespace NetBlast.Dramblast
open Probing

namespace DramblastHt

/-- The key column. -/
def keys (ht : DramblastHt) (s : Nat) : BitVec 64 :=
  (ht.table s).k

/-- The value column. -/
def vals (ht : DramblastHt) (s : Nat) : BitVec 64 :=
  (ht.table s).v

/-- Key `k` is in the table. -/
def Stores (ht : DramblastHt) (k : BitVec 64) : Prop :=
  Stored ht.len ht.keys k

/-- The table takes `k`. -/
def Takes (ht : DramblastHt) (k : BitVec 64) : Prop :=
  Accepts ht.len 0 ht.keys k

/-- Every slot is all zero, as `allocate_dramblast_table` leaves them. -/
def AllZero (ht : DramblastHt) : Prop :=
  ∀ s < ht.len, ht.table s = { k := 0, v := 0 }

/-- The slot at probe `i` of `k`. -/
def probe (crc : BitVec 64 → BitVec 64) (ht : DramblastHt) (k : BitVec 64) (i : Nat) : Nat :=
  slotAt ht.len (dramblastHash crc ht k) i

/-- A slot is its key and its value. -/
lemma table_eq (ht : DramblastHt) (s : Nat) : ht.table s = { k := ht.keys s, v := ht.vals s } :=
  rfl

/-- A table has at least one bucket. -/
lemma four_le (ht : DramblastHt) : 4 ≤ ht.len := by
  obtain ⟨m, le, _, e⟩ := ht.len_pow
  rw [e]
  exact Nat.pow_le_pow_right (n := 2) (by omega) le

/-- A table consists of whole buckets. -/
lemma four_dvd (ht : DramblastHt) : 4 ∣ ht.len := by
  obtain ⟨m, le, _, e⟩ := ht.len_pow
  exact four_dvd_pow e le

/-- The length fits in 64 bits. -/
lemma len_lt (ht : DramblastHt) : ht.len < 2 ^ 64 := by
  obtain ⟨m, _, lt, e⟩ := ht.len_pow
  rw [e]
  exact Nat.pow_lt_pow_right (by omega) lt

/-- Masking an index is reducing it modulo the length. -/
lemma land_len (ht : DramblastHt) (x : Nat) : x &&& (ht.len - 1) = x % ht.len := by
  obtain ⟨m, _, _, e⟩ := ht.len_pow
  exact land_pred e

/-- The probe sequence stays inside the table. -/
lemma probe_lt {crc} {ht : DramblastHt} {k i} : ht.probe crc k i < ht.len :=
  slotAt_lt (by have := ht.four_le; omega)

/-- Rounding an index of the table down to its bucket. -/
lemma land_bucket (ht : DramblastHt) (x : Nat) :
    x &&& (ht.len - 1) &&& dramblastBucketIdxMask = x % ht.len - x % ht.len % 4 := by
  have pos := ht.four_le
  have lt := Nat.mod_lt x (show ht.len > 0 by omega)
  rw [ht.land_len, dramblastBucketIdxMask, land_not_three (lt.trans ht.len_lt)]

/-- A write keeps the length. -/
@[simp] lemma write_len {ht : DramblastHt} {s kv} : (ht.write s kv).len = ht.len :=
  rfl

/-- The keys after a write. -/
@[simp] lemma keys_write {ht : DramblastHt} {s kv} :
    (ht.write s kv).keys = Function.update ht.keys s kv.k := by
  funext t
  simp only [keys, write, Function.update_apply]
  split <;> rfl

/-- The values after a write. -/
@[simp] lemma vals_write {ht : DramblastHt} {s kv} :
    (ht.write s kv).vals = Function.update ht.vals s kv.v := by
  funext t
  simp only [vals, write, Function.update_apply]
  split <;> rfl

end DramblastHt

variable {crc : BitVec 64 → BitVec 64}

/-- The home slot depends on the length of the table only. -/
lemma dramblastHash_congr {ht ht' : DramblastHt} (e : ht'.len = ht.len) :
    dramblastHash crc ht' = dramblastHash crc ht := by
  funext k
  unfold dramblastHash
  rw [e]

/-- A write keeps the hash. -/
@[simp] lemma dramblastHash_write {ht : DramblastHt} {s kv} :
    dramblastHash crc (ht.write s kv) = dramblastHash crc ht :=
  rfl

/-- A hash is an index of the table. -/
lemma dramblastHash_lt {ht : DramblastHt} {k} : dramblastHash crc ht k < ht.len := by
  have pos := ht.four_le
  have lt := Nat.mod_lt (crc k).toNat (show ht.len > 0 by omega)
  unfold dramblastHash
  rw [ht.land_bucket]
  omega

/-- The home slot is the first slot of a bucket. -/
lemma four_dvd_dramblastHash (crc : BitVec 64 → BitVec 64) (ht : DramblastHt) (k : BitVec 64) :
    4 ∣ dramblastHash crc ht k := by
  unfold dramblastHash
  rw [ht.land_bucket]
  omega

/-- The representation invariant: a chained layout whose free slots are all zero. -/
structure Wf (crc : BitVec 64 → BitVec 64) (ht : DramblastHt) : Prop where
  chained : Chained ht.len (dramblastHash crc ht) 0 ht.keys
  clean : ∀ s < ht.len, ht.keys s = 0 → ht.vals s = 0

/-- A zeroed table is well formed. -/
lemma Wf.init {ht : DramblastHt} (zero : ht.AllZero) : Wf crc ht where
  chained := Chained.init fun s hs => by rw [DramblastHt.keys, zero s hs]
  clean s hs _ := by rw [DramblastHt.vals, zero s hs]

/-- The invariant speaks about the table and its length only. -/
lemma Wf.congr {ht ht' : DramblastHt} (wf : Wf crc ht) (et : ht'.table = ht.table)
    (el : ht'.len = ht.len) : Wf crc ht' := by
  have ek : ht'.keys = ht.keys := by
    funext s
    rw [DramblastHt.keys, et, DramblastHt.keys]
  have ev : ht'.vals = ht.vals := by
    funext s
    rw [DramblastHt.vals, et, DramblastHt.vals]
  constructor
  · rw [el, ek, dramblastHash_congr el]
    exact wf.chained
  · rw [el, ek, ev]
    exact wf.clean

/-- The insert loop of a well-formed table stores where the search for its key ends. -/
lemma Wf.tryInsert_eq {ht : DramblastHt} {k v} (wf : Wf crc ht) :
    dramblastTryInsert ht k v (dramblastHash crc ht k) 0 =
      ((landing ht.len (dramblastHash crc ht) 0 ht.keys k).map
        fun s => ((0 : Int), ht.write s { k, v })).getD (-1, ht) := by
  have pos := ht.four_le
  have step : ∀ i, ht.keys (ht.probe crc k i) ≠ 0 → ht.keys (ht.probe crc k i) ≠ k →
      dramblastTryInsert ht k v (ht.probe crc k i) i =
        if i + 1 ≥ ht.len then (-1, ht)
        else dramblastTryInsert ht k v (ht.probe crc k (i + 1)) (i + 1) := by
    intro i occ other
    unfold DramblastHt.keys at occ other
    rw [dramblastTryInsert]
    simp only [ht.land_len]
    rw [if_neg fun free => occ free.1, if_neg other]
    unfold DramblastHt.probe
    rw [slotAt_succ]
  have start : dramblastHash crc ht k = ht.probe crc k 0 := (slotAt_zero dramblastHash_lt).symm
  rw [start]
  apply landing_rule (dramblastHash crc ht) fun i => dramblastTryInsert ht k v (ht.probe crc k i) i
  case stop =>
    intro i _ take
    rw [dramblastTryInsert]
    rcases take with free | same
    · -- the compare-and-swap succeeds, because a free slot is zero in all its 128 bits
      have zero := wf.clean _ DramblastHt.probe_lt free
      rw [if_pos ⟨free, by rw [ht.table_eq, DramblastHt.probe, free]; exact congrArg _ zero⟩]
      rfl
    · split
      · rfl
      · change (ht.table (ht.probe crc k i)).k = k at same
        rw [if_pos same, same]
        rfl
  case next =>
    intro i hi occ other
    exact (step i occ other).trans (if_neg (by omega))
  case last =>
    intro i hi occ other
    exact (step i occ other).trans (if_pos (by omega))
  case pos => omega

/-- Everything `dramblast_insert_one` can do to a well-formed table: refuse and leave it unchanged,
    or write one slot, which held the key or was free while the key was stored nowhere. -/
lemma Wf.insertOne_cases {ht : DramblastHt} (wf : Wf crc ht) (k v : BitVec 64) :
    (¬ ht.Takes k ∧ dramblastInsertOne crc ht k v = (-1, ht)) ∨
    (ht.Takes k ∧ ∃ s < ht.len,
      dramblastInsertOne crc ht k v = (0, ht.write s { k, v }) ∧
      (ht.keys s = k ∨ ht.keys s = 0 ∧ ¬ ht.Stores k) ∧
      Wf crc (ht.write s { k, v })) := by
  have pos : 0 < ht.len := by have := ht.four_le; omega
  by_cases zero : k = 0
  · left
    refine ⟨fun take => take.1 zero, ?_⟩
    rw [dramblastInsertOne]
    exact if_pos zero
  · have eq : dramblastInsertOne crc ht k v =
        dramblastTryInsert ht k v (dramblastHash crc ht k) 0 := by
      rw [dramblastInsertOne]
      exact if_neg zero
    rw [eq, wf.tryInsert_eq]
    rcases wf.chained.landing_cases zero pos with
      ⟨refused, none⟩ | ⟨take, s, hs, landed, here, chained⟩
    · left
      rw [none]
      exact ⟨refused, rfl⟩
    · right
      rw [landed]
      refine ⟨take, s, hs, rfl, here, ?_, ?_⟩
      · simp only [DramblastHt.write_len, DramblastHt.keys_write, dramblastHash_write]
        exact chained
      · intro t ht' free
        rw [DramblastHt.keys_write, Function.update_apply] at free
        rw [DramblastHt.vals_write, Function.update_apply]
        split at free
        · exact absurd free zero
        · next ne =>
          rw [if_neg ne]
          exact wf.clean t ht' free

end NetBlast.Dramblast
