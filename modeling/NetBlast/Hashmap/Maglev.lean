import NetBlast.Intrinsics
import NetBlast.Probing.Represents

/-!
# The maglev connection table

`maglev_hashmap_insert` and `maglev_hashmap_get` of `hashmap.c`. A probe adds the counter to the
masked hash and masks the sum. `CAPACITY` is a power of two that fits `uint64_t`, so the sum does
not wrap. `MaglevRun.inv` says that the table of a run represents the map of its history, and
`maglev_hashmap_refines_map` is the resulting specification of both functions at every fill level.
-/

namespace NetBlast.Hashmap
open Probing

/-- `CAPACITY`: a power of two, as `l2fwd_parse_args` enforces. -/
structure Capacity where
  val : Nat
  pow : ∃ m, m < 64 ∧ val = 2 ^ m

/-- There is a slot. -/
lemma Capacity.pos (cap : Capacity) : 0 < cap.val := by
  obtain ⟨m, _, e⟩ := cap.pow
  rw [e]
  exact Nat.two_pow_pos m

/-- Masking an index is reducing it modulo the capacity. -/
lemma Capacity.land (cap : Capacity) (x : Nat) : x &&& (cap.val - 1) = x % cap.val := by
  obtain ⟨m, _, e⟩ := cap.pow
  exact land_pred e

/-- `struct maglev_kv_pair`. -/
structure MaglevKvPair where
  key : BitVec 64
  value : BitVec 64
deriving DecidableEq, Repr

/-- `struct maglev_hashmap`. -/
structure MaglevHashmap where
  pairs : Nat → MaglevKvPair

/-- Store to one pair. -/
def MaglevHashmap.write (map : MaglevHashmap) (slot : Nat) (pair : MaglevKvPair) : MaglevHashmap :=
  { pairs := Function.update map.pairs slot pair }

section
variable (crc : BitVec 64 → BitVec 64) (cap : Capacity)

/-- `maglev_hash(key) & (CAPACITY - 1)`. -/
def maglevHash (key : BitVec 64) : Nat :=
  (crc key).toNat &&& (cap.val - 1)

/-- The loop of `maglev_hashmap_insert` from counter `i` on. -/
def maglevInsertFrom (map : MaglevHashmap) (key value : BitVec 64) (hash i : Nat) :
    Int × MaglevHashmap :=
  if i < cap.val then
    let probe := hash + i
    let slot := probe &&& (cap.val - 1)
    let pair := map.pairs slot
    -- the compare-and-swap takes all 128 bits from zero, or falls through to the key test
    if pair.key = 0 ∧ pair = { key := 0, value := 0 } then (0, map.write slot { key, value })
    else if pair.key = key then (0, map.write slot { pair with value })
    else maglevInsertFrom map key value hash (i + 1)
  else (-1, map)
termination_by cap.val - i

/-- `maglev_hashmap_insert`. -/
def maglevHashmapInsert (map : MaglevHashmap) (key value : BitVec 64) : Int × MaglevHashmap :=
  if key = 0 then (-1, map)
  else maglevInsertFrom cap map key value (maglevHash crc cap key) 0

/-- The loop of `maglev_hashmap_get` from counter `i` on. -/
def maglevGetFrom (map : MaglevHashmap) (key : BitVec 64) (hash i : Nat) : Option Nat :=
  if i < cap.val then
    let probe := hash + i
    let slot := probe &&& (cap.val - 1)
    let pair := map.pairs slot
    if pair.key = 0 then none
    else if pair.key = key then some slot
    else maglevGetFrom map key hash (i + 1)
  else none
termination_by cap.val - i

/-- `maglev_hashmap_get`: the number of the slot it points to, or `none` for `NULL`. -/
def maglevHashmapGet (map : MaglevHashmap) (key : BitVec 64) : Option Nat :=
  maglevGetFrom cap map key (maglevHash crc cap key) 0

end

namespace MaglevHashmap

/-- The key column. -/
def keys (map : MaglevHashmap) (s : Nat) : BitVec 64 :=
  (map.pairs s).key

/-- The value column. -/
def values (map : MaglevHashmap) (s : Nat) : BitVec 64 :=
  (map.pairs s).value

/-- Every pair is zero, as `maglev_init` leaves them. -/
def AllZero (cap : Capacity) (map : MaglevHashmap) : Prop :=
  ∀ s < cap.val, map.pairs s = { key := 0, value := 0 }

/-- A slot is its key and its value. -/
lemma pairs_eq (map : MaglevHashmap) (s : Nat) :
    map.pairs s = { key := map.keys s, value := map.values s } :=
  rfl

/-- The keys after a write. -/
@[simp] lemma keys_write {map : MaglevHashmap} {s pair} :
    (map.write s pair).keys = Function.update map.keys s pair.key := by
  funext t
  simp only [keys, write, Function.update_apply]
  split <;> rfl

/-- The values after a write. -/
@[simp] lemma values_write {map : MaglevHashmap} {s pair} :
    (map.write s pair).values = Function.update map.values s pair.value := by
  funext t
  simp only [values, write, Function.update_apply]
  split <;> rfl

end MaglevHashmap

/-- The representation invariant of the connection table. -/
structure MaglevWf (crc : BitVec 64 → BitVec 64) (cap : Capacity) (map : MaglevHashmap) : Prop where
  chained : Chained cap.val (maglevHash crc cap) 0 map.keys
  clean : ∀ s < cap.val, map.keys s = 0 → map.values s = 0

variable {crc : BitVec 64 → BitVec 64} {cap : Capacity}

/-- A zeroed table is well formed. -/
lemma MaglevWf.init {map : MaglevHashmap} (zero : map.AllZero cap) : MaglevWf crc cap map where
  chained := Chained.init fun s hs => by rw [MaglevHashmap.keys, zero s hs]
  clean s hs _ := by rw [MaglevHashmap.values, zero s hs]

/-- The insert loop stores where the search for its key ends. -/
lemma MaglevWf.insertFrom_eq {map : MaglevHashmap} {key value} (wf : MaglevWf crc cap map) :
    maglevInsertFrom cap map key value (maglevHash crc cap key) 0 =
      ((landing cap.val (maglevHash crc cap) 0 map.keys key).map
        fun s => ((0 : Int), map.write s { key, value })).getD (-1, map) := by
  have step : ∀ i < cap.val, map.keys (slotAt cap.val (maglevHash crc cap key) i) ≠ 0 →
      map.keys (slotAt cap.val (maglevHash crc cap key) i) ≠ key →
      maglevInsertFrom cap map key value (maglevHash crc cap key) i =
        maglevInsertFrom cap map key value (maglevHash crc cap key) (i + 1) := by
    intro i hi occ other
    unfold MaglevHashmap.keys slotAt at occ other
    rw [maglevInsertFrom, if_pos hi]
    simp only [cap.land]
    rw [if_neg fun free => occ free.1, if_neg other]
  apply landing_rule (maglevHash crc cap) (maglevInsertFrom cap map key value (maglevHash crc cap key))
  case stop =>
    intro i hi take
    rw [maglevInsertFrom, if_pos hi]
    simp only [cap.land]
    rcases take with free | same
    · -- the compare-and-swap succeeds, because a free slot is zero in all its 128 bits
      have zero := wf.clean _ (slotAt_lt cap.pos) free
      rw [if_pos ⟨free, by rw [← slotAt, map.pairs_eq, free, zero]⟩]
      rfl
    · unfold MaglevHashmap.keys slotAt at same
      split
      · rfl
      · rw [same]
        rfl
  case next =>
    intro i hi occ other
    exact step i (by omega) occ other
  case last =>
    intro i hi occ other
    rw [step i (by omega) occ other, maglevInsertFrom, if_neg (by omega)]
  case pos => exact cap.pos

/-- The lookup ends where the search for its key ends. -/
lemma maglevHashmapGet_eq {map : MaglevHashmap} {key} :
    maglevHashmapGet crc cap map key =
      ((landing cap.val (maglevHash crc cap) 0 map.keys key).map
        fun s => if map.keys s = 0 then none else some s).getD none := by
  have step : ∀ i < cap.val, map.keys (slotAt cap.val (maglevHash crc cap key) i) ≠ 0 →
      map.keys (slotAt cap.val (maglevHash crc cap key) i) ≠ key →
      maglevGetFrom cap map key (maglevHash crc cap key) i =
        maglevGetFrom cap map key (maglevHash crc cap key) (i + 1) := by
    intro i hi occ other
    unfold MaglevHashmap.keys slotAt at occ other
    rw [maglevGetFrom, if_pos hi]
    simp only [cap.land]
    rw [if_neg occ, if_neg other]
  unfold maglevHashmapGet
  apply landing_rule (maglevHash crc cap) (maglevGetFrom cap map key (maglevHash crc cap key))
  case stop =>
    intro i hi take
    unfold MaglevHashmap.keys slotAt at take ⊢
    rw [maglevGetFrom, if_pos hi]
    simp only [cap.land]
    split
    · rfl
    · next occ => rw [if_pos (take.resolve_left occ)]
  case next =>
    intro i hi occ other
    exact step i (by omega) occ other
  case last =>
    intro i hi occ other
    rw [step i (by omega) occ other, maglevGetFrom, if_neg (by omega)]
  case pos => exact cap.pos

/-- Everything an insert can do to a well-formed connection table that represents `m`. -/
lemma MaglevWf.insert_cases {map : MaglevHashmap} {m} (wf : MaglevWf crc cap map)
    (rep : Represents cap.val 0 map.keys map.values m) (key value : BitVec 64) :
    (¬ Accepts cap.val 0 map.keys key ∧
      maglevHashmapInsert crc cap map key value = (-1, map)) ∨
    (Accepts cap.val 0 map.keys key ∧ ∃ map', maglevHashmapInsert crc cap map key value = (0, map') ∧
      MaglevWf crc cap map' ∧
      Represents cap.val 0 map'.keys map'.values (Function.update m key (some value))) := by
  by_cases zero : key = 0
  · left
    refine ⟨fun take => take.1 zero, ?_⟩
    rw [maglevHashmapInsert, if_pos zero]
  · rw [maglevHashmapInsert, if_neg zero, wf.insertFrom_eq]
    rcases wf.chained.landing_cases zero cap.pos with
      ⟨refused, none⟩ | ⟨take, s, hs, landed, here, chained⟩
    · left
      rw [none]
      exact ⟨refused, rfl⟩
    · right
      rw [landed]
      refine ⟨take, _, rfl, ⟨?_, ?_⟩, ?_⟩
      · rw [MaglevHashmap.keys_write]
        exact chained
      · intro t ht free
        rw [MaglevHashmap.keys_write, Function.update_apply] at free
        rw [MaglevHashmap.values_write, Function.update_apply]
        split at free
        · exact absurd free zero
        · next ne =>
          rw [if_neg ne]
          exact wf.clean t ht free
      · rw [MaglevHashmap.keys_write, MaglevHashmap.values_write]
        exact rep.write wf.chained hs zero here

/-- A lookup of a bound key points to its slot, and a lookup of any other key fails. -/
lemma MaglevWf.get_eq {map : MaglevHashmap} {m key} (wf : MaglevWf crc cap map)
    (rep : Represents cap.val 0 map.keys map.values m) (ne : key ≠ 0) :
    match m key with
    | some v => ∃ s < cap.val, maglevHashmapGet crc cap map key = some s ∧
        map.pairs s = { key, value := v }
    | none => maglevHashmapGet crc cap map key = none := by
  have landed := rep.landing_eq wf.chained ne cap.pos
  rw [maglevHashmapGet_eq]
  cases e : m key with
  | some v =>
    rw [e] at landed
    obtain ⟨s, hs, eq, here, value⟩ := landed
    refine ⟨s, hs, ?_, ?_⟩
    · rw [eq, Option.map_some, Option.getD_some, if_neg (by rw [here]; exact ne)]
    · rw [map.pairs_eq, here, value]
  | none =>
    rw [e] at landed
    dsimp only
    cases eq : landing cap.val (maglevHash crc cap) 0 map.keys key with
    | none => rfl
    | some s => rw [Option.map_some, Option.getD_some, if_pos (landed s eq)]

/-- A call on the connection table and what it returned. -/
inductive MaglevEvent where
  | insert (key value : BitVec 64) (ret : Int)
  | get (key : BitVec 64) (ret : Option Nat)

/-- The runs over a connection table, with their history, newest call first. -/
inductive MaglevRun (crc : BitVec 64 → BitVec 64) (cap : Capacity) (map₀ : MaglevHashmap) :
    List MaglevEvent → MaglevHashmap → Prop where
  | start :
    MaglevRun crc cap map₀ [] map₀
  | insert {past map r map'} (key value : BitVec 64) :
    MaglevRun crc cap map₀ past map →
    maglevHashmapInsert crc cap map key value = (r, map') →
    MaglevRun crc cap map₀ (.insert key value r :: past) map'
  | get {past map r} (key : BitVec 64) :
    MaglevRun crc cap map₀ past map →
    maglevHashmapGet crc cap map key = r →
    MaglevRun crc cap map₀ (.get key r :: past) map

/-- The value of the most recent insert of `key` that returned 0. -/
def maglevLastStored : List MaglevEvent → BitVec 64 → Option (BitVec 64)
  | [], _ => none
  | .insert k v ret :: past, key => if ret = 0 ∧ k = key then some v else maglevLastStored past key
  | .get _ _ :: past, key => maglevLastStored past key

/-- In every run the table is well-formed and represents the map of its history. -/
lemma MaglevRun.inv {map₀ past map} (zero : map₀.AllZero cap)
    (run : MaglevRun crc cap map₀ past map) :
    MaglevWf crc cap map ∧ Represents cap.val 0 map.keys map.values (maglevLastStored past) := by
  induction run with
  | start =>
    refine ⟨MaglevWf.init zero, Represents.init fun s hs => ?_⟩
    rw [MaglevHashmap.keys, zero s hs]
  | @insert past map r map' key value _ call ih =>
    obtain ⟨wf, rep⟩ := ih
    rcases wf.insert_cases rep key value with ⟨_, e⟩ | ⟨_, map'', e, wf', rep'⟩ <;>
      rw [call] at e <;> cases e
    · refine ⟨wf, ?_⟩
      have same : maglevLastStored (.insert key value (-1) :: past) = maglevLastStored past := by
        funext k
        simp [maglevLastStored]
      rwa [same]
    · have updated : maglevLastStored (.insert key value 0 :: past) =
          Function.update (maglevLastStored past) key (some value) := by
        funext k
        simp only [maglevLastStored, true_and, Function.update_apply, eq_comm]
      rw [updated]
      exact ⟨wf', rep'⟩
  | get key _ _ ih => exact ih

/-- The connection table is a finite map: an insert fails, without effect, exactly for the key 0 and
    for a key that is not stored when no slot is free; and a lookup points to the value stored
    last. -/
theorem maglev_hashmap_refines_map (crc : BitVec 64 → BitVec 64) (cap : Capacity)
    (map₀ map : MaglevHashmap) (past : List MaglevEvent) (zero : map₀.AllZero cap)
    (run : MaglevRun crc cap map₀ past map) :
    (∀ key value,
      ((maglevHashmapInsert crc cap map key value).1 = -1 ↔
        key = 0 ∨ ¬ Stored cap.val map.keys key ∧ Full cap.val 0 map.keys) ∧
      ((maglevHashmapInsert crc cap map key value).1 = -1 →
        (maglevHashmapInsert crc cap map key value).2 = map) ∧
      ((maglevHashmapInsert crc cap map key value).1 ≠ -1 →
        (maglevHashmapInsert crc cap map key value).1 = 0)) ∧
    ∀ key, key ≠ 0 →
      match maglevLastStored past key with
      | some v => ∃ s < cap.val, maglevHashmapGet crc cap map key = some s ∧
          map.pairs s = { key, value := v }
      | none => maglevHashmapGet crc cap map key = none := by
  obtain ⟨wf, rep⟩ := run.inv zero
  refine ⟨fun key value => ?_, fun key ne => wf.get_eq rep ne⟩
  have accepts : Accepts cap.val 0 map.keys key ↔
      ¬ (key = 0 ∨ ¬ Stored cap.val map.keys key ∧ Full cap.val 0 map.keys) := by
    unfold Accepts
    tauto
  rcases wf.insert_cases rep key value with ⟨refused, e⟩ | ⟨take, map', e, _⟩ <;> rw [e]
  · rw [accepts, not_not] at refused
    exact ⟨iff_of_true rfl refused, fun _ => rfl, fun ne => absurd rfl ne⟩
  · rw [accepts] at take
    have success : (0 : Int) ≠ -1 := by decide
    exact ⟨iff_of_false success take, fun e => absurd e success, fun _ => rfl⟩

/-- A connection table of four slots. -/
def fourSlots : Capacity :=
  ⟨4, 2, by decide, rfl⟩

/-- The connection table on a run that stores a key twice and fails to store the key 0. -/
theorem maglev_hashmap_refines_map_reinsert :
    ∃ past map, maglevLastStored past 5 = some 9 ∧ maglevLastStored past 6 = none ∧
      ∀ key, key ≠ 0 →
        match maglevLastStored past key with
        | some v => ∃ s < fourSlots.val,
            maglevHashmapGet mmCrc32U64 fourSlots map key = some s ∧ map.pairs s = { key, value := v }
        | none => maglevHashmapGet mmCrc32U64 fourSlots map key = none := by
  refine ⟨_, _, ?_, ?_, (maglev_hashmap_refines_map mmCrc32U64 fourSlots
    { pairs := fun _ => { key := 0, value := 0 } } _ _ (fun _ _ => rfl)
    (.insert 0 3 (.insert 5 9 (.insert 5 7 .start rfl) rfl) rfl)).2⟩
  · decide +kernel
  · decide +kernel

end NetBlast.Hashmap
