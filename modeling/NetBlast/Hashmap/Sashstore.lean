import NetBlast.Hash
import NetBlast.Memory
import NetBlast.Hashmap.Maglev

/-!
# The sashstore key-value table

`sashstore_hashmap_insert` and `sashstore_hashmap_get` of `hashmap.c`. Keys are 64 arbitrary octets,
and the key of 64 zeros marks a free pair. An insert of that key is accepted as long as a pair is
free, but a lookup never finds it. `sashstore_gives_back_iff` says that this is the only case in
which the table does not give back what it accepted.
-/

namespace NetBlast.Hashmap
open Probing

/-- `empty_key`. -/
def emptyKey : Block :=
  fun _ => 0

/-- `struct sashstore_kv_pair`. -/
structure SashstoreKvPair where
  key : Block
  value : Block
deriving DecidableEq

/-- `struct sashstore_hashmap`. -/
structure SashstoreHashmap where
  pairs : Nat → SashstoreKvPair

/-- The two copies into one pair. -/
def SashstoreHashmap.write (map : SashstoreHashmap) (slot : Nat) (pair : SashstoreKvPair) :
    SashstoreHashmap :=
  { pairs := Function.update map.pairs slot pair }

/-- `fnv_1(key, KEY_SIZE)`. -/
def sashstoreHash (key : Block) : BitVec 64 :=
  fnv1 (List.ofFn key)

section
variable (cap : Capacity)

/-- The slot of `probe`, which wraps around at 64 bits. -/
def sashstoreSlot (hash : BitVec 64) (i : Nat) : Nat :=
  (hash + BitVec.ofNat 64 i).toNat % cap.val

/-- The loop of `sashstore_hashmap_insert` from counter `i` on: the slot it stores to. -/
def sashstoreInsertFrom (map : SashstoreHashmap) (key : Block) (hash : BitVec 64) (i : Nat) :
    Option Nat :=
  if i < cap.val then
    let slot := sashstoreSlot cap hash i
    let pair := map.pairs slot
    if pair.key = key ∨ pair.key = emptyKey then some slot
    else sashstoreInsertFrom map key hash (i + 1)
  else none
termination_by cap.val - i

/-- The slot `sashstore_hashmap_insert` stores to. Up to here it has not read the value. -/
def sashstoreInsertSlot (map : SashstoreHashmap) (key : Block) : Option Nat :=
  sashstoreInsertFrom cap map key (sashstoreHash key) 0

/-- `sashstore_hashmap_insert`: the number of the slot it points to, or `none` for `NULL`. -/
def sashstoreHashmapInsert (map : SashstoreHashmap) (key value : Block) :
    Option Nat × SashstoreHashmap :=
  match sashstoreInsertSlot cap map key with
  | some slot => (some slot, map.write slot { key, value })
  | none => (none, map)

/-- The loop of `sashstore_hashmap_get` from counter `i` on. -/
def sashstoreGetFrom (map : SashstoreHashmap) (key : Block) (hash : BitVec 64) (i : Nat) :
    Option Nat :=
  if i < cap.val then
    let slot := sashstoreSlot cap hash i
    let pair := map.pairs slot
    if pair.key = emptyKey then none
    else if pair.key = key then some slot
    else sashstoreGetFrom map key hash (i + 1)
  else none
termination_by cap.val - i

/-- `sashstore_hashmap_get`: the number of the slot it points to, or `none` for `NULL`. -/
def sashstoreHashmapGet (map : SashstoreHashmap) (key : Block) : Option Nat :=
  sashstoreGetFrom cap map key (sashstoreHash key) 0

end

namespace SashstoreHashmap

/-- The key column. -/
def keys (map : SashstoreHashmap) (s : Nat) : Block :=
  (map.pairs s).key

/-- The value column. -/
def values (map : SashstoreHashmap) (s : Nat) : Block :=
  (map.pairs s).value

/-- All bytes of the table are zero. -/
def AllZero (cap : Capacity) (map : SashstoreHashmap) : Prop :=
  ∀ s < cap.val, map.pairs s = { key := emptyKey, value := fun _ => 0 }

/-- A slot is its key and its value. -/
lemma pairs_eq (map : SashstoreHashmap) (s : Nat) :
    map.pairs s = { key := map.keys s, value := map.values s } :=
  rfl

/-- The keys after a write. -/
@[simp] lemma keys_write {map : SashstoreHashmap} {s pair} :
    (map.write s pair).keys = Function.update map.keys s pair.key := by
  funext t
  simp only [keys, write, Function.update_apply]
  split <;> rfl

/-- The values after a write. -/
@[simp] lemma values_write {map : SashstoreHashmap} {s pair} :
    (map.write s pair).values = Function.update map.values s pair.value := by
  funext t
  simp only [values, write, Function.update_apply]
  split <;> rfl

end SashstoreHashmap

/-- The home slot of a key. -/
def sashstoreHome (key : Block) : Nat :=
  (sashstoreHash key).toNat

variable {cap : Capacity}

/-- The wrap-around of `probe` is invisible, because `CAPACITY` divides `2 ^ 64`. -/
lemma sashstoreSlot_eq {key i} :
    sashstoreSlot cap (sashstoreHash key) i = slotAt cap.val (sashstoreHome key) i := by
  obtain ⟨m, lt, e⟩ := cap.pow
  have dvd : cap.val ∣ 2 ^ 64 := by
    rw [e]
    exact Nat.pow_dvd_pow 2 (by omega)
  unfold sashstoreSlot slotAt sashstoreHome
  rw [BitVec.toNat_add, BitVec.toNat_ofNat, Nat.add_mod_mod, Nat.mod_mod_of_dvd _ dvd]

/-- An insert stores where the search for its key ends. -/
lemma sashstoreInsertSlot_eq {map : SashstoreHashmap} {key} :
    sashstoreInsertSlot cap map key = landing cap.val sashstoreHome emptyKey map.keys key := by
  have step : ∀ i < cap.val, map.keys (slotAt cap.val (sashstoreHome key) i) ≠ emptyKey →
      map.keys (slotAt cap.val (sashstoreHome key) i) ≠ key →
      sashstoreInsertFrom cap map key (sashstoreHash key) i =
        sashstoreInsertFrom cap map key (sashstoreHash key) (i + 1) := by
    intro i hi occ other
    rw [← sashstoreSlot_eq] at occ other
    rw [sashstoreInsertFrom, if_pos hi]
    exact if_neg (not_or.mpr ⟨other, occ⟩)
  unfold sashstoreInsertSlot
  rw [landing_rule sashstoreHome (sashstoreInsertFrom cap map key (sashstoreHash key)) some none
    ?stop ?next ?last cap.pos]
  · cases landing cap.val sashstoreHome emptyKey map.keys key <;> rfl
  case stop =>
    intro i hi take
    rw [← sashstoreSlot_eq] at take ⊢
    rw [sashstoreInsertFrom, if_pos hi]
    exact if_pos take.symm
  case next =>
    intro i hi occ other
    exact step i (by omega) occ other
  case last =>
    intro i hi occ other
    rw [step i (by omega) occ other, sashstoreInsertFrom, if_neg (by omega)]

/-- A lookup ends where the search for its key ends. -/
lemma sashstoreHashmapGet_eq {map : SashstoreHashmap} {key} :
    sashstoreHashmapGet cap map key =
      ((landing cap.val sashstoreHome emptyKey map.keys key).map
        fun s => if map.keys s = emptyKey then none else some s).getD none := by
  have step : ∀ i < cap.val, map.keys (slotAt cap.val (sashstoreHome key) i) ≠ emptyKey →
      map.keys (slotAt cap.val (sashstoreHome key) i) ≠ key →
      sashstoreGetFrom cap map key (sashstoreHash key) i =
        sashstoreGetFrom cap map key (sashstoreHash key) (i + 1) := by
    intro i hi occ other
    rw [← sashstoreSlot_eq] at occ other
    rw [sashstoreGetFrom, if_pos hi]
    exact (if_neg occ).trans (if_neg other)
  unfold sashstoreHashmapGet
  apply landing_rule sashstoreHome (sashstoreGetFrom cap map key (sashstoreHash key))
  case stop =>
    intro i hi take
    rw [← sashstoreSlot_eq] at take ⊢
    rw [sashstoreGetFrom, if_pos hi]
    by_cases free : map.keys (sashstoreSlot cap (sashstoreHash key) i) = emptyKey
    · rw [if_pos free]
      exact if_pos free
    · rw [if_neg free]
      exact (if_neg free).trans (if_pos (take.resolve_left free))
  case next =>
    intro i hi occ other
    exact step i (by omega) occ other
  case last =>
    intro i hi occ other
    rw [step i (by omega) occ other, sashstoreGetFrom, if_neg (by omega)]
  case pos => exact cap.pos

/-- An insert stores to a slot that is free or holds its key already, whatever the table. -/
lemma sashstoreInsertSlot_some {map : SashstoreHashmap} {key s}
    (landed : sashstoreInsertSlot cap map key = some s) :
    s < cap.val ∧ (map.keys s = emptyKey ∨ map.keys s = key) := by
  rw [sashstoreInsertSlot_eq] at landed
  exact landing_eq_some landed

/-- An insert is refused exactly if no slot is free and none holds its key, whatever the table. -/
lemma sashstoreInsertSlot_none {map : SashstoreHashmap} {key} :
    sashstoreInsertSlot cap map key = none ↔
      Full cap.val emptyKey map.keys ∧ ¬ Stored cap.val map.keys key := by
  rw [sashstoreInsertSlot_eq]
  exact landing_eq_none

/-- A lookup finds its key, which is not the empty marker, whatever the table. -/
lemma sashstoreHashmapGet_some {map : SashstoreHashmap} {key s}
    (found : sashstoreHashmapGet cap map key = some s) :
    s < cap.val ∧ map.keys s = key ∧ key ≠ emptyKey := by
  rw [sashstoreHashmapGet_eq] at found
  cases landed : landing cap.val sashstoreHome emptyKey map.keys key with
  | none =>
    rw [landed] at found
    cases found
  | some t =>
    rw [landed, Option.map_some, Option.getD_some] at found
    obtain ⟨lt, take⟩ := landing_eq_some landed
    split at found
    · cases found
    · next occ =>
      cases found
      have same := take.resolve_left occ
      exact ⟨lt, same, by rwa [same] at occ⟩

/-- A lookup in a full table finds every key that is in some slot. -/
lemma sashstoreHashmapGet_full {map : SashstoreHashmap} {key}
    (full : Full cap.val emptyKey map.keys) (stored : Stored cap.val map.keys key) :
    ∃ s, sashstoreHashmapGet cap map key = some s := by
  rw [sashstoreHashmapGet_eq]
  cases landed : landing cap.val sashstoreHome emptyKey map.keys key with
  | none => exact absurd stored (landing_eq_none.mp landed).2
  | some s =>
    refine ⟨s, ?_⟩
    rw [Option.map_some, Option.getD_some, if_neg (full s (landing_eq_some landed).1)]

/-- An insert and what it returned. -/
structure SashstoreCall where
  key : Block
  value : Block
  ret : Option Nat

/-- The runs of inserts, with their history, newest call first. -/
inductive SashstoreRun (cap : Capacity) (map₀ : SashstoreHashmap) :
    List SashstoreCall → SashstoreHashmap → Prop where
  | start :
    SashstoreRun cap map₀ [] map₀
  | insert {past map r map'} (key value : Block) :
    SashstoreRun cap map₀ past map →
    sashstoreHashmapInsert cap map key value = (r, map') →
    SashstoreRun cap map₀ ({ key, value, ret := r } :: past) map'

/-- The value of the last insert of `key` that returned a pair. -/
def lastAccepted : List SashstoreCall → Block → Option Block
  | [], _ => none
  | call :: past, key =>
    if call.ret.isSome ∧ call.key = key then some call.value else lastAccepted past key

/-- A lookup of `key` returns what the run accepted last, or nothing. -/
def GivesBack (cap : Capacity) (past : List SashstoreCall) (map : SashstoreHashmap) (key : Block) :
    Prop :=
  match lastAccepted past key with
  | some v => ∃ s < cap.val, sashstoreHashmapGet cap map key = some s ∧
      map.pairs s = { key, value := v }
  | none => sashstoreHashmapGet cap map key = none

/-- The distinct keys, other than the empty marker, that inserts were called with. -/
def insertedKeys (past : List SashstoreCall) : Finset Block :=
  (past.map (·.key)).toFinset.erase emptyKey

/-- Before every insert of the empty marker there were inserts of `CAPACITY` other keys. -/
def EmptyKeyLate (cap : Capacity) (past : List SashstoreCall) : Prop :=
  ∀ call earlier, call :: earlier <:+ past → call.key = emptyKey →
    cap.val ≤ (insertedKeys earlier).card

/-- The keys that were inserted. -/
lemma mem_insertedKeys {past : List SashstoreCall} {k} :
    k ∈ insertedKeys past ↔ k ≠ emptyKey ∧ ∃ call ∈ past, call.key = k := by
  unfold insertedKeys
  simp only [Finset.mem_erase, List.mem_toFinset, List.mem_map]

/-- The condition for a longer history. -/
lemma emptyKeyLate_cons {call : SashstoreCall} {past} :
    EmptyKeyLate cap (call :: past) ↔
      (call.key = emptyKey → cap.val ≤ (insertedKeys past).card) ∧ EmptyKeyLate cap past := by
  unfold EmptyKeyLate
  constructor
  · intro late
    exact ⟨late call past List.suffix_rfl,
      fun c earlier suffix => late c earlier (suffix.trans (List.suffix_cons call past))⟩
  · rintro ⟨first, late⟩ c earlier suffix
    rcases List.suffix_cons_iff.mp suffix with e | older
    · cases e
      exact first
    · exact late c earlier older

/-- What holds of the table after the inserts `past`. -/
structure SashstoreInv (cap : Capacity) (past : List SashstoreCall) (map : SashstoreHashmap) :
    Prop where
  chained : Chained cap.val sashstoreHome emptyKey map.keys
  rep : Represents cap.val emptyKey map.keys map.values (lastAccepted past)
  origin : ∀ k, k ≠ emptyKey → Stored cap.val map.keys k → k ∈ insertedKeys past
  kept : Full cap.val emptyKey map.keys ∨ ∀ k ∈ insertedKeys past, Stored cap.val map.keys k
  late : lastAccepted past emptyKey = none ↔ EmptyKeyLate cap past

variable {map₀ map map' : SashstoreHashmap} {past : List SashstoreCall}

/-- The table is full from the moment that `CAPACITY` keys were inserted. -/
lemma SashstoreInv.full_iff (inv : SashstoreInv cap past map) :
    Full cap.val emptyKey map.keys ↔ cap.val ≤ (insertedKeys past).card := by
  constructor
  · intro full
    refine (inv.chained.full_iff_card.mp full).trans (Finset.card_le_card fun k mem => ?_)
    obtain ⟨ne, st⟩ := mem_storedKeys.mp mem
    exact inv.origin k ne st
  · intro le
    rcases inv.kept with full | kept
    · exact full
    · refine inv.chained.full_iff_card.mpr (le.trans (Finset.card_le_card fun k mem => ?_))
      exact mem_storedKeys.mpr ⟨(mem_insertedKeys.mp mem).1, kept k mem⟩

/-- An insert of the empty marker keeps the invariant. -/
lemma SashstoreInv.insert_empty {r value} (inv : SashstoreInv cap past map)
    (call : sashstoreHashmapInsert cap map emptyKey value = (r, map')) :
    SashstoreInv cap ({ key := emptyKey, value, ret := r } :: past) map' := by
  have same : insertedKeys ({ key := emptyKey, value, ret := r } :: past) = insertedKeys past := by
    ext k
    simp only [mem_insertedKeys, List.mem_cons, exists_eq_or_imp]
    exact and_congr_right fun ne => or_iff_right ne.symm
  have other : ∀ k, k ≠ emptyKey →
      lastAccepted ({ key := emptyKey, value, ret := r } :: past) k = lastAccepted past k := by
    intro k ne
    exact if_neg fun e => ne e.2.symm
  rw [sashstoreHashmapInsert, sashstoreInsertSlot_eq] at call
  rcases landing_empty sashstoreHome map.keys cap.pos with
    ⟨full, none⟩ | ⟨free, s, hs, landed, here⟩
  · rw [none] at call
    cases call
    constructor
    · exact inv.chained
    · intro k ne v
      rw [other k ne]
      exact inv.rep k ne v
    · rw [same]
      exact inv.origin
    · exact Or.inl full
    · rw [emptyKeyLate_cons, ← inv.late]
      exact (and_iff_right fun _ => inv.full_iff.mp full).symm
  · rw [landed] at call
    cases call
    have unchanged : Function.update map.keys s emptyKey = map.keys :=
      Function.update_eq_self_iff.mpr here.symm
    constructor
    · rw [SashstoreHashmap.keys_write, unchanged]
      exact inv.chained
    · rw [SashstoreHashmap.keys_write, unchanged, SashstoreHashmap.values_write]
      intro k ne v
      rw [other k ne]
      exact inv.rep.write_free here k ne v
    · rw [same, SashstoreHashmap.keys_write, unchanged]
      exact inv.origin
    · rw [same, SashstoreHashmap.keys_write, unchanged]
      exact inv.kept
    · -- the value is stored next to a free slot, where no lookup will find it
      rw [emptyKeyLate_cons]
      refine iff_of_false ?_ fun late => free (inv.full_iff.mpr (late.1 rfl))
      rw [lastAccepted, if_pos ⟨rfl, rfl⟩]
      exact nofun

/-- An insert of any other key keeps the invariant. -/
lemma SashstoreInv.insert_key {r key value} (inv : SashstoreInv cap past map) (ne : key ≠ emptyKey)
    (call : sashstoreHashmapInsert cap map key value = (r, map')) :
    SashstoreInv cap ({ key, value, ret := r } :: past) map' := by
  have grown : ∀ k, k ∈ insertedKeys ({ key, value, ret := r } :: past) ↔
      k = key ∨ k ∈ insertedKeys past := by
    intro k
    simp only [mem_insertedKeys, List.mem_cons, exists_eq_or_imp, eq_comm (a := key)]
    constructor
    · rintro ⟨ne', e | old⟩
      · exact Or.inl e
      · exact Or.inr ⟨ne', old⟩
    · rintro (rfl | ⟨ne', old⟩)
      · exact ⟨ne, Or.inl rfl⟩
      · exact ⟨ne', Or.inr old⟩
  have late : lastAccepted ({ key, value, ret := r } :: past) emptyKey = none ↔
      EmptyKeyLate cap ({ key, value, ret := r } :: past) := by
    rw [emptyKeyLate_cons, ← inv.late, lastAccepted, if_neg fun e => ne e.2]
    exact (and_iff_right fun e => absurd e ne).symm
  rw [sashstoreHashmapInsert, sashstoreInsertSlot_eq] at call
  rcases inv.chained.landing_cases ne cap.pos with ⟨refused, none⟩ | ⟨_, s, hs, landed, here, chained⟩
  · rw [none] at call
    cases call
    have full : Full cap.val emptyKey map.keys := by
      by_contra free
      exact refused ⟨ne, Or.inr free⟩
    refine ⟨inv.chained, ?_, fun k ne' st => (grown k).mpr (Or.inr (inv.origin k ne' st)),
      Or.inl full, late⟩
    have same : lastAccepted ({ key, value, ret := Option.none } :: past) = lastAccepted past := by
      funext k
      simp [lastAccepted]
    rw [same]
    exact inv.rep
  · rw [landed] at call
    cases call
    have stored : ∀ k, k ≠ emptyKey → (Stored cap.val (Function.update map.keys s key) k ↔
        k = key ∨ Stored cap.val map.keys k) :=
      fun k ne' => stored_update_iff hs (here.imp_right And.left) ne'
    have updated : lastAccepted ({ key, value, ret := some s } :: past) =
        Function.update (lastAccepted past) key (some value) := by
      funext k
      simp only [lastAccepted, Option.isSome_some, true_and, Function.update_apply, eq_comm]
    refine ⟨?_, ?_, ?_, ?_, late⟩ <;> rw [SashstoreHashmap.keys_write]
    · exact chained
    · rw [SashstoreHashmap.values_write, updated]
      exact inv.rep.write inv.chained hs ne here
    · intro k ne' st
      exact (grown k).mpr (((stored k ne').mp st).imp_right (inv.origin k ne'))
    · rcases inv.kept with full | kept
      · exact Or.inl fun t ht => update_occupied ne (full t ht)
      · right
        intro k mem
        exact (stored k (mem_insertedKeys.mp mem).1).mpr (((grown k).mp mem).imp_right (kept k))

/-- The invariant holds in every run. -/
lemma SashstoreRun.inv (zero : map₀.AllZero cap) (run : SashstoreRun cap map₀ past map) :
    SashstoreInv cap past map := by
  induction run with
  | start =>
    have free : ∀ s < cap.val, map₀.keys s = emptyKey := fun s hs => by
      rw [SashstoreHashmap.keys, zero s hs]
    refine ⟨Chained.init free, Represents.init free, ?_, Or.inr ?_, iff_of_true rfl ?_⟩
    · rintro k ne ⟨s, hs, e⟩
      exact absurd (e.symm.trans (free s hs)) ne
    · intro k mem
      obtain ⟨_, _, mem, _⟩ := mem_insertedKeys.mp mem
      cases mem
    · intro call earlier suffix
      exact absurd (List.suffix_nil.mp suffix) (List.cons_ne_nil _ _)
  | insert key value _ call ih =>
    by_cases empty : key = emptyKey
    · subst empty
      exact ih.insert_empty call
    · exact ih.insert_key empty call

/-- A lookup gives back what was accepted for every key but the empty marker; and for the empty
    marker exactly if none of its inserts came before `CAPACITY` other keys had been inserted. -/
theorem sashstore_gives_back_iff (cap : Capacity) (map₀ map : SashstoreHashmap)
    (past : List SashstoreCall) (key : Block) (zero : map₀.AllZero cap)
    (run : SashstoreRun cap map₀ past map) :
    GivesBack cap past map key ↔ (key = emptyKey → EmptyKeyLate cap past) := by
  have inv := run.inv zero
  by_cases empty : key = emptyKey
  · -- the lookup of the empty marker always fails
    subst empty
    have missed : sashstoreHashmapGet cap map emptyKey = none := by
      rw [sashstoreHashmapGet_eq]
      rcases landing_empty sashstoreHome map.keys cap.pos with
        ⟨_, none⟩ | ⟨_, s, _, landed, here⟩
      · rw [none]
        rfl
      · rw [landed, Option.map_some, Option.getD_some, if_pos here]
    rw [forall_prop_of_true rfl, ← inv.late]
    unfold GivesBack
    cases lastAccepted past emptyKey <;> simp [missed]
  · refine iff_of_true ?_ fun e => absurd e empty
    have landed := inv.rep.landing_eq inv.chained empty cap.pos
    unfold GivesBack
    rw [sashstoreHashmapGet_eq]
    cases e : lastAccepted past key with
    | some v =>
      rw [e] at landed
      obtain ⟨s, hs, eq, here, value⟩ := landed
      refine ⟨s, hs, ?_, ?_⟩
      · rw [eq, Option.map_some, Option.getD_some, if_neg (by rw [here]; exact empty)]
      · rw [map.pairs_eq, here, value]
    | none =>
      rw [e] at landed
      dsimp only
      cases eq : landing cap.val sashstoreHome emptyKey map.keys key with
      | none => rfl
      | some s => rw [Option.map_some, Option.getD_some, if_pos (landed s eq)]

/-- The all-zero table. -/
def emptySashstore : SashstoreHashmap :=
  { pairs := fun _ => { key := emptyKey, value := fun _ => 0 } }

/-- In a table that is full of other keys, the insert of 64 zero bytes is refused, so that both they
    and the other keys are given back. -/
theorem sashstore_gives_back_iff_full :
    ∃ past map, SashstoreRun fourSlots emptySashstore past map ∧
      past.map (·.key) = [emptyKey, fun _ => 4, fun _ => 3, fun _ => 2, fun _ => 1] ∧
      GivesBack fourSlots past map emptyKey ∧ GivesBack fourSlots past map (fun _ => 3) := by
  have fresh : SashstoreRun fourSlots emptySashstore [] emptySashstore := .start
  have keys := (((fresh.insert (fun _ => 1) (fun _ => 97) rfl).insert (fun _ => 2) (fun _ => 98)
    rfl).insert (fun _ => 3) (fun _ => 99) rfl).insert (fun _ => 4) (fun _ => 100) rfl
  have run := keys.insert emptyKey (fun _ => 101) rfl
  refine ⟨_, _, run, rfl, ?_, ?_⟩
  · refine (sashstore_gives_back_iff fourSlots emptySashstore _ _ emptyKey (fun _ _ => rfl) run).mpr
      fun _ => ?_
    have ordinary (b : Byte) (ne : b ≠ 0) : (fun _ => b : Block) ≠ emptyKey :=
      fun e => ne (congrFun e ⟨0, by decide⟩)
    rw [emptyKeyLate_cons, emptyKeyLate_cons, emptyKeyLate_cons, emptyKeyLate_cons,
      emptyKeyLate_cons]
    refine ⟨fun _ => by decide +kernel, fun e => absurd e (ordinary 4 (by decide)),
      fun e => absurd e (ordinary 3 (by decide)), fun e => absurd e (ordinary 2 (by decide)),
      fun e => absurd e (ordinary 1 (by decide)), fun _ _ suffix => ?_⟩
    exact absurd (List.suffix_nil.mp suffix) (List.cons_ne_nil _ _)
  · exact (sashstore_gives_back_iff fourSlots emptySashstore _ _ (fun _ => 3) (fun _ _ => rfl) run).mpr
      fun e => absurd (congrFun e ⟨0, by decide⟩) (by decide)

/-- An insert of 64 zero bytes into an empty table is accepted, and the lookup fails. -/
theorem sashstore_loses_empty_key :
    ∃ past map, SashstoreRun fourSlots emptySashstore past map ∧
      past.map (fun call => (call.key, call.value)) = [(emptyKey, fun _ => 1)] ∧
      past.map (fun call => call.ret.isSome) = [true] ∧
      sashstoreHashmapGet fourSlots map emptyKey = none ∧
      ¬ GivesBack fourSlots past map emptyKey := by
  refine ⟨[{ key := emptyKey, value := fun _ => 1, ret :=
    (sashstoreHashmapInsert fourSlots emptySashstore emptyKey fun _ => 1).1 }],
    (sashstoreHashmapInsert fourSlots emptySashstore emptyKey fun _ => 1).2,
    .insert emptyKey (fun _ => 1) .start rfl, rfl, ?_, ?_, ?_⟩
  · decide +kernel
  · decide +kernel
  · intro back
    have accepted : lastAccepted [{ key := emptyKey, value := fun _ => 1, ret :=
        (sashstoreHashmapInsert fourSlots emptySashstore emptyKey fun _ => 1).1 }] emptyKey =
        some fun _ => 1 := by decide +kernel
    have missed : sashstoreHashmapGet fourSlots
        (sashstoreHashmapInsert fourSlots emptySashstore emptyKey fun _ => 1).2 emptyKey = none := by
      decide +kernel
    unfold GivesBack at back
    rw [accepted] at back
    obtain ⟨s, _, found, _⟩ := back
    rw [missed] at found
    cases found

end NetBlast.Hashmap
