import NetBlast.Dramblast.Insert
import NetBlast.Ring.Chase

/-!
# Looking up one key

The bucket-by-bucket lookup of a single key. `findCompare_cases` reads the two masked vector
compares as statements about the four keys of a bucket. `lookupFrom` follows one ring item to its
result, and `lookupOne` starts it at the home bucket. In a well-formed table a lookup finds every
stored key (`Wf.lookupOne_found`); for a key that is not stored it answers `absent` exactly when a
slot outside the last bucket of the probe sequence is free (`Wf.lookupOne_absent`,
`Wf.lookupOne_tableFull`).
-/

namespace NetBlast.Dramblast
open Probing

/-- The lane of the `i`-th key of a bucket. -/
def keyLane (i : Fin 4) : Fin 8 :=
  ⟨2 * i, by omega⟩

/-- The mask selects the even lanes. -/
lemma simdKeyMask_getLsbD (l : Fin 8) :
    dramblastSimdKeyMask.getLsbD l = decide (l.val % 2 = 0) := by
  revert l
  decide

/-- A selected lane is the lane of a key. -/
lemma exists_keyLane {l : Fin 8} (sel : dramblastSimdKeyMask.getLsbD l) : ∃ i, l = keyLane i := by
  rw [simdKeyMask_getLsbD, decide_eq_true_eq] at sel
  refine ⟨⟨l / 2, by omega⟩, ?_⟩
  apply Fin.ext
  simp only [keyLane]
  omega

/-- The lanes of the keys are selected. -/
lemma getLsbD_keyLane (i : Fin 4) : dramblastSimdKeyMask.getLsbD (keyLane i) := by
  rw [simdKeyMask_getLsbD, decide_eq_true_eq]
  simp [keyLane]

/-- The key compare is zero exactly when no key lane is equal. -/
lemma keyCmp_eq_zero_iff {a b : M512i} :
    mm512MaskCmpeqEpu64Mask dramblastSimdKeyMask a b = 0 ↔
      ∀ i, a (keyLane i) ≠ b (keyLane i) := by
  rw [maskCmpeq_eq_zero_iff]
  constructor
  · intro h i
    exact h (keyLane i) (getLsbD_keyLane i)
  · intro h l sel
    obtain ⟨i, rfl⟩ := exists_keyLane sel
    exact h i

/-- The lowest bit of a non-zero key compare is the lane of the first equal key. -/
lemma builtinCtz_keyCmp {a b : M512i} (ne : mm512MaskCmpeqEpu64Mask dramblastSimdKeyMask a b ≠ 0) :
    ∃ i : Fin 4, builtinCtz (mm512MaskCmpeqEpu64Mask dramblastSimdKeyMask a b) = 2 * i ∧
      a (keyLane i) = b (keyLane i) ∧ ∀ j < i, a (keyLane j) ≠ b (keyLane j) := by
  obtain ⟨l, ctz, sel, eq, before⟩ := builtinCtz_maskCmpeq ne
  obtain ⟨i, rfl⟩ := exists_keyLane sel
  refine ⟨i, ctz, eq, fun j hj => before _ ?_ (getLsbD_keyLane j)⟩
  simp only [keyLane, Fin.lt_def] at hj ⊢
  omega

/-- Everything the comparisons on a loaded bucket can decide. -/
lemma findCompare_cases (len : Nat) (item : DramblastQueueItem) (cacheline : M512i) :
    (∃ i : Fin 4, findCompare len item cacheline = .hit (2 * i) ∧
      cacheline (keyLane i) = item.k ∧ ∀ j < i, cacheline (keyLane j) ≠ item.k) ∨
    (∀ i, cacheline (keyLane i) ≠ item.k) ∧
      (len ≤ item.visitCount + 4 ∧ findCompare len item cacheline = .tableFull ∨
      item.visitCount + 4 < len ∧ (∃ i, cacheline (keyLane i) = 0) ∧
        findCompare len item cacheline = .absent ∨
      item.visitCount + 4 < len ∧ (∀ i, cacheline (keyLane i) ≠ 0) ∧
        findCompare len item cacheline = .next (item.advance len)) := by
  unfold findCompare
  dsimp only
  split
  · next hit =>
    left
    have ne : mm512MaskCmpeqEpu64Mask dramblastSimdKeyMask cacheline (mm512Set1Epi64 item.k) ≠ 0 := by
      intro e
      rw [e] at hit
      exact absurd hit (by decide)
    obtain ⟨i, ctz, eq, before⟩ := builtinCtz_keyCmp ne
    exact ⟨i, by rw [ctz], eq, before⟩
  · next miss =>
    right
    have zero : mm512MaskCmpeqEpu64Mask dramblastSimdKeyMask cacheline (mm512Set1Epi64 item.k) = 0 := by
      by_contra ne
      exact miss (by bv_omega)
    refine ⟨keyCmp_eq_zero_iff.mp zero, ?_⟩
    split
    · next bound => exact Or.inl ⟨bound, rfl⟩
    · next bound =>
      right
      split
      · next none =>
        exact Or.inr ⟨by omega, keyCmp_eq_zero_iff.mp none, rfl⟩
      · next some =>
        rw [keyCmp_eq_zero_iff] at some
        push Not at some
        exact Or.inl ⟨by omega, some, rfl⟩

/-- The key lanes of a loaded bucket are the keys of its slots. -/
@[simp] lemma mm512LoadSi512_keyLane {ht : DramblastHt} {idx i} :
    mm512LoadSi512 ht idx (keyLane i) = ht.keys (idx + i) := by
  unfold mm512LoadSi512 bucketWord keyLane DramblastHt.keys
  rw [if_pos (Nat.mul_mod_right 2 i), Nat.mul_div_cancel_left _ (by omega)]

/-- The word behind a key lane is the value of the slot. -/
lemma bucketWord_value {ht : DramblastHt} {idx i} :
    bucketWord ht idx (2 * i + 1) = ht.vals (idx + i) := by
  unfold bucketWord DramblastHt.vals
  rw [if_neg (by omega), show (2 * i + 1) / 2 = i by omega]

/-- One visit of an item to its bucket: its result, or the item that is pushed back. -/
def lookupStep (ht : DramblastHt) (item : DramblastQueueItem) : DramblastResult ⊕ DramblastQueueItem :=
  match findCompare ht.len item (mm512LoadSi512 ht item.idx) with
  | .hit offset =>
    .inl { v := bucketWord ht item.idx (offset + 1), id := item.id, status := .found }
  | .tableFull => .inl { v := 0, id := item.id, status := .tableFull }
  | .absent => .inl { v := 0, id := item.id, status := .absent }
  | .next item' => .inr item'

/-- Everything a visit of an item can do. -/
lemma lookupStep_cases (ht : DramblastHt) (item : DramblastQueueItem) :
    (∃ i : Fin 4, lookupStep ht item =
        .inl { v := ht.vals (item.idx + i), id := item.id, status := .found } ∧
      ht.keys (item.idx + i) = item.k) ∨
    (∀ i : Fin 4, ht.keys (item.idx + i) ≠ item.k) ∧
      (ht.len ≤ item.visitCount + 4 ∧
        lookupStep ht item = .inl { v := 0, id := item.id, status := .tableFull } ∨
      item.visitCount + 4 < ht.len ∧ (∃ i : Fin 4, ht.keys (item.idx + i) = 0) ∧
        lookupStep ht item = .inl { v := 0, id := item.id, status := .absent } ∨
      item.visitCount + 4 < ht.len ∧ (∀ i : Fin 4, ht.keys (item.idx + i) ≠ 0) ∧
        lookupStep ht item = .inr (item.advance ht.len)) := by
  have cases := findCompare_cases ht.len item (mm512LoadSi512 ht item.idx)
  simp only [mm512LoadSi512_keyLane] at cases
  unfold lookupStep
  rcases cases with ⟨i, e, eq, _⟩ | ⟨other, ⟨bound, e⟩ | ⟨more, free, e⟩ | ⟨more, full, e⟩⟩ <;> rw [e]
  · exact Or.inl ⟨i, by rw [← bucketWord_value], eq⟩
  · exact Or.inr ⟨other, Or.inl ⟨bound, rfl⟩⟩
  · exact Or.inr ⟨other, Or.inr (Or.inl ⟨more, free, rfl⟩)⟩
  · exact Or.inr ⟨other, Or.inr (Or.inr ⟨more, full, rfl⟩)⟩

/-- Only an item with a bucket left is pushed back. -/
lemma lookupStep_inr {ht item item'} (e : lookupStep ht item = .inr item') :
    item' = item.advance ht.len ∧ item.visitCount + 4 < ht.len := by
  rcases lookupStep_cases ht item with ⟨i, e', _⟩ | ⟨_, ⟨_, e'⟩ | ⟨_, _, e'⟩ | ⟨lt, _, e'⟩⟩ <;>
    rw [e'] at e <;> cases e
  exact ⟨rfl, lt⟩

/-- A lookup that goes on has fewer visits left. -/
lemma lookupStep_dec (ht : DramblastHt) {item item'} (e : lookupStep ht item = .inr item') :
    ht.len - item'.visitCount < ht.len - item.visitCount := by
  obtain ⟨rfl, lt⟩ := lookupStep_inr e
  simp only [DramblastQueueItem.advance]
  omega

/-- The result of an item that is popped until it is answered. -/
def lookupFrom (ht : DramblastHt) : DramblastQueueItem → DramblastResult :=
  Ring.chase (lookupStep ht) (fun item => ht.len - item.visitCount) (lookupStep_dec ht)

section
variable (crc : BitVec 64 → BitVec 64)

/-- The item pushed for an argument. -/
def startItem (ht : DramblastHt) (arg : DramblastArg) : DramblastQueueItem :=
  { k := arg.k, idx := dramblastHash crc ht arg.k, visitCount := 0, id := arg.id }

/-- The result of an argument looked up alone. -/
def lookupOne (ht : DramblastHt) (arg : DramblastArg) : DramblastResult :=
  lookupFrom ht (startItem crc ht arg)

end

/-- A result carries the id of its item. -/
lemma lookupFrom_id {ht item} : (lookupFrom ht item).id = item.id := by
  cases e : lookupStep ht item with
  | inl r =>
    rw [lookupFrom, Ring.chase_inl e]
    rcases lookupStep_cases ht item with ⟨i, e', _⟩ | ⟨_, ⟨_, e'⟩ | ⟨_, _, e'⟩ | ⟨_, _, e'⟩⟩ <;>
      rw [e'] at e <;> cases e <;> rfl
  | inr item' =>
    obtain ⟨rfl, _⟩ := lookupStep_inr e
    rw [lookupFrom, Ring.chase_inr e]
    exact lookupFrom_id
termination_by ht.len - item.visitCount
decreasing_by exact lookupStep_dec ht e

/-- A result carries the id of its argument. -/
lemma lookupOne_id {crc ht arg} : (lookupOne crc ht arg).id = arg.id :=
  lookupFrom_id

variable {crc : BitVec 64 → BitVec 64}

/-- The item that looks for `k` in the bucket of its probe `4 * b`. -/
def bucketItem (crc : BitVec 64 → BitVec 64) (ht : DramblastHt) (arg : DramblastArg) (b : Nat) :
    DramblastQueueItem :=
  { k := arg.k, idx := ht.probe crc arg.k (4 * b), visitCount := 4 * b, id := arg.id }

/-- A lookup starts at the first bucket. -/
lemma startItem_eq {ht : DramblastHt} {arg} : startItem crc ht arg = bucketItem crc ht arg 0 := by
  unfold startItem bucketItem DramblastHt.probe
  rw [slotAt_zero dramblastHash_lt]

/-- Buckets are aligned, so the probes of a bucket are its slots in order. -/
lemma probe_add {ht : DramblastHt} {k b} (i : Fin 4) :
    ht.probe crc k (4 * b) + i = ht.probe crc k (4 * b + i) := by
  have pos := ht.four_le
  have dvd := ht.four_dvd
  have home := four_dvd_dramblastHash crc ht k
  have lt : ht.probe crc k (4 * b) < ht.len := ht.probe_lt
  have aligned : 4 ∣ ht.probe crc k (4 * b) :=
    (Nat.dvd_mod_iff dvd).mpr (by omega)
  unfold DramblastHt.probe at aligned lt ⊢
  rw [← slotAt_add, Nat.mod_eq_of_lt]
  omega

/-- The next bucket of a lookup. -/
lemma advance_bucketItem {ht : DramblastHt} {arg b} :
    (bucketItem crc ht arg b).advance ht.len = bucketItem crc ht arg (b + 1) := by
  have dvd := ht.four_dvd
  have home := four_dvd_dramblastHash crc ht arg.k
  have step : ht.probe crc arg.k (4 * b + 4) % 4 = 0 := by
    have : 4 ∣ ht.probe crc arg.k (4 * b + 4) := (Nat.dvd_mod_iff dvd).mpr (by omega)
    omega
  unfold bucketItem DramblastQueueItem.advance
  simp only [ht.land_bucket, DramblastQueueItem.mk.injEq, true_and]
  unfold DramblastHt.probe at step ⊢
  rw [slotAt_add, step, show 4 * (b + 1) = 4 * b + 4 by omega]
  simp

/-- The keys an item sees in its bucket. -/
lemma keys_bucketItem {ht : DramblastHt} {arg b} (i : Fin 4) :
    ht.keys ((bucketItem crc ht arg b).idx + i) = ht.keys (ht.probe crc arg.k (4 * b + i)) := by
  rw [← probe_add]
  rfl

/-- A statement about the keys of a bucket is one about four probes. -/
lemma bucket_probe {ht : DramblastHt} {arg b p} {P : BitVec 64 → Prop}
    (all : ∀ i : Fin 4, P (ht.keys ((bucketItem crc ht arg b).idx + i)))
    (le : 4 * b ≤ p) (lt : p < 4 * b + 4) : P (ht.keys (ht.probe crc arg.k p)) := by
  have here := all ⟨p - 4 * b, by omega⟩
  rw [keys_bucketItem] at here
  simpa only [show 4 * b + (p - 4 * b) = p by omega] using here

/-- A stored key is found, from every bucket up to its own. -/
lemma Wf.lookupFrom_found {ht : DramblastHt} {arg q b} (wf : Wf crc ht) (ne : arg.k ≠ 0)
    (hq : q < ht.len) (here : ht.keys (ht.probe crc arg.k q) = arg.k) (le : 4 * b ≤ q) :
    lookupFrom ht (bucketItem crc ht arg b) =
      { v := ht.vals (ht.probe crc arg.k q), id := arg.id, status := .found } := by
  have vc : (bucketItem crc ht arg b).visitCount = 4 * b := rfl
  rcases lookupStep_cases ht (bucketItem crc ht arg b) with ⟨i, e, eq⟩ | ⟨other, rest⟩
  · -- the matching slot is the slot of `k`, because keys are unique
    rw [keys_bucketItem] at eq
    have same := wf.chained.unique DramblastHt.probe_lt DramblastHt.probe_lt
      (by rw [eq]; exact ne) (eq.trans here.symm)
    rw [lookupFrom, Ring.chase_inl e, ← same, ← probe_add]
    rfl
  · have out : 4 * b + 4 ≤ q := by
      by_contra lt
      exact bucket_probe (P := (· ≠ arg.k)) other le (by omega) here
    rcases rest with ⟨bound, _⟩ | ⟨_, ⟨i, free⟩, _⟩ | ⟨_, _, e⟩
    · omega
    · rw [keys_bucketItem] at free
      exact absurd free (wf.chained.chain hq ne here (by omega))
    · rw [lookupFrom, Ring.chase_inr e, advance_bucketItem]
      exact wf.lookupFrom_found ne hq here (by omega)
termination_by q - 4 * b

/-- A slot outside the last bucket of the probe sequence of `k` is free. -/
def OpenBeforeLast (crc : BitVec 64 → BitVec 64) (ht : DramblastHt) (k : BitVec 64) : Prop :=
  ∃ p < ht.len - 4, ht.keys (ht.probe crc k p) = 0

/-- A key that is not stored gets its answer from the first bucket with a free slot, or from the
    probe bound in the last bucket. -/
lemma lookupFrom_missing {ht : DramblastHt} {arg b} (fresh : ¬ ht.Stores arg.k)
    (lt : 4 * b < ht.len) (occ : ∀ p < 4 * b, ht.keys (ht.probe crc arg.k p) ≠ 0) :
    (OpenBeforeLast crc ht arg.k → lookupFrom ht (bucketItem crc ht arg b) =
      { v := 0, id := arg.id, status := .absent }) ∧
    (¬ OpenBeforeLast crc ht arg.k → lookupFrom ht (bucketItem crc ht arg b) =
      { v := 0, id := arg.id, status := .tableFull }) := by
  have dvd := ht.four_dvd
  have vc : (bucketItem crc ht arg b).visitCount = 4 * b := rfl
  rcases lookupStep_cases ht (bucketItem crc ht arg b) with
    ⟨i, _, eq⟩ | ⟨_, ⟨bound, e⟩ | ⟨more, ⟨i, free⟩, e⟩ | ⟨more, full, e⟩⟩
  · rw [keys_bucketItem] at eq
    exact absurd ⟨_, DramblastHt.probe_lt, eq⟩ fresh
  · rw [lookupFrom, Ring.chase_inl e]
    exact ⟨fun ⟨p, hp, free⟩ => absurd free (occ p (by omega)), fun _ => rfl⟩
  · rw [lookupFrom, Ring.chase_inl e]
    rw [keys_bucketItem] at free
    exact ⟨fun _ => rfl, fun closed => absurd ⟨_, by omega, free⟩ closed⟩
  · rw [lookupFrom, Ring.chase_inr e, advance_bucketItem]
    apply lookupFrom_missing fresh (by omega)
    intro p hp
    by_cases old : p < 4 * b
    · exact occ p old
    · exact bucket_probe (P := (· ≠ 0)) full (by omega) (by omega)
termination_by ht.len - 4 * b

/-- A lookup finds every stored key, with the value next to it. -/
lemma Wf.lookupOne_found {ht : DramblastHt} {arg s} (wf : Wf crc ht) (ne : arg.k ≠ 0)
    (hs : s < ht.len) (here : ht.keys s = arg.k) :
    lookupOne crc ht arg = { v := ht.vals s, id := arg.id, status := .found } := by
  obtain ⟨q, hq, rfl⟩ := slotAt_surj (dramblastHash crc ht arg.k) hs
  unfold lookupOne
  rw [startItem_eq]
  exact wf.lookupFrom_found ne hq here (by omega)

/-- A key that is not stored is absent if a slot outside the last bucket of its sequence is free. -/
lemma lookupOne_absent {ht : DramblastHt} {arg} (fresh : ¬ ht.Stores arg.k)
    (opened : OpenBeforeLast crc ht arg.k) :
    lookupOne crc ht arg = { v := 0, id := arg.id, status := .absent } := by
  have pos := ht.four_le
  unfold lookupOne
  rw [startItem_eq]
  exact (lookupFrom_missing fresh (by omega) fun p hp => absurd hp (by omega)).1 opened

/-- A key that is not stored meets the probe bound if only its last bucket can have a free slot. -/
lemma lookupOne_tableFull {ht : DramblastHt} {arg} (fresh : ¬ ht.Stores arg.k)
    (closed : ¬ OpenBeforeLast crc ht arg.k) :
    lookupOne crc ht arg = { v := 0, id := arg.id, status := .tableFull } := by
  have pos := ht.four_le
  unfold lookupOne
  rw [startItem_eq]
  exact (lookupFrom_missing fresh (by omega) fun p hp => absurd hp (by omega)).2 closed

end NetBlast.Dramblast
