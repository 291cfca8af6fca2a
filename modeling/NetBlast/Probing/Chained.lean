import NetBlast.Probing.Sequence
import Mathlib.Data.Finset.Card

/-!
# Chained key layouts

A linear-probing table seen through its keys only: `keys s` is the key in slot `s`, and one key,
`empty`, marks a free slot. `Chained` is the invariant every such table keeps: no key occupies two
slots, and the probe sequence of a stored key has no free slot before it. The layout with only free
slots is chained, and `Chained.place` puts a fresh key at the first free slot of its sequence.
`Chained.find` locates a stored key, and `card_stored` counts the slots in use.
-/

namespace Probing

variable {K : Type*} {n : Nat} {home : K → Nat} {empty : K} {keys : Nat → K}

/-- Key `k` occupies a slot. -/
def Stored (n : Nat) (keys : Nat → K) (k : K) : Prop :=
  ∃ s < n, keys s = k

/-- No slot is free. -/
def Full (n : Nat) (empty : K) (keys : Nat → K) : Prop :=
  ∀ s < n, keys s ≠ empty

/-- The invariant of a linear-probing layout. -/
structure Chained (n : Nat) (home : K → Nat) (empty : K) (keys : Nat → K) : Prop where
  unique : ∀ {s t}, s < n → t < n → keys s ≠ empty → keys s = keys t → s = t
  chain : ∀ {k i j}, i < n → k ≠ empty → keys (slotAt n (home k) i) = k → j < i →
    keys (slotAt n (home k) j) ≠ empty

/-- A layout with free slots only is chained. -/
lemma Chained.init (free : ∀ s < n, keys s = empty) : Chained n home empty keys where
  unique hs _ ne _ := absurd (free _ hs) ne
  chain hi ne e _ := by
    have pos : 0 < n := by omega
    exact absurd (e.symm.trans (free _ (slotAt_lt pos))) ne

/-- A stored key is found at a probe that neither a free slot nor another copy precedes. -/
lemma Chained.find {k} (ch : Chained n home empty keys) (ne : k ≠ empty) (st : Stored n keys k) :
    ∃ i < n, keys (slotAt n (home k) i) = k ∧
      ∀ j < i, keys (slotAt n (home k) j) ≠ empty ∧ keys (slotAt n (home k) j) ≠ k := by
  obtain ⟨s, hs, e⟩ := st
  obtain ⟨i, hi, rfl⟩ := slotAt_surj (home k) hs
  refine ⟨i, hi, e, fun j hj => ⟨ch.chain hi ne e hj, fun e' => ?_⟩⟩
  have same := ch.unique (slotAt_lt (by omega)) hs (by rwa [e']) (e'.trans e.symm)
  have := slotAt_inj (by omega) hi same
  omega

/-- A key with a free slot in its sequence, and no copy before that slot, is not stored. -/
lemma Chained.not_stored {k i} (ch : Chained n home empty keys) (ne : k ≠ empty) (hi : i < n)
    (free : keys (slotAt n (home k) i) = empty)
    (before : ∀ j < i, keys (slotAt n (home k) j) ≠ k) : ¬ Stored n keys k := by
  intro st
  obtain ⟨q, hq, e, occ⟩ := ch.find ne st
  rcases Nat.lt_trichotomy q i with lt | rfl | gt
  · exact before q lt e
  · exact ne (e.symm.trans free)
  · exact (occ i gt).1 free

/-- Where table and home slots are aligned to blocks of `b` slots, no free slot of a block is
    followed by an occupied one. -/
lemma Chained.block {b s t} (ch : Chained n home empty keys) (hn : b ∣ n) (hh : ∀ k, b ∣ home k)
    (le : s ≤ t) (ht : t < n) (same : s / b = t / b) (occ : keys t ≠ empty) : keys s ≠ empty := by
  obtain ⟨i, hi, e⟩ := slotAt_surj (home (keys t)) ht
  have back : t - s ≤ slotAt n (home (keys t)) i % b := by
    have hs := Nat.div_add_mod s b
    have ht := Nat.div_add_mod t b
    rw [same] at hs
    rw [e]
    omega
  obtain ⟨le_i, at_s⟩ := slotAt_sub (by omega) hn (hh _) back
  rw [e, Nat.sub_sub_self le] at at_s
  rw [← at_s]
  by_cases here : s = t
  · rw [at_s, here]
    exact occ
  · exact ch.chain hi occ (by rw [e]) (by omega)

/-- Writing a key that is not stored behind occupied slots of its sequence keeps the invariant. -/
lemma Chained.place {k i} (ch : Chained n home empty keys) (ne : k ≠ empty) (hi : i < n)
    (fresh : ¬ Stored n keys k)
    (before : ∀ j < i, keys (slotAt n (home k) j) ≠ empty) :
    Chained n home empty (Function.update keys (slotAt n (home k) i) k) where
  unique {s t} hs ht occ e := by
    by_cases es : s = slotAt n (home k) i
    · by_cases et : t = slotAt n (home k) i
      · exact es.trans et.symm
      · rw [es, Function.update_self, Function.update_of_ne et] at e
        exact absurd ⟨t, ht, e.symm⟩ fresh
    · rw [Function.update_of_ne es] at occ e
      by_cases et : t = slotAt n (home k) i
      · rw [et, Function.update_self] at e
        exact absurd ⟨s, hs, e⟩ fresh
      · rw [Function.update_of_ne et] at e
        exact ch.unique hs ht occ e
  chain {k' i' j} hi' ne' e hj := by
    have pos : 0 < n := by omega
    by_cases ej : slotAt n (home k') j = slotAt n (home k) i
    · rw [ej, Function.update_self]
      exact ne
    · rw [Function.update_of_ne ej]
      by_cases ei : slotAt n (home k') i' = slotAt n (home k) i
      · -- the written slot itself: its key is `k`, whose chain was closed up to here
        rw [ei, Function.update_self] at e
        subst e
        have := slotAt_inj hi' hi ei
        exact before j (by omega)
      · rw [Function.update_of_ne ei] at e
        exact ch.chain hi' ne' e hj

/-- Occupied slots stay occupied when a key is written. -/
lemma update_occupied [DecidableEq K] {s t : Nat} {k : K} (ne : k ≠ empty)
    (occ : keys t ≠ empty) : Function.update keys s k t ≠ empty := by
  rw [Function.update_apply]
  split
  · exact ne
  · exact occ

/-- A written key is stored. -/
lemma Stored.update_self {s k} (hs : s < n) : Stored n (Function.update keys s k) k :=
  ⟨s, hs, Function.update_self ..⟩

/-- Writing `k` into a free slot, or over a copy of `k`, stores `k` and nothing else. -/
lemma stored_update_iff {s k k'} (hs : s < n) (here : keys s = k ∨ keys s = empty)
    (ne : k' ≠ empty) : Stored n (Function.update keys s k) k' ↔ k' = k ∨ Stored n keys k' := by
  constructor
  · rintro ⟨t, ht, e⟩
    by_cases et : t = s
    · subst et
      rw [Function.update_self] at e
      exact Or.inl e.symm
    · rw [Function.update_of_ne et] at e
      exact Or.inr ⟨t, ht, e⟩
  · rintro (rfl | ⟨t, ht, e⟩)
    · exact Stored.update_self hs
    · by_cases et : t = s
      · subst et
        rcases here with same | free
        · exact ⟨t, ht, by rw [Function.update_self, ← same, e]⟩
        · exact absurd (e.symm.trans free) ne
      · exact ⟨t, ht, by rw [Function.update_of_ne et, e]⟩

/-- The keys in use. -/
def storedKeys [DecidableEq K] (n : Nat) (empty : K) (keys : Nat → K) : Finset K :=
  ((Finset.range n).filter (keys · ≠ empty)).image keys

/-- The stored keys as a set. -/
lemma mem_storedKeys [DecidableEq K] {k} :
    k ∈ storedKeys n empty keys ↔ k ≠ empty ∧ Stored n keys k := by
  unfold storedKeys Stored
  simp only [Finset.mem_image, Finset.mem_filter, Finset.mem_range]
  constructor
  · rintro ⟨s, ⟨hs, occ⟩, rfl⟩
    exact ⟨occ, s, hs, rfl⟩
  · rintro ⟨ne, s, hs, rfl⟩
    exact ⟨s, ⟨hs, ne⟩, rfl⟩

/-- A layout stores at most as many keys as it has slots. -/
lemma card_storedKeys_le [DecidableEq K] : (storedKeys n empty keys).card ≤ n := by
  calc (storedKeys n empty keys).card
      ≤ ((Finset.range n).filter (keys · ≠ empty)).card := Finset.card_image_le
    _ ≤ (Finset.range n).card := Finset.card_filter_le _ _
    _ = n := Finset.card_range n

/-- A chained layout uses as many slots as it stores keys. -/
lemma Chained.card_storedKeys [DecidableEq K] (ch : Chained n home empty keys) :
    (storedKeys n empty keys).card = ((Finset.range n).filter (keys · ≠ empty)).card := by
  apply Finset.card_image_of_injOn
  intro s hs t ht e
  rw [Finset.mem_coe, Finset.mem_filter, Finset.mem_range] at hs ht
  exact ch.unique hs.1 ht.1 hs.2 e

/-- Every slot of a chained layout is free or holds a key of its own. -/
lemma Chained.card_free [DecidableEq K] (ch : Chained n home empty keys) :
    ((Finset.range n).filter (keys · = empty)).card + (storedKeys n empty keys).card = n := by
  rw [ch.card_storedKeys, Finset.card_filter_add_card_filter_not, Finset.card_range]

/-- If the occupied slots of `S` are all of `S`, at least `S.card` keys are stored. -/
lemma Chained.card_le_storedKeys [DecidableEq K] (ch : Chained n home empty keys) {S : Finset Nat}
    (sub : ∀ s ∈ S, s < n) (occ : ∀ s ∈ S, keys s ≠ empty) :
    S.card ≤ (storedKeys n empty keys).card := by
  rw [ch.card_storedKeys]
  apply Finset.card_le_card
  intro s hs
  simp only [Finset.mem_filter, Finset.mem_range]
  exact ⟨sub s hs, occ s hs⟩

/-- If only keys of `T` can be stored and one of them is not, fewer slots than `T` has keys are in
    use. -/
lemma Chained.card_lt_of_missing [DecidableEq K] (ch : Chained n home empty keys) {S : Finset Nat}
    {T : Finset K} {k} (sub : ∀ s ∈ S, s < n) (occ : ∀ s ∈ S, keys s ≠ empty)
    (among : ∀ k, k ≠ empty → Stored n keys k → k ∈ T) (mem : k ∈ T) (missing : ¬ Stored n keys k) :
    S.card < T.card := by
  refine (ch.card_le_storedKeys sub occ).trans_lt (Finset.card_lt_card ⟨fun k' mem' => ?_, ?_⟩)
  · obtain ⟨ne, st⟩ := mem_storedKeys.mp mem'
    exact among k' ne st
  · intro all
    exact missing (mem_storedKeys.mp (all mem)).2

/-- A chained layout is full exactly when it stores as many keys as it has slots. -/
lemma Chained.full_iff_card [DecidableEq K] (ch : Chained n home empty keys) :
    Full n empty keys ↔ n ≤ (storedKeys n empty keys).card := by
  constructor
  · intro full
    have le := ch.card_le_storedKeys (fun s hs => Finset.mem_range.mp hs)
      fun s hs => full s (Finset.mem_range.mp hs)
    rwa [Finset.card_range] at le
  · intro le s hs
    rw [ch.card_storedKeys] at le
    have all := Finset.eq_of_subset_of_card_le (Finset.filter_subset (keys · ≠ empty) _)
      (by rwa [Finset.card_range])
    have mem := Finset.mem_range.mpr hs
    rw [← all] at mem
    exact (Finset.mem_filter.mp mem).2

end Probing
