import NetBlast.Probing.Chained

/-!
# The map a table stands for

A table with keys `keys` and values `vals` represents the finite map `m : K → Option V` when the
occupied slots of the table are the graph of `m`. Writing `(k, v)` over a copy of `k`, or into a
free slot when `k` has none, represents the map updated at `k` (`Represents.write`). A map operation
that may refuse a key is specified by `Accepts`: a table takes a key unless it is the empty marker,
or is not stored and no slot is free. `landing` is the slot at which a search loop ends.
-/

namespace Probing

variable {K V : Type*} {n : Nat} {home : K → Nat} {empty : K} {keys : Nat → K} {vals : Nat → V}
  {m : K → Option V}

/-- The occupied slots are the graph of `m`. -/
def Represents (n : Nat) (empty : K) (keys : Nat → K) (vals : Nat → V) (m : K → Option V) : Prop :=
  ∀ k, k ≠ empty → ∀ v, m k = some v ↔ ∃ s < n, keys s = k ∧ vals s = v

/-- A table with free slots only represents the map without bindings. -/
lemma Represents.init (free : ∀ s < n, keys s = empty) :
    Represents n empty keys vals (fun _ => none) := by
  intro k ne v
  constructor
  · intro e
    cases e
  · rintro ⟨s, hs, e, _⟩
    exact absurd (e.symm.trans (free s hs)) ne

/-- A represented map binds the stored keys. -/
lemma Represents.stored_iff {k} (rep : Represents n empty keys vals m) (ne : k ≠ empty) :
    Stored n keys k ↔ (m k).isSome := by
  rw [Option.isSome_iff_exists]
  constructor
  · rintro ⟨s, hs, e⟩
    exact ⟨vals s, (rep k ne _).mpr ⟨s, hs, e, rfl⟩⟩
  · rintro ⟨v, e⟩
    obtain ⟨s, hs, e, _⟩ := (rep k ne v).mp e
    exact ⟨s, hs, e⟩

/-- The value next to a stored key is the one the map binds it to. -/
lemma Represents.value_at {s} (rep : Represents n empty keys vals m) (hs : s < n)
    (ne : keys s ≠ empty) : m (keys s) = some (vals s) :=
  (rep _ ne _).mpr ⟨s, hs, rfl, rfl⟩

/-- A key that is not stored is not in the map. -/
lemma Represents.eq_none {k} (rep : Represents n empty keys vals m) (ne : k ≠ empty)
    (fresh : ¬ Stored n keys k) : m k = none := by
  rw [rep.stored_iff ne] at fresh
  simpa using fresh

/-- Writing `(k, v)` over a copy of `k`, or into a free slot when there is no copy, binds `k` to `v`
    and leaves the other bindings alone. -/
lemma Represents.write [DecidableEq K] {s k v} (rep : Represents n empty keys vals m)
    (ch : Chained n home empty keys) (hs : s < n) (ne : k ≠ empty)
    (here : keys s = k ∨ keys s = empty ∧ ¬ Stored n keys k) :
    Represents n empty (Function.update keys s k) (Function.update vals s v)
      (Function.update m k (some v)) := by
  intro k' ne' v'
  by_cases ek : k' = k
  · subst ek
    rw [Function.update_self]
    constructor
    · intro e
      cases e
      exact ⟨s, hs, Function.update_self .., Function.update_self ..⟩
    · rintro ⟨t, ht, e, ev⟩
      by_cases et : t = s
      · rw [et, Function.update_self] at ev
        rw [ev]
      · rw [Function.update_of_ne et] at e
        rcases here with here | ⟨_, fresh⟩
        · exact absurd (ch.unique ht hs (by rwa [e]) (e.trans here.symm)) et
        · exact absurd ⟨t, ht, e⟩ fresh
  · rw [Function.update_of_ne ek, rep k' ne' v']
    constructor
    · rintro ⟨t, ht, e, ev⟩
      have et : t ≠ s := by
        rintro rfl
        rcases here with here | ⟨free, _⟩
        · exact ek (e.symm.trans here)
        · exact ne' (e.symm.trans free)
      refine ⟨t, ht, ?_, ?_⟩
      · rwa [Function.update_of_ne et]
      · rwa [Function.update_of_ne et]
    · rintro ⟨t, ht, e, ev⟩
      have et : t ≠ s := by
        rintro rfl
        rw [Function.update_self] at e
        exact ek e.symm
      rw [Function.update_of_ne et] at e ev
      exact ⟨t, ht, e, ev⟩

/-- The value next to a free slot is not part of the map. -/
lemma Represents.write_free {s v} (rep : Represents n empty keys vals m) (free : keys s = empty) :
    Represents n empty keys (Function.update vals s v) m := by
  intro k ne v'
  rw [rep k ne v']
  refine exists_congr fun t => and_congr_right fun _ => and_congr_right fun here => ?_
  rw [Function.update_of_ne]
  rintro rfl
  exact ne (here.symm.trans free)

/-- The table takes the key: it is no empty marker, and it is stored or a slot is free. -/
def Accepts (n : Nat) (empty : K) (keys : Nat → K) (k : K) : Prop :=
  k ≠ empty ∧ (Stored n keys k ∨ ¬ Full n empty keys)

/-- The slot at which the search for `k` ends: the first of its sequence that is free or holds
    `k`. -/
def landing [DecidableEq K] (n : Nat) (home : K → Nat) (empty : K) (keys : Nat → K) (k : K) :
    Option Nat :=
  (firstHit (fun i => keys (slotAt n (home k) i) = empty ∨ keys (slotAt n (home k) i) = k) n).map
    (slotAt n (home k))

/-- A loop over the sequence of `k` that stops at the first slot that is free or holds `k`. -/
lemma landing_rule [DecidableEq K] {β : Type*} (home : K → Nat) {k : K} (loop hit : Nat → β) (miss : β)
    (stop : ∀ i < n, keys (slotAt n (home k) i) = empty ∨ keys (slotAt n (home k) i) = k →
      loop i = hit (slotAt n (home k) i))
    (next : ∀ i, i + 1 < n → keys (slotAt n (home k) i) ≠ empty → keys (slotAt n (home k) i) ≠ k →
      loop i = loop (i + 1))
    (last : ∀ i, i + 1 = n → keys (slotAt n (home k) i) ≠ empty → keys (slotAt n (home k) i) ≠ k →
      loop i = miss) (pos : 0 < n) :
    loop 0 = ((landing n home empty keys k).map hit).getD miss := by
  unfold landing
  rw [Option.map_map]
  apply search_rule loop _ miss stop _ _ pos
  · intro i hi other
    push Not at other
    exact next i hi other.1 other.2
  · intro i hi other
    push Not at other
    exact last i hi other.1 other.2

/-- In any layout, the search for `k` ends on a slot that is free or holds `k`. -/
lemma landing_eq_some [DecidableEq K] {k s} (landed : landing n home empty keys k = some s) :
    s < n ∧ (keys s = empty ∨ keys s = k) := by
  unfold landing at landed
  rw [Option.map_eq_some_iff] at landed
  obtain ⟨i, found, rfl⟩ := landed
  obtain ⟨hi, take, _⟩ := firstHit_eq_some.mp found
  exact ⟨slotAt_lt (by omega), take⟩

/-- In any layout, the search for `k` ends nowhere exactly when no slot is free and none holds
    `k`. -/
lemma landing_eq_none [DecidableEq K] {k} :
    landing n home empty keys k = none ↔ Full n empty keys ∧ ¬ Stored n keys k := by
  unfold landing
  rw [Option.map_eq_none_iff, firstHit_eq_none]
  constructor
  · intro none
    constructor
    · intro s hs e
      obtain ⟨i, hi, rfl⟩ := slotAt_surj (home k) hs
      exact none i hi (Or.inl e)
    · rintro ⟨s, hs, e⟩
      obtain ⟨i, hi, rfl⟩ := slotAt_surj (home k) hs
      exact none i hi (Or.inr e)
  · rintro ⟨full, missing⟩ i hi
    have lt : slotAt n (home k) i < n := slotAt_lt (by omega)
    exact not_or.mpr ⟨full _ lt, fun e => missing ⟨_, lt, e⟩⟩

/-- An insert of `k` finds no slot exactly when the table does not take `k`. Otherwise it lands on
    the copy of `k`, or on a free slot when there is none, and storing `k` there keeps the layout
    chained. -/
lemma Chained.landing_cases [DecidableEq K] {k} (ch : Chained n home empty keys) (ne : k ≠ empty)
    (pos : 0 < n) :
    (¬ Accepts n empty keys k ∧ landing n home empty keys k = none) ∨
    (Accepts n empty keys k ∧ ∃ s < n, landing n home empty keys k = some s ∧
      (keys s = k ∨ keys s = empty ∧ ¬ Stored n keys k) ∧
      Chained n home empty (Function.update keys s k)) := by
  unfold landing
  cases found : firstHit (fun i => keys (slotAt n (home k) i) = empty ∨
      keys (slotAt n (home k) i) = k) n with
  | none =>
    left
    rw [firstHit_eq_none] at found
    refine ⟨?_, rfl⟩
    rintro ⟨_, ⟨s, hs, e⟩ | free⟩
    · obtain ⟨i, hi, rfl⟩ := slotAt_surj (home k) hs
      exact found i hi (Or.inr e)
    · apply free
      intro s hs e
      obtain ⟨i, hi, rfl⟩ := slotAt_surj (home k) hs
      exact found i hi (Or.inl e)
  | some i =>
    right
    obtain ⟨hi, take, before⟩ := firstHit_eq_some.mp found
    push Not at before
    have fresh : keys (slotAt n (home k) i) = empty → ¬ Stored n keys k := fun free =>
      ch.not_stored ne hi free fun j hj => (before j hj).2
    have lt : slotAt n (home k) i < n := slotAt_lt pos
    refine ⟨⟨ne, ?_⟩, _, lt, rfl, ?_⟩
    · rcases take with free | same
      · exact Or.inr fun full => full _ lt free
      · exact Or.inl ⟨_, lt, same⟩
    · rcases take with free | same
      · exact ⟨Or.inr ⟨free, fresh free⟩, ch.place ne hi (fresh free) fun j hj => (before j hj).1⟩
      · refine ⟨Or.inl same, ?_⟩
        rw [Function.update_eq_self_iff.mpr same.symm]
        exact ch

/-- The search for the empty marker lands on a free slot, if there is one. -/
lemma landing_empty [DecidableEq K] (home : K → Nat) (keys : Nat → K) (pos : 0 < n) :
    (Full n empty keys ∧ landing n home empty keys empty = none) ∨
    (¬ Full n empty keys ∧ ∃ s < n, landing n home empty keys empty = some s ∧ keys s = empty) := by
  unfold landing
  cases found : firstHit (fun i => keys (slotAt n (home empty) i) = empty ∨
      keys (slotAt n (home empty) i) = empty) n with
  | none =>
    left
    rw [firstHit_eq_none] at found
    refine ⟨fun s hs e => ?_, rfl⟩
    obtain ⟨i, hi, rfl⟩ := slotAt_surj (home empty) hs
    exact found i hi (Or.inl e)
  | some i =>
    right
    obtain ⟨_, free, _⟩ := firstHit_eq_some.mp found
    rw [or_self] at free
    exact ⟨fun full => full _ (slotAt_lt pos) free, _, slotAt_lt pos, rfl, free⟩

/-- The search for a bound key lands on its slot, and the search for any other key on no slot or on
    a free one. -/
lemma Represents.landing_eq [DecidableEq K] {k} (rep : Represents n empty keys vals m)
    (ch : Chained n home empty keys) (ne : k ≠ empty) (pos : 0 < n) :
    match m k with
    | some v => ∃ s < n, landing n home empty keys k = some s ∧ keys s = k ∧ vals s = v
    | none => ∀ s, landing n home empty keys k = some s → keys s = empty := by
  cases e : m k with
  | some v =>
    have st := (rep.stored_iff ne).mpr (by rw [e]; rfl)
    obtain ⟨i, hi, here, before⟩ := ch.find ne st
    have found := firstHit_eq_some.mpr ⟨hi, Or.inr here, fun j hj => not_or.mpr (before j hj)⟩
    have bound := rep.value_at (slotAt_lt pos) (by rw [here]; exact ne)
    rw [here, e, Option.some.injEq] at bound
    refine ⟨slotAt n (home k) i, slotAt_lt pos, ?_, here, bound.symm⟩
    rw [landing, found]
    rfl
  | none =>
    have fresh : ¬ Stored n keys k := by
      rw [rep.stored_iff ne, e]
      simp
    intro s landed
    rw [landing, Option.map_eq_some_iff] at landed
    obtain ⟨i, found, rfl⟩ := landed
    obtain ⟨_, free | here, _⟩ := firstHit_eq_some.mp found
    · exact free
    · exact absurd ⟨_, slotAt_lt pos, here⟩ fresh

end Probing
