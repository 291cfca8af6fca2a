import Mathlib.Data.Fintype.Card
import Mathlib.Data.Fintype.EquivFin
import Mathlib.Logic.Function.Basic

/-!
# Picking in turns

Agents pick items in turns, one item in a turn, and each agent picks the free item that comes first in
its preference list. `Picks` says so of the first `n` turns. The preference lists determine the picks
(`Picks.unique`), and after as many turns as there are items every item has been picked exactly once
(`Picks.surj`), so `Shares`, the division of the items that results, is unique too, and an agent has
as many items as it had turns.
-/

namespace Draft

variable {Agent Item : Type*} {pref : Agent → Nat → Item} {turn : Nat → Agent}
  {pick pick' : Nat → Item} {n : Nat}

/-- In each of the first `n` turns an item is picked that was free, while everything its agent
    prefers to it was taken. -/
structure Picks (pref : Agent → Nat → Item) (turn : Nat → Agent) (pick : Nat → Item) (n : Nat) :
    Prop where
  fresh : ∀ t < n, ∀ t' < t, pick t' ≠ pick t
  first : ∀ t < n, ∃ j, pref (turn t) j = pick t ∧ ∀ i < j, ∃ t' < t, pick t' = pref (turn t) i

/-- Nothing has been picked before the first turn. -/
lemma Picks.init : Picks pref turn pick 0 :=
  ⟨nofun, nofun⟩

/-- An item taken in a turn is not taken again. -/
lemma Picks.inj (picks : Picks pref turn pick n) {t t' : Nat} (ht : t < n) (ht' : t' < n)
    (e : pick t = pick t') : t = t' := by
  rcases Nat.lt_trichotomy t t' with lt | eq | gt
  · exact absurd e (picks.fresh t' ht' t lt)
  · exact eq
  · exact absurd e.symm (picks.fresh t ht t' gt)

/-- One more turn: a free item is picked, and everything before it in the list was taken. -/
lemma Picks.step (picks : Picks pref turn pick n) {j : Nat}
    (free : ∀ t < n, pick t ≠ pref (turn n) j)
    (taken : ∀ i < j, ∃ t < n, pick t = pref (turn n) i) :
    Picks pref turn (Function.update pick n (pref (turn n) j)) (n + 1) := by
  have before (t) (ht : t < n) : Function.update pick n (pref (turn n) j) t = pick t :=
    Function.update_of_ne ht.ne _ _
  constructor
  · intro t ht t' ht'
    rw [before t' (by omega)]
    rcases Nat.lt_succ_iff_lt_or_eq.mp ht with lt | rfl
    · rw [before t lt]
      exact picks.fresh t lt t' ht'
    · rw [Function.update_self]
      exact free t' ht'
  · intro t ht
    rcases Nat.lt_succ_iff_lt_or_eq.mp ht with lt | rfl
    · obtain ⟨i, here, earlier⟩ := picks.first t lt
      refine ⟨i, by rw [before t lt, here], fun i' hi' => ?_⟩
      obtain ⟨t', ht', e⟩ := earlier i' hi'
      exact ⟨t', ht', by rw [before t' (by omega), e]⟩
    · refine ⟨j, by rw [Function.update_self], fun i hi => ?_⟩
      obtain ⟨t', ht', e⟩ := taken i hi
      exact ⟨t', ht', by rw [before t' ht', e]⟩

/-- In a turn, the item of one draft is not before that of another that agrees so far. -/
lemma Picks.not_before (picks : Picks pref turn pick n) {t j j' : Nat} (ht : t < n)
    (same : ∀ t' < t, pick t' = pick' t') (here : pref (turn t) j = pick t)
    (taken : ∀ i < j', ∃ t' < t, pick' t' = pref (turn t) i) : j' ≤ j := by
  by_contra lt
  obtain ⟨t', ht', e⟩ := taken j (by omega)
  exact picks.fresh t ht t' ht' (by rw [same t' ht', e, here])

/-- The preference lists and the order of the turns determine the picks. -/
lemma Picks.unique (picks : Picks pref turn pick n) (picks' : Picks pref turn pick' n) :
    ∀ t < n, pick t = pick' t := by
  intro t
  induction t using Nat.strong_induction_on with
  | _ t ih =>
    intro ht
    have same (t') (ht' : t' < t) : pick t' = pick' t' := ih t' ht' (by omega)
    obtain ⟨j, here, taken⟩ := picks.first t ht
    obtain ⟨j', here', taken'⟩ := picks'.first t ht
    have le := picks.not_before ht same here taken'
    have ge := picks'.not_before ht (fun t' ht' => (same t' ht').symm) here' taken
    rw [← here, ← here', Nat.le_antisymm le ge]

variable [Fintype Item]

/-- Before all items are picked one of them is free. -/
lemma exists_free (pick : Nat → Item) (lt : n < Fintype.card Item) : ∃ c, ∀ t < n, pick t ≠ c := by
  classical
  have few : ((Finset.range n).image pick).card < Fintype.card Item := by
    have le := Finset.card_image_le (s := Finset.range n) (f := pick)
    rw [Finset.card_range] at le
    omega
  obtain ⟨c, free⟩ := Finset.exists_mem_notMem_of_card_lt_card
    (s := (Finset.range n).image pick) (t := Finset.univ) few
  refine ⟨c, fun t ht e => free.2 ?_⟩
  rw [← e]
  exact Finset.mem_image_of_mem pick (Finset.mem_range.mpr ht)

/-- After as many turns as there are items all of them are taken. -/
lemma Picks.surj (picks : Picks pref turn pick (Fintype.card Item)) (c : Item) :
    ∃ t < Fintype.card Item, pick t = c := by
  let item : Fin (Fintype.card Item) → Item := fun t => pick t
  have inj : Function.Injective item := by
    intro t t' e
    exact Fin.ext (picks.inj t.isLt t'.isLt e)
  have bij := (Fintype.bijective_iff_injective_and_card item).mpr ⟨inj, Fintype.card_fin _⟩
  obtain ⟨t, e⟩ := bij.surjective c
  exact ⟨t, t.isLt, e⟩

/-- The division of all items that picking in turns results in. -/
def Shares (pref : Agent → Nat → Item) (turn : Nat → Agent) (owner : Item → Agent) : Prop :=
  ∃ pick, Picks pref turn pick (Fintype.card Item) ∧
    ∀ t < Fintype.card Item, owner (pick t) = turn t

/-- The preference lists and the order of the turns determine the division. -/
lemma Shares.unique {owner owner' : Item → Agent} (shares : Shares pref turn owner)
    (shares' : Shares pref turn owner') : owner = owner' := by
  obtain ⟨pick, picks, owns⟩ := shares
  obtain ⟨pick', picks', owns'⟩ := shares'
  funext c
  obtain ⟨t, ht, rfl⟩ := picks.surj c
  rw [owns t ht, picks.unique picks' t ht, owns' t ht]

/-- An agent has as many items as it had turns. -/
lemma Shares.card_eq [DecidableEq Agent] {owner : Item → Agent} (shares : Shares pref turn owner)
    (a : Agent) :
    (Finset.univ.filter fun c => owner c = a).card =
      ((Finset.range (Fintype.card Item)).filter fun t => turn t = a).card := by
  obtain ⟨pick, picks, owns⟩ := shares
  symm
  apply Finset.card_bij fun t _ => pick t
  · intro t mem
    rw [Finset.mem_filter, Finset.mem_range] at mem
    rw [Finset.mem_filter, owns t mem.1]
    exact ⟨Finset.mem_univ _, mem.2⟩
  · intro t mem t' mem' e
    rw [Finset.mem_filter, Finset.mem_range] at mem mem'
    exact picks.inj mem.1 mem'.1 e
  · intro c mem
    obtain ⟨t, ht, rfl⟩ := picks.surj c
    rw [Finset.mem_filter, owns t ht] at mem
    exact ⟨t, by rw [Finset.mem_filter, Finset.mem_range]; exact ⟨ht, mem.2⟩, rfl⟩

end Draft
