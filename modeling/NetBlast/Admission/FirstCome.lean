import Mathlib.Data.List.Basic
import Mathlib.Data.List.Nodup
import Mathlib.Data.List.Induction

/-!
# First come, first served

A store with room for `cap` keys that never gives one up. A request for a key that is in the store
changes nothing, and a request for another key is granted while there is room. `grantAll_nil` says
which keys a run of requests leaves in the store: the first `cap` different ones. What becomes of a
key is settled by its first request (`mem_grantAll`).
-/

namespace Admission

variable {K : Type*} {cap : Nat} {store keys : List K} {k : K}

/-- The store never holds a key twice, nor more than `cap` keys. -/
structure Sound (cap : Nat) (store : List K) : Prop where
  nodup : store.Nodup
  le : store.length ≤ cap

/-- The empty store is sound. -/
lemma Sound.init : Sound cap ([] : List K) :=
  ⟨List.nodup_nil, Nat.zero_le _⟩

variable [DecidableEq K]

/-- A request for a key. -/
def grant (cap : Nat) (store : List K) (k : K) : List K :=
  if k ∈ store then store else if store.length < cap then store ++ [k] else store

/-- A run of requests. -/
def grantAll (cap : Nat) (store keys : List K) : List K :=
  keys.foldl (grant cap) store

/-- If nobody asks, the store stays as it is. -/
@[simp] lemma grantAll_none : grantAll cap store [] = store :=
  rfl

/-- One key that asks is one grant. -/
@[simp] lemma grantAll_one : grantAll cap store [k] = grant cap store k :=
  rfl

/-- The first key asks before the others. -/
lemma grantAll_cons : grantAll cap store (k :: keys) = grantAll cap (grant cap store k) keys :=
  rfl

/-- Keys that ask later find the store as the earlier ones leave it. -/
lemma grantAll_append {keys' : List K} :
    grantAll cap store (keys ++ keys') = grantAll cap (grantAll cap store keys) keys' :=
  List.foldl_append

/-- A full store grants nothing. -/
lemma grant_of_full (full : cap ≤ store.length) : grant cap store k = store := by
  unfold grant
  rw [if_neg (Nat.not_lt.mpr full), ite_self]

/-- A grant keeps the store sound. -/
lemma Sound.grant (sound : Sound cap store) (k : K) : Sound cap (grant cap store k) := by
  unfold Admission.grant
  split
  · exact sound
  · next missing =>
    split
    · next room =>
      refine ⟨List.concat_eq_append ▸ sound.nodup.concat missing, ?_⟩
      rw [List.length_append, List.length_singleton]
      omega
    · exact sound

/-- A key is in the store after a grant if it was there, or was granted its place. -/
lemma mem_grant {k' : K} :
    k' ∈ grant cap store k ↔ k' ∈ store ∨ k' = k ∧ store.length < cap := by
  unfold grant
  split
  · next here =>
    refine (or_iff_left_of_imp ?_).symm
    rintro ⟨rfl, _⟩
    exact here
  · split
    · next room => rw [List.mem_append, List.mem_singleton, and_iff_left room]
    · next full => simp [full]

/-- The store only holds keys that were requested. -/
lemma mem_of_mem_grantAll (mem : k ∈ grantAll cap store keys) : k ∈ store ∨ k ∈ keys := by
  induction keys generalizing store with
  | nil => exact Or.inl mem
  | cons k' keys ih =>
    rcases ih mem with here | later
    · rcases mem_grant.mp here with before | ⟨rfl, _⟩
      · exact Or.inl before
      · exact Or.inr (List.mem_cons_self ..)
    · exact Or.inr (List.mem_cons_of_mem _ later)

/-- A key that is in the store, or finds no room, is settled. -/
lemma mem_grantAll_of_settled (settled : k ∈ store ∨ cap ≤ store.length) :
    k ∈ grantAll cap store keys ↔ k ∈ store := by
  induction keys generalizing store with
  | nil => rfl
  | cons k' keys ih =>
    have same : k ∈ grant cap store k' ↔ k ∈ store := by
      rw [mem_grant]
      refine or_iff_left_of_imp ?_
      rintro ⟨rfl, room⟩
      rcases settled with here | full
      · exact here
      · omega
    rw [grantAll_cons, ih, same]
    rw [same]
    refine settled.imp_right fun full => ?_
    rwa [grant_of_full full]

/-- The first request for a key settles what becomes of it. -/
lemma mem_grantAll :
    k ∈ grantAll cap (grant cap store k) keys ↔ k ∈ grant cap store k := by
  apply mem_grantAll_of_settled
  rw [mem_grant]
  by_cases room : store.length < cap
  · exact Or.inl (Or.inr ⟨rfl, room⟩)
  · rw [grant_of_full (Nat.not_lt.mp room)]
    exact Or.inr (Nat.not_lt.mp room)

/-- The requests leave the first `cap` different keys in the store. -/
lemma grantAll_nil : grantAll cap [] keys = keys.eraseDups.take cap := by
  induction keys using List.reverseRecOn with
  | nil => simp [grantAll]
  | append_singleton keys k ih =>
    have mem : k ∈ keys.eraseDups ↔ k ∈ keys := List.mem_eraseDups
    rw [grantAll_append, ih, List.eraseDups_append, List.take_append]
    change grant cap (keys.eraseDups.take cap) k = _
    unfold grant
    by_cases old : k ∈ keys
    · have none : [k].removeAll keys = [] := by simp [List.removeAll, old]
      rw [none, List.eraseDups_nil, List.take_nil, List.append_nil]
      by_cases here : k ∈ keys.eraseDups.take cap
      · rw [if_pos here]
      · -- a key that was left out before found the store full
        have full : ¬ (keys.eraseDups.take cap).length < cap := by
          intro room
          rw [List.length_take] at room
          rw [List.take_of_length_le (by omega)] at here
          exact here (mem.mpr old)
        rw [if_neg here, if_neg full]
    · have one : [k].removeAll keys = [k] := by simp [List.removeAll, old]
      have fresh : k ∉ keys.eraseDups.take cap := fun here =>
        old (mem.mp (List.mem_of_mem_take here))
      rw [one, if_neg fresh, List.length_take, List.eraseDups_cons]
      by_cases room : min cap keys.eraseDups.length < cap
      · obtain ⟨left, eq⟩ : ∃ m, cap - keys.eraseDups.length = m + 1 :=
          ⟨cap - keys.eraseDups.length - 1, by omega⟩
        rw [if_pos room, eq]
        simp
      · have none : cap - keys.eraseDups.length = 0 := by omega
        rw [if_neg room, none, List.take_zero, List.append_nil]

end Admission
