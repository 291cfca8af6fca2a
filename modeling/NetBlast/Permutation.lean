import NetBlast.Hash
import NetBlast.Conshash
import NetBlast.Modular.Progression

/-!
# The preference lists of the backends

`get_offset_skip`, `get_permutation` and the inner search of `populate_lut` in `conshash.c`. The
preference list of a node is an arithmetic progression modulo the prime `TABLE_SIZE`, so it is a
permutation unless its step is 0; `permutation_iff` says for which nodes it is one, and that the
search for a free entry ends for the same nodes.
-/

namespace NetBlast
open Modular

/-- `Node`. -/
abbrev Node := BitVec 32

/-- The octets of a node, in the byte order of the target. -/
def nodeBytes (node : Node) : List Byte :=
  (List.range 4).map fun i => node.extractLsb' (8 * i) 8

/-- `get_offset_skip`: the offset and the skip. -/
def getOffsetSkip (node : Node) : BitVec 64 × BitVec 64 :=
  (fnv1 (nodeBytes node) % BitVec.ofNat 64 (tableSize - 1) + 1,
    fnv1a (nodeBytes node) % BitVec.ofNat 64 tableSize)

/-- `get_permutation`. -/
def getPermutation (node : Node) (j : BitVec 64) : BitVec 64 :=
  let (offset, skip) := getOffsetSkip node
  (offset + j * skip) % BitVec.ofNat 64 tableSize

/-- An entry of the permutation, from the offset and the skip. -/
lemma getPermutation_def (node : Node) (j : BitVec 64) :
    getPermutation node j =
      ((getOffsetSkip node).1 + j * (getOffsetSkip node).2) % BitVec.ofNat 64 tableSize :=
  rfl

/-- The entries are places of the table. -/
lemma getPermutation_lt (node : Node) (j : BitVec 64) :
    (getPermutation node j).toNat < tableSize := by
  unfold getPermutation
  rw [BitVec.toNat_umod]
  exact Nat.mod_lt _ (by decide)

/-- The inner search of `populate_lut` for at most `fuel` rounds: the entry where it ends, and
    `next`. -/
def searchEntry (lut : LookUpTable) (node : Node) :
    Nat → BitVec 64 → Option (Fin tableSize × BitVec 64)
  | 0, _ => none
  | fuel + 1, next =>
    let c := ⟨(getPermutation node next).toNat, getPermutation_lt node next⟩
    if 0 ≤ (lut c).toInt then searchEntry lut node fuel (next + 1) else some (c, next)

/-- The preference list of a node takes every value exactly once. -/
def Permutes (node : Node) : Prop :=
  ∀ c < tableSize, ∃! j, j < tableSize ∧ (getPermutation node (BitVec.ofNat 64 j)).toNat = c

/-- The search ends in every table with a free entry. -/
def SearchEnds (node : Node) : Prop :=
  ∀ lut : LookUpTable, (∃ c, (lut c).toInt < 0) → ∀ next,
    ∃ fuel found, searchEntry lut node fuel next = some found

/-- The size of the table is prime. -/
lemma tableSize_prime : tableSize.Prime := by
  unfold tableSize
  norm_num

/-- The offset does not wrap around. -/
lemma offset_toNat (node : Node) :
    (getOffsetSkip node).1.toNat = (fnv1 (nodeBytes node)).toNat % (tableSize - 1) + 1 := by
  have lt := Nat.mod_lt (fnv1 (nodeBytes node)).toNat (show tableSize - 1 > 0 by decide)
  have small : tableSize = 65537 := rfl
  change (fnv1 (nodeBytes node) % BitVec.ofNat 64 (tableSize - 1) + 1).toNat = _
  rw [BitVec.toNat_add, BitVec.toNat_umod, BitVec.toNat_ofNat, Nat.mod_eq_of_lt (a := tableSize - 1)
    (by decide)]
  exact Nat.mod_eq_of_lt (show _ + 1 < 2 ^ 64 by omega)

/-- The skip does not wrap around. -/
lemma skip_toNat (node : Node) :
    (getOffsetSkip node).2.toNat = (fnv1a (nodeBytes node)).toNat % tableSize := by
  change (fnv1a (nodeBytes node) % BitVec.ofNat 64 tableSize).toNat = _
  rw [BitVec.toNat_umod, BitVec.toNat_ofNat, Nat.mod_eq_of_lt (a := tableSize) (by decide)]

/-- For the numbers below `TABLE_SIZE` nothing overflows. -/
lemma getPermutation_eq (node : Node) {j : Nat} (hj : j < tableSize) :
    (getPermutation node (BitVec.ofNat 64 j)).toNat =
      ((getOffsetSkip node).1.toNat + j * (getOffsetSkip node).2.toNat) % tableSize := by
  have small : tableSize = 65537 := rfl
  have offset : (getOffsetSkip node).1.toNat < tableSize := by
    have := Nat.mod_lt (fnv1 (nodeBytes node)).toNat (show tableSize - 1 > 0 by decide)
    rw [offset_toNat]
    omega
  have skip : (getOffsetSkip node).2.toNat < tableSize := by
    rw [skip_toNat]
    exact Nat.mod_lt _ (by decide)
  have product : j * (getOffsetSkip node).2.toNat ≤ 65537 * 65537 :=
    Nat.mul_le_mul (by omega) (by omega)
  rw [getPermutation_def, BitVec.toNat_umod, BitVec.toNat_add, BitVec.toNat_mul, BitVec.toNat_ofNat,
    BitVec.toNat_ofNat, Nat.mod_eq_of_lt (a := tableSize) (by decide),
    Nat.mod_eq_of_lt (a := j) (by omega), Nat.mod_eq_of_lt (a := j * _) (by omega),
    Nat.mod_eq_of_lt (a := _ + _) (by omega)]

/-- The preference list of a node is a permutation exactly if its hash is no multiple of
    `TABLE_SIZE`. -/
lemma permutes_iff (node : Node) :
    Permutes node ↔ (fnv1a (nodeBytes node)).toNat % tableSize ≠ 0 := by
  rw [← coprime_prime_iff tableSize_prime (Nat.mod_lt _ (by decide)), ← skip_toNat,
    ← progression_perm_iff (a := (getOffsetSkip node).1.toNat) (by decide)]
  unfold Permutes
  refine forall₂_congr fun c _ => existsUnique_congr fun j => ?_
  rw [and_congr_right_iff]
  intro hj
  rw [getPermutation_eq node hj]

/-- The search ends at the latest at a free entry it meets. -/
lemma searchEntry_ends {lut : LookUpTable} {node : Node} (steps : Nat) {next : BitVec 64}
    (free : (lut ⟨_, getPermutation_lt node (next + BitVec.ofNat 64 steps)⟩).toInt < 0) :
    ∃ fuel found, searchEntry lut node fuel next = some found := by
  induction steps generalizing next with
  | zero =>
    simp only [BitVec.add_zero] at free
    exact ⟨1, _, if_neg (Int.not_le.mpr free)⟩
  | succ steps ih =>
    have step : next + BitVec.ofNat 64 (steps + 1) = next + 1 + BitVec.ofNat 64 steps := by
      rw [BitVec.ofNat_add, BitVec.add_comm (BitVec.ofNat 64 steps), BitVec.add_assoc]
      rfl
    simp only [step] at free
    obtain ⟨fuel, found, ends⟩ := ih free
    by_cases taken : 0 ≤ (lut ⟨_, getPermutation_lt node next⟩).toInt
    · exact ⟨fuel + 1, found, (if_pos taken).trans ends⟩
    · exact ⟨1, _, if_neg taken⟩

/-- A permutation meets every free entry. -/
lemma Permutes.searchEnds {node : Node} (perm : Permutes node) : SearchEnds node := by
  rintro lut ⟨c, free⟩ next
  obtain ⟨j, ⟨_, at_c⟩, _⟩ := perm c c.isLt
  apply searchEntry_ends (BitVec.ofNat 64 j - next).toNat
  have meets : next + BitVec.ofNat 64 (BitVec.ofNat 64 j - next).toNat = BitVec.ofNat 64 j := by
    rw [BitVec.ofNat_toNat, BitVec.setWidth_eq, BitVec.add_comm, BitVec.sub_add_cancel]
  simp only [meets, at_c]
  exact free

/-- A search that meets a single entry, which is taken, does not end. -/
lemma searchEntry_stuck {lut : LookUpTable} {node : Node} {c : Fin tableSize}
    (only : ∀ j, (getPermutation node j).toNat = c) (taken : 0 ≤ (lut c).toInt) (fuel : Nat)
    (next : BitVec 64) : searchEntry lut node fuel next = none := by
  induction fuel generalizing next with
  | zero => rfl
  | succ fuel ih =>
    rw [searchEntry]
    have here : (⟨_, getPermutation_lt node next⟩ : Fin tableSize) = c := Fin.ext (only next)
    simp only [here]
    rw [if_pos taken]
    exact ih _

/-- The search of a node with step 0 does not end if its only entry is taken. -/
lemma not_searchEnds {node : Node} (zero : (getOffsetSkip node).2 = 0#64) : ¬ SearchEnds node := by
  intro ends
  let c : Fin tableSize := ⟨_, getPermutation_lt node 0⟩
  have only (j) : (getPermutation node j).toNat = c := by
    have start : c = (getPermutation node 0).toNat := rfl
    rw [start, getPermutation_def, getPermutation_def, zero, BitVec.mul_zero, BitVec.mul_zero]
  let lut : LookUpTable := fun e => if e = c then 0 else -1
  have other : ∃ e, e ≠ c := by
    have : Nontrivial (Fin tableSize) := Fin.nontrivial_iff_two_le.mpr (by decide)
    exact exists_ne c
  obtain ⟨e, ne⟩ := other
  have free : (lut e).toInt < 0 := by
    simp only [lut, if_neg ne]
    decide
  obtain ⟨fuel, found, run⟩ := ends lut ⟨e, free⟩ 0
  rw [searchEntry_stuck only (by simp [lut]) fuel 0] at run
  cases run

/-- The search ends for the nodes whose preference list is a permutation. -/
lemma searchEnds_iff (node : Node) :
    SearchEnds node ↔ (fnv1a (nodeBytes node)).toNat % tableSize ≠ 0 := by
  constructor
  · intro ends zero
    rw [← skip_toNat] at zero
    exact not_searchEnds (BitVec.eq_of_toNat_eq zero) ends
  · intro ne
    exact ((permutes_iff node).mpr ne).searchEnds

/-- For every node, the preference list is a permutation and the search for a free entry ends,
    exactly if the hash of the node is no multiple of `TABLE_SIZE`. -/
theorem permutation_iff (node : Node) :
    Permutes node ∧ SearchEnds node ↔ (fnv1a (nodeBytes node)).toNat % tableSize ≠ 0 := by
  rw [← permutes_iff]
  exact and_iff_left_of_imp Permutes.searchEnds

/-- The preference list of node 10808 has a single entry, and its search may run for ever. -/
theorem not_permutes_10808 : ¬ Permutes 10808 ∧ ¬ SearchEnds 10808 := by
  have multiple : (fnv1a (nodeBytes 10808)).toNat % tableSize = 0 := by decide +kernel
  rw [permutes_iff, searchEnds_iff]
  exact ⟨not_not_intro multiple, not_not_intro multiple⟩

end NetBlast
