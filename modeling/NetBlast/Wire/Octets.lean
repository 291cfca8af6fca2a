import Mathlib.Tactic

/-!
# Octets on a wire

Numbers as octets in either byte order, and a memory that octets are stored to and loaded from.
`ofLe_le` and `ofBe_be` are the round trips of a number; `store_outside` says what a store leaves
alone, and `load_congr` what a load depends on.
-/

namespace Wire

/-- A memory, by address. -/
abbrev Memory := Nat → BitVec 8

section
variable {w : Nat}

/-- The low `n` octets of a number, the least significant one first. -/
def le (n : Nat) (x : BitVec w) : List (BitVec 8) :=
  (List.range n).map fun i => x.extractLsb' (8 * i) 8

/-- The low `n` octets of a number, the most significant one first. -/
def be (n : Nat) (x : BitVec w) : List (BitVec 8) :=
  (le n x).reverse

/-- The number whose octets these are, the least significant one first. -/
def ofLe (w : Nat) (octets : List (BitVec 8)) : BitVec w :=
  octets.foldr (fun octet x => x <<< 8 ||| octet.setWidth w) 0

/-- The number whose octets these are, the most significant one first. -/
def ofBe (w : Nat) (octets : List (BitVec 8)) : BitVec w :=
  ofLe w octets.reverse

/-- A little-endian number has as many octets as asked for. -/
@[simp]
lemma length_le (n : Nat) (x : BitVec w) : (le n x).length = n := by
  unfold le
  rw [List.length_map, List.length_range]

/-- A big-endian number has as many octets as asked for. -/
@[simp]
lemma length_be (n : Nat) (x : BitVec w) : (be n x).length = n := by
  unfold be
  rw [List.length_reverse, length_le]

/-- A bit of a number is a bit of one of its octets. -/
lemma getLsbD_ofLe (octets : List (BitVec 8)) (i : Nat) :
    (ofLe w octets).getLsbD i = (decide (i < w) && (octets.getD (i / 8) 0).getLsbD (i % 8)) := by
  induction octets generalizing i with
  | nil => simp [ofLe]
  | cons octet octets ih =>
    change (ofLe w octets <<< 8 ||| octet.setWidth w).getLsbD i = _
    rw [BitVec.getLsbD_or, BitVec.getLsbD_shiftLeft, BitVec.getLsbD_setWidth]
    by_cases first : i < 8
    · rw [Nat.div_eq_of_lt first, Nat.mod_eq_of_lt first]
      simp [first]
    · have later : i / 8 = (i - 8) / 8 + 1 := by omega
      have same : i % 8 = (i - 8) % 8 := by omega
      rw [ih, later, same, List.getD_cons_succ, BitVec.getLsbD_of_ge octet i (by omega)]
      by_cases inside : i < w
      · simp [first, inside, show i - 8 < w by omega]
      · simp [inside]

/-- A little-endian number is read back. -/
lemma ofLe_le {n : Nat} (fits : w ≤ 8 * n) (x : BitVec w) : ofLe w (le n x) = x := by
  apply BitVec.eq_of_getLsbD_eq
  intro i hi
  have octet : (le n x).getD (i / 8) 0 = x.extractLsb' (8 * (i / 8)) 8 := by
    unfold le
    rw [List.getD_eq_getElem?_getD, List.getElem?_map, List.getElem?_range (by omega)]
    rfl
  rw [getLsbD_ofLe, octet, BitVec.getLsbD_extractLsb', Nat.div_add_mod]
  simp [hi, Nat.mod_lt]

/-- A big-endian number is read back. -/
lemma ofBe_be {n : Nat} (fits : w ≤ 8 * n) (x : BitVec w) : ofBe w (be n x) = x := by
  unfold ofBe be
  rw [List.reverse_reverse, ofLe_le fits]

/-- A number is determined by its octets. -/
lemma be_injective {n : Nat} (fits : w ≤ 8 * n) : Function.Injective (be n : BitVec w → _) :=
  Function.LeftInverse.injective (ofBe_be fits)

end

/-- Store octets from an address on. -/
def store (m : Memory) (off : Nat) (data : List (BitVec 8)) : Memory := fun i =>
  if off ≤ i then (data[i - off]?).getD (m i) else m i

/-- The `n` octets from an address on. -/
def load (m : Memory) (off n : Nat) : List (BitVec 8) :=
  (List.range n).map fun i => m (off + i)

section
variable (m : Memory) {off n : Nat} {data : List (BitVec 8)}

/-- A load has the octets of the frame. -/
lemma getElem?_load {i : Nat} (hi : i < n) : (load m off n)[i]? = some (m (off + i)) := by
  unfold load
  rw [List.getElem?_map, List.getElem?_range hi]
  rfl

/-- A store leaves the octets around it alone. -/
lemma store_outside {i : Nat} (outside : i < off ∨ off + data.length ≤ i) :
    store m off data i = m i := by
  unfold store
  split
  · rw [List.getElem?_eq_none (by omega)]
    rfl
  · rfl

/-- Loads agree where the memories do. -/
lemma load_congr {m m' : Memory} (same : ∀ i, off ≤ i → i < off + n → m' i = m i) :
    load m' off n = load m off n := by
  refine List.map_congr_left fun i mem => ?_
  have hi := List.mem_range.mp mem
  exact same (off + i) (by omega) (by omega)

end

end Wire
