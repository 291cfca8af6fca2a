import Mathlib.Tactic

/-!
# Machine words and vector intrinsics

The x86 intrinsics the tables are built on. A 512-bit vector is eight 64-bit lanes and a mask
register eight bits; `mm512MaskCmpeqEpu64Mask` compares the lanes its mask selects. The checksum
instruction `_mm_crc32_u64` is a parameter `crc` of everything below that hashes a key; `mmCrc32U64`
is the instruction itself, for running the model on concrete keys.
-/

namespace NetBlast

/-- An octet of a frame or of a stored key. -/
abbrev Byte := BitVec 8

/-- A 512-bit register as eight 64-bit lanes. -/
abbrev M512i := Fin 8 → BitVec 64

/-- `_mm512_set1_epi64`. -/
def mm512Set1Epi64 (x : BitVec 64) : M512i :=
  fun _ => x

/-- `_mm512_setzero_si512`. -/
def mm512SetzeroSi512 : M512i :=
  fun _ => 0

/-- `_mm512_mask_cmpeq_epu64_mask`: bit `l` tells whether lane `l` is selected and equal. -/
def mm512MaskCmpeqEpu64Mask (k1 : BitVec 8) (a b : M512i) : BitVec 8 :=
  (BitVec.ofBoolListLE ((List.finRange 8).map fun l : Fin 8 => k1.getLsbD l && a l == b l)).cast
    (by simp)

/-- `__builtin_ctz`, for the non-zero masks it is defined on. -/
def builtinCtz (m : BitVec 8) : Nat :=
  m.ctz.toNat

/-- `_mm_crc32_u64(0, k)`: the bit-reflected CRC-32C of the eight octets of `k`, not inverted. -/
def mmCrc32U64 (k : BitVec 64) : BitVec 64 :=
  (List.range 64).foldl
    (fun crc i =>
      let bit := crc.getLsbD 0 ^^ k.getLsbD i
      let crc := crc >>> 1
      if bit then crc ^^^ 0x82F63B78 else crc)
    0

/-- CRC-32C of the single octet `0x01`, from the table of the checksum. -/
example : mmCrc32U64 0x0100000000000000 = 0xF26B8303 := by decide +kernel

/-- A bit of the result says whether two lanes are selected and equal. -/
lemma getLsbD_maskCmpeq (k1 : BitVec 8) (a b : M512i) (l : Fin 8) :
    (mm512MaskCmpeqEpu64Mask k1 a b).getLsbD l = (k1.getLsbD l && a l == b l) := by
  unfold mm512MaskCmpeqEpu64Mask
  rw [BitVec.getLsbD_cast, BitVec.getLsbD_ofBoolListLE]
  simp

/-- No bit of the result is set exactly when no selected lane is equal. -/
lemma maskCmpeq_eq_zero_iff {k1 : BitVec 8} {a b : M512i} :
    mm512MaskCmpeqEpu64Mask k1 a b = 0 ↔ ∀ l : Fin 8, k1.getLsbD l → a l ≠ b l := by
  constructor
  · intro e l sel eq
    have bit := getLsbD_maskCmpeq k1 a b l
    rw [e, sel, eq] at bit
    simp at bit
  · intro h
    apply BitVec.eq_of_getLsbD_eq
    intro i hi
    have bit := getLsbD_maskCmpeq k1 a b ⟨i, hi⟩
    rw [bit]
    by_cases sel : k1.getLsbD i
    · simpa [sel] using h ⟨i, hi⟩ sel
    · simp [sel]

/-- The lowest set bit is the first selected lane that is equal. -/
lemma builtinCtz_maskCmpeq {k1 : BitVec 8} {a b : M512i}
    (ne : mm512MaskCmpeqEpu64Mask k1 a b ≠ 0) :
    ∃ l : Fin 8, builtinCtz (mm512MaskCmpeqEpu64Mask k1 a b) = l ∧ k1.getLsbD l ∧ a l = b l ∧
      ∀ l' < l, k1.getLsbD l' → a l' ≠ b l' := by
  set m := mm512MaskCmpeqEpu64Mask k1 a b with def_m
  have lt : m.ctz.toNat < 8 := by
    have := BitVec.ctz_lt_iff_ne_zero.mpr ne
    rw [BitVec.lt_def] at this
    simpa using this
  refine ⟨⟨m.ctz.toNat, lt⟩, rfl, ?_⟩
  have bit := BitVec.getLsbD_true_ctz_of_ne_zero ne
  have here := getLsbD_maskCmpeq k1 a b ⟨m.ctz.toNat, lt⟩
  rw [← def_m, bit] at here
  simp only [Bool.true_eq, Bool.and_eq_true, beq_iff_eq] at here
  refine ⟨here.1, here.2, fun l' hl' sel eq => ?_⟩
  have clear := BitVec.getLsbD_false_of_lt_ctz (x := m) (i := l') hl'
  have there := getLsbD_maskCmpeq k1 a b l'
  rw [← def_m, clear, sel, eq] at there
  simp at there

end NetBlast
