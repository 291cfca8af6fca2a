import NetBlast.Digest.Separation
import Mathlib.Data.BitVec

/-!
# Multiply and xor

The two orders in which a digest can combine its state with a symbol: `mulXor` multiplies with a
constant and xors the symbol in, `xorMul` xors first. `fnv1` and `fnv1a` are the published 64-bit
FNV-1 and FNV-1a, where a symbol is an octet and is taken as a number from 0 to 255.
-/

namespace Digest

variable {w : Nat} {α : Type*} {p q : BitVec w} {lift : α → BitVec w}

/-- Multiply, then xor the symbol in. -/
def mulXor (p : BitVec w) (lift : α → BitVec w) (s : BitVec w) (a : α) : BitVec w :=
  (s * p) ^^^ lift a

/-- Xor the symbol in, then multiply. -/
def xorMul (p : BitVec w) (lift : α → BitVec w) (s : BitVec w) (a : α) : BitVec w :=
  (s ^^^ lift a) * p

/-- Multiplying with a unit is injective. -/
lemma mul_unit_injective (unit : p * q = 1#w) : Function.Injective fun s => s * p := by
  intro s t e
  have e' : s * p = t * p := e
  calc s = s * (p * q) := by rw [unit, BitVec.mul_one]
    _ = t * p * q := by rw [← BitVec.mul_assoc, e']
    _ = t := by rw [BitVec.mul_assoc, unit, BitVec.mul_one]

/-- The FNV-1 step is separating. -/
lemma mulXor_separating (unit : p * q = 1#w) (inj : Function.Injective lift) :
    Separating (mulXor p lift) where
  state _ _ _ e := mul_unit_injective unit ((BitVec.xor_left_inj _).mp e)
  symbol _ _ _ e := inj ((BitVec.xor_right_inj _).mp e)

/-- The FNV-1a step is separating. -/
lemma xorMul_separating (unit : p * q = 1#w) (inj : Function.Injective lift) :
    Separating (xorMul p lift) where
  state _ _ _ e := (BitVec.xor_left_inj _).mp (mul_unit_injective unit e)
  symbol _ _ _ e := inj ((BitVec.xor_right_inj _).mp (mul_unit_injective unit e))

/-- The second order from a multiple of the constant is the first order, multiplied once more. -/
lemma foldl_xorMul (word : List α) (s : BitVec w) :
    word.foldl (xorMul p lift) (s * p) = word.foldl (mulXor p lift) s * p := by
  induction word generalizing s with
  | nil => rfl
  | cons a word ih => exact ih (mulXor p lift s a)

/-- The first state of the other order, where the constant has an inverse. -/
lemma foldl_xorMul_eq (unit : p * q = 1#w) (word : List α) (s : BitVec w) :
    word.foldl (xorMul p lift) s = word.foldl (mulXor p lift) (s * q) * p := by
  rw [← foldl_xorMul, BitVec.mul_assoc, BitVec.mul_comm q, unit, BitVec.mul_one]

/-- The 64-bit FNV offset basis. -/
def offsetBasis : BitVec 64 := 14695981039346656037

/-- The 64-bit FNV prime. -/
def prime : BitVec 64 := 1099511628211

/-- FNV-1 from a given state. -/
def fnv1From (state : BitVec 64) (octets : List (BitVec 8)) : BitVec 64 :=
  octets.foldl (mulXor prime (BitVec.zeroExtend 64)) state

/-- FNV-1a from a given state. -/
def fnv1aFrom (state : BitVec 64) (octets : List (BitVec 8)) : BitVec 64 :=
  octets.foldl (xorMul prime (BitVec.zeroExtend 64)) state

/-- The 64-bit FNV-1 hash. -/
def fnv1 (octets : List (BitVec 8)) : BitVec 64 :=
  fnv1From offsetBasis octets

/-- The 64-bit FNV-1a hash. -/
def fnv1a (octets : List (BitVec 8)) : BitVec 64 :=
  fnv1aFrom offsetBasis octets

/-- The hashes of `"a"`, from the published test vectors. -/
example : fnv1 [0x61] = 0xaf63bd4c8601b7be ∧ fnv1a [0x61] = 0xaf63dc4c8601ec8c := by decide

end Digest
