import NetBlast.Intrinsics
import NetBlast.Digest.Fnv

/-!
# The FNV hashes

`hash.c`. The data is a `char` string, and `char` is signed on the target: an octet is sign-extended
to 64 bits before it is combined with the state. `fnv_separating` is what makes a hash tell
neighbouring strings apart: the prime is odd, so that multiplying with it loses nothing.
-/

namespace NetBlast

/-- `FNV_BASIS`. -/
def fnvBasis : BitVec 64 := 0xcbf29ce484222325

/-- `FNV_PRIME`. -/
def fnvPrime : BitVec 64 := 0x100000001b3

/-- `fnv_1_multi`. -/
def fnv1Multi (data : List Byte) (state : BitVec 64) : BitVec 64 :=
  data.foldl (fun state c => (state * fnvPrime) ^^^ c.signExtend 64) state

/-- `fnv_1`. -/
def fnv1 (data : List Byte) : BitVec 64 :=
  fnv1Multi data fnvBasis

/-- `fnv_1a`, which calls `fnv_1_multi` too. -/
def fnv1a (data : List Byte) : BitVec 64 :=
  fnv1Multi data fnvBasis

/-- `fnv_1a_multi`. -/
def fnv1aMulti (data : List Byte) (state : BitVec 64) : BitVec 64 :=
  data.foldl (fun state c => (state ^^^ c.signExtend 64) * fnvPrime) state

/-- Hashing piece by piece is hashing the whole string. -/
lemma fnv1Multi_append (xs ys : List Byte) (state : BitVec 64) :
    fnv1Multi (xs ++ ys) state = fnv1Multi ys (fnv1Multi xs state) :=
  List.foldl_append

/-- A hash of a string in two parts. -/
lemma fnv1aMulti_append (xs ys : List Byte) (state : BitVec 64) :
    fnv1aMulti (xs ++ ys) state = fnv1aMulti ys (fnv1aMulti xs state) :=
  List.foldl_append

/-- The inverse of `fnvPrime` modulo `2 ^ 64`. -/
lemma fnvPrime_mul_inv : fnvPrime * 0xce965057aff6957b = 1#64 := by
  decide

/-- Distinct chars have distinct extensions. -/
lemma signExtend_injective : Function.Injective (BitVec.signExtend 64 : Byte → BitVec 64) := by
  intro a b e
  apply BitVec.eq_of_toInt_eq
  rw [← BitVec.toInt_signExtend_of_le (x := a) (v := 64) (by decide), e,
    BitVec.toInt_signExtend_of_le (by decide)]

/-- A step of the hash loses neither the state nor the octet. -/
lemma fnv_separating :
    Digest.Separating fun (state : BitVec 64) (c : Byte) =>
      (state * fnvPrime) ^^^ c.signExtend 64 :=
  Digest.mulXor_separating fnvPrime_mul_inv signExtend_injective

end NetBlast
