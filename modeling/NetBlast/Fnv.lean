import NetBlast.Hash

/-!
# The FNV hashes and the published ones

`hash.c` differs from the published hashes in two ways: its `char` octets are signed, and `fnv_1a`
calls the multiplying-first `fnv_1_multi`. `Drift` follows, in the lowest octet of the state alone,
how far the signs carry the state off; they cancel exactly if nothing is left of it at the end of
the string (`SignsCancel`). The wrong helper shows as soon as a string is hashed in two pieces,
unless each octet is one on which both orders agree (`orders_agree_iff`). `hashesAsNamed_iff` puts
the two together.
-/

namespace NetBlast

/-- The lowest octet of a state. -/
def low (state : BitVec 64) : Byte :=
  state.setWidth 8

/-- The low octet of a product. -/
lemma low_mul (s t : BitVec 64) : low (s * t) = low s * low t :=
  BitVec.setWidth_mul s t (by decide)

/-- The low octet of an exclusive or. -/
lemma low_xor (s t : BitVec 64) : low (s ^^^ t) = low s ^^^ low t :=
  BitVec.setWidth_xor

/-- The low octet of an unsigned char. -/
lemma low_zeroExtend (c : Byte) : low (c.zeroExtend 64) = c := by
  revert c
  decide

/-- The low octet of a signed char. -/
lemma low_signExtend (c : Byte) : low (c.signExtend 64) = c := by
  revert c
  decide

/-- An octet changes the lowest octet of the state only. -/
lemma xor_zeroExtend (s : BitVec 64) (c : Byte) :
    s ^^^ c.zeroExtend 64 = s + ((low s ^^^ c).zeroExtend 64 - (low s).zeroExtend 64) := by
  have high : (s ^^^ c.zeroExtend 64).toNat / 2 ^ 8 = s.toNat / 2 ^ 8 := by
    rw [BitVec.toNat_xor, Nat.xor_div_two_pow, BitVec.toNat_setWidth]
    rw [Nat.mod_eq_of_lt (by omega), Nat.div_eq_of_lt c.isLt, Nat.xor_zero]
  have lowest : (s ^^^ c.zeroExtend 64).toNat % 2 ^ 8 = (low s ^^^ c).toNat := by
    have octet : (c.zeroExtend 64).toNat % 2 ^ 8 = c.toNat := by
      rw [BitVec.toNat_setWidth]
      omega
    rw [BitVec.toNat_xor, Nat.xor_mod_two_pow, octet, BitVec.toNat_xor, low, BitVec.toNat_setWidth]
  apply BitVec.eq_of_toNat_eq
  have := (low s ^^^ c).isLt
  have lows : (low s).toNat = s.toNat % 2 ^ 8 := BitVec.toNat_setWidth _ _
  rw [BitVec.toNat_add, BitVec.toNat_sub, BitVec.toNat_setWidth, BitVec.toNat_setWidth]
  omega

/-- A negative `char` turns the state over. -/
lemma xor_signExtend (s : BitVec 64) (c : Byte) :
    s ^^^ c.signExtend 64 =
      if c.msb then (low s ^^^ c).zeroExtend 64 + (low s).zeroExtend 64 - 256 - s
      else s + ((low s ^^^ c).zeroExtend 64 - (low s).zeroExtend 64) := by
  cases msb : c.msb with
  | false =>
    rw [BitVec.signExtend_eq_setWidth_of_msb_false msb]
    exact xor_zeroExtend s c
  | true =>
    rw [BitVec.signExtend_eq_not_setWidth_not_of_msb_true msb, ← BitVec.not_xor_right,
      ← BitVec.zeroExtend_eq_setWidth, xor_zeroExtend, ← BitVec.not_xor_right, if_pos rfl]
    generalize low s = l, low s ^^^ c = u
    bv_omega

/-- Of the bits above an octet, sign extension sets all or none. -/
lemma sign_bit (c : Byte) :
    (c.signExtend 64).setWidth 9 =
      (c.zeroExtend 64).setWidth 9 ^^^ if c.msb then 256#9 else 0#9 := by
  revert c
  decide

/-- The prime is odd: it leaves the bit above the octet. -/
lemma prime_bit (x : BitVec 9) :
    (x ^^^ 256#9) * fnvPrime.setWidth 9 = x * fnvPrime.setWidth 9 ^^^ 256#9 := by
  revert x
  decide +kernel

/-- How the state with signed octets stands to the one with unsigned octets: they agree in the
    lowest octet, and the first is the second, or the second negated, plus the gap. -/
structure Drift where
  negated : Bool
  lowest : Byte
  gap : BitVec 64

/-- The drift after one more octet. -/
def Drift.step (d : Drift) (c : Byte) : Drift :=
  let l := d.lowest * low fnvPrime
  let u := l ^^^ c
  let gap := d.gap * fnvPrime
  { negated := d.negated ^^ c.msb
    lowest := u
    gap :=
      match d.negated, c.msb with
      | false, false => gap
      | false, true => u.zeroExtend 64 + u.zeroExtend 64 - 256 - gap
      | true, false =>
        gap + (u.zeroExtend 64 - l.zeroExtend 64) + (u.zeroExtend 64 - l.zeroExtend 64)
      | true, true => l.zeroExtend 64 + l.zeroExtend 64 - 256 - gap }

/-- `d` is the drift from `s` to `t`. -/
structure Drift.Between (d : Drift) (s t : BitVec 64) : Prop where
  low_left : low s = d.lowest
  low_right : low t = d.lowest
  gap : t = (if d.negated then -s else s) + d.gap
  bit : t.setWidth 9 = s.setWidth 9 ^^^ if d.negated then 256 else 0

/-- The state with signed octets after an octet. -/
abbrev signedStep : BitVec 64 → Byte → BitVec 64 :=
  Digest.mulXor fnvPrime (BitVec.signExtend 64)

/-- The state with unsigned octets after an octet. -/
abbrev unsignedStep : BitVec 64 → Byte → BitVec 64 :=
  Digest.mulXor Digest.prime (BitVec.zeroExtend 64)

/-- One octet moves the drift by `Drift.step`. -/
lemma Drift.Between.step {d : Drift} {s t : BitVec 64} (b : d.Between s t) (c : Byte) :
    (d.step c).Between (unsignedStep s c) (signedStep t c) where
  low_left := by
    unfold unsignedStep Digest.mulXor
    rw [low_xor, low_mul, b.low_left, low_zeroExtend]
    rfl
  low_right := by
    unfold signedStep Digest.mulXor
    rw [low_xor, low_mul, b.low_right, low_signExtend]
    rfl
  gap := by
    have hs : low (s * fnvPrime) = d.lowest * low fnvPrime := by rw [low_mul, b.low_left]
    have ht : low (t * fnvPrime) = d.lowest * low fnvPrime := by rw [low_mul, b.low_right]
    unfold unsignedStep signedStep Digest.mulXor Drift.step
    change _ = (if d.negated ^^ c.msb then - ((s * fnvPrime) ^^^ c.zeroExtend 64)
      else ((s * fnvPrime) ^^^ c.zeroExtend 64)) + _
    rw [xor_zeroExtend, xor_signExtend, hs, ht, b.gap]
    dsimp only
    generalize d.lowest * low fnvPrime = l, d.gap = g, (_ ^^^ c : Byte) = u
    cases d.negated <;> cases c.msb <;>
      simp only [Bool.false_xor, Bool.true_xor, Bool.not_true, Bool.not_false, Bool.false_eq_true,
        if_true, if_false] <;> ring
  bit := by
    unfold unsignedStep signedStep Digest.mulXor
    rw [BitVec.setWidth_xor, BitVec.setWidth_xor, BitVec.setWidth_mul _ _ (by decide),
      BitVec.setWidth_mul _ _ (by decide), b.bit, sign_bit]
    change _ = _ ^^^ if d.negated ^^ c.msb then 256#9 else 0#9
    change ((_ ^^^ if d.negated then 256#9 else 0#9) * _) ^^^ _ =
      (_ * fnvPrime.setWidth 9 ^^^ _) ^^^ _
    generalize s.setWidth 9 = s, (c.zeroExtend 64).setWidth 9 = z
    have mul : (s ^^^ if d.negated then 256#9 else 0#9) * fnvPrime.setWidth 9 =
        s * fnvPrime.setWidth 9 ^^^ if d.negated then 256#9 else 0#9 := by
      cases d.negated with
      | false => rw [if_neg Bool.false_ne_true, BitVec.xor_zero, BitVec.xor_zero]
      | true => exact prime_bit s
    have bits : (if d.negated ^^ c.msb then 256#9 else 0#9) =
        (if d.negated then 256#9 else 0#9) ^^^ if c.msb then 256#9 else 0#9 := by
      cases d.negated <;> cases c.msb <;> rfl
    rw [bits]
    exact (congrArg (· ^^^ _) mul).trans (by ac_rfl)

/-- A string moves the drift octet by octet. -/
lemma Drift.Between.foldl {d : Drift} {s t : BitVec 64} (b : d.Between s t) (data : List Byte) :
    (data.foldl Drift.step d).Between (data.foldl unsignedStep s) (data.foldl signedStep t) := by
  induction data generalizing d s t with
  | nil => exact b
  | cons c data ih => exact ih (b.step c)

/-- The states agree exactly if nothing is left of the drift: the bit above the lowest octet tells a
    negated state from a plain one. -/
lemma Drift.Between.eq_iff {d : Drift} {s t : BitVec 64} (b : d.Between s t) :
    t = s ↔ d.negated = false ∧ d.gap = 0#64 := by
  have gap := b.gap
  constructor
  · rintro rfl
    have plain : d.negated = false := by
      by_contra negated
      have bit := b.bit
      rw [Bool.not_eq_false] at negated
      rw [negated, if_pos rfl, ← BitVec.xor_zero (x := t.setWidth 9), BitVec.xor_assoc] at bit
      exact absurd ((BitVec.xor_right_inj _).mp bit) (by decide)
    rw [plain, if_neg Bool.false_ne_true] at gap
    exact ⟨plain, BitVec.self_eq_add_right.mp gap⟩
  · rintro ⟨plain, zero⟩
    rw [plain, zero, if_neg Bool.false_ne_true, BitVec.add_zero] at gap
    exact gap

/-- Reading the octets of `data` as signed numbers has no effect from a state whose lowest octet
    is `l`. -/
def SignsCancel (data : List Byte) (l : Byte) : Prop :=
  let d := data.foldl Drift.step ⟨false, l, 0#64⟩
  d.negated = false ∧ d.gap = 0#64

instance (data : List Byte) (l : Byte) : Decidable (SignsCancel data l) :=
  inferInstanceAs (Decidable (_ ∧ _))

/-- `fnv_1_multi` is the published FNV-1 exactly if the signs cancel. -/
theorem fnv1Multi_eq_iff (data : List Byte) (state : BitVec 64) :
    fnv1Multi data state = Digest.fnv1From state data ↔ SignsCancel data (low state) := by
  have start : Drift.Between ⟨false, low state, 0#64⟩ state state :=
    ⟨rfl, rfl, (BitVec.add_zero state).symm, (BitVec.xor_zero).symm⟩
  exact (start.foldl data).eq_iff

/-- `fnv_1a_multi` is the published FNV-1a exactly if the signs cancel. -/
theorem fnv1aMulti_eq_iff (data : List Byte) (state : BitVec 64) :
    fnv1aMulti data state = Digest.fnv1aFrom state data ↔ SignsCancel data (low state * 0x7b) := by
  have inverse : low state * 0x7b = low (state * 0xce965057aff6957b) := by
    rw [low_mul]
    rfl
  have signed : fnv1aMulti data state = fnv1Multi data (state * 0xce965057aff6957b) * fnvPrime :=
    Digest.foldl_xorMul_eq fnvPrime_mul_inv data state
  have unsigned : Digest.fnv1aFrom state data =
      Digest.fnv1From (state * 0xce965057aff6957b) data * fnvPrime :=
    Digest.foldl_xorMul_eq fnvPrime_mul_inv data state
  rw [inverse, ← fnv1Multi_eq_iff, signed, unsigned]
  exact (Digest.mul_unit_injective fnvPrime_mul_inv).eq_iff

/-- An octet without the sign bit leaves equal states equal. -/
lemma Drift.step_plain (l c : Byte) (plain : c.msb = false) :
    Drift.step ⟨false, l, 0#64⟩ c = ⟨false, l * low fnvPrime ^^^ c, 0#64⟩ := by
  unfold Drift.step
  simp only [plain, Bool.xor_false, BitVec.zero_mul]

/-- Octets below `0x80` have no sign to lose. -/
theorem signsCancel_of_plain {data : List Byte} (plain : ∀ c ∈ data, c.msb = false) (l : Byte) :
    SignsCancel data l := by
  induction data generalizing l with
  | nil => exact ⟨rfl, rfl⟩
  | cons c data ih =>
    rw [List.forall_mem_cons] at plain
    unfold SignsCancel
    rw [List.foldl_cons, Drift.step_plain l c plain.1]
    exact ih plain.2 _

/-- On octets below `0x80` both folds are the published ones. -/
theorem published_of_plain {data : List Byte} (plain : ∀ c ∈ data, c.msb = false)
    (state : BitVec 64) :
    fnv1Multi data state = Digest.fnv1From state data ∧
      fnv1aMulti data state = Digest.fnv1aFrom state data :=
  ⟨(fnv1Multi_eq_iff data state).mpr (signsCancel_of_plain plain _),
    (fnv1aMulti_eq_iff data state).mpr (signsCancel_of_plain plain _)⟩

/-- A drift is negated once more by every octet with the sign bit. -/
lemma negated_foldl (data : List Byte) (d : Drift) :
    (data.foldl Drift.step d).negated = (d.negated ^^ decide (data.countP BitVec.msb % 2 = 1)) := by
  induction data generalizing d with
  | nil => exact (Bool.xor_false _).symm
  | cons c data ih =>
    rw [List.foldl_cons, ih, List.countP_cons]
    change (d.negated ^^ c.msb ^^ _) = _
    have parity := Nat.mod_two_eq_zero_or_one (data.countP BitVec.msb)
    cases c.msb <;> obtain even | odd := parity <;> simp [*, Nat.add_mod]

/-- An odd number of octets from `0x80` on is always noticed. -/
theorem not_signsCancel_of_odd {data : List Byte} (odd : data.countP BitVec.msb % 2 = 1)
    (l : Byte) : ¬ SignsCancel data l := by
  rintro ⟨plain, -⟩
  rw [negated_foldl, odd] at plain
  exact absurd plain Bool.true_eq_false_eq_False

/-- A small number is a small multiple of the prime, modulo 2^64, only if it is zero. -/
lemma small_multiple {x y k : Int} (hx : x.natAbs ≤ 256) (hy : y.natAbs ≤ 256)
    (e : x * 1099511628211 = y + 18446744073709551616 * k) : x = 0 := by
  have zero : k = 0 := by omega
  omega

/-- Multiplying with the prime carries a small number into the high bits. -/
lemma small_mul {x y : Int} (hx : x.natAbs ≤ 256) (hy : y.natAbs ≤ 256)
    (e : BitVec.ofInt 64 x * fnvPrime = BitVec.ofInt 64 y) : x = 0 := by
  have product : BitVec.ofInt 64 (x * 1099511628211) = BitVec.ofInt 64 y := by
    rw [BitVec.ofInt_mul]
    exact e
  have cong := congrArg BitVec.toInt product
  rw [BitVec.toInt_ofInt, BitVec.toInt_ofInt, Int.bmod_eq_bmod_iff_bmod_sub_eq_zero] at cong
  obtain ⟨k, multiple⟩ := Int.dvd_of_bmod_eq_zero cong
  clear e product cong
  push_cast at multiple
  have sum : x * 1099511628211 = y + 18446744073709551616 * k := by omega
  exact small_multiple hx hy sum

/-- A difference of octets in 64 bits is that of the numbers. -/
lemma octet_sub (u l : Byte) :
    u.zeroExtend 64 - l.zeroExtend 64 = BitVec.ofInt 64 (u.toNat - l.toNat) := by
  rw [sub_eq_add_neg (u.toNat : Int), BitVec.ofInt_add, BitVec.ofInt_neg,
    ← BitVec.sub_eq_add_neg, BitVec.ofInt_natCast, BitVec.ofInt_natCast, BitVec.ofNat_toNat,
    BitVec.ofNat_toNat]

/-- A sum of octets less 256 in 64 bits is that of the numbers. -/
lemma octet_add_sub (u l : Byte) :
    u.zeroExtend 64 + l.zeroExtend 64 - 256 = BitVec.ofInt 64 (u.toNat + l.toNat - 256) := by
  rw [sub_eq_add_neg (_ + _ : Int), BitVec.ofInt_add, BitVec.ofInt_add, BitVec.ofInt_natCast,
    BitVec.ofInt_natCast, BitVec.ofNat_toNat, BitVec.ofNat_toNat, BitVec.sub_eq_add_neg]
  rfl

/-- The octet that turns an odd number into its negation. -/
lemma odd_neg (l : Byte) (odd : l.getLsbD 0) : l ^^^ 0xfe#8 = -l := by
  revert l
  decide

/-- An odd octet and its negation add up to 256. -/
lemma neg_add {l : Byte} (odd : l.getLsbD 0) : ((-l).toNat + l.toNat - 256 : Int) = 0 := by
  have ne : l ≠ 0#8 := by
    rintro rfl
    exact absurd odd (by decide)
  have pos : l.toNat ≠ 0 := fun zero => ne (BitVec.eq_of_toNat_eq zero)
  have lt := l.isLt
  rw [BitVec.toNat_neg]
  omega

/-- The two orders agree on an odd state exactly if the octet is zero or negates the state. -/
lemma orders_agree_iff {s : BitVec 64} (odd : (low s).getLsbD 0) (c : Byte) :
    signedStep s c = Digest.xorMul fnvPrime (BitVec.signExtend 64) s c ↔
      c = 0x00#8 ∨ c = 0xfe#8 := by
  unfold signedStep Digest.mulXor Digest.xorMul
  rw [xor_signExtend, xor_signExtend, low_mul]
  generalize low s = l at odd
  set l' := l * low fnvPrime with def_l'
  have lt := l.isLt
  have lt' := l'.isLt
  have ltu := (l ^^^ c).isLt
  have ltu' := (l' ^^^ c).isLt
  -- the octet adds a small number to the state, or to the negated state, on both sides
  cases msb : c.msb with
  | false =>
    rw [if_neg Bool.false_ne_true, if_neg Bool.false_ne_true, add_mul, BitVec.add_right_inj,
      octet_sub, octet_sub]
    constructor
    · intro e
      have same := small_mul (by omega) (by omega) e.symm
      have same : l ^^^ c = l ^^^ 0x00#8 := by
        rw [BitVec.xor_zero]
        exact BitVec.eq_of_toNat_eq (by omega)
      exact .inl ((BitVec.xor_right_inj _).mp same)
    · rintro (rfl | rfl)
      · rw [BitVec.xor_zero, BitVec.xor_zero, sub_self, sub_self]
        rfl
      · exact absurd msb (by decide)
  | true =>
    rw [if_pos rfl, if_pos rfl, sub_mul, BitVec.sub_left_inj, octet_add_sub, octet_add_sub]
    constructor
    · intro e
      have zero := small_mul (by omega) (by omega) e.symm
      have neg : l ^^^ c = l ^^^ 0xfe#8 := by
        rw [odd_neg l odd]
        bv_omega
      exact .inr ((BitVec.xor_right_inj _).mp neg)
    · rintro (rfl | rfl)
      · exact absurd msb (by decide)
      · have odd' : l'.getLsbD 0 := by
          revert l
          decide
        rw [odd_neg l odd, odd_neg l' odd', neg_add odd, neg_add odd']
        rfl

/-- Octets that keep the two orders together keep the state odd. -/
lemma odd_signedStep {s : BitVec 64} (odd : (low s).getLsbD 0) {c : Byte}
    (octet : c = 0x00#8 ∨ c = 0xfe#8) : (low (signedStep s c)).getLsbD 0 := by
  unfold signedStep Digest.mulXor
  rw [low_xor, low_mul, low_signExtend]
  generalize low s = l at odd
  obtain rfl | rfl := octet <;> revert l <;> decide

/-- The two orders agree at every octet of a string exactly if all of them are 0 or 0xfe. -/
lemma orders_agree_all_iff {s : BitVec 64} (odd : (low s).getLsbD 0) (data : List Byte) :
    (∀ xs a ys, data = xs ++ a :: ys →
        signedStep (xs.foldl signedStep s) a =
          Digest.xorMul fnvPrime (BitVec.signExtend 64) (xs.foldl signedStep s) a) ↔
      ∀ c ∈ data, c = 0x00#8 ∨ c = 0xfe#8 := by
  induction data generalizing s with
  | nil => simp
  | cons c data ih =>
    rw [List.forall_mem_cons]
    constructor
    · intro agree
      have octet := (orders_agree_iff odd c).mp (agree [] c data rfl)
      refine ⟨octet, (ih (odd_signedStep odd octet)).mp ?_⟩
      rintro xs a ys rfl
      exact agree (c :: xs) a ys rfl
    · rintro ⟨octet, octets⟩ xs a ys e
      cases xs with
      | nil =>
        obtain ⟨rfl, rfl⟩ := List.cons.inj e
        exact (orders_agree_iff odd c).mpr octet
      | cons b xs =>
        obtain ⟨rfl, rfl⟩ := List.cons.inj e
        exact (ih (odd_signedStep odd octet)).mpr octets xs a ys rfl

/-- `fnv_1a` can be continued with `fnv_1a_multi` on strings of two octets only. -/
lemma fnv1a_append_iff (data : List Byte) :
    (∀ xs ys, data = xs ++ ys → fnv1a data = fnv1aMulti ys (fnv1a xs)) ↔
      ∀ c ∈ data, c = 0x00#8 ∨ c = 0xfe#8 := by
  have inj := (Digest.xorMul_separating fnvPrime_mul_inv signExtend_injective).state
  have odd : (low fnvBasis).getLsbD 0 := by decide
  rw [← orders_agree_all_iff odd]
  exact Digest.foldl_cut_iff inj data fnvBasis

/-- On `data` and from `state`, the functions of `hash.c` compute the published hashes, piece by
    piece as well as at once. -/
structure HashesAsNamed (data : List Byte) (state : BitVec 64) : Prop where
  published_fnv1 : fnv1 data = Digest.fnv1 data
  published_fnv1a : fnv1a data = Digest.fnv1a data
  published_fnv1Multi : fnv1Multi data state = Digest.fnv1From state data
  published_fnv1aMulti : fnv1aMulti data state = Digest.fnv1aFrom state data
  append_fnv1 : ∀ xs ys, data = xs ++ ys → fnv1 data = fnv1Multi ys (fnv1 xs)
  append_fnv1a : ∀ xs ys, data = xs ++ ys → fnv1a data = fnv1aMulti ys (fnv1a xs)
  append_fnv1Multi : ∀ xs ys, data = xs ++ ys →
    fnv1Multi data state = fnv1Multi ys (fnv1Multi xs state)
  append_fnv1aMulti : ∀ xs ys, data = xs ++ ys →
    fnv1aMulti data state = fnv1aMulti ys (fnv1aMulti xs state)

/-- `hash.c` computes the hashes it names exactly on strings of the octets `0x00` and `0xfe`, which
    hide the wrong function in `fnv_1a`, where the signs of the octets cancel. The folds that xor
    first are those that multiply first from the state divided by the prime, and `0x7b` is the
    inverse of its lowest octet. -/
theorem hashesAsNamed_iff (data : List Byte) (state : BitVec 64) :
    HashesAsNamed data state ↔
      (∀ c ∈ data, c = 0x00#8 ∨ c = 0xfe#8) ∧
        SignsCancel data (low fnvBasis) ∧ SignsCancel data (low fnvBasis * 0x7b) ∧
        SignsCancel data (low state) ∧ SignsCancel data (low state * 0x7b) := by
  have basis := fnv1Multi_eq_iff data fnvBasis
  have basisA := fnv1aMulti_eq_iff data fnvBasis
  constructor
  · intro h
    have same : fnv1a data = fnv1aMulti data fnvBasis := h.append_fnv1a [] data rfl
    exact ⟨(fnv1a_append_iff data).mp h.append_fnv1a, basis.mp h.published_fnv1,
      basisA.mp (same.symm.trans h.published_fnv1a),
      (fnv1Multi_eq_iff data state).mp h.published_fnv1Multi,
      (fnv1aMulti_eq_iff data state).mp h.published_fnv1aMulti⟩
  · rintro ⟨octets, cancel, cancelA, cancelState, cancelStateA⟩
    have cut := (fnv1a_append_iff data).mpr octets
    refine ⟨basis.mpr cancel, (cut [] data rfl).trans (basisA.mpr cancelA),
      (fnv1Multi_eq_iff data state).mpr cancelState,
      (fnv1aMulti_eq_iff data state).mpr cancelStateA, ?_, cut, ?_, ?_⟩
    · rintro xs ys rfl
      exact fnv1Multi_append xs ys fnvBasis
    · rintro xs ys rfl
      exact fnv1Multi_append xs ys state
    · rintro xs ys rfl
      exact fnv1aMulti_append xs ys state

/-- An octet above `0x7f` spoils `fnv_1`, and nearly every octet spoils `fnv_1a`. -/
theorem not_hashesAsNamed :
    fnv1 [0x80] ≠ Digest.fnv1 [0x80] ∧ fnv1a [0x61] ≠ Digest.fnv1a [0x61] ∧
      ¬ ∀ data state, HashesAsNamed data state := by
  have sign : fnv1 [0x80] ≠ Digest.fnv1 [0x80] := by decide
  exact ⟨sign, by decide, fun all => sign (all [0x80] 0).published_fnv1⟩

end NetBlast
