import Mathlib.Tactic
import Mathlib.Data.Nat.ModEq

/-!
# Probe sequences

The slots a linear-probing table visits: `slotAt n h i` is the `i`-th slot of the probe sequence
that starts at home slot `h` in a table of `n` slots. One turn of the sequence visits every slot
exactly once (`slotAt_inj`, `slotAt_surj`). `firstHit p n` is the first probe number below `n` at
which `p` holds, and `search_rule` turns a bounded search loop into it, so that a loop is unfolded
once and never again. The `land` lemmas read the bit masks of a power-of-two table as remainders.
-/

namespace Probing

/-- The `i`-th slot of the probe sequence with home `h` in a table of `n` slots. -/
def slotAt (n h i : Nat) : Nat :=
  (h + i) % n

/-- The sequence stays inside the table. -/
lemma slotAt_lt {n h i} (pos : 0 < n) : slotAt n h i < n :=
  Nat.mod_lt _ pos

/-- The successor of a probe is the next probe. -/
lemma slotAt_succ {n h i} : (slotAt n h i + 1) % n = slotAt n h (i + 1) := by
  unfold slotAt
  rw [Nat.mod_add_mod, Nat.add_assoc]

/-- The sequence goes on from each of its slots. -/
lemma slotAt_add {n h i j} : (slotAt n h i + j) % n = slotAt n h (i + j) := by
  unfold slotAt
  rw [Nat.mod_add_mod, Nat.add_assoc]

/-- A home slot inside the table is its own first probe. -/
lemma slotAt_zero {n h} (lt : h < n) : slotAt n h 0 = h := by
  unfold slotAt
  rw [Nat.add_zero, Nat.mod_eq_of_lt lt]

/-- One turn of the probe sequence visits no slot twice. -/
lemma slotAt_inj {n h i j} (hi : i < n) (hj : j < n) (e : slotAt n h i = slotAt n h j) : i = j := by
  have cong : i ≡ j [MOD n] := Nat.ModEq.add_left_cancel' h e
  have e' : i % n = j % n := cong
  rwa [Nat.mod_eq_of_lt hi, Nat.mod_eq_of_lt hj] at e'

/-- One turn of the probe sequence visits every slot. -/
lemma slotAt_surj {n s} (h : Nat) (hs : s < n) : ∃ i < n, slotAt n h i = s := by
  have pos : 0 < n := by omega
  refine ⟨(s + (n - h % n)) % n, Nat.mod_lt _ pos, ?_⟩
  have hh : h % n < n := Nat.mod_lt _ pos
  unfold slotAt
  rw [Nat.add_mod_mod, ← Nat.mod_add_mod, show h % n + (s + (n - h % n)) = s + n by omega,
    Nat.add_mod_right, Nat.mod_eq_of_lt hs]

/-- The probe that leads from the home slot `h` to slot `s`. -/
lemma slotAt_dist {n h s} (hh : h < n) (hs : s < n) : slotAt n h ((s + n - h) % n) = s := by
  unfold slotAt
  rw [Nat.add_mod_mod, show h + (s + n - h) = s + n by omega, Nat.add_mod_right,
    Nat.mod_eq_of_lt hs]

/-- Where the table and the home slot are aligned to blocks of `b` slots, stepping back inside a
    block is stepping back in the probe sequence. -/
lemma slotAt_sub {n h i b d} (pos : 0 < n) (hn : b ∣ n) (hh : b ∣ h) (le : d ≤ slotAt n h i % b) :
    d ≤ i ∧ slotAt n h (i - d) = slotAt n h i - d := by
  obtain ⟨c, rfl⟩ := hh
  unfold slotAt at *
  have block : (b * c + i) % n % b = i % b := by rw [Nat.mod_mod_of_dvd _ hn, Nat.mul_add_mod]
  have le_i : d ≤ i := by
    rw [block] at le
    exact le.trans (Nat.mod_le _ _)
  have le_slot : d ≤ (b * c + i) % n := le.trans (Nat.mod_le _ _)
  refine ⟨le_i, ?_⟩
  have lt : (b * c + i) % n - d < n := by
    have := Nat.mod_lt (b * c + i) pos
    omega
  have split := Nat.div_add_mod (b * c + i) n
  rw [show b * c + (i - d) = n * ((b * c + i) / n) + ((b * c + i) % n - d) by omega,
    Nat.mul_add_mod, Nat.mod_eq_of_lt lt]

/-- The first probe number below `n` at which `p` holds. -/
def firstHit (p : Nat → Prop) [DecidablePred p] (n : Nat) : Option Nat :=
  (List.range n).find? p

/-- The first hit is a hit that no other one precedes. -/
lemma firstHit_eq_some {p : Nat → Prop} [DecidablePred p] {n i} :
    firstHit p n = some i ↔ i < n ∧ p i ∧ ∀ j < i, ¬ p j := by
  unfold firstHit
  rw [List.find?_range_eq_some]
  simp only [decide_eq_true_eq, List.mem_range, Bool.not_eq_eq_eq_not, Bool.not_true,
    decide_eq_false_iff_not]
  tauto

/-- There is no first hit exactly if nothing hits. -/
lemma firstHit_eq_none {p : Nat → Prop} [DecidablePred p] {n} :
    firstHit p n = none ↔ ∀ i < n, ¬ p i := by
  unfold firstHit
  rw [List.find?_range_eq_none]
  simp

/-- A loop that stops at the first probe satisfying `p`, and gives up after probe `n - 1`, computes
    `firstHit`. The hypotheses are the two unfoldings of the loop body. -/
lemma search_rule {β : Type*} {p : Nat → Prop} [DecidablePred p] {n : Nat}
    (loop hit : Nat → β) (miss : β)
    (stop : ∀ i < n, p i → loop i = hit i)
    (next : ∀ i, i + 1 < n → ¬ p i → loop i = loop (i + 1))
    (last : ∀ i, i + 1 = n → ¬ p i → loop i = miss) (pos : 0 < n) :
    loop 0 = ((firstHit p n).map hit).getD miss := by
  cases found : firstHit p n with
  | none =>
    rw [firstHit_eq_none] at found
    -- every probe fails, so the loop reaches the last one
    have reach : ∀ i, i < n → loop 0 = loop i := by
      intro i
      induction i with
      | zero => intro _; rfl
      | succ i ih =>
        intro hi
        rw [ih (by omega), next i hi (found i (by omega))]
    rw [reach (n - 1) (by omega), last (n - 1) (by omega) (found (n - 1) (by omega))]
    rfl
  | some k =>
    obtain ⟨hk, pk, before⟩ := firstHit_eq_some.mp found
    have reach : ∀ i, i ≤ k → loop 0 = loop i := by
      intro i
      induction i with
      | zero => intro _; rfl
      | succ i ih =>
        intro hi
        rw [ih (by omega), next i (by omega) (before i (by omega))]
    rw [reach k le_rfl, stop k hk pk]
    rfl

/-- Masking with `2 ^ m - 1` is the remainder modulo `2 ^ m`. -/
lemma land_pred {n m x : Nat} (e : n = 2 ^ m) : x &&& (n - 1) = x % n := by
  subst e
  exact Nat.and_two_pow_sub_one_eq_mod x m

/-- Clearing the two lowest bits of a 64-bit word rounds it down to a multiple of four. -/
lemma land_not_three {x : Nat} (lt : x < 2 ^ 64) : x &&& (2 ^ 64 - 4) = x - x % 4 := by
  have split : x - x % 4 = 2 ^ 2 * (x / 2 ^ 2) := by
    have := Nat.div_add_mod x 4
    omega
  rw [split]
  apply Nat.eq_of_testBit_eq
  intro i
  rw [Nat.testBit_and, Nat.testBit_two_pow_mul, Nat.testBit_div_two_pow,
    show (2 ^ 64 - 4 : Nat) = 2 ^ 2 * (2 ^ 62 - 1) by norm_num, Nat.testBit_two_pow_mul,
    Nat.testBit_two_pow_sub_one]
  by_cases small : i < 2
  · simp [show ¬ 2 ≤ i by omega]
  · rw [show i - 2 + 2 = i by omega]
    by_cases large : i < 64
    · simp [show 2 ≤ i by omega, show i - 2 < 62 by omega]
    · have zero : x.testBit i = false :=
        Nat.testBit_lt_two_pow (lt_of_lt_of_le lt (Nat.pow_le_pow_right (by omega) (by omega)))
      simp [zero]

/-- Four divides a power of two that is at least four. -/
lemma four_dvd_pow {n m : Nat} (e : n = 2 ^ m) (le : 2 ≤ m) : 4 ∣ n := by
  subst e
  exact Nat.pow_dvd_pow 2 le

end Probing
