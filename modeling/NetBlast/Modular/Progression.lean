import Mathlib.Data.Nat.ModEq
import Mathlib.Data.Nat.Prime.Basic
import Mathlib.Data.Fintype.EquivFin

/-!
# Arithmetic progressions modulo `n`

The residues `(a + j * s) % n` for `j < n`. They are all the residues, each exactly once, if and
only if the step `s` is coprime to `n`; for a prime `n` every step works that is no multiple of it.
-/

namespace Modular

variable {n a s : Nat}

/-- A coprime step meets no residue twice. -/
lemma progression_inj (coprime : s.Coprime n) {i j : Nat} (hi : i < n) (hj : j < n)
    (e : (a + i * s) % n = (a + j * s) % n) : i = j := by
  have cong : i * s ≡ j * s [MOD n] := Nat.ModEq.add_left_cancel' a e
  exact (Nat.ModEq.cancel_right_of_coprime coprime.symm cong).eq_of_lt_of_lt hi hj

/-- A coprime step meets every residue. -/
lemma progression_surj (coprime : s.Coprime n) {c : Nat} (hc : c < n) :
    ∃ j < n, (a + j * s) % n = c := by
  have pos : 0 < n := by omega
  let residue : Fin n → Fin n := fun j => ⟨(a + j.val * s) % n, Nat.mod_lt _ pos⟩
  have inj : Function.Injective residue := by
    intro i j e
    exact Fin.ext (progression_inj coprime i.isLt j.isLt (congrArg Fin.val e))
  obtain ⟨j, e⟩ := Finite.surjective_of_injective inj ⟨c, hc⟩
  exact ⟨j, j.isLt, congrArg Fin.val e⟩

/-- A progression is a permutation of the residues exactly if its step is coprime to the modulus. -/
lemma progression_perm_iff (one_lt : 1 < n) :
    (∀ c < n, ∃! j, j < n ∧ (a + j * s) % n = c) ↔ s.Coprime n := by
  constructor
  · intro perm
    -- the residue after `a` is met by a multiple of the step that is 1 modulo `n`
    obtain ⟨j, ⟨_, e⟩, _⟩ := perm ((a + 1) % n) (Nat.mod_lt _ (by omega))
    have cong : j * s ≡ 1 [MOD n] := Nat.ModEq.add_left_cancel' a e
    rw [Nat.mul_comm] at cong
    exact Nat.coprime_of_mul_modEq_one j cong
  · intro coprime c hc
    obtain ⟨j, hj, e⟩ := progression_surj coprime hc
    exact ⟨j, ⟨hj, e⟩, fun i hi => progression_inj coprime hi.1 hj (hi.2.trans e.symm)⟩

/-- A residue is coprime to a prime exactly if it is not zero. -/
lemma coprime_prime_iff (prime : n.Prime) (lt : s < n) : s.Coprime n ↔ s ≠ 0 := by
  rw [Nat.coprime_comm, prime.coprime_iff_not_dvd]
  constructor
  · rintro dvd rfl
    exact dvd (dvd_zero n)
  · intro ne dvd
    exact ne (Nat.eq_zero_of_dvd_of_lt dvd lt)

end Modular
