import Mathlib.Tactic

/-!
# Blocks of memory

A program gets blocks of memory from an allocator and gives them back. `Extends` says which blocks
it holds on top of the memory it started with; a request adds one (`Extends.request`), giving a block
back takes it away (`Extends.release`), and who holds nothing has left the memory as it was
(`Extends.live_eq`). `alignUp_toNat` is the arithmetic of their sizes.
-/

namespace Storage

/-- The live blocks, by the addresses they begin at, and the number of requests so far. -/
structure Store (κ : Type*) where
  live : Nat → Option κ
  requests : Nat

/-- An allocator. It may refuse a request, and what it returns may depend on all earlier requests,
    but no live block begins there. -/
structure Allocator (κ : Type*) where
  next : Store κ → κ → Option Nat
  fresh : ∀ {s b p}, next s b = some p → s.live p = none

variable {κ : Type*}

/-- A request: the address of the block, if there is one, and the store afterwards. -/
def Allocator.request (A : Allocator κ) (s : Store κ) (b : κ) : Option Nat × Store κ :=
  let p := A.next s b
  let live :=
    match p with
    | none => s.live
    | some p => Function.update s.live p (some b)
  (p, { live, requests := s.requests + 1 })

/-- Give back the block at `p`, which must be the beginning of a block that passes the test. -/
def Store.release (s : Store κ) (p : Nat) (test : κ → Bool) : Option (Store κ) :=
  match s.live p with
  | none => none
  | some b => if test b then some { s with live := Function.update s.live p none } else none

/-- The store has the blocks `l` on top of those of `base`, and no others. -/
structure Extends (base live : Nat → Option κ) (l : List (Nat × κ)) : Prop where
  nodup : (l.map Prod.fst).Nodup
  fresh : ∀ b ∈ l, base b.1 = none
  held : ∀ b ∈ l, live b.1 = some b.2
  rest : ∀ p, p ∉ l.map Prod.fst → live p = base p

variable {A : Allocator κ} {base live : Nat → Option κ} {s : Store κ} {l l' : List (Nat × κ)}

/-- Who holds nothing has left the store as it was. -/
lemma Extends.live_eq (holds : Extends base live []) : live = base :=
  funext fun p => holds.rest p nofun

/-- Nothing has been allocated yet. -/
lemma Extends.refl (base : Nat → Option κ) : Extends base base [] where
  nodup := .nil
  fresh := nofun
  held := nofun
  rest _ _ := rfl

/-- The order of the blocks does not matter. -/
lemma Extends.perm (holds : Extends base live l) (perm : l.Perm l') : Extends base live l' where
  nodup := (perm.map Prod.fst).nodup_iff.mp holds.nodup
  fresh b mem := holds.fresh b (perm.mem_iff.mpr mem)
  held b mem := holds.held b (perm.mem_iff.mpr mem)
  rest p out := holds.rest p fun mem => out ((perm.map Prod.fst).mem_iff.mp mem)

/-- What a request adds. -/
def granted (p : Option Nat) (b : κ) : List (Nat × κ) :=
  p.toList.map fun p => (p, b)

/-- A request adds its block. -/
lemma Extends.request (holds : Extends base s.live l) (b : κ) :
    Extends base (A.request s b).2.live (granted (A.request s b).1 b ++ l) := by
  unfold Allocator.request granted
  dsimp only
  cases next : A.next s b with
  | none => exact holds
  | some p =>
    have free := A.fresh next
    have new : p ∉ l.map Prod.fst := by
      intro mem
      obtain ⟨b', mem', same⟩ := List.mem_map.mp mem
      rw [← same, holds.held b' mem'] at free
      cases free
    constructor
    · exact List.nodup_cons.mpr ⟨new, holds.nodup⟩
    · intro b' mem
      rcases List.mem_cons.mp mem with rfl | mem
      · rw [← holds.rest p new]
        exact free
      · exact holds.fresh b' mem
    · intro b' mem
      dsimp only
      rcases List.mem_cons.mp mem with rfl | mem
      · exact Function.update_self ..
      · have ne : b'.1 ≠ p := fun e => new (List.mem_map.mpr ⟨b', mem, e⟩)
        rw [Function.update_of_ne ne]
        exact holds.held b' mem
    · intro q out
      have ne : q ≠ p := fun e => out (e ▸ List.mem_cons_self ..)
      dsimp only
      rw [Function.update_of_ne ne]
      exact holds.rest q fun mem => out (List.mem_cons_of_mem _ mem)

/-- A held block can be given back, and is not held afterwards. -/
lemma Extends.release {p : Nat} {b : κ} (holds : Extends base s.live ((p, b) :: l))
    (test : κ → Bool) (passes : test b) : ∃ s', s.release p test = some s' ∧ Extends base s'.live l := by
  have here : s.live p = some b := holds.held (p, b) (List.mem_cons_self ..)
  obtain ⟨new, nodup⟩ := List.nodup_cons.mp holds.nodup
  unfold Store.release
  rw [here]
  dsimp only
  rw [if_pos passes]
  refine ⟨_, rfl, nodup, fun b' mem => holds.fresh b' (List.mem_cons_of_mem _ mem), ?_, ?_⟩
  · intro b' mem
    have ne : b'.1 ≠ p := fun e => new (List.mem_map.mpr ⟨b', mem, e⟩)
    dsimp only
    rw [Function.update_of_ne ne]
    exact holds.held b' (List.mem_cons_of_mem _ mem)
  · intro q out
    dsimp only
    by_cases at_p : q = p
    · rw [at_p, Function.update_self]
      exact (holds.fresh (p, b) (List.mem_cons_self ..)).symm
    · rw [Function.update_of_ne at_p]
      refine holds.rest q fun mem => ?_
      rcases List.mem_cons.mp mem with e | mem
      · exact at_p e
      · exact out mem

section Align

variable {w : Nat}

/-- Round up to a multiple of a power of two. -/
def alignUp (x align : BitVec w) : BitVec w :=
  (x + align - 1) &&& ~~~(align - 1)

/-- A mask of high bits rounds down. -/
lemma toNat_and_not_mask (x : BitVec w) {k : Nat} (lt : k < w) :
    (x &&& ~~~(BitVec.ofNat w (2 ^ k) - 1)).toNat = x.toNat / 2 ^ k * 2 ^ k := by
  have pos := Nat.two_pow_pos k
  have pow : 2 ^ k < 2 ^ w := Nat.pow_lt_pow_right (by decide) lt
  have one : (1 : BitVec w).toNat = 1 := BitVec.toNat_one (Nat.zero_lt_of_lt lt)
  have align : (BitVec.ofNat w (2 ^ k)).toNat = 2 ^ k := Nat.mod_eq_of_lt pow
  have mask : (BitVec.ofNat w (2 ^ k) - 1).toNat = 2 ^ k - 1 := by
    rw [BitVec.toNat_sub_of_le (BitVec.le_def.mpr (by omega)), one, align]
  generalize BitVec.ofNat w (2 ^ k) - 1 = m at mask
  have low : (x &&& m).toNat = x.toNat % 2 ^ k := by
    rw [BitVec.toNat_and, mask, Nat.and_two_pow_sub_one_eq_mod]
  have apart : (x &&& ~~~m) &&& (x &&& m) = 0#w := by
    ext i hi
    rw [BitVec.getElem_and, BitVec.getElem_and, BitVec.getElem_and, BitVec.getElem_not,
      BitVec.getElem_zero]
    cases x[i] <;> cases m[i] <;> rfl
  have whole : (x &&& ~~~m) + (x &&& m) = x := by
    rw [BitVec.add_eq_or_of_and_eq_zero _ _ apart]
    ext i hi
    rw [BitVec.getElem_or, BitVec.getElem_and, BitVec.getElem_and, BitVec.getElem_not]
    cases x[i] <;> cases m[i] <;> rfl
  have sum := BitVec.toNat_add_of_and_eq_zero apart
  rw [whole, low] at sum
  have split := Nat.div_add_mod' x.toNat (2 ^ k)
  omega

/-- Rounding up gives the smallest multiple that is large enough, unless it overflows. -/
lemma alignUp_toNat (x : BitVec w) {k : Nat} (lt : k < w) (room : x.toNat + 2 ^ k ≤ 2 ^ w) :
    (alignUp x (BitVec.ofNat w (2 ^ k))).toNat = (x.toNat + 2 ^ k - 1) / 2 ^ k * 2 ^ k := by
  have pos := Nat.two_pow_pos k
  have pow : 2 ^ k < 2 ^ w := Nat.pow_lt_pow_right (by decide) lt
  have one : (1 : BitVec w).toNat = 1 := BitVec.toNat_one (Nat.zero_lt_of_lt lt)
  have align : (BitVec.ofNat w (2 ^ k)).toNat = 2 ^ k := Nat.mod_eq_of_lt pow
  have sum : (x + BitVec.ofNat w (2 ^ k) - 1).toNat = x.toNat + 2 ^ k - 1 := by
    rw [BitVec.sub_eq_add_neg, BitVec.add_assoc, ← BitVec.sub_eq_add_neg, BitVec.toNat_add,
      BitVec.toNat_sub_of_le (BitVec.le_def.mpr (by omega)), one, align,
      Nat.mod_eq_of_lt (by omega), Nat.add_sub_assoc pos]
  unfold alignUp
  rw [toNat_and_not_mask _ lt, sum]

end Align

end Storage
