import NetBlast.Probing.Sequence

/-!
# Ring buffers as queues

A ring of `size` cells with a tail index and `count` live cells behind it holds the list
`window cells size tail count`, oldest first. Writing the cell after the last live one appends
(`window_push`), and advancing the tail drops the oldest (`window_pop`). `ringCount` recovers the
number of live cells from the head and tail indices of a ring that is never completely full.
-/

namespace Ring

open Probing

variable {α : Type*}

/-- The live cells of a ring, oldest first. -/
def window (cells : Nat → α) (size tail count : Nat) : List α :=
  (List.range count).map fun i => cells (slotAt size tail i)

/-- A window has as many items as it counts. -/
@[simp] lemma length_window {cells : Nat → α} {size tail count} :
    (window cells size tail count).length = count := by
  simp [window]

/-- Writing the first dead cell appends to the queue. -/
lemma window_push {cells : Nat → α} {size tail count x} (lt : count < size) :
    window (Function.update cells (slotAt size tail count) x) size tail (count + 1) =
      window cells size tail count ++ [x] := by
  unfold window
  rw [List.range_succ, List.map_append, List.map_singleton, Function.update_self]
  congr 1
  apply List.map_congr_left
  intro i hi
  rw [List.mem_range] at hi
  rw [Function.update_of_ne]
  intro e
  have := slotAt_inj (by omega) lt e
  omega

/-- The oldest live cell is the one at the tail. -/
lemma window_pop {cells : Nat → α} {size tail count} (lt : tail < size) :
    window cells size tail (count + 1) =
      cells tail :: window cells size ((tail + 1) % size) count := by
  unfold window
  rw [List.range_succ_eq_map, List.map_cons, slotAt_zero lt, List.map_map]
  congr 1
  apply List.map_congr_left
  intro i _
  simp only [Function.comp_apply, slotAt]
  rw [Nat.mod_add_mod, show tail + 1 + i = tail + i.succ by omega]

/-- The live cells between two indices of a ring. -/
def ringCount (size head tail : Nat) : Nat :=
  (head + (size - tail)) % size

/-- A ring whose head is at its tail is empty. -/
lemma ringCount_self {size tail} (lt : tail < size) : ringCount size tail tail = 0 := by
  unfold ringCount
  rw [show tail + (size - tail) = size by omega, Nat.mod_self]

/-- One slot of a ring is always free. -/
lemma ringCount_lt {size head tail} (lt : tail < size) : ringCount size head tail < size :=
  Nat.mod_lt _ (by omega)

/-- The head is the first dead cell. -/
lemma slotAt_ringCount {size head tail} (hh : head < size) (ht : tail < size) :
    slotAt size tail (ringCount size head tail) = head := by
  unfold slotAt ringCount
  rw [Nat.add_mod_mod, show tail + (head + (size - tail)) = head + size by omega,
    Nat.add_mod_right, Nat.mod_eq_of_lt hh]

/-- Advancing the head of a ring with a spare cell adds one live cell. -/
lemma ringCount_push {size head tail} (room : ringCount size head tail + 1 < size) :
    ringCount size ((head + 1) % size) tail = ringCount size head tail + 1 := by
  unfold ringCount at room ⊢
  rw [Nat.mod_add_mod, show head + 1 + (size - tail) = head + (size - tail) + 1 by omega,
    ← Nat.mod_add_mod, Nat.mod_eq_of_lt room]

/-- Advancing the tail of a ring with a live cell removes one. -/
lemma ringCount_pop {size head tail} (hh : head < size) (ht : tail < size)
    (live : 0 < ringCount size head tail) :
    ringCount size head ((tail + 1) % size) + 1 = ringCount size head tail := by
  have at_head := slotAt_ringCount hh ht
  have lt : ringCount size head tail < size := ringCount_lt ht
  set c := ringCount size head tail with def_c
  unfold ringCount
  have wrap : (tail + 1) % size = if tail + 1 = size then 0 else tail + 1 := by
    split
    · next e => rw [e, Nat.mod_self]
    · rw [Nat.mod_eq_of_lt (by omega)]
  unfold slotAt at at_head
  have head_eq : head = if tail + c < size then tail + c else tail + c - size := by
    rw [← at_head]
    split
    · next small => exact Nat.mod_eq_of_lt small
    · next large =>
      rw [Nat.mod_eq_sub_mod (by omega), Nat.mod_eq_of_lt (by omega)]
  rw [wrap]
  split
  · next e =>
    rw [if_neg (by omega)] at head_eq
    rw [show head + (size - 0) = head + size by omega, Nat.add_mod_right, Nat.mod_eq_of_lt hh]
    omega
  · by_cases small : tail + c < size
    · rw [if_pos small] at head_eq
      rw [show head + (size - (tail + 1)) = (c - 1) + size by omega, Nat.add_mod_right,
        Nat.mod_eq_of_lt (by omega)]
      omega
    · rw [if_neg small] at head_eq
      rw [show head + (size - (tail + 1)) = c - 1 by omega, Nat.mod_eq_of_lt (by omega)]
      omega

end Ring
