import Mathlib.Tactic

/-!
# Settings from a command line

A command line is a list of options, and a parser takes them one after the other and stops at the
first one that is not valid. Whether an option is valid does not depend on the settings, and each
setting is overwritten by some of the options: `foldlM_isSome_iff` says which command lines are
accepted, and `foldlM_lastOf` that the last option for a setting wins.
-/

namespace Cli

variable {σ α β : Type*} {step : σ → α → Option σ}

/-- A command line is accepted exactly if each of its options is valid. -/
lemma foldlM_isSome_iff {valid : α → Prop} (step_iff : ∀ s a, (step s a).isSome ↔ valid a) (s : σ)
    (l : List α) : (l.foldlM step s).isSome ↔ ∀ a ∈ l, valid a := by
  induction l generalizing s with
  | nil => simp
  | cons a l ih =>
    rw [List.foldlM_cons, List.forall_mem_cons, ← step_iff s a]
    cases step s a with
    | none => simp
    | some s' => simpa using ih s'

/-- What the last option that says something about a setting says, or else the initial value. -/
def lastOf (sets : α → Option β) (l : List α) (initial : β) : β :=
  (l.filterMap sets).getLast?.getD initial

/-- The last option for a setting is sought in the rest, from what the first one sets. -/
lemma lastOf_cons (sets : α → Option β) (a : α) (l : List α) (initial : β) :
    lastOf sets (a :: l) initial = lastOf sets l ((sets a).getD initial) := by
  unfold lastOf
  rw [List.filterMap_cons]
  cases sets a with
  | none => rfl
  | some x =>
    dsimp only
    rw [List.getLast?_cons]
    rfl

/-- If options say something about a setting, one of them says what the last one says. -/
lemma exists_lastOf (sets : α → Option β) {l : List α} {a : α} (mem : a ∈ l) {x : β}
    (given : sets a = some x) (initial : β) : ∃ a' ∈ l, sets a' = some (lastOf sets l initial) := by
  have filtered : x ∈ l.filterMap sets := List.mem_filterMap.mpr ⟨a, mem, given⟩
  have ne := List.ne_nil_of_mem filtered
  unfold lastOf
  rw [List.getLast?_eq_some_getLast ne, Option.getD_some]
  exact List.mem_filterMap.mp (List.getLast_mem ne)

/-- A setting has the value that the last option for it gave it, or the one it had before. -/
lemma foldlM_lastOf {get : σ → β} {sets : α → Option β}
    (step_get : ∀ s a s', step s a = some s' → get s' = (sets a).getD (get s)) {s s' : σ}
    {l : List α} (run : l.foldlM step s = some s') : get s' = lastOf sets l (get s) := by
  induction l generalizing s with
  | nil =>
    cases run
    rfl
  | cons a l ih =>
    rw [List.foldlM_cons] at run
    cases e : step s a with
    | none =>
      rw [e] at run
      cases run
    | some s'' =>
      rw [e] at run
      rw [ih run, step_get s a s'' e, lastOf_cons]

end Cli
