import Mathlib.Tactic

/-!
# Schedules

Calls take steps on a shared state in the order of a schedule. What every step keeps is kept by the
whole schedule (`run_keeps`), and a measure that every step of a call takes from pays for the steps of
that call (`run_pays`), so that it bounds them.
-/

namespace Interleaving

variable {S C : Type*}

/-- The calls take their steps in the order of a schedule. -/
def run (step : C → S → S) (schedule : List C) (s : S) : S :=
  schedule.foldl (fun s c => step c s) s

variable {step : C → S → S} {Inv : S → Prop} {s : S}

/-- What every step keeps is kept by a schedule. -/
lemma run_keeps (keeps : ∀ {s} c, Inv s → Inv (step c s)) (schedule : List C) (inv : Inv s) :
    Inv (run step schedule s) := by
  induction schedule generalizing s with
  | nil => exact inv
  | cons c schedule ih => exact ih (keeps c inv)

/-- If each step takes from the work of its call and adds to no other, the work of a call pays for all
    its steps. -/
lemma run_pays [DecidableEq C] {work : S → C → Nat} (keeps : ∀ {s} c, Inv s → Inv (step c s))
    (pays : ∀ {s} c d, Inv s → work (step c s) d ≤ work s d - if d = c then 1 else 0)
    (schedule : List C) (inv : Inv s) (d : C) :
    work (run step schedule s) d ≤ work s d - schedule.count d := by
  induction schedule generalizing s with
  | nil => exact le_rfl
  | cons c schedule ih =>
    have now := pays c d inv
    have later := ih (keeps c inv)
    refine later.trans ?_
    rw [List.count_cons]
    by_cases own : d = c
    · rw [if_pos own] at now
      rw [if_pos (beq_iff_eq.mpr own.symm)]
      omega
    · rw [if_neg own] at now
      rw [if_neg fun e => own (beq_iff_eq.mp e).symm]
      omega

end Interleaving
