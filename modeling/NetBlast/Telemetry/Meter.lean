import Mathlib.Tactic
import Mathlib.Algebra.BigOperators.Group.Finset.Basic

/-!
# Meters

A meter reads counters one after the other, adds up by how much each has grown since it was read last,
and reports the total from time to time. `Meter.Balanced` says that nothing is reported twice or left
out: the reports add up to the counters as they were read last. The counters live in any commutative
group, so it does not matter whether they wrap around.
-/

namespace Telemetry

/-- A meter over the counters `ι`: what it read last, the total since the last report, and what it has
    reported. -/
structure Meter (ι G : Type*) where
  prev : ι → G
  total : G
  reports : List G

variable {ι G : Type*} [DecidableEq ι] [AddCommGroup G]

namespace Meter

/-- A meter that has read nothing. -/
def start : Meter ι G where
  prev _ := 0
  total := 0
  reports := []

/-- Read a counter. -/
def read (m : Meter ι G) (i : ι) (value : G) : Meter ι G :=
  { m with
    prev := Function.update m.prev i value
    total := m.total + (value - m.prev i) }

/-- Report the total, and start anew. -/
def report (m : Meter ι G) : Meter ι G :=
  { m with total := 0, reports := m.reports ++ [m.total] }

/-- All that was reported and is going to be, against the counters `s` as they were read last. -/
def Balanced (s : Finset ι) (m : Meter ι G) : Prop :=
  m.reports.sum + m.total = ∑ i ∈ s, m.prev i

variable {s : Finset ι} {m : Meter ι G}

omit [DecidableEq ι] in
/-- A meter that has read nothing is balanced. -/
lemma Balanced.start : Balanced s (Meter.start : Meter ι G) := by
  unfold Balanced Meter.start
  simp

/-- A reading keeps a meter balanced. -/
lemma Balanced.read (balanced : Balanced s m) {i : ι} (mem : i ∈ s) (value : G) :
    Balanced s (m.read i value) := by
  unfold Balanced Meter.read at *
  have rest : ∑ j ∈ s, Function.update m.prev i value j = value + ∑ j ∈ s \ {i}, m.prev j :=
    Finset.sum_update_of_mem mem m.prev value
  have whole : ∑ j ∈ s, m.prev j = m.prev i + ∑ j ∈ s \ {i}, m.prev j :=
    Finset.sum_eq_add_sum_sdiff_singleton_of_mem mem m.prev
  rw [rest, ← add_assoc, balanced, whole]
  abel

omit [DecidableEq ι] in
/-- A report keeps a meter balanced. -/
lemma Balanced.report (balanced : Balanced s m) : Balanced s m.report := by
  unfold Balanced Meter.report at *
  rw [List.sum_append, List.sum_singleton, add_zero, balanced]

end Meter

end Telemetry
