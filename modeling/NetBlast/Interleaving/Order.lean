import NetBlast.Interleaving.Schedule

/-!
# The order in which calls take effect

Calls take steps on a shared state in any order, and some step of a call decides it: from there on
its effect is fixed. `order` lists the calls as they are decided. It has no call twice
(`Decides.nodup_order`), it agrees with real time (`Decides.order_before`), and a state that each
deciding step takes through the whole effect of its call has, after any schedule, gone through the
effects in this order, one after the other (`Decides.simulate`).
-/

namespace Interleaving

variable {S C A : Type*} (step : C → S → S) (decided : S → C → Bool)

/-- The calls that a schedule decides, in the order of the deciding steps. -/
def order : List C → S → List C
  | [], _ => []
  | c :: schedule, s =>
    let s' := step c s
    if !decided s c && decided s' c then c :: order schedule s' else order schedule s'

/-- From a state of the invariant on, a decided call stays so, and a step decides no call but its
    own. -/
structure Decides (Inv : S → Prop) : Prop where
  keeps : ∀ {s} c, Inv s → Inv (step c s)
  stays : ∀ {s} c d, Inv s → decided s d → decided (step c s) d
  own : ∀ {s c d}, Inv s → d ≠ c → decided (step c s) d → decided s d

variable {step decided} {Inv : S → Prop} {s : S} {c d : C} {schedule earlier rest : List C}

/-- The order of a longer schedule. -/
lemma order_append :
    order step decided (earlier ++ rest) s =
      order step decided earlier s ++ order step decided rest (run step earlier s) := by
  induction earlier generalizing s with
  | nil => rfl
  | cons c earlier ih =>
    rw [List.cons_append, order, order, ih]
    split <;> rfl

/-- A schedule only decides calls that it has. -/
lemma mem_of_mem_order (mem : c ∈ order step decided schedule s) : c ∈ schedule := by
  induction schedule generalizing s with
  | nil => exact mem
  | cons d schedule ih =>
    rw [order] at mem
    split at mem
    · rcases List.mem_cons.mp mem with rfl | mem
      · exact List.mem_cons_self ..
      · exact List.mem_cons_of_mem _ (ih mem)
    · exact List.mem_cons_of_mem _ (ih mem)

/-- A decided call stays so. -/
lemma Decides.run_stays (calls : Decides step decided Inv) (schedule : List C) (inv : Inv s)
    (done : decided s c) : decided (Interleaving.run step schedule s) c := by
  induction schedule generalizing s with
  | nil => exact done
  | cons d schedule ih => exact ih (calls.keeps d inv) (calls.stays d c inv done)

/-- The calls in the order are those that were decided on the way. -/
lemma Decides.mem_order (calls : Decides step decided Inv) (inv : Inv s) :
    c ∈ order step decided schedule s ↔
      decided s c = false ∧ decided (Interleaving.run step schedule s) c := by
  induction schedule generalizing s with
  | nil =>
    refine iff_of_false List.not_mem_nil fun both => ?_
    exact Bool.false_ne_true (both.1.symm.trans both.2)
  | cons d schedule ih =>
    have inv' := calls.keeps d inv
    have later := ih inv'
    have run : Interleaving.run step (d :: schedule) s =
        Interleaving.run step schedule (step d s) := rfl
    rw [run, order]
    cases after : decided (step d s) c with
    | false =>
      -- the first step does not decide it
      rw [after] at later
      have before : decided s c = false := by
        rw [← Bool.not_eq_true]
        intro done
        exact Bool.false_ne_true (after.symm.trans (calls.stays d c inv done))
      split
      · next deciding =>
        have other : c ≠ d := by
          rintro rfl
          rw [after, Bool.and_false] at deciding
          exact Bool.false_ne_true deciding
        rw [List.mem_cons, or_iff_right other, later, before]
      · rw [later, before]
    | true =>
      have missing : c ∉ order step decided schedule (step d s) := by
        rw [later, after]
        exact fun both => Bool.false_ne_true both.1.symm
      have done := calls.run_stays schedule inv' after
      rw [and_iff_left done]
      split
      · next deciding =>
        rw [List.mem_cons, or_iff_left missing]
        constructor
        · rintro rfl
          exact (Bool.not_eq_true' _).mp (Bool.and_eq_true_iff.mp deciding).1
        · intro before
          by_contra other
          exact Bool.false_ne_true (before.symm.trans (calls.own inv other after))
      · next idle =>
        refine iff_of_false missing fun before => idle ?_
        by_cases other : c = d
        · rw [other] at before after
          rw [before, after]
          rfl
        · exact absurd (before.symm.trans (calls.own inv other after)) Bool.false_ne_true

/-- No call is decided twice. -/
lemma Decides.nodup_order (calls : Decides step decided Inv) (inv : Inv s) :
    (order step decided schedule s).Nodup := by
  induction schedule generalizing s with
  | nil => exact List.nodup_nil
  | cons c schedule ih =>
    have inv' := calls.keeps c inv
    rw [order]
    split
    · next deciding =>
      refine List.nodup_cons.mpr ⟨fun again => ?_, ih inv'⟩
      have before := ((calls.mem_order inv').mp again).1
      exact Bool.false_ne_true (before.symm.trans (Bool.and_eq_true_iff.mp deciding).2)
    · exact ih inv'

/-- A call that is decided before another one takes its first step comes before it. -/
lemma Decides.order_before (calls : Decides step decided Inv) (inv : Inv s)
    (fresh : decided s c = false) (done : decided (Interleaving.run step earlier s) c)
    (new : d ∉ earlier) (mem : d ∈ order step decided (earlier ++ rest) s) :
    [c, d].Sublist (order step decided (earlier ++ rest) s) := by
  rw [order_append] at mem ⊢
  have first : c ∈ order step decided earlier s := (calls.mem_order inv).mpr ⟨fresh, done⟩
  have second : d ∈ order step decided rest (Interleaving.run step earlier s) :=
    (List.mem_append.mp mem).resolve_left fun mem => new (mem_of_mem_order mem)
  exact (List.singleton_sublist.mpr first).append (List.singleton_sublist.mpr second)

/-- Where the deciding steps have the effects of their calls, and the other steps none, a schedule
    has the effects of its order. -/
lemma Decides.simulate (calls : Decides step decided Inv) (Rep : S → A → Prop) (act : A → C → A)
    (effect : ∀ {s a} c, Inv s → Rep s a →
      Rep (step c s) (if !decided s c && decided (step c s) c then act a c else a))
    {a : A} (inv : Inv s) (rep : Rep s a) (schedule : List C) :
    Rep (Interleaving.run step schedule s) ((order step decided schedule s).foldl act a) := by
  induction schedule generalizing s a with
  | nil => exact rep
  | cons c schedule ih =>
    have rep' := effect c inv rep
    have later := ih (calls.keeps c inv) rep'
    rw [order]
    split
    · next deciding =>
      rw [if_pos deciding] at later
      exact later
    · next idle =>
      rw [if_neg idle] at later
      exact later

end Interleaving
