import Mathlib.Data.List.OfFn
import Mathlib.Data.Fin.Tuple.Basic

/-!
# Digests that separate neighbours

A digest folds a step function over the symbols of a word. If the step is injective in the state, a
difference in the state survives every further symbol; if it is injective in the symbol too, two
words that differ in exactly one place have different digests (`Separating.foldl_ne`).
`foldl_cut_iff` tells when a word can be digested by one step function up to any place and by
another one from there on.
-/

namespace Digest

variable {σ α : Type*} {step : σ → α → σ}

/-- A step function that loses neither the state nor the symbol. -/
structure Separating (step : σ → α → σ) : Prop where
  state : ∀ a, Function.Injective (step · a)
  symbol : ∀ s, Function.Injective (step s)

/-- Different states stay different. -/
lemma foldl_injective (inj : ∀ a, Function.Injective (step · a)) (word : List α) :
    Function.Injective fun s => word.foldl step s := by
  induction word with
  | nil => exact Function.injective_id
  | cons a word ih =>
    intro s t e
    exact inj a (ih e)

/-- Words that differ in exactly one place have different digests. -/
lemma Separating.foldl_ne (sep : Separating step) {n : Nat} {x y : Fin n → α} (s : σ)
    (once : ∃! i, x i ≠ y i) : (List.ofFn x).foldl step s ≠ (List.ofFn y).foldl step s := by
  induction n generalizing s with
  | zero => exact once.choose.elim0
  | succ n ih =>
    obtain ⟨i, differ, only⟩ := once
    rw [List.ofFn_succ, List.ofFn_succ, List.foldl_cons, List.foldl_cons]
    cases i using Fin.cases with
    | zero =>
      have rest : (fun j : Fin n => x j.succ) = fun j => y j.succ := by
        funext j
        by_contra ne
        exact absurd (only _ ne) (Fin.succ_ne_zero j)
      rw [rest]
      exact fun e => differ (sep.symbol s (foldl_injective sep.state _ e))
    | succ i =>
      have head : x 0 = y 0 := by
        by_contra ne
        exact Fin.succ_ne_zero i (only _ ne).symm
      rw [head]
      exact ih _ ⟨i, differ, fun j ne => Fin.succ_injective n (only _ ne)⟩

/-- Going over to another step function at any place changes nothing exactly if the two take the
    same step at each symbol. -/
lemma foldl_cut_iff {f g : σ → α → σ} (inj : ∀ a, Function.Injective (g · a)) (word : List α)
    (s : σ) :
    (∀ xs ys, word = xs ++ ys → word.foldl f s = ys.foldl g (xs.foldl f s)) ↔
      ∀ xs a ys, word = xs ++ a :: ys → f (xs.foldl f s) a = g (xs.foldl f s) a := by
  constructor
  · intro cut xs a ys e
    have before := cut xs (a :: ys) e
    have after := cut (xs ++ [a]) ys (by rw [e, List.append_assoc, List.singleton_append])
    rw [List.foldl_append, List.foldl_cons, List.foldl_nil] at after
    exact foldl_injective inj ys (after.symm.trans before)
  · intro same xs ys e
    induction ys generalizing xs with
    | nil => rw [e, List.append_nil, List.foldl_nil]
    | cons a ys ih =>
      have rest := ih (xs ++ [a]) (by rw [e, List.append_assoc, List.singleton_append])
      rw [List.foldl_append, List.foldl_cons, List.foldl_nil, same xs a ys e] at rest
      exact rest

end Digest
