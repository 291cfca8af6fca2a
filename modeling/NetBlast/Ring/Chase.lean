import Mathlib.Tactic

/-!
# Work items that are stepped until they are answered

A step turns a work item into its answer or into the item to be stepped next. `chase` follows one
item alone to its answer, for a step that decreases a measure. `chase_perm` is the point of it: in a
work list that answers some items and pushes others back, in any order, the answers given and the
answers still owed stay the same multiset, so a queue of interleaved items answers as if each were
alone.
-/

namespace Ring

variable {α β : Type*}

/-- The answer of an item that is stepped until it has one. -/
def chase (step : α → β ⊕ α) (rank : α → Nat) (dec : ∀ {a a'}, step a = .inr a' → rank a' < rank a)
    (a : α) : β :=
  match _e : step a with
  | .inl b => b
  | .inr a' => chase step rank dec a'
termination_by rank a
decreasing_by exact dec _e

variable {step : α → β ⊕ α} {rank : α → Nat}
  {dec : ∀ {a a'}, step a = .inr a' → rank a' < rank a}

/-- A step with a result ends the chase. -/
lemma chase_inl {a b} (e : step a = .inl b) : chase step rank dec a = b := by
  rw [chase]
  split <;> rename_i e' <;> rw [e] at e' <;> cases e'
  rfl

/-- A step without a result lets the chase go on. -/
lemma chase_inr {a a'} (e : step a = .inr a') :
    chase step rank dec a = chase step rank dec a' := by
  rw [chase]
  split <;> rename_i e' <;> rw [e] at e' <;> cases e'
  rfl

/-- Answering the oldest item moves its answer from the owed to the given ones. -/
lemma chase_answer {a b} {given owed : List β} {queue : List α} (e : step a = .inl b) :
    given ++ [b] ++ queue.map (chase step rank dec) ++ owed =
      given ++ (a :: queue).map (chase step rank dec) ++ owed := by
  rw [List.map_cons, chase_inl e]
  simp

/-- Pushing the oldest item back permutes the answers that are owed. -/
lemma chase_perm {a a'} {given owed : List β} {queue : List α} (e : step a = .inr a') :
    (given ++ (queue ++ [a']).map (chase step rank dec) ++ owed).Perm
      (given ++ (a :: queue).map (chase step rank dec) ++ owed) := by
  rw [List.map_append, List.map_singleton, List.map_cons, chase_inr e]
  apply List.Perm.append_right
  apply List.Perm.append_left
  exact List.perm_append_singleton _ _

end Ring
