import NetBlast.Permutation
import NetBlast.Draft.Turns
import Mathlib.Data.Int.CardIntervalMod

/-!
# Filling the lookup table

`populate_lut` of `conshash.c`. It writes one fake backend to every entry and returns; below that
`return` stands the fill it is meant to do, in which the nodes take turns and each takes the free
entry that comes first in its preference list. `Filling` is the invariant of that fill: the entries
taken so far are those of a draft, and the cursor of a node has only passed entries that are taken.
`fill_shares` says that the fill ends with the division of the draft, and `fill_fair` that no node
gets two entries more than another.
-/

namespace NetBlast
open Draft

/-- `populate_lut`, to its first `return`. -/
def populateLut (lut : LookUpTable) : LookUpTable :=
  (List.finRange tableSize).foldl (fun lut i => Function.update lut i 0xff) lut

/-- `nodes`. -/
def populateNodes : Fin 3 → Node :=
  ![800, 273, 8255]

section
variable {k : Nat}

/-- The variables of the fill. -/
structure Population (k : Nat) where
  lut : LookUpTable
  next : Fin k → BitVec 64
  n : BitVec 64

/-- The variables before the fill. -/
def Population.start (lut : LookUpTable) : Population k where
  lut := (List.finRange tableSize).foldl (fun lut i => Function.update lut i (-1)) lut
  next _ := 0
  n := 0

variable (nodes : Fin k → Node) (fuel : Nat)

/-- The body of the loop over the nodes, to the end of the search and the stores after it. -/
def takeEntry (s : Population k) (i : Fin k) : Option (Population k) :=
  (searchEntry s.lut (nodes i) fuel (s.next i)).map fun (c, next) =>
    { lut := Function.update s.lut c (BitVec.ofNat 64 i)
      next := Function.update s.next i (next + 1)
      n := s.n + 1 }

/-- The loop over the nodes: the table, if the loop returns it, and the variables otherwise. -/
def populateRound : List (Fin k) → Population k → Option (LookUpTable ⊕ Population k)
  | [], s => some (Sum.inr s)
  | i :: is, s => do
    let s ← takeEntry nodes fuel s i
    if s.n = BitVec.ofNat 64 tableSize then some (Sum.inl s.lut) else populateRound is s

/-- The endless loop, for at most so many rounds. -/
def populateRounds : Nat → Population k → Option LookUpTable
  | 0, _ => none
  | rounds + 1, s => do
    match ← populateRound nodes fuel (List.finRange k) s with
    | Sum.inl lut => some lut
    | Sum.inr s => populateRounds rounds s

/-- The fill of `populate_lut`, with at most `fuel` rounds and searches of at most `fuel` steps. -/
def fillLut (lut : LookUpTable) : Option LookUpTable :=
  populateRounds nodes fuel fuel (Population.start lut)

/-- The entry at a place of the preference list of a node. -/
def preference (i : Fin k) (j : Nat) : Fin tableSize :=
  ⟨_, getPermutation_lt (nodes i) (BitVec.ofNat 64 j)⟩

/-- The nodes take turns in their order. -/
def roundRobin (pos : 0 < k) (t : Nat) : Fin k :=
  ⟨t % k, Nat.mod_lt t pos⟩

/-- The table of a division of the entries. -/
def ownerLut (owner : Fin tableSize → Fin k) : LookUpTable := fun c =>
  BitVec.ofNat 64 (owner c)

end

/-- A loop that writes one value leaves it wherever it has been. -/
lemma foldl_update_const {α β : Type*} [DecidableEq α] (b : β) (l : List α) (f : α → β) (a : α) :
    l.foldl (fun f i => Function.update f i b) f a = if a ∈ l then b else f a := by
  induction l generalizing f with
  | nil => rfl
  | cons i l ih =>
    rw [List.foldl_cons, ih, Function.update_apply]
    by_cases e : a = i <;> simp [e]

/-- Every entry is the fake backend. -/
lemma populateLut_apply (lut : LookUpTable) (c : Fin tableSize) : populateLut lut c = 0xff := by
  unfold populateLut
  rw [foldl_update_const, if_pos (List.mem_finRange c)]

/-- The fill starts with all entries free. -/
lemma start_lut {k : Nat} (lut : LookUpTable) (c : Fin tableSize) :
    (Population.start (k := k) lut).lut c = -1 := by
  unfold Population.start
  dsimp only
  rw [foldl_update_const, if_pos (List.mem_finRange c)]

variable {k : Nat} {nodes : Fin k → Node} {fuel t : Nat} {s : Population k}

/-- The search passes the entries that are taken, to the first that is free. -/
lemma searchEntry_first (lut : LookUpTable) (node : Node) (fuel next steps : Nat)
    (free : (lut ⟨_, getPermutation_lt node (BitVec.ofNat 64 (next + steps))⟩).toInt < 0)
    (taken : ∀ j < steps,
      0 ≤ (lut ⟨_, getPermutation_lt node (BitVec.ofNat 64 (next + j))⟩).toInt)
    (enough : steps < fuel) :
    searchEntry lut node fuel (BitVec.ofNat 64 next) =
      some (⟨_, getPermutation_lt node (BitVec.ofNat 64 (next + steps))⟩,
        BitVec.ofNat 64 (next + steps)) := by
  induction steps generalizing next fuel with
  | zero =>
    obtain ⟨fuel, rfl⟩ := Nat.exists_eq_add_of_lt enough
    rw [searchEntry]
    exact if_neg (Int.not_le.mpr free)
  | succ steps ih =>
    obtain ⟨fuel, rfl⟩ : ∃ f, fuel = f + 1 := ⟨fuel - 1, by omega⟩
    have here := taken 0 (by omega)
    have shift : next + (steps + 1) = next + 1 + steps := by omega
    simp only [shift] at free ⊢
    rw [searchEntry]
    refine (if_pos here).trans ?_
    have cursor : BitVec.ofNat 64 next + 1 = BitVec.ofNat 64 (next + 1) := by
      rw [BitVec.ofNat_add]
      rfl
    rw [cursor]
    refine ih fuel (next + 1) free (fun j hj => ?_) (by omega)
    have later := taken (j + 1) (by omega)
    have shift' : next + (j + 1) = next + 1 + j := by omega
    simp only [shift'] at later
    exact later

/-- A number of a node is not negative as an entry. -/
lemma toInt_owner (small : k ≤ tableSize) (i : Fin k) : 0 ≤ (BitVec.ofNat 64 i.val).toInt := by
  have lt := i.isLt
  have size : tableSize = 65537 := rfl
  have word : (BitVec.ofNat 64 i.val).toNat = i := by
    rw [BitVec.toNat_ofNat]
    exact Nat.mod_eq_of_lt (by omega)
  rw [BitVec.toInt_eq_toNat_of_lt (by omega)]
  exact Int.natCast_nonneg _

/-- The variables after `t` turns: the entries taken are those of a draft, each with the number of
    its node, and the cursor of a node has only passed entries that are taken. -/
structure Filling (nodes : Fin k → Node) (pos : 0 < k) (pick : Nat → Fin tableSize) (t : Nat)
    (s : Population k) : Prop where
  n : s.n = BitVec.ofNat 64 t
  picks : Picks (preference nodes) (roundRobin pos) pick t
  owned : ∀ t' < t, s.lut (pick t') = BitVec.ofNat 64 (roundRobin pos t')
  free : ∀ c, (∀ t' < t, pick t' ≠ c) → s.lut c = -1
  next : ∀ i, ∃ j ≤ tableSize, s.next i = BitVec.ofNat 64 j ∧
    ∀ j' < j, 0 ≤ (s.lut (preference nodes i j')).toInt

section
variable {pos : 0 < k} {pick : Nat → Fin tableSize}

/-- The invariant holds before the first turn. -/
lemma Filling.start (nodes : Fin k → Node) (pos : 0 < k) (lut : LookUpTable) :
    Filling nodes pos (fun _ => ⟨0, by decide⟩) 0 (Population.start lut) where
  n := rfl
  picks := Picks.init
  owned := nofun
  free c _ := start_lut lut c
  next _ := ⟨0, by omega, rfl, nofun⟩

/-- An entry is taken exactly if it is not negative. -/
lemma Filling.taken_iff (filling : Filling nodes pos pick t s) (small : k ≤ tableSize)
    {c : Fin tableSize} : 0 ≤ (s.lut c).toInt ↔ ∃ t' < t, pick t' = c := by
  constructor
  · intro le
    by_contra none
    push Not at none
    rw [filling.free c none] at le
    exact absurd le (by decide)
  · rintro ⟨t', ht', rfl⟩
    rw [filling.owned t' ht']
    exact toInt_owner small _

/-- The search of a node ends at the first free place of its preference list. -/
lemma Filling.search (filling : Filling nodes pos pick t s) (small : k ≤ tableSize) {i : Fin k}
    (perm : Permutes (nodes i)) (lt : t < tableSize) (enough : tableSize < fuel) :
    ∃ j < tableSize,
      searchEntry s.lut (nodes i) fuel (s.next i) =
        some (preference nodes i j, BitVec.ofNat 64 j) ∧
      (∀ t' < t, pick t' ≠ preference nodes i j) ∧
      ∀ j' < j, 0 ≤ (s.lut (preference nodes i j')).toInt := by
  obtain ⟨c, is_free⟩ := exists_free pick (lt.trans_eq (Fintype.card_fin _).symm)
  obtain ⟨j₀, ⟨hj₀, at_c⟩, _⟩ := perm c c.isLt
  have free₀ : ¬ 0 ≤ (s.lut (preference nodes i j₀)).toInt := by
    rw [filling.taken_iff small]
    rintro ⟨t', ht', e⟩
    exact is_free t' ht' (e.trans (Fin.ext at_c))
  have exists_place : ∃ j, ¬ 0 ≤ (s.lut (preference nodes i j)).toInt := ⟨j₀, free₀⟩
  let j := Nat.find exists_place
  have le : j ≤ j₀ := Nat.find_min' exists_place free₀
  have taken (j') (hj' : j' < j) : 0 ≤ (s.lut (preference nodes i j')).toInt :=
    not_not.mp (Nat.find_min exists_place hj')
  have free : ¬ 0 ≤ (s.lut (preference nodes i j)).toInt := Nat.find_spec exists_place
  obtain ⟨start, _, at_start, passed⟩ := filling.next i
  have start_le : start ≤ j := by
    by_contra gt
    exact free (passed j (by omega))
  refine ⟨j, by omega, ?_, fun t' ht' e => free ((filling.taken_iff small).mpr ⟨t', ht', e⟩), taken⟩
  have place : start + (j - start) = j := by omega
  have found := searchEntry_first s.lut (nodes i) fuel start (j - start)
  simp only [place] at found
  rw [at_start]
  exact found (Int.not_le.mp free) (fun j' hj' => taken (start + j') (by omega)) (by omega)

/-- The stores of a turn add it to the draft. -/
lemma Filling.store (filling : Filling nodes pos pick t s) (small : k ≤ tableSize) {i : Fin k}
    (its_turn : i = roundRobin pos t) {j : Nat} (lt : j < tableSize)
    (free : ∀ t' < t, pick t' ≠ preference nodes i j)
    (taken : ∀ j' < j, 0 ≤ (s.lut (preference nodes i j')).toInt) :
    Filling nodes pos (Function.update pick t (preference nodes i j)) (t + 1)
      { lut := Function.update s.lut (preference nodes i j) (BitVec.ofNat 64 i)
        next := Function.update s.next i (BitVec.ofNat 64 j + 1)
        n := s.n + 1 } where
  n := by
    rw [filling.n, BitVec.ofNat_add]
    rfl
  picks := by
    subst its_turn
    exact filling.picks.step free fun j' hj' => (filling.taken_iff small).mp (taken j' hj')
  owned t' ht' := by
    dsimp only
    rcases Nat.lt_succ_iff_lt_or_eq.mp ht' with before | rfl
    · rw [Function.update_of_ne before.ne, Function.update_of_ne (free t' before),
        filling.owned t' before]
    · rw [Function.update_self, Function.update_self, its_turn]
  free c none := by
    dsimp only
    have last := none t (by omega)
    rw [Function.update_self] at last
    rw [Function.update_of_ne last.symm]
    refine filling.free c fun t' ht' => ?_
    have earlier := none t' (by omega)
    rwa [Function.update_of_ne ht'.ne] at earlier
  next i' := by
    have kept (c) (le : 0 ≤ (s.lut c).toInt) :
        0 ≤ (Function.update s.lut (preference nodes i j) (BitVec.ofNat 64 i) c).toInt := by
      rw [Function.update_apply]
      split
      · exact toInt_owner small i
      · exact le
    dsimp only
    by_cases e : i' = i
    · rw [e, Function.update_self]
      refine ⟨j + 1, by omega, by rw [BitVec.ofNat_add]; rfl, fun j' hj' => ?_⟩
      rcases Nat.lt_succ_iff_lt_or_eq.mp hj' with before | rfl
      · exact kept _ (taken j' before)
      · rw [Function.update_self]
        exact toInt_owner small i
    · rw [Function.update_of_ne e]
      obtain ⟨j', hj', at_next, passed⟩ := filling.next i'
      exact ⟨j', hj', at_next, fun j'' hj'' => kept _ (passed j'' hj'')⟩

/-- A turn ends, and the fill is a draft with one more turn. -/
lemma Filling.takeEntry (filling : Filling nodes pos pick t s) (small : k ≤ tableSize) {i : Fin k}
    (its_turn : i = roundRobin pos t) (perm : Permutes (nodes i)) (lt : t < tableSize)
    (enough : tableSize < fuel) :
    ∃ s' pick', takeEntry nodes fuel s i = some s' ∧ Filling nodes pos pick' (t + 1) s' := by
  obtain ⟨j, hj, search, free, taken⟩ := filling.search small perm lt enough
  refine ⟨_, _, ?_, filling.store small its_turn hj free taken⟩
  rw [NetBlast.takeEntry, search]
  rfl

/-- The table of a draft that is complete is the table of its division. -/
lemma Filling.shares (filling : Filling nodes pos pick tableSize s) :
    ∃ owner, Shares (preference nodes) (roundRobin pos) owner ∧ s.lut = ownerLut owner := by
  have card : Fintype.card (Fin tableSize) = tableSize := Fintype.card_fin _
  have picks : Picks (preference nodes) (roundRobin pos) pick (Fintype.card (Fin tableSize)) := by
    rw [card]
    exact filling.picks
  choose turn_of turn_lt at_turn using picks.surj
  refine ⟨fun c => roundRobin pos (turn_of c), ⟨pick, picks, fun t ht => ?_⟩, ?_⟩
  · exact congrArg (roundRobin pos) (picks.inj (turn_lt _) ht (at_turn (pick t)))
  · funext c
    have lt := turn_lt c
    rw [card] at lt
    conv_lhs => rw [← at_turn c]
    exact filling.owned _ lt

/-- A pass over the nodes returns the table of the division, or adds a turn for every node. -/
lemma Filling.round {l : List (Fin k)} (filling : Filling nodes pos pick t s) (small : k ≤ tableSize)
    (perm : ∀ i, Permutes (nodes i)) (enough : tableSize < fuel) (lt : t < tableSize)
    (order : ∀ m (hm : m < l.length), l[m] = roundRobin pos (t + m)) :
    (∃ owner, Shares (preference nodes) (roundRobin pos) owner ∧
      populateRound nodes fuel l s = some (Sum.inl (ownerLut owner))) ∨
    (∃ s' pick', populateRound nodes fuel l s = some (Sum.inr s') ∧
      Filling nodes pos pick' (t + l.length) s' ∧ t + l.length < tableSize) := by
  induction l generalizing t s pick with
  | nil => exact Or.inr ⟨s, pick, rfl, filling, lt⟩
  | cons i l ih =>
    have its_turn : i = roundRobin pos t := order 0 (by simp)
    obtain ⟨s', pick', turn, filling'⟩ := filling.takeEntry small its_turn (perm i) lt enough
    have size : tableSize = 65537 := rfl
    rw [populateRound, turn, Option.bind_eq_bind, Option.bind_some, filling'.n]
    by_cases last : t + 1 = tableSize
    · rw [last] at filling' ⊢
      obtain ⟨owner, shares, lut⟩ := filling'.shares
      rw [if_pos rfl, lut]
      exact Or.inl ⟨owner, shares, rfl⟩
    · have more : BitVec.ofNat 64 (t + 1) ≠ BitVec.ofNat 64 tableSize := by
        intro e
        have e := congrArg BitVec.toNat e
        rw [BitVec.toNat_ofNat, BitVec.toNat_ofNat] at e
        omega
      rw [if_neg more, List.length_cons, Nat.add_comm l.length 1, ← Nat.add_assoc]
      refine ih filling' (by omega) fun m hm => ?_
      have later := order (m + 1) (by rw [List.length_cons]; omega)
      rw [List.getElem_cons_succ] at later
      rw [later, Nat.add_right_comm, Nat.add_assoc]

/-- The rounds end with the table of the division. -/
lemma Filling.rounds (filling : Filling nodes pos pick t s) (rounds : Nat) (small : k ≤ tableSize)
    (perm : ∀ i, Permutes (nodes i)) (enough : tableSize < fuel) (lt : t < tableSize)
    (whole : t % k = 0) (le : tableSize ≤ t + rounds) :
    ∃ owner, Shares (preference nodes) (roundRobin pos) owner ∧
      populateRounds nodes fuel rounds s = some (ownerLut owner) := by
  induction rounds generalizing t s pick with
  | zero => omega
  | succ rounds ih =>
    rw [populateRounds]
    have order (m) (hm : m < (List.finRange k).length) :
        (List.finRange k)[m] = roundRobin pos (t + m) := by
      rw [List.length_finRange] at hm
      apply Fin.ext
      rw [List.getElem_finRange]
      unfold roundRobin
      change m = (t + m) % k
      rw [Nat.add_mod, whole, Nat.zero_add, Nat.mod_mod, Nat.mod_eq_of_lt hm]
    rcases filling.round small perm enough lt order with
      ⟨owner, shares, ends⟩ | ⟨s', pick', goes_on, filling', lt'⟩
    · rw [ends]
      exact ⟨owner, shares, rfl⟩
    · rw [goes_on]
      rw [List.length_finRange] at filling' lt'
      refine ih filling' lt' ?_ (by omega)
      rw [Nat.add_mod_right, whole]

end

/-- The fill ends with the table of the division. -/
lemma fill_ends (nodes : Fin k → Node) (pos : 0 < k) (small : k ≤ tableSize)
    (perm : ∀ i, Permutes (nodes i)) (lut : LookUpTable) :
    ∃ owner, Shares (preference nodes) (roundRobin pos) owner ∧
      ∀ fuel > tableSize, fillLut nodes fuel lut = some (ownerLut owner) := by
  have run (fuel) (enough : fuel > tableSize) :=
    (Filling.start nodes pos lut).rounds fuel small perm enough (by decide) (Nat.zero_mod k)
      (by omega)
  obtain ⟨owner, shares, _⟩ := run (tableSize + 1) (by omega)
  refine ⟨owner, shares, fun fuel enough => ?_⟩
  obtain ⟨owner', shares', ends⟩ := run fuel enough
  rw [shares.unique shares']
  exact ends

/-- The three backends have permutations. -/
lemma populateNodes_permute (i : Fin 3) : Permutes (populateNodes i) := by
  rw [permutes_iff]
  revert i
  decide +kernel

/-- The fill ends, and with the table of the only division in which every node, in its turn, takes
    the free entry that comes first in its preference list. -/
theorem fill_shares (nodes : Fin k → Node) (pos : 0 < k) (small : k ≤ tableSize)
    (perm : ∀ i, Permutes (nodes i)) (lut : LookUpTable) :
    ∃ owner, (∀ owner', Shares (preference nodes) (roundRobin pos) owner' ↔ owner' = owner) ∧
      ∀ fuel > tableSize, fillLut nodes fuel lut = some (ownerLut owner) := by
  obtain ⟨owner, shares, ends⟩ := fill_ends nodes pos small perm lut
  refine ⟨owner, fun owner' => ⟨fun shares' => shares'.unique shares, ?_⟩, ends⟩
  rintro rfl
  exact shares

/-- The fill with the nodes of `populate_lut`. -/
theorem fill_shares_populateNodes :
    ∃ owner, (∀ owner', Shares (preference populateNodes) (roundRobin (by decide)) owner' ↔
        owner' = owner) ∧
      ∀ fuel > tableSize, fillLut populateNodes fuel (fun _ => 0) = some (ownerLut owner) :=
  fill_shares populateNodes (by decide) (by decide) populateNodes_permute fun _ => 0

/-- Every entry gets the number of a node, and a node gets as many entries as it had turns: with `k`
    nodes, `TABLE_SIZE / k` or one more. -/
theorem fill_fair (nodes : Fin k → Node) (pos : 0 < k) (small : k ≤ tableSize)
    (perm : ∀ i, Permutes (nodes i)) (lut : LookUpTable) {fuel : Nat} (enough : fuel > tableSize) :
    ∃ filled, fillLut nodes fuel lut = some filled ∧
      (∀ c, ∃ i : Fin k, filled c = BitVec.ofNat 64 i) ∧
      ∀ i : Fin k, (Finset.univ.filter fun c => filled c = BitVec.ofNat 64 i).card =
        tableSize / k + if i.val < tableSize % k then 1 else 0 := by
  obtain ⟨owner, shares, ends⟩ := fill_ends nodes pos small perm lut
  refine ⟨_, ends fuel enough, fun c => ⟨owner c, rfl⟩, fun i => ?_⟩
  have size : tableSize = 65537 := rfl
  have same (c) : ownerLut owner c = BitVec.ofNat 64 i ↔ owner c = i := by
    have lt := i.isLt
    have lt' := (owner c).isLt
    constructor
    · intro e
      have e := congrArg BitVec.toNat e
      unfold ownerLut at e
      rw [BitVec.toNat_ofNat, BitVec.toNat_ofNat] at e
      exact Fin.ext (by omega)
    · rintro rfl
      rfl
  have turns : ((Finset.range tableSize).filter fun t => roundRobin pos t = i) =
      (Finset.range tableSize).filter fun t => t ≡ i [MOD k] := by
    refine Finset.filter_congr fun t _ => ?_
    rw [Fin.ext_iff, Nat.ModEq, Nat.mod_eq_of_lt i.isLt]
    rfl
  rw [Finset.filter_congr fun c _ => same c, shares.card_eq i, Fintype.card_fin,
    turns, ← Nat.count_eq_card_filter_range, Nat.count_modEq_card _ pos, Nat.mod_eq_of_lt i.isLt]

/-- The shares of the nodes of `populate_lut`. -/
theorem fill_fair_populateNodes :
    ∃ filled, fillLut populateNodes (tableSize + 1) (fun _ => 0) = some filled ∧
      (∀ c, ∃ i : Fin 3, filled c = BitVec.ofNat 64 i) ∧
      ∀ i : Fin 3, (Finset.univ.filter fun c => filled c = BitVec.ofNat 64 i).card =
        tableSize / 3 + if i.val < tableSize % 3 then 1 else 0 :=
  fill_fair populateNodes (by decide) (by decide) populateNodes_permute (fun _ => 0)
    (Nat.lt_succ_self _)

end NetBlast
