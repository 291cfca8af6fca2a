import NetBlast.L2fwd.Distribution

/-!
# Destination ports

The loop of `main` in `main.c` that fills `l2fwd_dst_ports`. It remembers every other enabled port
until its partner comes. `PairingInv` is the invariant, and `destination_ports_pair` says that the
enabled ports end up in pairs, and the last one with itself if their number is odd.
-/

namespace NetBlast.L2fwd

/-- The variables of the loop. -/
structure Pairing where
  dstPorts : Nat → Nat
  lastPort : Nat
  nbPortsInMask : Nat

/-- In front of the loop. -/
def Pairing.start : Pairing where
  dstPorts _ := 0
  lastPort := 0
  nbPortsInMask := 0

/-- The body of the loop for an enabled port. -/
def pairPort (s : Pairing) (portid : Nat) : Pairing :=
  if s.nbPortsInMask % 2 ≠ 0 then
    { dstPorts := Function.update (Function.update s.dstPorts portid s.lastPort) s.lastPort portid
      lastPort := s.lastPort
      nbPortsInMask := s.nbPortsInMask + 1 }
  else
    { dstPorts := s.dstPorts
      lastPort := portid
      nbPortsInMask := s.nbPortsInMask + 1 }

/-- `l2fwd_dst_ports`. -/
def mapDestinationPorts (eal : Eal) (l2fwdEnabledPortMask : BitVec 32) : Nat → Nat :=
  let s := eal.devs.foldl
    (fun s portid =>
      if l2fwdEnabledPortMask &&& (1 <<< portid) = 0 then s else pairPort s portid) .start
  if s.nbPortsInMask % 2 ≠ 0 then Function.update s.dstPorts s.lastPort s.lastPort
  else s.dstPorts

/-- The ports that are skipped do not count. -/
lemma foldl_pairPort (mask : BitVec 32) (devs : List Nat) (s : Pairing) :
    devs.foldl (fun s portid => if mask &&& (1 <<< portid) = 0 then s else pairPort s portid) s =
      (devs.filter fun portid => mask &&& (1 <<< portid) ≠ 0).foldl pairPort s := by
  induction devs generalizing s with
  | nil => rfl
  | cons portid devs ih =>
    rw [List.foldl_cons, List.filter_cons]
    by_cases off : mask &&& (1 <<< portid) = 0
    · rw [if_pos off, if_neg (by simpa using off), ih]
    · rw [if_neg off, if_pos (by simpa using off), List.foldl_cons, ih]

/-- The ports in `paired` have found their partners. -/
structure Paired (paired : List Nat) (dst : Nat → Nat) : Prop where
  mem : ∀ p ∈ paired, dst p ∈ paired
  back : ∀ p ∈ paired, dst (dst p) = p
  other : ∀ p ∈ paired, dst p ≠ p
  rest : ∀ p ∉ paired, dst p = 0

/-- Two more ports find each other. -/
lemma Paired.pair {paired : List Nat} {dst : Nat → Nat} (pairs : Paired paired dst) {p q : Nat}
    (newP : p ∉ paired) (newQ : q ∉ paired) (ne : p ≠ q) :
    Paired (paired ++ [p, q]) (Function.update (Function.update dst q p) p q) := by
  set dst' := Function.update (Function.update dst q p) p q with def_dst'
  have at_p : dst' p = q := Function.update_self ..
  have at_q : dst' q = p := by
    rw [def_dst', Function.update_of_ne ne.symm, Function.update_self]
  have away {r : Nat} (ne_p : r ≠ p) (ne_q : r ≠ q) : dst' r = dst r := by
    rw [def_dst', Function.update_of_ne ne_p, Function.update_of_ne ne_q]
  have old {r : Nat} (mem : r ∈ paired) : dst' r = dst r :=
    away (ne_of_mem_of_not_mem mem newP) (ne_of_mem_of_not_mem mem newQ)
  have mem_iff {r : Nat} : r ∈ paired ++ [p, q] ↔ r ∈ paired ∨ r = p ∨ r = q := by simp
  refine ⟨fun r mem => ?_, fun r mem => ?_, fun r mem => ?_, fun r new => ?_⟩
  · rcases mem_iff.mp mem with mem | rfl | rfl
    · rw [old mem]
      exact mem_iff.mpr (Or.inl (pairs.mem r mem))
    · rw [at_p]
      exact mem_iff.mpr (Or.inr (Or.inr rfl))
    · rw [at_q]
      exact mem_iff.mpr (Or.inr (Or.inl rfl))
  · rcases mem_iff.mp mem with mem | rfl | rfl
    · rw [old mem, old (pairs.mem r mem), pairs.back r mem]
    · rw [at_p, at_q]
    · rw [at_q, at_p]
  · rcases mem_iff.mp mem with mem | rfl | rfl
    · rw [old mem]
      exact pairs.other r mem
    · rw [at_p]
      exact ne.symm
    · rw [at_q]
      exact ne
  · rw [mem_iff, not_or, not_or] at new
    rw [away new.2.1 new.2.2]
    exact pairs.rest r new.1

/-- The invariant of the loop: all ports in `done` but the last one, if their number is odd, have
    found their partners. -/
inductive PairingInv (done : List Nat) (s : Pairing) : Prop where
  | even :
    s.nbPortsInMask = done.length →
    done.length % 2 = 0 →
    Paired done s.dstPorts →
    PairingInv done s
  | odd (paired : List Nat) :
    s.nbPortsInMask = done.length →
    done.length % 2 = 1 →
    done = paired ++ [s.lastPort] →
    Paired paired s.dstPorts →
    PairingInv done s

/-- The invariant holds before the first port. -/
lemma PairingInv.start : PairingInv [] .start :=
  .even rfl rfl ⟨nofun, nofun, nofun, fun _ _ => rfl⟩

/-- A round of the loop keeps the invariant. -/
lemma PairingInv.step {done : List Nat} {s : Pairing} (inv : PairingInv done s) {portid : Nat}
    (nodup : (done ++ [portid]).Nodup) : PairingInv (done ++ [portid]) (pairPort s portid) := by
  have new : portid ∉ done := fun mem =>
    (List.nodup_append.mp nodup).2.2 portid mem portid (by simp) rfl
  have length : (done ++ [portid]).length = done.length + 1 := by simp
  unfold pairPort
  cases inv with
  | even count parity pairs =>
    rw [count, if_neg (by omega)]
    exact .odd done (by rw [length]) (by omega) rfl pairs
  | odd paired count parity split pairs =>
    rw [count, if_pos (by omega)]
    have grown : done ++ [portid] = paired ++ [s.lastPort, portid] := by
      rw [split, List.append_assoc]
      rfl
    rw [split, List.mem_append, List.mem_singleton, not_or] at new
    have new_last : s.lastPort ∉ paired := fun mem => by
      have nodup' := (List.nodup_append.mp nodup).1
      rw [split] at nodup'
      exact (List.nodup_append.mp nodup').2.2 _ mem _ (by simp) rfl
    refine .even (by rw [length]) (by omega) ?_
    rw [grown]
    exact pairs.pair new_last new.1 (Ne.symm new.2)

/-- The loop over the ports keeps the invariant. -/
lemma PairingInv.run {done : List Nat} {s : Pairing} (inv : PairingInv done s) (todo : List Nat)
    (nodup : (done ++ todo).Nodup) : PairingInv (done ++ todo) (todo.foldl pairPort s) := by
  induction todo generalizing done s with
  | nil => rwa [List.append_nil]
  | cons portid todo ih =>
    rw [← List.singleton_append, ← List.append_assoc] at nodup ⊢
    exact ih (inv.step (List.nodup_append.mp nodup).1) nodup

/-- No enabled port is listed twice. -/
lemma nodup_enabledPorts (eal : Eal) (mask : BitVec 32) : (enabledPorts eal mask).Nodup :=
  (List.nodup_range.filter _).filter _

/-- Every enabled port is paired with an enabled port, which is paired with it. Only the last enabled
    port may be its own partner, and it is exactly if the number of enabled ports is odd. A port
    that is not enabled has destination 0. -/
theorem destination_ports_pair (eal : Eal) (mask : BitVec 32) :
    (∀ p ∈ enabledPorts eal mask, mapDestinationPorts eal mask p ∈ enabledPorts eal mask ∧
      mapDestinationPorts eal mask (mapDestinationPorts eal mask p) = p) ∧
    (∀ p ∈ enabledPorts eal mask, mapDestinationPorts eal mask p = p ↔
      (enabledPorts eal mask).length % 2 = 1 ∧ (enabledPorts eal mask).getLast? = some p) ∧
    ∀ p ∉ enabledPorts eal mask, mapDestinationPorts eal mask p = 0 := by
  have nodup := nodup_enabledPorts eal mask
  have inv := PairingInv.start.run (enabledPorts eal mask) nodup
  have loop := foldl_pairPort mask eal.devs .start
  change _ = (enabledPorts eal mask).foldl pairPort .start at loop
  unfold mapDestinationPorts
  rw [loop]
  rw [List.nil_append] at inv
  generalize (enabledPorts eal mask).foldl pairPort .start = s at inv
  generalize enabledPorts eal mask = ps at inv nodup
  cases inv with
  | even count parity pairs =>
    rw [count, if_neg (by omega)]
    refine ⟨fun p mem => ⟨pairs.mem p mem, pairs.back p mem⟩, fun p mem => ?_, pairs.rest⟩
    exact iff_of_false (pairs.other p mem) fun odd => by omega
  | odd paired count parity split pairs =>
    rw [count, if_pos (by omega)]
    have new_last : s.lastPort ∉ paired := fun mem => by
      rw [split] at nodup
      exact (List.nodup_append.mp nodup).2.2 _ mem _ (by simp) rfl
    have last : ps.getLast? = some s.lastPort := by rw [split, List.getLast?_concat]
    have mem_iff {p : Nat} : p ∈ ps ↔ p ∈ paired ∨ p = s.lastPort := by simp [split]
    have old {p : Nat} (ne : p ≠ s.lastPort) :
        Function.update s.dstPorts s.lastPort s.lastPort p = s.dstPorts p :=
      Function.update_of_ne ne ..
    refine ⟨fun p mem => ?_, fun p mem => ?_, fun p off => ?_⟩
    · rcases mem_iff.mp mem with mem | rfl
      · have there := pairs.mem p mem
        rw [old (ne_of_mem_of_not_mem mem new_last), old (ne_of_mem_of_not_mem there new_last)]
        exact ⟨mem_iff.mpr (Or.inl there), pairs.back p mem⟩
      · rw [Function.update_self, Function.update_self]
        exact ⟨mem_iff.mpr (Or.inr rfl), rfl⟩
    · rw [last, Option.some.injEq]
      rcases mem_iff.mp mem with mem | rfl
      · have ne := ne_of_mem_of_not_mem mem new_last
        rw [old ne]
        exact iff_of_false (pairs.other p mem) fun h => ne h.2.symm
      · exact iff_of_true (Function.update_self ..) ⟨parity, rfl⟩
    · rw [mem_iff, not_or] at off
      rw [old off.2]
      exact pairs.rest p off.1

end NetBlast.L2fwd
