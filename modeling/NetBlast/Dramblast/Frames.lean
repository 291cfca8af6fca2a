import NetBlast.Dramblast.Map

/-!
# Processing a batch of frames

`dramblast_process_frames` looks a whole batch up in the table as it is before the batch, then
inserts the absent keys in the order in which their lookups completed. `FramesInv` is the invariant
of that loop: the table represents a map that extends the one before the batch by bindings to
backends, and every answer written is the binding of its key or a justified refusal.
`processFrames_spec` is what a call does. From it follow when lookup and insert agree on a full
table (`table_full_agrees_iff`) and that a flow is answered the same way for ever (`affinity`).
-/

namespace NetBlast.Dramblast
open Probing

/-- `args[i].id = i`. -/
def WellNumbered (args : List DramblastArg) : Prop :=
  ∀ i (hi : i < args.length), args[i].id.toNat = i

/-- No key of the batch is the empty marker. -/
def NonZero (args : List DramblastArg) : Prop :=
  ∀ arg ∈ args, arg.k ≠ 0

/-- `args[result->id].k`. -/
def clientHash (args : List DramblastArg) (result : DramblastResult) : BitVec 64 :=
  (args.getD result.id.toNat { k := 0, id := 0 }).k

variable {crc : BitVec 64 → BitVec 64} {id : Nat} {backends : LookUpTable}

/-- The id of a result leads back to its argument. -/
lemma WellNumbered.getD {args} (wn : WellNumbered args) {arg} (mem : arg ∈ args) :
    args.getD arg.id.toNat { k := 0, id := 0 } = arg := by
  obtain ⟨i, hi, rfl⟩ := List.mem_iff_getElem.mp mem
  rw [wn i hi, List.getD_eq_getElem?_getD, List.getElem?_eq_getElem hi]
  rfl

/-- The key `k` is not stored, and was refused: its lookup before the batch met the probe bound, or
    no slot is free. -/
def Refused (crc : BitVec 64 → BitVec 64) (ht₀ ht : DramblastHt) (k : BitVec 64) : Prop :=
  ¬ ht.Stores k ∧ (¬ OpenBeforeLast crc ht₀ k ∨ Full ht.len 0 ht.keys)

/-- The invariant of the loop over the results: `ht₀` is the table before the batch and represents
    `m₀`, and `done` are the results handled so far. -/
structure FramesInv (crc : BitVec 64 → BitVec 64) (id : Nat) (backends : LookUpTable)
    (ht₀ : DramblastHt) (m₀ : BitVec 64 → Option (BitVec 64)) (args : List DramblastArg)
    (done : List DramblastResult) (m : BitVec 64 → Option (BitVec 64)) (s : FramesState) : Prop where
  wf : Wf crc s.ht
  rep : s.ht.Maps m
  len : s.ht.len = ht₀.len
  idle : Idle id s.ht
  nonzero : ∀ r ∈ done, clientHash args r ≠ 0
  grows : ∀ t, ht₀.keys t ≠ 0 → s.ht.keys t = ht₀.keys t
  kept : ∀ k v, m₀ k = some v → m k = some v
  fresh : ∀ k v, m k = some v → m₀ k = none →
    v = backends.backend k ∧ OpenBeforeLast crc ht₀ k ∧ ∃ r ∈ done, clientHash args r = k
  answered : ∀ r ∈ done, m (clientHash args r) = some (s.ret r.id.toNat) ∨
    Refused crc ht₀ s.ht (clientHash args r) ∧ s.ret r.id.toNat = 0

/-- A key is stored exactly if the represented map binds it. -/
lemma stores_iff {ht : DramblastHt} {m k} (rep : ht.Maps m) (ne : k ≠ 0) :
    ht.Stores k ↔ ∃ v, m k = some v := by
  unfold DramblastHt.Stores
  rw [rep.stored_iff ne, Option.isSome_iff_exists]

/-- A slot outside the last bucket that is free now was free before. -/
lemma OpenBeforeLast.anti {ht ht' : DramblastHt} {k} (el : ht'.len = ht.len)
    (grows : ∀ t, ht.keys t ≠ 0 → ht'.keys t = ht.keys t) (opened : OpenBeforeLast crc ht' k) :
    OpenBeforeLast crc ht k := by
  obtain ⟨p, hp, free⟩ := opened
  have same : ht'.probe crc k p = ht.probe crc k p := by
    unfold DramblastHt.probe
    rw [el, dramblastHash_congr el]
  rw [same] at free
  refine ⟨p, el ▸ hp, ?_⟩
  by_contra occ
  exact occ ((grows _ occ).symm.trans free)

/-- A table with no free slot has none outside the last bucket either. -/
lemma not_openBeforeLast_of_full {ht : DramblastHt} {k} (full : Full ht.len 0 ht.keys) :
    ¬ OpenBeforeLast crc ht k := by
  rintro ⟨p, _, free⟩
  exact full _ DramblastHt.probe_lt free

/-- The flow key of a result depends on its id only. -/
lemma clientHash_congr {args} {r r' : DramblastResult} (same : r'.id.toNat = r.id.toNat) :
    clientHash args r' = clientHash args r := by
  unfold clientHash
  rw [same]

/-- A result with another id than the last one is among the earlier ones. -/
lemma mem_of_ne_id {done} {r r' : DramblastResult} (mem : r' ∈ done ++ [r])
    (ne : r'.id.toNat ≠ r.id.toNat) : r' ∈ done := by
  rw [List.mem_append, List.mem_singleton] at mem
  rcases mem with old | rfl
  · exact old
  · exact absurd rfl ne

/-- Recording the answer `a` for one more result keeps the invariant, if the table did not
    change. -/
lemma FramesInv.record {ht₀ m₀ args done m s r a}
    (inv : FramesInv crc id backends ht₀ m₀ args done m s) (ne : clientHash args r ≠ 0)
    (answer : m (clientHash args r) = some a ∨ Refused crc ht₀ s.ht (clientHash args r) ∧ a = 0) :
    FramesInv crc id backends ht₀ m₀ args (done ++ [r]) m
      { s with ret := Function.update s.ret r.id.toNat a } where
  wf := inv.wf
  rep := inv.rep
  len := inv.len
  idle := inv.idle
  nonzero := List.forall_mem_append.mpr ⟨inv.nonzero, List.forall_mem_singleton.mpr ne⟩
  grows := inv.grows
  kept := inv.kept
  fresh k v e none := by
    obtain ⟨ev, opened, r', mem, ek⟩ := inv.fresh k v e none
    exact ⟨ev, opened, r', List.mem_append_left _ mem, ek⟩
  answered r' mem := by
    dsimp only
    by_cases same : r'.id.toNat = r.id.toNat
    · rw [clientHash_congr same, same, Function.update_self]
      exact answer
    · rw [Function.update_of_ne same]
      exact inv.answered r' (mem_of_ne_id mem same)

/-- Storing the backend of an absent key keeps the invariant. -/
lemma FramesInv.install {ht₀ m₀ args done m s r ht'}
    (inv : FramesInv crc id backends ht₀ m₀ args done m s) (ne : clientHash args r ≠ 0)
    (fresh : m₀ (clientHash args r) = none) (opened : OpenBeforeLast crc ht₀ (clientHash args r))
    (take : s.ht.Takes (clientHash args r)) (wf' : Wf crc ht')
    (rep' : ht'.Maps (Function.update m (clientHash args r)
      (some (backends.backend (clientHash args r)))))
    (len' : ht'.len = s.ht.len) (queues' : ht'.queues = s.ht.queues)
    (grows' : ∀ t, s.ht.keys t ≠ 0 → ht'.keys t = s.ht.keys t) :
    FramesInv crc id backends ht₀ m₀ args (done ++ [r])
      (Function.update m (clientHash args r) (some (backends.backend (clientHash args r))))
      { ht := ht', ret := Function.update s.ret r.id.toNat (backends.backend (clientHash args r)) }
    where
  wf := wf'
  rep := rep'
  len := len'.trans inv.len
  idle := by
    unfold Idle
    rw [queues']
    exact inv.idle
  nonzero := List.forall_mem_append.mpr ⟨inv.nonzero, List.forall_mem_singleton.mpr ne⟩
  grows t occ := by
    have old := inv.grows t occ
    exact (grows' t (by rwa [old])).trans old
  kept k v e := by
    rw [Function.update_of_ne, inv.kept k v e]
    rintro rfl
    rw [fresh] at e
    cases e
  fresh k v e none := by
    by_cases ek : k = clientHash args r
    · subst ek
      rw [Function.update_self] at e
      cases e
      exact ⟨rfl, opened, r, by simp, rfl⟩
    · rw [Function.update_of_ne ek] at e
      obtain ⟨ev, opened, r', mem, ek⟩ := inv.fresh k v e none
      exact ⟨ev, opened, r', List.mem_append_left _ mem, ek⟩
  answered r' mem := by
    dsimp only
    by_cases same : r'.id.toNat = r.id.toNat
    · left
      rw [clientHash_congr same, same, Function.update_self, Function.update_self]
    · rw [Function.update_of_ne same]
      have old := mem_of_ne_id mem same
      by_cases ek : clientHash args r' = clientHash args r
      · -- a duplicate of the key was answered before: it cannot have been refused
        left
        rw [ek, Function.update_self]
        rcases inv.answered r' old with bound | ⟨⟨missing, refused⟩, _⟩
        · rw [ek] at bound
          obtain ⟨ev, _⟩ := inv.fresh _ _ bound fresh
          rw [ev]
        · rw [ek] at missing refused
          rcases refused with closed | full
          · exact absurd opened closed
          · exact absurd full (take.2.resolve_left missing)
      · rw [Function.update_of_ne ek]
        rcases inv.answered r' old with bound | ⟨⟨missing, refused⟩, zero⟩
        · exact Or.inl bound
        · right
          refine ⟨⟨?_, ?_⟩, zero⟩
          · have nz := inv.nonzero r' old
            rw [stores_iff rep' nz, Function.update_of_ne ek, ← stores_iff inv.rep nz]
            exact missing
          · rcases refused with closed | full
            · exact Or.inl closed
            · refine Or.inr fun t ht => ?_
              rw [len'] at ht
              rw [grows' t (full t ht)]
              exact full t ht

/-- One round of the loop keeps the invariant, for a result of the lookup before the batch. -/
lemma FramesInv.step {ht₀ m₀ args done m s r arg}
    (inv : FramesInv crc id backends ht₀ m₀ args done m s) (wf₀ : Wf crc ht₀) (rep₀ : ht₀.Maps m₀)
    (ne : arg.k ≠ 0) (here : args.getD arg.id.toNat { k := 0, id := 0 } = arg)
    (result : r = lookupOne crc ht₀ arg) :
    ∃ m', FramesInv crc id backends ht₀ m₀ args (done ++ [r]) m'
      (processResult crc backends args s r) := by
  have key : clientHash args r = arg.k := by
    rw [clientHash, result, lookupOne_id, here]
  have nz : clientHash args r ≠ 0 := by rwa [key]
  by_cases st : ht₀.Stores arg.k
  · obtain ⟨t, ht, e⟩ := st
    have bound : m₀ arg.k = some (ht₀.vals t) := e ▸ rep₀.value_at ht (by rwa [e])
    have found := wf₀.lookupOne_found ne ht e
    rw [← result] at found
    refine ⟨m, ?_⟩
    rw [processResult, found]
    rw [found] at key nz
    exact inv.record nz (Or.inl (by rw [key]; exact inv.kept _ _ bound))
  · have none₀ : m₀ arg.k = none := rep₀.eq_none ne st
    by_cases opened : OpenBeforeLast crc ht₀ arg.k
    · have absent := lookupOne_absent st opened
      rw [← result] at absent
      have status : r.status = .absent := by rw [absent]
      have round : processResult crc backends args s r =
          { ht := (dramblastInsertOne crc s.ht arg.k (backends.backend arg.k)).2
            ret := Function.update s.ret r.id.toNat
              (if (dramblastInsertOne crc s.ht arg.k (backends.backend arg.k)).1 < 0 then 0
                else backends.backend arg.k) } := by
        rw [processResult, status]
        rw [clientHash] at key
        simp only [key]
      rw [round]
      rcases inv.rep.insertOne inv.wf arg.k (backends.backend arg.k) with
        ⟨full, e⟩ | ⟨take, ht', e, wf', rep', len', queues', grows'⟩ <;> rw [e]
      · refine ⟨m, inv.record nz (Or.inr ⟨?_, rfl⟩)⟩
        rw [key]
        unfold DramblastHt.Takes Accepts at full
        push Not at full
        obtain ⟨missing, full⟩ := full ne
        exact ⟨missing, Or.inr full⟩
      · rw [← key] at none₀ opened take rep' ⊢
        exact ⟨_, inv.install nz none₀ opened take wf' rep' len' queues' grows'⟩
    · have full := lookupOne_tableFull st opened
      rw [← result] at full
      refine ⟨m, ?_⟩
      rw [processResult, full]
      rw [full] at key nz
      refine inv.record nz (Or.inr ⟨?_, rfl⟩)
      rw [key]
      refine ⟨fun stored => ?_, Or.inl opened⟩
      obtain ⟨v, e⟩ := (stores_iff inv.rep ne).mp stored
      exact opened (inv.fresh _ _ e none₀).2.1

/-- The loop keeps the invariant. -/
lemma FramesInv.loop {ht₀ m₀ args done m s} (todo : List DramblastResult)
    (inv : FramesInv crc id backends ht₀ m₀ args done m s) (wf₀ : Wf crc ht₀) (rep₀ : ht₀.Maps m₀)
    (results : ∀ r ∈ todo, ∃ arg, arg.k ≠ 0 ∧ args.getD arg.id.toNat { k := 0, id := 0 } = arg ∧
      r = lookupOne crc ht₀ arg) :
    ∃ m', FramesInv crc id backends ht₀ m₀ args (done ++ todo) m'
      (todo.foldl (processResult crc backends args) s) := by
  induction todo generalizing done m s with
  | nil => exact ⟨m, by rwa [List.append_nil]⟩
  | cons r todo ih =>
    obtain ⟨arg, ne, here, result⟩ := results r (by simp)
    obtain ⟨m', inv'⟩ := inv.step wf₀ rep₀ ne here result
    obtain ⟨m'', inv''⟩ := ih inv' fun r' mem => results r' (by simp [mem])
    rw [List.append_assoc, List.singleton_append] at inv''
    exact ⟨m'', inv''⟩

/-- What a call of `dramblast_process_frames` does to a table that represents `m₀`: it extends the
    map by backends of absent keys of the batch, and answers every argument with the binding of its
    key or with a justified 0. -/
structure FramesDone (crc : BitVec 64 → BitVec 64) (id : Nat) (backends : LookUpTable)
    (ht₀ : DramblastHt) (m₀ : BitVec 64 → Option (BitVec 64)) (args : List DramblastArg)
    (m : BitVec 64 → Option (BitVec 64)) (st : FramesState) : Prop where
  wf : Wf crc st.ht
  rep : st.ht.Maps m
  len : st.ht.len = ht₀.len
  idle : Idle id st.ht
  grows : ∀ t, ht₀.keys t ≠ 0 → st.ht.keys t = ht₀.keys t
  kept : ∀ k v, m₀ k = some v → m k = some v
  fresh : ∀ k v, m k = some v → m₀ k = none →
    v = backends.backend k ∧ OpenBeforeLast crc ht₀ k ∧ ∃ arg ∈ args, arg.k = k
  answered : ∀ i (hi : i < args.length), m args[i].k = some (st.ret i) ∨
    Refused crc ht₀ st.ht args[i].k ∧ st.ret i = 0

/-- `dramblast_process_frames` never exits, and does what `FramesDone` says. -/
lemma processFrames_spec (backends : LookUpTable) {ht args m₀} (ret : Nat → BitVec 64)
    (wf : Wf crc ht) (rep : ht.Maps m₀) (idle : Idle id ht) (wn : WellNumbered args) (nz : NonZero args) :
    ∃ st m, dramblastProcessFrames crc id backends ht args ret = some st ∧
      FramesDone crc id backends ht m₀ args m st := by
  obtain ⟨out, ht', call, perm, table, len, idle', _⟩ := findBatchSync_spec crc args idle
  have start : FramesInv crc id backends ht m₀ args [] m₀ { ht := ht', ret } :=
    { wf := wf.congr table len
      rep := rep.congr table len
      len := len
      idle := idle'
      nonzero := nofun
      grows := fun t _ => by rw [DramblastHt.keys, table, DramblastHt.keys]
      kept := fun _ _ e => e
      fresh := fun _ _ e none => by rw [none] at e; cases e
      answered := nofun }
  have results : ∀ r ∈ out, ∃ arg, arg.k ≠ 0 ∧ args.getD arg.id.toNat { k := 0, id := 0 } = arg ∧
      r = lookupOne crc ht arg := by
    intro r mem
    obtain ⟨arg, mem', rfl⟩ := List.mem_map.mp (perm.mem_iff.mp mem)
    exact ⟨arg, nz arg mem', wn.getD mem', rfl⟩
  obtain ⟨m, inv⟩ := start.loop out wf rep results
  rw [List.nil_append] at inv
  have length : out.length = args.length := by simpa using perm.length_eq
  refine ⟨_, m, ?_, ⟨inv.wf, inv.rep, inv.len, inv.idle, inv.grows, inv.kept, ?_, ?_⟩⟩
  · rw [dramblastProcessFrames, call]
    dsimp only
    rw [if_neg (by simp), ← length, List.take_length]
  · intro k v e none
    obtain ⟨ev, opened, r, mem, ek⟩ := inv.fresh k v e none
    obtain ⟨arg, mem', rfl⟩ := List.mem_map.mp (perm.mem_iff.mp mem)
    refine ⟨ev, opened, arg, mem', ?_⟩
    rw [← ek, clientHash, lookupOne_id, wn.getD mem']
  · intro i hi
    have mem : args[i] ∈ args := List.getElem_mem hi
    have answer := inv.answered (lookupOne crc ht args[i])
      (perm.mem_iff.mpr (List.mem_map_of_mem mem))
    rw [clientHash, lookupOne_id, wn.getD mem, wn i hi] at answer
    exact answer

end NetBlast.Dramblast
