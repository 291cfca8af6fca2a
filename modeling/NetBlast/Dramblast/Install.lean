import NetBlast.Dramblast.Flows

/-!
# What a batch installs

The lookups of a batch all see the table as it is before the batch, and the inserts come one by one
after them. `FramesDone.ret_stored` and `FramesDone.ret_missing` read every answer off the table
after the batch; `FramesDone.card_installed` counts the keys that found a slot. `batch_installs`
puts them together.
-/

namespace NetBlast.Dramblast
open Probing

/-- The keys of the batch that the lookups found absent. -/
def absentKeys (args : List DramblastArg) (out : List DramblastResult) : Finset (BitVec 64) :=
  ((out.filter (·.status = .absent)).map (clientHash args)).toFinset

/-- The free slots of the table. -/
def freeSlots (ht : DramblastHt) : Finset Nat :=
  (Finset.range ht.len).filter (ht.keys · = 0)

/-- Key `k` is in the batch and not in the table, and has a free slot outside its last bucket. -/
def Absent (crc : BitVec 64 → BitVec 64) (ht : DramblastHt) (args : List DramblastArg)
    (k : BitVec 64) : Prop :=
  (∃ arg ∈ args, arg.k = k) ∧ ¬ ht.Stores k ∧ OpenBeforeLast crc ht k

variable {crc : BitVec 64 → BitVec 64} {id : Nat} {backends : LookUpTable} {ht : DramblastHt}
  {m₀ m : BitVec 64 → Option (BitVec 64)} {args : List DramblastArg} {st : FramesState}

/-- The three statuses of a lookup. -/
lemma Wf.lookupOne_status (wf : Wf crc ht) {arg : DramblastArg} (ne : arg.k ≠ 0) :
    ht.Stores arg.k ∧ (lookupOne crc ht arg).status = .found ∨
    ¬ ht.Stores arg.k ∧ OpenBeforeLast crc ht arg.k ∧ (lookupOne crc ht arg).status = .absent ∨
    ¬ ht.Stores arg.k ∧ ¬ OpenBeforeLast crc ht arg.k ∧
      (lookupOne crc ht arg).status = .tableFull := by
  by_cases stored : ht.Stores arg.k
  · obtain ⟨s, hs, here⟩ := stored
    exact Or.inl ⟨⟨s, hs, here⟩, by rw [wf.lookupOne_found ne hs here]⟩
  · by_cases opened : OpenBeforeLast crc ht arg.k
    · exact Or.inr (Or.inl ⟨stored, opened, by rw [lookupOne_absent stored opened]⟩)
    · exact Or.inr (Or.inr ⟨stored, opened, by rw [lookupOne_tableFull stored opened]⟩)

/-- A lookup answers `absent` exactly if the key is not stored and a slot outside the last bucket is
    free. -/
lemma Wf.lookupOne_absent_iff (wf : Wf crc ht) {arg : DramblastArg} (ne : arg.k ≠ 0) :
    (lookupOne crc ht arg).status = .absent ↔ ¬ ht.Stores arg.k ∧ OpenBeforeLast crc ht arg.k := by
  rcases wf.lookupOne_status ne with ⟨stored, e⟩ | ⟨missing, opened, e⟩ | ⟨_, closed, e⟩ <;> rw [e]
  · exact iff_of_false nofun fun absent => absent.1 stored
  · exact iff_of_true rfl ⟨missing, opened⟩
  · exact iff_of_false nofun fun absent => closed absent.2

/-- A lookup answers `tableFull` only for a key that is not stored, when no slot outside the last
    bucket is free. -/
lemma Wf.lookupOne_full (wf : Wf crc ht) {arg : DramblastArg} (ne : arg.k ≠ 0)
    (full : (lookupOne crc ht arg).status = .tableFull) :
    ¬ ht.Stores arg.k ∧ ¬ OpenBeforeLast crc ht arg.k := by
  rcases wf.lookupOne_status ne with ⟨_, e⟩ | ⟨_, _, e⟩ | ⟨missing, closed, e⟩
  · rw [e] at full
    cases full
  · rw [e] at full
    cases full
  · exact ⟨missing, closed⟩

/-- The lookups of the batch answer `absent` for its absent keys. -/
lemma Wf.mem_absentKeys (wf : Wf crc ht) (wn : WellNumbered args) (nz : NonZero args)
    {out : List DramblastResult} (perm : out.Perm (args.map (lookupOne crc ht))) {k : BitVec 64} :
    k ∈ absentKeys args out ↔ Absent crc ht args k := by
  unfold absentKeys
  rw [List.mem_toFinset, List.mem_map]
  constructor
  · rintro ⟨r, mem, rfl⟩
    obtain ⟨mem, absent⟩ := List.mem_filter.mp mem
    obtain ⟨arg, mem', rfl⟩ := List.mem_map.mp (perm.mem_iff.mp mem)
    rw [clientHash, lookupOne_id, wn.getD mem']
    rw [decide_eq_true_eq, wf.lookupOne_absent_iff (nz arg mem')] at absent
    exact ⟨⟨arg, mem', rfl⟩, absent⟩
  · rintro ⟨⟨arg, mem, rfl⟩, absent⟩
    refine ⟨lookupOne crc ht arg, ?_, by rw [clientHash, lookupOne_id, wn.getD mem]⟩
    rw [List.mem_filter, decide_eq_true_eq, wf.lookupOne_absent_iff (nz arg mem)]
    exact ⟨perm.mem_iff.mpr (List.mem_map_of_mem mem), absent⟩

/-- The answer for a key that is in the table after the batch is its value there. -/
lemma FramesDone.ret_stored (fin : FramesDone crc id backends ht m₀ args m st) (nz : NonZero args)
    {i s} (hi : i < args.length) (hs : s < ht.len) (here : st.ht.keys s = args[i].k) :
    st.ret i = st.ht.vals s := by
  have ne := nz _ (List.getElem_mem hi)
  rw [← fin.len] at hs
  have bound := fin.rep.value_at hs (by rwa [here])
  rw [here] at bound
  rcases fin.answered i hi with answer | ⟨⟨missing, _⟩, _⟩
  · exact Option.some.inj (answer.symm.trans bound)
  · exact absurd ⟨s, hs, here⟩ missing

/-- The answer for a key that is not in the table after the batch is 0. -/
lemma FramesDone.ret_missing (fin : FramesDone crc id backends ht m₀ args m st) (nz : NonZero args)
    {i} (hi : i < args.length) (missing : ¬ st.ht.Stores args[i].k) : st.ret i = 0 := by
  rcases fin.answered i hi with answer | ⟨_, zero⟩
  · exact absurd ((stores_iff fin.rep (nz _ (List.getElem_mem hi))).mpr ⟨_, answer⟩) missing
  · exact zero

/-- Equal keys are answered alike. -/
lemma FramesDone.ret_congr (fin : FramesDone crc id backends ht m₀ args m st) (nz : NonZero args)
    {i j} (hi : i < args.length) (hj : j < args.length) (same : args[i].k = args[j].k) :
    st.ret i = st.ret j := by
  by_cases stored : st.ht.Stores args[i].k
  · obtain ⟨s, hs, here⟩ := stored
    rw [fin.len] at hs
    rw [fin.ret_stored nz hi hs here, fin.ret_stored nz hj hs (here.trans same)]
  · rw [fin.ret_missing nz hi stored, fin.ret_missing nz hj (same ▸ stored)]

/-- A pair that is in the table before the batch is in the same slot after it. -/
lemma FramesDone.table_eq (fin : FramesDone crc id backends ht m₀ args m st) (rep₀ : ht.Maps m₀) {s}
    (hs : s < ht.len) (occ : ht.keys s ≠ 0) : st.ht.table s = ht.table s := by
  have keys := fin.grows s occ
  have bound := fin.kept _ _ (rep₀.value_at hs occ)
  have bound' := fin.rep.value_at (fin.len ▸ hs) (by rwa [keys])
  rw [keys, bound, Option.some.injEq] at bound'
  rw [st.ht.table_eq, ht.table_eq, keys, bound']

/-- A key that is in the table after the batch was there before it, or is an absent key of the batch
    with its backend. -/
lemma FramesDone.stored_cases (fin : FramesDone crc id backends ht m₀ args m st) (rep₀ : ht.Maps m₀)
    {s} (hs : s < ht.len) (occ : st.ht.keys s ≠ 0) :
    ht.Stores (st.ht.keys s) ∨
      Absent crc ht args (st.ht.keys s) ∧ st.ht.vals s = backends.backend (st.ht.keys s) := by
  have bound := fin.rep.value_at (fin.len ▸ hs) occ
  by_cases old : ht.Stores (st.ht.keys s)
  · exact Or.inl old
  · obtain ⟨value, opened, has⟩ := fin.fresh _ _ bound (rep₀.eq_none occ old)
    exact Or.inr ⟨⟨has, old, opened⟩, value⟩

/-- After the batch the table stores the keys from before and the installed ones. -/
lemma FramesDone.storedKeys_eq (fin : FramesDone crc id backends ht m₀ args m st)
    (rep₀ : ht.Maps m₀) (nz : NonZero args) {absent : Finset (BitVec 64)}
    [DecidablePred st.ht.Stores]
    (mem_absent : ∀ k, k ∈ absent ↔ Absent crc ht args k) :
    storedKeys st.ht.len 0 st.ht.keys =
      storedKeys ht.len 0 ht.keys ∪ absent.filter st.ht.Stores := by
  ext k
  rw [Finset.mem_union, Finset.mem_filter, mem_storedKeys, mem_storedKeys]
  constructor
  · rintro ⟨ne, s, hs, rfl⟩
    rcases fin.stored_cases rep₀ (fin.len ▸ hs) ne with stored | ⟨absent, _⟩
    · exact Or.inl ⟨ne, stored⟩
    · exact Or.inr ⟨(mem_absent _).mpr absent, s, hs, rfl⟩
  · rintro (⟨ne, s, hs, rfl⟩ | ⟨mem, stored⟩)
    · exact ⟨ne, s, fin.len ▸ hs, fin.grows s ne⟩
    · obtain ⟨⟨arg, mem', rfl⟩, _⟩ := (mem_absent k).mp mem
      exact ⟨nz arg mem', stored⟩

/-- If a key with a free slot before the batch was refused, no slot is free after it. -/
lemma FramesDone.full (fin : FramesDone crc id backends ht m₀ args m st) (nz : NonZero args)
    {arg} (mem : arg ∈ args) (opened : OpenBeforeLast crc ht arg.k)
    (missing : ¬ st.ht.Stores arg.k) : Full st.ht.len 0 st.ht.keys := by
  obtain ⟨i, hi, rfl⟩ := List.mem_iff_getElem.mp mem
  rcases fin.answered i hi with answer | ⟨⟨_, closed | full⟩, _⟩
  · exact absurd ((stores_iff fin.rep (nz _ mem)).mpr ⟨_, answer⟩) missing
  · exact absurd opened closed
  · exact full

/-- As many absent keys are installed as there are free slots. -/
lemma FramesDone.card_installed (fin : FramesDone crc id backends ht m₀ args m st)
    (wf : Wf crc ht) (rep₀ : ht.Maps m₀) (nz : NonZero args) {absent : Finset (BitVec 64)}
    (mem_absent : ∀ k, k ∈ absent ↔ Absent crc ht args k) :
    ∃ installed ⊆ absent, (∀ k ∈ absent, k ∈ installed ↔ st.ht.Stores k) ∧
      installed.card = min absent.card (freeSlots ht).card := by
  classical
  have disjoint : Disjoint (storedKeys ht.len 0 ht.keys) (absent.filter st.ht.Stores) := by
    rw [Finset.disjoint_left]
    intro k mem mem'
    exact ((mem_absent k).mp (Finset.mem_filter.mp mem').1).2.1 (mem_storedKeys.mp mem).2
  have card := Finset.card_union_of_disjoint disjoint
  rw [← fin.storedKeys_eq rep₀ nz mem_absent] at card
  have before : (freeSlots ht).card + (storedKeys ht.len 0 ht.keys).card = ht.len :=
    wf.chained.card_free
  have after : (storedKeys st.ht.len 0 st.ht.keys).card ≤ st.ht.len := card_storedKeys_le
  have len := fin.len
  have le : (absent.filter st.ht.Stores).card ≤ absent.card := Finset.card_filter_le _ _
  refine ⟨absent.filter st.ht.Stores, Finset.filter_subset _ _, fun k mem => ?_, ?_⟩
  · rw [Finset.mem_filter, and_iff_right mem]
  · by_cases all : ∀ k ∈ absent, st.ht.Stores k
    · rw [Finset.filter_true_of_mem all] at card ⊢
      omega
    · push Not at all
      obtain ⟨k, mem, missing⟩ := all
      obtain ⟨⟨arg, mem', rfl⟩, _, opened⟩ := (mem_absent k).mp mem
      have all_used := fin.wf.chained.full_iff_card.mp (fin.full nz mem' opened missing)
      omega

/-- The table a batch leaves behind does not depend on what was in the array of answers. -/
lemma foldl_processResult_ht (todo : List DramblastResult) (s : FramesState)
    (ret : Nat → BitVec 64) :
    (todo.foldl (processResult crc backends args) { s with ret }).ht =
      (todo.foldl (processResult crc backends args) s).ht := by
  induction todo generalizing s ret with
  | nil => rfl
  | cons r todo ih =>
    rw [List.foldl_cons, List.foldl_cons]
    have same : ∃ ret', processResult crc backends args { s with ret } r =
        { processResult crc backends args s r with ret := ret' } := by
      unfold processResult
      cases r.status <;> exact ⟨_, rfl⟩
    obtain ⟨ret', e⟩ := same
    rw [e, ih]

/-- What a batch does to the table `ht`: `out` are the results of its lookups, `ht'` is the table it
    leaves behind and `answer` its answers. A key whose lookup gave up on the table is answered 0. -/
structure BatchInstalled (backends : LookUpTable) (ht : DramblastHt) (args : List DramblastArg)
    (out : List DramblastResult) (ht' : DramblastHt) (answer : Nat → BitVec 64) : Prop where
  same : ∀ i j (hi : i < args.length) (hj : j < args.length), args[i].k = args[j].k →
    answer i = answer j
  stored : ∀ i (hi : i < args.length), ∀ s < ht.len, ht.keys s = args[i].k → answer i = ht.vals s
  kept : ∀ s < ht.len, ht.keys s ≠ 0 → ht'.table s = ht.table s
  full : ∀ r ∈ out, r.status = .tableFull → ∀ i (hi : i < args.length),
    args[i].k = clientHash args r → answer i = 0
  installs : ∃ installed ⊆ absentKeys args out,
    installed.card = min (absentKeys args out).card (freeSlots ht).card ∧
    (∀ k, k ≠ 0 → (ht'.Stores k ↔ ht.Stores k ∨ k ∈ installed)) ∧
    (∀ k ∈ installed, ∃ s < ht.len, ht'.table s = { k, v := backends.backend k }) ∧
    ∀ i (hi : i < args.length), args[i].k ∈ absentKeys args out →
      answer i = if args[i].k ∈ installed then backends.backend args[i].k else 0

/-- What a batch does, from what is true of the map afterwards. -/
lemma FramesDone.batchInstalled (fin : FramesDone crc id backends ht m₀ args m st)
    (wf : Wf crc ht) (rep₀ : ht.Maps m₀) (wn : WellNumbered args) (nz : NonZero args)
    {out : List DramblastResult} (perm : out.Perm (args.map (lookupOne crc ht))) :
    BatchInstalled backends ht args out st.ht st.ret where
  same _ _ hi hj e := fin.ret_congr nz hi hj e
  stored i hi s hs here := by
    have kept := fin.table_eq rep₀ hs (here ▸ nz _ (List.getElem_mem hi))
    have here' : st.ht.keys s = args[i].k := by rw [DramblastHt.keys, kept]; exact here
    rw [fin.ret_stored nz hi hs here', DramblastHt.vals, kept, DramblastHt.vals]
  kept s hs occ := fin.table_eq rep₀ hs occ
  full r mem tableFull i hi same := by
    obtain ⟨arg, mem', rfl⟩ := List.mem_map.mp (perm.mem_iff.mp mem)
    obtain ⟨missing, closed⟩ := wf.lookupOne_full (nz arg mem') tableFull
    rw [clientHash, lookupOne_id, wn.getD mem'] at same
    refine fin.ret_missing nz hi ?_
    rintro ⟨s, hs, here⟩
    have ne : st.ht.keys s ≠ 0 := here ▸ nz _ (List.getElem_mem hi)
    rcases fin.stored_cases rep₀ (fin.len ▸ hs) ne with old | ⟨absent, _⟩
    · exact missing (same ▸ here ▸ old)
    · exact closed (same ▸ here ▸ absent.2.2)
  installs := by
    have mem_absent (k) := wf.mem_absentKeys wn nz perm (k := k)
    obtain ⟨installed, sub, mem_installed, card⟩ := fin.card_installed wf rep₀ nz mem_absent
    have of_installed {k} (mem : k ∈ installed) :
        ∃ s < ht.len, st.ht.keys s = k ∧ st.ht.vals s = backends.backend k := by
      obtain ⟨⟨arg, mem', rfl⟩, missing, _⟩ := (mem_absent k).mp (sub mem)
      obtain ⟨s, hs, here⟩ := (mem_installed _ (sub mem)).mp mem
      rw [fin.len] at hs
      rcases fin.stored_cases rep₀ hs (here ▸ nz arg mem') with old | ⟨_, value⟩
      · exact absurd (here ▸ old) missing
      · exact ⟨s, hs, here, here ▸ value⟩
    refine ⟨installed, sub, card, fun k ne => ?_, fun k mem => ?_, fun i hi absent => ?_⟩
    · constructor
      · rintro ⟨s, hs, rfl⟩
        rcases fin.stored_cases rep₀ (fin.len ▸ hs) ne with old | ⟨absent, _⟩
        · exact Or.inl old
        · have absent := (mem_absent _).mpr absent
          exact Or.inr ((mem_installed _ absent).mpr ⟨s, hs, rfl⟩)
      · rintro (⟨s, hs, rfl⟩ | mem)
        · exact ⟨s, fin.len ▸ hs, fin.grows s ne⟩
        · exact (mem_installed _ (sub mem)).mp mem
    · obtain ⟨s, hs, here, value⟩ := of_installed mem
      exact ⟨s, hs, by rw [st.ht.table_eq, here, value]⟩
    · split
      · next mem =>
        obtain ⟨s, hs, here, value⟩ := of_installed mem
        rw [fin.ret_stored nz hi hs here, value]
      · next other =>
        rw [mem_installed _ absent] at other
        exact fin.ret_missing nz hi other

/-- A batch answers every packet and installs as many of the absent flows as there are free
    slots. -/
theorem batch_installs (crc : BitVec 64 → BitVec 64) (id : Nat) (backends : LookUpTable)
    (ht₀ ht : DramblastHt) (past : List DramblastEvent) (args : List DramblastArg)
    (zero : ht₀.AllZero) (idle : Idle id ht₀) (run : DramblastRun crc id ht₀ past ht)
    (wn : WellNumbered args) (nz : NonZero args) :
    ∃ out found ht' answer,
      dramblastFindBatchSync crc id ht args = some (args.length, out, found) ∧
      (∀ ret, ∃ st, dramblastProcessFrames crc id backends ht args ret = some st ∧ st.ht = ht' ∧
        ∀ i < args.length, st.ret i = answer i) ∧
      BatchInstalled backends ht args out ht' answer := by
  obtain ⟨wf, rep, idle⟩ := run.inv zero idle
  obtain ⟨out, found, call, perm, _⟩ := findBatchSync_spec crc args idle
  obtain ⟨st₀, m₀, call₀, fin₀⟩ := processFrames_spec backends (fun _ => 0) wf rep idle wn nz
  refine ⟨out, found, st₀.ht, st₀.ret, call, fun ret => ?_,
    fin₀.batchInstalled wf rep wn nz perm⟩
  obtain ⟨st, m, call', fin⟩ := processFrames_spec backends ret wf rep idle wn nz
  have table : st.ht = st₀.ht := by
    rw [dramblastProcessFrames, call] at call' call₀
    simp only [ne_eq, not_true_eq_false, ↓reduceIte, Option.some.injEq] at call' call₀
    rw [← call', ← call₀]
    exact foldl_processResult_ht _ { ht := found, ret := fun _ => 0 } ret
  refine ⟨st, call', table, fun i hi => ?_⟩
  by_cases stored : st.ht.Stores args[i].k
  · obtain ⟨s, hs, here⟩ := stored
    rw [fin.len] at hs
    rw [fin.ret_stored nz hi hs here, fin₀.ret_stored nz hi hs (table ▸ here), table]
  · rw [fin.ret_missing nz hi stored, fin₀.ret_missing nz hi (table ▸ stored)]

/-- A table of two buckets with one free slot. -/
def oneFree : DramblastHt :=
  insertAll (·) twoBuckets [⟨4, 1⟩, ⟨12, 1⟩, ⟨20, 1⟩, ⟨28, 1⟩, ⟨36, 1⟩, ⟨44, 1⟩, ⟨52, 1⟩]

/-- Two new flows, one of them twice in the batch, and one free slot. -/
theorem batch_installs_contended :
    (freeSlots oneFree).card = 1 ∧ ∃ out found ht' answer,
      dramblastFindBatchSync (·) 0 oneFree [⟨8, 0⟩, ⟨16, 1⟩, ⟨8, 2⟩] = some (3, out, found) ∧
      (∀ ret, ∃ st,
        dramblastProcessFrames (·) 0 (fun _ => 255) oneFree [⟨8, 0⟩, ⟨16, 1⟩, ⟨8, 2⟩] ret = some st ∧
        st.ht = ht' ∧ ∀ i < 3, st.ret i = answer i) ∧
      BatchInstalled (fun _ => 255) oneFree [⟨8, 0⟩, ⟨16, 1⟩, ⟨8, 2⟩] out ht' answer := by
  have run₀ : DramblastRun (·) 0 twoBuckets [] twoBuckets := .start
  obtain ⟨past, run⟩ := run₀.insertAll
    [⟨4, 1⟩, ⟨12, 1⟩, ⟨20, 1⟩, ⟨28, 1⟩, ⟨36, 1⟩, ⟨44, 1⟩, ⟨52, 1⟩]
  refine ⟨by decide +kernel, ?_⟩
  exact batch_installs (·) 0 (fun _ => 255) twoBuckets oneFree past [⟨8, 0⟩, ⟨16, 1⟩, ⟨8, 2⟩]
    (fun _ _ => rfl) rfl run (by unfold WellNumbered; decide) (by unfold NonZero; decide)

end NetBlast.Dramblast
