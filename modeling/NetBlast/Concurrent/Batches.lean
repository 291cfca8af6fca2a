import NetBlast.Concurrent.Soundness
import NetBlast.Dramblast.Frames

/-!
# The dramblast mode on several lcores

Any number of calls of `dramblast_process_frames` on one shared table: each looks its batch up, and
then goes through the results and inserts the keys that were absent, while the other calls do the
same. `BatchesInv` is the invariant of the calls, and `batches_keep_flows` says that a flow that has
been mapped stays mapped, on all lcores, and that every call ends within a bound on its own steps.
-/

namespace NetBlast.Concurrent
open Probing Dramblast

/-- The calls `F` of `dramblast_process_frames`. A call of `dramblast_insert_one` is named by its
    batch and by the id of its result; `handled` is the counter of the loop over the results. -/
structure Batches (F : Type*) where
  system : System (F × Nat) F
  handled : F → Nat
  ret : F → Nat → BitVec 64

/-- What the call `f` does next: a step of its lookups, the read of a lane, or a step of the loop over
    the results. -/
inductive BatchEvent (F : Type*) where
  | find (f : F)
  | lane (f : F) (l : Fin 8)
  | process (f : F)

/-- A step of the call `f`. -/
def BatchEvent.isOf {F : Type*} [DecidableEq F] (f : F) : BatchEvent F → Bool
  | .find g => g = f
  | .lane g _ => g = f
  | .process g => g = f

section
variable {F : Type*} [DecidableEq F] (crc : BitVec 64 → BitVec 64) (backends : LookUpTable)
  (args : F → List DramblastArg)

/-- `args[result->id].k`. -/
def batchKey (c : F × Nat) : BitVec 64 :=
  ((args c.1).getD c.2 { k := 0, id := 0 }).k

/-- `dramblast_backends[client_hash % TABLE_SIZE]`. -/
def batchBackend (c : F × Nat) : BitVec 64 :=
  backends.backend (batchKey args c)

/-- `ret[result->id] = backend_mac_addr`. -/
def Batches.answer (s : Batches F) (c : F × Nat) (backendMacAddr : BitVec 64) : Batches F :=
  { s with
    handled := Function.update s.handled c.1 (s.handled c.1 + 1)
    ret := Function.update s.ret c.1 (Function.update (s.ret c.1) c.2 backendMacAddr) }

/-- The lookups of `f` stand at `fd`. -/
def Batches.lookup (s : Batches F) (f : F) (fd : Finder) : Batches F :=
  { s with system := { s.system with finders := Function.update s.system.finders f fd } }

/-- The next step of `f` in the loop over the results. -/
def processStep (f : F) (s : Batches F) : Option (Batches F) :=
  match (s.system.finders f).pc, (s.system.finders f).results[s.handled f]? with
  | .returned, some (result, _) =>
    let c := (f, result.id.toNat)
    match result.status with
    | .absent =>
      match s.system.race.pc c with
      | .returned r => some (s.answer c (if r < 0 then 0 else batchBackend backends args c))
      | _ =>
        let race := insertStep (batchKey args) (batchBackend backends args) c s.system.race
        some { s with system := { s.system with race } }
    | .tableFull => some (s.answer c 0)
    | .found => some (s.answer c result.v)
  | _, _ => none

/-- One step of the calls, if it is possible. -/
def batchStep (s : Batches F) : BatchEvent F → Option (Batches F)
  | .find f =>
    (systemStep crc (batchKey args) (batchBackend backends args) args s.system (.find f)).map
      fun system => { s with system }
  | .lane f l =>
    (systemStep crc (batchKey args) (batchBackend backends args) args s.system (.lane f l)).map
      fun system => { s with system }
  | .process f => processStep backends args f s

/-- The steps of a schedule, if all of them are possible. -/
def batchRun : List (BatchEvent F) → Batches F → Option (Batches F)
  | [], s => some s
  | e :: schedule, s => (batchStep crc backends args s e).bind (batchRun schedule)

/-- All calls before their first step. -/
def batchStart (ht : DramblastHt) (queues : F → DramblastQueue Lookup) (ret : F → Nat → BitVec 64) :
    Batches F where
  system := systemStart crc (batchKey args) args ht queues
  handled _ := 0
  ret := ret

end

variable {F : Type*} {crc : BitVec 64 → BitVec 64} {backends : LookUpTable}
  {args : F → List DramblastArg} {P : F → Nat → Nat → Prop} {s s' : Batches F}

/-- The answer `backend` for a key: its backend, and then the key is in the table, or 0. -/
def Answer (backends : LookUpTable) (ht : DramblastHt) (key : BitVec 64) (found : Prop)
    (backend : BitVec 64) : Prop :=
  backend = backends.backend key ∧ Stored ht.len ht.keys key ∨ backend = 0 ∧ ¬ found

/-- The invariant of the calls. -/
structure BatchesInv (crc : BitVec 64 → BitVec 64) (backends : LookUpTable)
    (args : F → List DramblastArg) (P : F → Nat → Nat → Prop) (s : Batches F) : Prop where
  system : SystemInv crc (batchKey args) (batchBackend backends args) args P s.system
  returns : ∀ c r, s.system.race.pc c = .returned r → r = 0 ∨ r = -1
  found : ∀ f r j arg, (r, j) ∈ (s.system.finders f).results → (args f)[j]? = some arg →
    r.status = .found → Stored s.system.race.ht.len s.system.race.ht.keys arg.k
  early : ∀ f, (s.system.finders f).pc ≠ .returned → s.handled f = 0
  handled : ∀ f, s.handled f ≤ (s.system.finders f).results.length
  answers : ∀ f i r j arg, i < s.handled f → (s.system.finders f).results[i]? = some (r, j) →
    (args f)[j]? = some arg →
      Answer backends s.system.race.ht arg.k (r.status = .found) (s.ret f j)

/-- The steps that the call `f` takes at most. -/
def Batches.work (args : F → List DramblastArg) (s : Batches F) (f : F) : Nat :=
  s.system.work args f +
    ∑ j ∈ Finset.range (args f).length, s.system.race.work (f, j) +
    ((args f).length - s.handled f)

section
variable {C : Type*} [DecidableEq C]

/-- An access of an insert moves it alone. -/
lemma insertStep_pc (k v : C → BitVec 64) {r : InsertRace C} {c : C}
    (running : (r.pc c).ret = none) :
    ∃ pc, (insertStep k v c r).pc = Function.update r.pc c pc ∧
      ∀ x, pc = .returned x → x = 0 ∨ x = -1 := by
  unfold insertStep InsertRace.goto
  dsimp only
  cases e : r.pc c with
  | load idx count =>
    dsimp only
    split <;> exact ⟨_, rfl, nofun⟩
  | swap idx count =>
    dsimp only
    split
    · refine ⟨_, rfl, fun x same => ?_⟩
      cases same
      exact Or.inl rfl
    · exact ⟨_, rfl, nofun⟩
  | reload idx count =>
    dsimp only
    split
    · exact ⟨_, rfl, nofun⟩
    · split
      · refine ⟨_, rfl, fun x same => ?_⟩
        cases same
        exact Or.inr rfl
      · exact ⟨_, rfl, nofun⟩
  | assign idx count =>
    refine ⟨_, rfl, fun x same => ?_⟩
    cases same
    exact Or.inl rfl
  | returned x =>
    rw [e] at running
    cases running

end

/-- A new result says that a key was found only after a hit. -/
lemma findStep_results {ht : DramblastHt} {as : List DramblastArg} {fd fd' : Finder}
    (step : findStep crc ht as fd = some fd') {x : DramblastResult × Nat} (mem : x ∈ fd'.results)
    (found : x.1.status = .found) :
    x ∈ fd.results ∨ ∃ item offset, fd.pc = .value item offset ∧ x.2 = item.2 := by
  unfold findStep at step
  cases pc : fd.pc with
  | fill =>
    rw [pc] at step
    dsimp only at step
    split at step <;> cases step <;> exact Or.inl mem
  | load item lanes =>
    rw [pc] at step
    dsimp only at step
    split at step
    · split at step <;> cases step
      · exact Or.inl mem
      · rcases List.mem_append.mp mem with mem | mem
        · exact Or.inl mem
        · rw [List.mem_singleton.mp mem] at found
          cases found
      · rcases List.mem_append.mp mem with mem | mem
        · exact Or.inl mem
        · rw [List.mem_singleton.mp mem] at found
          cases found
      · exact Or.inl mem
    · cases step
  | value item offset =>
    rw [pc] at step
    cases step
    rcases List.mem_append.mp mem with mem | mem
    · exact Or.inl mem
    · rw [List.mem_singleton.mp mem]
      exact Or.inr ⟨item, offset, rfl, rfl⟩
  | returned =>
    rw [pc] at step
    cases step

/-- The read of a lane writes no result, and is made only before the return. -/
lemma laneStep_results {ht : DramblastHt} {l : Fin 8} {fd fd' : Finder}
    (step : laneStep ht l fd = some fd') : fd'.results = fd.results ∧ fd.pc ≠ .returned := by
  obtain ⟨x, lanes, pc, _, rfl⟩ := laneStep_eq step
  rw [pc]
  exact ⟨rfl, nofun⟩

/-- A step of the lookups is made only before the return. -/
lemma findStep_running {ht : DramblastHt} {as : List DramblastArg} {fd fd' : Finder}
    (step : findStep crc ht as fd = some fd') : fd.pc ≠ .returned := by
  intro pc
  unfold findStep at step
  rw [pc] at step
  cases step

/-- An answer stays true when the table grows. -/
lemma Answer.grow {ht ht' : DramblastHt} {key backend : BitVec 64} {found : Prop}
    (answer : Answer backends ht key found backend) (ne : key ≠ 0) (len : ht'.len = ht.len)
    (grows : Grows 0 ht.keys ht'.keys) : Answer backends ht' key found backend := by
  refine answer.imp_left fun answer => ⟨answer.1, ?_⟩
  rw [len]
  exact grows.stored ne answer.2

/-- The key of an insert is the one of the argument. -/
lemma batchKey_eq (wn : ∀ f, WellNumbered (args f)) {f : F} {j : Nat} {arg : DramblastArg}
    (here : (args f)[j]? = some arg) : batchKey args (f, j) = arg.k ∧ arg.id.toNat = j := by
  obtain ⟨lt, rfl⟩ := List.getElem?_eq_some_iff.mp here
  refine ⟨?_, wn f j lt⟩
  unfold batchKey
  dsimp only
  rw [List.getD_eq_getElem?_getD, here, Option.getD_some]

/-- An insert only adds keys. -/
lemma SystemInv.insert_grows {C : Type*} [DecidableEq C] {k v : C → BitVec 64} {t : System C F}
    (inv : SystemInv crc k v args P t) (c : C) :
    Grows 0 t.race.ht.keys (insertStep k v c t.race).ht.keys := by
  by_cases ne : k c = 0
  · have same : insertStep k v c t.race = t.race := by
      unfold insertStep
      rw [inv.zero c ne]
    rw [same]
    exact .refl
  · obtain ⟨_, _, grows⟩ := inv.inserts.step (fun c => c.2) ⟨c, ne⟩
    rwa [← proper_step ne] at grows

/-- Before the first step nothing is promised. -/
lemma BatchesInv.start {ht : DramblastHt} {queues : F → DramblastQueue Lookup}
    {ret : F → Nat → BitVec 64} (zero : ht.AllZero)
    (idle : ∀ f, (queues f).findQueueHead = (queues f).findQueueTail) :
    BatchesInv crc backends args (fun _ _ _ => False) (batchStart crc args ht queues ret) where
  system := .start zero idle
  returns c r e := by
    unfold batchStart systemStart insertStart at e
    dsimp only at e
    split at e <;> cases e
    exact Or.inr rfl
  found _ _ _ _ mem := nomatch mem
  early _ _ := rfl
  handled _ := Nat.zero_le _
  answers _ i _ _ _ lt := absurd lt (Nat.not_lt_zero i)

/-- What is stored now is promised to every lookup that is still to be pushed. -/
lemma BatchesInv.promised (inv : BatchesInv crc backends args (fun _ _ _ => False) s) :
    BatchesInv crc backends args
      (fun f => Promised crc s.system.race.ht (args f) (s.system.finders f)) s where
  system := inv.system.promised
  returns := inv.returns
  found := inv.found
  early := inv.early
  handled := inv.handled
  answers := inv.answers

/-- The call `f` has written its answer to frame `j` of its batch. -/
def Batches.Answered (s : Batches F) (f : F) (j : Nat) : Prop :=
  ∃ i < s.handled f, ∃ r, (s.system.finders f).results[i]? = some (r, j)

/-- The steps a call takes at most, from its start. -/
lemma start_batch_work {ht : DramblastHt} {queues : F → DramblastQueue Lookup}
    {ret : F → Nat → BitVec 64} (idle : ∀ f, (queues f).findQueueHead = (queues f).findQueueTail)
    (f : F) : (batchStart crc args ht queues ret).work args f ≤
      (args f).length * (12 * (ht.len / 4) + 3 * ht.len + 3) := by
  have lookups : System.work args (systemStart crc (batchKey args) args ht queues) f =
      (args f).length * (12 * (ht.len / 4) + 1) := start_work (idle f)
  have inserts : ∑ j ∈ Finset.range (args f).length,
      (insertStart crc (batchKey args) ht).work (f, j) ≤ (args f).length * (3 * ht.len + 1) := by
    have each (j) (_ : j ∈ Finset.range (args f).length) :
        (insertStart crc (batchKey args) ht).work (f, j) ≤ 3 * ht.len + 1 := by
      unfold insertStart InsertRace.work
      dsimp only
      split
      · exact Nat.zero_le _
      · exact le_rfl
    have sum := Finset.sum_le_card_nsmul _ _ _ each
    rwa [Finset.card_range, smul_eq_mul] at sum
  unfold batchStart Batches.work
  dsimp only
  rw [lookups]
  have total : (args f).length * (12 * (ht.len / 4) + 3 * ht.len + 3) =
      (args f).length * (12 * (ht.len / 4) + 1) + (args f).length * (3 * ht.len + 1) +
        (args f).length := by ring
  rw [total]
  have sum := Nat.add_le_add_left inserts ((args f).length * (12 * (ht.len / 4) + 1))
  exact Nat.add_le_add sum (Nat.sub_le _ _)

/-- The next result of a call that has looked up its batch. -/
lemma BatchesInv.next (inv : BatchesInv crc backends args P s) (wn : ∀ f, WellNumbered (args f))
    {f : F} {r : DramblastResult} {j : Nat}
    (next : (s.system.finders f).results[s.handled f]? = some (r, j)) :
    ∃ arg, (args f)[j]? = some arg ∧ r.id.toNat = j ∧ batchKey args (f, j) = arg.k ∧
      (arg.k ≠ 0 → r.status = .found → r.v = backends.backend arg.k) := by
  obtain ⟨arg, ok⟩ := (inv.system.finders f).results _ (List.mem_of_getElem? next)
  obtain ⟨key, id⟩ := batchKey_eq wn ok.here
  refine ⟨arg, ok.here, ?_, key, fun ne found => ?_⟩
  · have same : r.id = arg.id := ok.id
    rw [same]
    exact id
  · obtain ⟨c, key', value⟩ := ok.passed ne found
    have value : backends.backend (batchKey args c) = r.v := value
    rw [← value, key']

/-- A call that has handled as many results as its batch has frames has answered all of them. -/
lemma BatchesInv.all_answered (inv : BatchesInv crc backends args P s) {f : F}
    (all : s.handled f = (args f).length) {j : Nat} (lt : j < (args f).length) :
    s.Answered f j := by
  have pc : (s.system.finders f).pc = .returned := by
    by_contra running
    rw [inv.early f running] at all
    omega
  have known := (inv.system.finders f).pc
  rw [pc] at known
  have length : (s.system.finders f).results.length = (args f).length := known
  have places := ((inv.system.finders f).returned pc).1
  obtain ⟨x, mem, place⟩ := List.mem_map.mp (places.mem_iff.mpr (List.mem_range.mpr lt))
  obtain ⟨i, at_i, here⟩ := List.getElem_of_mem mem
  refine ⟨i, by omega, x.1, ?_⟩
  rw [List.getElem?_eq_getElem at_i, here, ← place]

variable [DecidableEq F]

/-- A step of the lookups of `f` keeps the invariant. -/
lemma BatchesInv.moved {f : F} {fd : Finder} (inv : BatchesInv crc backends args P s)
    (system : SystemInv crc (batchKey args) (batchBackend backends args) args P
      { s.system with finders := Function.update s.system.finders f fd })
    (running : (s.system.finders f).pc ≠ .returned)
    (results : ∀ x ∈ fd.results, x.1.status = .found → x ∈ (s.system.finders f).results ∨
      ∀ arg, (args f)[x.2]? = some arg →
        Stored s.system.race.ht.len s.system.race.ht.keys arg.k) :
    BatchesInv crc backends args P (s.lookup f fd) := by
  have idle := inv.early f running
  unfold Batches.lookup
  have other {g : F} (ne : g ≠ f) :
      Function.update s.system.finders f fd g = s.system.finders g := Function.update_of_ne ne ..
  constructor
  · exact system
  · exact inv.returns
  · intro g r j arg mem here found
    dsimp only at mem ⊢
    by_cases at_f : g = f
    · subst at_f
      rw [Function.update_self] at mem
      rcases results (r, j) mem found with old | stored
      · exact inv.found g r j arg old here found
      · exact stored arg here
    · rw [other at_f] at mem
      exact inv.found g r j arg mem here found
  · intro g pc
    by_cases at_f : g = f
    · rw [at_f]
      exact idle
    · dsimp only at pc
      rw [other at_f] at pc
      exact inv.early g pc
  · intro g
    dsimp only
    by_cases at_f : g = f
    · rw [at_f, idle]
      exact Nat.zero_le _
    · rw [other at_f]
      exact inv.handled g
  · intro g i r j arg lt mem here
    dsimp only at lt mem ⊢
    by_cases at_f : g = f
    · rw [at_f, idle] at lt
      exact absurd lt (Nat.not_lt_zero i)
    · rw [other at_f] at mem
      exact inv.answers g i r j arg lt mem here

/-- A step of an insert keeps the invariant. -/
lemma BatchesInv.insert (inv : BatchesInv crc backends args P s) (nz : ∀ f, NonZero (args f))
    {c : F × Nat} (running : (s.system.race.pc c).ret = none) :
    let race := insertStep (batchKey args) (batchBackend backends args) c s.system.race
    BatchesInv crc backends args P { s with system := { s.system with race } } ∧
      race.ht.len = s.system.race.ht.len ∧ (∀ c', c' ≠ c → race.pc c' = s.system.race.pc c') ∧
      race.work c < s.system.race.work c := by
  intro race
  obtain ⟨system, len⟩ := inv.system.insert c
  have grows := inv.system.insert_grows c
  have ne : batchKey args c ≠ 0 := by
    intro zero
    rw [inv.system.zero c zero] at running
    cases running
  have less := inv.system.inserts.work_lt (c := ⟨c, ne⟩) running
  rw [← proper_step ne] at less
  obtain ⟨pc, def_pc, returns⟩ := insertStep_pc (batchKey args) (batchBackend backends args) running
  have self : race.pc c = pc := (congrFun def_pc c).trans (Function.update_self ..)
  have other (c' : F × Nat) (ne : c' ≠ c) : race.pc c' = s.system.race.pc c' :=
    (congrFun def_pc c').trans (Function.update_of_ne ne ..)
  refine ⟨⟨system, ?_, ?_, inv.early, inv.handled, ?_⟩, len, other, less⟩
  · intro c' r e
    by_cases at_c : c' = c
    · rw [at_c] at e
      exact returns r (self.symm.trans e)
    · exact inv.returns c' r ((other c' at_c).symm.trans e)
  · intro f r j arg mem here found
    dsimp only
    rw [len]
    exact grows.stored (nz f arg (List.mem_of_getElem? here)) (inv.found f r j arg mem here found)
  · intro f i r j arg lt mem here
    exact (inv.answers f i r j arg lt mem here).grow (nz f arg (List.mem_of_getElem? here)) len grows

/-- An answer keeps the invariant. -/
lemma BatchesInv.answer {f : F} {r : DramblastResult} {j : Nat} {arg : DramblastArg}
    {backend : BitVec 64} (inv : BatchesInv crc backends args P s)
    (pc : (s.system.finders f).pc = .returned)
    (next : (s.system.finders f).results[s.handled f]? = some (r, j))
    (here : (args f)[j]? = some arg)
    (answer : Answer backends s.system.race.ht arg.k (r.status = .found) backend) :
    BatchesInv crc backends args P (s.answer (f, j) backend) := by
  have places := (((inv.system.finders f).returned pc).1.nodup_iff).mpr List.nodup_range
  have at_next : s.handled f < (s.system.finders f).results.length :=
    (List.getElem?_eq_some_iff.mp next).1
  unfold Batches.answer
  refine ⟨inv.system, inv.returns, inv.found, ?_, ?_, ?_⟩
  · intro g pc'
    have ne : g ≠ f := by
      rintro rfl
      exact pc' pc
    dsimp only
    rw [Function.update_of_ne ne]
    exact inv.early g pc'
  · intro g
    dsimp only
    rw [Function.update_apply]
    split
    · next e =>
      rw [e]
      exact at_next
    · exact inv.handled g
  · intro g i r' j' arg' lt mem here'
    dsimp only at lt mem ⊢
    by_cases at_f : g = f
    · subst at_f
      rw [Function.update_self] at lt ⊢
      rcases Nat.lt_succ_iff_lt_or_eq.mp lt with lt | rfl
      · have apart : j' ≠ j := by
          rintro rfl
          apply List.nodup_iff_getElem?_ne_getElem?.mp places i (s.handled g) lt
          · rwa [List.length_map]
          · rw [List.getElem?_map, List.getElem?_map, mem, next]
            rfl
        rw [Function.update_of_ne apart]
        exact inv.answers g i r' j' arg' lt mem here'
      · rw [next] at mem
        cases mem
        rw [here] at here'
        cases here'
        rw [Function.update_self]
        exact answer
    · rw [Function.update_of_ne at_f] at lt ⊢
      exact inv.answers g i r' j' arg' lt mem here'

/-- An answer of `f` takes away one step of its work. -/
lemma answer_work {f : F} {j : Nat} {backend : BitVec 64} (more : s.handled f < (args f).length)
    (g : F) : (s.answer (f, j) backend).work args g + (if f = g then 1 else 0) ≤ s.work args g := by
  unfold Batches.answer Batches.work
  dsimp only
  rw [Function.update_apply]
  by_cases same : g = f
  · rw [if_pos same, if_pos same.symm, same]
    omega
  · rw [if_neg same, if_neg (Ne.symm same)]
    exact le_rfl

/-- A step of an insert of `f` takes away one step of its work. -/
lemma insert_work {f : F} {j : Nat} {race : InsertRace (F × Nat)} (lt : j < (args f).length)
    (len : race.ht.len = s.system.race.ht.len)
    (other : ∀ c, c ≠ (f, j) → race.pc c = s.system.race.pc c)
    (less : race.work (f, j) < s.system.race.work (f, j)) (g : F) :
    Batches.work args { s with system := { s.system with race } } g + (if f = g then 1 else 0) ≤
      s.work args g := by
  have away (c : F × Nat) (ne : c ≠ (f, j)) : race.work c = s.system.race.work c := by
    unfold InsertRace.work
    rw [len, other c ne]
  unfold Batches.work System.work
  dsimp only
  rw [len]
  by_cases same : f = g
  · subst same
    have sum : ∑ i ∈ Finset.range (args f).length, race.work (f, i) <
        ∑ i ∈ Finset.range (args f).length, s.system.race.work (f, i) := by
      apply Finset.sum_lt_sum
      · intro i _
        by_cases at_j : i = j
        · rw [at_j]
          exact less.le
        · rw [away (f, i) fun e => at_j (congrArg Prod.snd e)]
      · exact ⟨j, Finset.mem_range.mpr lt, less⟩
    rw [if_pos rfl]
    omega
  · rw [if_neg same, Finset.sum_congr rfl fun i _ => ?_, Nat.add_zero]
    rw [away (g, i) fun e => same (congrArg Prod.fst e).symm]

/-- A step in the loop over the results keeps the invariant and takes work away. -/
lemma BatchesInv.process (inv : BatchesInv crc backends args P s) (wn : ∀ f, WellNumbered (args f))
    (nz : ∀ f, NonZero (args f)) {f : F} (step : processStep backends args f s = some s') :
    BatchesInv crc backends args P s' ∧ s'.system.race.ht.len = s.system.race.ht.len ∧
      ∀ g, s'.work args g + (if f = g then 1 else 0) ≤ s.work args g := by
  unfold processStep at step
  cases pc : (s.system.finders f).pc with
  | fill | load _ _ | value _ _ =>
    rw [pc] at step
    cases step
  | returned =>
    rw [pc] at step
    cases next : (s.system.finders f).results[s.handled f]? with
    | none =>
      rw [next] at step
      cases step
    | some x =>
      obtain ⟨r, j⟩ := x
      obtain ⟨arg, here, id, key, value⟩ := inv.next wn next
      have ne : arg.k ≠ 0 := nz f arg (List.mem_of_getElem? here)
      have more : s.handled f < (args f).length := by
        have known := (inv.system.finders f).pc
        rw [pc] at known
        rw [← known]
        exact (List.getElem?_eq_some_iff.mp next).1
      rw [next] at step
      dsimp only at step
      rw [id] at step
      have done {backend : BitVec 64}
          (answer : Answer backends s.system.race.ht arg.k (r.status = .found) backend) :
          BatchesInv crc backends args P (s.answer (f, j) backend) ∧
            (s.answer (f, j) backend).system.race.ht.len = s.system.race.ht.len ∧
            ∀ g, (s.answer (f, j) backend).work args g + (if f = g then 1 else 0) ≤ s.work args g :=
        ⟨inv.answer pc next here answer, rfl, answer_work more⟩
      cases status : r.status with
      | found =>
        rw [status] at step
        cases step
        refine done (Or.inl ⟨value ne status, ?_⟩)
        exact inv.found f r j arg (List.mem_of_getElem? next) here status
      | tableFull =>
        rw [status] at step
        cases step
        exact done (Or.inr ⟨rfl, by rw [status]; exact nofun⟩)
      | absent =>
        rw [status] at step
        dsimp only at step
        cases e : s.system.race.pc (f, j) with
        | returned x =>
          rw [e] at step
          cases step
          refine done ?_
          rcases inv.returns (f, j) x e with rfl | rfl
          · have stored := (inv.system.stored (c := (f, j)) (by rw [e]; rfl)).2
            rw [key] at stored
            exact Or.inl ⟨congrArg backends.backend key, stored⟩
          · exact Or.inr ⟨rfl, by rw [status]; exact nofun⟩
        | load _ _ | swap _ _ | reload _ _ | assign _ _ =>
          rw [e] at step
          cases step
          obtain ⟨inv', len, other, less⟩ := inv.insert nz (c := (f, j)) (by rw [e]; rfl)
          have lt : j < (args f).length := (List.getElem?_eq_some_iff.mp here).1
          exact ⟨inv', len, insert_work lt len other less⟩

/-- Every step keeps the invariant and the length of the table, and a call's own steps take its work
    away. -/
lemma BatchesInv.step (inv : BatchesInv crc backends args P s) (wn : ∀ f, WellNumbered (args f))
    (nz : ∀ f, NonZero (args f)) {e : BatchEvent F} (step : batchStep crc backends args s e = some s') :
    BatchesInv crc backends args P s' ∧ s'.system.race.ht.len = s.system.race.ht.len ∧
      ∀ g, s'.work args g + (if e.isOf g then 1 else 0) ≤ s.work args g := by
  have lookups {f : F} {fd : Finder} (system' : SystemInv crc (batchKey args)
        (batchBackend backends args) args P
        { s.system with finders := Function.update s.system.finders f fd } ∧
        ∀ g, System.work args { s.system with finders := Function.update s.system.finders f fd } g +
          (if f = g then 1 else 0) ≤ s.system.work args g)
      (running : (s.system.finders f).pc ≠ .returned)
      (results : ∀ x ∈ fd.results, x.1.status = .found → x ∈ (s.system.finders f).results ∨
        ∀ arg, (args f)[x.2]? = some arg →
          Stored s.system.race.ht.len s.system.race.ht.keys arg.k) :
      BatchesInv crc backends args P (s.lookup f fd) ∧
        ∀ g, (s.lookup f fd).work args g + (if f = g then 1 else 0) ≤ s.work args g := by
    refine ⟨inv.moved system'.1 running results, fun g => ?_⟩
    have paid := system'.2 g
    unfold Batches.work Batches.lookup
    dsimp only at paid ⊢
    omega
  cases e with
  | find f =>
    unfold batchStep systemStep at step
    dsimp only at step
    rw [Option.map_map, Option.map_eq_some_iff] at step
    obtain ⟨fd, step, rfl⟩ := step
    have finder := (inv.system.finders f).step inv.system.chained inv.system.origin step
    have moved := lookups (inv.system.moved finder) (findStep_running step) fun x mem found => by
      refine (findStep_results step mem found).imp_right ?_
      rintro ⟨item, offset, pc, place⟩ arg here
      have known := (inv.system.finders f).pc
      rw [pc] at known
      obtain ⟨arg', b, at_, i, _, hit⟩ := known
      have same : arg' = arg := by
        have here' := at_.here
        rw [← place, here] at here'
        exact (Option.some.inj here').symm
      rw [same] at hit
      exact ⟨_, DramblastHt.probe_lt, hit (nz f arg (List.mem_of_getElem? here))⟩
    refine ⟨moved.1, rfl, fun g => ?_⟩
    simpa only [BatchEvent.isOf, decide_eq_true_eq, Function.comp, Batches.lookup] using moved.2 g
  | lane f l =>
    unfold batchStep systemStep at step
    dsimp only at step
    rw [Option.map_map, Option.map_eq_some_iff] at step
    obtain ⟨fd, step, rfl⟩ := step
    obtain ⟨results, running⟩ := laneStep_results step
    have moved := lookups (inv.system.moved ((inv.system.finders f).lane step)) running
      fun x mem _ => Or.inl (results ▸ mem)
    refine ⟨moved.1, rfl, fun g => ?_⟩
    simpa only [BatchEvent.isOf, decide_eq_true_eq, Function.comp, Batches.lookup] using moved.2 g
  | process f =>
    obtain ⟨inv', len, paid⟩ := inv.process wn nz step
    refine ⟨inv', len, fun g => ?_⟩
    simpa only [BatchEvent.isOf, decide_eq_true_eq] using paid g

/-- Every run keeps the invariant, and the work of a call pays for its steps. -/
lemma BatchesInv.run (inv : BatchesInv crc backends args P s) (wn : ∀ f, WellNumbered (args f))
    (nz : ∀ f, NonZero (args f)) {schedule : List (BatchEvent F)}
    (run : batchRun crc backends args schedule s = some s') :
    BatchesInv crc backends args P s' ∧ s'.system.race.ht.len = s.system.race.ht.len ∧
      ∀ g, s'.work args g + schedule.countP (BatchEvent.isOf g) ≤ s.work args g := by
  induction schedule generalizing s with
  | nil =>
    cases run
    exact ⟨inv, rfl, fun g => le_rfl⟩
  | cons e schedule ih =>
    unfold batchRun at run
    rw [Option.bind_eq_some_iff] at run
    obtain ⟨next, step, run⟩ := run
    obtain ⟨inv', len, paid⟩ := inv.step wn nz step
    obtain ⟨inv'', len', paid'⟩ := ih inv' run
    refine ⟨inv'', len'.trans len, fun g => ?_⟩
    have now := paid g
    have later := paid' g
    rw [List.countP_cons]
    omega

/-- A call that has results left to handle can go on. -/
lemma BatchesInv.live (inv : BatchesInv crc backends args P s) {f : F}
    (more : s.handled f < (args f).length) :
    ∃ e : BatchEvent F, e.isOf f ∧ (batchStep crc backends args s e).isSome := by
  by_cases pc : (s.system.finders f).pc = .returned
  · refine ⟨.process f, decide_eq_true rfl, ?_⟩
    have known := (inv.system.finders f).pc
    rw [pc] at known
    have lt : s.handled f < (s.system.finders f).results.length := known ▸ more
    unfold batchStep processStep
    dsimp only
    rw [pc, List.getElem?_eq_getElem lt]
    dsimp only
    split
    · split <;> rfl
    · rfl
    · rfl
  · rcases finder_enabled crc s.system.race.ht (args f) pc with step | ⟨l, step⟩
    · refine ⟨.find f, decide_eq_true rfl, ?_⟩
      unfold batchStep systemStep
      simpa only [Option.isSome_map] using step
    · refine ⟨.lane f l, decide_eq_true rfl, ?_⟩
      unfold batchStep systemStep
      simpa only [Option.isSome_map] using step

/-- However the lcores interleave: an answer is the backend of its flow, or 0; once a frame of a flow
    has got the backend, so does every frame of the flow whose lookup starts later, on any lcore; and
    a call is never blocked, and answers all frames of its batch within a bound on its own steps. -/
theorem batches_keep_flows (crc : BitVec 64 → BitVec 64) (backends : LookUpTable)
    (args : F → List DramblastArg) (ht : DramblastHt) (queues : F → DramblastQueue Lookup)
    (ret : F → Nat → BitVec 64) (first rest : List (BatchEvent F)) (earlier s : Batches F)
    (zero : ht.AllZero) (idle : ∀ f, (queues f).findQueueHead = (queues f).findQueueTail)
    (wn : ∀ f, WellNumbered (args f)) (nz : ∀ f, NonZero (args f))
    (run : batchRun crc backends args first (batchStart crc args ht queues ret) = some earlier)
    (run' : batchRun crc backends args rest earlier = some s) :
    (∀ f j arg, s.Answered f j → (args f)[j]? = some arg →
      s.ret f j = backends.backend arg.k ∨ s.ret f j = 0) ∧
    (∀ f g i j arg arg', earlier.Answered f i → earlier.ret f i ≠ 0 → (args f)[i]? = some arg →
      (args g)[j]? = some arg' → arg.k = arg'.k →
      (earlier.system.finders g).argsHead ≤ j → s.Answered g j →
        s.ret g j = backends.backend arg.k) ∧
    (∀ f, (first ++ rest).countP (BatchEvent.isOf f) ≤
      (args f).length * (12 * (ht.len / 4) + 3 * ht.len + 3)) ∧
    (∀ f, s.handled f < (args f).length →
      ∃ e : BatchEvent F, e.isOf f ∧ (batchStep crc backends args s e).isSome) ∧
    ∀ f, s.handled f = (args f).length → ∀ j < (args f).length, s.Answered f j := by
  obtain ⟨inv, len, paid⟩ := (BatchesInv.start zero idle).run wn nz run
  obtain ⟨inv', len', paid'⟩ := inv.promised.run wn nz run'
  refine ⟨?_, ?_, ?_, fun f more => inv'.live more, ?_⟩
  · rintro f j arg ⟨i, lt, r, next⟩ here
    exact (inv'.answers f i r j arg lt next here).imp And.left And.left
  · rintro f g i j arg arg' ⟨n, lt, r, next⟩ mapped here here' same pushed ⟨n', lt', r', next'⟩
    have stored : Stored earlier.system.race.ht.len earlier.system.race.ht.keys arg.k := by
      rcases inv.answers f n r i arg lt next here with answer | answer
      · exact answer.2
      · exact absurd answer.1 mapped
    obtain ⟨slot, in_table, key⟩ := stored
    obtain ⟨p, hp, rfl⟩ := slotAt_surj (dramblastHash crc earlier.system.race.ht arg'.k) in_table
    obtain ⟨_, ok⟩ := (inv'.system.finders g).results _ (List.mem_of_getElem? next')
    have found : r'.status = .found := ok.promised p
      ⟨pushed, arg', here', nz g arg' (List.mem_of_getElem? here'), hp, key.trans same⟩
    rcases inv'.answers g n' r' j arg' lt' next' here' with answer | answer
    · rw [same]
      exact answer.1
    · exact absurd found answer.2
  · intro f
    have before := paid f
    have after := paid' f
    have whole : (batchStart crc args ht queues ret).work args f ≤
        (args f).length * (12 * (ht.len / 4) + 3 * ht.len + 3) := start_batch_work idle f
    rw [List.countP_append]
    omega
  · exact fun f all j lt => inv'.all_answered all lt

/-- Two lcores get frames of one flow; the second looks its frame up once the first has inserted it. -/
theorem batches_keep_flows_twoLcores :
    let args : Fin 2 → List DramblastArg := fun _ => [{ k := 5, id := 0 }]
    let ht := dramblastInit 8 ⟨3, by decide, by decide, rfl⟩
      fun _ _ => { k := 0, idx := 0, visitCount := 0, id := 0 }
    let queue : DramblastQueue Lookup :=
      { findQueue := fun _ => ({ k := 0, idx := 0, visitCount := 0, id := 0 }, 0)
        findQueueHead := 0, findQueueTail := 0, findQueueSize := dramblastFindQueueSize
        size_eq := rfl, head_lt := by decide, tail_lt := by decide }
    let lanes (f : Fin 2) : List (BatchEvent (Fin 2)) :=
      [.find f, .find f, .lane f 0, .lane f 1, .lane f 2, .lane f 3, .lane f 4, .lane f 5,
        .lane f 6, .lane f 7, .find f]
    let first := lanes 0 ++ [.process 0, .process 0, .process 0]
    let rest := lanes 1 ++ [.find 1, .process 1]
    ∃ earlier s,
      batchRun (·) (fun _ => 7) args first (batchStart (·) args ht (fun _ => queue) fun _ _ => 0) =
        some earlier ∧
      batchRun (·) (fun _ => 7) args rest earlier = some s ∧ earlier.ret 0 0 = 7 ∧ s.ret 1 0 = 7 := by
  intro args ht queue lanes first rest
  have before : (batchRun (·) (fun _ => 7) args first
      (batchStart (·) args ht (fun _ => queue) fun _ _ => 0)).map (fun s => (s.ret 0 0,
        s.handled 0, (s.system.finders 0).results, (s.system.finders 1).argsHead)) =
      some (7, 1, [({ v := 0, id := 0, status := .absent }, 0)], 0) := by decide +kernel
  have after : ((batchRun (·) (fun _ => 7) args first
      (batchStart (·) args ht (fun _ => queue) fun _ _ => 0)).bind
        (batchRun (·) (fun _ => 7) args rest)).map (fun s => (s.handled 1,
          (s.system.finders 1).results)) =
      some (1, [({ v := 7, id := 0, status := .found }, 0)]) := by decide +kernel
  obtain ⟨earlier, run, seen⟩ := Option.map_eq_some_iff.mp before
  rw [run, Option.bind_some] at after
  obtain ⟨s, run', seen'⟩ := Option.map_eq_some_iff.mp after
  simp only [Prod.mk.injEq] at seen seen'
  obtain ⟨answer, handled, results, head⟩ := seen
  obtain ⟨handled', results'⟩ := seen'
  have keeps := (batches_keep_flows (·) (fun _ => 7) args ht (fun _ => queue) (fun _ _ => 0) first
    rest earlier s (fun _ _ => rfl) (fun _ => rfl) (fun _ => by unfold WellNumbered; decide)
    (fun _ => by unfold NonZero; decide) run run').2.1
  have mapped : earlier.ret 0 0 ≠ 0 := by
    rw [answer]
    decide
  exact ⟨earlier, s, run, run', answer, keeps 0 1 0 0 { k := 5, id := 0 } { k := 5, id := 0 }
    ⟨0, by rw [handled]; decide, _, by rw [results]; rfl⟩ mapped rfl rfl rfl (by rw [head])
    ⟨0, by rw [handled']; decide, _, by rw [results']; rfl⟩⟩

end NetBlast.Concurrent
