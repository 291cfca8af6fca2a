import NetBlast.Sashstore.Outcomes
import NetBlast.Probing.Race

/-!
# Runs of requests

The store from `sashstore_init` on, under any sequence of requests. A slot that is in use was either
set by a request of the run, or in use when the run began (`Traced`). `sashstore_init` leaves the
memory that `aligned_alloc` returns as it is, so the second kind exists: once the table has filled
up, every key that the memory happened to contain is found (`RequestRun.phantom`). `no_phantom_iff`
says for which memory the store is free of phantoms.
-/

namespace NetBlast.Sashstore
open Probing Hashmap

/-- `sashstore_init`, for the memory `aligned_alloc` returns; without memory the program exits. -/
def sashstoreInit (mem : Option (Nat → SashstoreKvPair)) : Option SashstoreState :=
  mem.map fun pairs =>
    { kvstore := { pairs }
      totalSet := 0
      totalGet := 0
      totalStored := 0
      totalNotStored := 0
      totalRetrieved := 0
      totalNotFound := 0 }

/-- A request, what `handle_network_request` returned for it, and the payload it left. -/
structure Exchange where
  request : Buffer
  ret : Int
  reply : Buffer

/-- The runs of requests, with their history, newest exchange first. -/
inductive RequestRun (cap : Capacity) (st₀ : SashstoreState) :
    List Exchange → SashstoreState → Prop where
  | start :
    RequestRun cap st₀ [] st₀
  | request {past st ret reply st'} (payload : Buffer) :
    RequestRun cap st₀ past st →
    handleNetworkRequest cap st payload = some (ret, reply, st') →
    RequestRun cap st₀ ({ request := payload, ret, reply } :: past) st'

namespace Exchange

/-- A set request that stored `value` for `key`. -/
structure Stores (x : Exchange) (key value : Block) : Prop where
  request : IsSet x.request key
  value : readBlock x.request SetRequest.value.off = some value
  ret : x.ret = SetResponse.sizeof

/-- The reply is a VALUE reply. -/
structure AnswersValue (x : Exchange) : Prop where
  ret : x.ret = GetResponse.sizeof
  text : readBytes x.reply GetResponse.valueStr.off GetResponse.valueStr.size = some valueText

/-- The reply is NOT_FOUND. -/
structure AnswersNotFound (x : Exchange) : Prop where
  ret : x.ret = (ascii "NOT_FOUND").length
  text : readBytes x.reply 0 (ascii "NOT_FOUND").length = some (ascii "NOT_FOUND")

/-- A get after the exchanges `earlier` has a value that one of them stored for its key, and finds
    nothing if none of them was a set of its key. -/
def Sound (x : Exchange) (earlier : List Exchange) : Prop :=
  ∀ key, IsGet x.request key →
    (x.AnswersValue → ∃ value, readBlock x.reply GetResponse.value.off = some value ∧
      ∃ y ∈ earlier, y.Stores key value) ∧
    ((∀ y ∈ earlier, ¬ IsSet y.request key) → x.AnswersNotFound)

end Exchange

/-- No get of the history read a phantom. -/
def NoPhantom : List Exchange → Prop
  | [] => True
  | x :: earlier => x.Sound earlier ∧ NoPhantom earlier

/-- Every slot in use was set by a request of the history. -/
def Traced (cap : Capacity) (past : List Exchange) (map : SashstoreHashmap) : Prop :=
  ∀ s < cap.val, map.keys s ≠ emptyKey → ∃ y ∈ past, y.Stores (map.keys s) (map.values s)

variable {cap : Capacity} {st₀ st st' : SashstoreState} {payload reply : Buffer} {ret : Int}
  {past : List Exchange} {key value : Block}

/-- A longer history explains what a shorter one does. -/
lemma Traced.older {x map} (traced : Traced cap past map) : Traced cap (x :: past) map := by
  intro s hs occ
  obtain ⟨y, mem, stores⟩ := traced s hs occ
  exact ⟨y, List.mem_cons_of_mem _ mem, stores⟩

/-- A request leaves every slot in use traced. -/
lemma Traced.request (traced : Traced cap past st.kvstore)
    (outcome : Outcome cap st payload ret reply st') :
    Traced cap ({ request := payload, ret, reply } :: past) st'.kvstore := by
  cases outcome with
  | @stored key value slot _ set landed given written =>
    intro s hs occ
    rw [SashstoreHashmap.keys_write, SashstoreHashmap.values_write] at *
    by_cases here : s = slot
    · subst here
      rw [Function.update_self, Function.update_self]
      exact ⟨_, List.mem_cons_self, set, given, rfl⟩
    · rw [Function.update_of_ne here] at occ
      rw [Function.update_of_ne here, Function.update_of_ne here]
      exact traced.older s hs occ
  | notStored => exact traced.older
  | hit => exact traced.older
  | miss => exact traced.older
  | unknown => exact traced.older

/-- A get from a traced store is sound. -/
lemma Traced.sound (traced : Traced cap past st.kvstore)
    (outcome : Outcome cap st payload ret reply st') :
    Exchange.Sound { request := payload, ret, reply } past := by
  intro key get
  cases outcome with
  | stored set => exact absurd get set.not_get
  | notStored set => exact absurd get set.not_get
  | hit get' found built =>
    rw [get.unique get'] at found
    obtain ⟨lt, here, ne⟩ := sashstoreHashmapGet_some found
    obtain ⟨y, mem, stores⟩ := traced _ lt (by rwa [here])
    rw [here] at stores
    obtain ⟨answer, _⟩ := buildGetResponse_spec built get.key
    exact ⟨fun _ => ⟨_, answer.value, y, mem, stores⟩, fun never => absurd stores.request (never y mem)⟩
  | miss get' missed written =>
    refine ⟨fun value => ?_, fun _ => ⟨rfl, ?_⟩⟩
    · have differ : ((ascii "NOT_FOUND").length : Int) ≠ GetResponse.sizeof := by decide
      exact absurd value.ret differ
    · exact readBytes_take (readBytes_write_self written)
  | unknown unknown => exact absurd get unknown.not_isGet

/-- In a run from a store without keys, every slot in use is traced and no get reads a phantom. -/
lemma RequestRun.sound (run : RequestRun cap st₀ past st)
    (free : ∀ s < cap.val, st₀.kvstore.keys s = emptyKey) :
    Traced cap past st.kvstore ∧ NoPhantom past := by
  induction run with
  | start => exact ⟨fun s hs occ => absurd (free s hs) occ, trivial⟩
  | request payload _ call ih =>
    obtain ⟨traced, sound⟩ := ih
    rw [handleNetworkRequest_iff] at call
    exact ⟨traced.request call, traced.sound call, sound⟩

/-- A set request of `key` and `value`. -/
def setRequest (key value : Block) : Buffer :=
  List.replicate RequestHdr.modeStr.off 0 ++ ascii "set " ++ List.ofFn key ++
    List.replicate (SetRequest.value.off - SetRequest.key.stop) 0 ++ List.ofFn value ++ [13, 10]

/-- A get request of `key`, in a buffer that can hold the reply. -/
def getRequest (key : Block) : Buffer :=
  List.replicate RequestHdr.modeStr.off 0 ++ ascii "get " ++ List.ofFn key ++
    List.replicate (GetResponse.sizeof - GetRequest.key.stop) 0

/-- A set request is one. -/
lemma isSet_setRequest : IsSet (setRequest key value) key where
  mode := by
    unfold setRequest
    rw [List.append_assoc, List.append_assoc, List.append_assoc]
    exact readBytes_append List.length_replicate rfl
  key := by
    unfold setRequest
    rw [List.append_assoc, List.append_assoc]
    apply readBlock_append
    rw [List.length_append, List.length_replicate]
    rfl

/-- The value of a set request. -/
lemma value_setRequest : readBlock (setRequest key value) SetRequest.value.off = some value := by
  unfold setRequest
  apply readBlock_append
  simp only [List.length_append, List.length_replicate, List.length_ofFn]
  rfl

/-- A get request is one. -/
lemma isGet_getRequest : IsGet (getRequest key) key where
  mode := by
    unfold getRequest
    rw [List.append_assoc]
    exact readBytes_append List.length_replicate rfl
  key := by
    unfold getRequest
    apply readBlock_append
    rw [List.length_append, List.length_replicate]
    rfl

/-- A get request has room for its response. -/
lemma length_getRequest : (getRequest key).length = GetResponse.sizeof := by
  unfold getRequest
  simp only [List.length_append, List.length_replicate, List.length_ofFn]
  rfl

/-- There are more keys than a table has slots, even without two of them. -/
lemma exists_keys (cap : Capacity) (key : Block) :
    ∃ T : Finset Block, cap.val < T.card ∧ ∀ k ∈ T, k ≠ key ∧ k ≠ emptyKey := by
  let octets : Fintype Byte := Fintype.ofEquiv (Fin (2 ^ 8))
    ⟨BitVec.ofFin, BitVec.toFin, fun _ => rfl, fun _ => rfl⟩
  have card_octets : Fintype.card Byte = 2 ^ 8 := by
    rw [Fintype.ofEquiv_card, Fintype.card_fin]
  have card : 2 ^ 128 ≤ Fintype.card Block := by
    rw [Fintype.card_fun, card_octets, Fintype.card_fin, ← pow_mul]
    exact Nat.pow_le_pow_right (by decide) (by decide)
  obtain ⟨m, lt, e⟩ := cap.pow
  have small : cap.val < 2 ^ 64 := by
    rw [e]
    exact Nat.pow_lt_pow_right (by omega) lt
  refine ⟨(Finset.univ.erase key).erase emptyKey, ?_, ?_⟩
  · have first := Finset.card_erase_add_one (Finset.mem_univ key)
    have second := Finset.pred_card_le_card_erase (s := Finset.univ.erase key) (a := emptyKey)
    rw [Finset.card_univ] at first
    omega
  · simp only [Finset.mem_erase]
    rintro k ⟨not_empty, other, _⟩
    exact ⟨other, not_empty⟩

/-- Set requests for the keys `keys` store them all, or fill the table; keys that are there stay. -/
lemma exists_fill (cap : Capacity) (st₀ : SashstoreState) (keys : List Block)
    (ne : ∀ k ∈ keys, k ≠ emptyKey) :
    ∃ past st, RequestRun cap st₀ past st ∧ (∀ y ∈ past, ∃ k ∈ keys, IsSet y.request k) ∧
      Grows emptyKey st₀.kvstore.keys st.kvstore.keys ∧
      (Full cap.val emptyKey st.kvstore.keys ∨ ∀ k ∈ keys, Stored cap.val st.kvstore.keys k) := by
  induction keys with
  | nil => exact ⟨[], st₀, .start, nofun, Grows.refl, Or.inr nofun⟩
  | cons key keys ih =>
    obtain ⟨past, st, run, sets, grows, kept⟩ := ih fun k mem => ne k (List.mem_cons_of_mem _ mem)
    have set : IsSet (setRequest key fun _ => 0) key := isSet_setRequest
    obtain ⟨ret, reply, st', outcome, changed⟩ := exists_set cap st set value_setRequest
    refine ⟨_, st', .request (setRequest key fun _ => 0) run (handleNetworkRequest_iff.mpr outcome),
      ?_, ?_⟩
    · intro y mem
      rcases List.mem_cons.mp mem with rfl | old
      · exact ⟨key, List.mem_cons_self, set⟩
      · obtain ⟨k, mem, set⟩ := sets y old
        exact ⟨k, List.mem_cons_of_mem _ mem, set⟩
    · rcases changed with ⟨refused, same⟩ | ⟨s, landed, updated⟩
      · rw [same]
        exact ⟨grows, Or.inl (sashstoreInsertSlot_none.mp refused).1⟩
      · have lt := (sashstoreInsertSlot_some landed).1
        rw [sashstoreInsertSlot_eq] at landed
        rw [updated]
        have grows' := Grows.landing landed
        refine ⟨grows.trans grows', ?_⟩
        rcases kept with full | stored
        · exact Or.inl (grows'.full full)
        · right
          intro k mem
          rcases List.mem_cons.mp mem with rfl | old
          · exact Stored.update_self lt
          · exact grows'.stored (ne k (List.mem_cons_of_mem _ old)) (stored k old)

/-- A get for a key that fills a slot of a full table, but was never set, reads a phantom. -/
lemma RequestRun.phantom (run : RequestRun cap st₀ past st)
    (full : Full cap.val emptyKey st.kvstore.keys) (stored : Stored cap.val st.kvstore.keys key)
    (unset : ∀ y ∈ past, ¬ IsSet y.request key) :
    ∃ x st', RequestRun cap st₀ (x :: past) st' ∧ x.request = getRequest key ∧
      ¬ NoPhantom (x :: past) := by
  obtain ⟨s, found⟩ := sashstoreHashmapGet_full full stored
  have get : IsGet (getRequest key) key := isGet_getRequest
  obtain ⟨reply, built⟩ := buildGetResponse_of_le (st.kvstore.values s)
    (by rw [length_getRequest]; decide) get.key
  refine ⟨_, _, .request (getRequest key) run (handleNetworkRequest_iff.mpr (.hit get found built)),
    rfl, ?_⟩
  rintro ⟨sound, _⟩
  have missed := ((sound key get).2 unset).ret
  have differ : (GetResponse.sizeof : Int) ≠ (ascii "NOT_FOUND").length := by decide
  exact differ missed

/-- No get of any run reads a phantom exactly if the memory that `sashstore_init` received has the
    empty key in every slot. -/
theorem no_phantom_iff (cap : Capacity) (mem : Nat → SashstoreKvPair) :
    (∀ st₀ past st, sashstoreInit (some mem) = some st₀ → RequestRun cap st₀ past st →
      NoPhantom past) ↔ ∀ s < cap.val, (mem s).key = emptyKey := by
  constructor
  · intro sound s hs
    by_contra occ
    obtain ⟨st₀, init⟩ : ∃ st₀, sashstoreInit (some mem) = some st₀ := ⟨_, rfl⟩
    have start : st₀.kvstore = { pairs := mem } := by
      cases init
      rfl
    have there : Stored cap.val st₀.kvstore.keys (mem s).key := ⟨s, hs, by rw [start]; rfl⟩
    obtain ⟨T, many, other⟩ := exists_keys cap (mem s).key
    obtain ⟨past, st, run, sets, grows, kept⟩ := exists_fill cap st₀ T.toList fun k mem' =>
      (other k (Finset.mem_toList.mp mem')).2
    -- more keys than slots cannot all be stored
    have full : Full cap.val emptyKey st.kvstore.keys := by
      rcases kept with full | stored
      · exact full
      · have sub : T ⊆ storedKeys cap.val emptyKey st.kvstore.keys := fun k mem' =>
          mem_storedKeys.mpr ⟨(other k mem').2, stored k (Finset.mem_toList.mpr mem')⟩
        have := (Finset.card_le_card sub).trans card_storedKeys_le
        omega
    have unset : ∀ y ∈ past, ¬ IsSet y.request (mem s).key := by
      intro y mem' set
      obtain ⟨k, mem'', set'⟩ := sets y mem'
      exact (other k (Finset.mem_toList.mp mem'')).1 (set.unique set')
    obtain ⟨x, st', run', _, phantom⟩ := run.phantom full (grows.stored occ there) unset
    exact phantom (sound st₀ (x :: past) st' init run')
  · intro free st₀ past st init run
    cases init
    exact (run.sound free).2

/-- Memory with a pair in every slot. -/
def garbage : Nat → SashstoreKvPair :=
  fun _ => { key := fun _ => 0x61, value := fun _ => 1 }

/-- Memory that happens to hold a pair is read back by the first get. -/
theorem no_phantom_garbage :
    ∃ st₀ past st, sashstoreInit (some garbage) = some st₀ ∧ RequestRun fourSlots st₀ past st ∧
      past.map (·.request) = [getRequest fun _ => 0x61] ∧ ¬ NoPhantom past := by
  obtain ⟨st₀, init⟩ : ∃ st₀, sashstoreInit (some garbage) = some st₀ := ⟨_, rfl⟩
  have keys (s : Nat) : st₀.kvstore.keys s = fun _ => 0x61 := by
    cases init
    rfl
  have full : Full fourSlots.val emptyKey st₀.kvstore.keys := by
    intro s _
    rw [keys]
    decide +kernel
  have begun : RequestRun fourSlots st₀ [] st₀ := .start
  obtain ⟨x, st, run, request, phantom⟩ := begun.phantom full ⟨0, by decide, keys 0⟩ nofun
  exact ⟨st₀, [x], st, init, run, by rw [List.map_singleton, request], phantom⟩

end NetBlast.Sashstore
