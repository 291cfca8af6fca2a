import NetBlast.Sashstore.Request

/-!
# The outcomes of a request

Everything `handle_network_request` can do with a request: a set is stored or not, a get hits or
misses, and a request with any other mode string is printed. `handleNetworkRequest_iff` reads the
handler as this case distinction, and the results about runs of requests use nothing else of it.
-/

namespace NetBlast.Sashstore
open Probing Hashmap

/-- The payload is a set request of `key`. -/
structure IsSet (payload : Buffer) (key : Block) : Prop where
  mode : readBytes payload RequestHdr.modeStr.off RequestHdr.modeStr.size = some (ascii "set ")
  key : readBlock payload SetRequest.key.off = some key

/-- The payload is a get request of `key`. -/
structure IsGet (payload : Buffer) (key : Block) : Prop where
  mode : readBytes payload RequestHdr.modeStr.off RequestHdr.modeStr.size = some (ascii "get ")
  key : readBlock payload GetRequest.key.off = some key

/-- The payload has another mode string. -/
structure IsUnknown (payload : Buffer) (text : List Byte) : Prop where
  mode : readBytes payload RequestHdr.modeStr.off RequestHdr.modeStr.size = some text
  not_set : text ≠ ascii "set "
  not_get : text ≠ ascii "get "

/-- What `handle_network_request` does with a payload: what it returns, and the payload and the
    store afterwards. -/
inductive Outcome (cap : Capacity) (st : SashstoreState) (payload : Buffer) :
    Int → Buffer → SashstoreState → Prop where
  | stored {key value : Block} {slot reply} :
    IsSet payload key →
    sashstoreInsertSlot cap st.kvstore key = some slot →
    readBlock payload SetRequest.value.off = some value →
    writeBytes payload SetResponse.value.off storedText = some reply →
    Outcome cap st payload SetResponse.sizeof reply
      { st with
        kvstore := st.kvstore.write slot { key, value }
        totalStored := st.totalStored + 1
        totalSet := st.totalSet + 1 }
  | notStored {key : Block} {reply} :
    IsSet payload key →
    sashstoreInsertSlot cap st.kvstore key = none →
    writeBytes payload 0 (ascii "NOT_STORED" ++ [0]) = some reply →
    Outcome cap st payload (ascii "NOT_STORED").length reply
      { st with
        totalNotStored := st.totalNotStored + 1
        totalSet := st.totalSet + 1 }
  | hit {key : Block} {slot reply} :
    IsGet payload key →
    sashstoreHashmapGet cap st.kvstore key = some slot →
    buildGetResponse payload (st.kvstore.values slot) = some reply →
    Outcome cap st payload GetResponse.sizeof reply
      { st with
        totalRetrieved := st.totalRetrieved + 1
        totalGet := st.totalGet + 1 }
  | miss {key : Block} {reply} :
    IsGet payload key →
    sashstoreHashmapGet cap st.kvstore key = none →
    writeBytes payload 0 (ascii "NOT_FOUND" ++ [0]) = some reply →
    Outcome cap st payload (ascii "NOT_FOUND").length reply
      { st with
        totalNotFound := st.totalNotFound + 1
        totalGet := st.totalGet + 1 }
  | unknown {text printed} :
    IsUnknown payload text →
    readString payload RequestHdr.modeStr.off = some printed →
    Outcome cap st payload (-1) payload st

variable {cap : Capacity} {st st' : SashstoreState} {payload reply : Buffer} {ret : Int}
  {key value : Block}

/-- The commands differ. -/
lemma set_ne_get : ascii "set " ≠ ascii "get " := by decide

/-- A request has one mode string and one key. -/
lemma IsSet.unique {key'} (set : IsSet payload key) (set' : IsSet payload key') : key' = key :=
  Option.some.inj (set'.key.symm.trans set.key)

/-- A get request has one key. -/
lemma IsGet.unique {key'} (get : IsGet payload key) (get' : IsGet payload key') : key' = key :=
  Option.some.inj (get'.key.symm.trans get.key)

/-- A set request is no get request. -/
lemma IsSet.not_get {key'} (set : IsSet payload key) : ¬ IsGet payload key' :=
  fun get => set_ne_get (Option.some.inj (set.mode.symm.trans get.mode))

/-- An unknown request is no get request. -/
lemma IsUnknown.not_isGet {text} (unknown : IsUnknown payload text) : ¬ IsGet payload key :=
  fun get => unknown.not_get (Option.some.inj (unknown.mode.symm.trans get.mode))

/-- A set request is handled as one. -/
lemma handle_set (set : IsSet payload key) :
    handleNetworkRequest cap st payload = handleSet cap st payload := by
  rw [handleNetworkRequest, set.mode, Option.bind_eq_bind, Option.bind_some, if_pos rfl]

/-- A get request is handled as one. -/
lemma handle_get (get : IsGet payload key) :
    handleNetworkRequest cap st payload = handleGet cap st payload := by
  rw [handleNetworkRequest, get.mode, Option.bind_eq_bind, Option.bind_some,
    if_neg set_ne_get.symm, if_pos rfl]

/-- A set is stored, or is refused. -/
lemma Outcome.of_set
    (read : readBytes payload RequestHdr.modeStr.off RequestHdr.modeStr.size = some (ascii "set "))
    (call : handleSet cap st payload = some (ret, reply, st')) :
    Outcome cap st payload ret reply st' := by
  rw [handleSet, Option.bind_eq_bind, Option.bind_eq_some_iff] at call
  obtain ⟨key, asked, call⟩ := call
  cases landed : sashstoreInsertSlot cap st.kvstore key with
  | some slot =>
    rw [landed] at call
    dsimp only at call
    rw [Option.bind_eq_bind, Option.bind_eq_some_iff] at call
    obtain ⟨value, given, call⟩ := call
    rw [Option.bind_eq_some_iff] at call
    obtain ⟨reply, written, call⟩ := call
    cases call
    exact .stored ⟨read, asked⟩ landed given written
  | none =>
    rw [landed] at call
    dsimp only at call
    rw [Option.bind_eq_bind, Option.bind_eq_some_iff] at call
    obtain ⟨reply, written, call⟩ := call
    cases call
    exact .notStored ⟨read, asked⟩ landed written

/-- A get hits or misses. -/
lemma Outcome.of_get
    (read : readBytes payload RequestHdr.modeStr.off RequestHdr.modeStr.size = some (ascii "get "))
    (call : handleGet cap st payload = some (ret, reply, st')) :
    Outcome cap st payload ret reply st' := by
  rw [handleGet, Option.bind_eq_bind, Option.bind_eq_some_iff] at call
  obtain ⟨key, asked, call⟩ := call
  cases found : sashstoreHashmapGet cap st.kvstore key with
  | some slot =>
    rw [found] at call
    dsimp only at call
    rw [Option.bind_eq_bind, Option.bind_eq_some_iff] at call
    obtain ⟨reply, built, call⟩ := call
    cases call
    exact .hit ⟨read, asked⟩ found built
  | none =>
    rw [found] at call
    dsimp only at call
    rw [Option.bind_eq_bind, Option.bind_eq_some_iff] at call
    obtain ⟨reply, written, call⟩ := call
    cases call
    exact .miss ⟨read, asked⟩ found written

/-- The handler does nothing but what `Outcome` says. -/
lemma Outcome.of_call (call : handleNetworkRequest cap st payload = some (ret, reply, st')) :
    Outcome cap st payload ret reply st' := by
  rw [handleNetworkRequest, Option.bind_eq_bind, Option.bind_eq_some_iff] at call
  obtain ⟨mode, read, call⟩ := call
  split at call
  · next set =>
    subst set
    exact .of_set read call
  · next not_set =>
    split at call
    · next get =>
      subst get
      exact .of_get read call
    · next not_get =>
      rw [Option.bind_eq_some_iff] at call
      obtain ⟨text, printed, call⟩ := call
      cases call
      exact .unknown ⟨read, not_set, not_get⟩ printed

/-- The handler does what `Outcome` says. -/
lemma Outcome.call (outcome : Outcome cap st payload ret reply st') :
    handleNetworkRequest cap st payload = some (ret, reply, st') := by
  cases outcome with
  | stored set landed given written =>
    rw [handle_set set, handleSet, set.key, Option.bind_eq_bind, Option.bind_some, landed]
    dsimp only
    rw [given, Option.bind_eq_bind, Option.bind_some, written, Option.bind_some]
  | notStored set landed written =>
    rw [handle_set set, handleSet, set.key, Option.bind_eq_bind, Option.bind_some, landed]
    dsimp only
    rw [written, Option.bind_eq_bind, Option.bind_some]
  | hit get found built =>
    rw [handle_get get, handleGet, get.key, Option.bind_eq_bind, Option.bind_some, found]
    dsimp only
    rw [built, Option.bind_eq_bind, Option.bind_some]
  | miss get found written =>
    rw [handle_get get, handleGet, get.key, Option.bind_eq_bind, Option.bind_some, found]
    dsimp only
    rw [written, Option.bind_eq_bind, Option.bind_some]
  | unknown unknown printed =>
    rw [handleNetworkRequest, unknown.mode, Option.bind_eq_bind, Option.bind_some,
      if_neg unknown.not_set, if_neg unknown.not_get, printed, Option.bind_some]

/-- A request is handled exactly as its outcome says. -/
lemma handleNetworkRequest_iff :
    handleNetworkRequest cap st payload = some (ret, reply, st') ↔
      Outcome cap st payload ret reply st' :=
  ⟨.of_call, Outcome.call⟩

/-- A set request is answered if the payload reaches behind its value, and changes the keys as the
    search for its key says. -/
lemma exists_set (cap : Capacity) (st : SashstoreState) (set : IsSet payload key)
    (given : readBlock payload SetRequest.value.off = some value) :
    ∃ ret reply st', Outcome cap st payload ret reply st' ∧
      ((sashstoreInsertSlot cap st.kvstore key = none ∧ st'.kvstore = st.kvstore) ∨
        ∃ s, sashstoreInsertSlot cap st.kvstore key = some s ∧
          st'.kvstore.keys = Function.update st.kvstore.keys s key) := by
  have room : SetRequest.value.off + keySize ≤ payload.length := readBlock_le given
  cases landed : sashstoreInsertSlot cap st.kvstore key with
  | some s =>
    obtain ⟨reply, written, _⟩ := writeBytes_of_le payload SetResponse.value.off storedText
      (le_trans (by decide) room)
    refine ⟨_, _, _, .stored set landed given written, Or.inr ⟨s, rfl, ?_⟩⟩
    rw [SashstoreHashmap.keys_write]
  | none =>
    obtain ⟨reply, written, _⟩ := writeBytes_of_le payload 0 (ascii "NOT_STORED" ++ [0])
      (le_trans (by decide) room)
    exact ⟨_, _, _, .notStored set landed written, Or.inl ⟨rfl, rfl⟩⟩

/-- A get request is answered if the payload has room for the reply to a hit. -/
lemma exists_get (cap : Capacity) (st : SashstoreState) (get : IsGet payload key)
    (room : (sashstoreHashmapGet cap st.kvstore key).isSome →
      GetResponse.endStr.stop ≤ payload.length) :
    ∃ ret reply st', Outcome cap st payload ret reply st' := by
  cases found : sashstoreHashmapGet cap st.kvstore key with
  | some s =>
    rw [found] at room
    obtain ⟨reply, built⟩ := buildGetResponse_of_le (st.kvstore.values s) (room rfl) get.key
    exact ⟨_, _, _, .hit get found built⟩
  | none =>
    obtain ⟨reply, written, _⟩ := writeBytes_of_le payload 0 (ascii "NOT_FOUND" ++ [0])
      (le_trans (by decide) (readBlock_le get.key))
    exact ⟨_, _, _, .miss get found written⟩

end NetBlast.Sashstore
