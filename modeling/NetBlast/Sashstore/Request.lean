import NetBlast.Hashmap.Sashstore

/-!
# The request handler of the key-value store

`handle_network_request` of `sashstore.c`. The reply is built over the request: the text `VALUE` of
a get reply ends one octet behind the mode string, so it overwrites the first octet of the key
before the key is copied. `get_hit_answered_iff` says for which keys this does no harm.
-/

namespace NetBlast.Sashstore
open Hashmap

/-- `STORED`. -/
def storedText : List Byte := ascii "STORED"

/-- `VALUE`. -/
def valueText : List Byte := ascii "VALUE"

/-- `END`. -/
def endText : List Byte := ascii "END"

namespace Header

def reqId : Field := { off := 0, size := 4 }
def seqNr : Field := reqId.next 2
def dgramTot : Field := seqNr.next 2
def rsvd : Field := dgramTot.next 2

/-- `sizeof(struct header)`. -/
def sizeof : Nat := rsvd.stop

end Header

namespace RequestHdr

def header : Field := { off := 0, size := Header.sizeof }
def modeStr : Field := header.next 4

end RequestHdr

/-! The requests are `&hdr[1]`; their offsets are those in the payload. -/

namespace SetRequest

def key : Field := RequestHdr.modeStr.next keySize
def space : Field := key.next 1
def flag : Field := space.next 4
def len : Field := flag.next 4
def lineEnd : Field := len.next 2
def value : Field := lineEnd.next keySize
def lineEnd1 : Field := value.next 2

end SetRequest

namespace GetRequest

def key : Field := RequestHdr.modeStr.next keySize
def lineEnd : Field := key.next 2

end GetRequest

namespace SetResponse

def header : Field := { off := 0, size := Header.sizeof }
def value : Field := header.next storedText.length
def endStr : Field := value.next 2

/-- `sizeof(struct set_response)`. -/
def sizeof : Nat := endStr.stop

end SetResponse

namespace GetResponse

def header : Field := { off := 0, size := Header.sizeof }
def valueStr : Field := header.next valueText.length
def space : Field := valueStr.next 1
def key : Field := space.next keySize
def space1 : Field := key.next 1
def flag : Field := space1.next 4
def len : Field := flag.next 4
def lineEnd : Field := len.next 2
def value : Field := lineEnd.next keySize
def lineEnd1 : Field := value.next 2
def endStr : Field := lineEnd1.next endText.length
def lineEnd2 : Field := endStr.next 2

/-- `sizeof(struct get_response)`. -/
def sizeof : Nat := lineEnd2.stop

end GetResponse

/-- `kvstore` and the counters. -/
structure SashstoreState where
  kvstore : SashstoreHashmap
  totalSet : BitVec 64
  totalGet : BitVec 64
  totalStored : BitVec 64
  totalNotStored : BitVec 64
  totalRetrieved : BitVec 64
  totalNotFound : BitVec 64

/-- The four copies of a successful get. The key is copied from where the request has it, as it
    stands after the first copy. -/
def buildGetResponse (payload : Buffer) (value : Block) : Option Buffer := do
  let payload ← writeBytes payload GetResponse.valueStr.off valueText
  let key ← readBlock payload GetRequest.key.off
  let payload ← writeBytes payload GetResponse.key.off (List.ofFn key)
  let payload ← writeBytes payload GetResponse.value.off (List.ofFn value)
  writeBytes payload GetResponse.endStr.off endText

section
variable (cap : Capacity)

/-- The branch of `handle_network_request` for a set request. -/
def handleSet (st : SashstoreState) (payload : Buffer) : Option (Int × Buffer × SashstoreState) := do
  let key ← readBlock payload SetRequest.key.off
  match sashstoreInsertSlot cap st.kvstore key with
  | some slot =>
    let value ← readBlock payload SetRequest.value.off
    let payload ← writeBytes payload SetResponse.value.off storedText
    some (SetResponse.sizeof, payload,
      { st with
        kvstore := st.kvstore.write slot { key, value }
        totalStored := st.totalStored + 1
        totalSet := st.totalSet + 1 })
  | none =>
    let payload ← writeBytes payload 0 (ascii "NOT_STORED" ++ [0])
    some ((ascii "NOT_STORED").length, payload,
      { st with
        totalNotStored := st.totalNotStored + 1
        totalSet := st.totalSet + 1 })

/-- The branch of `handle_network_request` for a get request. -/
def handleGet (st : SashstoreState) (payload : Buffer) : Option (Int × Buffer × SashstoreState) := do
  let key ← readBlock payload GetRequest.key.off
  match sashstoreHashmapGet cap st.kvstore key with
  | some slot =>
    let payload ← buildGetResponse payload (st.kvstore.values slot)
    some (GetResponse.sizeof, payload,
      { st with
        totalRetrieved := st.totalRetrieved + 1
        totalGet := st.totalGet + 1 })
  | none =>
    let payload ← writeBytes payload 0 (ascii "NOT_FOUND" ++ [0])
    some ((ascii "NOT_FOUND").length, payload,
      { st with
        totalNotFound := st.totalNotFound + 1
        totalGet := st.totalGet + 1 })

/-- `handle_network_request`: the returned length, the payload and the store afterwards, or `none`
    if an access leaves the payload. -/
def handleNetworkRequest (st : SashstoreState) (payload : Buffer) :
    Option (Int × Buffer × SashstoreState) := do
  let mode ← readBytes payload RequestHdr.modeStr.off RequestHdr.modeStr.size
  if mode = ascii "set " then handleSet cap st payload
  else if mode = ascii "get " then handleGet cap st payload
  else
    -- the mode string is printed up to the next zero
    let _ ← readString payload RequestHdr.modeStr.off
    some (-1, payload, st)

end

/-- `payload'` is the reply to a get of `key` that found `value`. -/
structure AnswersGet (payload payload' : Buffer) (ret : Int) (key value : Block) : Prop where
  header : readBytes payload' GetResponse.header.off GetResponse.header.size =
    readBytes payload RequestHdr.header.off RequestHdr.header.size
  valueStr : readBytes payload' GetResponse.valueStr.off GetResponse.valueStr.size = some valueText
  key : readBlock payload' GetResponse.key.off = some key
  value : readBlock payload' GetResponse.value.off = some value
  endStr : readBytes payload' GetResponse.endStr.off GetResponse.endStr.size = some endText
  ret : ret = GetResponse.sizeof

/-- The key that the reply contains: the first octet is the last one of the text `VALUE`. -/
def repliedKey (key : Block) : Block :=
  Function.update key ⟨0, by decide⟩ 0x45

/-- After the first copy the key of the request is `repliedKey`. -/
lemma readBlock_repliedKey {payload payload' : Buffer} {key : Block}
    (w : writeBytes payload GetResponse.valueStr.off valueText = some payload')
    (asked : readBlock payload GetRequest.key.off = some key) :
    readBlock payload' GetRequest.key.off = some (repliedKey key) := by
  rw [readBlock_eq_some] at asked ⊢
  intro i
  rw [writeBytes_getElem? w]
  by_cases first : i = ⟨0, by decide⟩
  · subst first
    rfl
  · have pos : i.val ≠ 0 := fun e => first (Fin.ext e)
    have stop : GetResponse.valueStr.off + valueText.length = GetRequest.key.off + 1 := by decide
    rw [if_neg (by omega), asked i, repliedKey, Function.update_of_ne first]

/-- The copies of a get reply stay inside a buffer that reaches to the end of the text `END`. -/
lemma buildGetResponse_of_le {payload : Buffer} {key : Block} (value : Block)
    (room : GetResponse.endStr.stop ≤ payload.length)
    (asked : readBlock payload GetRequest.key.off = some key) :
    ∃ payload', buildGetResponse payload value = some payload' := by
  have size (b : Block) : (List.ofFn b).length = keySize := List.length_ofFn
  obtain ⟨p₁, w₁, len₁⟩ := writeBytes_of_le payload GetResponse.valueStr.off
    valueText (le_trans (by decide) room)
  obtain ⟨p₂, w₂, len₂⟩ := writeBytes_of_le p₁ GetResponse.key.off
    (List.ofFn (repliedKey key)) (by rw [size, len₁]; exact le_trans (by decide) room)
  obtain ⟨p₃, w₃, len₃⟩ := writeBytes_of_le p₂ GetResponse.value.off
    (List.ofFn value) (by rw [size, len₂, len₁]; exact le_trans (by decide) room)
  obtain ⟨p₄, w₄, _⟩ := writeBytes_of_le p₃ GetResponse.endStr.off endText
    (by rw [len₃, len₂, len₁]; exact le_trans (by decide) room)
  have copied := readBlock_repliedKey w₁ asked
  refine ⟨p₄, ?_⟩
  simp only [buildGetResponse, w₁, copied, w₂, w₃, w₄, Option.bind_eq_bind, Option.bind_some]

/-- All members of a get reply are as they should be but the key, which is `repliedKey`. -/
lemma buildGetResponse_spec {payload payload' : Buffer} {key value : Block}
    (built : buildGetResponse payload value = some payload')
    (asked : readBlock payload GetRequest.key.off = some key) :
    AnswersGet payload payload' GetResponse.sizeof (repliedKey key) value ∧
      GetResponse.endStr.stop ≤ payload.length := by
  unfold buildGetResponse at built
  simp only [Option.bind_eq_bind, Option.bind_eq_some_iff] at built
  obtain ⟨p₁, w₁, key', copied, p₂, w₂, p₃, w₃, w₄⟩ := built
  have same := copied.symm.trans (readBlock_repliedKey w₁ asked)
  rw [Option.some.injEq] at same
  subst same
  refine ⟨⟨?_, ?_, ?_, ?_, ?_, rfl⟩, ?_⟩
  · rw [readBytes_write_other w₄ (Or.inl (by decide)), readBytes_write_other w₃ (Or.inl (by decide)),
      readBytes_write_other w₂ (Or.inl (by decide)), readBytes_write_other w₁ (Or.inl (by decide))]
    rfl
  · rw [readBytes_write_other w₄ (Or.inl (by decide)), readBytes_write_other w₃ (Or.inl (by decide)),
      readBytes_write_other w₂ (Or.inl (by decide))]
    exact readBytes_write_self w₁
  · rw [readBlock_write_other w₄ (Or.inl (by decide)), readBlock_write_other w₃ (Or.inl (by decide))]
    exact readBlock_write_self w₂
  · rw [readBlock_write_other w₄ (Or.inl (by decide))]
    exact readBlock_write_self w₃
  · exact readBytes_write_self w₄
  · have last := (writeBytes_length w₄).1
    rwa [(writeBytes_length w₃).2, (writeBytes_length w₂).2, (writeBytes_length w₁).2] at last

/-- A get request that hits is answered with the key that was asked for exactly if that key begins
    with the letter `E`; the rest of the answer is always right. -/
theorem get_hit_answered_iff (cap : Capacity) (st : SashstoreState) (payload : Buffer) (key : Block)
    (slot : Nat) (room : GetResponse.sizeof ≤ payload.length)
    (mode : readBytes payload RequestHdr.modeStr.off RequestHdr.modeStr.size = some (ascii "get "))
    (asked : readBlock payload GetRequest.key.off = some key)
    (hit : sashstoreHashmapGet cap st.kvstore key = some slot) :
    ∃ ret payload' st', handleNetworkRequest cap st payload = some (ret, payload', st') ∧
      (AnswersGet payload payload' ret key (st.kvstore.values slot) ↔
        key ⟨0, by decide⟩ = 0x45) := by
  obtain ⟨payload', built⟩ :=
    buildGetResponse_of_le (st.kvstore.values slot) (le_trans (by decide) room) asked
  obtain ⟨answer, _⟩ := buildGetResponse_spec built asked
  refine ⟨GetResponse.sizeof, payload', { st with
    totalRetrieved := st.totalRetrieved + 1
    totalGet := st.totalGet + 1 }, ?_, ?_⟩
  · have get : ascii "get " ≠ ascii "set " := by decide
    rw [handleNetworkRequest, mode, Option.bind_eq_bind, Option.bind_some, if_neg get, if_pos rfl,
      handleGet, asked, Option.bind_eq_bind, Option.bind_some, hit]
    dsimp only
    rw [built]
    rfl
  · constructor
    · intro right
      have same := right.key.symm.trans answer.key
      rw [Option.some.injEq] at same
      rw [same, repliedKey, Function.update_self]
    · intro first
      have same : repliedKey key = key := by
        rw [repliedKey, ← first, Function.update_eq_self]
      rw [same] at answer
      exact answer

/-- A store that holds one pair, under the key of 64 letters `c`. -/
def storeOf (c : Byte) : SashstoreState :=
  { kvstore := (sashstoreHashmapInsert fourSlots emptySashstore (fun _ => c) fun _ => 1).2
    totalSet := 1
    totalGet := 0
    totalStored := 1
    totalNotStored := 0
    totalRetrieved := 0
    totalNotFound := 0 }

/-- A get request for the key of 64 letters `c`, in a buffer that can just hold the reply. -/
def getOf (c : Byte) : Buffer :=
  List.replicate 10 7 ++ ascii "get " ++ List.replicate 64 c ++ List.replicate 84 0

/-- A key that begins with `E` is answered. -/
theorem get_hit_answered_iff_e :
    ∃ slot ret payload' st',
      handleNetworkRequest fourSlots (storeOf 0x45) (getOf 0x45) = some (ret, payload', st') ∧
      (AnswersGet (getOf 0x45) payload' ret (fun _ => 0x45) ((storeOf 0x45).kvstore.values slot) ↔
        (0x45 : Byte) = 0x45) := by
  have found : (sashstoreHashmapGet fourSlots (storeOf 0x45).kvstore fun _ => 0x45).isSome := by
    decide +kernel
  refine ⟨_, get_hit_answered_iff fourSlots (storeOf 0x45) (getOf 0x45) (fun _ => 0x45) _ ?_ ?_ ?_
    (Option.some_get found).symm⟩
  · decide +kernel
  · decide +kernel
  · decide +kernel

/-- A get of the key `aa…a`, which is stored, is answered with the key `Ea…a`. -/
theorem get_hit_wrong_key :
    (sashstoreHashmapGet fourSlots (storeOf 0x61).kvstore fun _ => 0x61).isSome ∧
      ∀ slot ret payload' st',
        handleNetworkRequest fourSlots (storeOf 0x61) (getOf 0x61) = some (ret, payload', st') →
        ¬ AnswersGet (getOf 0x61) payload' ret (fun _ => 0x61)
          ((storeOf 0x61).kvstore.values slot) := by
  refine ⟨by decide +kernel, fun slot ret payload' st' call answer => ?_⟩
  have replied : (handleNetworkRequest fourSlots (storeOf 0x61) (getOf 0x61)).map
      (fun r => readBlock r.2.1 GetResponse.key.off) = some (some (repliedKey fun _ => 0x61)) := by
    decide +kernel
  have differ : repliedKey (fun _ => 0x61) ≠ fun _ => 0x61 := by decide +kernel
  rw [call, Option.map_some, Option.some.injEq] at replied
  exact differ (Option.some.inj (replied.symm.trans answer.key))

end NetBlast.Sashstore
