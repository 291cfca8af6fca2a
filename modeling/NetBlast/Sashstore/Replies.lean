import NetBlast.Sashstore.Outcomes

/-!
# Replies and their requests

A reply that succeeds is written through a packed struct behind the header of the request. A reply
that fails is copied to the start of the payload, over that header. `reply_matches_iff` says that
this is exactly the difference between the replies that can be matched to their request and those
that cannot.
-/

namespace NetBlast.Sashstore
open Probing Hashmap

/-- The text that a set or a get in the payload is answered with. -/
def outcomeText (cap : Capacity) (st : SashstoreState) (payload : Buffer) : Option (List Byte) := do
  let mode ← readBytes payload RequestHdr.modeStr.off RequestHdr.modeStr.size
  if mode = ascii "set " then
    let key ← readBlock payload SetRequest.key.off
    if (sashstoreInsertSlot cap st.kvstore key).isSome then some storedText
    else some (ascii "NOT_STORED")
  else if mode = ascii "get " then
    let key ← readBlock payload GetRequest.key.off
    if (sashstoreHashmapGet cap st.kvstore key).isSome then some valueText
    else some (ascii "NOT_FOUND")
  else none

/-- The reply has the header of the request, and the text behind it. -/
structure MatchesRequest (payload reply : Buffer) (text : List Byte) : Prop where
  header : readBytes reply RequestHdr.header.off RequestHdr.header.size =
    readBytes payload RequestHdr.header.off RequestHdr.header.size
  text : readBytes reply RequestHdr.header.stop text.length = some text

/-- The payload is a set of a key that some slot holds or has room for, or a get that finds its
    key. -/
def Succeeds (cap : Capacity) (st : SashstoreState) (payload : Buffer) : Prop :=
  (∃ key, IsSet payload key ∧
    ∃ s < cap.val, st.kvstore.keys s = emptyKey ∨ st.kvstore.keys s = key) ∨
  ∃ key, IsGet payload key ∧ (sashstoreHashmapGet cap st.kvstore key).isSome

variable {cap : Capacity} {st st' : SashstoreState} {payload reply : Buffer} {ret : Int}
  {key : Block} {text : List Byte}

/-- A set request succeeds if there is a slot for its key. -/
lemma succeeds_set (set : IsSet payload key) :
    Succeeds cap st payload ↔ (sashstoreInsertSlot cap st.kvstore key).isSome := by
  constructor
  · rintro (⟨key', set', s, hs, take⟩ | ⟨key', get, _⟩)
    · rw [set.unique set'] at take
      rw [Option.isSome_iff_ne_none]
      intro refused
      obtain ⟨full, missing⟩ := sashstoreInsertSlot_none.mp refused
      rcases take with free | here
      · exact full s hs free
      · exact missing ⟨s, hs, here⟩
    · exact absurd get set.not_get
  · intro some
    obtain ⟨s, landed⟩ := Option.isSome_iff_exists.mp some
    obtain ⟨hs, take⟩ := sashstoreInsertSlot_some landed
    exact Or.inl ⟨key, set, s, hs, take⟩

/-- A get request succeeds if its key is found. -/
lemma succeeds_get (get : IsGet payload key) :
    Succeeds cap st payload ↔ (sashstoreHashmapGet cap st.kvstore key).isSome := by
  constructor
  · rintro (⟨key', set, _⟩ | ⟨key', get', found⟩)
    · exact absurd get set.not_get
    · rwa [get.unique get'] at found
  · intro found
    exact Or.inr ⟨key, get, found⟩

/-- The text that a set request deserves. -/
lemma outcomeText_set (set : IsSet payload key) :
    outcomeText cap st payload = if (sashstoreInsertSlot cap st.kvstore key).isSome then
      some storedText else some (ascii "NOT_STORED") := by
  rw [outcomeText, set.mode, Option.bind_eq_bind, Option.bind_some, if_pos rfl, set.key]
  rfl

/-- The text that a get request deserves. -/
lemma outcomeText_get (get : IsGet payload key) :
    outcomeText cap st payload = if (sashstoreHashmapGet cap st.kvstore key).isSome then
      some valueText else some (ascii "NOT_FOUND") := by
  rw [outcomeText, get.mode, Option.bind_eq_bind, Option.bind_some, if_neg set_ne_get.symm,
    if_pos rfl, get.key]
  rfl

/-- A text is read only where its first octet stands. -/
lemma not_text {buf : Buffer} {off : Nat} {c d : Byte} (text : List Byte) (here : buf[off]? = some c)
    (other : text[0]? = some d) (ne : c ≠ d) : readBytes buf off text.length ≠ some text := by
  intro read
  have pos : 0 < text.length := (List.getElem?_eq_some_iff.mp other).1
  have same := (readBytes_eq_some.mp read).2.2 0 pos
  rw [Nat.add_zero, here, other, Option.some.injEq] at same
  exact ne same.symm

/-- A reply carries the header of its request and the text of its outcome behind it exactly if the
    request succeeds. -/
theorem reply_matches_iff (cap : Capacity) (st st' : SashstoreState) (payload reply : Buffer)
    (ret : Int) (text : List Byte)
    (call : handleNetworkRequest cap st payload = some (ret, reply, st'))
    (outcome : outcomeText cap st payload = some text) :
    MatchesRequest payload reply text ↔ Succeeds cap st payload := by
  rw [handleNetworkRequest_iff] at call
  cases call with
  | stored set landed _ written =>
    rw [outcomeText_set set, landed] at outcome
    cases outcome
    rw [succeeds_set set, landed]
    refine iff_of_true ⟨?_, readBytes_write_self written⟩ rfl
    exact readBytes_write_other written (Or.inl le_rfl)
  | notStored set refused written =>
    rw [outcomeText_set set, refused] at outcome
    cases outcome
    rw [succeeds_set set, refused]
    refine iff_of_false (fun matched => ?_) nofun
    -- the terminator of the text stands where the text should begin
    have here := writeBytes_getElem? written RequestHdr.header.stop
    exact not_text _ (here.trans (if_pos (by decide))) rfl (by decide) matched.text
  | hit get found built =>
    rw [outcomeText_get get, found] at outcome
    cases outcome
    rw [succeeds_get get, found]
    obtain ⟨answer, _⟩ := buildGetResponse_spec built get.key
    exact iff_of_true ⟨answer.header, answer.valueStr⟩ rfl
  | miss get missed written =>
    rw [outcomeText_get get, missed] at outcome
    cases outcome
    rw [succeeds_get get, missed]
    refine iff_of_false (fun matched => ?_) nofun
    -- the mode string of the request stands where the text should begin
    have here := writeBytes_getElem? written RequestHdr.header.stop
    rw [if_neg (by decide)] at here
    have mode := (readBytes_eq_some.mp get.mode).2.2 0 (by decide)
    exact not_text _ (here.trans mode.symm) rfl (by decide) matched.text
  | unknown unknown =>
    rw [outcomeText, unknown.mode, Option.bind_eq_bind, Option.bind_some, if_neg unknown.not_set,
      if_neg unknown.not_get] at outcome
    cases outcome

/-- The reply to a get that hits can be matched. -/
theorem reply_matches_iff_hit :
    ∃ ret reply st',
      handleNetworkRequest fourSlots (storeOf 0x45) (getOf 0x45) = some (ret, reply, st') ∧
      (MatchesRequest (getOf 0x45) reply valueText ↔ Succeeds fourSlots (storeOf 0x45) (getOf 0x45)) := by
  have some : (handleNetworkRequest fourSlots (storeOf 0x45) (getOf 0x45)).isSome := by decide +kernel
  obtain ⟨⟨ret, reply, st'⟩, call⟩ := Option.isSome_iff_exists.mp some
  refine ⟨ret, reply, st', call, reply_matches_iff _ _ _ _ _ _ _ call ?_⟩
  decide +kernel

/-- The reply to a get that misses has lost the header of the request. -/
theorem reply_loses_header :
    ∃ ret reply st',
      handleNetworkRequest fourSlots (storeOf 0x45) (getOf 0x61) = some (ret, reply, st') ∧
      outcomeText fourSlots (storeOf 0x45) (getOf 0x61) = some (ascii "NOT_FOUND") ∧
      readBytes reply RequestHdr.header.off RequestHdr.header.size ≠
        readBytes (getOf 0x61) RequestHdr.header.off RequestHdr.header.size ∧
      ¬ MatchesRequest (getOf 0x61) reply (ascii "NOT_FOUND") := by
  have lost : (handleNetworkRequest fourSlots (storeOf 0x45) (getOf 0x61)).map
      (fun r => readBytes r.2.1 RequestHdr.header.off RequestHdr.header.size) =
        some (some (ascii "NOT_FOUND" ++ [0])) := by decide +kernel
  rw [Option.map_eq_some_iff] at lost
  obtain ⟨⟨ret, reply, st'⟩, call, header⟩ := lost
  have differ : readBytes reply RequestHdr.header.off RequestHdr.header.size ≠
      readBytes (getOf 0x61) RequestHdr.header.off RequestHdr.header.size := by
    rw [header]
    decide +kernel
  exact ⟨ret, reply, st', call, by decide +kernel, differ, fun matched => differ matched.header⟩

end NetBlast.Sashstore
