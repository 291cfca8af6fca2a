import NetBlast.Sashstore.Outcomes
import NetBlast.Packettool

/-!
# Requests in frames

`sashstore_process_frame` of `sashstore.c`, which receives the length of the frame and ignores it.
Every access to the frame is checked. `stays_inside_iff` says for which frames the function stays
inside the frame and refuses what is too short: those that reach as far as the branch that they
take.
-/

namespace NetBlast.Sashstore
open Probing Hashmap

/-- `sashstore_process_frame`: what it returns, the frame and the store afterwards, or `none` if an
    access leaves the frame. -/
def sashstoreProcessFrame (cap : Capacity) (st : SashstoreState) (frame : Buffer) (_len : Nat) :
    Option (Int × Buffer × SashstoreState) := do
  match ← getUdpPayload frame with
  | some payload =>
    let (ret, reply, st) ← handleNetworkRequest cap st (frame.drop payload)
    some (ret, frame.take payload ++ reply, st)
  | none => some (-1, frame, st)

/-- The offset of the payload behind the three headers, of which the second says its own length. -/
def payloadOff (frame : Buffer) : Nat :=
  ethHeaderLen + (frame.getD ethHeaderLen 0 &&& 0xf).toNat * 4 + udpHeaderLen

/-- The octets behind the headers. -/
def payloadOf (frame : Buffer) : Buffer :=
  frame.drop (payloadOff frame)

/-- The payload begins with the header of a request and this mode string. -/
def HasMode (payload : Buffer) (mode : List Byte) : Prop :=
  readBytes payload RequestHdr.modeStr.off RequestHdr.modeStr.size = some mode

/-- The payload is a get of a key that is found. -/
def Hits (cap : Capacity) (st : SashstoreState) (payload : Buffer) : Prop :=
  ∃ key, IsGet payload key ∧ (sashstoreHashmapGet cap st.kvstore key).isSome

/-- The frame is too short for its headers, for the request it announces, or for the reply. -/
inductive TooShort (cap : Capacity) (st : SashstoreState) (frame : Buffer) : Prop where
  | headers : frame.length < payloadOff frame + RequestHdr.modeStr.stop → TooShort cap st frame
  | set : HasMode (payloadOf frame) (ascii "set ") →
    (payloadOf frame).length < SetRequest.lineEnd1.stop → TooShort cap st frame
  | get : HasMode (payloadOf frame) (ascii "get ") →
    (payloadOf frame).length < GetRequest.lineEnd.stop → TooShort cap st frame
  | reply : Hits cap st (payloadOf frame) →
    (payloadOf frame).length < GetResponse.sizeof → TooShort cap st frame

/-- The function stays inside the frame, and refuses a frame that is too short. -/
structure StaysInside (cap : Capacity) (st : SashstoreState) (frame : Buffer) : Prop where
  inside : (sashstoreProcessFrame cap st frame frame.length).isSome
  refused : TooShort cap st frame →
    sashstoreProcessFrame cap st frame frame.length = some (-1, frame, st)

/-- The payload reaches as far as the handler goes for its mode string. -/
structure PayloadFits (cap : Capacity) (st : SashstoreState) (payload : Buffer) (text : List Byte) :
    Prop where
  mode : HasMode payload text
  set : text = ascii "set " → SetRequest.lineEnd1.stop ≤ payload.length
  get : text = ascii "get " → GetRequest.lineEnd.stop ≤ payload.length
  reply : Hits cap st payload → GetResponse.sizeof ≤ payload.length
  printed : text ≠ ascii "set " → text ≠ ascii "get " →
    ∃ i, RequestHdr.modeStr.off ≤ i ∧ payload[i]? = some 0

/-- The frame reaches as far as the function goes: to the version; for IPv4 to the protocol; for UDP
    as far as the handler goes. -/
def FrameFits (cap : Capacity) (st : SashstoreState) (frame : Buffer) : Prop :=
  ∃ version, frame[ethHeaderLen]? = some version ∧ (isIpv4 version →
    ∃ proto, frame[ethHeaderLen + ipv4ProtoOffset]? = some proto ∧ (proto = 17 →
      ∃ mode, PayloadFits cap st (payloadOf frame) mode))

variable {cap : Capacity} {st st' : SashstoreState} {frame payload reply : Buffer} {ret : Int}
  {key : Block} {text : List Byte} {version proto : Byte}

/-- Where the payload of a frame begins. -/
lemma payloadOff_eq (at_ : frame[ethHeaderLen]? = some version) :
    payloadOff frame = ethHeaderLen + (version &&& 0xf).toNat * 4 + udpHeaderLen := by
  unfold payloadOff
  rw [List.getD_eq_getElem?_getD, at_, Option.getD_some]

/-- The payload of an IPv4 frame. -/
lemma getUdpPayload_ipv4 (at_ : frame[ethHeaderLen]? = some version) (ipv4 : isIpv4 version) :
    getUdpPayload frame = (frame[ethHeaderLen + ipv4ProtoOffset]?).bind fun proto =>
      if proto ≠ 17 then some none else some (some (payloadOff frame)) := by
  rw [getUdpPayload, at_, Option.bind_eq_bind, Option.bind_some, if_neg (not_not.mpr ipv4),
    payloadOff_eq at_]

/-- A frame without a payload is refused. -/
lemma process_other (other : getUdpPayload frame = some none) :
    sashstoreProcessFrame cap st frame frame.length = some (-1, frame, st) := by
  rw [sashstoreProcessFrame, other]
  rfl

/-- A frame with a payload is handled. -/
lemma process_udp (cap : Capacity) (st : SashstoreState)
    (at_ : frame[ethHeaderLen]? = some version) (ipv4 : isIpv4 version)
    (udp : frame[ethHeaderLen + ipv4ProtoOffset]? = some 17) :
    sashstoreProcessFrame cap st frame frame.length =
      (handleNetworkRequest cap st (payloadOf frame)).map
        fun r => (r.1, frame.take (payloadOff frame) ++ r.2.1, r.2.2) := by
  have found : getUdpPayload frame = some (some (payloadOff frame)) := by
    rw [getUdpPayload_ipv4 at_ ipv4, udp, Option.bind_some, if_neg (not_not.mpr rfl)]
  rw [sashstoreProcessFrame, found, Option.bind_eq_bind, Option.bind_some]
  unfold payloadOf
  dsimp only
  cases handleNetworkRequest cap st (frame.drop (payloadOff frame)) <;> rfl

/-- A set in a frame that is not too short fits. -/
lemma IsSet.fits (set : IsSet (payloadOf frame) key) (long : ¬ TooShort cap st frame) :
    PayloadFits cap st (payloadOf frame) (ascii "set ") where
  mode := set.mode
  set _ := by
    by_contra short
    exact long (.set set.mode (not_le.mp short))
  get e := absurd e set_ne_get
  reply := by
    rintro ⟨key, get, _⟩
    exact absurd get set.not_get
  printed ne _ := absurd rfl ne

/-- A get in a frame that is not too short fits. -/
lemma IsGet.fits (get : IsGet (payloadOf frame) key) (long : ¬ TooShort cap st frame) :
    PayloadFits cap st (payloadOf frame) (ascii "get ") where
  mode := get.mode
  set e := absurd e.symm set_ne_get
  get _ := by
    by_contra short
    exact long (.get get.mode (not_le.mp short))
  reply hits := by
    by_contra short
    exact long (.reply hits (not_le.mp short))
  printed _ ne := absurd rfl ne

/-- A request that is answered fits, if it would have been refused otherwise. -/
lemma Outcome.fits (outcome : Outcome cap st (payloadOf frame) ret reply st')
    (refused : TooShort cap st frame → ret = -1) :
    ∃ text, PayloadFits cap st (payloadOf frame) text := by
  cases outcome with
  | stored set => exact ⟨_, set.fits fun short => absurd (refused short) (by decide)⟩
  | notStored set => exact ⟨_, set.fits fun short => absurd (refused short) (by decide)⟩
  | hit get => exact ⟨_, get.fits fun short => absurd (refused short) (by decide)⟩
  | miss get => exact ⟨_, get.fits fun short => absurd (refused short) (by decide)⟩
  | unknown unknown printed =>
    refine ⟨_, unknown.mode, fun e => absurd e unknown.not_set, fun e => absurd e unknown.not_get,
      ?_, fun _ _ => ?_⟩
    · rintro ⟨key, get, _⟩
      exact absurd get unknown.not_isGet
    · exact readString_isSome_iff.mp (by rw [printed]; rfl)

/-- A request that fits is answered; and if it is no set and no get, nothing changes. -/
lemma PayloadFits.outcome (fits : PayloadFits cap st payload text) :
    ∃ ret reply st', Outcome cap st payload ret reply st' ∧
      (text ≠ ascii "set " → text ≠ ascii "get " → ret = -1 ∧ reply = payload ∧ st' = st) := by
  by_cases set : text = ascii "set "
  · subst set
    have room := fits.set rfl
    obtain ⟨key, asked⟩ : ∃ key, readBlock payload SetRequest.key.off = some key :=
      readBlock_of_le (le_trans (by decide) room)
    obtain ⟨value, given⟩ : ∃ value, readBlock payload SetRequest.value.off = some value :=
      readBlock_of_le (le_trans (by decide) room)
    obtain ⟨ret, reply, st', outcome, _⟩ := exists_set cap st ⟨fits.mode, asked⟩ given
    exact ⟨ret, reply, st', outcome, fun ne => absurd rfl ne⟩
  · by_cases get : text = ascii "get "
    · subst get
      have room := fits.get rfl
      obtain ⟨key, asked⟩ : ∃ key, readBlock payload GetRequest.key.off = some key :=
        readBlock_of_le (le_trans (by decide) room)
      obtain ⟨ret, reply, st', outcome⟩ := exists_get cap st ⟨fits.mode, asked⟩ fun found =>
        le_trans (by decide) (fits.reply ⟨key, ⟨fits.mode, asked⟩, found⟩)
      exact ⟨ret, reply, st', outcome, fun _ ne => absurd rfl ne⟩
    · obtain ⟨printed, e⟩ := Option.isSome_iff_exists.mp
        (readString_isSome_iff.mpr (fits.printed set get))
      exact ⟨-1, payload, st, .unknown ⟨fits.mode, set, get⟩ e, fun _ _ => ⟨rfl, rfl, rfl⟩⟩

/-- A payload that fits is not too short, unless the handler refuses it anyway. -/
lemma PayloadFits.long (fits : PayloadFits cap st (payloadOf frame) text)
    (short : TooShort cap st frame) : text ≠ ascii "set " ∧ text ≠ ascii "get " := by
  have le := (readBytes_eq_some.mp fits.mode).1
  have size : RequestHdr.modeStr.off + RequestHdr.modeStr.size = 14 := rfl
  have stop : RequestHdr.modeStr.stop = 14 := rfl
  cases short with
  | headers lt =>
    unfold payloadOf at le
    rw [List.length_drop] at le
    omega
  | set mode lt =>
    have same := Option.some.inj (mode.symm.trans fits.mode)
    exact absurd (fits.set same.symm) (not_le.mpr lt)
  | get mode lt =>
    have same := Option.some.inj (mode.symm.trans fits.mode)
    exact absurd (fits.get same.symm) (not_le.mpr lt)
  | reply hits lt => exact absurd (fits.reply hits) (not_le.mpr lt)

/-- The function stays inside the frame and refuses what is too short exactly if the frame reaches
    as far as the branch that it takes. -/
theorem stays_inside_iff (cap : Capacity) (st : SashstoreState) (frame : Buffer) :
    StaysInside cap st frame ↔ FrameFits cap st frame := by
  constructor
  · intro stays
    have inside := stays.inside
    cases at_ : frame[ethHeaderLen]? with
    | none =>
      rw [sashstoreProcessFrame, getUdpPayload, at_] at inside
      cases inside
    | some version =>
      refine ⟨version, at_, fun ipv4 => ?_⟩
      cases at_' : frame[ethHeaderLen + ipv4ProtoOffset]? with
      | none =>
        rw [sashstoreProcessFrame, getUdpPayload_ipv4 at_ ipv4, at_'] at inside
        cases inside
      | some proto =>
        refine ⟨proto, rfl, ?_⟩
        rintro rfl
        have process := process_udp cap st at_ ipv4 at_'
        rw [process, Option.isSome_map] at inside
        obtain ⟨⟨ret, reply, st'⟩, call⟩ := Option.isSome_iff_exists.mp inside
        refine (handleNetworkRequest_iff.mp call).fits fun short => ?_
        have refused := stays.refused short
        rw [process, call, Option.map_some, Option.some.injEq] at refused
        exact congrArg Prod.fst refused
  · rintro ⟨version, at_, reaches⟩
    by_cases ipv4 : isIpv4 version
    · obtain ⟨proto, at_', reaches⟩ := reaches ipv4
      by_cases udp : proto = 17
      · subst udp
        obtain ⟨text, fits⟩ := reaches rfl
        obtain ⟨ret, reply, st', outcome, unchanged⟩ := fits.outcome
        have process := process_udp cap st at_ ipv4 at_'
        rw [handleNetworkRequest_iff.mpr outcome, Option.map_some] at process
        refine ⟨by rw [process]; rfl, fun short => ?_⟩
        obtain ⟨not_set, not_get⟩ := fits.long short
        obtain ⟨rfl, rfl, rfl⟩ := unchanged not_set not_get
        rw [process, payloadOf, List.take_append_drop]
      · have process : sashstoreProcessFrame cap st frame frame.length = some (-1, frame, st) := by
          apply process_other
          rw [getUdpPayload_ipv4 at_ ipv4, at_', Option.bind_some, if_pos udp]
        exact ⟨by rw [process]; rfl, fun _ => process⟩
    · have process : sashstoreProcessFrame cap st frame frame.length = some (-1, frame, st) := by
        apply process_other
        rw [getUdpPayload, at_, Option.bind_eq_bind, Option.bind_some, if_pos ipv4]
      exact ⟨by rw [process]; rfl, fun _ => process⟩

/-- A frame of the least length of an Ethernet frame that announces a get. -/
def shortGetFrame : Buffer :=
  List.replicate 14 0 ++ [0x45] ++ List.replicate 8 0 ++ [17] ++ List.replicate 28 0 ++ ascii "get " ++
    List.replicate 4 0

/-- The key of the get is read behind the end of the frame. -/
theorem short_get_leaves_frame :
    shortGetFrame.length = 60 ∧
      sashstoreProcessFrame fourSlots (storeOf 0x45) shortGetFrame shortGetFrame.length = none ∧
      ¬ StaysInside fourSlots (storeOf 0x45) shortGetFrame := by
  have left : sashstoreProcessFrame fourSlots (storeOf 0x45) shortGetFrame shortGetFrame.length =
      none := by
    rw [← Option.isNone_iff_eq_none]
    decide +kernel
  refine ⟨by decide, left, fun stays => ?_⟩
  have inside := stays.inside
  rw [left] at inside
  cases inside

end NetBlast.Sashstore
