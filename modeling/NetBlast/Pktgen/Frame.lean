import NetBlast.L2fwd.Rewrite
import NetBlast.L2fwd.Flowkey
import NetBlast.Pktgen.Options
import NetBlast.Wire.Octets

/-!
# The frames of the packet generator

The body of the loop of `tx_worker_loop` in `pktgen.c` over a burst, which fills the buffer of a
frame, and what `rx_worker_loop` reads from it. `readProbe_fillData` is the round trip,
`readProbe_samePacket` says that a forwarder between the two does not break it, and
`flowTuple_fillData` gives the flow that the forwarder sees.
-/

namespace NetBlast.Pktgen
open Wire L2fwd

/-- `RTE_ETHER_TYPE_IPV4`. -/
def rteEtherTypeIpv4 : BitVec 16 := 0x0800

/-- `IPPROTO_UDP`. -/
def ipprotoUdp : Byte := 17

/-- `RTE_IPV4`. -/
def rteIpv4 (a b c d : BitVec 32) : BitVec 32 :=
  ((a &&& 0xff) <<< 24) ||| ((b &&& 0xff) <<< 16) ||| ((c &&& 0xff) <<< 8) ||| (d &&& 0xff)

/-- What `tx_worker_loop` computes before its loop. -/
structure TxConf where
  lcoreId : BitVec 32
  portMac : Fin 6 → Byte

/-- `base_ip`. -/
def TxConf.baseIp (conf : TxConf) : BitVec 32 :=
  rteIpv4 10 conf.lcoreId 0 0

/-- The variables of `tx_worker_loop`. -/
structure TxLocals where
  clientIpCounter : BitVec 32
  clientPortCounter : BitVec 16
  localPkts : BitVec 64
  localBytes : BitVec 64
  lastTsc : BitVec 64

section
variable (cksum : List Byte → BitVec 16) (g : Globals) (conf : TxConf)

/-- `current_ip`. -/
def currentIp (clientIpCounter : BitVec 32) : BitVec 32 :=
  conf.baseIp + (clientIpCounter &&& g.gIpMask)

/-- The assignments of the loop body to the buffer `m` of frame `i` of a burst. `cksum` is
    `rte_ipv4_cksum`, and `tsc` the time stamp. -/
def fillData (s : TxLocals) (i : Nat) (m : Frame) (tsc : BitVec 64) : Frame :=
  let m := store m etherDstAddr.off (List.replicate headersLen 0)
  -- Layer 2
  let m := store m etherDstAddr.off (List.replicate 6 0xff)
  let m := store m etherSrcAddr.off (List.ofFn conf.portMac)
  let m := store m etherType.off (be 2 rteEtherTypeIpv4)
  -- Layer 3
  let m := store m versionIhl.off [0x45]
  let m := store m totalLength.off (be 2 (20 + 8 + g.gPayloadSize))
  let m := store m nextProtoId.off [ipprotoUdp]
  let m := store m srcAddr.off (be 4 (currentIp g conf s.clientIpCounter))
  let m := store m dstAddr.off (be 4 (rteIpv4 192 168 1 1))
  let m := store m timeToLive.off [64]
  let m := store m hdrChecksum.off (le 2 (cksum (load m versionIhl.off 20)))
  -- Layer 4
  let m := store m srcPort.off (be 2 s.clientPortCounter)
  let m := store m dstPort.off (be 2 (80 : BitVec 16))
  let m := store m dgramLen.off (be 2 (8 + g.gPayloadSize))
  let m := store m dgramCksum.off (le 2 (0 : BitVec 16))
  -- Custom Payload
  let m := store m threadId.off (le 4 conf.lcoreId)
  let m := store m packetId.off (le 8 (s.localPkts + BitVec.ofNat 64 i))
  store m txTimestamp.off (le 8 tsc)

/-- The loop body: the frame, and the variables afterwards. -/
def fillFrame (s : TxLocals) (i : Nat) (m : Frame) (tsc : BitVec 64) : Frame × TxLocals :=
  (fillData cksum g conf s i m tsc,
    { s with
      clientIpCounter := s.clientIpCounter + 1
      clientPortCounter := if s.clientPortCounter > 65000 then 1025 else s.clientPortCounter })

end

/-- The two tests of `rx_worker_loop` on a frame: IPv4, and UDP. -/
def IsProbe (m : Frame) : Prop :=
  load m etherType.off etherType.size = be 2 rteEtherTypeIpv4 ∧ m nextProtoId.off = ipprotoUdp

instance (m : Frame) : Decidable (IsProbe m) :=
  inferInstanceAs (Decidable (_ ∧ _))

/-- `struct custom_payload`. -/
structure CustomPayload where
  threadId : BitVec 32
  packetId : BitVec 64
  txTimestamp : BitVec 64
deriving DecidableEq

/-- The payload of a frame, as a receiver reads it. -/
def readPayload (m : Frame) : CustomPayload where
  threadId := ofLe 32 (load m threadId.off threadId.size)
  packetId := ofLe 64 (load m packetId.off packetId.size)
  txTimestamp := ofLe 64 (load m txTimestamp.off txTimestamp.size)

/-- A load behind the addresses sees the packet. -/
lemma load_samePacket {m m' : Frame} (same : SamePacket m m') {off n : Nat} (le : 12 ≤ off) :
    load m' off n = load m off n :=
  load_congr fun i ge _ => same i (le.trans ge)

/-- What a receiver makes of a frame: nothing, if the frame fails the tests. -/
def readProbe (m : Frame) : Option CustomPayload :=
  if IsProbe m then some (readPayload m) else none

/-- The tests and the payload are behind the addresses. -/
lemma readProbe_samePacket (m m' : Frame) (same : SamePacket m m') : readProbe m' = readProbe m := by
  have probe : IsProbe m' ↔ IsProbe m := by
    unfold IsProbe
    rw [load_samePacket same (by decide), same nextProtoId.off (by decide)]
  have payload : readPayload m' = readPayload m := by
    unfold readPayload
    rw [load_samePacket same (by decide), load_samePacket same (by decide),
      load_samePacket same (by decide)]
  unfold readProbe
  simp only [probe, payload]

/-- The octets of the flow of a client. -/
def clientFlow (ip : BitVec 32) (port : BitVec 16) : List Byte :=
  be 4 ip ++ be 4 (rteIpv4 192 168 1 1) ++ [ipprotoUdp] ++ be 2 port ++ be 2 (80 : BitVec 16)

/-- Different clients have different flows. -/
lemma clientFlow_inj {ip ip' : BitVec 32} {port port' : BitVec 16}
    (same : clientFlow ip port = clientFlow ip' port') : ip = ip' ∧ port = port' := by
  unfold clientFlow at same
  obtain ⟨same, -⟩ := List.append_inj same (by simp)
  obtain ⟨same, ports⟩ := List.append_inj same (by simp)
  obtain ⟨same, -⟩ := List.append_inj same (by simp)
  obtain ⟨ips, -⟩ := List.append_inj same (by simp)
  exact ⟨be_injective (by decide) ips, be_injective (by decide) ports⟩

section
variable (cksum : List Byte → BitVec 16) (g : Globals) (conf : TxConf) (s : TxLocals) (i : Nat)
  (m : Frame) (tsc : BitVec 64)

/-- What the generator writes is read again. -/
lemma readProbe_fillData :
    readProbe (fillData cksum g conf s i m tsc) =
      some
        { threadId := conf.lcoreId
          packetId := s.localPkts + BitVec.ofNat 64 i
          txTimestamp := tsc } := by
  have probe : IsProbe (fillData cksum g conf s i m tsc) := ⟨rfl, rfl⟩
  have thread : load (fillData cksum g conf s i m tsc) threadId.off threadId.size =
      le 4 conf.lcoreId := rfl
  have packet : load (fillData cksum g conf s i m tsc) packetId.off packetId.size =
      le 8 (s.localPkts + BitVec.ofNat 64 i) := rfl
  have stamp : load (fillData cksum g conf s i m tsc) txTimestamp.off txTimestamp.size =
      le 8 tsc := rfl
  unfold readProbe readPayload
  rw [if_pos probe, thread, packet, stamp, ofLe_le (by decide), ofLe_le (by decide),
    ofLe_le (by decide)]

/-- The generator writes IPv4 with a header of 20 octets. -/
lemma version_fillData : fillData cksum g conf s i m tsc ethHeaderLen = 0x45 := rfl

/-- The forwarder takes the frame. -/
lemma accepted_fillData : Accepted (fillData cksum g conf s i m tsc) := by
  constructor
  · rw [version_fillData]
    decide
  · exact Or.inr rfl

/-- The forwarder sees the flow of the client. -/
lemma flowTuple_fillData :
    List.ofFn (flowTuple (fillData cksum g conf s i m tsc)) =
      clientFlow (currentIp g conf s.clientIpCounter) s.clientPortCounter := by
  set f := fillData cksum g conf s i m tsc with def_f
  have tuple : List.ofFn (flowTuple f) =
      load f srcAddr.off 4 ++ load f dstAddr.off 4 ++ load f nextProtoId.off 1 ++
        load f (ethHeaderLen + 4 * ihl f) 4 := rfl
  have words : ihl f = 5 := by
    unfold ihl
    rw [def_f, version_fillData]
    decide
  have ports : load f srcPort.off 4 = be 2 s.clientPortCounter ++ be 2 (80 : BitVec 16) := rfl
  rw [tuple, words]
  change _ ++ load f srcPort.off 4 = _
  rw [ports, ← List.append_assoc]
  rfl

/-- What is behind the payload stays as it was. -/
lemma fillData_outside {j : Nat} (ge : txTimestamp.stop ≤ j) :
    fillData cksum g conf s i m tsc j = m j := by
  have far {m : Memory} {off : Nat} {data : List Byte} (short : off + data.length ≤ 62) :
      store m off data j = m j := store_outside m (Or.inr (short.trans ge))
  unfold fillData
  repeat rw [far (by simp; decide)]

end

/-- `l2_payload_len`. -/
def Globals.l2PayloadLen (g : Globals) : BitVec 32 :=
  BitVec.ofNat 32 headersLen + g.gPayloadSize.setWidth 32

/-- The length of the payload does not wrap around. -/
lemma l2PayloadLen_toNat (g : Globals) : g.l2PayloadLen.toNat = 42 + g.gPayloadSize.toNat := by
  have payload := g.payload
  have headers : headersLen = 42 := rfl
  unfold Globals.l2PayloadLen
  rw [headers, BitVec.toNat_add, BitVec.toNat_setWidth, BitVec.toNat_ofNat]
  omega

/-- A frame of the generator keeps to its length, whatever stood in the buffer: nothing is written
    behind the octets that were appended for it. The two lengths in its headers are right, the
    forwarder and the server find the payload where it is, and a receiver reads what was written. -/
theorem frames_well_formed (cksum : List Byte → BitVec 16) (g : Globals) (conf : TxConf)
    (s : TxLocals) (i : Nat) (m : Frame) (tsc : BitVec 64) :
    let f := fillData cksum g conf s i m tsc
    let len := g.l2PayloadLen.toNat
    (∀ j, len ≤ j → f j = m j) ∧ txTimestamp.stop ≤ len ∧ len ≤ 1442 ∧
    (ofBe 16 (load f totalLength.off totalLength.size)).toNat + versionIhl.off = len ∧
    (ofBe 16 (load f dgramLen.off dgramLen.size)).toNat + srcPort.off = len ∧
    getUdpPayload (load f 0 len) = some (some headersLen) ∧
    readProbe f =
      some
        { threadId := conf.lcoreId
          packetId := s.localPkts + BitVec.ofNat 64 i
          txTimestamp := tsc } := by
  intro f len
  have payload := g.payload
  have fits : 20 ≤ g.gPayloadSize.toNat := g.fits
  have def_len : len = 42 + g.gPayloadSize.toNat := l2PayloadLen_toNat g
  have stop : txTimestamp.stop = 62 := rfl
  refine ⟨fun j le => fillData_outside cksum g conf s i m tsc (by omega), by omega, by omega, ?_, ?_,
    ?_, readProbe_fillData cksum g conf s i m tsc⟩
  · have octets : load f totalLength.off totalLength.size = be 2 (20 + 8 + g.gPayloadSize) := rfl
    have off : versionIhl.off = 14 := rfl
    have header : (20 + 8 : BitVec 16).toNat = 28 := rfl
    rw [octets, ofBe_be (by decide), BitVec.toNat_add, header]
    omega
  · have octets : load f dgramLen.off dgramLen.size = be 2 (8 + g.gPayloadSize) := rfl
    have off : srcPort.off = 34 := rfl
    have header : (8 : BitVec 16).toNat = 8 := rfl
    rw [octets, ofBe_be (by decide), BitVec.toNat_add, header]
    omega
  · have version : (load f 0 len)[ethHeaderLen]? = some 0x45 :=
      getElem?_load f (show 14 < len by omega)
    have proto : (load f 0 len)[ethHeaderLen + ipv4ProtoOffset]? = some 17 :=
      getElem?_load f (show 23 < len by omega)
    unfold getUdpPayload
    rw [version, proto]
    decide

end NetBlast.Pktgen
