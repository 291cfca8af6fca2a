import NetBlast.Hash
import NetBlast.Memory

/-!
# Frames

`flowhash` and `get_udp_payload` of `packettool.c`. For the flow key a frame is the memory behind
its first octet, so that an octet the code reads past the received bytes has a value too. For the
payload it is a buffer, and an access past its end fails.
-/

namespace NetBlast

/-- The octets behind the pointer to a frame. -/
abbrev Frame := Nat → Byte

/-- `len` octets of a frame from offset `off` on. -/
def Frame.slice (f : Frame) (off len : Nat) : List Byte :=
  (List.range len).map fun i => f (off + i)

/-- `ETH_HEADER_LEN`. -/
def ethHeaderLen : Nat := 14

/-- `UDP_HEADER_LEN`. -/
def udpHeaderLen : Nat := 8

/-- `IPV4_PROTO_OFFSET`. -/
def ipv4ProtoOffset : Nat := 9

/-- `IPV4_SRCDST_OFFSET`. -/
def ipv4SrcdstOffset : Nat := 12

/-- `IPV4_SRCDST_LEN`. -/
def ipv4SrcdstLen : Nat := 8

/-- `frame[ETH_HEADER_LEN] >> 4 == 4`: a `char` is promoted to `int` with its sign before the
    shift. -/
def isIpv4 (version : Byte) : Prop :=
  (version.signExtend 32).sshiftRight 4 = 4

instance (version : Byte) : Decidable (isIpv4 version) :=
  inferInstanceAs (Decidable (_ = _))

/-- `get_udp_payload`: the offset of the payload, or `NULL`. It fails where it leaves the frame. -/
def getUdpPayload (frame : Buffer) : Option (Option Nat) := do
  let version ← frame[ethHeaderLen]?
  if ¬ isIpv4 version then some none
  else
    let v4len := (version &&& 0xf).toNat * 4
    let proto ← frame[ethHeaderLen + ipv4ProtoOffset]?
    if proto ≠ 17 then some none
    else some (some (ethHeaderLen + v4len + udpHeaderLen))

/-- `flowhash`: 0 for a frame that is not IPv4 with TCP or UDP. -/
def flowhash (f : Frame) : BitVec 64 :=
  -- a `char` is promoted to `int` with its sign before the shift
  if ((f ethHeaderLen).signExtend 32).sshiftRight 4 ≠ 4 then 0
  else
    let proto := f (ethHeaderLen + ipv4ProtoOffset)
    if proto ≠ 6 ∧ proto ≠ 17 then 0
    else
      let v4len := 4 * (f ethHeaderLen &&& 0b1111).toNat
      let hash := fnvBasis
      let hash := fnv1Multi (f.slice (ethHeaderLen + ipv4SrcdstOffset) ipv4SrcdstLen) hash
      let hash := fnv1Multi (f.slice (ethHeaderLen + ipv4ProtoOffset) 1) hash
      fnv1Multi (f.slice (ethHeaderLen + v4len) 4) hash

end NetBlast
