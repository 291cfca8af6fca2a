import NetBlast.L2fwd.MainLoop

/-!
# Flow keys

The flow key of a frame is the FNV hash of 13 of its octets. `flowhash_separates` says that the key
is a function of them, and that a change of one of them changes it. The port octets are found
through the header length the frame states for itself; `flowhash_decided_iff` says when that leads
past the received octets.
-/

namespace NetBlast.L2fwd

/-- A frame that `flowhash` takes: IPv4, with TCP or UDP. -/
def Accepted (f : Frame) : Prop :=
  f ethHeaderLen >>> 4 = 4 ∧
    (f (ethHeaderLen + ipv4ProtoOffset) = 6 ∨ f (ethHeaderLen + ipv4ProtoOffset) = 17)

instance (f : Frame) : Decidable (Accepted f) :=
  inferInstanceAs (Decidable (_ ∧ _))

/-- The header length the frame states, in words of four octets. -/
def ihl (f : Frame) : Nat :=
  (f ethHeaderLen &&& 0b1111).toNat

/-- The places of source and destination address, protocol and ports. -/
def tupleOffset (f : Frame) (i : Fin 13) : Nat :=
  if i.val < 8 then ethHeaderLen + ipv4SrcdstOffset + i.val
  else if i.val = 8 then ethHeaderLen + ipv4ProtoOffset
  else ethHeaderLen + 4 * ihl f + (i.val - 9)

/-- The octets that identify the flow of a frame. -/
def flowTuple (f : Frame) (i : Fin 13) : Byte :=
  f (tupleOffset f i)

/-- The signed shift of the source looks at the version nibble. -/
lemma version_iff : ∀ b : Byte, (b.signExtend 32).sshiftRight 4 = 4 ↔ b >>> 4 = 4 := by
  decide

/-- A frame that is not accepted has no flow key. -/
lemma flowhash_of_not_accepted {f : Frame} (refused : ¬ Accepted f) : flowhash f = 0 := by
  unfold flowhash
  dsimp only
  split_ifs with version proto
  · rfl
  · rfl
  · rw [ne_eq, not_not, version_iff] at version
    exact absurd ⟨version, by tauto⟩ refused

/-- The flow key is the hash of the flow tuple. -/
lemma flowhash_of_accepted {f : Frame} (accepted : Accepted f) :
    flowhash f = fnv1 (List.ofFn (flowTuple f)) := by
  obtain ⟨version, proto⟩ := accepted
  have tuple : List.ofFn (flowTuple f) =
      f.slice (ethHeaderLen + ipv4SrcdstOffset) ipv4SrcdstLen ++
        f.slice (ethHeaderLen + ipv4ProtoOffset) 1 ++ f.slice (ethHeaderLen + 4 * ihl f) 4 := by
    rfl
  unfold flowhash
  rw [if_neg (not_not_intro ((version_iff _).mpr version)), tuple, fnv1, fnv1Multi_append,
    fnv1Multi_append]
  exact if_neg (by tauto)

/-- Accepted frames with equal flow tuples have the same flow key, and accepted frames whose flow
    tuples differ in exactly one octet have different ones. -/
theorem flowhash_separates (f g : Frame) (hf : Accepted f) (hg : Accepted g) :
    (flowTuple f = flowTuple g → flowhash f = flowhash g) ∧
    ((∃! i, flowTuple f i ≠ flowTuple g i) → flowhash f ≠ flowhash g) := by
  rw [flowhash_of_accepted hf, flowhash_of_accepted hg]
  constructor
  · intro same
    rw [same]
  · intro once
    unfold fnv1 fnv1Multi
    exact fnv_separating.foldl_ne fnvBasis once

/-- A TCP frame with the octet `version` at the start of its header, and `port` for the last octet
    of its ports. -/
def tcpFrame (version port : Byte) : Frame := fun i =>
  if i = 14 then version
  else if i = 23 then 6
  else if i = 17 + 4 * (version &&& 0b1111).toNat then port
  else 0

/-- Two frames of one flow, with and without options, and a frame of its neighbour. -/
theorem flowhash_separates_tcpFrame :
    flowhash (tcpFrame 0x45 80) = flowhash (tcpFrame 0x46 80) ∧
    flowhash (tcpFrame 0x45 80) ≠ flowhash (tcpFrame 0x46 81) :=
  ⟨(flowhash_separates (tcpFrame 0x45 80) (tcpFrame 0x46 80) (by decide) (by decide)).1
      (by decide),
    (flowhash_separates (tcpFrame 0x45 80) (tcpFrame 0x46 81) (by decide) (by decide)).2
      ⟨12, by decide, by decide⟩⟩

/-- The burst loops handle `g` as they handle `f`. -/
structure SameFlow (f g : Frame) : Prop where
  key : flowhash g = flowhash f
  maglev : ∀ crc cap lookup conntrack,
    maglevProcessFrame crc cap lookup conntrack g = maglevProcessFrame crc cap lookup conntrack f
  dramblast : ∀ s place, collectFrame s (g, place) = collectFrame s (f, place)

/-- The loops see the flow key of a frame only. -/
lemma SameFlow.of_key {f g : Frame} (key : flowhash g = flowhash f) : SameFlow f g where
  key := key
  maglev crc cap lookup conntrack := by rw [maglevProcessFrame, key, maglevProcessFrame]
  dramblast s place := by rw [collectFrame, key, collectFrame]

variable {f g : Frame}

/-- Whether a frame is accepted is decided by two octets of its headers. -/
lemma accepted_congr (version : g 14 = f 14) (proto : g 23 = f 23) : Accepted g ↔ Accepted f := by
  unfold Accepted ethHeaderLen ipv4ProtoOffset
  rw [version, proto]

/-- Where the ports are depends on the header length only. -/
lemma tupleOffset_congr (version : g 14 = f 14) : tupleOffset g = tupleOffset f := by
  funext i
  unfold tupleOffset ihl ethHeaderLen
  rw [version]

/-- The flow tuple lies in front of the end of the ports. -/
lemma tupleOffset_lt {L : Nat} (hL : 60 ≤ L) (fits : ethHeaderLen + 4 * ihl f + 4 ≤ L)
    (i : Fin 13) : tupleOffset f i < L := by
  have hi := i.isLt
  unfold tupleOffset ethHeaderLen ipv4SrcdstOffset ipv4ProtoOffset at *
  split_ifs <;> omega

/-- Frames that agree up to the end of the ports have the same flow key. -/
lemma flowhash_congr {L : Nat} (hL : 60 ≤ L)
    (fits : ¬ Accepted f ∨ ethHeaderLen + 4 * ihl f + 4 ≤ L) (agree : ∀ i < L, g i = f i) :
    flowhash g = flowhash f := by
  have version := agree 14 (by omega)
  have accepted := accepted_congr version (agree 23 (by omega))
  by_cases hf : Accepted f
  · have fits := fits.resolve_left (not_not_intro hf)
    rw [flowhash_of_accepted hf, flowhash_of_accepted (accepted.mpr hf)]
    congr 2
    funext i
    unfold flowTuple
    rw [tupleOffset_congr version]
    exact agree _ (tupleOffset_lt hL fits i)
  · rw [flowhash_of_not_accepted hf, flowhash_of_not_accepted (mt accepted.mp hf)]

/-- A different octet at the end of the ports makes a different flow key. -/
lemma flowhash_update_ne (hf : Accepted f) (far : 60 < ethHeaderLen + 4 * ihl f + 4) {b : Byte}
    (differ : b ≠ f (ethHeaderLen + 4 * ihl f + 3)) :
    flowhash (Function.update f (ethHeaderLen + 4 * ihl f + 3) b) ≠ flowhash f := by
  set last := ethHeaderLen + 4 * ihl f + 3 with def_last
  have same {i} (ne : i ≠ last) : Function.update f last b i = f i := Function.update_of_ne ne ..
  have version := same (i := 14) (by omega)
  have accepted := accepted_congr version (same (i := 23) (by omega))
  refine (flowhash_separates _ _ (accepted.mpr hf) hf).2 ⟨12, ?_, fun i ne => ?_⟩
  · unfold flowTuple
    rw [tupleOffset_congr version]
    change Function.update f last b last ≠ f last
    rw [Function.update_self]
    exact differ
  · -- no other octet of the tuple stands behind octet 60
    by_contra other
    apply ne
    unfold flowTuple
    rw [tupleOffset_congr version]
    apply same
    have hi := i.isLt
    have other := Fin.val_ne_of_ne other
    unfold tupleOffset
    unfold ethHeaderLen ipv4SrcdstOffset ipv4ProtoOffset at *
    split_ifs <;> omega

/-- The received octets decide the flow of a frame exactly if it is refused, or its port octets are
    among them. -/
theorem flowhash_decided_iff (L : Nat) (f : Frame) (hL : 60 ≤ L) :
    (∀ g : Frame, (∀ i < L, g i = f i) → SameFlow f g) ↔
      ¬ Accepted f ∨ ethHeaderLen + 4 * ihl f + 4 ≤ L := by
  constructor
  · intro decided
    by_contra leaves
    rw [not_or, not_not, not_le] at leaves
    obtain ⟨accepted, past⟩ := leaves
    have differ : ∀ b : Byte, b + 1 ≠ b := by decide
    exact flowhash_update_ne accepted (by omega) (differ _)
      (decided _ fun i hi => Function.update_of_ne (by omega) ..).key
  · intro fits g agree
    exact .of_key (flowhash_congr hL fits agree)

/-- The received octets decide the flow of a frame without options. -/
theorem flowhash_decided_iff_tcpFrame :
    (∀ g : Frame, (∀ i < 60, g i = tcpFrame 0x45 80 i) → SameFlow (tcpFrame 0x45 80) g) ↔
      ¬ Accepted (tcpFrame 0x45 80) ∨ ethHeaderLen + 4 * ihl (tcpFrame 0x45 80) + 4 ≤ 60 :=
  flowhash_decided_iff 60 (tcpFrame 0x45 80) (by decide)

/-- Two buffers with the same frame of 60 octets, which states a header of 60 octets, and different
    stale octets behind it. -/
theorem flowhash_reads_stale :
    ¬ ∀ L, 60 ≤ L → ∀ f g : Frame, (∀ i < L, g i = f i) → flowhash g = flowhash f := by
  intro decided
  have same := decided 60 le_rfl (tcpFrame 0x4f 0) (tcpFrame 0x4f 1) (by decide)
  exact absurd same (by decide +kernel)

end NetBlast.L2fwd
