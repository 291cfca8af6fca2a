import NetBlast.Memory
import NetBlast.Cli.Settings

/-!
# The options of the packet generator

The layout of its frames and the loop over the options in `main` of `pktgen.c`. `options_iff` says
which command lines are accepted and which mask and payload they give.
-/

namespace NetBlast.Pktgen
open Cli

section Layout

/-! The members of `struct rte_ether_hdr`, `struct rte_ipv4_hdr`, `struct rte_udp_hdr` and
`struct custom_payload`, one behind the other. -/

def etherDstAddr : Field := { off := 0, size := 6 }
def etherSrcAddr : Field := etherDstAddr.next 6
def etherType : Field := etherSrcAddr.next 2

def versionIhl : Field := etherType.next 1
def typeOfService : Field := versionIhl.next 1
def totalLength : Field := typeOfService.next 2
def ipPacketId : Field := totalLength.next 2
def fragmentOffset : Field := ipPacketId.next 2
def timeToLive : Field := fragmentOffset.next 1
def nextProtoId : Field := timeToLive.next 1
def hdrChecksum : Field := nextProtoId.next 2
def srcAddr : Field := hdrChecksum.next 4
def dstAddr : Field := srcAddr.next 4

def srcPort : Field := dstAddr.next 2
def dstPort : Field := srcPort.next 2
def dgramLen : Field := dstPort.next 2
def dgramCksum : Field := dgramLen.next 2

def threadId : Field := dgramCksum.next 4
def packetId : Field := threadId.next 8
def txTimestamp : Field := packetId.next 8

end Layout

/-- `sizeof` the three headers. -/
def headersLen : Nat := dgramCksum.stop

/-- `sizeof(struct custom_payload)`. -/
def customPayloadLen : Nat := txTimestamp.stop - headersLen

/-- An option `getopt` finds, with its argument as `atoi` reads it. -/
inductive Opt where
  | r (range : BitVec 32)
  | p (payload : BitVec 32)
  | unknown

/-- The options: a mask for the client addresses that comes from a power of two, and the size of the
    payload. -/
structure Options where
  gIpMask : BitVec 32
  gPayloadSize : BitVec 16
  mask : ∃ k ≤ 30, gIpMask = BitVec.ofNat 32 (2 ^ k - 1)
  payload : gPayloadSize.toNat ≤ 1400

/-- The initial values. -/
def Options.start : Options where
  gIpMask := 0xff
  gPayloadSize := 0
  mask := ⟨8, by decide, rfl⟩
  payload := by decide

/-- The test of the argument of `-r`. -/
def invalidRange (range : BitVec 32) : Bool :=
  range.sle 0 || range &&& (range - 1) != 0

/-- The test of the argument of `-p`. -/
def invalidPayload (payload : BitVec 32) : Bool :=
  payload.slt 0 || (1400 : BitVec 32).slt payload

/-- Exactly the powers of two up to 2^30 are valid. -/
lemma invalidRange_iff (range : BitVec 32) :
    ¬ invalidRange range ↔ ∃ k ≤ 30, range.toNat = 2 ^ k := by
  unfold invalidRange
  rw [Bool.or_eq_true, not_or, BitVec.sle_iff_toInt_le, bne_iff_ne, not_not]
  have zero : (0 : BitVec 32).toInt = 0 := rfl
  have one : (1 : BitVec 32).toNat = 1 := rfl
  have toInt := BitVec.toInt_eq_toNat_cond range
  have lt := range.isLt
  have pred (pos : 0 < range.toNat) : (range - 1).toNat = range.toNat - 1 := by
    rw [BitVec.toNat_sub_of_le (BitVec.le_def.mpr (one ▸ pos)), one]
  constructor
  · rintro ⟨positive, power⟩
    have small : 0 < range.toNat ∧ range.toNat < 2 ^ 31 := by
      rw [zero] at positive
      split_ifs at toInt <;> omega
    have bits := congrArg BitVec.toNat power
    rw [BitVec.toNat_and, pred small.1] at bits
    obtain ⟨k, def_k⟩ := (Nat.and_sub_one_eq_zero_iff_isPowerOfTwo small.1.ne').mp bits
    have lt : 2 ^ k < 2 ^ 31 := def_k ▸ small.2
    exact ⟨k, Nat.le_of_lt_succ ((Nat.pow_lt_pow_iff_right (by decide)).mp lt), def_k⟩
  · rintro ⟨k, le, def_k⟩
    have pos : 0 < range.toNat := def_k ▸ Nat.two_pow_pos k
    have small : 2 ^ k ≤ 2 ^ 30 := Nat.pow_le_pow_right (by decide) le
    refine ⟨?_, BitVec.eq_of_toNat_eq ?_⟩
    · rw [zero]
      split_ifs at toInt <;> omega
    · rw [BitVec.toNat_and, pred pos]
      exact (Nat.and_sub_one_eq_zero_iff_isPowerOfTwo pos.ne').mpr ⟨k, def_k⟩

/-- The mask of a valid range consists of its low bits. -/
lemma mask_of_range {range : BitVec 32} (valid : ¬ invalidRange range) :
    ∃ k ≤ 30, range - 1 = BitVec.ofNat 32 (2 ^ k - 1) := by
  obtain ⟨k, le, def_k⟩ := (invalidRange_iff range).mp valid
  have pos : 0 < 2 ^ k := Nat.two_pow_pos k
  have small : 2 ^ k ≤ 2 ^ 30 := Nat.pow_le_pow_right (by decide) le
  have one : (1 : BitVec 32).toNat = 1 := rfl
  refine ⟨k, le, BitVec.eq_of_toNat_eq ?_⟩
  rw [BitVec.toNat_sub_of_le (BitVec.le_def.mpr (by omega)), one, def_k, BitVec.toNat_ofNat,
    Nat.mod_eq_of_lt (by omega)]

/-- Exactly the payloads up to 1400 are valid. -/
lemma invalidPayload_iff (payload : BitVec 32) :
    ¬ invalidPayload payload ↔ payload.toNat ≤ 1400 := by
  unfold invalidPayload
  rw [Bool.or_eq_true, not_or, BitVec.slt_iff_toInt_lt, BitVec.slt_iff_toInt_lt]
  have zero : (0 : BitVec 32).toInt = 0 := rfl
  have most : (1400 : BitVec 32).toInt = 1400 := rfl
  have toInt := BitVec.toInt_eq_toNat_cond payload
  have lt := payload.isLt
  rw [zero, most]
  split_ifs at toInt <;> omega

/-- An accepted payload fits in 16 bits. -/
lemma payload_le {payload : BitVec 32} (valid : ¬ invalidPayload payload) :
    (payload.setWidth 16).toNat ≤ 1400 := by
  have le := (invalidPayload_iff payload).mp valid
  rw [BitVec.toNat_setWidth, Nat.mod_eq_of_lt (by omega)]
  exact le

/-- The body of the loop over the options; `none` is one of its two `rte_exit`. -/
def Options.option (o : Options) : Opt → Option Options
  | .r range =>
    if h : invalidRange range then none
    else some { o with gIpMask := range - 1, mask := mask_of_range h }
  | .p payload =>
    if h : invalidPayload payload then none
    else some { o with gPayloadSize := payload.setWidth 16, payload := payload_le h }
  | .unknown => some o

/-- The options, as they are when the workers are launched: the payload is large enough for
    `struct custom_payload`. -/
structure Globals extends Options where
  fits : customPayloadLen ≤ gPayloadSize.toNat

/-- The minimum payload size is enforced. -/
def Options.enforce (o : Options) : Globals :=
  if h : o.gPayloadSize.toNat < customPayloadLen then
    { o with
      gPayloadSize := BitVec.ofNat 16 customPayloadLen
      payload := by decide
      fits := by decide }
  else { o with fits := Nat.le_of_not_lt h }

/-- The options of a command line. -/
def parseOptions (opts : List Opt) : Option Globals :=
  (opts.foldlM Options.option Options.start).map Options.enforce

/-- An option that is accepted. -/
def Opt.Valid : Opt → Prop
  | .r range => ∃ k ≤ 30, range.toNat = 2 ^ k
  | .p payload => payload.toNat ≤ 1400
  | .unknown => True

/-- The mask an option gives. -/
def Opt.mask? : Opt → Option (BitVec 32)
  | .r range => some (range - 1)
  | _ => none

/-- The size of the payload an option gives. -/
def Opt.payload? : Opt → Option (BitVec 16)
  | .p payload => some (payload.setWidth 16)
  | _ => none


/-- Exactly the valid options are accepted. -/
lemma option_isSome (o : Options) (opt : Opt) : (o.option opt).isSome ↔ opt.Valid := by
  unfold Options.option Opt.Valid
  cases opt with
  | r range =>
    dsimp only
    rw [← invalidRange_iff]
    split <;> simp [*]
  | p payload =>
    dsimp only
    rw [← invalidPayload_iff]
    split <;> simp [*]
  | unknown => simp

/-- What an option does. -/
lemma option_step (o : Options) (opt : Opt) (o' : Options) (step : o.option opt = some o') :
    o'.gIpMask = opt.mask?.getD o.gIpMask ∧ o'.gPayloadSize = opt.payload?.getD o.gPayloadSize := by
  unfold Options.option at step
  cases opt with
  | r range =>
    dsimp only at step
    split_ifs at step
    cases step
    exact ⟨rfl, rfl⟩
  | p payload =>
    dsimp only at step
    split_ifs at step
    cases step
    exact ⟨rfl, rfl⟩
  | unknown =>
    cases step
    exact ⟨rfl, rfl⟩

/-- The payload is at least the probe. -/
lemma enforce_payload (o : Options) :
    o.enforce.gPayloadSize.toNat = max customPayloadLen o.gPayloadSize.toNat := by
  unfold Options.enforce
  split_ifs with small
  · dsimp only
    have len : (BitVec.ofNat 16 customPayloadLen).toNat = customPayloadLen := by decide
    rw [len]
    omega
  · dsimp only
    omega

/-- Enforcing the payload leaves the mask alone. -/
lemma enforce_mask (o : Options) : o.enforce.gIpMask = o.gIpMask := by
  unfold Options.enforce
  split_ifs <;> rfl

/-- The mask keeps the low bits of a counter. -/
lemma and_gIpMask (g : Globals) (client : Nat) :
    BitVec.ofNat 32 client &&& g.gIpMask =
      BitVec.ofNat 32 (client % (g.gIpMask.toNat + 1)) := by
  obtain ⟨k, le, mask⟩ := g.mask
  have pow : 2 ^ k ≤ 2 ^ 30 := Nat.pow_le_pow_right (by decide) le
  have pos : 0 < 2 ^ k := Nat.two_pow_pos k
  have toNat : g.gIpMask.toNat = 2 ^ k - 1 := by
    rw [mask, BitVec.toNat_ofNat, Nat.mod_eq_of_lt (by omega)]
  have dvd : 2 ^ k ∣ 2 ^ 32 := Nat.pow_dvd_pow 2 (by omega)
  apply BitVec.eq_of_toNat_eq
  rw [BitVec.toNat_and, BitVec.toNat_ofNat, toNat, Nat.and_two_pow_sub_one_eq_mod,
    BitVec.toNat_ofNat, Nat.sub_add_cancel pos, Nat.mod_mod_of_dvd _ dvd]
  have lt := Nat.mod_lt client pos
  rw [Nat.mod_eq_of_lt (show client % 2 ^ k < 2 ^ 32 by omega)]

/-- There are at most 2^30 clients. -/
lemma gIpMask_lt (g : Globals) : g.gIpMask.toNat + 1 ≤ 2 ^ 30 := by
  obtain ⟨k, le, mask⟩ := g.mask
  have pow : 2 ^ k ≤ 2 ^ 30 := Nat.pow_le_pow_right (by decide) le
  have pos : 0 < 2 ^ k := Nat.two_pow_pos k
  rw [mask, BitVec.toNat_ofNat, Nat.mod_eq_of_lt (by omega)]
  omega

/-- A command line is accepted exactly if each range is a power of two that an `int` can hold and each
    payload is at most 1400. The last option of each kind wins, and the size of the payload is raised
    to the one of the probe. Whatever the range is, masking a counter reduces it modulo the range. -/
theorem options_iff (opts : List Opt) :
    ((parseOptions opts).isSome ↔ ∀ opt ∈ opts, opt.Valid) ∧
    ∀ g, parseOptions opts = some g →
      g.gIpMask = lastOf Opt.mask? opts 0xff ∧
      g.gPayloadSize.toNat = max customPayloadLen (lastOf Opt.payload? opts 0).toNat ∧
      ∀ counter : BitVec 32,
        (counter &&& g.gIpMask).toNat = counter.toNat % (g.gIpMask.toNat + 1) := by
  unfold parseOptions
  refine ⟨?_, fun g run => ?_⟩
  · rw [Option.isSome_map]
    exact foldlM_isSome_iff option_isSome Options.start opts
  · obtain ⟨o, parsed, rfl⟩ := Option.map_eq_some_iff.mp run
    have mask := foldlM_lastOf (fun o opt o' step => (option_step o opt o' step).1) parsed
    have payload := foldlM_lastOf (fun o opt o' step => (option_step o opt o' step).2) parsed
    refine ⟨?_, ?_, fun counter => ?_⟩
    · rw [enforce_mask]
      exact mask
    · rw [enforce_payload, payload]
      rfl
    · have masked := and_gIpMask o.enforce counter.toNat
      have small := gIpMask_lt o.enforce
      have lt := Nat.mod_lt counter.toNat (Nat.add_one_pos o.enforce.gIpMask.toNat)
      rw [BitVec.ofNat_toNat, BitVec.setWidth_eq] at masked
      rw [masked, BitVec.toNat_ofNat, Nat.mod_eq_of_lt (by omega)]

/-- A range that is given twice, and a payload that is too small. -/
theorem options_iff_twoRanges :
    ∃ g, parseOptions [.r 1, .p 7, .r 4] = some g ∧ g.gIpMask = 3 ∧ g.gPayloadSize.toNat = 20 ∧
      ∀ counter : BitVec 32, (counter &&& 3).toNat = counter.toNat % 4 := by
  have accepted : (parseOptions [.r 1, .p 7, .r 4]).isSome := by
    refine (options_iff [.r 1, .p 7, .r 4]).1.mpr ?_
    simp only [List.forall_mem_cons, Opt.Valid]
    exact ⟨⟨0, by decide⟩, by decide, ⟨2, by decide⟩, nofun⟩
  obtain ⟨g, run⟩ := Option.isSome_iff_exists.mp accepted
  obtain ⟨mask, payload, masked⟩ := (options_iff [.r 1, .p 7, .r 4]).2 g run
  have three : g.gIpMask = 3 := by rw [mask]; rfl
  rw [three] at masked
  exact ⟨g, run, three, by rw [payload]; rfl, masked⟩

end NetBlast.Pktgen
