import NetBlast.Packettool
import NetBlast.Dramblast.Table
import NetBlast.Hashmap.Maglev

/-!
# The forwarding loop

What `l2fwd_main_loop` of `main.c` does with one received burst, in the maglev mode and in the
dramblast mode, and `maglev_process_frame` of `maglev.c`. The arrays of the loop outlive a burst:
`macAddrs` still holds the answers for earlier bursts beyond those it was given for the current one.
-/

namespace NetBlast.L2fwd
open Hashmap Dramblast

/-- `MAX_PKT_BURST`. -/
def maxPktBurst : Nat := 64

/-- The counters of `struct l2fwd_port_statistics` that the loop counts frames with. -/
structure PortStatistics where
  rxCnt : BitVec 64
  rx : BitVec 64
  fwded : BitVec 64
  unmapped : BitVec 64
deriving DecidableEq

/-- `port_statistics` of one lcore, by port. -/
abbrev Statistics := Nat → PortStatistics

/-- Update the counters of one port. -/
def Statistics.modify (stats : Statistics) (portid : Nat) (f : PortStatistics → PortStatistics) :
    Statistics :=
  Function.update stats portid (f (stats portid))

/-- `l2fwd_dst_ports` and `l2fwd_ports_eth_addr`. -/
structure L2fwdPorts where
  dstPorts : Nat → Nat
  portsEthAddr : Nat → Fin 6 → Byte

/-- What `rte_eth_rx_burst` returned for one queue of a port. -/
structure Burst where
  portid : Nat
  frames : List Frame
  short : frames.length ≤ maxPktBurst

/-- Store of a `uint64_t`, in the byte order of the target. -/
def storeU64 (f : Frame) (off : Nat) (x : BitVec 64) : Frame := fun i =>
  if off ≤ i ∧ i < off + 8 then x.extractLsb' (8 * (i - off)) 8 else f i

/-- `rte_ether_addr_copy`. -/
def etherAddrCopy (addr : Fin 6 → Byte) (f : Frame) (off : Nat) : Frame := fun i =>
  if h : off ≤ i ∧ i < off + 6 then addr ⟨i - off, by omega⟩ else f i

/-- `l2fwd_mac_updating`. The first store is eight octets wide and reaches into the source
    address. -/
def l2fwdMacUpdating (ports : L2fwdPorts) (m : Frame) (destPortid : Nat) (mac : BitVec 64) : Frame :=
  let m := storeU64 m 0 mac
  etherAddrCopy (ports.portsEthAddr destPortid) m 6

section
variable (crc : BitVec 64 → BitVec 64) (cap : Capacity) (lookup : LookUpTable)

/-- `maglev_process_frame`. -/
def maglevProcessFrame (conntrack : MaglevHashmap) (frame : Frame) : BitVec 64 × MaglevHashmap :=
  let hash := flowhash frame
  if hash > 0 then
    match maglevHashmapGet crc cap conntrack hash with
    | none =>
      let backend := lookup.backend hash
      let (r, conntrack) := maglevHashmapInsert crc cap conntrack hash backend
      if r < 0 then (0, conntrack) else (backend, conntrack)
    | some slot => ((conntrack.pairs slot).value, conntrack)
  else (0, conntrack)

end

section
variable (ports : L2fwdPorts)

/-- The counters of a poll that all modes share. -/
def countRx (stats : Statistics) (burst : Burst) : Statistics :=
  let stats := stats.modify burst.portid fun s => { s with rxCnt := s.rxCnt + 1 }
  if burst.frames.length > 0 then
    stats.modify burst.portid fun s => { s with rx := s.rx + BitVec.ofNat 64 burst.frames.length }
  else stats

/-- The memory of the maglev mode. -/
structure MaglevLcore where
  conntrack : MaglevHashmap
  stats : Statistics

/-- One round of the maglev loop over a burst. `out` are the frames handled so far. -/
def maglevFrame (crc : BitVec 64 → BitVec 64) (cap : Capacity) (lookup : LookUpTable) (portid : Nat)
    (s : List Frame × MaglevLcore) (m : Frame) : List Frame × MaglevLcore :=
  let (out, lcore) := s
  let (mac, conntrack) := maglevProcessFrame crc cap lookup lcore.conntrack m
  if mac = 0 then
    (out ++ [m],
      { conntrack
        stats := lcore.stats.modify portid fun s => { s with unmapped := s.unmapped + 1 } })
  else
    (out ++ [l2fwdMacUpdating ports m (ports.dstPorts portid) mac],
      { conntrack
        stats := lcore.stats.modify portid fun s => { s with fwded := s.fwded + 1 } })

/-- A poll in the maglev mode: the frames that are sent, and the memory afterwards. -/
def maglevPoll (crc : BitVec 64 → BitVec 64) (cap : Capacity) (lookup : LookUpTable)
    (lcore : MaglevLcore) (burst : Burst) : List Frame × MaglevLcore :=
  burst.frames.foldl (maglevFrame ports crc cap lookup burst.portid)
    ([], { lcore with stats := countRx lcore.stats burst })

/-- The polls of a run in the maglev mode. -/
def maglevPolls (crc : BitVec 64 → BitVec 64) (cap : Capacity) (lookup : LookUpTable) :
    MaglevLcore → List Burst → List (List Frame) × MaglevLcore
  | lcore, [] => ([], lcore)
  | lcore, burst :: bursts =>
    let (out, lcore) := maglevPoll ports crc cap lookup lcore burst
    let (outs, lcore) := maglevPolls crc cap lookup lcore bursts
    (out :: outs, lcore)

/-- The memory of the dramblast mode. -/
structure DramblastLcore where
  ht : DramblastHt
  macAddrs : Nat → BitVec 64
  stats : Statistics

/-- One round of the loop that fills `frames` and `args`; `fn` is their length. A frame is given
    with its place in the burst, and `frames` holds places. -/
def collectFrame (s : List Nat × List DramblastArg) (m : Frame × Nat) :
    List Nat × List DramblastArg :=
  let (frames, args) := s
  let hash := flowhash m.1
  if hash > 0 then (frames ++ [m.2], args ++ [{ k := hash, id := BitVec.ofNat 32 args.length }])
  else (frames, args)

/-- One round of the loop that rewrites the frames with a backend: `place` is `frames[j]`. -/
def rewriteFrame (portid : Nat) (macAddrs : Nat → BitVec 64) (s : List Frame × Nat)
    (place : Nat × Nat) : List Frame × Nat :=
  let (burst, found) := s
  let mac := macAddrs place.2
  if mac > 0 then
    (burst.modify place.1 fun m => l2fwdMacUpdating ports m (ports.dstPorts portid) mac, found + 1)
  else (burst, found)

/-- The call of `dramblast_process_frames`, which an empty batch skips. -/
def answerBatch (crc : BitVec 64 → BitVec 64) (id : Nat) (backends : LookUpTable)
    (lcore : DramblastLcore) (args : List DramblastArg) : Option FramesState :=
  if args.length > 0 then dramblastProcessFrames crc id backends lcore.ht args lcore.macAddrs
  else some { ht := lcore.ht, ret := lcore.macAddrs }

/-- A poll in the dramblast mode; `none` is the `exit(-1)` of `dramblast_process_frames`. -/
def dramblastPoll (crc : BitVec 64 → BitVec 64) (id : Nat) (backends : LookUpTable)
    (lcore : DramblastLcore) (burst : Burst) : Option (List Frame × DramblastLcore) := do
  let stats := countRx lcore.stats burst
  if burst.frames.length > 0 then
    let (frames, args) := burst.frames.zipIdx.foldl collectFrame ([], [])
    let st ← answerBatch crc id backends lcore args
    let (out, found) := frames.zipIdx.foldl (rewriteFrame ports burst.portid st.ret) (burst.frames, 0)
    let stats := stats.modify burst.portid fun s =>
      { s with
        fwded := s.fwded + BitVec.ofNat 64 found
        unmapped := s.unmapped + BitVec.ofNat 64 (burst.frames.length - found) }
    some (out, { ht := st.ht, macAddrs := st.ret, stats })
  else some ([], { lcore with stats })

/-- The polls of a run in the dramblast mode. -/
def dramblastPolls (crc : BitVec 64 → BitVec 64) (id : Nat) (backends : LookUpTable) :
    DramblastLcore → List Burst → Option (List (List Frame) × DramblastLcore)
  | lcore, [] => some ([], lcore)
  | lcore, burst :: bursts => do
    let (out, lcore) ← dramblastPoll ports crc id backends lcore burst
    let (outs, lcore) ← dramblastPolls crc id backends lcore bursts
    some (out :: outs, lcore)

end

end NetBlast.L2fwd
