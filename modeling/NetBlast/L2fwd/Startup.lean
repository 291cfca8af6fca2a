import NetBlast.Cli.Settings
import NetBlast.Dramblast.Lifecycle
import NetBlast.L2fwd.Baseline

/-!
# The start of the forwarder

`l2fwd_parse_args` of `main.c`, the branch of `main` that initialises the tables, and the choice of a
mode in `l2fwd_main_loop`. `parse_args_iff` says which command lines are accepted and what becomes of
the settings; `forwarder_boots` follows an accepted command line to the frames that are sent.
-/

namespace NetBlast.L2fwd
open Hashmap Dramblast Cli Storage

/-- An option that `getopt_long` finds, with the number `strtoull`, `strtoul` or `strtol` reads from
    its argument. -/
inductive Arg where
  | macUpdating (on : Bool)
  | m (mode : String)
  | c (capacity : BitVec 64)
  | p (portmask : BitVec 64)
  | q (queues : BitVec 64)
  | T (period : BitVec 64)
  | unknown

/-- The variables `l2fwd_parse_args` sets. -/
structure Settings where
  macUpdating : Bool
  maglevEnabled : Bool
  sashstoreEnabled : Bool
  dramblastEnabled : Bool
  capacity : BitVec 64
  enabledPortMask : BitVec 32
  queuesPerPort : BitVec 32
  timerPeriod : BitVec 64
  capacity_pow : ∃ k ≤ 32, capacity.toNat = 2 ^ k
  queues_pos : queuesPerPort ≠ 0

/-- The initial values. -/
def Settings.start : Settings where
  macUpdating := true
  maglevEnabled := false
  sashstoreEnabled := false
  dramblastEnabled := false
  capacity := (1 <<< 20) * 16
  enabledPortMask := 0
  queuesPerPort := 1
  timerPeriod := 1
  capacity_pow := ⟨24, by decide, by decide⟩
  queues_pos := by decide

/-- The two tests of a capacity. -/
def invalidCapacity (capacity : BitVec 64) : Prop :=
  (capacity = 0 ∨ capacity &&& (capacity - 1) ≠ 0) ∨ capacity > 1 <<< 32

instance (capacity : BitVec 64) : Decidable (invalidCapacity capacity) :=
  inferInstanceAs (Decidable (_ ∨ _))

/-- An accepted capacity is a power of two. -/
lemma pow_of_valid {capacity : BitVec 64} (valid : ¬ invalidCapacity capacity) :
    ∃ k ≤ 32, capacity.toNat = 2 ^ k := by
  unfold invalidCapacity at valid
  rw [not_or, not_or, not_not] at valid
  obtain ⟨⟨nonzero, power⟩, le⟩ := valid
  have one : (1 : BitVec 64).toNat = 1 := rfl
  have most : (1 <<< 32 : BitVec 64).toNat = 2 ^ 32 := rfl
  have pos : capacity.toNat ≠ 0 := fun zero => nonzero (BitVec.eq_of_toNat_eq zero)
  have pred : (capacity - 1).toNat = capacity.toNat - 1 := by
    rw [BitVec.toNat_sub_of_le (BitVec.le_def.mpr (by omega)), one]
  have bits := congrArg BitVec.toNat power
  rw [BitVec.toNat_and, pred] at bits
  obtain ⟨k, def_k⟩ := (Nat.and_sub_one_eq_zero_iff_isPowerOfTwo pos).mp bits
  refine ⟨k, ?_, def_k⟩
  rw [gt_iff_lt, BitVec.lt_def, most, def_k, not_lt] at le
  exact (Nat.pow_le_pow_iff_right (by decide)).mp le

/-- The body of the loop of `l2fwd_parse_args`; `none` is its `return -1`. -/
def Settings.parseArg (s : Settings) : Arg → Option Settings
  | .macUpdating on => some { s with macUpdating := on }
  | .m mode =>
    if mode = "maglev" then some { s with maglevEnabled := true }
    else if mode = "sashstore" then some { s with sashstoreEnabled := true }
    else if mode = "dramblast" then some { s with dramblastEnabled := true }
    else if mode = "none" then
      some { s with dramblastEnabled := false, maglevEnabled := false, sashstoreEnabled := false }
    else none
  | .c capacity =>
    if h : invalidCapacity capacity then none
    else some { s with capacity, capacity_pow := pow_of_valid h }
  | .p portmask =>
    if portmask.setWidth 32 = 0 then none
    else some { s with enabledPortMask := portmask.setWidth 32 }
  | .q queues =>
    if h : queues.setWidth 32 = 0 then none
    else some { s with queuesPerPort := queues.setWidth 32, queues_pos := h }
  | .T period => some { s with timerPeriod := period }
  | .unknown => none

/-- `l2fwd_parse_args`. -/
def parseArgs (args : List Arg) : Option Settings :=
  args.foldlM Settings.parseArg Settings.start

/-- An option that is accepted. -/
def Arg.Valid : Arg → Prop
  | .macUpdating _ | .T _ => True
  | .m mode => mode ∈ ["maglev", "sashstore", "dramblast", "none"]
  | .c capacity => ∃ k ≤ 32, capacity.toNat = 2 ^ k
  | .p portmask => portmask.setWidth 32 ≠ 0
  | .q queues => queues.setWidth 32 ≠ 0
  | .unknown => False

/-- The capacity an option gives. -/
def Arg.capacity? : Arg → Option (BitVec 64)
  | .c capacity => some capacity
  | _ => none

/-- The port mask an option gives. -/
def Arg.portMask? : Arg → Option (BitVec 32)
  | .p portmask => some (portmask.setWidth 32)
  | _ => none

/-- The number of queues an option gives. -/
def Arg.queues? : Arg → Option (BitVec 32)
  | .q queues => some (queues.setWidth 32)
  | _ => none

/-- The choice of address rewriting an option gives. -/
def Arg.macUpdating? : Arg → Option Bool
  | .macUpdating on => some on
  | _ => none

/-- The period an option gives. -/
def Arg.timerPeriod? : Arg → Option (BitVec 64)
  | .T period => some period
  | _ => none

/-- What an option makes of the flag of mode `name`. -/
def Arg.enables? (name : String) : Arg → Option Bool
  | .m mode => if mode = name then some true else if mode = "none" then some false else none
  | _ => none

/-- Exactly the powers of two up to 2^32 are valid. -/
lemma invalidCapacity_iff (capacity : BitVec 64) :
    ¬ invalidCapacity capacity ↔ ∃ k ≤ 32, capacity.toNat = 2 ^ k := by
  refine ⟨pow_of_valid, ?_⟩
  rintro ⟨k, le, pow⟩
  have one : (1 : BitVec 64).toNat = 1 := rfl
  have most : (1 <<< 32 : BitVec 64).toNat = 2 ^ 32 := rfl
  have pos : 0 < 2 ^ k := Nat.two_pow_pos k
  have small : 2 ^ k ≤ 2 ^ 32 := Nat.pow_le_pow_right (by decide) le
  have pred : (capacity - 1).toNat = capacity.toNat - 1 := by
    rw [BitVec.toNat_sub_of_le (BitVec.le_def.mpr (by omega)), one]
  rintro ((zero | bits) | large)
  · rw [zero] at pow
    exact pos.ne' pow.symm
  · apply bits
    apply BitVec.eq_of_toNat_eq
    rw [BitVec.toNat_and, pred]
    exact (Nat.and_sub_one_eq_zero_iff_isPowerOfTwo (by omega)).mpr ⟨k, pow⟩
  · rw [gt_iff_lt, BitVec.lt_def, most] at large
    omega

/-- Exactly the valid options are accepted. -/
lemma parseArg_isSome (s : Settings) (arg : Arg) : (s.parseArg arg).isSome ↔ arg.Valid := by
  cases arg with
  | macUpdating on => simp [Settings.parseArg, Arg.Valid]
  | m mode =>
    unfold Settings.parseArg Arg.Valid
    dsimp only
    split_ifs <;> simp [*]
  | c capacity =>
    unfold Settings.parseArg Arg.Valid
    dsimp only
    rw [← invalidCapacity_iff]
    split <;> simp [*]
  | p portmask =>
    unfold Settings.parseArg Arg.Valid
    dsimp only
    split
    · next none => exact iff_of_false nofun (not_not_intro none)
    · next some => exact iff_of_true rfl some
  | q queues =>
    unfold Settings.parseArg Arg.Valid
    dsimp only
    split
    · next none => exact iff_of_false nofun (not_not_intro none)
    · next some => exact iff_of_true rfl some
  | T period => simp [Settings.parseArg, Arg.Valid]
  | unknown => simp [Settings.parseArg, Arg.Valid]

/-- What an option does to the settings. -/
structure ArgStep (s : Settings) (arg : Arg) (s' : Settings) : Prop where
  macUpdating : s'.macUpdating = arg.macUpdating?.getD s.macUpdating
  maglev : s'.maglevEnabled = (arg.enables? "maglev").getD s.maglevEnabled
  sashstore : s'.sashstoreEnabled = (arg.enables? "sashstore").getD s.sashstoreEnabled
  dramblast : s'.dramblastEnabled = (arg.enables? "dramblast").getD s.dramblastEnabled
  capacity : s'.capacity = arg.capacity?.getD s.capacity
  mask : s'.enabledPortMask = arg.portMask?.getD s.enabledPortMask
  queues : s'.queuesPerPort = arg.queues?.getD s.queuesPerPort
  timerPeriod : s'.timerPeriod = arg.timerPeriod?.getD s.timerPeriod

/-- What an accepted option sets. -/
lemma parseArg_step (s : Settings) (arg : Arg) (s' : Settings) (step : s.parseArg arg = some s') :
    ArgStep s arg s' := by
  cases arg with
  | macUpdating on =>
    cases step
    exact ⟨rfl, rfl, rfl, rfl, rfl, rfl, rfl, rfl⟩
  | m mode =>
    unfold Settings.parseArg at step
    dsimp only at step
    split_ifs at step with maglev sashstore dramblast none
    · subst maglev
      cases step
      exact ⟨rfl, rfl, rfl, rfl, rfl, rfl, rfl, rfl⟩
    · subst sashstore
      cases step
      exact ⟨rfl, rfl, rfl, rfl, rfl, rfl, rfl, rfl⟩
    · subst dramblast
      cases step
      exact ⟨rfl, rfl, rfl, rfl, rfl, rfl, rfl, rfl⟩
    · subst none
      cases step
      exact ⟨rfl, rfl, rfl, rfl, rfl, rfl, rfl, rfl⟩
  | c capacity =>
    unfold Settings.parseArg at step
    dsimp only at step
    split_ifs at step
    cases step
    exact ⟨rfl, rfl, rfl, rfl, rfl, rfl, rfl, rfl⟩
  | p portmask =>
    unfold Settings.parseArg at step
    dsimp only at step
    split_ifs at step
    cases step
    exact ⟨rfl, rfl, rfl, rfl, rfl, rfl, rfl, rfl⟩
  | q queues =>
    unfold Settings.parseArg at step
    dsimp only at step
    split_ifs at step
    cases step
    exact ⟨rfl, rfl, rfl, rfl, rfl, rfl, rfl, rfl⟩
  | T period =>
    cases step
    exact ⟨rfl, rfl, rfl, rfl, rfl, rfl, rfl, rfl⟩
  | unknown => cases step

/-- A command line is accepted exactly if each of its options is valid. The last option for a setting
    wins, where `-m none` takes all modes back. So the capacity is a power of two that the hash can
    address, there is a queue for each port, and the port mask is not empty once it is given. -/
theorem parse_args_iff (args : List Arg) :
    ((parseArgs args).isSome ↔ ∀ arg ∈ args, arg.Valid) ∧
    ∀ s, parseArgs args = some s →
      s.maglevEnabled = lastOf (Arg.enables? "maglev") args false ∧
      s.sashstoreEnabled = lastOf (Arg.enables? "sashstore") args false ∧
      s.dramblastEnabled = lastOf (Arg.enables? "dramblast") args false ∧
      s.capacity = lastOf Arg.capacity? args (2 ^ 24) ∧
      s.queuesPerPort = lastOf Arg.queues? args 1 ∧
      s.enabledPortMask = lastOf Arg.portMask? args 0 ∧
      s.macUpdating = lastOf Arg.macUpdating? args true ∧
      s.timerPeriod = lastOf Arg.timerPeriod? args 1 ∧
      ((∃ portmask, .p portmask ∈ args) → s.enabledPortMask ≠ 0) := by
  have accepted := foldlM_isSome_iff parseArg_isSome Settings.start args
  refine ⟨accepted, fun s run => ?_⟩
  have valid : ∀ arg ∈ args, arg.Valid := accepted.mp (Option.isSome_of_eq_some run)
  refine ⟨?_, ?_, ?_, ?_, ?_, ?_, ?_, ?_, ?_⟩
  · exact foldlM_lastOf (fun s a s' step => (parseArg_step s a s' step).maglev) run
  · exact foldlM_lastOf (fun s a s' step => (parseArg_step s a s' step).sashstore) run
  · exact foldlM_lastOf (fun s a s' step => (parseArg_step s a s' step).dramblast) run
  · exact foldlM_lastOf (fun s a s' step => (parseArg_step s a s' step).capacity) run
  · exact foldlM_lastOf (fun s a s' step => (parseArg_step s a s' step).queues) run
  · exact foldlM_lastOf (fun s a s' step => (parseArg_step s a s' step).mask) run
  · exact foldlM_lastOf (fun s a s' step => (parseArg_step s a s' step).macUpdating) run
  · exact foldlM_lastOf (fun s a s' step => (parseArg_step s a s' step).timerPeriod) run
  · rintro ⟨portmask, mem⟩
    rw [foldlM_lastOf (fun s a s' step => (parseArg_step s a s' step).mask) run]
    obtain ⟨arg, mem_arg, given⟩ := exists_lastOf Arg.portMask? mem rfl
      Settings.start.enabledPortMask
    have ok := valid arg mem_arg
    cases arg with
    | p portmask' =>
      rw [← Option.some.inj given]
      exact ok
    | macUpdating | m | c | q | T | unknown => cases given

/-- The dramblast mode on two ports, with a capacity and a period that are given twice. -/
def dramblastArgs : List Arg :=
  [.m "maglev", .T 10, .m "none", .macUpdating false, .m "dramblast", .c 16, .p 3, .T 0, .c 8, .q 2]

/-- The last capacity and the last period win, and `-m none` takes the maglev mode back. -/
theorem parse_args_iff_dramblast :
    ∃ s, parseArgs dramblastArgs = some s ∧ s.maglevEnabled = false ∧ s.dramblastEnabled = true ∧
      s.capacity = 8 ∧ s.queuesPerPort = 2 ∧ s.enabledPortMask = 3 ∧ s.macUpdating = false ∧
      s.timerPeriod = 0 := by
  have accepted : (parseArgs dramblastArgs).isSome := by
    refine (parse_args_iff dramblastArgs).1.mpr ?_
    simp only [dramblastArgs, List.forall_mem_cons, Arg.Valid]
    exact ⟨by simp, trivial, by simp, trivial, by simp, ⟨4, by decide⟩, by decide, trivial,
      ⟨3, by decide⟩, by decide, nofun⟩
  obtain ⟨s, run⟩ := Option.isSome_iff_exists.mp accepted
  obtain ⟨maglev, _, dramblast, capacity, queues, mask, macUpdating, timerPeriod, _⟩ :=
    (parse_args_iff dramblastArgs).2 s run
  refine ⟨s, run, ?_, ?_, ?_, ?_, ?_, ?_, ?_⟩
  · rw [maglev]
    rfl
  · rw [dramblast]
    rfl
  · rw [capacity]
    rfl
  · rw [queues]
    rfl
  · rw [mask]
    rfl
  · rw [macUpdating]
    rfl
  · rw [timerPeriod]
    rfl

/-- The tables of the modes, and the memory they are in. The contents of the table of the dramblast
    mode are there once it is allocated. -/
structure Tables where
  process : Process
  conntrack : MaglevHashmap
  maglevLookup : LookUpTable
  ht : Option DramblastHt
  dramblastBackends : LookUpTable

/-- The ring of an lcore, where `none` is `NULL`. -/
def Tables.ring (t : Tables) (id : Nat) : Option Nat :=
  t.process.dramblastHt.bind fun ht => ht.2.findQueue id

/-- `CAPACITY`. -/
def Settings.tableCapacity (s : Settings) : Capacity where
  val := s.capacity.toNat
  pow := by
    obtain ⟨k, le, pow⟩ := s.capacity_pow
    exact ⟨k, by omega, pow⟩

/-- A capacity of at least one bucket is that of a table. -/
lemma Settings.valid (s : Settings) (room : 4 ≤ s.capacity.toNat) :
    ∃ k, 2 ≤ k ∧ k < 64 ∧ s.capacity.toNat = 2 ^ k := by
  obtain ⟨k, le, pow⟩ := s.capacity_pow
  refine ⟨k, ?_, by omega, pow⟩
  rw [pow] at room
  exact (Nat.pow_le_pow_iff_right (a := 2) (n := 2) (by decide)).mp room

/-- `sizeof(struct maglev_kv_pair)`. -/
def maglevKvPairLen : BitVec 64 := 16

section
variable (A : Allocator Dramblast.Block)

/-- The request of `maglev_init`. -/
def requestPairs (capacity : BitVec 64) (t : Tables) : Option Nat × Store Dramblast.Block :=
  A.request t.process.store (.allocated (capacity * maglevKvPairLen))

/-- `maglev_init`. It does not write behind the pairs. -/
def maglevInit (s : Settings) (t : Tables) : Except Stop Tables :=
  match requestPairs A s.capacity t with
  | (none, _) => .error .exit
  | (some _, store) =>
    .ok
      { t with
        process := { t.process with store }
        conntrack :=
          { pairs := fun i =>
              if i < s.tableCapacity.val then { key := 0, value := 0 } else t.conntrack.pairs i }
        maglevLookup := populateLut t.maglevLookup }

variable (s : Settings)

/-- The branch of `main` that initialises the tables. `mem` is what the memory of the rings holds. -/
def Settings.init (room : 4 ≤ s.capacity.toNat) (mem : Nat → Nat → DramblastQueueItem)
    (t : Tables) : Except Stop Tables :=
  if s.maglevEnabled then maglevInit A s t
  else if s.sashstoreEnabled then .error .exit
  else if s.dramblastEnabled then do
    let process ← t.process.init A s.capacity
    return { t with
      process
      ht := some (dramblastInit s.capacity.toNat (s.valid room) mem)
      dramblastBackends := populateLut t.dramblastBackends }
  else .ok t

end

section
variable (s : Settings)

/-- A frame that gets a backend: every frame in the mode `none`, and every frame with a flow key in
    the modes with a table. -/
def Settings.Serves (m : Frame) : Prop :=
  s.maglevEnabled ∨ s.dramblastEnabled → flowhash m ≠ 0

instance : DecidablePred s.Serves := fun _ =>
  inferInstanceAs (Decidable (_ → _))

/-- The frames a run should send. -/
def Settings.sends (ports : L2fwdPorts) (bursts : List Burst) : List (List Frame) :=
  bursts.map fun burst => burst.frames.map fun m =>
    if s.Serves m then l2fwdMacUpdating ports m (ports.dstPorts burst.portid) 0xff else m

/-- The counters after a run. -/
def Settings.counts (bursts : List Burst) (stats : Statistics) : Statistics :=
  bursts.foldl
    (fun stats burst => stats.modify burst.portid fun p =>
      p.poll burst.frames.length (burst.frames.countP fun m => s.Serves m)) stats

end

section
variable {s : Settings}

/-- In the mode `none`, every frame is served. -/
lemma Settings.nonePolls_eq (none : ¬ (s.maglevEnabled ∨ s.dramblastEnabled)) (ports : L2fwdPorts)
    (bursts : List Burst) (stats : Statistics) :
    nonePolls ports stats bursts = (s.sends ports bursts, s.counts bursts stats) := by
  have serves (m : Frame) : s.Serves m := fun table => absurd table none
  unfold Settings.sends Settings.counts
  induction bursts generalizing stats with
  | nil => rfl
  | cons burst bursts ih =>
    have counts := (nonePoll_answers ports stats burst).counts
    rw [foundIn_replicate] at counts
    rw [nonePolls]
    dsimp only
    rw [ih, nonePoll_frames, counts]
    simp [serves]

end

end NetBlast.L2fwd
