import NetBlast.L2fwd.Statistics

/-!
# The throughput samples

The loop of the main lcore in `main.c`, which prints a report whenever a refresh period has passed
and stops `TOTAL_SAMPLES` seconds after it began. A report writes the next element of `samples`. The
period is a product modulo `2 ^ 64` with the unchecked argument of `-T`: as long as it is not less
than a second, the reports stay within the array. `Spaced` is the invariant of the loop, `ticks` are
the clock readings that lead out of the array otherwise, and `samples_within_iff` draws the line.
-/

namespace NetBlast.L2fwd

/-- `TOTAL_SAMPLES`, the length of `samples`. -/
def totalSamples : Nat := 32

/-- `isspace`. -/
def isspace (c : Char) : Bool :=
  c == ' ' || '\t' ≤ c && c ≤ '\r'

/-- `strtol(nptr, NULL, 10)`: a number that does not fit a `long` is clamped. -/
def strtol (nptr : List Char) : Int :=
  let (neg, digits) :=
    match nptr.dropWhile isspace with
    | '-' :: digits => (true, digits)
    | '+' :: digits => (false, digits)
    | digits => (false, digits)
  let n : Int := (digits.takeWhile Char.isDigit).foldl (fun n c => 10 * n + (c.toNat - '0'.toNat)) 0
  max (-2 ^ 63) (min (2 ^ 63 - 1) (if neg then -n else n))

/-- `timer_period`, for the argument of `-T` in `l2fwd_parse_args` and the timer frequency. -/
def timerPeriod (optarg : List Char) (hz : BitVec 64) : BitVec 64 :=
  BitVec.ofInt 64 (strtol optarg) * hz

/-- What the main lcore finds in a round of its loop: the clock, and the counters of the lcores. -/
structure Reading where
  curTsc : BitVec 64
  portStatistics : Nat → Nat → L2fwdPortStatistics

/-- The variables of the loop of the main lcore, and what was printed. -/
structure TimerLoop where
  globals : Globals
  prevTsc : BitVec 64
  forceQuit : Bool
  reports : List Report

/-- `end_tsc`, of a loop that begins at `startTsc`. -/
def endTsc (hz startTsc : BitVec 64) : BitVec 64 :=
  startTsc + hz * BitVec.ofNat 64 totalSamples

section
variable (eal : Eal) (mask : BitVec 32) (timerPeriod hz : BitVec 64)

/-- The body of the loop. -/
def timerRound (endTsc : BitVec 64) (s : TimerLoop) (r : Reading) : TimerLoop :=
  let s := { s with globals := { s.globals with portStatistics := r.portStatistics } }
  let s :=
    if r.curTsc - s.prevTsc ≥ timerPeriod then
      let (report, globals) := printStats eal mask timerPeriod hz s.globals
      { s with globals, prevTsc := r.curTsc, reports := s.reports ++ [report] }
    else s
  if r.curTsc ≥ endTsc then { s with forceQuit := true } else s

/-- The loop of the main lcore, which begins at `startTsc`. -/
def timerLoop (startTsc : BitVec 64) (readings : List Reading) : TimerLoop :=
  readings.foldl
    (fun s r =>
      if s.forceQuit then s else timerRound eal mask timerPeriod hz (endTsc hz startTsc) s r)
    { globals := Globals.start, prevTsc := startTsc, forceQuit := false, reports := [] }

end

/-- Each write to `samples` is to one of its elements. -/
def WithinSamples (reports : List Report) : Prop :=
  ∀ report ∈ reports, ∀ sample ∈ report.sample, sample.index.toNat < totalSamples

/-- The clock never goes back. -/
def Nondecreasing (startTsc : BitVec 64) (readings : List Reading) : Prop :=
  (startTsc :: readings.map (·.curTsc)).Pairwise (· ≤ ·)

variable {eal : Eal} {mask : BitVec 32} {period hz : BitVec 64}

/-- As long as a place is free, a report with a sample takes the next one. -/
lemma printStats_grows (eal : Eal) (mask : BitVec 32) (hz : BitVec 64) (g : Globals)
    (free : period > 0 → g.sampleSize.toNat < totalSamples) :
    period > 0 ∧ (printStats eal mask period hz g).2.sampleSize.toNat = g.sampleSize.toNat + 1 ∨
      ¬ period > 0 ∧ (printStats eal mask period hz g).2.sampleSize.toNat = g.sampleSize.toNat := by
  change _ ∧ (if period > 0 then g.sampleSize + 1 else g.sampleSize).toNat = _ ∨
    _ ∧ (if period > 0 then g.sampleSize + 1 else g.sampleSize).toNat = _
  by_cases pos : period > 0
  · have lt := free pos
    rw [if_pos pos]
    unfold totalSamples at lt
    exact Or.inl ⟨pos, BitVec.toNat_add_of_lt (by change _ + 1 < _; omega)⟩
  · rw [if_neg pos]
    exact Or.inr ⟨pos, rfl⟩

/-- A sample is written where the samples end. -/
lemma printStats_index {g : Globals} {sample}
    (written : sample ∈ (printStats eal mask period hz g).1.sample) :
    period > 0 ∧ sample.index = g.sampleSize := by
  unfold printStats at written
  dsimp only at written
  split at written
  · next pos =>
    cases written
    exact ⟨pos, rfl⟩
  · cases written

/-- With a period every report writes a sample. -/
lemma printStats_sample (eal : Eal) (mask : BitVec 32) (hz : BitVec 64) (g : Globals)
    (pos : period > 0) :
    ∃ sample ∈ (printStats eal mask period hz g).1.sample, sample.index = g.sampleSize := by
  unfold printStats
  dsimp only
  rw [if_pos pos]
  exact ⟨_, rfl, rfl⟩

/-- A round in which a report is due. -/
lemma timerRound_due {endTsc s} {r : Reading} (due : r.curTsc - s.prevTsc ≥ period) :
    timerRound eal mask period hz endTsc s r =
      let printed := printStats eal mask period hz
        { s.globals with portStatistics := r.portStatistics }
      { globals := printed.2
        prevTsc := r.curTsc
        forceQuit := s.forceQuit || decide (r.curTsc ≥ endTsc)
        reports := s.reports ++ [printed.1] } := by
  unfold timerRound
  dsimp only
  rw [if_pos due]
  by_cases late : r.curTsc ≥ endTsc
  · rw [if_pos late, decide_eq_true late, Bool.or_true]
  · rw [if_neg late, decide_eq_false late, Bool.or_false]

/-- A round in which no report is due. -/
lemma timerRound_idle {endTsc s} {r : Reading} (idle : ¬ r.curTsc - s.prevTsc ≥ period) :
    timerRound eal mask period hz endTsc s r =
      { s with
        globals := { s.globals with portStatistics := r.portStatistics }
        forceQuit := s.forceQuit || decide (r.curTsc ≥ endTsc) } := by
  unfold timerRound
  dsimp only
  rw [if_neg idle]
  by_cases late : r.curTsc ≥ endTsc
  · rw [if_pos late, decide_eq_true late, Bool.or_true]
  · rw [if_neg late, decide_eq_false late, Bool.or_false]

/-- The period is such that only `totalSamples` of them fit into the time of the loop. -/
def Sparse (period hz : BitVec 64) : Prop :=
  period = 0 ∨ hz.toNat % 2 ^ 59 ≤ period.toNat ∨ 2 ^ 64 ≤ 33 * period.toNat

instance : Decidable (Sparse period hz) :=
  inferInstanceAs (Decidable (_ ∨ _))

/-- A period that is not sparse is positive, and the end is late enough for one more of them. -/
lemma dense_iff : ¬ Sparse period hz ↔
    period > 0 ∧ period.toNat < hz.toNat % 2 ^ 59 ∧ 33 * period.toNat < 2 ^ 64 := by
  unfold Sparse
  rw [not_or, not_or, not_le, not_le]
  exact and_congr_left' pos_iff_ne_zero.symm

/-- The invariant of the loop: the samples written so far are `period` apart, and the loop has not
    gone on after one that was written at the end. -/
structure Spaced (period hz startTsc : BitVec 64) (s : TimerLoop) : Prop where
  within : WithinSamples s.reports
  few : s.globals.sampleSize.toNat ≤ totalSamples
  apart : startTsc.toNat + s.globals.sampleSize.toNat * period.toNat ≤ s.prevTsc.toNat
  running : s.globals.sampleSize = 0 ∨ s.forceQuit ∨ s.prevTsc < endTsc hz startTsc

/-- The invariant holds before the first reading. -/
lemma Spaced.start (period hz startTsc : BitVec 64) :
    Spaced period hz startTsc
      { globals := Globals.start, prevTsc := startTsc, forceQuit := false, reports := [] } where
  within := nofun
  few := Nat.zero_le _
  apart := by simp [Globals.start]
  running := Or.inl rfl

/-- A due report comes a period after the last one. -/
lemma period_later {prevTsc curTsc : BitVec 64} (le : prevTsc ≤ curTsc)
    (due : curTsc - prevTsc ≥ period) : prevTsc.toNat + period.toNat ≤ curTsc.toNat := by
  rw [ge_iff_le, BitVec.le_def, BitVec.toNat_sub_of_le le] at due
  rw [BitVec.le_def] at le
  omega

/-- The time of the loop, which may wrap around. -/
lemma toNat_endTsc (hz startTsc : BitVec 64) :
    (endTsc hz startTsc).toNat = (startTsc.toNat + 32 * (hz.toNat % 2 ^ 59)) % 2 ^ 64 := by
  unfold endTsc
  rw [BitVec.toNat_add, BitVec.toNat_mul]
  change (startTsc.toNat + hz.toNat * 32 % 2 ^ 64) % 2 ^ 64 = _
  omega

/-- A sample that is due finds a free place. -/
lemma Spaced.free {startTsc s} {curTsc : BitVec 64} (sparse : Sparse period hz)
    (inv : Spaced period hz startTsc s) (on : s.forceQuit = false) (le : s.prevTsc ≤ curTsc)
    (due : curTsc - s.prevTsc ≥ period) (pos : period > 0) :
    s.globals.sampleSize.toNat < totalSamples := by
  by_contra full
  have few := inv.few
  have apart := inv.apart
  have all : s.globals.sampleSize.toNat = 32 := by
    unfold totalSamples at few full
    omega
  have before : s.prevTsc < endTsc hz startTsc := by
    rcases inv.running with zero | quit | before
    · rw [zero] at all
      cases all
    · rw [on] at quit
      cases quit
    · exact before
  rw [BitVec.lt_def, toNat_endTsc] at before
  have later := period_later le due
  rw [all] at apart
  rcases sparse with zero | long | late
  · rw [zero] at pos
    exact absurd pos (by decide)
  · -- 32 periods are at least the time of the loop, which does not wrap around then
    omega
  · omega

/-- One round keeps the invariant. -/
lemma Spaced.round {startTsc s} {r : Reading} (sparse : Sparse period hz)
    (inv : Spaced period hz startTsc s) (on : s.forceQuit = false) (le : s.prevTsc ≤ r.curTsc) :
    Spaced period hz startTsc (timerRound eal mask period hz (endTsc hz startTsc) s r) ∧
      (timerRound eal mask period hz (endTsc hz startTsc) s r).prevTsc ≤ r.curTsc := by
  by_cases due : r.curTsc - s.prevTsc ≥ period
  · rw [timerRound_due due]
    have apart := inv.apart
    have few := inv.few
    have later := period_later le due
    have free := inv.free sparse on le due
    have grown := printStats_grows eal mask hz { s.globals with portStatistics := r.portStatistics }
      free
    dsimp only at grown
    refine ⟨⟨?_, ?_, ?_, ?_⟩, BitVec.le_refl _⟩ <;> dsimp only
    · unfold WithinSamples
      rw [List.forall_mem_append, List.forall_mem_singleton]
      refine ⟨inv.within, fun sample written => ?_⟩
      obtain ⟨pos, index⟩ := printStats_index written
      rw [index]
      exact free pos
    · rcases grown with ⟨pos, size⟩ | ⟨-, size⟩
      · rw [size]
        exact free pos
      · rw [size]
        exact few
    · rcases grown with ⟨-, size⟩ | ⟨-, size⟩
      · rw [size, Nat.succ_mul]
        omega
      · rw [size]
        omega
    · by_cases late : r.curTsc ≥ endTsc hz startTsc
      · exact Or.inr (Or.inl (by rw [decide_eq_true late, Bool.or_true]))
      · exact Or.inr (Or.inr (BitVec.not_le.mp late))
  · rw [timerRound_idle due]
    refine ⟨⟨inv.within, inv.few, inv.apart, ?_⟩, le⟩
    rcases inv.running with zero | quit | before
    · exact Or.inl zero
    · exact Or.inr (Or.inl (by rw [quit]; rfl))
    · exact Or.inr (Or.inr before)

/-- Any number of rounds keeps the invariant. -/
lemma Spaced.run {startTsc s} {readings : List Reading} (sparse : Sparse period hz)
    (inv : Spaced period hz startTsc s)
    (mono : (readings.map (·.curTsc)).Pairwise (· ≤ ·))
    (le : ∀ r ∈ readings, s.prevTsc ≤ r.curTsc) :
    Spaced period hz startTsc (readings.foldl (fun s r =>
      if s.forceQuit then s else timerRound eal mask period hz (endTsc hz startTsc) s r) s) := by
  induction readings generalizing s with
  | nil => exact inv
  | cons r readings ih =>
    rw [List.map_cons, List.pairwise_cons, List.forall_mem_map] at mono
    rw [List.forall_mem_cons] at le
    rw [List.foldl_cons]
    cases on : s.forceQuit with
    | true => exact ih inv mono.2 le.2
    | false =>
      obtain ⟨inv', prev_le⟩ := inv.round sparse on le.1
      exact ih inv' mono.2 fun r' mem => BitVec.le_trans prev_le (mono.1 r' mem)

/-- Readings that are exactly one period apart. -/
def ticks (period : BitVec 64) (n : Nat) : List Reading :=
  (List.range n).map fun k =>
    { curTsc := BitVec.ofNat 64 ((k + 1) * period.toNat)
      portStatistics := Globals.start.portStatistics }

/-- At each tick so far, a sample was written, and the end is still ahead. -/
structure Ticked (period : BitVec 64) (n : Nat) (s : TimerLoop) : Prop where
  on : s.forceQuit = false
  prev : s.prevTsc = BitVec.ofNat 64 (n * period.toNat)
  size : s.globals.sampleSize = BitVec.ofNat 32 n

/-- A report is due at the next tick. -/
lemma Ticked.due {n s} (ticked : Ticked period n s) :
    BitVec.ofNat 64 ((n + 1) * period.toNat) - s.prevTsc ≥ period := by
  rw [ticked.prev, Nat.succ_mul, BitVec.ofNat_add, BitVec.add_comm, BitVec.add_sub_cancel,
    BitVec.ofNat_toNat, BitVec.setWidth_eq]
  exact BitVec.le_refl _

/-- One more tick is one more round. -/
lemma timerLoop_ticks (n : Nat) :
    timerLoop eal mask period hz 0 (ticks period (n + 1)) =
      if (timerLoop eal mask period hz 0 (ticks period n)).forceQuit then
        timerLoop eal mask period hz 0 (ticks period n)
      else
        timerRound eal mask period hz (endTsc hz 0)
          (timerLoop eal mask period hz 0 (ticks period n))
          { curTsc := BitVec.ofNat 64 ((n + 1) * period.toNat)
            portStatistics := Globals.start.portStatistics } := by
  unfold timerLoop ticks
  rw [List.range_succ, List.map_append, List.foldl_append]
  rfl

/-- As long as the loop goes on, the next tick prints a report. -/
lemma Ticked.next {n : Nat}
    (ticked : Ticked period n (timerLoop eal mask period hz 0 (ticks period n))) :
    let s := timerLoop eal mask period hz 0 (ticks period n)
    let curTsc := BitVec.ofNat 64 ((n + 1) * period.toNat)
    let printed := printStats eal mask period hz
      { s.globals with portStatistics := Globals.start.portStatistics }
    timerLoop eal mask period hz 0 (ticks period (n + 1)) =
      { globals := printed.2
        prevTsc := curTsc
        forceQuit := decide (curTsc ≥ endTsc hz 0)
        reports := s.reports ++ [printed.1] } := by
  rw [timerLoop_ticks, ticked.on, if_neg Bool.false_ne_true, timerRound_due ticked.due, ticked.on,
    Bool.false_or]

/-- A period that is not sparse comes round `totalSamples` times before the end. -/
lemma tick_lt_end (dense : ¬ Sparse period hz) {n : Nat} (le : n ≤ totalSamples) :
    BitVec.ofNat 64 (n * period.toNat) < endTsc hz 0 := by
  obtain ⟨-, short, early⟩ := dense_iff.mp dense
  have before : n * period.toNat ≤ 32 * period.toNat := Nat.mul_le_mul_right _ le
  rw [BitVec.lt_def, toNat_endTsc, BitVec.toNat_ofNat]
  change _ < (0 + _) % _
  omega

/-- The invariant holds for all ticks up to the last sample. -/
lemma Ticked.all (dense : ¬ Sparse period hz) {n : Nat} (le : n ≤ totalSamples) :
    Ticked period n (timerLoop eal mask period hz 0 (ticks period n)) := by
  induction n with
  | zero => exact ⟨rfl, by rw [Nat.zero_mul]; rfl, rfl⟩
  | succ n ih =>
    have ticked := ih (by omega)
    rw [ticked.next]
    refine ⟨decide_eq_false (BitVec.not_le.mpr (tick_lt_end dense le)), rfl, ?_⟩
    change (if period > 0 then _ + 1 else _) = _
    rw [if_pos (dense_iff.mp dense).1, ticked.size]
    exact (BitVec.ofNat_add n 1).symm

/-- The ticks never go back. -/
lemma ticks_nondecreasing (dense : ¬ Sparse period hz) :
    Nondecreasing 0 (ticks period (totalSamples + 1)) := by
  obtain ⟨-, -, early⟩ := dense_iff.mp dense
  unfold Nondecreasing ticks
  rw [List.map_map, List.pairwise_cons, List.pairwise_map]
  refine ⟨fun _ _ => BitVec.le_def.mpr (Nat.zero_le _), List.pairwise_lt_range.imp_of_mem ?_⟩
  intro i j _ mem lt
  have last : (j + 1) * period.toNat ≤ 33 * period.toNat :=
    Nat.mul_le_mul_right _ (List.mem_range.mp mem)
  have next : (i + 1) * period.toNat ≤ (j + 1) * period.toNat :=
    Nat.mul_le_mul_right _ (by omega)
  change BitVec.ofNat 64 _ ≤ BitVec.ofNat 64 _
  rw [BitVec.le_def, BitVec.toNat_ofNat, BitVec.toNat_ofNat, Nat.mod_eq_of_lt (by omega),
    Nat.mod_eq_of_lt (by omega)]
  exact next

/-- At the tick after that, a sample is written behind the end of the array. -/
lemma overrun (eal : Eal) (mask : BitVec 32) (dense : ¬ Sparse period hz) :
    ¬ WithinSamples
      (timerLoop eal mask period hz 0 (ticks period (totalSamples + 1))).reports := by
  have ticked : Ticked period totalSamples (timerLoop eal mask period hz 0 _) :=
    .all dense le_rfl
  intro within
  rw [ticked.next] at within
  obtain ⟨sample, written, index⟩ := printStats_sample eal mask hz _ (dense_iff.mp dense).1
  have lt := within _ List.mem_concat_self sample written
  rw [index, ticked.size] at lt
  exact absurd lt (by decide)

/-- The samples stay within the array exactly if the period, as it is computed, is zero or so long
    that `totalSamples` of them reach the end of the loop or the end of the clock. -/
theorem samples_within_iff (optarg : List Char) (hz : BitVec 64) (eal : Eal) (mask : BitVec 32) :
    (∀ startTsc readings, Nondecreasing startTsc readings →
        WithinSamples (timerLoop eal mask (timerPeriod optarg hz) hz startTsc readings).reports) ↔
      Sparse (timerPeriod optarg hz) hz := by
  constructor
  · intro within
    by_contra dense
    exact overrun eal mask dense (within _ _ (ticks_nondecreasing dense))
  · intro sparse startTsc readings mono
    unfold Nondecreasing at mono
    rw [List.pairwise_cons, List.forall_mem_map] at mono
    exact ((Spaced.start _ _ startTsc).run sparse mono.2 mono.1).within

/-- A refresh period of 9223372037 seconds at 2 GHz is one of 0.145 seconds, and the main lcore
    writes `samples[32]`. -/
theorem samples_overrun :
    Nondecreasing 0 (ticks 290448384 33) ∧
      ¬ WithinSamples (timerLoop twoCores 1 (timerPeriod "9223372037".toList 2000000000) 2000000000 0
        (ticks 290448384 33)).reports := by
  have wrapped : timerPeriod "9223372037".toList 2000000000 = 290448384 := by decide
  have dense : ¬ Sparse 290448384 2000000000 := by decide
  rw [wrapped]
  exact ⟨ticks_nondecreasing dense, overrun twoCores 1 dense⟩

end NetBlast.L2fwd
