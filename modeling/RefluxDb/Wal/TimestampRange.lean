import RefluxDb.Library.Fallible
import RefluxDb.Wal.SnapshotTracker
import RefluxDb.Wal.WalBuffer

/-! Timestamps at the ends of the 64-bit range, from the line of a write to the marker of a
snapshot.

All arithmetic on times is checked here: a result that does not fit is a panic, with the text of
the `expect` where the source has one. Numbers of files and snapshots do not wrap. Sizes are
computed as a release build does it, modulo `2 ^ 64`. Every 64-bit nanosecond is accepted, and the
one sum that can leave the range is that of `snapshot_all`, which goes a whole gen1 duration past
the latest chunk. -/

namespace RefluxDb.Wal

open List RefluxDb.Library Fallible

inductive Precision where
  | auto
  | second
  | millisecond
  | microsecond
  | nanosecond
deriving DecidableEq

inductive TimestampError where
  | outOfRange (timestamp : Int) (precision : Precision)
deriving DecidableEq

abbrev Timed := Fallible TimestampError

/-- A result that must fit. -/
def checked (message : String) (time : Int) : Timed Int :=
  if IsI64 time then pure time else throw (.panic message)

namespace Precision

def multiplier : Precision → Timed Int
  | auto => throw (.panic "no single multiplier for auto; must infer first.")
  | second => pure 1000000000
  | millisecond => pure 1000000
  | microsecond => pure 1000
  | nanosecond => pure 1

/-- The absolute value wraps at the least number. -/
def guessPrecision (timestamp : Int) : Precision :=
  let val := (if timestamp = i64Min then i64Min else |timestamp|).tdiv 1000000000
  if val < 5 then second
  else if val < 5000 then millisecond
  else if val < 5000000 then microsecond
  else nanosecond

def inferPrecision (precision : Precision) (timestamp : Int) : Precision :=
  if precision = auto then guessPrecision timestamp else precision

def truncateToPrecision (nanos : Int) : Precision → Timed Int
  | auto => pure nanos
  | precision => do
      let multiplier ← precision.multiplier
      checked "attempt to multiply with overflow" (nanos.tdiv multiplier * multiplier)

def toNanos (precision : Precision) (timestamp : Option Int) (defaultTimestamp : Int) :
    Timed Int :=
  match timestamp with
  | some ts => do
      let multiplier ← (precision.inferPrecision ts).multiplier
      Fallible.okOr (.outOfRange ts precision)
        (if IsI64 (ts * multiplier) then some (ts * multiplier) else none)
  | none => precision.truncateToPrecision defaultTimestamp

end Precision

/-- The time of a line, as it is given, and the time of its ingest. -/
structure Point where
  precision : Precision
  timestamp : Option Int
  ingestTime : Int
  timestamp_mem : ∀ ts ∈ timestamp, IsI64 ts
  ingestTime_mem : 0 ≤ ingestTime ∧ ingestTime ≤ i64Max

def Point.toNanos (point : Point) : Timed Int :=
  point.precision.toNanos point.timestamp point.ingestTime

structure SnapshotConfig where
  snapshotSize : Nat
  gen1Duration : Gen1Duration
  asNanos_le : gen1Duration.asNanos ≤ i64Max

/-- A reading of the clock, which is not at the end of the range. -/
structure ClockTime where
  nanos : Int
  nanos_mem : i64Min ≤ nanos ∧ nanos < i64Max

namespace SnapshotTracker

variable (tracker : SnapshotTracker)

/-- The chunk of a line's row. -/
def checkedChunkTime (time : Int) : Timed Int :=
  checked "attempt to subtract with overflow" (time - time.tmod tracker.gen1Duration.asNanos)

def addNextPeriod (minTime maxTime : Int) : Timed SnapshotTracker :=
  Fallible.expect "assertion failed: last_period.wal_file_number < wal_period.wal_file_number"
    (tracker.addWalPeriod
      { walFileNumber := tracker.lastWalSequenceNumber + 1, minTime := minTime,
        maxTime := maxTime })

/-- A WAL file of the points that are accepted. -/
def addPoints (points : List Point) : Timed SnapshotTracker := do
  let times := points.filterMap fun point => point.toNanos.toOption
  let _ ← times.mapM tracker.checkedChunkTime
  tracker.addNextPeriod (times.foldl min i64Max) (times.foldl max i64Min)

def addNoop (now : ClockTime) : Timed SnapshotTracker := do
  let maxTime ← checked "attempt to add with overflow" (now.nanos + 1)
  tracker.addNextPeriod now.nanos maxTime

def checkedInOrderMarker (maxTime : Int) : Timed Int :=
  checked "timestamp wraparound" (maxTime - maxTime.tmod tracker.gen1Duration.asNanos)

def checkedSnapshotInOrderWalPeriods : Timed (Option (SnapshotDetails × SnapshotTracker)) :=
  match tracker.walPeriods.getLast? with
  | none => pure none
  | some last => do
      let _ ← tracker.checkedInOrderMarker last.maxTime
      pure tracker.snapshotInOrderWalPeriods

def checkedSnapshotAll : Timed (Option (SnapshotDetails × SnapshotTracker)) :=
  match (tracker.walPeriods.map (·.maxTime)).max? with
  | none => pure none
  | some maxTime => do
      let start ← tracker.checkedInOrderMarker maxTime
      let _ ← checked "timestamp wraparound" (start + tracker.gen1Duration.asNanos)
      pure tracker.snapshotAll

/-- `shouldRunSnapshot` with the threshold as the 64-bit number it is. -/
def tries (forceSnapshot : Bool) : Bool :=
  tracker.reaches (tracker.numberOfPeriodsToSnapshotAfter % 2 ^ 64) forceSnapshot

/-- Whether a snapshot that is tried is one of everything. -/
def takesAll (forceSnapshot : Bool) : Bool :=
  forceSnapshot || decide (3 * tracker.snapshotSize % 2 ^ 64 ≤ tracker.walPeriods.length)

def checkedSnapshot (forceSnapshot : Bool) : Timed (Option (SnapshotDetails × SnapshotTracker)) :=
  if !tracker.tries forceSnapshot then pure none
  else if tracker.takesAll forceSnapshot then tracker.checkedSnapshotAll
  else tracker.checkedSnapshotInOrderWalPeriods

end SnapshotTracker

/-- What the WAL does with points: files of them, files of a no-op, and snapshots. -/
inductive TimedAction where
  | addPoints (points : List Point)
  | addNoop (now : ClockTime)
  | snapshot (forceSnapshot : Bool)

def timedStep (tracker : SnapshotTracker) : TimedAction → Timed SnapshotTracker
  | .addPoints points => tracker.addPoints points
  | .addNoop now => tracker.addNoop now
  | .snapshot forceSnapshot => do
      let issued ← tracker.checkedSnapshot forceSnapshot
      pure ((issued.map Prod.snd).getD tracker)

/-- The tracker over runs that have not panicked. -/
def timedMachine (config : SnapshotConfig) : Machine SnapshotTracker TimedAction where
  initial tracker := ∃ last, tracker = .new config.snapshotSize config.gen1Duration last
  step tracker action := (timedStep tracker action).toOption

/-- A snapshot of everything is taken only while no WAL period reaches into the last gen1 chunk of
the 64-bit range. -/
def BeforeLastChunk (tracker : SnapshotTracker) : TimedAction → Prop
  | .snapshot forceSnapshot =>
    tracker.tries forceSnapshot = true → tracker.takesAll forceSnapshot = true →
      ∀ period ∈ tracker.walPeriods,
        period.maxTime < truncateTo tracker.gen1Duration.asNanos i64Max
  | _ => True

section Accepted

variable {message : String} {time : Int}

theorem checked_eq_ok {result : Int} :
    checked message time = .ok result ↔ IsI64 time ∧ time = result := by
  unfold checked
  split <;> simp_all

theorem checked_of_isI64 (h : IsI64 time) :
    checked message time = .ok time := checked_eq_ok.mpr ⟨h, rfl⟩

theorem Point.toNanos_isI64 {point : Point} (h : point.toNanos = .ok time) :
    IsI64 time := by
  have hingest : IsI64 point.ingestTime := by
    obtain ⟨hnonneg, hle⟩ := point.ingestTime_mem
    exact ⟨by unfold i64Min; omega, hle⟩
  unfold Point.toNanos Precision.toNanos at h
  split at h
  · simp only [bind_eq_ok, okOr_eq_ok] at h
    obtain ⟨multiplier, _, hfits⟩ := h
    split at hfits
    · rename_i hmem
      exact Option.some.inj hfits ▸ hmem
    · cases hfits
  · unfold Precision.truncateToPrecision at h
    split at h
    · exact pure_eq_ok.mp h ▸ hingest
    · simp only [bind_eq_ok, checked_eq_ok] at h
      obtain ⟨_, _, hmem, rfl⟩ := h
      exact hmem

def nanosecondPoint (time : Int) (h : IsI64 time) : Point where
  precision := .nanosecond
  timestamp := some time
  ingestTime := 0
  timestamp_mem := by
    refine forall_eq_some ?_
    exact h
  ingestTime_mem := ⟨le_rfl, by decide⟩

theorem toNanos_nanosecondPoint (h : IsI64 time) :
    (nanosecondPoint time h).toNanos = .ok time := by
  simp [Point.toNanos, nanosecondPoint, Precision.toNanos, Precision.inferPrecision,
    Precision.multiplier, h]

end Accepted

section Runs

variable {config : SnapshotConfig} {tracker next : SnapshotTracker} {action : TimedAction}

/-- The periods have 64-bit times and lower file numbers than the next one. -/
structure InRange (config : SnapshotConfig) (tracker : SnapshotTracker) : Prop where
  gen1Duration : tracker.gen1Duration = config.gen1Duration
  times : ∀ period ∈ tracker.walPeriods, IsI64 period.maxTime
  numbers : ∀ period ∈ tracker.walPeriods, period.walFileNumber ≤ tracker.lastWalSequenceNumber

variable {times : List Int}

theorem foldl_max_isI64 {start : Int} (hstart : IsI64 start)
    (htimes : ∀ time ∈ times, IsI64 time) : IsI64 (times.foldl max start) := by
  induction times generalizing start with
  | nil => exact hstart
  | cons time rest ih =>
    rw [forall_mem_cons] at htimes
    apply ih _ htimes.2
    obtain ⟨⟨hlo, hhi⟩, ⟨hlo', hhi'⟩⟩ := And.intro hstart htimes.1
    exact ⟨hlo.trans (le_max_left _ _), max_le hhi hhi'⟩

theorem isI64_chunkTime (duration : Gen1Duration) {time : Int} (h : IsI64 time) :
    IsI64 (time - time.tmod duration.asNanos) := by
  have hbetween := truncateTo_between duration.asNanos_pos time
  unfold truncateTo at hbetween
  unfold IsI64 i64Min i64Max at *
  omega

theorem mapM_checkedChunkTime (tracker : SnapshotTracker)
    (htimes : ∀ time ∈ times, IsI64 time) :
    ∃ chunks, times.mapM tracker.checkedChunkTime = .ok chunks := by
  induction times with
  | nil => exact ⟨[], rfl⟩
  | cons time rest ih =>
    rw [forall_mem_cons] at htimes
    obtain ⟨chunks, hrest⟩ := ih htimes.2
    have htime : tracker.checkedChunkTime time = .ok _ :=
      checked_of_isI64 (isI64_chunkTime tracker.gen1Duration htimes.1)
    refine ⟨(time - time.tmod tracker.gen1Duration.asNanos) :: chunks, ?_⟩
    simp only [mapM_cons, bind_eq_ok, pure_eq_ok]
    exact ⟨_, htime, _, hrest, rfl⟩

namespace InRange

theorem addNextPeriod (h : InRange config tracker) (minTime : Int) {maxTime : Int}
    (hmax : IsI64 maxTime) :
    ∃ added, tracker.addNextPeriod minTime maxTime = .ok added ∧ InRange config added := by
  let period : WalPeriod :=
    { walFileNumber := tracker.lastWalSequenceNumber + 1, minTime := minTime, maxTime := maxTime }
  let added : SnapshotTracker := { tracker with
    lastWalSequenceNumber := period.walFileNumber
    walPeriods := tracker.walPeriods ++ [period] }
  have hlast : tracker.walPeriods.getLast?.all
      (·.walFileNumber < tracker.lastWalSequenceNumber + 1) = true := by
    rw [Option.all_eq_true]
    intro last hlast
    exact decide_eq_true (Nat.lt_succ_of_le (h.numbers last (mem_of_getLast? hlast)))
  have hadded : tracker.addWalPeriod period = some added := if_pos hlast
  refine ⟨added, expect_eq_ok.mpr hadded, h.gen1Duration, ?_, ?_⟩
  · refine forall_mem_concat.mpr ⟨h.times, ?_⟩
    exact hmax
  · intro other hother
    rcases mem_concat.mp hother with hold | hnew
    · exact (h.numbers other hold).trans (Nat.le_succ _)
    · rw [hnew]

theorem addPoints (h : InRange config tracker) (points : List Point) :
    ∃ added, tracker.addPoints points = .ok added ∧ InRange config added := by
  let times := points.filterMap fun point => point.toNanos.toOption
  have htimes : ∀ time ∈ times, IsI64 time := by
    intro time htime
    obtain ⟨point, _, hnanos⟩ := mem_filterMap.mp htime
    exact Point.toNanos_isI64 (toOption_eq_some.mp hnanos)
  have hmax : IsI64 (times.foldl max i64Min) := foldl_max_isI64 (by decide) htimes
  obtain ⟨added, hadded, hrange⟩ := h.addNextPeriod (times.foldl min i64Max) hmax
  obtain ⟨chunks, hchunks⟩ := mapM_checkedChunkTime tracker htimes
  refine ⟨added, ?_, hrange⟩
  simp only [SnapshotTracker.addPoints, bind_eq_ok]
  exact ⟨chunks, hchunks, hadded⟩

theorem addNoop (h : InRange config tracker) (now : ClockTime) :
    ∃ added, tracker.addNoop now = .ok added ∧ InRange config added := by
  have hnext : IsI64 (now.nanos + 1) := by
    obtain ⟨hlo, hhi⟩ := now.nanos_mem
    exact ⟨by omega, by omega⟩
  obtain ⟨added, hadded, hrange⟩ := h.addNextPeriod now.nanos hnext
  refine ⟨added, ?_, hrange⟩
  simp only [SnapshotTracker.addNoop, bind_eq_ok]
  exact ⟨_, checked_of_isI64 hnext, hadded⟩

variable {issued : SnapshotDetails × SnapshotTracker}

theorem snapshotAll (h : InRange config tracker)
    (hall : tracker.snapshotAll = some issued) : InRange config issued.2 := by
  simp only [SnapshotTracker.snapshotAll, Option.bind_eq_bind, Option.pure_def,
    Option.bind_eq_some_iff, Option.some.injEq] at hall
  obtain ⟨_, _, _, _, _, _, rfl⟩ := hall
  exact ⟨h.gen1Duration, by simp, by simp⟩

theorem snapshotInOrderWalPeriods (h : InRange config tracker)
    (hinOrder : tracker.snapshotInOrderWalPeriods = some issued) : InRange config issued.2 := by
  simp only [SnapshotTracker.snapshotInOrderWalPeriods, Option.bind_eq_bind, Option.pure_def,
    Option.bind_eq_some_iff, Option.some.injEq] at hinOrder
  obtain ⟨_, _, _, _, _, _, rfl⟩ := hinOrder
  refine ⟨h.gen1Duration, ?_, ?_⟩
  · exact fun period hperiod => h.times period (mem_filter.mp hperiod).1
  · exact fun period hperiod => h.numbers period (mem_filter.mp hperiod).1

/-- The tracker after a snapshot, whether one is issued or not. -/
theorem checkedSnapshot (h : InRange config tracker) {forceSnapshot : Bool}
    {issued : Option (SnapshotDetails × SnapshotTracker)}
    (hsnapshot : tracker.checkedSnapshot forceSnapshot = .ok issued) :
    InRange config ((issued.map Prod.snd).getD tracker) := by
  cases issued with
  | none => exact h
  | some issued =>
    unfold SnapshotTracker.checkedSnapshot at hsnapshot
    split at hsnapshot
    · exact nomatch hsnapshot
    · split at hsnapshot
      · unfold SnapshotTracker.checkedSnapshotAll at hsnapshot
        split at hsnapshot
        · exact nomatch hsnapshot
        · simp only [bind_eq_ok, pure_eq_ok] at hsnapshot
          obtain ⟨_, _, _, _, hall⟩ := hsnapshot
          exact h.snapshotAll hall
      · unfold SnapshotTracker.checkedSnapshotInOrderWalPeriods at hsnapshot
        split at hsnapshot
        · exact nomatch hsnapshot
        · simp only [bind_eq_ok, pure_eq_ok] at hsnapshot
          obtain ⟨_, _, hinOrder⟩ := hsnapshot
          exact h.snapshotInOrderWalPeriods hinOrder

theorem step (h : InRange config tracker)
    (hstep : (timedMachine config).step tracker action = some next) : InRange config next := by
  have hstep : timedStep tracker action = .ok next := toOption_eq_some.mp hstep
  cases action with
  | addPoints points =>
    obtain ⟨added, hadded, hrange⟩ := h.addPoints points
    exact Except.ok.inj (hadded.symm.trans hstep) ▸ hrange
  | addNoop now =>
    obtain ⟨added, hadded, hrange⟩ := h.addNoop now
    exact Except.ok.inj (hadded.symm.trans hstep) ▸ hrange
  | snapshot forceSnapshot =>
    simp only [timedStep, bind_eq_ok, pure_eq_ok] at hstep
    obtain ⟨issued, hissued, rfl⟩ := hstep
    exact h.checkedSnapshot hissued

theorem of_reachable (hreachable : (timedMachine config).Reachable Machine.Unrestricted tracker) :
    InRange config tracker := by
  induction hreachable with
  | initial hinitial =>
    obtain ⟨last, rfl⟩ := hinitial
    exact ⟨rfl, by simp [SnapshotTracker.new], by simp [SnapshotTracker.new]⟩
  | step _ _ hstep ih => exact ih.step hstep

/-- The last period's marker always fits. -/
theorem checkedSnapshotInOrderWalPeriods_isOk (h : InRange config tracker) :
    ∃ issued, tracker.checkedSnapshotInOrderWalPeriods = .ok issued := by
  unfold SnapshotTracker.checkedSnapshotInOrderWalPeriods
  split
  · exact ⟨none, rfl⟩
  · rename_i last hlast
    have hmarker : tracker.checkedInOrderMarker last.maxTime = .ok _ :=
      checked_of_isI64 (isI64_chunkTime _ (h.times last (mem_of_getLast? hlast)))
    refine ⟨tracker.snapshotInOrderWalPeriods, ?_⟩
    rw [hmarker]
    rfl

/-- The marker of everything fits just when no period reaches into the last chunk. -/
theorem checkedSnapshotAll_isOk_iff (h : InRange config tracker) :
    (∃ issued, tracker.checkedSnapshotAll = .ok issued) ↔ ∀ period ∈ tracker.walPeriods,
      period.maxTime < truncateTo tracker.gen1Duration.asNanos i64Max := by
  have hwidth := tracker.gen1Duration.asNanos_pos
  have htop : tracker.gen1Duration.asNanos ≤ i64Max := h.gen1Duration ▸ config.asNanos_le
  unfold SnapshotTracker.checkedSnapshotAll
  split
  · rename_i hnone
    have hnil : tracker.walPeriods = [] := by simpa using hnone
    simp [hnil]
  · rename_i maxTime hmax
    obtain ⟨hmem, hgreatest⟩ := max?_eq_some_iff.mp hmax
    obtain ⟨latest, hlatest, rfl⟩ := mem_map.mp hmem
    have hmarker : tracker.checkedInOrderMarker latest.maxTime = .ok _ :=
      checked_of_isI64 (isI64_chunkTime _ (h.times latest hlatest))
    have hroom := truncateTo_add_le_iff (x := latest.maxTime) hwidth htop
    constructor
    · rintro ⟨issued, hissued⟩ period hperiod
      simp only [bind_eq_ok, checked_eq_ok] at hissued
      obtain ⟨start, hstart, _, ⟨hfits, _⟩, _⟩ := hissued
      obtain rfl := Except.ok.inj (hmarker.symm.trans hstart)
      have hle := hgreatest _ (mem_map_of_mem hperiod)
      exact hle.trans_lt (hroom.mp hfits.2)
    · intro hbefore
      have hfits := hroom.mpr (hbefore latest hlatest)
      have hstart := isI64_chunkTime tracker.gen1Duration (h.times latest hlatest)
      have hend : checked "timestamp wraparound" (truncateTo tracker.gen1Duration.asNanos
          latest.maxTime + tracker.gen1Duration.asNanos) = .ok _ :=
        checked_of_isI64 ⟨hstart.1.trans (le_add_of_nonneg_right hwidth.le), hfits⟩
      refine ⟨tracker.snapshotAll, ?_⟩
      simp only [bind_eq_ok, pure_eq_ok]
      exact ⟨_, hmarker, _, hend, trivial⟩

theorem checkedSnapshot_isOk_iff (h : InRange config tracker) (forceSnapshot : Bool) :
    (∃ issued, tracker.checkedSnapshot forceSnapshot = .ok issued) ↔
      BeforeLastChunk tracker (.snapshot forceSnapshot) := by
  unfold SnapshotTracker.checkedSnapshot BeforeLastChunk
  cases htries : tracker.tries forceSnapshot with
  | false => simp [htries]
  | true =>
    cases hall : tracker.takesAll forceSnapshot with
    | false => simpa [htries, hall] using h.checkedSnapshotInOrderWalPeriods_isOk
    | true => simpa [htries, hall] using h.checkedSnapshotAll_isOk_iff

end InRange

/-- In every run, converting and adding points and no-ops never panics, and a snapshot does not
just when it is not one of everything that reaches into the last chunk of the range. -/
theorem timedStep_isOk_iff
    (hreachable : (timedMachine config).Reachable Machine.Unrestricted tracker) :
    (∃ next, timedStep tracker action = .ok next) ↔ BeforeLastChunk tracker action := by
  have hrange := InRange.of_reachable hreachable
  cases action with
  | addPoints points =>
    obtain ⟨added, hadded, _⟩ := hrange.addPoints points
    exact ⟨fun _ => trivial, fun _ => ⟨added, hadded⟩⟩
  | addNoop now =>
    obtain ⟨added, hadded, _⟩ := hrange.addNoop now
    exact ⟨fun _ => trivial, fun _ => ⟨added, hadded⟩⟩
  | snapshot forceSnapshot =>
    rw [← hrange.checkedSnapshot_isOk_iff forceSnapshot]
    simp [timedStep]

end Runs

section Extremes

/-- Snapshots of chunks of ten minutes, as they are by default. -/
def defaultConfig : SnapshotConfig where
  snapshotSize := 600
  gen1Duration := .new10m
  asNanos_le := by decide

def defaultTracker : SnapshotTracker := .new 600 .new10m none

theorem defaultTracker_reachable :
    (timedMachine defaultConfig).Reachable Machine.Unrestricted defaultTracker :=
  .initial ⟨none, rfl⟩

def earliest : Point := nanosecondPoint i64Min (by decide)

def latest : Point := nanosecondPoint i64Max (by decide)

theorem timedStep_earliest_and_latest :
    (∃ next, timedStep defaultTracker (.addPoints [earliest, latest]) = .ok next) ∧
      ∃ tracker, (timedMachine defaultConfig).Reachable Machine.Unrestricted tracker ∧
        tracker.walPeriods ≠ [] ∧ ∃ next, timedStep tracker (.snapshot true) = .ok next := by
  refine ⟨(timedStep_isOk_iff defaultTracker_reachable).mpr trivial, ?_⟩
  obtain ⟨tracker, hreachable, hperiods, hbefore⟩ := defaultTracker_reachable.exists_of_run
    [.addPoints [earliest]]
    (fun tracker => tracker.walPeriods ≠ [] ∧ ∀ period ∈ tracker.walPeriods,
      period.maxTime < truncateTo tracker.gen1Duration.asNanos i64Max)
    (by decide)
  exact ⟨tracker, hreachable, hperiods, (timedStep_isOk_iff hreachable).mpr fun _ _ => hbefore⟩

/-- A computation ends in a panic with this message. -/
def panicsWith {α : Type} (message : String) : Timed α → Bool
  | .error (.panic text) => text = message
  | _ => false

theorem eq_panic_of_panicsWith {α : Type} {message : String} {result : Timed α}
    (h : panicsWith message result = true) : result = .error (.panic message) := by
  unfold panicsWith at h
  split at h
  · rw [of_decide_eq_true h]
  · exact nomatch h

/-- A point at the latest time is accepted, and the next snapshot of everything panics. -/
theorem latest_point_panics :
    latest.toNanos = .ok i64Max ∧
      ∃ tracker, (timedMachine defaultConfig).Reachable Machine.Unrestricted tracker ∧
        timedStep tracker (.snapshot true) = .error (.panic "timestamp wraparound") := by
  obtain ⟨tracker, hreachable, hpanics⟩ := defaultTracker_reachable.exists_of_run
    [.addPoints [latest]]
    (fun tracker => panicsWith "timestamp wraparound" (timedStep tracker (.snapshot true)))
    (by decide)
  exact ⟨toNanos_nanosecondPoint _, tracker, hreachable, eq_panic_of_panicsWith hpanics⟩

end Extremes

end RefluxDb.Wal
