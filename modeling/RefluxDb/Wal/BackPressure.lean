import RefluxDb.Library.Machine
import RefluxDb.Wal.WalBuffer

/-! Back-pressure of the WAL buffer.

A buffer is meant to turn writes away once it has taken `opLimit` operations since the last flush.
The model adds the senders of the clients that wait for the flush, the flushes whose file is still
being put, and what each sender was told. How many operations were taken is counted on the side,
from the calls that succeeded: the buffer's own count starts at zero and no call changes it. -/

namespace RefluxDb.Wal

open Option RefluxDb.Library

variable {ρ : Type*}

/-- The buffer with the senders that wait for its flush. -/
structure RespondingBuffer (ρ : Type*) extends WalBuffer ρ where
  writeOpResponses : List Nat := []

namespace RespondingBuffer

variable (buffer : RespondingBuffer ρ)

def isEmpty : Bool := buffer.databaseToWriteBatch.entries.isEmpty && buffer.noOp.isNone

/-- The result of a call, and the buffer it leaves. -/
def writeOpsUnconfirmed (ops : List (WalOp ρ)) : Except WalError Unit × RespondingBuffer ρ :=
  match buffer.toWalBuffer.writeOpsUnconfirmed ops with
  | .error error => (.error error, buffer)
  | .ok written => (.ok (), { buffer with toWalBuffer := written })

/-- The sender is kept before the operations are tried. -/
def bufferOpsWithResponse (ops : List (WalOp ρ)) (response : Nat) :
    Except WalError Unit × RespondingBuffer ρ :=
  if buffer.state ≠ .acceptingWrites then (.error .shutdown, buffer)
  else
    { buffer with writeOpResponses := buffer.writeOpResponses ++ [response] }
      |>.writeOpsUnconfirmed ops

def swapped : RespondingBuffer ρ where
  state := buffer.state
  opLimit := buffer.opLimit
  opCount := 0

end RespondingBuffer

/-- The two ways of writing: with a sender that waits, or without. -/
inductive WriteCall (ρ : Type*) where
  | writeOps (ops : List (WalOp ρ)) (response : Nat)
  | writeOpsUnconfirmed (ops : List (WalOp ρ))

namespace WriteCall

def ops : WriteCall ρ → List (WalOp ρ)
  | writeOps ops _ => ops
  | writeOpsUnconfirmed ops => ops

def isUnconfirmed : WriteCall ρ → Bool
  | writeOps _ _ => false
  | writeOpsUnconfirmed _ => true

def run (buffer : RespondingBuffer ρ) : WriteCall ρ → Except WalError Unit × RespondingBuffer ρ
  | writeOps ops response => buffer.bufferOpsWithResponse ops response
  | writeOpsUnconfirmed ops => buffer.writeOpsUnconfirmed ops

end WriteCall

/-- The operations of a call that put something into the buffer. -/
def WalOp.isWrite : WalOp ρ → Bool
  | .write _ => true
  | .noop _ => false

/-- The WAL as its clients see it. `buffered` counts the operations taken since the last flush,
`flushing` has the senders of each file that is being put, and `told` what senders were told. -/
structure WriteRun (ρ : Type*) where
  buffer : RespondingBuffer ρ
  buffered : Nat := 0
  flushing : List (List Nat) := []
  told : List (Nat × Bool) := []

/-- Calls, the swap of a flush, the three ways its put may end, and the shutdown. -/
inductive WriteAction (ρ : Type*) where
  | call (call : WriteCall ρ)
  | flush (forceSnapshot : Bool)
  | persisted (index : Nat)
  | alreadyExists (index : Nat)
  | gaveUp (index : Nat)
  | shutdown

namespace WriteRun

variable (run : WriteRun ρ)

/-- Takes a file that was being put, and tells its senders how it went. -/
def finish (index : Nat) (success : Bool) : Option (WriteRun ρ) :=
  run.flushing[index]?.map fun responses =>
    { run with
      flushing := run.flushing.eraseIdx index
      told := run.told ++ responses.map (·, success) }

def step : WriteAction ρ → Option (WriteRun ρ)
  | .call call =>
    match call.run run.buffer with
    | (.ok (), buffer) =>
      some { run with
        buffer := buffer
        buffered := run.buffered + call.ops.countP WalOp.isWrite }
    | (.error _, buffer) => some { run with buffer := buffer }
  | .flush forceSnapshot =>
    -- the no-op that a forced flush adds leaves with the old buffer
    if run.buffer.isEmpty && !forceSnapshot then none
    else some { run with
      buffer := run.buffer.swapped
      buffered := 0
      flushing := run.flushing ++ [run.buffer.writeOpResponses] }
  | .persisted index => run.finish index true
  | .alreadyExists index =>
    (run.finish index false).map fun next =>
      { next with buffer := { next.buffer with state := .walAlreadyWrittenTo } }
  | .gaveUp index =>
    (run.finish index false).map fun next =>
      { next with
        buffer := next.buffer.swapped
        buffered := 0
        told := next.told ++ next.buffer.writeOpResponses.map (·, false) }
  | .shutdown => some { run with buffer := { run.buffer with state := .shuttingDown } }

end WriteRun

def writeMachine (ρ : Type*) : Machine (WriteRun ρ) (WriteAction ρ) where
  initial run := ∃ opLimit, run =
    { buffer := { state := .acceptingWrites, opLimit := opLimit, opCount := 0 } }
  step := WriteRun.step

/-- A call is turned away for a full buffer: the buffered data stays as it is, and no sender is
left behind. -/
structure TurnedAway (buffer : RespondingBuffer ρ) (call : WriteCall ρ) : Prop where
  result : ∃ opCount, (call.run buffer).1 = .error (.bufferFull opCount)
  data : (call.run buffer).2.databaseToWriteBatch = buffer.databaseToWriteBatch
  noOp : (call.run buffer).2.noOp = buffer.noOp
  senders : (call.run buffer).2.writeOpResponses = buffer.writeOpResponses

/-- A call on a full buffer is turned away. -/
def HoldsBack (run : WriteRun ρ) (call : WriteCall ρ) : Prop :=
  run.buffer.opLimit ≤ run.buffered → TurnedAway run.buffer call

/-- The calls that are treated as they should be: those on a buffer that is not full, and calls
without a sender on a buffer that never takes anything. -/
def NeverCounted (run : WriteRun ρ) (call : WriteCall ρ) : Prop :=
  run.buffered < run.buffer.opLimit ∨
    (run.buffer.opLimit = 0 ∧ run.buffer.state = .acceptingWrites ∧ call.isUnconfirmed = true)

variable {buffer : RespondingBuffer ρ} {run next : WriteRun ρ} {call : WriteCall ρ}

section Counting

theorem foldl_writeOp_opCount (ops : List (WalOp ρ)) (buffer : WalBuffer ρ) :
    (ops.foldl WalBuffer.writeOp buffer).opCount = buffer.opCount := by
  induction ops generalizing buffer with
  | nil => rfl
  | cons op rest ih =>
    have hop : (buffer.writeOp op).opCount = buffer.opCount := by
      cases op <;> rfl
    exact (ih _).trans hop

theorem writeOpsUnconfirmed_opCount (ops : List (WalOp ρ)) :
    (buffer.writeOpsUnconfirmed ops).2.opCount = buffer.opCount := by
  unfold RespondingBuffer.writeOpsUnconfirmed WalBuffer.writeOpsUnconfirmed
  by_cases hstate : buffer.state ≠ .acceptingWrites
  · simp [hstate]
  · by_cases hfull : buffer.opLimit ≤ buffer.opCount
    · simp [hstate, hfull]
    · simpa [hstate, hfull] using foldl_writeOp_opCount ops buffer.toWalBuffer

theorem run_opCount (buffer : RespondingBuffer ρ) (call : WriteCall ρ) :
    (call.run buffer).2.opCount = buffer.opCount := by
  cases call with
  | writeOps ops response =>
    simp only [WriteCall.run, RespondingBuffer.bufferOpsWithResponse]
    split
    · rfl
    · exact writeOpsUnconfirmed_opCount ops
  | writeOpsUnconfirmed ops => exact writeOpsUnconfirmed_opCount ops

theorem finish_buffer {index : Nat} {success : Bool} (h : run.finish index success = some next) :
    next.buffer = run.buffer := by
  obtain ⟨_, _, rfl⟩ := map_eq_some_iff.mp h
  rfl

theorem step_opCount {action : WriteAction ρ} (h : run.buffer.opCount = 0)
    (hstep : run.step action = some next) : next.buffer.opCount = 0 := by
  cases action with
  | call call =>
    have hcount := run_opCount run.buffer call
    simp only [WriteRun.step] at hstep
    split at hstep
    all_goals
      rename_i hrun
      obtain rfl := some.inj hstep
      rw [hrun] at hcount
      exact hcount.trans h
  | flush forceSnapshot =>
    simp only [WriteRun.step, ite_none_left_eq_some] at hstep
    obtain rfl := some.inj hstep.2
    rfl
  | persisted index => exact (finish_buffer hstep) ▸ h
  | alreadyExists index =>
    obtain ⟨finished, hfinish, rfl⟩ := map_eq_some_iff.mp hstep
    exact (finish_buffer hfinish) ▸ h
  | gaveUp index =>
    obtain ⟨finished, _, rfl⟩ := map_eq_some_iff.mp hstep
    rfl
  | shutdown =>
    obtain rfl := some.inj hstep
    exact h

/-- The count is zero in every state of every run. -/
theorem opCount_eq_zero (hreachable : (writeMachine ρ).Reachable Machine.Unrestricted run) :
    run.buffer.opCount = 0 := by
  induction hreachable with
  | initial hinitial =>
    obtain ⟨opLimit, rfl⟩ := hinitial
    rfl
  | step _ _ hstep ih => exact step_opCount ih hstep

end Counting

section TurningAway

theorem writeOpsUnconfirmed_turnedAway (buffer : RespondingBuffer ρ) (ops : List (WalOp ρ))
    (hstate : buffer.state = .acceptingWrites) (hfull : buffer.opLimit ≤ buffer.opCount) :
    buffer.writeOpsUnconfirmed ops = (.error (.bufferFull buffer.opCount), buffer) := by
  simp [RespondingBuffer.writeOpsUnconfirmed, WalBuffer.writeOpsUnconfirmed, hstate, hfull]

/-- A call is turned away just when it has no sender, the buffer accepts writes and its own count
has reached the limit. -/
theorem turnedAway_iff : TurnedAway buffer call ↔
    buffer.state = .acceptingWrites ∧ buffer.opLimit ≤ buffer.opCount ∧
      call.isUnconfirmed = true := by
  constructor
  · rintro ⟨⟨opCount, hresult⟩, _, _, hsenders⟩
    have hfull : ∀ (buffer : RespondingBuffer ρ) ops,
        (buffer.writeOpsUnconfirmed ops).1 = .error (.bufferFull opCount) →
          buffer.state = .acceptingWrites ∧ buffer.opLimit ≤ buffer.opCount := by
      intro buffer ops hresult
      by_cases hstate : buffer.state = .acceptingWrites
      · by_cases hlimit : buffer.opLimit ≤ buffer.opCount
        · exact ⟨hstate, hlimit⟩
        · simp [RespondingBuffer.writeOpsUnconfirmed, WalBuffer.writeOpsUnconfirmed, hstate,
            hlimit] at hresult
      · simp [RespondingBuffer.writeOpsUnconfirmed, WalBuffer.writeOpsUnconfirmed, hstate]
          at hresult
    cases call with
    | writeOps ops response =>
      simp only [WriteCall.run, RespondingBuffer.bufferOpsWithResponse] at hresult hsenders
      split at hresult
      · exact absurd (Except.error.inj hresult) (by simp)
      · rename_i hstate
        -- the sender was kept before the buffer was found full
        obtain ⟨haccepting, hlimit⟩ := hfull _ ops hresult
        rw [if_neg hstate, writeOpsUnconfirmed_turnedAway _ ops haccepting hlimit] at hsenders
        simp at hsenders
    | writeOpsUnconfirmed ops =>
      obtain ⟨haccepting, hlimit⟩ := hfull buffer ops hresult
      exact ⟨haccepting, hlimit, rfl⟩
  · rintro ⟨hstate, hlimit, hunconfirmed⟩
    cases call with
    | writeOps ops response => exact absurd hunconfirmed (by simp [WriteCall.isUnconfirmed])
    | writeOpsUnconfirmed ops =>
      have hrun := writeOpsUnconfirmed_turnedAway buffer ops hstate hlimit
      exact ⟨⟨buffer.opCount, by simp [WriteCall.run, hrun]⟩, by simp [WriteCall.run, hrun],
        by simp [WriteCall.run, hrun], by simp [WriteCall.run, hrun]⟩

/-- In every state of every run, a call on a full buffer is turned away just when the limit is
zero, the buffer accepts writes and the call has no sender. -/
theorem holdsBack_iff_neverCounted
    (hreachable : (writeMachine ρ).Reachable Machine.Unrestricted run) :
    HoldsBack run call ↔ NeverCounted run call := by
  have hcount := opCount_eq_zero hreachable
  unfold HoldsBack NeverCounted
  rw [turnedAway_iff, hcount, Nat.le_zero]
  constructor
  · intro hholds
    rcases Nat.lt_or_ge run.buffered run.buffer.opLimit with hroom | hfull
    · exact .inl hroom
    · obtain ⟨hstate, hlimit, hunconfirmed⟩ := hholds hfull
      exact .inr ⟨hlimit, hstate, hunconfirmed⟩
  · rintro (hroom | ⟨hlimit, hstate, hunconfirmed⟩) hfull
    · omega
    · exact ⟨hstate, hlimit, hunconfirmed⟩

end TurningAway

section Unbounded

def emptyWrite : WalOp Unit := .write (.new 0 0 "db" ∅)

def limited (opLimit : Nat) : WriteRun Unit where
  buffer := { state := .acceptingWrites, opLimit := opLimit, opCount := 0 }

theorem limited_initial (opLimit : Nat) :
    (writeMachine Unit).Reachable Machine.Unrestricted (limited opLimit) :=
  .initial ⟨opLimit, rfl⟩

/-- With a limit of zero, every call without a sender is turned away. -/
theorem holdsBack_without_room : HoldsBack (limited 0) (.writeOpsUnconfirmed [emptyWrite]) :=
  (holdsBack_iff_neverCounted (limited_initial 0)).mpr (.inr ⟨rfl, rfl, rfl⟩)

/-- A buffer that has reached its limit takes the next write. -/
theorem full_buffer_accepts :
    ∃ run : WriteRun Unit, (writeMachine Unit).Reachable Machine.Unrestricted run ∧
      run.buffer.opLimit ≤ run.buffered ∧
      ((WriteCall.writeOpsUnconfirmed [emptyWrite]).run run.buffer).1 = .ok () ∧
      ¬ HoldsBack run (.writeOpsUnconfirmed [emptyWrite]) := by
  have hwritten : (writeMachine Unit).step (limited 1)
      (.call (.writeOpsUnconfirmed [emptyWrite])) = some _ := rfl
  refine ⟨_, .step (limited_initial 1) trivial hwritten, le_refl 1, rfl, ?_⟩
  intro hholds
  obtain ⟨_, hresult⟩ := (hholds (le_refl 1)).result
  exact nomatch hresult

/-- The sender of a call that was turned away is told that the next flush succeeded. -/
theorem told_after_turnedAway (run : WriteRun ρ) (ops : List (WalOp ρ)) (response : Nat)
    (hstate : run.buffer.state = .acceptingWrites)
    (hfull : run.buffer.opLimit ≤ run.buffer.opCount) :
    ∃ last, (writeMachine ρ).exec run [.call (.writeOps ops response), .flush true,
        .persisted run.flushing.length] = some last ∧ (response, true) ∈ last.told := by
  have hrun : (WriteCall.writeOps ops response).run run.buffer =
      (.error (.bufferFull run.buffer.opCount),
        { run.buffer with writeOpResponses := run.buffer.writeOpResponses ++ [response] }) := by
    rw [WriteCall.run, RespondingBuffer.bufferOpsWithResponse, if_neg (by simp [hstate])]
    exact writeOpsUnconfirmed_turnedAway { run.buffer with
      writeOpResponses := run.buffer.writeOpResponses ++ [response] } ops hstate hfull
  simp [Machine.exec, writeMachine, WriteRun.step, WriteRun.finish, hrun]

end Unbounded

end RefluxDb.Wal
