import RefluxDb.Write.CursorCompleteness

/-! Deleting the inputs of a compaction once every live consumer has folded it.

Each consumer runs a poller and, beside it, a task that writes the poller's compaction cursor to
the shared inventory as a heartbeat. A compaction's delete task waits until no consumer with a
recent heartbeat has a cursor below the compaction's id, and then deletes the inputs. Publishing
the manifest to the shared inventory is best effort, and the delete task starts whether or not it
succeeded. The sleeps of the delete task are left out: any number of other steps may come between
two of its own. -/

namespace RefluxDb.Write

open RefluxDb.Library

structure ConsumerHeartbeat where
  compactionCursor : Option String
  updatedAtMs : Int
deriving DecidableEq

/-- A consumer: its poller, the cursor the finished ticks have handed to the heartbeat task, and
the heartbeat that is being written. -/
structure Consumer where
  poller : Poller := {}
  heartbeatCursor : Option String := none
  unwritten : Option ConsumerHeartbeat := none

/-- A delete task before or after a check of the consumers, within one, or past it. -/
inductive DeletePhase where
  | waiting
  | checking (nowMs : Int) (unread : List String)
  | cleared (nowMs : Int)
deriving DecidableEq

/-- The time of the check, and the consumers that it has yet to read. -/
def DeletePhase.check : DeletePhase → Option (Int × List String)
  | .waiting => none
  | .checking nowMs unread => some (nowMs, unread)
  | .cleared nowMs => some (nowMs, [])

def DeletePhase.isCleared : DeletePhase → Bool
  | .cleared _ => true
  | _ => false

structure DeleteTask where
  compactionId : String
  snapshot : PersistedSnapshot
  phase : DeletePhase := .waiting

/-- Writers, compaction tasks, consumers, their stored heartbeats, and the delete tasks. -/
structure Deployment where
  store : Store := .empty
  minted : List (String × PersistedSnapshot) := []
  consumers : String → Consumer := fun _ => {}
  heartbeats : AList fun _ : String => ConsumerHeartbeat := ∅
  tasks : List DeleteTask := []
  deleted : List String := []

inductive DeploymentAction where
  | publishWal (snapshot : PersistedSnapshot)
  | mint (id : String) (snapshot : PersistedSnapshot)
  | publishCompaction (id : String) (snapshot : PersistedSnapshot) (shared : Bool)
  | poll (nodeId : String) (action : PollerAction)
  | publishCursor (nodeId : String)
  | readCursor (nodeId : String) (nowMs : Int)
  | writeConsumerHeartbeat (nodeId : String) (written : Bool)
  | beginCheck (index : Nat) (nowMs : Int) (listing : List String)
  | checkConsumer (index : Nat)
  | failCheck (index : Nat)
  | giveUp (index : Nat)
  | deleteInput (index : Nat) (path : String)

/-- A compaction writes at least one file, and at a path of its own. -/
def WritesNewFiles (id : String) (snapshot : PersistedSnapshot) : Prop :=
  (Manifest.compaction id snapshot).adds ≠ [] ∧
    ∀ entry ∈ (Manifest.compaction id snapshot).adds,
      entry ∉ (Manifest.compaction id snapshot).removes
deriving Decidable

/-- Whether a heartbeat is too old for its consumer to count as live. -/
def ConsumerHeartbeat.Stale (heartbeat : ConsumerHeartbeat) (nowMs ttlMs : Int) : Prop :=
  nowMs - heartbeat.updatedAtMs > ttlMs
deriving Decidable

/-- One heartbeat of `all_live_consumers_folded`: the task after it has been read. -/
def DeleteTask.readHeartbeat (task : DeleteTask) (ttlMs nowMs : Int) (rest : List String)
    (heartbeat : ConsumerHeartbeat) : DeleteTask :=
  if heartbeat.Stale nowMs ttlMs then { task with phase := .checking nowMs rest }
  else if heartbeat.compactionCursor.any (task.compactionId ≤ ·) then
    { task with phase := .checking nowMs rest }
  else { task with phase := .waiting }

namespace Deployment

def setConsumer (state : Deployment) (nodeId : String) (consumer : Consumer) : Deployment :=
  { state with consumers := Function.update state.consumers nodeId consumer }

variable {state : Deployment} {consumer : Consumer}

@[simp] theorem setConsumer_self {nodeId : String} :
    (state.setConsumer nodeId consumer).consumers nodeId = consumer :=
  Function.update_self _ _ _

theorem setConsumer_of_ne {nodeId other : String}
    (hother : other ≠ nodeId) :
    (state.setConsumer nodeId consumer).consumers other = state.consumers other :=
  Function.update_of_ne hother _ _

def setTask (state : Deployment) (index : Nat) (task : DeleteTask) : Deployment :=
  { state with tasks := state.tasks.set index task }

/-- One step of the check of a delete task: the next heartbeat, or its end. -/
def checkConsumer (ttlMs : Int) (state : Deployment) (task : DeleteTask) : Option DeleteTask :=
  match task.phase with
  | .checking nowMs [] => some { task with phase := .cleared nowMs }
  | .checking nowMs (nodeId :: rest) =>
    (state.heartbeats.lookup nodeId).map (task.readHeartbeat ttlMs nowMs rest)
  | _ => none

def step (ttlMs : Int) (state : Deployment) : DeploymentAction → Option Deployment
  | .publishWal snapshot =>
    (state.store.publishWalSnapshot snapshot).map fun store => { state with store := store }
  | .mint id snapshot =>
    if (∀ c ∈ state.minted ++ state.store.compactions, c.1 < id) ∧
        (∀ task ∈ state.tasks, task.compactionId < id) ∧ WritesNewFiles id snapshot then
      some { state with minted := state.minted ++ [(id, snapshot)] }
    else none
  | .publishCompaction id snapshot shared =>
    if (id, snapshot) ∈ state.minted then
      (if shared then state.store.publishCompaction id snapshot else some state.store).map
        fun store => { state with
          store := store
          minted := state.minted.erase (id, snapshot)
          tasks := state.tasks ++ [{ compactionId := id, snapshot := snapshot }] }
    else none
  | .poll nodeId action =>
    let consumer := state.consumers nodeId
    (consumer.poller.step state.store action).map fun poller =>
      state.setConsumer nodeId { consumer with poller := poller }
  | .publishCursor nodeId =>
    let consumer := state.consumers nodeId
    if consumer.poller.phase = .idle then
      some (state.setConsumer nodeId
        { consumer with heartbeatCursor := consumer.poller.compactionCursor })
    else none
  | .readCursor nodeId nowMs =>
    let consumer := state.consumers nodeId
    if consumer.unwritten = none then
      some (state.setConsumer nodeId
        { consumer with unwritten := some ⟨consumer.heartbeatCursor, nowMs⟩ })
    else none
  | .writeConsumerHeartbeat nodeId written =>
    let consumer := state.consumers nodeId
    consumer.unwritten.map fun heartbeat =>
      { state.setConsumer nodeId { consumer with unwritten := none } with
        heartbeats := if written then state.heartbeats.insert nodeId heartbeat
          else state.heartbeats }
  | .beginCheck index nowMs listing =>
    state.tasks[index]?.bind fun task =>
      if task.phase = .waiting ∧ listing.Perm state.heartbeats.keys then
        some (state.setTask index { task with phase := .checking nowMs listing })
      else none
  | .checkConsumer index =>
    state.tasks[index]?.bind fun task =>
      (state.checkConsumer ttlMs task).map (state.setTask index)
  | .failCheck index =>
    state.tasks[index]?.bind fun task =>
      if task.phase.isCleared then none
      else some (state.setTask index { task with phase := .waiting })
  | .giveUp index =>
    state.tasks[index]?.bind fun task =>
      if task.phase = .waiting then some { state with tasks := state.tasks.eraseIdx index }
      else none
  | .deleteInput index path =>
    state.tasks[index]?.bind fun task =>
      if task.phase.isCleared ∧
          path ∈ (Manifest.compaction task.compactionId task.snapshot).removes.map Prod.snd then
        some { state with deleted := state.deleted ++ [path] }
      else none

def machine (ttlMs : Int) : Machine Deployment DeploymentAction where
  initial state := state = {}
  step := step ttlMs

/-- What one consumer takes part in: the published manifests and its own poller. -/
def cluster (state : Deployment) (nodeId : String) : Cluster where
  store := state.store
  minted := state.minted
  poller := (state.consumers nodeId).poller

end Deployment

end RefluxDb.Write
