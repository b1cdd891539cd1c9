import Mathlib.Algebra.Order.Ring.Int
import RefluxDb.Library.Machine
import RefluxDb.Library.VersionedCell

/-! The object-store lease behind the single writer and the single compactor.

Every process runs `try_acquire`, `refresh` and `release` on one lease path, one call at a time.
Each call is cut at its store requests: a request takes effect in one step and its response is
processed in a later one, so that requests of other processes fall in between, and any request
may fail or lose its response. All processes read one clock that never goes back.

The store is one with atomic conditional writes, so the fallback for stores without them is not
modelled, nor are the log lines, the metrics and the sleeps of the background loop. -/

namespace RefluxDb.Write.Leases

open Option RefluxDb.Library

structure LeaseConfig where
  owner : String
  ttl : Nat

structure LeaseDoc where
  owner : String
  acquiredAtUnixMs : Int
  expiresAtUnixMs : Int
deriving DecidableEq

/-- What one process remembers of the lease. -/
structure Inner where
  heldVersion : Option Nat := none
  expiresAtUnixMs : Int := 0
deriving DecidableEq

def Inner.isLeader (inner : Inner) (nowUnixMs : Int) : Bool :=
  inner.heldVersion.isSome && decide (inner.expiresAtUnixMs > nowUnixMs)

def Inner.recordAcquired (_ : Inner) (version : Nat) (expiresAtUnixMs : Int) : Inner where
  heldVersion := some version
  expiresAtUnixMs := expiresAtUnixMs

/-- The document `try_acquire` and `refresh` write when called at `nowUnixMs`. -/
def LeaseConfig.newDoc (config : LeaseConfig) (nowUnixMs : Int) : LeaseDoc where
  owner := config.owner
  acquiredAtUnixMs := nowUnixMs
  expiresAtUnixMs := nowUnixMs + config.ttl

/-- Where a process is in the call it is running. `acquired` and `refused` stand between a
conditional write at the store and the processing of its response. -/
inductive Call where
  | idle
  | create (nowUnixMs : Int)
  | get (nowUnixMs : Int)
  | head (nowUnixMs : Int)
  | takeover (nowUnixMs : Int) (version : Nat)
  | refresh (nowUnixMs : Int) (version : Nat)
  | acquired (version : Nat) (expiresAtUnixMs : Int)
  | refused
  | releaseHead (version : Nat)
  | releaseDelete
deriving DecidableEq

structure Process where
  inner : Inner := {}
  call : Call := .idle
deriving DecidableEq

variable {P : Type*} [DecidableEq P]

structure World (P : Type*) where
  nowUnixMs : Int
  store : VersionedCell LeaseDoc
  process : P → Process

def World.isLeader (world : World P) (p : P) : Bool :=
  (world.process p).inner.isLeader world.nowUnixMs

def World.setProcess (world : World P) (p : P) (process : Process) : World P :=
  { world with process := Function.update world.process p process }

inductive Action (P : Type*) where
  | clock (nowUnixMs : Int)
  | tryAcquire (p : P)
  | refresh (p : P)
  | release (p : P)
  | proceed (p : P)
  | fail (p : P)

/-- The next step inside the running call: its next store request, or the processing of the
response to its conditional write. -/
def proceed (config : LeaseConfig) (world : World P) (p : P) : Option (World P) :=
  let self := world.process p
  let goto (call : Call) : World P := world.setProcess p { self with call := call }
  match self.call with
  | .idle => none
  | .create now =>
    match world.store.create (config.newDoc now) with
    | some written =>
      some { goto (.acquired world.store.nextVersion (config.newDoc now).expiresAtUnixMs) with
        store := written }
    | none => some (goto (.get now))
  | .get now =>
    match world.store.stored with
    | none => some (goto .idle)
    | some (existing, _) =>
      if existing.expiresAtUnixMs > now then some (goto .idle) else some (goto (.head now))
  | .head now =>
    match world.store.stored with
    | none => some (goto .idle)
    | some (_, version) => some (goto (.takeover now version))
  | .takeover now version =>
    match world.store.update (config.newDoc now) version with
    | some written =>
      some { goto (.acquired world.store.nextVersion (config.newDoc now).expiresAtUnixMs) with
        store := written }
    | none => some (goto .idle)
  | .refresh now version =>
    match world.store.update (config.newDoc now) version with
    | some written =>
      some { goto (.acquired world.store.nextVersion (config.newDoc now).expiresAtUnixMs) with
        store := written }
    | none => some (goto .refused)
  | .acquired version expires =>
    some (world.setProcess p { inner := self.inner.recordAcquired version expires })
  | .refused =>
    some (world.setProcess p { inner := { self.inner with heldVersion := none } })
  | .releaseHead version =>
    match world.store.stored with
    | none => some (goto .releaseDelete)
    | some (_, current) =>
      if current ≠ version then some (goto .idle) else some (goto .releaseDelete)
  | .releaseDelete => some { goto .idle with store := world.store.delete }

/-- A store request fails, or its response is lost. The call ends with an error, except that
`release` goes on to its delete when its `head` fails. -/
def fail (world : World P) (p : P) : World P :=
  let self := world.process p
  match self.call with
  | .releaseHead _ => world.setProcess p { self with call := .releaseDelete }
  | _ => world.setProcess p { self with call := .idle }

def start (world : World P) (p : P) (call : Call) : Option (World P) :=
  let self := world.process p
  if self.call = .idle then some (world.setProcess p { self with call := call }) else none

def step (config : P → LeaseConfig) (world : World P) : Action P → Option (World P)
  | .clock now =>
    if world.nowUnixMs ≤ now then some { world with nowUnixMs := now } else none
  | .tryAcquire p => start world p (.create world.nowUnixMs)
  | .refresh p =>
    match (world.process p).inner.heldVersion with
    | none => some world
    | some version => start world p (.refresh world.nowUnixMs version)
  | .release p =>
    match (world.process p).inner.heldVersion with
    | none => some world
    | some version => start world p (.releaseHead version)
  | .proceed p => proceed (config p) world p
  | .fail p => some (fail world p)

/-- The lease on one path: no document at first, and no process holds it. -/
def machine (config : P → LeaseConfig) : Machine (World P) (Action P) where
  initial world := world.store = .empty ∧ ∀ p, world.process p = {}
  step := step config

/-- The clock reading a call was started with, for the calls that write a document. -/
def Call.startedAt : Call → Option Int
  | .create now | .get now | .head now | .takeover now _ | .refresh now _ => some now
  | _ => none

/-- A version the process was given for a write of its own. -/
def Process.Knows (process : Process) (version : Nat) : Prop :=
  process.inner.heldVersion = some version ∨
    (∃ now, process.call = .refresh now version) ∨
    ∃ expires, process.call = .acquired version expires

/-- An expiry up to which the process is leader, now or once it has processed a response. -/
def Process.Claims (process : Process) (expires : Int) : Prop :=
  (process.inner.heldVersion.isSome ∧ process.inner.expiresAtUnixMs = expires) ∨
    ∃ version, process.call = .acquired version expires

/-- Calls start in the past, and what a process claims it was granted for at most one lifetime
from the start of the call it is running. -/
structure Process.Timely (ttl : Nat) (nowUnixMs : Int) (process : Process) : Prop where
  started : ∀ start, process.call.startedAt = some start → start ≤ nowUnixMs
  claimed : ∀ expires, process.Claims expires →
    expires ≤ process.call.startedAt.getD nowUnixMs + ttl

/-- The stored document backs a claim: it names the same owner, expires no earlier, and no other
process knows its version. -/
def Backs (config : P → LeaseConfig) (world : World P) (p : P) (expires : Int) : Prop :=
  ∃ doc version, world.store.stored = some (doc, version) ∧ doc.owner = (config p).owner ∧
    expires ≤ doc.expiresAtUnixMs ∧ ∀ q, (world.process q).Knows version → q = p

structure Inv (config : P → LeaseConfig) (world : World P) : Prop where
  timely : ∀ p, (world.process p).Timely (config p).ttl world.nowUnixMs
  known_lt : ∀ p version, (world.process p).Knows version → version < world.store.nextVersion
  backed : ∀ p expires, (world.process p).Claims expires → world.nowUnixMs < expires →
    Backs config world p expires
  takeover : ∀ p now version, (world.process p).call = .takeover now version →
    version < world.store.nextVersion ∧
      ∀ doc, world.store.stored = some (doc, version) → doc.expiresAtUnixMs ≤ now

/-- No document is stored, or the stored one has expired by `nowUnixMs`. -/
def NotLive (store : VersionedCell LeaseDoc) (nowUnixMs : Int) : Prop :=
  ∀ existing ∈ store.stored, existing.1.expiresAtUnixMs ≤ nowUnixMs
deriving Decidable

/-- The steps that keep the lease exclusive: a takeover asks for the version of a document that
is expired by the reading of the clock its call started with, and a release deletes no document
that is still live. -/
def Sound (world : World P) : Action P → Prop
  | .proceed p =>
    match (world.process p).call with
    | .head now => NotLive world.store now
    | .releaseDelete => NotLive world.store world.nowUnixMs
    | _ => True
  | _ => True

instance Sound.decidable (world : World P) (action : Action P) :
    Decidable (Sound world action) := by
  unfold Sound
  split
  · split <;> infer_instance
  · infer_instance

variable {config : P → LeaseConfig} {world : World P} {p : P}

@[simp] theorem setProcess_nowUnixMs (process : Process) :
    (world.setProcess p process).nowUnixMs = world.nowUnixMs := rfl

@[simp] theorem setProcess_store (process : Process) :
    (world.setProcess p process).store = world.store := rfl

@[simp] theorem setProcess_process_self (process : Process) :
    (world.setProcess p process).process p = process := by
  simp [World.setProcess]

theorem setProcess_process_other {q : P} (process : Process) (hother : q ≠ p) :
    (world.setProcess p process).process q = world.process q := by
  simp [World.setProcess, hother]

theorem inv_initial (hinitial : (machine config).initial world) : Inv config world := by
  obtain ⟨_, hprocess⟩ := hinitial
  constructor
  · intro p
    rw [hprocess p]
    constructor <;> simp [Call.startedAt, Process.Claims]
  all_goals intro p; rw [hprocess p]; simp [Process.Knows, Process.Claims]

/-- A step of one process that leaves the store alone and gives the process no version and no
claim it did not have keeps the invariant. -/
theorem Inv.setProcess (hinv : Inv config world) {process : Process}
    (htimely : process.Timely (config p).ttl world.nowUnixMs)
    (hknows : ∀ version, process.Knows version → (world.process p).Knows version)
    (hclaims : ∀ expires, process.Claims expires → (world.process p).Claims expires)
    (htakeover : ∀ now version, process.call = .takeover now version →
      version < world.store.nextVersion ∧
        ∀ doc, world.store.stored = some (doc, version) → doc.expiresAtUnixMs ≤ now) :
    Inv config (world.setProcess p process) := by
  have hknown : ∀ q version, ((world.setProcess p process).process q).Knows version →
      (world.process q).Knows version := by
    intro q version hq
    by_cases hqp : q = p
    · subst hqp
      exact hknows version (by simpa using hq)
    · rwa [setProcess_process_other process hqp] at hq
  constructor
  · intro q
    by_cases hqp : q = p
    · subst hqp
      simpa using htimely
    · rw [setProcess_process_other process hqp]
      exact hinv.timely q
  · intro q version hq
    exact hinv.known_lt q version (hknown q version hq)
  · intro q expires hq hlive
    have hclaim : (world.process q).Claims expires := by
      by_cases hqp : q = p
      · subst hqp
        exact hclaims expires (by simpa using hq)
      · rwa [setProcess_process_other process hqp] at hq
    obtain ⟨doc, version, hstored, howner, hexpires, honly⟩ := hinv.backed q expires hclaim hlive
    exact ⟨doc, version, hstored, howner, hexpires,
      fun r hr => honly r (hknown r version hr)⟩
  · intro q now version hq
    by_cases hqp : q = p
    · subst hqp
      exact htakeover now version (by simpa using hq)
    · rw [setProcess_process_other process hqp] at hq
      exact hinv.takeover q now version hq

variable {call : Call}

/-- A process that keeps its memory and moves to a call with the same start, or ends its call,
stays timely. -/
theorem Process.Timely.goto {ttl : Nat} {now : Int} {self : Process}
    (htimely : self.Timely ttl now)
    (hstart : call.startedAt = self.call.startedAt ∨ call.startedAt = none)
    (hcall : ∀ version expires, call ≠ .acquired version expires) :
    Process.Timely ttl now { self with call := call } := by
  have hclaimed : ∀ expires, Process.Claims { self with call := call } expires →
      expires ≤ self.call.startedAt.getD now + ttl := by
    intro expires hclaim
    rcases hclaim with hheld | ⟨version, hacquired⟩
    · exact htimely.claimed expires (.inl hheld)
    · exact absurd hacquired (hcall version expires)
  rcases hstart with hsame | hnone
  · constructor
    · intro start hs
      exact htimely.started start (by rw [← hsame]; exact hs)
    · intro expires hclaim
      rw [hsame]
      exact hclaimed expires hclaim
  · constructor
    · intro start hs
      simp [hnone] at hs
    · intro expires hclaim
      have hle := hclaimed expires hclaim
      simp only [hnone, getD_none]
      cases hself : self.call.startedAt with
      | none => simpa [hself] using hle
      | some start =>
        have hpast := htimely.started start hself
        simp only [hself, getD_some] at hle
        omega

/-- A conditional write goes through while no other process has a live claim. -/
theorem Inv.write (hinv : Inv config world) {start : Int}
    (hstart : (world.process p).call.startedAt = some start)
    (hfree : ∀ q expires, q ≠ p → (world.process q).Claims expires →
      expires ≤ world.nowUnixMs) :
    Inv config { world.setProcess p { world.process p with
      call := .acquired world.store.nextVersion ((config p).newDoc start).expiresAtUnixMs } with
      store := world.store.write ((config p).newDoc start) } := by
  set self := world.process p with hself
  set written : Process := { self with
    call := .acquired world.store.nextVersion ((config p).newDoc start).expiresAtUnixMs }
    with hwritten
  have hpast : start ≤ world.nowUnixMs := (hinv.timely p).started start hstart
  have hbound : ∀ expires, written.Claims expires → expires ≤ start + (config p).ttl := by
    intro expires hclaim
    rcases hclaim with hheld | ⟨version, hacquired⟩
    · have hle := (hinv.timely p).claimed expires (.inl hheld)
      simpa [← hself, hstart] using hle
    · simp only [hwritten, Call.acquired.injEq, LeaseConfig.newDoc] at hacquired
      omega
  have hknown : ∀ q version, ((world.setProcess p written).process q).Knows version →
      (q = p ∧ version = world.store.nextVersion) ∨ version < world.store.nextVersion := by
    intro q version hq
    by_cases hqp : q = p
    · subst hqp
      rw [setProcess_process_self] at hq
      rcases hq with hheld | ⟨now, hrefresh⟩ | ⟨expires, hacquired⟩
      · exact .inr (hinv.known_lt q version (.inl hheld))
      · simp [hwritten] at hrefresh
      · simp only [hwritten, Call.acquired.injEq] at hacquired
        exact .inl ⟨rfl, hacquired.1.symm⟩
    · rw [setProcess_process_other written hqp] at hq
      exact .inr (hinv.known_lt q version hq)
  constructor
  · intro q
    by_cases hqp : q = p
    · subst hqp
      simp only [setProcess_process_self, setProcess_nowUnixMs]
      constructor
      · simp [hwritten, Call.startedAt]
      · intro expires hclaim
        have hle := hbound expires hclaim
        simp only [hwritten, Call.startedAt, getD_none]
        omega
    · simp only [setProcess_process_other written hqp, setProcess_nowUnixMs]
      exact hinv.timely q
  · intro q version hq
    rcases hknown q version hq with ⟨_, hnext⟩ | hlt
    · simp [hnext]
    · exact Nat.lt_succ_of_lt hlt
  · intro q expires hq hlive
    simp only [setProcess_nowUnixMs] at hlive
    by_cases hqp : q = p
    · subst hqp
      have hle := hbound expires (by simpa using hq)
      refine ⟨_, _, rfl, rfl, hle, ?_⟩
      intro r hr
      rcases hknown r _ hr with ⟨hrq, _⟩ | hlt
      · exact hrq
      · exact absurd hlt (lt_irrefl _)
    · simp only [setProcess_process_other written hqp] at hq
      have hle := hfree q expires hqp hq
      omega
  · intro q now version hq
    by_cases hqp : q = p
    · subst hqp
      simp [hwritten] at hq
    · simp only [setProcess_process_other written hqp] at hq
      have hlt := (hinv.takeover q now version hq).1
      refine ⟨Nat.lt_succ_of_lt hlt, ?_⟩
      intro doc hstored
      simp only [VersionedCell.write_stored, some.injEq, Prod.mk.injEq] at hstored
      omega

section

omit [DecidableEq P]

/-- A delete while no process has a live claim keeps the invariant. -/
theorem Inv.delete (hinv : Inv config world)
    (hfree : ∀ q expires, (world.process q).Claims expires → expires ≤ world.nowUnixMs) :
    Inv config { world with store := world.store.delete } where
  timely := hinv.timely
  known_lt := hinv.known_lt
  backed q expires hq hlive := absurd (hfree q expires hq) (not_le.mpr hlive)
  takeover q now version hq := ⟨(hinv.takeover q now version hq).1, by simp⟩

theorem Inv.clock (hinv : Inv config world) {now : Int} (hnow : world.nowUnixMs ≤ now) :
    Inv config { world with nowUnixMs := now } where
  timely q := by
    constructor
    · intro start hstart
      exact ((hinv.timely q).started start hstart).trans hnow
    · intro expires hclaim
      have hle := (hinv.timely q).claimed expires hclaim
      cases hcall : (world.process q).call.startedAt with
      | none => simp only [hcall, getD_none] at hle ⊢; omega
      | some start => simpa [hcall] using hle
  known_lt := hinv.known_lt
  backed q expires hq hlive := hinv.backed q expires hq (lt_of_le_of_lt hnow hlive)
  takeover := hinv.takeover

/-- While the stored document is absent or expired, no process has a live claim. -/
theorem Inv.no_live_claim (hinv : Inv config world)
    (hexpired : NotLive world.store world.nowUnixMs)
    (q : P) (expires : Int) (hclaim : (world.process q).Claims expires) :
    expires ≤ world.nowUnixMs := by
  by_contra hlive
  obtain ⟨doc, version, hstored, _, hle, _⟩ := hinv.backed q expires hclaim (not_le.mp hlive)
  have hpast : doc.expiresAtUnixMs ≤ world.nowUnixMs := hexpired (doc, version) hstored
  omega

end

/-- Moving to a call that holds no version of the process's own. -/
theorem Inv.goto (hinv : Inv config world)
    (hstart : call.startedAt = (world.process p).call.startedAt ∨ call.startedAt = none)
    (hacquired : ∀ version expires, call ≠ .acquired version expires)
    (hrefresh : ∀ now version, call ≠ .refresh now version)
    (htakeover : ∀ now version, call = .takeover now version →
      version < world.store.nextVersion ∧
        ∀ doc, world.store.stored = some (doc, version) → doc.expiresAtUnixMs ≤ now) :
    Inv config (world.setProcess p { world.process p with call := call }) := by
  refine hinv.setProcess ((hinv.timely p).goto hstart hacquired) ?_ ?_ htakeover
  · intro version hknows
    rcases hknows with hheld | ⟨now, hcall⟩ | ⟨expires, hcall⟩
    · exact .inl hheld
    · exact absurd hcall (hrefresh now version)
    · exact absurd hcall (hacquired version expires)
  · intro expires hclaims
    rcases hclaims with hheld | ⟨version, hcall⟩
    · exact .inl hheld
    · exact absurd hcall (hacquired version expires)

omit [DecidableEq P] in
/-- A conditional update by a process that knows the version leaves no other live claim. -/
theorem Inv.only_claim (hinv : Inv config world) {version : Nat} {old : LeaseDoc}
    (hstored : world.store.stored = some (old, version))
    (hknows : (world.process p).Knows version) (q : P) (expires : Int) (hother : q ≠ p)
    (hclaim : (world.process q).Claims expires) : expires ≤ world.nowUnixMs := by
  by_contra hlive
  obtain ⟨doc, current, hcurrent, _, _, honly⟩ :=
    hinv.backed q expires hclaim (not_le.mp hlive)
  have hsame : current = version := by
    rw [hstored] at hcurrent
    simp only [some.injEq, Prod.mk.injEq] at hcurrent
    exact hcurrent.2.symm
  exact hother (honly p (hsame ▸ hknows)).symm

variable {next : World P}

theorem inv_proceed (hinv : Inv config world)
    (hsound : Sound world (.proceed p)) (hnext : proceed (config p) world p = some next) :
    Inv config next := by
  have hpast : ∀ start, (world.process p).call.startedAt = some start →
      start ≤ world.nowUnixMs := (hinv.timely p).started
  -- the calls that hold nothing: the process gives up, or goes on to a delete
  have hquit : ∀ call ∈ [Call.idle, .refused, .releaseDelete],
      Inv config (world.setProcess p { world.process p with call := call }) := by
    intro call hcall
    simp only [List.mem_cons, List.not_mem_nil, or_false] at hcall
    rcases hcall with rfl | rfl | rfl
    all_goals exact hinv.goto (by simp [Call.startedAt]) (by simp) (by simp) (by simp)
  unfold proceed at hnext
  cases hcall : (world.process p).call with
  | idle => simp [hcall] at hnext
  | create now =>
    simp only [hcall] at hnext
    cases hcreate : world.store.create ((config p).newDoc now) with
    | none =>
      simp only [hcreate, some.injEq] at hnext
      subst hnext
      exact hinv.goto (by simp [hcall, Call.startedAt]) (by simp) (by simp) (by simp)
    | some written =>
      obtain ⟨habsent, rfl⟩ := VersionedCell.create_eq_some.mp hcreate
      simp only [hcreate, some.injEq] at hnext
      subst hnext
      refine hinv.write (by simp [hcall, Call.startedAt]) ?_
      intro q expires _ hclaim
      exact hinv.no_live_claim (by simp [NotLive, habsent]) q expires hclaim
  | get now =>
    simp only [hcall] at hnext
    cases hstored : world.store.stored with
    | none =>
      simp only [hstored, some.injEq] at hnext
      subst hnext
      exact hquit _ (by simp)
    | some existing =>
      simp only [hstored] at hnext
      split at hnext <;> simp only [some.injEq] at hnext <;> subst hnext
      · exact hquit _ (by simp)
      · exact hinv.goto (by simp [hcall, Call.startedAt]) (by simp) (by simp) (by simp)
  | head now =>
    simp only [hcall] at hnext
    simp only [Sound, hcall] at hsound
    cases hstored : world.store.stored with
    | none =>
      simp only [hstored, some.injEq] at hnext
      subst hnext
      exact hquit _ (by simp)
    | some existing =>
      simp only [hstored, some.injEq] at hnext
      subst hnext
      refine hinv.goto (by simp [hcall, Call.startedAt]) (by simp) (by simp) ?_
      intro started current htakeover
      obtain ⟨rfl, rfl⟩ := htakeover
      exact ⟨world.store.version_lt _ _ hstored, fun doc hdoc => hsound _ hdoc⟩
  | takeover now version =>
    simp only [hcall] at hnext
    cases hupdate : world.store.update ((config p).newDoc now) version with
    | none =>
      simp only [hupdate, some.injEq] at hnext
      subst hnext
      exact hquit _ (by simp)
    | some written =>
      obtain ⟨⟨old, hstored⟩, rfl⟩ := VersionedCell.update_eq_some.mp hupdate
      simp only [hupdate, some.injEq] at hnext
      subst hnext
      refine hinv.write (by simp [hcall, Call.startedAt]) ?_
      intro q expires _ hclaim
      refine hinv.no_live_claim ?_ q expires hclaim
      intro existing hexisting
      obtain rfl : (old, version) = existing := by
        simpa [hstored] using hexisting
      have hexpired := (hinv.takeover p now version hcall).2 old hstored
      exact hexpired.trans (hpast now (by simp [hcall, Call.startedAt]))
  | refresh now version =>
    simp only [hcall] at hnext
    cases hupdate : world.store.update ((config p).newDoc now) version with
    | none =>
      simp only [hupdate, some.injEq] at hnext
      subst hnext
      exact hquit _ (by simp)
    | some written =>
      obtain ⟨⟨old, hstored⟩, rfl⟩ := VersionedCell.update_eq_some.mp hupdate
      simp only [hupdate, some.injEq] at hnext
      subst hnext
      refine hinv.write (by simp [hcall, Call.startedAt]) ?_
      exact hinv.only_claim hstored (.inr (.inl ⟨now, hcall⟩))
  | acquired version expires =>
    simp only [hcall, some.injEq] at hnext
    subst hnext
    have hbound := (hinv.timely p).claimed expires (.inr ⟨version, hcall⟩)
    simp only [hcall, Call.startedAt, getD_none] at hbound
    refine hinv.setProcess ⟨by simp [Call.startedAt], ?_⟩ ?_ ?_ (by simp)
    · simpa [Process.Claims, Inner.recordAcquired, Call.startedAt] using hbound
    · simp [Process.Knows, Inner.recordAcquired, hcall]
    · simp [Process.Claims, Inner.recordAcquired, hcall]
  | refused =>
    simp only [hcall, some.injEq] at hnext
    subst hnext
    refine hinv.setProcess ⟨by simp [Call.startedAt], ?_⟩ ?_ ?_ (by simp)
    all_goals simp [Process.Claims, Process.Knows]
  | releaseHead version =>
    simp only [hcall] at hnext
    cases hstored : world.store.stored with
    | none =>
      simp only [hstored, some.injEq] at hnext
      subst hnext
      exact hquit _ (by simp)
    | some existing =>
      simp only [hstored] at hnext
      split at hnext <;> simp only [some.injEq] at hnext <;> subst hnext
      all_goals exact hquit _ (by simp)
  | releaseDelete =>
    simp only [hcall, some.injEq] at hnext
    subst hnext
    simp only [Sound, hcall] at hsound
    have hidle := hquit .idle (by simp)
    exact hidle.delete (hidle.no_live_claim hsound)

theorem inv_start (hinv : Inv config world)
    (hstart : call.startedAt = some world.nowUnixMs ∨ call.startedAt = none)
    (hacquired : ∀ version expires, call ≠ .acquired version expires)
    (hrefresh : ∀ now version, call = .refresh now version →
      (world.process p).inner.heldVersion = some version)
    (htakeover : ∀ now version, call ≠ .takeover now version)
    (hnext : start world p call = some next) : Inv config next := by
  simp only [start] at hnext
  split at hnext
  case isFalse => simp at hnext
  case isTrue hidle =>
    simp only [some.injEq] at hnext
    subst hnext
    have hclaims : ∀ expires, Process.Claims { world.process p with call := call } expires →
        (world.process p).Claims expires := by
      intro expires hclaim
      rcases hclaim with hheld | ⟨version, hcall⟩
      · exact .inl hheld
      · exact absurd hcall (hacquired version expires)
    refine hinv.setProcess ⟨?_, ?_⟩ ?_ hclaims ?_
    · intro begun hbegun
      rcases hstart with hnow | hnone
      · simp only [hnow, some.injEq] at hbegun
        omega
      · simp [hnone] at hbegun
    · intro expires hclaim
      have hbound := (hinv.timely p).claimed expires (hclaims expires hclaim)
      simp only [hidle, Call.startedAt, getD_none] at hbound
      rcases hstart with hnow | hnone
      · simpa [hnow] using hbound
      · simpa [hnone] using hbound
    · intro version hknows
      rcases hknows with hheld | ⟨now, hcall⟩ | ⟨expires, hcall⟩
      · exact .inl hheld
      · exact .inl (hrefresh now version hcall)
      · exact absurd hcall (hacquired version expires)
    · intro now version hcall
      exact absurd hcall (htakeover now version)

theorem inv_fail (hinv : Inv config world) (p : P) : Inv config (fail world p) := by
  simp only [fail]
  split
  all_goals exact hinv.goto (by simp [Call.startedAt]) (by simp) (by simp) (by simp)

theorem inv_step (hinv : Inv config world) {action : Action P}
    (hsound : Sound world action) (hnext : step config world action = some next) :
    Inv config next := by
  cases action with
  | clock now =>
    simp only [step] at hnext
    split at hnext
    case isFalse => simp at hnext
    case isTrue hnow =>
      simp only [some.injEq] at hnext
      exact hnext ▸ hinv.clock hnow
  | tryAcquire p =>
    exact inv_start hinv (.inl rfl) (by simp) (by simp) (by simp) hnext
  | refresh p =>
    simp only [step] at hnext
    cases hheld : (world.process p).inner.heldVersion with
    | none =>
      simp only [hheld, some.injEq] at hnext
      exact hnext ▸ hinv
    | some version =>
      simp only [hheld] at hnext
      refine inv_start hinv (.inl rfl) (by simp) ?_ (by simp) hnext
      intro now current hcall
      simp only [Call.refresh.injEq] at hcall
      rw [hheld, hcall.2]
  | release p =>
    simp only [step] at hnext
    cases hheld : (world.process p).inner.heldVersion with
    | none =>
      simp only [hheld, some.injEq] at hnext
      exact hnext ▸ hinv
    | some version =>
      simp only [hheld] at hnext
      exact inv_start hinv (.inr rfl) (by simp) (by simp) (by simp) hnext
  | proceed p => exact inv_proceed hinv hsound hnext
  | fail p =>
    simp only [step, some.injEq] at hnext
    exact hnext ▸ inv_fail hinv p

theorem inv_reachable (hreachable : (machine config).Reachable Sound world) :
    Inv config world :=
  hreachable.invariant (fun _ => inv_initial) fun _ _ _ hinv hsound hnext =>
    inv_step hinv hsound hnext

omit [DecidableEq P] in
theorem claims_of_isLeader (hleader : world.isLeader p = true) :
    (world.process p).Claims (world.process p).inner.expiresAtUnixMs ∧
      world.nowUnixMs < (world.process p).inner.expiresAtUnixMs := by
  simp only [World.isLeader, Inner.isLeader, Bool.and_eq_true, decide_eq_true_eq] at hleader
  exact ⟨.inl ⟨hleader.1, rfl⟩, hleader.2⟩

/-- Lease mutual exclusion along runs whose takeovers and releases are sound. -/
theorem isLeader_exclusive (config : P → LeaseConfig) (world : World P)
    (hreachable : (machine config).Reachable Sound world) (p q : P)
    (howner : (config p).owner ≠ (config q).owner) :
    ¬(world.isLeader p = true ∧ world.isLeader q = true) := by
  rintro ⟨hp, hq⟩
  have hinv := inv_reachable hreachable
  obtain ⟨hpclaim, hplive⟩ := claims_of_isLeader hp
  obtain ⟨hqclaim, hqlive⟩ := claims_of_isLeader hq
  obtain ⟨doc, version, hstored, hpowner, _⟩ := hinv.backed p _ hpclaim hplive
  obtain ⟨doc', version', hstored', hqowner, _⟩ := hinv.backed q _ hqclaim hqlive
  obtain ⟨rfl, -⟩ : doc = doc' ∧ version = version' := by
    simpa [hstored] using hstored'
  exact howner (hpowner.symm.trans hqowner)

/-- Two compactor processes on different nodes with a lease lifetime of one minute. -/
def twoNodes (p : Bool) : LeaseConfig where
  owner := if p then "node-a" else "node-b"
  ttl := 60000

/-- No lease document, no holder, and the clock at one second. -/
def noHolder : World Bool where
  nowUnixMs := 1000
  store := .empty
  process _ := {}

theorem noHolder_reachable {allowed : World Bool → Action Bool → Prop} :
    (machine twoNodes).Reachable allowed noHolder :=
  .initial ⟨rfl, fun _ => rfl⟩

/-- One process acquires the lease, and the other takes it over once it has expired. -/
def takeover : List (Action Bool) :=
  [.tryAcquire true, .proceed true, .proceed true, .clock 61000, .tryAcquire false,
    .proceed false, .proceed false, .proceed false, .proceed false, .proceed false]

/-- A takeover of an expired lease is a sound run, and excludes the old holder. -/
theorem isLeader_exclusive_takeover :
    ∃ world : World Bool, (machine twoNodes).Reachable Sound world ∧
      world.isLeader false = true ∧
      ¬(world.isLeader true = true ∧ world.isLeader false = true) := by
  refine noHolder_reachable.exists_of_exec_and takeover _ (by decide) (by decide) ?_
  intro world hreachable
  exact isLeader_exclusive twoNodes world hreachable true false (by decide)

/-- `release` deletes the document and leaves `held_version` in place: the old holder still
takes itself for the leader when the next process has created the lease. -/
theorem released_lease_two_leaders :
    ∃ world : World Bool, (machine twoNodes).Reachable Machine.Unrestricted world ∧
      (twoNodes true).owner ≠ (twoNodes false).owner ∧
      world.isLeader true = true ∧ world.isLeader false = true := by
  obtain ⟨world, hreachable, hleaders⟩ := noHolder_reachable.exists_of_run
    [.tryAcquire true, .proceed true, .proceed true, .release true, .proceed true,
      .proceed true, .clock 2000, .tryAcquire false, .proceed false, .proceed false]
    (fun world => world.isLeader true = true ∧ world.isLeader false = true) (by decide)
  exact ⟨world, hreachable, by decide, hleaders⟩

/-- Who takes itself for leader is on record, for at most one lifetime from now. -/
theorem leader_on_record (hreachable : (machine config).Reachable Sound world)
    (hleader : world.isLeader p = true) :
    Backs config world p (world.process p).inner.expiresAtUnixMs ∧
      (world.process p).inner.expiresAtUnixMs ≤ world.nowUnixMs + (config p).ttl := by
  have hinv := inv_reachable hreachable
  obtain ⟨hclaim, hlive⟩ := claims_of_isLeader hleader
  refine ⟨hinv.backed p _ hclaim hlive, ?_⟩
  have hbound := (hinv.timely p).claimed _ hclaim
  have hpast := (hinv.timely p).started
  cases hstart : (world.process p).call.startedAt <;> grind

theorem leader_on_record_takeover :
    ∃ world : World Bool, (machine twoNodes).Reachable Sound world ∧ world.isLeader false = true ∧
      Backs twoNodes world false (world.process false).inner.expiresAtUnixMs ∧
      (world.process false).inner.expiresAtUnixMs ≤ world.nowUnixMs + (twoNodes false).ttl := by
  obtain ⟨world, hreachable, hleader, hrecord⟩ := noHolder_reachable.exists_of_exec_and
    takeover (·.isLeader false = true) (by decide) (by decide)
    fun _ h => leader_on_record (p := false) h
  exact ⟨world, hreachable, hleader, hrecord hleader⟩

end RefluxDb.Write.Leases
