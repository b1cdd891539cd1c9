import Mathlib.Algebra.Order.Ring.Int
import RefluxDb.Library.Machine

/-! Compaction claims: one object for each table and pair of generations, which a compactor
creates before it runs the jobs of a group and deletes when the group ends.

`acquire_claim` is cut at its store requests, and the delete of a dropped `ClaimGuard` is a step of
its own, so that requests of any number of processes fall in between. All processes read one clock
that never goes back. An attempt may end at any point, by an error of a request or because its
process dies, also after a request that took effect. The store has atomic creation, so the fallback
for stores without it is left out, and so are the jobs themselves and the metrics. -/

namespace RefluxDb.Write.CompactionClaims

open Option RefluxDb.Library

/-- What the jobs of one group share. -/
structure ClaimKey where
  databaseId : Nat
  tableId : Nat
  sourceGeneration : Nat
  targetGeneration : Nat
deriving DecidableEq

def claimPath (key : ClaimKey) : String :=
  "_compactor/claims/" ++ toString key.databaseId ++ "-" ++ toString key.tableId ++ "-gen" ++
    toString key.sourceGeneration ++ "-to-gen" ++ toString key.targetGeneration ++ ".claim"

structure ClaimBody where
  acquiredAtUnixMs : Int
deriving DecidableEq

/-- A stored claim. Its writer is known to the model only: the object holds its body. -/
structure Claim where
  body : ClaimBody
  writer : Nat
deriving DecidableEq

/-- Where one run of `execute_claim_group` is; the numbers are the turns its loop has left. -/
inductive Phase where
  | creating (turnsLeft : Nat)
  | inspecting (turnsLeft : Nat)
  | overwriting
  | holding
  | released
  | ended
deriving DecidableEq

/-- One run of `execute_claim_group`. -/
structure Attempt where
  process : Nat
  path : String
  nowMs : Int
  phase : Phase
deriving DecidableEq

structure World where
  clockMs : Int
  started : Nat
  attempts : Nat → Option Attempt
  claims : String → Option Claim

namespace World

def goto (world : World) (n : Nat) (attempt : Attempt) (phase : Phase) : World :=
  { world with attempts := Function.update world.attempts n (some { attempt with phase := phase }) }

/-- Writes the claim of an attempt, whatever is at its path. -/
def putClaim (world : World) (n : Nat) (attempt : Attempt) : World :=
  { world with claims := Function.update world.claims attempt.path (some ⟨⟨attempt.nowMs⟩, n⟩) }

/-- `acquire_claim` is called: it reads the clock and takes two turns at most. -/
def startAttempt (world : World) (process : Nat) (path : String) : World :=
  { world with
    started := world.started + 1
    attempts := Function.update world.attempts world.started
      (some ⟨process, path, world.clockMs, .creating 2⟩) }

def deleteClaim (world : World) (path : String) : World :=
  { world with claims := Function.update world.claims path none }

end World

inductive Action where
  | clock (nowMs : Int)
  | start (process : Nat) (key : ClaimKey)
  | create (n : Nat)
  | get (n : Nat)
  | overwrite (n : Nat)
  | finish (n : Nat)
  | delete (n : Nat)
  | crash (n : Nat)
deriving DecidableEq

def proceed (ttlMs : Nat) (world : World) (n : Nat) (attempt : Attempt) :
    Action → Option World
  | .create _ =>
    match attempt.phase with
    | .creating (turnsLeft + 1) =>
      match world.claims attempt.path with
      | none => some ((world.putClaim n attempt).goto n attempt .holding)
      | some _ => some (world.goto n attempt (.inspecting turnsLeft))
    | _ => none
  | .get _ =>
    match attempt.phase with
    | .inspecting turnsLeft =>
      match world.claims attempt.path with
      -- Released in between: the loop takes its next turn, or the claim counts as held.
      | none => some (world.goto n attempt
          (if turnsLeft = 0 then .ended else .creating turnsLeft))
      | some existing =>
        let ageMs := max (attempt.nowMs - existing.body.acquiredAtUnixMs) 0
        some (world.goto n attempt (if ageMs < ttlMs then .ended else .overwriting))
    | _ => none
  | .overwrite _ =>
    if attempt.phase = .overwriting then
      some ((world.putClaim n attempt).goto n attempt .holding)
    else none
  | .finish _ =>
    if attempt.phase = .holding then some (world.goto n attempt .released) else none
  | .delete _ =>
    if attempt.phase = .released then
      some ((world.deleteClaim attempt.path).goto n attempt .ended)
    else none
  | .crash _ => some (world.goto n attempt .ended)
  | .clock _ | .start _ _ => none

def step (ttlMs : Nat) (world : World) (action : Action) : Option World :=
  match action with
  | .clock nowMs =>
    if world.clockMs ≤ nowMs then some { world with clockMs := nowMs } else none
  | .start process key => some (world.startAttempt process (claimPath key))
  | .create n | .get n | .overwrite n | .finish n | .delete n | .crash n =>
    (world.attempts n).bind fun attempt => proceed ttlMs world n attempt action

/-- No claims and no attempts at first. -/
def machine (ttlMs : Nat) : Machine World Action where
  initial world := world.started = 0 ∧ world.attempts = (fun _ => none) ∧
    world.claims = fun _ => none
  step := step ttlMs

/-- A claim acquired at the given time is at least the claim lifetime old. -/
def World.Old (ttlMs : Nat) (world : World) (acquiredAtMs : Int) : Prop :=
  ttlMs ≤ world.clockMs - acquiredAtMs
deriving Decidable

/-- Of two attempts that hold the claim at one path, one has held it for its lifetime. -/
def World.Exclusive (ttlMs : Nat) (world : World) : Prop :=
  ∀ n m first second, n ≠ m → world.attempts n = some first → world.attempts m = some second →
    first.path = second.path → first.phase = .holding → second.phase = .holding →
    world.Old ttlMs first.nowMs ∨ world.Old ttlMs second.nowMs

/-- The claim at a path may go: there is none, it is the attempt's own, or it is old. -/
def World.Replaceable (ttlMs : Nat) (world : World) (n : Nat) (path : String) : Prop :=
  ∀ claim ∈ world.claims path,
    claim.writer = n ∨ world.Old ttlMs claim.body.acquiredAtUnixMs

/-- Takeovers and releases hit no young claim of another attempt. -/
def ReplacesOwnOrOld (ttlMs : Nat) (world : World) : Action → Prop
  | .overwrite n | .delete n =>
    ∀ attempt ∈ world.attempts n, world.Replaceable ttlMs n attempt.path
  | _ => True

structure Inv (ttlMs : Nat) (world : World) : Prop where
  unstarted : ∀ n, world.started ≤ n → world.attempts n = none
  written : ∀ path claim, world.claims path = some claim →
    ∃ attempt, world.attempts claim.writer = some attempt ∧
      attempt.nowMs = claim.body.acquiredAtUnixMs
  backed : ∀ n attempt, world.attempts n = some attempt → attempt.phase = .holding →
    (∃ claim, world.claims attempt.path = some claim ∧ claim.writer = n) ∨
      world.Old ttlMs attempt.nowMs

section Steps

variable {ttlMs n : Nat} {world next : World} {attempt : Attempt} {action : Action}

/-- What one step of an attempt can do: move on without the claim, write its claim, or delete the
claim at its path. -/
theorem proceed_cases (hproceed : proceed ttlMs world n attempt action = some next) :
    (∃ phase, phase ≠ .holding ∧ next = world.goto n attempt phase) ∨
    ((world.claims attempt.path = none ∨ ∃ m, action = .overwrite m) ∧
      next = (world.putClaim n attempt).goto n attempt .holding) ∨
    (∃ m, action = .delete m) ∧
      next = (world.deleteClaim attempt.path).goto n attempt .ended := by
  cases action with
  | clock nowMs => exact nomatch hproceed
  | start process key => exact nomatch hproceed
  | create m =>
    simp only [proceed] at hproceed
    split at hproceed
    · split at hproceed
      · next hfree => exact .inr (.inl ⟨.inl hfree, (some_inj.mp hproceed).symm⟩)
      · exact .inl ⟨_, Phase.noConfusion, (some_inj.mp hproceed).symm⟩
    · exact nomatch hproceed
  | get m =>
    simp only [proceed] at hproceed
    split at hproceed
    · split at hproceed
      · refine .inl ⟨_, ?_, (some_inj.mp hproceed).symm⟩
        split <;> exact Phase.noConfusion
      · refine .inl ⟨_, ?_, (some_inj.mp hproceed).symm⟩
        split <;> exact Phase.noConfusion
    · exact nomatch hproceed
  | overwrite m =>
    simp only [proceed, ite_none_right_eq_some, some_inj] at hproceed
    exact .inr (.inl ⟨.inr ⟨m, rfl⟩, hproceed.2.symm⟩)
  | finish m =>
    simp only [proceed, ite_none_right_eq_some, some_inj] at hproceed
    exact .inl ⟨_, Phase.noConfusion, hproceed.2.symm⟩
  | delete m =>
    simp only [proceed, ite_none_right_eq_some, some_inj] at hproceed
    exact .inr (.inr ⟨⟨m, rfl⟩, hproceed.2.symm⟩)
  | crash m => exact .inl ⟨_, Phase.noConfusion, (some_inj.mp hproceed).symm⟩

end Steps

namespace Inv

variable {ttlMs n m : Nat} {world next : World} {attempt other : Attempt}

/-- Whoever else holds a claim that may go has held it for its lifetime. -/
theorem old_of_replaceable (hinv : Inv ttlMs world) {path : String}
    (hreplaceable : world.Replaceable ttlMs n path) (hother : world.attempts m = some other)
    (hholding : other.phase = .holding) (hpath : other.path = path) (hne : m ≠ n) :
    world.Old ttlMs other.nowMs := by
  rcases hinv.backed m other hother hholding with ⟨claim, hclaim, hwriter⟩ | hold
  · rw [hpath] at hclaim
    rcases hreplaceable claim hclaim with hown | hold
    · exact absurd (hwriter.symm.trans hown) hne
    · obtain ⟨writer, hattempt, htime⟩ := hinv.written path claim hclaim
      rw [hwriter, hother, some_inj] at hattempt
      rwa [hattempt, htime]
  · exact hold

/-- An attempt moves on and changes at most the claim at its path, which may go. -/
theorem move (hinv : Inv ttlMs world) (hattempt : world.attempts n = some attempt)
    {claims : String → Option Claim} {phase : Phase}
    (haway : ∀ path, path ≠ attempt.path → claims path = world.claims path)
    (hhere : claims attempt.path = world.claims attempt.path ∨
      world.Replaceable ttlMs n attempt.path ∧
        ∀ claim ∈ claims attempt.path, claim = ⟨⟨attempt.nowMs⟩, n⟩)
    (hholding : phase = .holding → claims attempt.path = some ⟨⟨attempt.nowMs⟩, n⟩) :
    Inv ttlMs { world.goto n attempt phase with claims := claims } := by
  have hself : (world.goto n attempt phase).attempts n = some { attempt with phase := phase } :=
    Function.update_self _ _ _
  have hothers : ∀ m, m ≠ n → (world.goto n attempt phase).attempts m = world.attempts m :=
    fun m hm => Function.update_of_ne hm _ _
  refine ⟨?_, ?_, ?_⟩
  · intro m hm
    have hne : m ≠ n := by
      rintro rfl
      rw [hinv.unstarted m hm] at hattempt
      exact nomatch hattempt
    exact (hothers m hne).trans (hinv.unstarted m hm)
  · -- The writers of claims keep the time they started at.
    have hkept : ∀ path claim, world.claims path = some claim →
        ∃ later, (world.goto n attempt phase).attempts claim.writer = some later ∧
          later.nowMs = claim.body.acquiredAtUnixMs := by
      intro path claim hclaim
      obtain ⟨writer, hwriter, htime⟩ := hinv.written path claim hclaim
      by_cases hn : claim.writer = n
      · rw [hn, hattempt, some_inj] at hwriter
        rw [hn]
        exact ⟨_, hself, hwriter ▸ htime⟩
      · exact ⟨writer, (hothers _ hn).trans hwriter, htime⟩
    intro path claim hclaim
    by_cases hpath : path = attempt.path
    · subst hpath
      rcases hhere with hsame | ⟨-, hown⟩
      · exact hkept _ claim (hsame.symm.trans hclaim)
      · rw [hown claim hclaim]
        exact ⟨_, hself, rfl⟩
    · exact hkept path claim ((haway path hpath).symm.trans hclaim)
  · intro m other hother hphase
    by_cases hm : m = n
    · subst hm
      have heq : { attempt with phase := phase } = other :=
        some_inj.mp (hself.symm.trans hother)
      subst heq
      exact .inl ⟨_, hholding hphase, rfl⟩
    · have hbefore : world.attempts m = some other := (hothers m hm).symm.trans hother
      by_cases hpath : other.path = attempt.path
      · rcases hhere with hsame | ⟨hreplaceable, -⟩
        · rcases hinv.backed m other hbefore hphase with ⟨claim, hclaim, hwriter⟩ | hold
          · refine .inl ⟨claim, ?_, hwriter⟩
            rw [hpath] at hclaim ⊢
            exact hsame.trans hclaim
          · exact .inr hold
        · exact .inr (hinv.old_of_replaceable hreplaceable hbefore hphase hpath hm)
      · rcases hinv.backed m other hbefore hphase with ⟨claim, hclaim, hwriter⟩ | hold
        · exact .inl ⟨claim, (haway _ hpath).trans hclaim, hwriter⟩
        · exact .inr hold

variable {action : Action}

section

variable (hinv : Inv ttlMs world)
include hinv

theorem proceed (hattempt : world.attempts n = some attempt)
    (hreplaceable : (∃ m, action = .overwrite m ∨ action = .delete m) →
      world.Replaceable ttlMs n attempt.path)
    (hproceed : CompactionClaims.proceed ttlMs world n attempt action = some next) :
    Inv ttlMs next := by
  rcases proceed_cases hproceed with
    ⟨phase, hphase, rfl⟩ | ⟨hfree, rfl⟩ | ⟨⟨m, haction⟩, rfl⟩
  · exact hinv.move hattempt (fun _ _ => rfl) (.inl rfl) fun hholding => absurd hholding hphase
  · have hmayGo : world.Replaceable ttlMs n attempt.path := by
      rcases hfree with hnone | ⟨m, haction⟩
      · intro claim hclaim
        rw [hnone] at hclaim
        exact nomatch hclaim
      · exact hreplaceable ⟨m, .inl haction⟩
    have hput : (world.putClaim n attempt).claims attempt.path = some ⟨⟨attempt.nowMs⟩, n⟩ :=
      Function.update_self _ _ _
    refine hinv.move hattempt (fun path hpath => Function.update_of_ne hpath _ _)
      (.inr ⟨hmayGo, fun claim hclaim => ?_⟩) fun _ => hput
    rw [hput] at hclaim
    exact (some_inj.mp hclaim).symm
  · have hdeleted : (world.deleteClaim attempt.path).claims attempt.path = none :=
      Function.update_self _ _ _
    refine hinv.move hattempt (fun path hpath => Function.update_of_ne hpath _ _)
      (.inr ⟨hreplaceable ⟨m, .inr haction⟩, fun claim hclaim => ?_⟩) Phase.noConfusion
    rw [hdeleted] at hclaim
    exact nomatch hclaim

theorem clock {nowMs : Int} (hlater : world.clockMs ≤ nowMs) :
    Inv ttlMs { world with clockMs := nowMs } := by
  refine ⟨hinv.unstarted, hinv.written, fun n attempt hattempt hphase => ?_⟩
  rcases hinv.backed n attempt hattempt hphase with hclaim | hold
  · exact .inl hclaim
  · right
    simp only [World.Old] at hold ⊢
    omega

theorem startAttempt (process : Nat) (path : String) :
    Inv ttlMs (world.startAttempt process path) := by
  have hself : (world.startAttempt process path).attempts world.started =
      some ⟨process, path, world.clockMs, .creating 2⟩ := Function.update_self _ _ _
  have hothers : ∀ n, n ≠ world.started →
      (world.startAttempt process path).attempts n = world.attempts n :=
    fun n hn => Function.update_of_ne hn _ _
  refine ⟨?_, ?_, ?_⟩
  · intro n hn
    have hlt : world.started < n := hn
    exact (hothers n (Nat.ne_of_gt hlt)).trans (hinv.unstarted n hlt.le)
  · intro path claim hclaim
    obtain ⟨writer, hwriter, htime⟩ := hinv.written path claim hclaim
    have hne : claim.writer ≠ world.started := by
      intro heq
      rw [heq, hinv.unstarted _ le_rfl] at hwriter
      exact nomatch hwriter
    exact ⟨writer, (hothers _ hne).trans hwriter, htime⟩
  · intro n attempt hattempt hphase
    by_cases hn : n = world.started
    · subst hn
      rw [hself, some_inj] at hattempt
      rw [← hattempt] at hphase
      exact nomatch hphase
    · exact hinv.backed n attempt ((hothers n hn).symm.trans hattempt) hphase

theorem step (hallowed : ReplacesOwnOrOld ttlMs world action)
    (hstep : (machine ttlMs).step world action = some next) : Inv ttlMs next := by
  -- Every action of an attempt is a step of it, and the condition speaks of two of them.
  have hattempts : ∀ n, (∀ attempt, world.attempts n = some attempt →
        (∃ m, action = .overwrite m ∨ action = .delete m) →
          world.Replaceable ttlMs n attempt.path) →
      ((world.attempts n).bind fun attempt =>
        CompactionClaims.proceed ttlMs world n attempt action) = some next → Inv ttlMs next := by
    intro n hreplaceable hbind
    obtain ⟨attempt, hattempt, hproceed⟩ := bind_eq_some_iff.mp hbind
    exact hinv.proceed hattempt (hreplaceable attempt hattempt) hproceed
  cases action with
  | clock nowMs =>
    simp only [machine, CompactionClaims.step, ite_none_right_eq_some,
      some_inj] at hstep
    exact hstep.2 ▸ hinv.clock hstep.1
  | start process key =>
    exact some_inj.mp hstep ▸ hinv.startAttempt process (claimPath key)
  | overwrite n => exact hattempts n (fun attempt hattempt _ => hallowed attempt hattempt) hstep
  | delete n => exact hattempts n (fun attempt hattempt _ => hallowed attempt hattempt) hstep
  | create n => exact hattempts n (by simp) hstep
  | get n => exact hattempts n (by simp) hstep
  | finish n => exact hattempts n (by simp) hstep
  | crash n => exact hattempts n (by simp) hstep

/-- Two young claims at one path are backed by the one object there. -/
theorem exclusive : world.Exclusive ttlMs := by
  intro n m first second hne hfirst hsecond hpath hfirstHolds hsecondHolds
  rcases hinv.backed n first hfirst hfirstHolds with ⟨claim, hclaim, hwriter⟩ | hold
  · rcases hinv.backed m second hsecond hsecondHolds with ⟨other, hother, hwriter'⟩ | hold
    · rw [hpath, hother, some_inj] at hclaim
      exact absurd (hwriter.symm.trans (hclaim ▸ hwriter')) hne
    · exact .inr hold
  · exact .inl hold

end

end Inv

/-- At no time do two attempts hold young claims at one path, in every run whose takeovers and
releases hit no young claim of another attempt. -/
theorem exclusive_of_replacesOwnOrOld {ttlMs : Nat} {world : World}
    (hreachable : (machine ttlMs).Reachable (ReplacesOwnOrOld ttlMs) world) :
    world.Exclusive ttlMs := by
  refine Inv.exclusive ?_
  induction hreachable with
  | initial hinitial =>
    obtain ⟨-, hattempts, hclaims⟩ := hinitial
    exact ⟨by simp [hattempts], by simp [hclaims], by simp [hattempts]⟩
  | step _ hallowed hstep ih => exact ih.step hallowed hstep

def emptyWorld : World := ⟨0, 0, fun _ => none, fun _ => none⟩

theorem emptyWorld_reachable (ttlMs : Nat) (allowed : World → Action → Prop) :
    (machine ttlMs).Reachable allowed emptyWorld :=
  .initial ⟨rfl, rfl, rfl⟩

instance (ttlMs : Nat) (world : World) : ∀ action,
    Decidable (ReplacesOwnOrOld ttlMs world action)
  | .overwrite n | .delete n =>
    inferInstanceAs (Decidable (∀ attempt ∈ world.attempts n,
      ∀ claim ∈ world.claims attempt.path,
        claim.writer = n ∨ world.Old ttlMs claim.body.acquiredAtUnixMs))
  | .clock _ | .start _ _ | .create _ | .get _ | .finish _ | .crash _ => .isTrue trivial

/-- Two processes take over in turn: the first one dies, the second one lets go of its claim. -/
theorem exclusive_of_replacesOwnOrOld_takeover : ∃ world,
    (machine 60000).Reachable (ReplacesOwnOrOld 60000) world ∧
      (world.attempts 2).map (·.phase) = some .holding ∧ world.Exclusive 60000 := by
  refine (emptyWorld_reachable _ _).exists_of_exec_and
    [.start 1 ⟨1, 2, 1, 2⟩, .create 0, .crash 0, .clock 60000, .start 2 ⟨1, 2, 1, 2⟩, .create 1,
      .get 1, .overwrite 1, .finish 1, .start 3 ⟨1, 2, 1, 2⟩, .create 2, .delete 1, .get 2,
      .create 2]
    _ (by decide) (by decide) ?_
  exact fun _ => exclusive_of_replacesOwnOrOld

/-- The delete of a slow holder removes the claim of the process that took over, and a third one
creates its own. -/
theorem two_young_holders : ∃ world,
    (machine 60000).Reachable Machine.Unrestricted world ∧ ¬world.Exclusive 60000 := by
  obtain ⟨world, hreachable, hclock, hfirst, hsecond⟩ :=
    (emptyWorld_reachable 60000 Machine.Unrestricted).exists_of_run
      [.start 1 ⟨1, 2, 1, 2⟩, .create 0, .clock 60000, .start 2 ⟨1, 2, 1, 2⟩, .create 1, .get 1,
        .overwrite 1, .finish 0, .delete 0, .start 3 ⟨1, 2, 1, 2⟩, .create 2]
      (fun world => world.clockMs = 60000 ∧
        world.attempts 1 = some ⟨2, claimPath ⟨1, 2, 1, 2⟩, 60000, .holding⟩ ∧
        world.attempts 2 = some ⟨3, claimPath ⟨1, 2, 1, 2⟩, 60000, .holding⟩)
      (by decide)
  refine ⟨world, hreachable, fun hexclusive => ?_⟩
  have hold := hexclusive 1 2 _ _ (by decide) hfirst hsecond rfl rfl rfl
  simp [World.Old, hclock] at hold

end RefluxDb.Write.CompactionClaims
