import RefluxDb.Library.Machine
import RefluxDb.Write.SharedInventory

/-! The inventory poller, and what its cursors stand for.

A tick lists and fetches the writers' manifests above the cursor of each node, then the
compactions above the compaction cursor, folds the first and then the second one by one, each
fold moving its cursor, and at last drops the tombstones the cursors have passed. Other nodes
publish between any two of these steps. The refresh of the catalog and the eviction of the WAL
tail are not modelled. -/

namespace RefluxDb.Write

open Option RefluxDb.Library

inductive PollerPhase where
  | idle
  | walLoaded
  | folding
deriving DecidableEq

/-- A node's view and the cursors of its poller. `newWal` and `newCompactions` are what the
running tick has still to fold; `folded` is the history of what was folded, which no step
reads. -/
structure Poller where
  inner : Inner := {}
  walCursors : String → Nat := fun _ => 0
  compactionCursor : Option String := none
  phase : PollerPhase := .idle
  newWal : List PersistedSnapshot := []
  newCompactions : List (String × PersistedSnapshot) := []
  folded : List Manifest := []

/-- The position of a poller in the two streams. -/
structure InventoryWatermarks where
  wal : String → Nat := fun _ => 0
  compaction : Option String := none

inductive PollerAction where
  | loadWal (listing : List PersistedSnapshot) (unreadable : List (String × Nat))
  | loadCompactions (listing : List (String × PersistedSnapshot)) (unreadable : List String)
  | fail
  | fold
  | gc

namespace InventoryWatermarks

def Passed (marks : InventoryWatermarks) : Manifest → Prop
  | .wal s => walFeed.passed marks.wal s
  | .compaction id s => compactionFeed.passed marks.compaction (id, s)

def Le (marks marks' : InventoryWatermarks) : Prop :=
  (∀ nodeId, marks.wal nodeId ≤ marks'.wal nodeId) ∧
    ∀ id ∈ marks.compaction, ∃ id' ∈ marks'.compaction, id ≤ id'

variable {marks marks' marks'' : InventoryWatermarks} {m : Manifest} {gc : TombstoneGc}

theorem Le.refl (marks : InventoryWatermarks) : marks.Le marks :=
  ⟨fun _ => le_refl _, fun id hid => ⟨id, hid, le_refl _⟩⟩

theorem Le.trans (hle : marks.Le marks') (hle' : marks'.Le marks'') : marks.Le marks'' := by
  refine ⟨fun nodeId => (hle.1 nodeId).trans (hle'.1 nodeId), fun id hid => ?_⟩
  obtain ⟨id', hid', hidle⟩ := hle.2 id hid
  obtain ⟨id'', hid'', hidle'⟩ := hle'.2 id' hid'
  exact ⟨id'', hid'', hidle.trans hidle'⟩

theorem Passed.mono (hpassed : marks.Passed m) (hle : marks.Le marks') : marks'.Passed m := by
  cases m with
  | wal s => exact Nat.le_trans hpassed (hle.1 s.nodeId)
  | compaction id s =>
    obtain ⟨mark, hmark, hidle⟩ := hpassed
    obtain ⟨mark', hmark', hmarkle⟩ := hle.2 mark hmark
    exact ⟨mark', hmark', hidle.trans hmarkle⟩

/-- What is kept at some marks is kept at lower ones. -/
theorem Le.keepsTombstone (hle : marks.Le marks')
    (hkeeps : Inner.keepsTombstone marks'.wal marks'.compaction gc = true) :
    Inner.keepsTombstone marks.wal marks.compaction gc = true := by
  cases gc with
  | walSeq nodeId walSeq =>
    simp only [Inner.keepsTombstone, decide_eq_true_eq] at hkeeps ⊢
    exact (hle.1 nodeId).trans_lt hkeeps
  | compaction removingId =>
    simp only [Inner.keepsTombstone, Option.all_eq_true, decide_eq_true_eq] at hkeeps ⊢
    intro mark hmark
    obtain ⟨mark', hmark', hmarkle⟩ := hle.2 mark hmark
    exact hmarkle.trans_lt (hkeeps mark' hmark')
  | objectGone => rfl

end InventoryWatermarks

namespace Poller

variable (poller : Poller)

def foldWal (s : PersistedSnapshot) (rest : List PersistedSnapshot) : Poller :=
  { poller with
    inner := poller.inner.addPersistedSnapshotFiles s
    walCursors := Function.update poller.walCursors s.nodeId
      (max (poller.walCursors s.nodeId) s.snapshotSequenceNumber)
    newWal := rest
    folded := poller.folded ++ [.wal s] }

def foldCompaction (c : String × PersistedSnapshot)
    (rest : List (String × PersistedSnapshot)) : Poller :=
  { poller with
    inner := poller.inner.addPersistedCompactionFiles c.2 c.1
    compactionCursor := some c.1
    newCompactions := rest
    folded := poller.folded ++ [.compaction c.1 c.2] }

/-- One step of a tick against the published manifests. A tick that finds nothing new ends
without collecting tombstones; `fail` is a listing that ends in an error. -/
def step (store : Store) : PollerAction → Option Poller
  | .loadWal listing unreadable =>
    if poller.phase = .idle ∧ listing.Perm store.walSnapshots then
      some { poller with
        phase := .walLoaded
        newWal := loadAllWalSnapshots listing poller.walCursors unreadable }
    else none
  | .loadCompactions listing unreadable =>
    if poller.phase = .walLoaded ∧ listing.Perm store.compactions then
      let loaded := loadAllCompactions listing poller.compactionCursor unreadable
      some { poller with
        phase := if poller.newWal.isEmpty && loaded.isEmpty then .idle else .folding
        newCompactions := loaded }
    else none
  | .fail =>
    if poller.phase = .folding then none
    else some { poller with phase := .idle, newWal := [] }
  | .fold =>
    if poller.phase = .folding then
      match poller.newWal, poller.newCompactions with
      | s :: rest, _ => some (poller.foldWal s rest)
      | [], c :: rest => some (poller.foldCompaction c rest)
      | [], [] => none
    else none
  | .gc =>
    if poller.phase = .folding ∧ poller.newWal = [] ∧ poller.newCompactions = [] then
      some { poller with
        inner := poller.inner.gcTombstones poller.walCursors poller.compactionCursor
        phase := .idle }
    else none

def watermarks : InventoryWatermarks := ⟨poller.walCursors, poller.compactionCursor⟩

/-- The manifest the next fold of the running tick takes. -/
def nextManifest : Option Manifest :=
  match poller.newWal, poller.newCompactions with
  | s :: _, _ => some (.wal s)
  | [], c :: _ => some (.compaction c.1 c.2)
  | [], [] => none

/-- What a tick has still to fold is ahead of the cursors, and there is none outside a tick. -/
structure Tidy : Prop where
  wal : walFeed.Ahead poller.walCursors poller.newWal
  compactions : compactionFeed.Ahead poller.compactionCursor poller.newCompactions
  idle_wal : poller.phase = .idle → poller.newWal = []
  compactions_folding : poller.phase ≠ .folding → poller.newCompactions = []

variable {poller} {next : Poller} {store : Store}

theorem step_loadWal {listing : List PersistedSnapshot} {unreadable : List (String × Nat)}
    (hstep : poller.step store (.loadWal listing unreadable) = some next) :
    (poller.phase = .idle ∧ listing.Perm store.walSnapshots) ∧
      next = { poller with
        phase := .walLoaded
        newWal := loadAllWalSnapshots listing poller.walCursors unreadable } := by
  simp only [step, ite_none_right_eq_some, some.injEq] at hstep
  exact ⟨hstep.1, hstep.2.symm⟩

theorem step_loadCompactions {listing : List (String × PersistedSnapshot)}
    {unreadable : List String}
    (hstep : poller.step store (.loadCompactions listing unreadable) = some next) :
    (poller.phase = .walLoaded ∧ listing.Perm store.compactions) ∧
      next = { poller with
        phase := if poller.newWal.isEmpty &&
            (loadAllCompactions listing poller.compactionCursor unreadable).isEmpty
          then .idle else .folding
        newCompactions := loadAllCompactions listing poller.compactionCursor unreadable } := by
  simp only [step, ite_none_right_eq_some, some.injEq] at hstep
  exact ⟨hstep.1, hstep.2.symm⟩

theorem step_fail (hstep : poller.step store .fail = some next) :
    poller.phase ≠ .folding ∧ next = { poller with phase := .idle, newWal := [] } := by
  simp only [step, ite_none_left_eq_some, some.injEq] at hstep
  exact ⟨hstep.1, hstep.2.symm⟩

theorem step_fold (hstep : poller.step store .fold = some next) :
    poller.phase = .folding ∧
      ((∃ s rest, poller.newWal = s :: rest ∧ next = poller.foldWal s rest) ∨
        ∃ c rest, poller.newWal = [] ∧ poller.newCompactions = c :: rest ∧
          next = poller.foldCompaction c rest) := by
  simp only [step, ite_none_right_eq_some] at hstep
  refine ⟨hstep.1, ?_⟩
  cases hwal : poller.newWal with
  | cons s rest =>
    simp only [hwal, some.injEq] at hstep
    exact .inl ⟨s, rest, rfl, hstep.2.symm⟩
  | nil =>
    cases hcompactions : poller.newCompactions with
    | nil => simp [hwal, hcompactions] at hstep
    | cons c rest =>
      simp only [hwal, hcompactions, some.injEq] at hstep
      exact .inr ⟨c, rest, rfl, rfl, hstep.2.symm⟩

theorem step_fold_manifest (hstep : poller.step store .fold = some next) :
    ∃ m, poller.nextManifest = some m ∧ next.inner = poller.inner.fold m ∧
      next.folded = poller.folded ++ [m] := by
  obtain ⟨_, ⟨s, rest, hwal, rfl⟩ | ⟨c, rest, hwal, hcompactions, rfl⟩⟩ := step_fold hstep
  · exact ⟨.wal s, by simp [nextManifest, hwal], rfl, rfl⟩
  · exact ⟨.compaction c.1 c.2, by simp [nextManifest, hwal, hcompactions], rfl, rfl⟩

theorem step_gc (hstep : poller.step store .gc = some next) :
    (poller.phase = .folding ∧ poller.newWal = [] ∧ poller.newCompactions = []) ∧
      next = { poller with
        inner := poller.inner.gcTombstones poller.walCursors poller.compactionCursor
        phase := .idle } := by
  simp only [step, ite_none_right_eq_some, some.injEq] at hstep
  exact ⟨hstep.1, hstep.2.symm⟩

theorem tidy_initial : ({} : Poller).Tidy :=
  ⟨CursorFeed.Ahead.nil, CursorFeed.Ahead.nil, fun _ => rfl, fun _ => rfl⟩

variable {action : PollerAction}

theorem Tidy.step (htidy : poller.Tidy)
    (hstep : poller.step store action = some next) : next.Tidy := by
  cases action with
  | loadWal listing unreadable =>
    obtain ⟨⟨hidle, hlisting⟩, rfl⟩ := step_loadWal hstep
    refine ⟨ahead_loadAllWalSnapshots hlisting _ _, htidy.compactions, by simp, fun _ => ?_⟩
    exact htidy.compactions_folding (by simp [hidle])
  | loadCompactions listing unreadable =>
    obtain ⟨⟨_, hlisting⟩, rfl⟩ := step_loadCompactions hstep
    refine ⟨htidy.wal, ahead_loadAllCompactions hlisting _ _, ?_, ?_⟩
    · intro hidle
      by_contra hne
      have hnonempty : poller.newWal.isEmpty = false := by simpa using hne
      simp [hnonempty] at hidle
    · intro hphase
      by_contra hne
      have hnonempty : (loadAllCompactions listing poller.compactionCursor
          unreadable).isEmpty = false := by simpa using hne
      simp [hnonempty] at hphase
  | fail =>
    obtain ⟨hphase, rfl⟩ := step_fail hstep
    exact ⟨CursorFeed.Ahead.nil, htidy.compactions, fun _ => rfl,
      fun _ => htidy.compactions_folding hphase⟩
  | fold =>
    obtain ⟨hphase, ⟨s, rest, hwal, rfl⟩ | ⟨c, rest, hwal, hcompactions, rfl⟩⟩ :=
      step_fold hstep
    · have hahead := htidy.wal
      rw [hwal] at hahead
      exact ⟨hahead.take, htidy.compactions, by simp [foldWal, hphase],
        by simp [foldWal, hphase]⟩
    · have hahead := htidy.compactions
      rw [hcompactions] at hahead
      exact ⟨htidy.wal, hahead.take, by simp [foldCompaction, hphase],
        by simp [foldCompaction, hphase]⟩
  | gc =>
    obtain ⟨⟨_, hwal, hcompactions⟩, rfl⟩ := step_gc hstep
    exact ⟨htidy.wal, htidy.compactions, fun _ => hwal, fun _ => hcompactions⟩

theorem Tidy.watermarks_le (htidy : poller.Tidy)
    (hstep : poller.step store action = some next) : poller.watermarks.Le next.watermarks := by
  cases action with
  | loadWal listing unreadable =>
    obtain ⟨_, rfl⟩ := step_loadWal hstep
    exact InventoryWatermarks.Le.refl _
  | loadCompactions listing unreadable =>
    obtain ⟨_, rfl⟩ := step_loadCompactions hstep
    exact InventoryWatermarks.Le.refl _
  | fail =>
    obtain ⟨_, rfl⟩ := step_fail hstep
    exact InventoryWatermarks.Le.refl _
  | fold =>
    obtain ⟨_, ⟨s, rest, hwal, rfl⟩ | ⟨c, rest, _, hcompactions, rfl⟩⟩ := step_fold hstep
    · refine ⟨fun nodeId => ?_, fun id hid => ⟨id, hid, le_refl _⟩⟩
      by_cases hnode : nodeId = s.nodeId
      · subst hnode
        simp [watermarks, foldWal]
      · simp [watermarks, foldWal, hnode]
    · refine ⟨fun nodeId => le_refl _, fun id hid => ⟨c.1, rfl, ?_⟩⟩
      have hunpassed := htidy.compactions.unpassed c (by simp [hcompactions])
      exact le_of_not_ge fun hle => hunpassed ⟨id, hid, hle⟩
  | gc =>
    obtain ⟨_, rfl⟩ := step_gc hstep
    exact InventoryWatermarks.Le.refl _

end Poller

end RefluxDb.Write
