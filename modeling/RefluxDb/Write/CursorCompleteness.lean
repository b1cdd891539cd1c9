import RefluxDb.Write.InventoryPoller

/-! Whether the poller folds every manifest its cursors have passed.

Compactor tasks run side by side: each mints its id, uploads its output and only then publishes
its manifest, so a larger id may be published first. A listed manifest may fail to be fetched and
is skipped while later ones are folded. In both cases the cursor moves past a manifest that was
not folded, and no later tick lists it again. -/

namespace RefluxDb.Write

open Option RefluxDb.Library

/-- The listings that read no manifest behind which one could not be read. -/
def PollerAction.ReadsInOrder : PollerAction → Prop
  | .loadWal listing unreadable => ∀ s ∈ listing, ∀ s' ∈ listing,
      s.nodeId = s'.nodeId → s.snapshotSequenceNumber ≤ s'.snapshotSequenceNumber →
        (s.nodeId, s.snapshotSequenceNumber) ∈ unreadable →
          (s'.nodeId, s'.snapshotSequenceNumber) ∈ unreadable
  | .loadCompactions listing unreadable => ∀ c ∈ listing, ∀ c' ∈ listing, c.1 ≤ c'.1 →
      c.1 ∈ unreadable → c'.1 ∈ unreadable
  | _ => True

instance : (action : PollerAction) → Decidable action.ReadsInOrder
  | .loadWal listing _ => inferInstanceAs (Decidable (∀ s ∈ listing, _))
  | .loadCompactions listing _ => inferInstanceAs (Decidable (∀ c ∈ listing, _))
  | .fail | .fold | .gc => .isTrue trivial

/-- An id above the compaction cursor and everything the running tick has still to fold. -/
def Poller.Below (poller : Poller) (id : String) : Prop :=
  (∀ cursor ∈ poller.compactionCursor, cursor < id) ∧ ∀ c ∈ poller.newCompactions, c.1 < id
deriving Decidable

/-- The poller has folded every published manifest its cursors have passed, and will have when
the running tick is over. -/
structure Poller.CaughtUp (store : Store) (poller : Poller) : Prop where
  tidy : poller.Tidy
  wal : walFeed.Complete {s | s ∈ store.walSnapshots} {s | .wal s ∈ poller.folded}
    poller.walCursors poller.newWal
  compactions : compactionFeed.Complete {c | c ∈ store.compactions}
    {c | .compaction c.1 c.2 ∈ poller.folded} poller.compactionCursor poller.newCompactions
  wal_grounded : walFeed.Grounded {s | 0 < s.snapshotSequenceNumber}
    {s | s ∈ store.walSnapshots} {s | .wal s ∈ poller.folded} poller.walCursors poller.newWal
  compactions_grounded : compactionFeed.Grounded Set.univ {c | c ∈ store.compactions}
    {c | .compaction c.1 c.2 ∈ poller.folded} poller.compactionCursor poller.newCompactions

namespace Poller

variable {poller next : Poller} {store store' : Store}

theorem caughtUp_initial : ({} : Poller).CaughtUp {} := by
  refine ⟨tidy_initial, ⟨by simp, by simp⟩, ⟨by simp, by simp⟩, ⟨by simp, by simp, by simp, ?_⟩,
    ⟨by simp, by simp, by simp, ?_⟩⟩
  · intro s hpos hpassed
    exact absurd hpassed (not_le.mpr hpos)
  · rintro c - ⟨id, hid, _⟩
    exact absurd hid (not_mem_none id)

variable {s : PersistedSnapshot}

private theorem wal_mem_folded_append :
    {s' | Manifest.wal s' ∈ poller.folded ++ [.wal s]} =
      insert s {s' | Manifest.wal s' ∈ poller.folded} := by
  ext s'
  simp [or_comm]

variable {c : String × PersistedSnapshot}

private theorem compaction_mem_folded_append :
    {c' : String × PersistedSnapshot |
        Manifest.compaction c'.1 c'.2 ∈ poller.folded ++ [.compaction c.1 c.2]} =
      insert c {c' | .compaction c'.1 c'.2 ∈ poller.folded} := by
  ext c'
  simp [or_comm, Prod.ext_iff]

theorem CaughtUp.foldWal {rest : List PersistedSnapshot}
    (hcaught : poller.CaughtUp store) (hwal : poller.newWal = s :: rest)
    (htidy : (poller.foldWal s rest).Tidy) : (poller.foldWal s rest).CaughtUp store := by
  have hcomplete := hcaught.wal
  have hgrounded := hcaught.wal_grounded
  have hahead := hcaught.tidy.wal
  rw [hwal] at hcomplete hgrounded hahead
  have htaken := hcomplete.take hahead
  have hground := hgrounded.take (hahead.unpassed s (by simp))
  rw [← wal_mem_folded_append] at htaken hground
  refine ⟨htidy, htaken, ?_, hground, ?_⟩
  · simpa [Poller.foldWal] using hcaught.compactions
  · simpa [Poller.foldWal] using hcaught.compactions_grounded

theorem CaughtUp.foldCompaction
    {rest : List (String × PersistedSnapshot)} (hcaught : poller.CaughtUp store)
    (hcompactions : poller.newCompactions = c :: rest)
    (htidy : (poller.foldCompaction c rest).Tidy) :
    (poller.foldCompaction c rest).CaughtUp store := by
  have hcomplete := hcaught.compactions
  have hgrounded := hcaught.compactions_grounded
  have hahead := hcaught.tidy.compactions
  rw [hcompactions] at hcomplete hgrounded hahead
  have htaken := hcomplete.take hahead
  have hground := hgrounded.take (hahead.unpassed c (by simp))
  rw [← compaction_mem_folded_append] at htaken hground
  refine ⟨htidy, ?_, htaken, ?_, hground⟩
  · simpa [Poller.foldCompaction] using hcaught.wal
  · simpa [Poller.foldCompaction] using hcaught.wal_grounded

variable {action : PollerAction}

/-- A step of a tick that reads in order keeps the poller caught up. -/
theorem CaughtUp.step (hcaught : poller.CaughtUp store)
    (hreads : action.ReadsInOrder) (hstep : poller.step store action = some next) :
    next.CaughtUp store := by
  have htidy := hcaught.tidy.step hstep
  cases action with
  | loadWal listing unreadable =>
    obtain ⟨⟨hidle, hlisting⟩, rfl⟩ := step_loadWal hstep
    have hempty := hcaught.wal
    rw [hcaught.tidy.idle_wal hidle] at hempty
    refine ⟨htidy, hempty.load ?_, hcaught.compactions, hcaught.wal_grounded.load ?_,
      hcaught.compactions_grounded⟩
    · intro s hs s' hs' hunpassed hbehind
      obtain ⟨hlisted, _, hread⟩ := mem_loadAllWalSnapshots.mp hs
      have hlisted' := hlisting.mem_iff.mpr hs'
      refine mem_loadAllWalSnapshots.mpr ⟨hlisted', hunpassed, fun hunread => hread ?_⟩
      exact hreads s' hlisted' s hlisted hbehind.1 hbehind.2 hunread
    · intro s hs
      exact hlisting.mem_iff.mp (mem_loadAllWalSnapshots.mp hs).1
  | loadCompactions listing unreadable =>
    obtain ⟨⟨hphase, hlisting⟩, rfl⟩ := step_loadCompactions hstep
    have hempty := hcaught.compactions
    rw [hcaught.tidy.compactions_folding (by simp [hphase])] at hempty
    refine ⟨htidy, hcaught.wal, hempty.load ?_, hcaught.wal_grounded,
      hcaught.compactions_grounded.load ?_⟩
    · intro c hc c' hc' hunpassed hbehind
      obtain ⟨hlisted, _, hread⟩ := mem_loadAllCompactions.mp hc
      have hlisted' := hlisting.mem_iff.mpr hc'
      refine mem_loadAllCompactions.mpr ⟨hlisted', hunpassed, fun hunread => hread ?_⟩
      exact hreads c' hlisted' c hlisted hbehind hunread
    · intro c hc
      exact hlisting.mem_iff.mp (mem_loadAllCompactions.mp hc).1
  | fail =>
    obtain ⟨_, rfl⟩ := step_fail hstep
    exact ⟨htidy, hcaught.wal.drop, hcaught.compactions, hcaught.wal_grounded.load (by simp),
      hcaught.compactions_grounded⟩
  | fold =>
    obtain ⟨_, ⟨s, rest, hwal, rfl⟩ | ⟨c, rest, _, hcompactions, rfl⟩⟩ := step_fold hstep
    · exact hcaught.foldWal hwal htidy
    · exact hcaught.foldCompaction hcompactions htidy
  | gc =>
    obtain ⟨_, rfl⟩ := step_gc hstep
    exact { hcaught with tidy := htidy }

/-- A writer's next manifest is ahead of every cursor: cursors only pass published manifests. -/
theorem CaughtUp.publishWalSnapshot (hcaught : poller.CaughtUp store)
    (hpublish : store.publishWalSnapshot s = some store') : poller.CaughtUp store' := by
  obtain ⟨⟨hpos, hlatest⟩, hwal, hcompactions⟩ := Store.publishWalSnapshot_eq_some hpublish
  have hset : {s' | s' ∈ store'.walSnapshots} = insert s {s' | s' ∈ store.walSnapshots} := by
    ext s'
    simp [hwal, or_comm]
  have hahead : ∀ s' ∈ {s' | s' ∈ store.walSnapshots}, ¬walFeed.behind s s' := by
    rintro s' hs' ⟨hnode, hle⟩
    have hlt := hlatest s' hs' hnode.symm
    omega
  obtain ⟨hunpassed, hpending⟩ := hcaught.wal_grounded.ahead_of_published hpos hahead
  refine ⟨hcaught.tidy, ?_, ?_, ?_, ?_⟩
  · rw [hset]
    exact hcaught.wal.publish hunpassed hpending
  · rw [hcompactions]
    exact hcaught.compactions
  · rw [hset]
    exact hcaught.wal_grounded.publish s
  · rw [hcompactions]
    exact hcaught.compactions_grounded

/-- A compaction published above everything the poller has passed or listed is not missed. -/
theorem CaughtUp.publishCompaction {id : String} {snapshot : PersistedSnapshot}
    (hcaught : poller.CaughtUp store) (hbelow : poller.Below id)
    (hpublish : store.publishCompaction id snapshot = some store') : poller.CaughtUp store' := by
  obtain ⟨_, hcompactions, hwal⟩ := Store.publishCompaction_eq_some hpublish
  have hset : {c | c ∈ store'.compactions} =
      insert (id, snapshot) {c | c ∈ store.compactions} := by
    ext c
    simp [hcompactions, or_comm]
  refine ⟨hcaught.tidy, ?_, ?_, ?_, ?_⟩
  · rw [hwal]
    exact hcaught.wal
  · rw [hset]
    refine hcaught.compactions.publish ?_ ?_
    · rintro ⟨cursor, hcursor, hle⟩
      exact absurd (hbelow.1 cursor hcursor) (not_lt.mpr hle)
    · intro c hc hle
      exact absurd (hbelow.2 c hc) (not_lt.mpr hle)
  · rw [hwal]
    exact hcaught.wal_grounded
  · rw [hset]
    exact hcaught.compactions_grounded.publish _

/-- A published compaction that the cursor has passed without a fold. -/
def Misses (poller : Poller) (c : String × PersistedSnapshot) : Prop :=
  compactionFeed.Missed {c | .compaction c.1 c.2 ∈ poller.folded} poller.compactionCursor
    poller.newCompactions c

/-- No tick folds a missed compaction. -/
theorem Misses.step (hmisses : poller.Misses c) (htidy : poller.Tidy)
    (hstep : poller.step store action = some next) : next.Misses c := by
  cases action with
  | loadWal listing unreadable =>
    obtain ⟨_, rfl⟩ := step_loadWal hstep
    exact hmisses
  | loadCompactions listing unreadable =>
    obtain ⟨_, rfl⟩ := step_loadCompactions hstep
    exact hmisses.load fun c hc => (mem_loadAllCompactions.mp hc).2.1
  | fail =>
    obtain ⟨_, rfl⟩ := step_fail hstep
    exact hmisses
  | fold =>
    obtain ⟨_, ⟨s, rest, _, rfl⟩ | ⟨c', rest, _, hcompactions, rfl⟩⟩ := step_fold hstep
    · simpa [Misses, Poller.foldWal] using hmisses
    · have hahead := htidy.compactions
      unfold Misses at hmisses
      rw [hcompactions] at hahead hmisses
      have htaken := hmisses.take (hahead.unpassed c' (by simp))
      rw [← compaction_mem_folded_append] at htaken
      exact htaken
  | gc =>
    obtain ⟨_, rfl⟩ := step_gc hstep
    exact hmisses

end Poller

/-- Writers, compactor tasks and one polling node. `minted` are the compactions whose tasks have
minted an id and not yet published. -/
structure Cluster where
  store : Store := .empty
  minted : List (String × PersistedSnapshot) := []
  poller : Poller := {}

inductive ClusterAction where
  | publishWal (snapshot : PersistedSnapshot)
  | mint (id : String) (snapshot : PersistedSnapshot)
  | publishCompaction (id : String) (snapshot : PersistedSnapshot)
  | poll (action : PollerAction)

namespace Cluster

/-- Ids are minted in increasing order; the tasks publish in any order. -/
def step (cluster : Cluster) : ClusterAction → Option Cluster
  | .publishWal snapshot =>
    (cluster.store.publishWalSnapshot snapshot).map fun store =>
      { cluster with store := store }
  | .mint id snapshot =>
    if ∀ c ∈ cluster.minted ++ cluster.store.compactions, c.1 < id then
      some { cluster with minted := cluster.minted ++ [(id, snapshot)] }
    else none
  | .publishCompaction id snapshot =>
    if (id, snapshot) ∈ cluster.minted then
      (cluster.store.publishCompaction id snapshot).map fun store =>
        { cluster with store := store, minted := cluster.minted.erase (id, snapshot) }
    else none
  | .poll action =>
    (cluster.poller.step cluster.store action).map fun poller =>
      { cluster with poller := poller }

def machine : Machine Cluster ClusterAction where
  initial cluster := cluster = {}
  step := step

/-- The steps that lose no manifest: a compaction is published above every id the poller has
passed or listed, and a listing reads nothing behind which it could not read. -/
def Orderly (cluster : Cluster) : ClusterAction → Prop
  | .publishCompaction id _ => cluster.poller.Below id
  | .poll action => action.ReadsInOrder
  | _ => True

instance (cluster : Cluster) : (action : ClusterAction) → Decidable (Orderly cluster action)
  | .publishCompaction id _ => inferInstanceAs (Decidable (cluster.poller.Below id))
  | .poll action => inferInstanceAs (Decidable action.ReadsInOrder)
  | .publishWal _ | .mint .. => .isTrue trivial

/-- Every published manifest at or below a cursor has been folded. -/
def CursorsComplete (cluster : Cluster) : Prop :=
  (∀ c ∈ cluster.store.compactions,
    (∃ cursor ∈ cluster.poller.compactionCursor, c.1 ≤ cursor) →
      .compaction c.1 c.2 ∈ cluster.poller.folded) ∧
  ∀ s ∈ cluster.store.walSnapshots,
    s.snapshotSequenceNumber ≤ cluster.poller.walCursors s.nodeId → .wal s ∈ cluster.poller.folded

variable {cluster next : Cluster} {action : ClusterAction}

theorem caughtUp_step (hcaught : cluster.poller.CaughtUp cluster.store)
    (horderly : Orderly cluster action) (hstep : step cluster action = some next) :
    next.poller.CaughtUp next.store := by
  cases action with
  | publishWal snapshot =>
    obtain ⟨store, hstore, rfl⟩ := map_eq_some_iff.mp hstep
    exact hcaught.publishWalSnapshot hstore
  | mint id snapshot =>
    simp only [step, ite_none_right_eq_some, Option.some.injEq] at hstep
    obtain ⟨_, rfl⟩ := hstep
    exact hcaught
  | publishCompaction id snapshot =>
    simp only [step, ite_none_right_eq_some, map_eq_some_iff] at hstep
    obtain ⟨_, store, hstore, rfl⟩ := hstep
    exact hcaught.publishCompaction horderly hstore
  | poll action =>
    obtain ⟨poller, hpoller, rfl⟩ := map_eq_some_iff.mp hstep
    exact hcaught.step horderly hpoller

theorem cursorsComplete_of_orderly (cluster : Cluster)
    (hreachable : machine.Reachable Orderly cluster) : cluster.CursorsComplete := by
  have hcaught : cluster.poller.CaughtUp cluster.store := by
    refine hreachable.invariant ?_ fun _ _ _ => caughtUp_step
    rintro state rfl
    exact Poller.caughtUp_initial
  exact ⟨fun c hc hpassed => hcaught.compactions.passed_taken c hc hpassed,
    fun s hs hpassed => hcaught.wal.passed_taken s hs hpassed⟩

theorem initial_reachable {allowed : Cluster → ClusterAction → Prop} :
    machine.Reachable allowed {} :=
  .initial rfl

def bareSnapshot (nodeId : String) (sequence : Nat) : PersistedSnapshot where
  nodeId := nodeId
  snapshotSequenceNumber := sequence
  walFileSequenceNumber := sequence
  databases := .empty
  removedFiles := .empty

/-- A writer and a compaction publish, and one tick folds both. -/
theorem cursorsComplete_of_orderly_tick :
    ∃ cluster : Cluster, machine.Reachable Orderly cluster ∧
      cluster.poller.compactionCursor.isSome ∧ cluster.CursorsComplete := by
  let s := bareSnapshot "writer" 1
  let c := bareSnapshot "compactor" 0
  refine initial_reachable.exists_of_exec_and
    [.publishWal s, .mint "019b7000-0000-7000-8000-000000000001" c,
      .publishCompaction "019b7000-0000-7000-8000-000000000001" c, .poll (.loadWal [s] []),
      .poll (.loadCompactions [("019b7000-0000-7000-8000-000000000001", c)] []),
      .poll .fold, .poll .fold, .poll .gc]
    _ (by decide) (by decide) ?_
  exact cursorsComplete_of_orderly

/-- A step is one of the poller, or leaves the poller alone. -/
theorem poller_step (hstep : step cluster action = some next) :
    next.poller = cluster.poller ∨
      ∃ pollerAction, cluster.poller.step cluster.store pollerAction = some next.poller := by
  cases action with
  | publishWal snapshot =>
    obtain ⟨store, _, rfl⟩ := map_eq_some_iff.mp hstep
    exact .inl rfl
  | mint id snapshot =>
    simp only [step, ite_none_right_eq_some, Option.some.injEq] at hstep
    obtain ⟨_, rfl⟩ := hstep
    exact .inl rfl
  | publishCompaction id snapshot =>
    simp only [step, ite_none_right_eq_some, map_eq_some_iff] at hstep
    obtain ⟨_, store, _, rfl⟩ := hstep
    exact .inl rfl
  | poll action =>
    obtain ⟨poller, hpoller, rfl⟩ := map_eq_some_iff.mp hstep
    exact .inr ⟨action, hpoller⟩

theorem tidy_step (htidy : cluster.poller.Tidy) (hstep : step cluster action = some next) :
    next.poller.Tidy := by
  rcases poller_step hstep with hsame | ⟨pollerAction, hpoller⟩
  · rwa [hsame]
  · exact htidy.step hpoller

theorem misses_step {c : String × PersistedSnapshot}
    (hmisses : cluster.poller.Tidy ∧ cluster.poller.Misses c)
    (hstep : step cluster action = some next) :
    next.poller.Tidy ∧ next.poller.Misses c := by
  refine ⟨tidy_step hmisses.1 hstep, ?_⟩
  rcases poller_step hstep with hsame | ⟨pollerAction, hpoller⟩
  · rw [hsame]
    exact hmisses.2
  · exact hmisses.2.step hmisses.1 hpoller

/-- Two tasks mint their ids and the one with the larger id publishes first. A tick folds it, and
the manifest published after that is at or below the cursor and is folded in no continuation. -/
theorem late_compaction_never_folded :
    ∃ (cluster : Cluster) (c : String × PersistedSnapshot),
      machine.Reachable Machine.Unrestricted cluster ∧
      c ∈ cluster.store.compactions ∧
      (∃ cursor ∈ cluster.poller.compactionCursor, c.1 ≤ cursor) ∧
      ∀ schedule last, machine.exec cluster schedule = some last →
        .compaction c.1 c.2 ∉ last.poller.folded := by
  let early := "019b7000-0000-7000-8000-000000000001"
  let late := "019b7000-0000-7000-8000-000000000002"
  let s := bareSnapshot "compactor" 0
  obtain ⟨cluster, hreachable, hpublished, hcursor, hfolded, hphase⟩ :=
    initial_reachable.exists_of_run
      [.mint early s, .mint late s, .publishCompaction late s, .poll (.loadWal [] []),
        .poll (.loadCompactions [(late, s)] []), .poll .fold, .poll .gc,
        .publishCompaction early s]
      (fun cluster => (early, s) ∈ cluster.store.compactions ∧
        cluster.poller.compactionCursor = some late ∧
        cluster.poller.folded = [.compaction late s] ∧ cluster.poller.phase = .idle) (by decide)
  have htidy : cluster.poller.Tidy := by
    refine hreachable.invariant ?_ fun _ _ _ htidy _ => tidy_step htidy
    rintro state rfl
    exact Poller.tidy_initial
  have hmisses : cluster.poller.Misses (early, s) := by
    refine ⟨⟨late, hcursor, by decide⟩, ?_, ?_⟩
    · rw [Set.mem_ofPred_eq, hfolded]
      decide
    · rw [htidy.compactions_folding (by simp [hphase])]
      exact List.not_mem_nil
  refine ⟨cluster, (early, s), hreachable, hpublished, ⟨late, hcursor, by decide⟩, ?_⟩
  intro schedule last hexec
  have hlast : last.poller.Tidy ∧ last.poller.Misses (early, s) :=
    Machine.exec_keeps (fun state => state.poller.Tidy ∧ state.poller.Misses (early, s))
      (fun _ _ _ => misses_step) ⟨htidy, hmisses⟩ hexec
  exact hlast.2.notMem_taken

end Cluster

end RefluxDb.Write
