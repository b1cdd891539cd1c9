import RefluxDb.Write.CursorCompleteness

/-! The streams of manifests, as writers and compactors publish them.

The writers' manifests of each node and the compactions are two streams that a node sees skewed
against each other, each in its own order. What writers and compactors name their files after, and
what a compaction may remove, is said here once for everything they will ever publish. -/

namespace RefluxDb.Write

open Option RefluxDb.Library

/-- Everything the writers and the compactors will ever publish. -/
structure Streams where
  wal : Set PersistedSnapshot
  compactions : Set (String × PersistedSnapshot)
  tableOf : String → TableKey
  wal_owned : ∀ s ∈ wal, (Manifest.wal s).Owned tableOf
  wal_numbered : ∀ s ∈ wal, 0 < s.snapshotSequenceNumber
  wal_distinct : ∀ s ∈ wal, ∀ s' ∈ wal, s.nodeId = s'.nodeId →
    s.snapshotSequenceNumber = s'.snapshotSequenceNumber → s = s'
  /-- A snapshot's number never exceeds its last WAL file number. -/
  wal_sequence : ∀ s ∈ wal, s.snapshotSequenceNumber ≤ s.walFileSequenceNumber
  /-- A writer names its files after its node and the last WAL file of the snapshot. -/
  wal_paths : ∀ s ∈ wal, ∀ entry ∈ (Manifest.wal s).adds,
    parseGen1Path entry.2 = some (s.nodeId, s.walFileSequenceNumber)
  compaction_owned : ∀ c ∈ compactions, (Manifest.compaction c.1 c.2).Owned tableOf
  compaction_distinct : ∀ c ∈ compactions, ∀ c' ∈ compactions, c.1 = c'.1 → c = c'
  /-- A compactor names its output after the compaction id. -/
  compaction_paths : ∀ c ∈ compactions, ∀ entry ∈ (Manifest.compaction c.1 c.2).adds,
    parseGen1Path entry.2 = none
  /-- A compaction removes only what was there when its id was minted. -/
  compaction_inputs : ∀ c ∈ compactions, ∀ c' ∈ compactions,
    ∀ entry ∈ (Manifest.compaction c.1 c.2).adds,
      entry ∈ (Manifest.compaction c'.1 c'.2).removes → c.1 ≤ c'.1
  compaction_added_once : ∀ c ∈ compactions, ∀ c' ∈ compactions,
    ∀ entry ∈ (Manifest.compaction c.1 c.2).adds,
      entry ∈ (Manifest.compaction c'.1 c'.2).adds → c = c'
  wal_added_once : ∀ s ∈ wal, ∀ s' ∈ wal, ∀ entry ∈ (Manifest.wal s).adds,
    entry ∈ (Manifest.wal s').adds → s = s'

namespace Streams

def manifests (streams : Streams) : Set Manifest :=
  {m | match m with
    | .wal s => s ∈ streams.wal
    | .compaction id s => (id, s) ∈ streams.compactions}

variable {streams : Streams} {m m' : Manifest} {key : TableKey} {path : String}

theorem owned (streams : Streams) (hm : m ∈ streams.manifests) : m.Owned streams.tableOf := by
  cases m with
  | wal s => exact streams.wal_owned s hm
  | compaction id s => exact streams.compaction_owned (id, s) hm

/-- A path is added by at most one manifest: a writer's by a writer, a compactor's by a
compaction. -/
theorem added_once (hm : m ∈ streams.manifests) (hm' : m' ∈ streams.manifests)
    (hadds : (key, path) ∈ m.adds) (hadds' : (key, path) ∈ m'.adds) : m = m' := by
  cases m with
  | wal s =>
    have hparse := streams.wal_paths s hm _ hadds
    cases m' with
    | wal s' => rw [streams.wal_added_once s hm s' hm' _ hadds hadds']
    | compaction id' s' =>
      have hnone := streams.compaction_paths (id', s') hm' _ hadds'
      simp [hparse] at hnone
  | compaction id s =>
    have hnone := streams.compaction_paths (id, s) hm _ hadds
    cases m' with
    | wal s' =>
      have hparse := streams.wal_paths s' hm' _ hadds'
      simp [hparse] at hnone
    | compaction id' s' =>
      have hsame := streams.compaction_added_once (id, s) hm (id', s') hm' _ hadds hadds'
      rw [Prod.mk.injEq] at hsame
      rw [hsame.1, hsame.2]

/-- Each stream becomes visible in its own order, and every listed manifest is fetched. -/
def InOrder (streams : Streams) (cluster : Cluster) : ClusterAction → Prop
  | .publishWal s => s ∈ streams.wal ∧ ∀ s' ∈ streams.wal, s'.nodeId = s.nodeId →
      s'.snapshotSequenceNumber < s.snapshotSequenceNumber → s' ∈ cluster.store.walSnapshots
  | .mint id s => (id, s) ∈ streams.compactions
  | .publishCompaction id s => (id, s) ∈ streams.compactions ∧ ∀ c ∈ streams.compactions,
      c.1 < id → c ∈ cluster.store.compactions
  | .poll (.loadWal _ unreadable) => unreadable = []
  | .poll (.loadCompactions _ unreadable) => unreadable = []
  | .poll _ => True

section Listed

variable (wal : List PersistedSnapshot) (compactions : List (String × PersistedSnapshot))
variable (tableOf : String → TableKey)

/-- Finitely many manifests that may be all of the streams. -/
def Lawful : Prop :=
  (∀ s ∈ wal, (Manifest.wal s).Owned tableOf ∧ 0 < s.snapshotSequenceNumber ∧
    s.snapshotSequenceNumber ≤ s.walFileSequenceNumber ∧
    (∀ entry ∈ (Manifest.wal s).adds,
      parseGen1Path entry.2 = some (s.nodeId, s.walFileSequenceNumber)) ∧
    ∀ s' ∈ wal, (s.nodeId = s'.nodeId → s.snapshotSequenceNumber = s'.snapshotSequenceNumber →
        s = s') ∧
      ∀ entry ∈ (Manifest.wal s).adds, entry ∈ (Manifest.wal s').adds → s = s') ∧
  ∀ c ∈ compactions, (Manifest.compaction c.1 c.2).Owned tableOf ∧
    (∀ entry ∈ (Manifest.compaction c.1 c.2).adds, parseGen1Path entry.2 = none) ∧
    ∀ c' ∈ compactions, (c.1 = c'.1 → c = c') ∧
      ∀ entry ∈ (Manifest.compaction c.1 c.2).adds,
        (entry ∈ (Manifest.compaction c'.1 c'.2).removes → c.1 ≤ c'.1) ∧
        (entry ∈ (Manifest.compaction c'.1 c'.2).adds → c = c')
deriving Decidable

set_option synthInstance.maxSize 1024 in
def ofLists (hlawful : Lawful wal compactions tableOf) : Streams where
  wal := {s | s ∈ wal}
  compactions := {c | c ∈ compactions}
  tableOf := tableOf
  wal_owned s hs := (hlawful.1 s hs).1
  wal_numbered s hs := (hlawful.1 s hs).2.1
  wal_distinct s hs s' hs' := ((hlawful.1 s hs).2.2.2.2 s' hs').1
  wal_sequence s hs := (hlawful.1 s hs).2.2.1
  wal_paths s hs := (hlawful.1 s hs).2.2.2.1
  compaction_owned c hc := (hlawful.2 c hc).1
  compaction_distinct c hc c' hc' := ((hlawful.2 c hc).2.2 c' hc').1
  compaction_paths c hc := (hlawful.2 c hc).2.1
  compaction_inputs c hc c' hc' entry hentry := (((hlawful.2 c hc).2.2 c' hc').2 entry hentry).1
  compaction_added_once c hc c' hc' entry hentry :=
    (((hlawful.2 c hc).2.2 c' hc').2 entry hentry).2
  wal_added_once s hs s' hs' := ((hlawful.1 s hs).2.2.2.2 s' hs').2

variable {wal compactions tableOf}

instance (hlawful : Lawful wal compactions tableOf) (cluster : Cluster) (action : ClusterAction) :
    Decidable ((ofLists wal compactions tableOf hlawful).InOrder cluster action) :=
  match action with
  | .publishWal s => inferInstanceAs (Decidable (s ∈ wal ∧ ∀ s' ∈ wal, s'.nodeId = s.nodeId →
      s'.snapshotSequenceNumber < s.snapshotSequenceNumber → s' ∈ cluster.store.walSnapshots))
  | .mint id s => inferInstanceAs (Decidable ((id, s) ∈ compactions))
  | .publishCompaction id s => inferInstanceAs (Decidable ((id, s) ∈ compactions ∧
      ∀ c ∈ compactions, c.1 < id → c ∈ cluster.store.compactions))
  | .poll (.loadWal _ unreadable) => inferInstanceAs (Decidable (unreadable = []))
  | .poll (.loadCompactions _ unreadable) => inferInstanceAs (Decidable (unreadable = []))
  | .poll .fail | .poll .fold | .poll .gc => inferInstanceAs (Decidable True)

def writerFile (walSeq ordinal : Nat) : ParquetFile where
  id := ordinal
  path := parquetFilePath "writer" 1 1 "2026-01-01/00-00" walSeq ordinal
  sizeBytes := 1
  rowCount := 1
  chunkTime := 0
  minTime := 0
  maxTime := 0

def oneTable (files : List ParquetFile) : DatabaseTables where
  tables := [(⟨1, 1⟩, files)]
  nodup_keys := List.nodup_singleton _

/-- A writer's manifest that adds files to one table. -/
def writerManifest (seq : Nat) (files : List ParquetFile) : PersistedSnapshot where
  nodeId := "writer"
  snapshotSequenceNumber := seq
  walFileSequenceNumber := seq
  databases := oneTable files
  removedFiles := .empty

def compactorFile (compactionId : String) : ParquetFile :=
  { writerFile 0 0 with
    path := compactedFilePath "compactor" "db" 1 "t" 1 2 "2026-01-01/00-00" compactionId }

def compactionOf (compactionId : String) (inputs : List ParquetFile) :
    String × PersistedSnapshot :=
  (compactionId,
    { nodeId := "compactor"
      snapshotSequenceNumber := 0
      walFileSequenceNumber := 0
      databases := oneTable [compactorFile compactionId]
      removedFiles := oneTable inputs })

end Listed

/-- What a tombstone's key says about its path. -/
def KeySound (streams : Streams) (path : String) : TombstoneGc → Prop
  | .walSeq nodeId walSeq => parseGen1Path path = some (nodeId, walSeq)
  | .compaction removingId => parseGen1Path path = none ∧ ∃ c ∈ streams.compactions,
      c.1 = removingId ∧ ∃ key, (key, path) ∈ (Manifest.compaction c.1 c.2).removes
  | .objectGone => True

/-- What holds of every run in stream order: the poller misses nothing, what is published is the
beginning of each stream, and the keys of the tombstones are sound. -/
structure Streaming (streams : Streams) (cluster : Cluster) : Prop where
  caught : cluster.poller.CaughtUp cluster.store
  wal_mem : ∀ s ∈ cluster.store.walSnapshots, s ∈ streams.wal
  wal_closed : ∀ s ∈ cluster.store.walSnapshots, ∀ s' ∈ streams.wal, s'.nodeId = s.nodeId →
    s'.snapshotSequenceNumber ≤ s.snapshotSequenceNumber → s' ∈ cluster.store.walSnapshots
  compactions_mem : ∀ c ∈ cluster.store.compactions, c ∈ streams.compactions
  compactions_closed : ∀ c ∈ cluster.store.compactions, ∀ c' ∈ streams.compactions,
    c'.1 ≤ c.1 → c' ∈ cluster.store.compactions
  keys : ∀ path gc, gc ∈ cluster.poller.inner.removedTombstones.lookup path →
    streams.KeySound path gc

variable {cluster next : Cluster} {action : ClusterAction}

theorem Streaming.folded_mem (hstreaming : streams.Streaming cluster)
    (hm : m ∈ cluster.poller.folded) : m ∈ streams.manifests := by
  cases m with
  | wal s =>
    exact hstreaming.wal_mem s (hstreaming.caught.wal_grounded.taken_published s hm)
  | compaction id s =>
    exact hstreaming.compactions_mem (id, s)
      (hstreaming.caught.compactions_grounded.taken_published (id, s) hm)

variable {s : PersistedSnapshot}

section

variable (hstreaming : streams.Streaming cluster)
include hstreaming

/-- Every manifest of the writers' streams the cursors have passed has been folded. -/
theorem Streaming.wal_folded (hs : s ∈ streams.wal)
    (hpassed : s.snapshotSequenceNumber ≤ cluster.poller.walCursors s.nodeId) :
    .wal s ∈ cluster.poller.folded := by
  have hcaught := hstreaming.caught
  obtain ⟨last, hlast, hnode, hle⟩ :=
    hcaught.wal_grounded.passed_behind s (streams.wal_numbered s hs) hpassed
  have hpublished := hcaught.wal_grounded.taken_published last hlast
  exact hcaught.wal.passed_taken s (hstreaming.wal_closed last hpublished s hs hnode hle) hpassed

theorem Streaming.compaction_folded {c : String × PersistedSnapshot} (hc : c ∈ streams.compactions)
    (hpassed : compactionFeed.passed cluster.poller.compactionCursor c) :
    .compaction c.1 c.2 ∈ cluster.poller.folded := by
  have hcaught := hstreaming.caught
  obtain ⟨last, hlast, hle⟩ :=
    hcaught.compactions_grounded.passed_behind c (Set.mem_univ c) hpassed
  have hpublished := hcaught.compactions_grounded.taken_published last hlast
  exact hcaught.compactions.passed_taken c
    (hstreaming.compactions_closed last hpublished c hc hle) hpassed

/-- Every manifest of the streams the cursors have passed has been folded. -/
theorem Streaming.folded_of_passed
    (hm : m ∈ streams.manifests) (hpassed : cluster.poller.watermarks.Passed m) :
    m ∈ cluster.poller.folded := by
  cases m with
  | wal s => exact hstreaming.wal_folded hm hpassed
  | compaction id s => exact hstreaming.compaction_folded hm hpassed

theorem Streaming.passed_of_folded
    (hm : m ∈ cluster.poller.folded) : cluster.poller.watermarks.Passed m := by
  cases m with
  | wal s => exact hstreaming.caught.wal_grounded.taken_passed s hm
  | compaction id s => exact hstreaming.caught.compactions_grounded.taken_passed (id, s) hm

end

/-- The adder of a compactor's path is not behind a compaction that removes it. -/
theorem adder_of_removal {id : String}
    (hremover : (id, s) ∈ streams.compactions)
    (hremoves : (streams.tableOf path, path) ∈ (Manifest.compaction id s).removes)
    (hnone : parseGen1Path path = none) (hm : m ∈ streams.manifests)
    (hadds : (key, path) ∈ m.adds) :
    ∃ id' s', m = .compaction id' s' ∧ (id', s') ∈ streams.compactions ∧ id' ≤ id := by
  cases m with
  | wal s' =>
    have hparse := streams.wal_paths s' hm _ hadds
    simp [hnone] at hparse
  | compaction id' s' =>
    obtain rfl := (streams.owned hm).of_mem_adds hadds
    exact ⟨id', s', rfl, hm, streams.compaction_inputs (id', s') hm (id, s) hremover _ hadds
      hremoves⟩

variable {gc : TombstoneGc}

/-- A tombstone that is dropped at marks the cursors have reached is not needed: whatever adds its
path has been folded. -/
theorem Streaming.adder_folded (hstreaming : streams.Streaming cluster)
    {marks : InventoryWatermarks} (hmarks : marks.Le cluster.poller.watermarks)
    (hgc : gc ∈ cluster.poller.inner.removedTombstones.lookup path)
    (hdropped : Inner.keepsTombstone marks.wal marks.compaction gc = false)
    (hm : m ∈ streams.manifests) (hadds : (key, path) ∈ m.adds) : m ∈ cluster.poller.folded := by
  have hkey := hstreaming.keys path gc hgc
  refine hstreaming.folded_of_passed hm (InventoryWatermarks.Passed.mono ?_ hmarks)
  cases gc with
  | walSeq nodeId walSeq =>
    simp only [Inner.keepsTombstone, decide_eq_false_iff_not, not_lt] at hdropped
    change parseGen1Path path = some (nodeId, walSeq) at hkey
    cases m with
    | wal s =>
      have hparse := streams.wal_paths s hm _ hadds
      simp only [hkey, some.injEq, Prod.mk.injEq] at hparse
      have hle := streams.wal_sequence s hm
      change s.snapshotSequenceNumber ≤ marks.wal s.nodeId
      rw [← hparse.1]
      omega
    | compaction id s =>
      have hnone := streams.compaction_paths (id, s) hm _ hadds
      simp [hkey] at hnone
  | compaction removingId =>
    obtain ⟨hnone, c, hc, rfl, key', hremoves⟩ := hkey
    obtain rfl := (streams.compaction_owned c hc).of_mem_removes hremoves
    obtain ⟨id, s, rfl, _, hle⟩ := adder_of_removal hc hremoves hnone hm hadds
    cases hmark : marks.compaction with
    | none => simp [Inner.keepsTombstone, hmark] at hdropped
    | some mark =>
      simp only [Inner.keepsTombstone, hmark, all_some, decide_eq_false_iff_not,
        not_lt] at hdropped
      exact ⟨mark, hmark, hle.trans hdropped⟩
  | objectGone => simp [Inner.keepsTombstone] at hdropped

theorem streaming_initial (streams : Streams) : streams.Streaming {} where
  caught := Poller.caughtUp_initial
  wal_mem := by simp
  wal_closed := by simp
  compactions_mem := by simp
  compactions_closed := by simp
  keys := by simp

theorem keySound_fold {inner : Inner} (hm : m ∈ streams.manifests)
    (hkeys : ∀ gc, gc ∈ inner.removedTombstones.lookup path → streams.KeySound path gc)
    (hgc : gc ∈ (inner.fold m).removedTombstones.lookup path) : streams.KeySound path gc := by
  rw [Inner.fold_eq] at hgc
  rcases lookup_addPersistedSnapshot hgc with hold | ⟨⟨key, hremoves⟩, hkey⟩
  · exact hkeys gc hold
  · unfold tombstoneGc at hkey
    cases hparse : parseGen1Path path with
    | some parsed =>
      simp only [hparse, some.injEq] at hkey
      subst hkey
      exact hparse
    | none =>
      simp only [hparse] at hkey
      cases m with
      | wal s => simp [Manifest.compactionId] at hkey
      | compaction id s =>
        simp only [Manifest.compactionId, map_some, some.injEq] at hkey
        subst hkey
        exact ⟨hparse, (id, s), hm, rfl, key, hremoves⟩

section

variable (hstreaming : streams.Streaming cluster)
include hstreaming

theorem Streaming.nextManifest_mem (hnext : cluster.poller.nextManifest = some m) :
    m ∈ streams.manifests ∧ m ∉ cluster.poller.folded := by
  have hcaught := hstreaming.caught
  unfold Poller.nextManifest at hnext
  split at hnext
  case h_1 s rest hwal =>
    obtain rfl := some.inj hnext
    have hmem : s ∈ cluster.poller.newWal := by simp [hwal]
    exact ⟨hstreaming.wal_mem s (hcaught.wal_grounded.pending_published s hmem), fun hfolded =>
      hcaught.tidy.wal.unpassed s hmem (hcaught.wal_grounded.taken_passed s hfolded)⟩
  case h_2 c rest _ hcompactions =>
    obtain rfl := some.inj hnext
    have hmem : c ∈ cluster.poller.newCompactions := by simp [hcompactions]
    exact ⟨hstreaming.compactions_mem c (hcaught.compactions_grounded.pending_published c hmem),
      fun hfolded => hcaught.tidy.compactions.unpassed c hmem
        (hcaught.compactions_grounded.taken_passed c hfolded)⟩
  case h_3 => simp at hnext

theorem Streaming.publishWal (hinorder : streams.InOrder cluster (.publishWal s))
    (hstep : cluster.step (.publishWal s) = some next) : streams.Streaming next := by
  obtain ⟨store, hstore, rfl⟩ := map_eq_some_iff.mp hstep
  obtain ⟨hs, hearlier⟩ := hinorder
  obtain ⟨_, hwal, hcompactions⟩ := Store.publishWalSnapshot_eq_some hstore
  refine ⟨hstreaming.caught.publishWalSnapshot hstore, ?_, ?_, ?_, ?_, hstreaming.keys⟩
  · intro s' hs'
    rcases mem_concat.mp (hwal ▸ hs') with hold | hnew
    · exact hstreaming.wal_mem s' hold
    · rwa [hnew]
  · intro last hlast s' hs' hnode hle
    rw [hwal]
    rcases mem_concat.mp (hwal ▸ hlast) with hold | hnew
    · exact List.mem_append_left _ (hstreaming.wal_closed last hold s' hs' hnode hle)
    · rw [hnew] at hnode hle
      rcases hle.lt_or_eq with hlt | heq
      · exact List.mem_append_left _ (hearlier s' hs' hnode hlt)
      · rw [streams.wal_distinct s' hs' s hs hnode heq]
        simp
  · rw [hcompactions]
    exact hstreaming.compactions_mem
  · rw [hcompactions]
    exact hstreaming.compactions_closed

theorem Streaming.publishCompaction {id : String}
    (hinorder : streams.InOrder cluster (.publishCompaction id s))
    (hstep : cluster.step (.publishCompaction id s) = some next) : streams.Streaming next := by
  simp only [Cluster.step, ite_none_right_eq_some, map_eq_some_iff] at hstep
  obtain ⟨_, store, hstore, rfl⟩ := hstep
  obtain ⟨hs, hearlier⟩ := hinorder
  obtain ⟨hnew, hcompactions, hwal⟩ := Store.publishCompaction_eq_some hstore
  have hlatest : ∀ c ∈ cluster.store.compactions, c.1 < id := by
    intro c hc
    by_contra hge
    exact hnew (id, s) (hstreaming.compactions_closed c hc (id, s) hs (not_lt.mp hge)) rfl
  have hbelow : cluster.poller.Below id := by
    have hahead : ∀ c ∈ {c | c ∈ cluster.store.compactions},
        ¬compactionFeed.behind (id, s) c := fun c hc hle => absurd (hlatest c hc) (not_lt.mpr hle)
    obtain ⟨hunpassed, hpending⟩ :=
      hstreaming.caught.compactions_grounded.ahead_of_published (Set.mem_univ _) hahead
    exact ⟨fun cursor hcursor => lt_of_not_ge fun hle => hunpassed ⟨cursor, hcursor, hle⟩,
      fun c hc => lt_of_not_ge (hpending c hc)⟩
  refine ⟨hstreaming.caught.publishCompaction hbelow hstore, ?_, ?_, ?_, ?_, hstreaming.keys⟩
  · rw [hwal]
    exact hstreaming.wal_mem
  · rw [hwal]
    exact hstreaming.wal_closed
  · intro c hc
    rcases mem_concat.mp (hcompactions ▸ hc) with hold | hlast
    · exact hstreaming.compactions_mem c hold
    · rwa [hlast]
  · intro last hlast c hc hle
    rw [hcompactions]
    rcases mem_concat.mp (hcompactions ▸ hlast) with hold | hself
    · exact List.mem_append_left _ (hstreaming.compactions_closed last hold c hc hle)
    · rw [hself] at hle
      rcases hle.lt_or_eq with hlt | heq
      · exact List.mem_append_left _ (hearlier c hc hlt)
      · rw [streams.compaction_distinct c hc (id, s) hs heq]
        simp

/-- A step of the poller leaves the keys of the tombstones sound. -/
theorem Streaming.poll {pollerAction : PollerAction}
    (hinorder : streams.InOrder cluster (.poll pollerAction))
    (hstep : cluster.step (.poll pollerAction) = some next) : streams.Streaming next := by
  obtain ⟨poller, hpoller, rfl⟩ := map_eq_some_iff.mp hstep
  have hreads : pollerAction.ReadsInOrder := by
    cases pollerAction with
    | loadWal listing unreadable =>
      subst hinorder
      simp [PollerAction.ReadsInOrder]
    | loadCompactions listing unreadable =>
      subst hinorder
      simp [PollerAction.ReadsInOrder]
    | fail | fold | gc => trivial
  refine { hstreaming with caught := hstreaming.caught.step hreads hpoller, keys := ?_ }
  intro path gc hgc
  cases pollerAction with
  | loadWal listing unreadable =>
    obtain ⟨_, rfl⟩ := Poller.step_loadWal hpoller
    exact hstreaming.keys path gc hgc
  | loadCompactions listing unreadable =>
    obtain ⟨_, rfl⟩ := Poller.step_loadCompactions hpoller
    exact hstreaming.keys path gc hgc
  | fail =>
    obtain ⟨_, rfl⟩ := Poller.step_fail hpoller
    exact hstreaming.keys path gc hgc
  | fold =>
    obtain ⟨m, hm, hinner, _⟩ := Poller.step_fold_manifest hpoller
    rw [hinner] at hgc
    exact keySound_fold (hstreaming.nextManifest_mem hm).1 (hstreaming.keys path) hgc
  | gc =>
    obtain ⟨_, rfl⟩ := Poller.step_gc hpoller
    exact hstreaming.keys path gc (mem_lookup_retain.mp hgc).1

theorem Streaming.step
    (hinorder : streams.InOrder cluster action) (hstep : cluster.step action = some next) :
    streams.Streaming next := by
  cases action with
  | publishWal s => exact hstreaming.publishWal hinorder hstep
  | mint id s =>
    simp only [Cluster.step, ite_none_right_eq_some, some.injEq] at hstep
    obtain ⟨_, rfl⟩ := hstep
    exact { hstreaming with }
  | publishCompaction id s => exact hstreaming.publishCompaction hinorder hstep
  | poll pollerAction => exact hstreaming.poll hinorder hstep

end

end Streams

end RefluxDb.Write
