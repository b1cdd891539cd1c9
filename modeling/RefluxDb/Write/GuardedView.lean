import RefluxDb.Write.Streams

/-! What the tombstones guard a node's view against.

A removal that finds its file leaves no tombstone, and a tombstone is dropped when the cursors have
passed its key. In both cases every manifest that could add the path has been folded, so a path
that was removed for good does not come back. For a writer's path the key is the WAL file number in
the path while the cursor counts snapshots, so what makes the comparison safe is that a snapshot's
number is never above its last WAL file number. -/

namespace RefluxDb.Write

open RefluxDb.Library

namespace Streams

/-- Every manifest of the streams that adds the path has been folded. -/
def AddersFolded (streams : Streams) (cluster : Cluster) (path : String) : Prop :=
  ∀ m ∈ streams.manifests, (streams.tableOf path, path) ∈ m.adds → m ∈ cluster.poller.folded

/-- No live path was removed for good, and a removal for good is remembered until whatever adds its
path has been folded. -/
structure Guarded (streams : Streams) (cluster : Cluster) : Prop where
  streaming : streams.Streaming cluster
  place : cluster.poller.inner.Owned streams.tableOf
  source : ∀ path ∈ (cluster.poller.inner.view streams.tableOf).live,
    (parseGen1Path path).isSome →
      ∃ m ∈ cluster.poller.folded, (streams.tableOf path, path) ∈ m.adds
  clean : ∀ path ∈ (cluster.poller.inner.view streams.tableOf).live,
    path ∉ TombstoneSet.buriable (changesOf streams.tableOf cluster.poller.folded)
  evicted : ∀ path, .objectGone ∈ cluster.poller.inner.removedTombstones.lookup path →
    (parseGen1Path path).isSome → streams.AddersFolded cluster path
  remembers : ∀ path ∈ TombstoneSet.buriable (changesOf streams.tableOf cluster.poller.folded),
    path ∈ cluster.poller.inner.removedTombstones ∨ streams.AddersFolded cluster path

variable {streams : Streams} {cluster next : Cluster} {m : Manifest} {path : String}

theorem AddersFolded.mono (hfolded : streams.AddersFolded cluster path)
    (hsub : cluster.poller.folded ⊆ next.poller.folded) : streams.AddersFolded next path :=
  fun m hm hadds => hsub (hfolded m hm hadds)

/-- A path is added once, so one folded manifest that adds it is all of them. -/
theorem addersFolded_of_mem (hstreaming : streams.Streaming cluster)
    (hm : m ∈ cluster.poller.folded) (hadds : (streams.tableOf path, path) ∈ m.adds) :
    streams.AddersFolded cluster path := by
  intro m' hm' hadds'
  rwa [added_once hm' (hstreaming.folded_mem hm) hadds' hadds]

/-- Compactions are folded in the order of their ids, so what adds a compactor's path is folded
no later than a compaction that removes it. -/
theorem addersFolded_of_compaction (hstreaming : streams.Streaming cluster) {id : String}
    {s : PersistedSnapshot} (hm : .compaction id s ∈ cluster.poller.folded)
    (hremoves : (streams.tableOf path, path) ∈ (Manifest.compaction id s).removes)
    (hnone : parseGen1Path path = none) : streams.AddersFolded cluster path := by
  intro m' hm' hadds
  obtain ⟨id', s', rfl, _, hle⟩ :=
    adder_of_removal (hstreaming.folded_mem hm) hremoves hnone hm' hadds
  obtain ⟨cursor, hcursor, hpassed⟩ := hstreaming.passed_of_folded hm
  exact hstreaming.folded_of_passed hm' ⟨cursor, hcursor, hle.trans hpassed⟩

theorem guarded_initial (streams : Streams) : streams.Guarded {} where
  streaming := streams.streaming_initial
  place := by simp [Inner.Owned, Files.paths]
  source path hlive := by simp [Inner.view, Files.paths] at hlive
  clean path hlive := by simp [Inner.view, Files.paths] at hlive
  evicted path hgone := by simp at hgone
  remembers path hpath := by simp [changesOf, TombstoneSet.buriable] at hpath

/-- A fold never leaves a tombstone for a missing object. -/
theorem objectGone_of_fold {inner : Inner}
    (hgone : .objectGone ∈ (inner.fold m).removedTombstones.lookup path) :
    .objectGone ∈ inner.removedTombstones.lookup path := by
  rw [Inner.fold_eq] at hgone
  rcases lookup_addPersistedSnapshot hgone with hold | ⟨_, hkey⟩
  · exact hold
  · unfold tombstoneGc at hkey
    cases hparse : parseGen1Path path <;> simp [hparse] at hkey

section

variable (hguarded : streams.Guarded cluster)
include hguarded

/-- A removal for good finds its path present only after what adds it. -/
theorem Guarded.addersFolded_of_present
    (hstreaming : streams.Streaming next) (hm : m ∈ streams.manifests)
    (hfolded : next.poller.folded = cluster.poller.folded ++ [m])
    (hremoves : (streams.tableOf path, path) ∈ m.removes)
    (hburies : (parseGen1Path path).isSome ∨ m.compactionId.isSome)
    (hpresent : path ∈ (cluster.poller.inner.view streams.tableOf).live ∨
      (streams.tableOf path, path) ∈ m.adds) : streams.AddersFolded next path := by
  have hmem : m ∈ next.poller.folded := by simp [hfolded]
  cases hparse : parseGen1Path path with
  | some parsed =>
    rcases hpresent with hlive | hadds
    · obtain ⟨m', hm', hadds'⟩ := hguarded.source path hlive (by simp [hparse])
      exact addersFolded_of_mem hstreaming (by simp [hfolded, hm']) hadds'
    · exact addersFolded_of_mem hstreaming hmem hadds
  | none =>
    cases m with
    | wal s => simp [hparse, Manifest.compactionId] at hburies
    | compaction id s => exact addersFolded_of_compaction hstreaming hmem hremoves hparse

theorem Guarded.fold (hstreaming : streams.Streaming next)
    (hnext : cluster.poller.nextManifest = some m)
    (hinner : next.poller.inner = cluster.poller.inner.fold m)
    (hfolded : next.poller.folded = cluster.poller.folded ++ [m]) : streams.Guarded next := by
  obtain ⟨hm, hnew⟩ := hguarded.streaming.nextManifest_mem hnext
  have howned := streams.owned hm
  have hsub : cluster.poller.folded ⊆ next.poller.folded := by simp [hfolded]
  have hview : next.poller.inner.view streams.tableOf =
      (cluster.poller.inner.view streams.tableOf).apply (m.change streams.tableOf) := by
    rw [hinner]
    exact view_fold howned
  refine ⟨hstreaming, ?_, ?_, ?_, ?_, ?_⟩
  · rw [hinner]
    exact hguarded.place.fold howned
  · intro path hlive hgen1
    rw [hview] at hlive
    rcases hlive.1 with hold | ⟨hadds, _⟩
    · obtain ⟨m', hm', hadds⟩ := hguarded.source path hold hgen1
      exact ⟨m', hsub hm', hadds⟩
    · exact ⟨m, by simp [hfolded], hadds⟩
  · intro path hlive hburiable
    rw [hview] at hlive
    rw [mem_buriable_changesOf, hfolded] at hburiable
    obtain ⟨r, hr, hremoves, hburies⟩ := hburiable
    rcases mem_concat.mp hr with hold | hself
    · have hbefore := mem_buriable_changesOf.mpr ⟨r, hold, hremoves, hburies⟩
      rcases hlive.1 with hlivebefore | ⟨hadds, hnotburied⟩
      · exact hguarded.clean path hlivebefore hbefore
      · rcases hguarded.remembers path hbefore with htombstone | hadders
        · exact hnotburied htombstone
        · exact hnew (hadders m hm hadds)
    · rw [hself] at hremoves
      exact hlive.2 hremoves
  · intro path hgone hgen1
    rw [hinner] at hgone
    exact (hguarded.evicted path (objectGone_of_fold hgone) hgen1).mono hsub
  · intro path hburiable
    change path ∈ (next.poller.inner.view streams.tableOf).buried ∨ _
    rw [hview]
    rw [mem_buriable_changesOf, hfolded] at hburiable
    obtain ⟨r, hr, hremoves, hburies⟩ := hburiable
    rcases mem_concat.mp hr with hold | rfl
    · rcases hguarded.remembers path
          (mem_buriable_changesOf.mpr ⟨r, hold, hremoves, hburies⟩) with htombstone | hadders
      · exact .inl (.inl htombstone)
      · exact .inr (hadders.mono hsub)
    · by_cases hpresent : path ∈ (cluster.poller.inner.view streams.tableOf).live ∨
          path ∈ (r.change streams.tableOf).adds ∧
            path ∉ (cluster.poller.inner.view streams.tableOf).buried
      · exact .inr (hguarded.addersFolded_of_present hstreaming hm hfolded hremoves hburies
          (hpresent.imp_right And.left))
      · exact .inl (.inr ⟨⟨hremoves, tombstoneGc_isSome.mpr hburies⟩, hpresent⟩)

/-- Dropping tombstones at marks the cursors have reached forgets no removal that is still
needed. -/
theorem Guarded.gc (hstreaming : streams.Streaming next)
    {marks : InventoryWatermarks} (hmarks : marks.Le cluster.poller.watermarks)
    (hinner : next.poller.inner =
      cluster.poller.inner.gcTombstones marks.wal marks.compaction)
    (hfolded : next.poller.folded = cluster.poller.folded) : streams.Guarded next := by
  have hsub : cluster.poller.folded ⊆ next.poller.folded := by simp [hfolded]
  refine ⟨hstreaming, ?_, ?_, ?_, ?_, ?_⟩
  · rw [hinner]
    exact hguarded.place
  · rw [hinner, hfolded]
    exact hguarded.source
  · rw [hinner, hfolded]
    exact hguarded.clean
  · intro path hgone
    rw [hinner] at hgone
    exact fun hgen1 => (hguarded.evicted path (mem_lookup_retain.mp hgone).1 hgen1).mono hsub
  · intro path hburiable
    rw [hfolded] at hburiable
    rcases hguarded.remembers path hburiable with htombstone | hadders
    · obtain ⟨gc, hgc⟩ := mem_iff_exists_lookup.mp htombstone
      cases hkeeps : Inner.keepsTombstone marks.wal marks.compaction gc with
      | true =>
        left
        rw [hinner]
        exact mem_retain.mpr ⟨gc, hgc, hkeeps⟩
      | false =>
        exact .inr fun m hm hadds =>
          hsub (hguarded.streaming.adder_folded hmarks hgc hkeeps hm hadds)
    · exact .inr (hadders.mono hsub)

/-- A step that changes neither the view nor the history of folds. -/
theorem Guarded.of_same (hstreaming : streams.Streaming next)
    (hinner : next.poller.inner = cluster.poller.inner)
    (hfolded : next.poller.folded = cluster.poller.folded) : streams.Guarded next := by
  have hsub : cluster.poller.folded ⊆ next.poller.folded := by simp [hfolded]
  refine ⟨hstreaming, ?_, ?_, ?_, ?_, ?_⟩
  · rw [hinner]
    exact hguarded.place
  · rw [hinner, hfolded]
    exact hguarded.source
  · rw [hinner, hfolded]
    exact hguarded.clean
  · rw [hinner]
    exact fun path hgone hgen1 => (hguarded.evicted path hgone hgen1).mono hsub
  · rw [hinner, hfolded]
    exact fun path hburiable => (hguarded.remembers path hburiable).imp_right (·.mono hsub)

end

variable {action : ClusterAction}

/-- What a step of the cluster does to the view: nothing, one fold, or dropping tombstones. -/
theorem view_step (hstep : cluster.step action = some next) :
    (next.poller.inner = cluster.poller.inner ∧ next.poller.folded = cluster.poller.folded) ∨
    (action = .poll .fold ∧ ∃ m, cluster.poller.nextManifest = some m ∧
      next.poller.inner = cluster.poller.inner.fold m ∧
      next.poller.folded = cluster.poller.folded ++ [m]) ∨
    action = .poll .gc ∧ next.poller.inner = cluster.poller.inner.gcTombstones
      cluster.poller.watermarks.wal cluster.poller.watermarks.compaction ∧
      next.poller.folded = cluster.poller.folded := by
  cases action with
  | publishWal s =>
    obtain ⟨store, _, rfl⟩ := Option.map_eq_some_iff.mp hstep
    exact .inl ⟨rfl, rfl⟩
  | mint id s =>
    simp only [Cluster.step, Option.ite_none_right_eq_some, Option.some.injEq] at hstep
    obtain ⟨_, rfl⟩ := hstep
    exact .inl ⟨rfl, rfl⟩
  | publishCompaction id s =>
    simp only [Cluster.step, Option.ite_none_right_eq_some, Option.map_eq_some_iff] at hstep
    obtain ⟨_, store, _, rfl⟩ := hstep
    exact .inl ⟨rfl, rfl⟩
  | poll pollerAction =>
    obtain ⟨poller, hpoller, rfl⟩ := Option.map_eq_some_iff.mp hstep
    cases pollerAction with
    | loadWal listing unreadable =>
      obtain ⟨_, rfl⟩ := Poller.step_loadWal hpoller
      exact .inl ⟨rfl, rfl⟩
    | loadCompactions listing unreadable =>
      obtain ⟨_, rfl⟩ := Poller.step_loadCompactions hpoller
      exact .inl ⟨rfl, rfl⟩
    | fail =>
      obtain ⟨_, rfl⟩ := Poller.step_fail hpoller
      exact .inl ⟨rfl, rfl⟩
    | fold => exact .inr (.inl ⟨rfl, Poller.step_fold_manifest hpoller⟩)
    | gc =>
      obtain ⟨_, rfl⟩ := Poller.step_gc hpoller
      exact .inr (.inr ⟨rfl, rfl, rfl⟩)

theorem Guarded.step (hguarded : streams.Guarded cluster)
    (hinorder : streams.InOrder cluster action) (hstep : cluster.step action = some next) :
    streams.Guarded next := by
  have hstreaming := hguarded.streaming.step hinorder hstep
  obtain ⟨hinner, hfolded⟩ | ⟨_, m, hm, hinner, hfolded⟩ | ⟨_, hinner, hfolded⟩ := view_step hstep
  · exact hguarded.of_same hstreaming hinner hfolded
  · exact hguarded.fold hstreaming hm hinner hfolded
  · exact hguarded.gc hstreaming (InventoryWatermarks.Le.refl _) hinner hfolded

end Streams

end RefluxDb.Write
