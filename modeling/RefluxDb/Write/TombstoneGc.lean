import RefluxDb.Write.GuardedView

/-! Whether the view of a node is what the manifests it has folded settle to.

The fold is meant to leave all paths the folded manifests add without all they remove, and
collecting tombstones behind the cursors is meant to forget nothing that is still needed. The
second holds along every run in stream order. The first holds when no fold adds a compactor's file
that only writers' manifests have removed before: such a removal leaves no tombstone. -/

namespace RefluxDb.Write

open RefluxDb.Library

namespace Streams

variable {streams : Streams} {cluster next : Cluster} {action : ClusterAction} {m : Manifest}

/-- The view is guarded, and is what the folded manifests settle to. -/
structure Consistent (streams : Streams) (cluster : Cluster) : Prop where
  guarded : streams.Guarded cluster
  settles : TombstoneSet.Settles (changesOf streams.tableOf cluster.poller.folded)
    (cluster.poller.inner.view streams.tableOf)

theorem consistent_initial (streams : Streams) : streams.Consistent {} where
  guarded := streams.guarded_initial
  settles := by
    rw [view_empty]
    exact TombstoneSet.settles_empty

/-- No fold adds a compactor's file that only writers' manifests have removed before. -/
def NoRemovalAhead (cluster : Cluster) : ClusterAction → Prop
  | .poll .fold => ∀ m ∈ cluster.poller.nextManifest, m.RemovalsBuried cluster.poller.folded
  | _ => True

instance (cluster : Cluster) : (action : ClusterAction) → Decidable (NoRemovalAhead cluster action)
  | .poll .fold => inferInstanceAs (Decidable (∀ m ∈ cluster.poller.nextManifest, _))
  | .poll (.loadWal ..) | .poll (.loadCompactions ..) | .poll .fail | .poll .gc | .publishWal _
  | .mint .. | .publishCompaction .. => .isTrue trivial

/-- A fold keeps a guarded view settled. -/
theorem Consistent.fold (hconsistent : streams.Consistent cluster)
    (hguarded : streams.Guarded next)
    (hnext : cluster.poller.nextManifest = some m)
    (hburied : m.RemovalsBuried cluster.poller.folded)
    (hinner : next.poller.inner = cluster.poller.inner.fold m)
    (hfolded : next.poller.folded = cluster.poller.folded ++ [m]) :
    streams.Consistent next := by
  obtain ⟨hm, hnew⟩ := hconsistent.guarded.streaming.nextManifest_mem hnext
  have howned := streams.owned hm
  have hchanges : changesOf streams.tableOf next.poller.folded =
      changesOf streams.tableOf cluster.poller.folded ++ [m.change streams.tableOf] := by
    simp [changesOf, hfolded]
  refine ⟨hguarded, ?_⟩
  rw [hchanges, hinner, view_fold howned]
  refine hconsistent.settles.apply fun path hadds hremoved => ?_
  rcases (Manifest.removalsBuried_iff howned).mp hburied path hadds hremoved with hself | hbefore
  · exact .inr hself
  · rcases hconsistent.guarded.remembers path hbefore with htombstone | hadders
    · exact .inl htombstone
    · exact absurd (hadders m hm hadds) hnew

theorem Consistent.step (hconsistent : streams.Consistent cluster)
    (hallowed : streams.InOrder cluster action ∧ NoRemovalAhead cluster action)
    (hstep : cluster.step action = some next) : streams.Consistent next := by
  have hguarded := hconsistent.guarded.step hallowed.1 hstep
  obtain ⟨hinner, hfolded⟩ | ⟨rfl, m, hm, hinner, hfolded⟩ | ⟨_, hinner, hfolded⟩ :=
    view_step hstep
  · refine ⟨hguarded, ?_⟩
    rw [hinner, hfolded]
    exact hconsistent.settles
  · exact hconsistent.fold hguarded hm (hallowed.2 m hm) hinner hfolded
  · refine ⟨hguarded, ?_⟩
    rw [hinner, hfolded]
    exact hconsistent.settles.forget rfl fun path hpath => mem_of_mem_retain hpath

/-- What the view of a node is for: in each table the paths whose manifest has been folded and
that no folded manifest removes. -/
def LiveSettled (cluster : Cluster) : Prop :=
  ∀ key path, (key, path) ∈ cluster.poller.inner.files.paths ↔
    (∃ m ∈ cluster.poller.folded, (key, path) ∈ m.adds) ∧
      ¬∃ m ∈ cluster.poller.folded, (key, path) ∈ m.removes

/-- The tombstones the cursors would drop are of paths that no manifest still to be folded
adds. -/
def GcSafe (streams : Streams) (cluster : Cluster) : Prop :=
  ∀ path ∈ cluster.poller.inner.removedTombstones,
    path ∉ (cluster.poller.inner.gcTombstones cluster.poller.walCursors
      cluster.poller.compactionCursor).removedTombstones →
    ∀ m ∈ streams.manifests, ∀ key, (key, path) ∈ m.adds → m ∈ cluster.poller.folded

theorem Streaming.gcSafe (hstreaming : streams.Streaming cluster) : streams.GcSafe cluster := by
  intro path htombstone hdropped m hm key hadds
  obtain ⟨gc, hgc⟩ := mem_iff_exists_lookup.mp htombstone
  refine hstreaming.adder_folded (InventoryWatermarks.Le.refl _) hgc ?_ hm hadds
  by_contra hkeeps
  exact hdropped (mem_retain.mpr ⟨gc, hgc, (Bool.not_eq_false _).mp hkeeps⟩)

/-- Along every run in stream order in which no fold adds a compactor's file that only writers'
manifests have removed before, the view is settled and collecting tombstones is safe. -/
theorem liveSettled_of_noRemovalAhead (streams : Streams) (cluster : Cluster)
    (hreachable : Cluster.machine.Reachable
      (fun cluster action => streams.InOrder cluster action ∧ NoRemovalAhead cluster action)
      cluster) :
    LiveSettled cluster ∧ streams.GcSafe cluster := by
  have hconsistent : streams.Consistent cluster := by
    refine hreachable.invariant ?_ fun _ _ _ => Consistent.step
    rintro state rfl
    exact streams.consistent_initial
  have hstreaming := hconsistent.guarded.streaming
  refine ⟨fun key path => ?_, hstreaming.gcSafe⟩
  exact hconsistent.guarded.place.mem_paths_iff
    (fun m hm => streams.owned (hstreaming.folded_mem hm)) hconsistent.settles.live

/-- A compaction's output and the writer's removal of it. -/
def removalStreams : Streams :=
  ofLists [removesOutput] [addsOutput] (fun _ => ⟨1, 1⟩) (by decide)

instance (cluster : Cluster) (action : ClusterAction) :
    Decidable (removalStreams.InOrder cluster action) :=
  inferInstanceAs (Decidable ((ofLists _ _ _ _).InOrder cluster action))

/-- The output is folded in one tick and its removal in the next. -/
theorem liveSettled_of_noRemovalAhead_later_removal :
    ∃ cluster : Cluster,
      Cluster.machine.Reachable (fun cluster action =>
        removalStreams.InOrder cluster action ∧ NoRemovalAhead cluster action) cluster ∧
      cluster.poller.folded.length = 2 ∧ LiveSettled cluster ∧ removalStreams.GcSafe cluster := by
  refine Cluster.initial_reachable.exists_of_exec_and
    [.mint addsOutput.1 addsOutput.2, .publishCompaction addsOutput.1 addsOutput.2,
      .poll (.loadWal [] []), .poll (.loadCompactions [addsOutput] []), .poll .fold, .poll .gc,
      .publishWal removesOutput, .poll (.loadWal [removesOutput] []),
      .poll (.loadCompactions [addsOutput] []), .poll .fold, .poll .gc]
    _ (by decide) (by decide) ?_
  exact liveSettled_of_noRemovalAhead removalStreams

/-- Both are folded in one tick, the writer's manifest first: the removed output is live after the
tick. -/
theorem removed_output_live_after_tick :
    ∃ (streams : Streams) (cluster : Cluster),
      Cluster.machine.Reachable streams.InOrder cluster ∧ cluster.poller.phase = .idle ∧
      ¬LiveSettled cluster := by
  obtain ⟨cluster, hreachable, hidle, hlive, hfolded⟩ : ∃ cluster,
      Cluster.machine.Reachable removalStreams.InOrder cluster ∧
        cluster.poller.phase = .idle ∧ ((⟨1, 1⟩, compactedOutput.path) : TableKey × String) ∈
          cluster.poller.inner.files.paths ∧ .wal removesOutput ∈ cluster.poller.folded :=
    Cluster.initial_reachable.exists_of_exec
      [.mint addsOutput.1 addsOutput.2, .publishCompaction addsOutput.1 addsOutput.2,
        .publishWal removesOutput, .poll (.loadWal [removesOutput] []),
        .poll (.loadCompactions [addsOutput] []), .poll .fold, .poll .fold, .poll .gc]
      _ (by decide) (by decide)
  refine ⟨removalStreams, cluster, hreachable, hidle, fun hsettled => ?_⟩
  exact ((hsettled _ _).mp hlive).2 ⟨_, hfolded, by decide⟩

end Streams

end RefluxDb.Write
