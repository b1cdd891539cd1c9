import RefluxDb.Write.ViewUpdates

/-! A compactor's view as its checkpoint writer relies on it.

The view has everything up to the marks the poller has handed out, and the tombstones of the paths
that are removed up to those marks and added above them. Both are kept by every step of the poller
and by every permitted change besides, apart from a collection at marks further on. -/

namespace RefluxDb.Write

open List Option RefluxDb.Library

/-- What only grows: the published and the folded manifests, and the cursors. -/
structure Cluster.Grows (cluster next : Cluster) : Prop where
  manifests : cluster.store.manifests ⊆ next.store.manifests
  folded : cluster.poller.folded ⊆ next.poller.folded
  watermarks : cluster.poller.watermarks.Le next.poller.watermarks

namespace Streams

variable {streams : Streams} {cluster next : Cluster} {action : ClusterAction} {m : Manifest}
variable {marks marks' : InventoryWatermarks} {inner inner' : Inner} {path : String}
variable {store store' : Store}

theorem grows_step (hstreaming : streams.Streaming cluster)
    (hstep : cluster.step action = some next) : cluster.Grows next := by
  cases action with
  | publishWal s =>
    obtain ⟨store, hstore, rfl⟩ := map_eq_some_iff.mp hstep
    obtain ⟨_, hwal, hcompactions⟩ := Store.publishWalSnapshot_eq_some hstore
    refine ⟨fun m hm => ?_, List.Subset.refl _, .refl _⟩
    simp only [Store.manifests, hwal, hcompactions, map_append, mem_append] at hm ⊢
    grind
  | mint id s =>
    simp only [Cluster.step, ite_none_right_eq_some, Option.some.injEq] at hstep
    obtain ⟨_, rfl⟩ := hstep
    exact ⟨List.Subset.refl _, List.Subset.refl _, .refl _⟩
  | publishCompaction id s =>
    simp only [Cluster.step, ite_none_right_eq_some, map_eq_some_iff] at hstep
    obtain ⟨_, store, hstore, rfl⟩ := hstep
    obtain ⟨_, hcompactions, hwal⟩ := Store.publishCompaction_eq_some hstore
    refine ⟨fun m hm => ?_, List.Subset.refl _, .refl _⟩
    simp only [Store.manifests, hwal, hcompactions, map_append, mem_append] at hm ⊢
    grind
  | poll pollerAction =>
    have hview := view_step hstep
    obtain ⟨poller, hpoller, rfl⟩ := map_eq_some_iff.mp hstep
    refine ⟨List.Subset.refl _, ?_, hstreaming.caught.tidy.watermarks_le hpoller⟩
    rcases hview with ⟨_, hfolded⟩ | ⟨_, m, _, _, hfolded⟩ | ⟨_, _, hfolded⟩
    · exact fun _ h => hfolded.symm ▸ h
    · exact fun _ h => hfolded.symm ▸ mem_append_left _ h
    · exact fun _ h => hfolded.symm ▸ h

section Growth

variable (hmanifests : store.manifests ⊆ store'.manifests)

include hmanifests

theorem addedBy_mono : streams.addedBy store ⊆ streams.addedBy store' := by
  intro path hpath
  obtain ⟨m, hm, hadds⟩ := mem_added_changesOf.mp hpath
  exact mem_added_changesOf.mpr ⟨m, hmanifests hm, hadds⟩

theorem removedBy_mono : streams.removedBy store ⊆ streams.removedBy store' := by
  intro path hpath
  obtain ⟨m, hm, hremoves⟩ := mem_removed_changesOf.mp hpath
  exact mem_removed_changesOf.mpr ⟨m, hmanifests hm, hremoves⟩

theorem Merged.mono {merged : PersistedSnapshot} (hmerged : streams.Merged store marks merged) :
    streams.Merged store' marks merged where
  place := hmerged.place
  removes := hmerged.removes
  published path hpath := addedBy_mono hmanifests (hmerged.published path hpath)
  complete m hm hpassed path hadds hkept :=
    hmerged.complete m hm hpassed path hadds fun hremoved =>
      hkept (removedBy_mono hmanifests hremoved)
  clean := hmerged.clean

theorem sound_mono {checkpoint : Checkpoint} (hsound : checkpoint.Sound streams store) :
    checkpoint.Sound streams store' where
  toMerged := hsound.toMerged.mono hmanifests
  tombstones_removed path hpath := removedBy_mono hmanifests (hsound.tombstones_removed path hpath)
  tombstones_kept := hsound.tombstones_kept

end Growth

/-- Every path that straddles the marks still has the tombstone of its removal. -/
def Retained (streams : Streams) (marks : InventoryWatermarks) (inner : Inner) : Prop :=
  ∀ path, streams.Straddles marks path →
    ∃ gc ∈ inner.removedTombstones.lookup path, gc ≠ .objectGone

/-- The cursors have only passed what was folded, so the tombstones of the paths that straddle them
are still there. -/
theorem Guarded.retained (hguarded : streams.Guarded cluster) :
    streams.Retained cluster.poller.watermarks cluster.poller.inner := by
  intro path hstraddles
  obtain ⟨r, hr, hpassed, hremoves⟩ := hstraddles.removed
  obtain ⟨s, hs, hunpassed, hadds⟩ := hstraddles.added
  have hpending : ¬streams.AddersFolded cluster path := fun hadders =>
    hunpassed (hguarded.streaming.passed_of_folded (hadders s hs hadds))
  have hburiable := mem_buriable_changesOf.mpr
    ⟨r, hguarded.streaming.folded_of_passed hr hpassed, hremoves, .inl hstraddles.gen1⟩
  rcases hguarded.remembers path hburiable with htombstone | hadders
  · obtain ⟨gc, hgc⟩ := mem_iff_exists_lookup.mp htombstone
    refine ⟨gc, hgc, ?_⟩
    rintro rfl
    exact hpending (hguarded.evicted path hgc hstraddles.gen1)
  · exact absurd hadders hpending

/-- A writer's path that is added above the marks is named after a WAL file above them. -/
theorem Straddles.keepsTombstone (hstraddles : streams.Straddles marks path) {gc : TombstoneGc}
    (hkey : streams.KeySound path gc) (hgc : gc ≠ .objectGone) :
    Inner.keepsTombstone marks.wal marks.compaction gc = true := by
  have hgen1 := hstraddles.gen1
  obtain ⟨m, hm, hunpassed, hadds⟩ := hstraddles.added
  cases gc with
  | walSeq nodeId walSeq =>
    change parseGen1Path path = some (nodeId, walSeq) at hkey
    cases m with
    | wal s =>
      have hparse := streams.wal_paths s hm _ hadds
      simp only [hkey, Option.some.injEq, Prod.mk.injEq] at hparse
      have hle := streams.wal_sequence s hm
      have hlt : marks.wal s.nodeId < s.snapshotSequenceNumber := not_le.mp hunpassed
      rw [Inner.keepsTombstone, decide_eq_true_eq, hparse.1, hparse.2]
      exact hlt.trans_le hle
    | compaction id s =>
      have hnone := streams.compaction_paths (id, s) hm _ hadds
      simp [hkey] at hnone
  | compaction removingId => simp [hkey.1] at hgen1
  | objectGone => exact absurd rfl hgc

theorem Retained.fold (hretained : streams.Retained marks inner) :
    streams.Retained marks (inner.fold m) := by
  intro path hstraddles
  obtain ⟨gc, hgc, hne⟩ := hretained path hstraddles
  have hmem : path ∈ (inner.fold m).removedTombstones := by
    rw [Inner.fold_eq]
    exact mem_addPersistedSnapshot_tombstones.mpr (.inl (mem_iff_exists_lookup.mpr ⟨gc, hgc⟩))
  obtain ⟨gc', hgc'⟩ := mem_iff_exists_lookup.mp hmem
  refine ⟨gc', hgc', ?_⟩
  rintro rfl
  exact hne (mem_unique hgc (objectGone_of_fold hgc'))

/-- Dropping tombstones at other marks is harmless if those marks keep what these keep. -/
theorem Retained.gc (hretained : streams.Retained marks inner)
    (hkeys : ∀ path gc, gc ∈ inner.removedTombstones.lookup path → streams.KeySound path gc)
    (hkeeps : ∀ path gc, gc ∈ inner.removedTombstones.lookup path →
      Inner.keepsTombstone marks.wal marks.compaction gc = true →
        Inner.keepsTombstone marks'.wal marks'.compaction gc = true) :
    streams.Retained marks (inner.gcTombstones marks'.wal marks'.compaction) := by
  intro path hstraddles
  obtain ⟨gc, hgc, hne⟩ := hretained path hstraddles
  have hkept := hstraddles.keepsTombstone (hkeys path gc hgc) hne
  exact ⟨gc, mem_lookup_retain.mpr ⟨hgc, hkeeps path gc hgc hkept⟩, hne⟩

theorem Permits.retained (hpermits : streams.Permits cluster inner)
    (hretained : streams.Retained marks cluster.poller.inner) : streams.Retained marks inner := by
  intro path hstraddles
  obtain ⟨gc, hgc, hne⟩ := hretained path hstraddles
  exact ⟨gc, hpermits.kept path gc hgc hne, hne⟩

/-- A guarded view that has only published paths, and has all that a folded manifest adds and no
published one removes. -/
structure Viewed (streams : Streams) (cluster : Cluster) : Prop where
  guarded : streams.Guarded cluster
  publishes : streams.Publishes cluster.store
  added : ∀ path ∈ (cluster.poller.inner.view streams.tableOf).live,
    path ∈ streams.addedBy cluster.store
  keeps : TombstoneSet.Keeps (TombstoneSet.added (changesOf streams.tableOf cluster.poller.folded))
    (streams.removedBy cluster.store) (cluster.poller.inner.view streams.tableOf)

theorem viewed_initial (streams : Streams) : streams.Viewed {} where
  guarded := streams.guarded_initial
  publishes := ⟨by simp, by simp, by simp⟩
  added path hlive := by simp [Inner.view, Files.paths] at hlive
  keeps := by
    rw [view_empty]
    exact ⟨fun _ hadded => absurd hadded TombstoneSet.notMem_added_nil,
      fun path hburied => absurd hburied (Set.notMem_empty path)⟩

theorem Streaming.folded_published (hstreaming : streams.Streaming cluster)
    (hm : m ∈ cluster.poller.folded) : m ∈ cluster.store.manifests := by
  cases m with
  | wal s =>
    exact Store.wal_mem_manifests.mpr (hstreaming.caught.wal_grounded.taken_published s hm)
  | compaction id s =>
    exact Store.compaction_mem_manifests.mpr
      (hstreaming.caught.compactions_grounded.taken_published (id, s) hm)

variable {s : PersistedSnapshot}

/-- Only publishing a writer's manifest makes one appear. -/
theorem walSnapshots_step (hstep : cluster.step action = some next)
    (hs : s ∈ next.store.walSnapshots) :
    s ∈ cluster.store.walSnapshots ∨ action = .publishWal s := by
  cases action with
  | publishWal s' =>
    obtain ⟨store, hstore, rfl⟩ := map_eq_some_iff.mp hstep
    rw [(Store.publishWalSnapshot_eq_some hstore).2.1, mem_append,
      mem_singleton] at hs
    exact hs.imp_right fun h => by rw [h]
  | mint id s' =>
    simp only [Cluster.step, ite_none_right_eq_some, Option.some.injEq] at hstep
    obtain ⟨_, rfl⟩ := hstep
    exact .inl hs
  | publishCompaction id s' =>
    simp only [Cluster.step, ite_none_right_eq_some, map_eq_some_iff] at hstep
    obtain ⟨_, store, hstore, rfl⟩ := hstep
    rw [(Store.publishCompaction_eq_some hstore).2.2] at hs
    exact .inl hs
  | poll pollerAction =>
    obtain ⟨poller, _, rfl⟩ := map_eq_some_iff.mp hstep
    exact .inl hs

theorem grounds_mono (hmanifests : store.manifests ⊆ store'.manifests)
    (hgrounds : store.Grounds s) : store'.Grounds s := by
  intro entry hentry
  rcases hgrounds entry hentry with ⟨c, hc, hremoves⟩ | ⟨s', hs', hlt, hadds⟩
  · exact .inl ⟨c, Store.compaction_mem_manifests.mp
      (hmanifests (Store.compaction_mem_manifests.mpr hc)), hremoves⟩
  · exact .inr ⟨s', Store.wal_mem_manifests.mp
      (hmanifests (Store.wal_mem_manifests.mpr hs')), hlt, hadds⟩

section

variable (hviewed : streams.Viewed cluster)
include hviewed

/-- A step in stream order keeps the view, if what writers publish is grounded. -/
theorem Viewed.step (hinorder : streams.InOrder cluster action)
    (hgrounds : ∀ s, action = .publishWal s → cluster.store.Grounds s)
    (hstep : cluster.step action = some next) : streams.Viewed next := by
  have hguarded := hviewed.guarded.step hinorder hstep
  have hstreaming := hguarded.streaming
  have hgrows := grows_step hviewed.guarded.streaming hstep
  have hpublishes : streams.Publishes next.store := by
    refine ⟨hstreaming.wal_mem, hstreaming.compactions_mem, fun s hs => ?_⟩
    rcases walSnapshots_step hstep hs with hold | hnew
    · exact grounds_mono hgrows.manifests (hviewed.publishes.wal_grounded s hold)
    · exact grounds_mono hgrows.manifests (hgrounds s hnew)
  have hremoved : streams.removedBy cluster.store ⊆ streams.removedBy next.store :=
    removedBy_mono hgrows.manifests
  have hkeeps : TombstoneSet.Keeps
      (TombstoneSet.added (changesOf streams.tableOf cluster.poller.folded))
      (streams.removedBy next.store) (cluster.poller.inner.view streams.tableOf) :=
    ⟨fun path hadded hkept => hviewed.keeps.kept path hadded fun h => hkept (hremoved h),
      fun path hburied => hremoved (hviewed.keeps.buried path hburied)⟩
  obtain ⟨hinner, hfolded⟩ | ⟨_, m, hm, hinner, hfolded⟩ | ⟨_, hinner, hfolded⟩ := view_step hstep
  · refine ⟨hguarded, hpublishes, ?_, ?_⟩
    · rw [hinner]
      exact fun path hlive => addedBy_mono hgrows.manifests (hviewed.added path hlive)
    · rw [hinner, hfolded]
      exact hkeeps
  · have howned := streams.owned (hviewed.guarded.streaming.nextManifest_mem hm).1
    have hpublished := hstreaming.folded_published (m := m) (by simp [hfolded])
    have hchanges : changesOf streams.tableOf next.poller.folded =
        changesOf streams.tableOf cluster.poller.folded ++ [m.change streams.tableOf] := by
      simp [changesOf, hfolded]
    refine ⟨hguarded, hpublishes, ?_, ?_⟩
    · intro path hlive
      rw [hinner, view_fold howned] at hlive
      rcases hlive.1 with hold | ⟨hadds, _⟩
      · exact addedBy_mono hgrows.manifests (hviewed.added path hold)
      · exact mem_added_changesOf.mpr ⟨m, hpublished, hadds⟩
    · rw [hinner, view_fold howned, hchanges, TombstoneSet.added_append_singleton]
      exact hkeeps.apply subset_rfl fun path hremoves =>
        mem_removed_changesOf.mpr ⟨m, hpublished, hremoves⟩
  · refine ⟨hguarded, hpublishes, ?_, ?_⟩
    · rw [hinner]
      exact fun path hlive => addedBy_mono hgrows.manifests (hviewed.added path hlive)
    · rw [hinner, hfolded]
      exact hkeeps.forget (fun _ hpath => hpath.1) fun _ hpath => .inl (mem_of_mem_retain hpath)

theorem Viewed.setInner
    (hpermits : streams.Permits cluster inner) : streams.Viewed (cluster.setInner inner) where
  guarded := hviewed.guarded.setInner hpermits
  publishes := hviewed.publishes
  added path hlive := by
    rcases hpermits.appears _ path hlive with hold | ⟨_, hadded, _⟩
    · exact hviewed.added path hold
    · exact hadded
  keeps := hpermits.keeps hviewed.keeps

/-- The writer drops tombstones at marks the cursors have reached. -/
theorem Viewed.gc (hmarks : marks.Le cluster.poller.watermarks) : streams.Viewed
      (cluster.setInner (cluster.poller.inner.gcTombstones marks.wal marks.compaction)) where
  guarded := by
    refine hviewed.guarded.gc (hviewed.guarded.streaming.setInner fun path gc hgc => ?_) hmarks
      rfl rfl
    exact hviewed.guarded.streaming.keys path gc (mem_lookup_retain.mp hgc).1
  publishes := hviewed.publishes
  added := hviewed.added
  keeps := hviewed.keeps.forget (fun _ hpath => hpath.1)
    fun _ hpath => .inl (mem_of_mem_retain hpath)

/-- The view lists everything up to marks the cursors have reached. -/
theorem Viewed.merged (nodeId : String)
    (hmarks : marks.Le cluster.poller.watermarks) :
    streams.Merged cluster.store marks
      (CompactorNode.mergedSnapshot nodeId cluster.poller.inner) where
  place := by
    rintro ⟨key, path⟩ hpath
    exact hviewed.guarded.place _ (mem_snapshotAll_paths.mp hpath)
  removes := rfl
  published path hpath := hviewed.added path (mem_snapshotAll_paths.mp hpath)
  complete m hm hpassed path hadds hkept := by
    have hfolded := hviewed.guarded.streaming.folded_of_passed hm (hpassed.mono hmarks)
    exact mem_snapshotAll_paths.mpr
      (hviewed.keeps.kept path (mem_added_changesOf.mpr ⟨m, hfolded, hadds⟩) hkept)
  clean path hpath r hr hpassed hremoves := by
    have hfolded := hviewed.guarded.streaming.folded_of_passed hr (hpassed.mono hmarks)
    have hclean := hviewed.guarded.clean path (mem_snapshotAll_paths.mp hpath)
    rw [mem_buriable_changesOf] at hclean
    by_contra hburies
    refine hclean ⟨r, hfolded, hremoves, ?_⟩
    cases hparse : parseGen1Path path with
    | some parsed => exact .inl rfl
    | none =>
      cases r with
      | wal s => exact absurd ⟨hparse, rfl⟩ hburies
      | compaction id s => exact .inr rfl

/-- A merged view with the tombstones that are left is a sound checkpoint, if those of the
straddling paths are. -/
theorem Viewed.sound {merged : PersistedSnapshot}
    (hmerged : streams.Merged cluster.store marks merged)
    (hretained : streams.Retained marks cluster.poller.inner) :
    Checkpoint.Sound streams cluster.store ⟨marks.wal, marks.compaction, merged,
      cluster.poller.inner.tombstonesForCheckpoint.1,
      cluster.poller.inner.tombstonesForCheckpoint.2⟩ where
  toMerged := hmerged
  tombstones_removed path hpath := by
    refine hviewed.keeps.buried path ?_
    rcases mem_append.mp hpath with hpath | hpath
    all_goals
      obtain ⟨entry, hentry, rfl⟩ := List.mem_map.mp hpath
      obtain ⟨⟨path, gc⟩, hgc, hsome⟩ := mem_filterMap.mp hentry
      have hmem := mem_iff_exists_lookup.mpr ⟨gc, AList.mem_lookup_iff.mpr hgc⟩
      cases gc <;> simp at hsome
      rw [← hsome]
      exact hmem
  tombstones_kept path hstraddles := by
    obtain ⟨gc, hgc, hne⟩ := hretained path hstraddles
    have hkey := hviewed.guarded.streaming.keys path gc hgc
    have hgen1 := hstraddles.gen1
    cases gc with
    | walSeq nodeId walSeq =>
      exact List.mem_map.mpr ⟨(path, walSeq), mem_filterMap.mpr
        ⟨_, AList.mem_lookup_iff.mp hgc, rfl⟩, rfl⟩
    | compaction removingId => simp [hkey.1] at hgen1
    | objectGone => exact absurd rfl hne

end

end Streams

end RefluxDb.Write
