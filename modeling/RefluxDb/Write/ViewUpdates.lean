import RefluxDb.Write.CheckpointLoad
import RefluxDb.Write.GuardedView

/-! What changes a compactor's view besides the folds of its poller.

Its compaction tasks add their outputs and remove their inputs as soon as they have published, and
its checkpoint writer takes out the files whose objects are gone and leaves tombstones of their own
kind for them. What such a change may do is said once, and keeps the view guarded. -/

namespace RefluxDb.Write

open List RefluxDb.Library

variable {inner inner' inner'' : Inner} {key key' : TableKey} {path : String}
variable {snapshot : PersistedSnapshot}

theorem addOutputs_spec (inner : Inner) (snapshot : PersistedSnapshot) :
    (CompactorNode.addOutputs inner snapshot).removedTombstones = inner.removedTombstones ∧
      ∀ key path, (key, path) ∈ (CompactorNode.addOutputs inner snapshot).files.paths ↔
        (key, path) ∈ inner.files.paths ∨ (key, path) ∈ snapshot.databases.paths := by
  simp only [mem_paths_tables, CompactorNode.addOutputs]
  generalize snapshot.databases.tables = tables
  induction tables generalizing inner with
  | nil => simp
  | cons table rest ih =>
    obtain ⟨hfirst, hfirstpaths⟩ := foldl_addPersistedFile table.1 table.2 inner
    obtain ⟨htombstones, hpaths⟩ := ih
      (table.2.foldl (fun inner file => inner.addPersistedFile table.1 file) inner)
    refine ⟨htombstones.trans hfirst, fun key path => ?_⟩
    rw [foldl_cons, hpaths, hfirstpaths]
    simp only [mem_cons, exists_eq_or_imp]
    grind

theorem removeInputs_spec (inner : Inner) (snapshot : PersistedSnapshot) :
    (CompactorNode.removeInputs inner snapshot).removedTombstones = inner.removedTombstones ∧
      ∀ key path, (key, path) ∈ (CompactorNode.removeInputs inner snapshot).files.paths ↔
        (key, path) ∈ inner.files.paths ∧ (key, path) ∉ snapshot.removedFiles.paths := by
  simp only [mem_paths_tables, CompactorNode.removeInputs]
  generalize snapshot.removedFiles.tables = tables
  induction tables generalizing inner with
  | nil => simp
  | cons table rest ih =>
    obtain ⟨htombstones, hpaths⟩ := ih (inner.removePersistedFiles table.1 table.2)
    refine ⟨htombstones, fun key path => ?_⟩
    rw [foldl_cons, hpaths, mem_removePersistedFiles_paths]
    simp only [mem_cons, exists_eq_or_imp, not_or]
    grind

/-- Tombstones of missing objects come for the given paths and may go for any; no other tombstone
changes. -/
structure Inner.Evicts (paths : List String) (inner inner' : Inner) : Prop where
  files : inner'.files = inner.files
  fresh : ∀ path gc, gc ∈ inner'.removedTombstones.lookup path →
    gc ∈ inner.removedTombstones.lookup path ∨ gc = .objectGone ∧ path ∈ paths
  kept : ∀ path gc, gc ∈ inner.removedTombstones.lookup path → gc ≠ .objectGone →
    gc ∈ inner'.removedTombstones.lookup path

theorem Inner.Evicts.refl (paths : List String) (inner : Inner) : inner.Evicts paths inner :=
  ⟨rfl, fun _ _ => .inl, fun _ _ hgc _ => hgc⟩

variable {paths : List String}

theorem Inner.Evicts.trans (hfirst : inner.Evicts paths inner')
    (hsecond : inner'.Evicts paths inner'') : inner.Evicts paths inner'' where
  files := hsecond.files.trans hfirst.files
  fresh path gc hgc := (hsecond.fresh path gc hgc).elim (hfirst.fresh path gc) .inr
  kept path gc hgc hne := hsecond.kept path gc (hfirst.kept path gc hgc hne) hne

theorem Inner.evicts_tombstoneGone (hpath : path ∈ paths) :
    inner.Evicts paths (inner.tombstoneGone path) := by
  unfold tombstoneGone
  split
  case isTrue => exact .refl paths inner
  case isFalse habsent =>
    refine ⟨rfl, fun path' gc hgc => ?_, fun path' gc hgc _ => ?_⟩
    · by_cases hsame : path' = path
      · subst hsame
        simp only [AList.lookup_insert, Option.mem_some_iff] at hgc
        exact .inr ⟨hgc.symm, hpath⟩
      · simp only [AList.lookup_insert_ne hsame] at hgc
        exact .inl hgc
    · have hne : path' ≠ path := by
        rintro rfl
        exact habsent (mem_iff_exists_lookup.mpr ⟨gc, hgc⟩)
      simpa only [AList.lookup_insert_ne hne] using hgc

theorem Inner.evicts_dropOldestEviction (paths : List String) :
    inner.Evicts paths inner.dropOldestEviction := by
  unfold dropOldestEviction
  split
  case h_1 => exact .refl paths inner
  case h_2 oldest rest _ =>
    split
    case isFalse => exact ⟨rfl, fun _ _ => .inl, fun _ _ hgc _ => hgc⟩
    case isTrue hgone =>
      refine ⟨rfl, fun path gc hgc => ?_, fun path gc hgc hne => ?_⟩
      · by_cases hsame : path = oldest
        · subst hsame
          simp at hgc
        · rw [AList.lookup_erase_ne hsame] at hgc
          exact .inl hgc
      · have hother : path ≠ oldest := by
          rintro rfl
          rw [Option.mem_def, hgone, Option.some.injEq] at hgc
          exact hne hgc.symm
        rwa [AList.lookup_erase_ne hother]

theorem Inner.evicts_tombstoneEvicted (inner : Inner) (paths : List String) :
    inner.Evicts paths (inner.tombstoneEvicted paths) := by
  have htombstoned : ∀ (todo : List String) (start : Inner), (∀ path ∈ todo, path ∈ paths) →
      start.Evicts paths (todo.foldl tombstoneGone start) := by
    intro todo
    induction todo with
    | nil => exact fun start _ => .refl paths start
    | cons path rest ih =>
      intro start hpaths
      rw [forall_mem_cons] at hpaths
      exact (evicts_tombstoneGone hpaths.1).trans (ih _ hpaths.2)
  have hdropped : ∀ (rounds : List Nat) (start : Inner),
      start.Evicts paths (rounds.foldl (fun state _ => state.dropOldestEviction) start) := by
    intro rounds
    induction rounds with
    | nil => exact fun start => .refl paths start
    | cons _ rest ih => exact fun start => (evicts_dropOldestEviction paths).trans (ih _)
  exact (htombstoned paths inner fun _ hpath => hpath).trans (hdropped _ _)

namespace Streams

/-- What a change of the view outside the folds may do: published outputs appear that no folded
compaction removes, removed paths disappear, and of removed paths whose adders have been folded
the object is noted as gone. -/
structure Permits (streams : Streams) (cluster : Cluster) (inner : Inner) : Prop where
  appears : ∀ key path, (key, path) ∈ inner.files.paths →
    (key, path) ∈ cluster.poller.inner.files.paths ∨
      (key = streams.tableOf path ∧ parseGen1Path path = none) ∧
        path ∈ streams.addedBy cluster.store ∧
          path ∉ TombstoneSet.buriable (changesOf streams.tableOf cluster.poller.folded)
  disappears : ∀ key path, (key, path) ∈ cluster.poller.inner.files.paths →
    (key, path) ∉ inner.files.paths → path ∈ streams.removedBy cluster.store
  fresh : ∀ path gc, gc ∈ inner.removedTombstones.lookup path →
    gc ∈ cluster.poller.inner.removedTombstones.lookup path ∨
      gc = .objectGone ∧ path ∈ streams.removedBy cluster.store ∧
        ((parseGen1Path path).isSome → streams.AddersFolded cluster path)
  kept : ∀ path gc, gc ∈ cluster.poller.inner.removedTombstones.lookup path →
    gc ≠ .objectGone → gc ∈ inner.removedTombstones.lookup path

variable {streams : Streams} {cluster : Cluster} {id : String}

/-- A compaction's task may add its outputs while no folded compaction removes them. -/
theorem permits_addOutputs (hstreaming : streams.Streaming cluster)
    (hpublished : (id, snapshot) ∈ cluster.store.compactions)
    (hunremoved : ∀ m ∈ cluster.poller.folded, m.compactionId.isSome →
      ∀ entry ∈ snapshot.databases.paths, entry ∉ m.removes) :
    streams.Permits cluster (CompactorNode.addOutputs cluster.poller.inner snapshot) := by
  have hmem := hstreaming.compactions_mem _ hpublished
  obtain ⟨htombstones, hpaths⟩ := addOutputs_spec cluster.poller.inner snapshot
  refine ⟨fun key path hlive => ?_, fun key path hold hgone => ?_, fun path gc hgc => ?_,
    fun path gc hgc _ => ?_⟩
  · rcases (hpaths key path).mp hlive with hold | hadds
    · exact .inl hold
    · have hkey := (streams.compaction_owned _ hmem).of_mem_adds hadds
      have hnone := streams.compaction_paths _ hmem _ hadds
      subst hkey
      refine .inr ⟨⟨rfl, hnone⟩, mem_added_changesOf.mpr ⟨.compaction id snapshot,
        Store.compaction_mem_manifests.mpr hpublished, hadds⟩, fun hburiable => ?_⟩
      obtain ⟨m, hm, hremoves, hburies⟩ := mem_buriable_changesOf.mp hburiable
      rcases hburies with hgen1 | hcompaction
      · simp [hnone] at hgen1
      · exact hunremoved m hm hcompaction _ hadds hremoves
  · exact absurd ((hpaths key path).mpr (.inl hold)) hgone
  · exact .inl (htombstones ▸ hgc)
  · exact htombstones ▸ hgc

theorem permits_of_removal (htombstones : inner.removedTombstones =
      cluster.poller.inner.removedTombstones)
    (hpaths : ∀ key path, (key, path) ∈ inner.files.paths →
      (key, path) ∈ cluster.poller.inner.files.paths)
    (hremoved : ∀ key path, (key, path) ∈ cluster.poller.inner.files.paths →
      (key, path) ∉ inner.files.paths → path ∈ streams.removedBy cluster.store) :
    streams.Permits cluster inner where
  appears key path hlive := .inl (hpaths key path hlive)
  disappears := hremoved
  fresh _ _ hgc := .inl (htombstones ▸ hgc)
  kept _ _ hgc _ := htombstones ▸ hgc

/-- A compaction's task may remove its inputs once it has published. -/
theorem permits_removeInputs (hstreaming : streams.Streaming cluster)
    (hpublished : (id, snapshot) ∈ cluster.store.compactions) :
    streams.Permits cluster (CompactorNode.removeInputs cluster.poller.inner snapshot) := by
  have hmem := hstreaming.compactions_mem _ hpublished
  obtain ⟨htombstones, hpaths⟩ := removeInputs_spec cluster.poller.inner snapshot
  refine permits_of_removal htombstones (fun key path hlive => ((hpaths key path).mp hlive).1)
    fun key path hold hgone => ?_
  have hremoves : (key, path) ∈ (Manifest.compaction id snapshot).removes := by
    by_contra hkept
    exact hgone ((hpaths key path).mpr ⟨hold, hkept⟩)
  have hkey := (streams.compaction_owned _ hmem).of_mem_removes hremoves
  subst hkey
  exact mem_removed_changesOf.mpr ⟨.compaction id snapshot,
    Store.compaction_mem_manifests.mpr hpublished, hremoves⟩

theorem permits_removePersistedFiles (key : TableKey) {files : List ParquetFile}
    (hremoved : ∀ file ∈ files, file.path ∈ streams.removedBy cluster.store) :
    streams.Permits cluster (cluster.poller.inner.removePersistedFiles key files) := by
  refine permits_of_removal rfl
    (fun key' path hlive => (mem_removePersistedFiles_paths.mp hlive).1)
    fun key' path hold hgone => ?_
  have htarget : key' = key ∧ path ∈ files.map (·.path) := by
    by_contra hkept
    exact hgone (mem_removePersistedFiles_paths.mpr ⟨hold, hkept⟩)
  obtain ⟨file, hfile, rfl⟩ := mem_map.mp htarget.2
  exact hremoved file hfile

theorem permits_tombstoneEvicted {paths : List String}
    (hremoved : ∀ path ∈ paths, path ∈ streams.removedBy cluster.store ∧
      ((parseGen1Path path).isSome → streams.AddersFolded cluster path)) :
    streams.Permits cluster (cluster.poller.inner.tombstoneEvicted paths) := by
  have hevicts := cluster.poller.inner.evicts_tombstoneEvicted paths
  refine ⟨fun key path hlive => .inl (hevicts.files ▸ hlive), fun key path hold hgone => ?_,
    fun path gc hgc => ?_, hevicts.kept⟩
  · rw [hevicts.files] at hgone
    exact absurd hold hgone
  · exact (hevicts.fresh path gc hgc).imp_right fun h => ⟨h.1, hremoved path h.2⟩

theorem Streaming.setInner (hstreaming : streams.Streaming cluster)
    (hkeys : ∀ path gc, gc ∈ inner.removedTombstones.lookup path → streams.KeySound path gc) :
    streams.Streaming (cluster.setInner inner) where
  caught := by
    obtain ⟨⟨hwal, hcompactions, hidle, hfolding⟩, hcomplete, hcomplete', hground, hground'⟩ :=
      hstreaming.caught
    exact ⟨⟨hwal, hcompactions, hidle, hfolding⟩, hcomplete, hcomplete', hground, hground'⟩
  wal_mem := hstreaming.wal_mem
  wal_closed := hstreaming.wal_closed
  compactions_mem := hstreaming.compactions_mem
  compactions_closed := hstreaming.compactions_closed
  keys := hkeys

theorem Guarded.setInner (hguarded : streams.Guarded cluster)
    (hpermits : streams.Permits cluster inner) : streams.Guarded (cluster.setInner inner) where
  streaming := by
    refine hguarded.streaming.setInner fun path gc hgc => ?_
    rcases hpermits.fresh path gc hgc with hold | ⟨rfl, _⟩
    · exact hguarded.streaming.keys path gc hold
    · trivial
  place := by
    rintro ⟨key, path⟩ hlive
    rcases hpermits.appears key path hlive with hold | ⟨⟨hkey, _⟩, _⟩
    · exact hguarded.place _ hold
    · exact hkey
  source path hlive hgen1 := by
    rcases hpermits.appears _ path hlive with hold | ⟨⟨_, hnone⟩, _⟩
    · exact hguarded.source path hold hgen1
    · simp [hnone] at hgen1
  clean path hlive := by
    rcases hpermits.appears _ path hlive with hold | ⟨_, _, hunremoved⟩
    · exact hguarded.clean path hold
    · exact hunremoved
  evicted path hgone hgen1 := by
    rcases hpermits.fresh path _ hgone with hold | ⟨_, _, hadders⟩
    · exact hguarded.evicted path hold hgen1
    · exact hadders hgen1
  remembers path hburiable := by
    rcases hguarded.remembers path hburiable with htombstone | hadders
    · obtain ⟨gc, hgc⟩ := mem_iff_exists_lookup.mp htombstone
      by_cases hgone : gc = .objectGone
      · -- such a tombstone may have been dropped, but then nothing adds the path any more
        subst hgone
        cases hparse : parseGen1Path path with
        | some parsed => exact .inr (hguarded.evicted path hgc (by simp [hparse]))
        | none =>
          obtain ⟨m, hm, hremoves, hburies⟩ := mem_buriable_changesOf.mp hburiable
          cases m with
          | wal s => simp [hparse, Manifest.compactionId] at hburies
          | compaction id s =>
            have hadders := addersFolded_of_compaction hguarded.streaming hm hremoves hparse
            exact .inr hadders
      · exact .inl (mem_iff_exists_lookup.mpr ⟨gc, hpermits.kept path gc hgc hgone⟩)
    · exact .inr hadders

/-- A permitted change keeps what is added and not removed. -/
theorem Permits.keeps (hpermits : streams.Permits cluster inner) {required : Set String}
    (hkeeps : TombstoneSet.Keeps required (streams.removedBy cluster.store)
      (cluster.poller.inner.view streams.tableOf)) :
    TombstoneSet.Keeps required (streams.removedBy cluster.store)
      (inner.view streams.tableOf) := by
  refine hkeeps.forget (fun path hpath => ?_) fun path hpath => ?_
  · by_contra hgone
    exact hpath.2 (hpermits.disappears _ path hpath.1 hgone)
  · obtain ⟨gc, hgc⟩ := mem_iff_exists_lookup.mp hpath
    exact (hpermits.fresh path gc hgc).imp (fun hold => mem_iff_exists_lookup.mpr ⟨gc, hold⟩)
      fun h => h.2.1

end Streams

end RefluxDb.Write
