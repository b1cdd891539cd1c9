import Mathlib.Data.List.Flatten
import Mathlib.Data.List.Induction
import RefluxDb.Write.SnapshotCheckpoints

/-! What a monthly checkpoint records of the snapshots it was built from.

A snapshot is applied to a checkpoint by adding its files and then taking out the files it removes,
which are looked up by their number; a number that is not there is kept as a pending removal. This
records the snapshots as long as the numbers of files tell apart what their paths tell apart. -/

namespace RefluxDb.Write

open List

def fileId (entry : TableKey × ParquetFile) : Nat := entry.2.id

namespace PersistedSnapshot

variable (s : PersistedSnapshot)

def added : Files := s.databases.entries

def removed : Files := s.removedFiles.entries

/-- The snapshot lists a file, added or removed. -/
def Lists : Prop := s.added ≠ [] ∨ s.removed ≠ []
deriving Decidable

end PersistedSnapshot

/-- The files of these snapshots are told apart by number and by path alike: no two additions
agree in one of them, and a removal and an addition agree in both or in neither, the removal
coming no earlier. -/
def Consistent (snapshots : List PersistedSnapshot) : Prop :=
  ((snapshots.flatMap (·.added)).map fileId).Nodup ∧
    ((snapshots.flatMap (·.added)).map (·.2.path)).Nodup ∧
      ∀ s ∈ snapshots, ∀ r ∈ snapshots, ∀ entry ∈ s.added, ∀ gone ∈ r.removed,
        (fileId entry = fileId gone ↔ entry.2.path = gone.2.path) ∧
          (entry.2.path = gone.2.path → s.snapshotSequenceNumber ≤ r.snapshotSequenceNumber)

instance (snapshots : List PersistedSnapshot) : Decidable (Consistent snapshots) :=
  inferInstanceAs (Decidable (_ ∧ _ ∧ _))

section Consistency

variable {snapshots : List PersistedSnapshot} {s t : PersistedSnapshot}
variable {entry entry' : TableKey × ParquetFile}

theorem Consistent.sublist {fewer : List PersistedSnapshot} (hconsistent : Consistent snapshots)
    (hsublist : fewer.Sublist snapshots) : Consistent fewer := by
  have hadded : (fewer.flatMap (·.added)).Sublist (snapshots.flatMap (·.added)) :=
    hsublist.flatMap _
  refine ⟨hconsistent.1.sublist (hadded.map _), hconsistent.2.1.sublist (hadded.map _), ?_⟩
  intro s hs r hr
  exact hconsistent.2.2 s (hsublist.subset hs) r (hsublist.subset hr)

/-- What tells additions apart tells the snapshots apart that make them. -/
theorem snapshot_eq_of_nodup {Mark : Type*} {mark : TableKey × ParquetFile → Mark}
    (hnodup : ((snapshots.flatMap (·.added)).map mark).Nodup) (hs : s ∈ snapshots)
    (ht : t ∈ snapshots) (hentry : entry ∈ s.added) (hentry' : entry' ∈ t.added)
    (hmark : mark entry = mark entry') : s = t := by
  have hpairs : snapshots.Pairwise fun s t => ∀ a ∈ s.added, ∀ b ∈ t.added, mark a ≠ mark b := by
    rw [map_flatMap, nodup_flatMap] at hnodup
    refine hnodup.2.imp fun hdisjoint a ha b hb hsame => ?_
    exact hdisjoint (mem_map_of_mem ha) (hsame ▸ mem_map_of_mem hb)
  by_contra hne
  have hsymm : Std.Symm fun s t : PersistedSnapshot =>
      ∀ a ∈ s.added, ∀ b ∈ t.added, mark a ≠ mark b :=
    ⟨fun _ _ h a ha b hb => (h b hb a ha).symm⟩
  exact hpairs.forall hs ht hne entry hentry entry' hentry' hmark

theorem Consistent.snapshot_eq (hconsistent : Consistent snapshots) (hs : s ∈ snapshots)
    (ht : t ∈ snapshots) (hentry : entry ∈ s.added) (hentry' : entry' ∈ t.added)
    (hid : fileId entry = fileId entry') : s = t :=
  snapshot_eq_of_nodup hconsistent.1 hs ht hentry hentry' hid

end Consistency

/-- The index has the number of every file of the checkpoint, and no other. -/
def Indexes (files : Files) (index : AList fun _ : Nat => TableKey) : Prop :=
  ∀ id key, key ∈ index.lookup id ↔ ∃ entry ∈ files, fileId entry = id ∧ entry.1 = key

variable {files : Files} {index : AList fun _ : Nat => TableKey} {entry : TableKey × ParquetFile}

theorem Indexes.insert (hindexes : Indexes files index)
    (hfresh : fileId entry ∉ files.map fileId) :
    Indexes (files ++ [entry]) (index.insert (fileId entry) entry.1) := by
  intro id key
  simp only [mem_append, mem_singleton, or_and_right, exists_or, exists_eq_left]
  by_cases hid : id = fileId entry
  · subst hid
    rw [AList.lookup_insert]
    constructor
    · rintro ⟨⟩
      exact .inr ⟨rfl, rfl⟩
    · rintro (⟨old, hold, hsame, _⟩ | ⟨_, rfl⟩)
      · exact absurd (hsame ▸ mem_map_of_mem hold) hfresh
      · rfl
  · rw [AList.lookup_insert_ne hid, hindexes id key]
    constructor
    · exact .inl
    · rintro (hold | ⟨hsame, _⟩)
      · exact hold
      · exact absurd hsame.symm hid

theorem Indexes.erase {id : Nat}
    (hindexes : Indexes files index) :
    Indexes (files.filter fun entry => fileId entry ≠ id) (index.erase id) := by
  intro other key
  by_cases hother : other = id
  · subst hother
    rw [AList.lookup_erase]
    simp
  · rw [AList.lookup_erase_ne hother, hindexes other key]
    constructor
    · rintro ⟨entry, hentry, rfl, hkey⟩
      exact ⟨entry, mem_filter.mpr ⟨hentry, by simpa using hother⟩, rfl, hkey⟩
    · rintro ⟨entry, hentry, hid, hkey⟩
      exact ⟨entry, (mem_filter.mp hentry).1, hid, hkey⟩

/-- Where numbers differ, taking out the file of a number is filtering by it. -/
theorem eraseP_slot_eq_filter (hnodup : (files.map fileId).Nodup) {id : Nat}
    (hentry : entry ∈ files) (hid : fileId entry = id) :
    files.eraseP (fun other => slot other = (entry.1, id)) =
      files.filter fun other => fileId other ≠ id := by
  induction files with
  | nil => simp at hentry
  | cons first rest ih =>
    rw [map_cons, nodup_cons] at hnodup
    have hslot (other : TableKey × ParquetFile) (hne : fileId other ≠ id) :
        slot other ≠ (entry.1, id) := fun hslot => hne (congrArg Prod.snd hslot)
    rcases mem_cons.mp hentry with rfl | hrest
    · have hothers : ∀ other ∈ rest, fileId other ≠ id := by
        intro other hother hsame
        rw [hid, ← hsame] at hnodup
        exact hnodup.1 (mem_map_of_mem hother)
      have hself : slot entry = (entry.1, id) := by rw [← hid]; rfl
      rw [eraseP_cons_of_pos (by simpa using hself), filter_cons_of_neg (by simp [hid]),
        filter_eq_self.mpr (by simpa using hothers)]
    · have hfirst : fileId first ≠ id := by
        rintro rfl
        exact hnodup.1 (hid ▸ mem_map_of_mem hrest)
      rw [eraseP_cons_of_neg (by simpa using hslot first hfirst),
        filter_cons_of_pos (by simpa using hfirst), ih hnodup.2 hrest]

namespace CachedCheckpoint

/-- The checkpoint numbers its files apart and the index has them. -/
structure Indexed (cached : CachedCheckpoint) : Prop where
  nodup : (cached.checkpoint.databases.map fileId).Nodup
  indexes : Indexes cached.checkpoint.databases cached.fileIndex

def ofCheckpoint (checkpoint : PersistedSnapshotCheckpoint) : CachedCheckpoint where
  checkpoint := checkpoint
  fileIndex := checkpoint.databases.foldl (fun index entry => index.insert entry.2.id entry.1) ∅

variable {cached : CachedCheckpoint}

theorem indexes_foldl_insert (files : Files) {known : Files}
    {index : AList fun _ : Nat => TableKey} (hindexes : Indexes known index)
    (hnodup : ((known ++ files).map fileId).Nodup) :
    Indexes (known ++ files)
      (files.foldl (fun index entry => index.insert entry.2.id entry.1) index) := by
  induction files generalizing known index with
  | nil => simpa using hindexes
  | cons entry rest ih =>
    have hsplit : known ++ entry :: rest = known ++ [entry] ++ rest := by simp
    have hfresh : fileId entry ∉ known.map fileId := by
      rw [map_append, nodup_append] at hnodup
      exact fun hmem => hnodup.2.2 _ hmem (fileId entry) (by simp) rfl
    rw [hsplit] at hnodup ⊢
    exact ih (hindexes.insert hfresh) hnodup

theorem indexed_ofCheckpoint {checkpoint : PersistedSnapshotCheckpoint}
    (hnodup : (checkpoint.databases.map fileId).Nodup) : (ofCheckpoint checkpoint).Indexed := by
  refine ⟨hnodup, ?_⟩
  have hempty : Indexes [] (∅ : AList fun _ : Nat => TableKey) := by
    intro id key
    simp
  exact indexes_foldl_insert checkpoint.databases hempty hnodup

theorem indexed_empty (month : YearMonth) :
    CachedCheckpoint.Indexed { checkpoint := { yearMonth := month } } := by
  refine ⟨nodup_nil, fun id key => ?_⟩
  simp

theorem Indexed.addSnapshotFiles (hindexed : cached.Indexed) (files : Files)
    (hnodup : ((cached.checkpoint.databases ++ files).map fileId).Nodup) :
    (cached.addSnapshotFiles files).Indexed ∧
      (cached.addSnapshotFiles files).checkpoint.databases =
        cached.checkpoint.databases ++ files ∧
      (cached.addSnapshotFiles files).checkpoint.pendingRemovedFiles =
        cached.checkpoint.pendingRemovedFiles := by
  induction files generalizing cached with
  | nil => exact ⟨hindexed, by simp [CachedCheckpoint.addSnapshotFiles], rfl⟩
  | cons entry rest ih =>
    have hsplit : cached.checkpoint.databases ++ entry :: rest =
        cached.checkpoint.databases ++ [entry] ++ rest := by simp
    rw [hsplit] at hnodup
    have hfresh : fileId entry ∉ cached.checkpoint.databases.map fileId := by
      rw [map_append, map_append, append_assoc, nodup_append] at hnodup
      exact fun hmem => hnodup.2.2 _ hmem (fileId entry) (by simp) rfl
    have hnext : CachedCheckpoint.Indexed
        ⟨cached.checkpoint.addFile entry, cached.fileIndex.insert entry.2.id entry.1⟩ := by
      refine ⟨?_, hindexed.indexes.insert hfresh⟩
      rw [map_append, nodup_append] at hnodup
      exact hnodup.1
    obtain ⟨hindexed, hdatabases, hpending⟩ := ih hnext hnodup
    exact ⟨hindexed, by rw [hsplit]; exact hdatabases, hpending⟩

/-- A removal that the index knows takes out the file with its number. -/
theorem Indexed.removeFile (hindexed : cached.Indexed) {id : Nat} {key : TableKey}
    (hlookup : cached.fileIndex.lookup id = some key) :
    let next : CachedCheckpoint := ⟨cached.checkpoint.removeFile key id, cached.fileIndex.erase id⟩
    next.Indexed ∧ next.checkpoint.databases =
      cached.checkpoint.databases.filter (fun entry => fileId entry ≠ id) := by
  obtain ⟨entry, hentry, hid, rfl⟩ := (hindexed.indexes id key).mp hlookup
  have hdatabases : (cached.checkpoint.removeFile entry.1 id).databases =
      cached.checkpoint.databases.filter (fun entry => fileId entry ≠ id) := by
    rw [PersistedSnapshotCheckpoint.databases_removeFile,
      eraseP_slot_eq_filter hindexed.nodup hentry hid]
  refine ⟨⟨?_, ?_⟩, hdatabases⟩
  · rw [hdatabases]
    exact hindexed.nodup.sublist (filter_sublist.map _)
  · rw [hdatabases]
    exact hindexed.indexes.erase

theorem pendingRemovedFiles_removeFile (checkpoint : PersistedSnapshotCheckpoint) (key : TableKey)
    (id : Nat) : (checkpoint.removeFile key id).pendingRemovedFiles =
      checkpoint.pendingRemovedFiles := by
  unfold PersistedSnapshotCheckpoint.removeFile
  split <;> rfl

/-- What some removals do to a checkpoint. -/
structure Removes (cached next : CachedCheckpoint) (gone : Files) : Prop where
  indexed : next.Indexed
  databases : ∀ entry, entry ∈ next.checkpoint.databases ↔
    entry ∈ cached.checkpoint.databases ∧ fileId entry ∉ gone.map fileId
  kept : ∀ entry ∈ cached.checkpoint.pendingRemovedFiles,
    entry ∈ next.checkpoint.pendingRemovedFiles
  pending : ∀ entry ∈ next.checkpoint.pendingRemovedFiles,
    entry ∈ cached.checkpoint.pendingRemovedFiles ∨ entry ∈ gone
  found : ∀ entry ∈ gone, fileId entry ∈ cached.checkpoint.databases.map fileId ∨
    entry ∈ next.checkpoint.pendingRemovedFiles

theorem Removes.cons {middle next : CachedCheckpoint} {first : TableKey × ParquetFile}
    {rest : Files} (hfirst : Removes cached middle [first]) (hrest : Removes middle next rest) :
    Removes cached next (first :: rest) where
  indexed := hrest.indexed
  databases entry := by
    rw [hrest.databases, hfirst.databases]
    simp only [map_cons, map_nil, mem_cons, not_mem_nil, or_false, not_or,
      and_assoc]
  kept entry hentry := hrest.kept entry (hfirst.kept entry hentry)
  pending entry hentry := by
    rcases hrest.pending entry hentry with hmiddle | hgone
    · rcases hfirst.pending entry hmiddle with hold | hsame
      · exact .inl hold
      · exact .inr (by simpa using .inl (mem_singleton.mp hsame))
    · exact .inr (mem_cons_of_mem _ hgone)
  found entry hentry := by
    rcases mem_cons.mp hentry with rfl | hgone
    · exact (hfirst.found entry (mem_singleton_self _)).imp_right (hrest.kept entry)
    · refine (hrest.found entry hgone).imp_left fun hmem => ?_
      obtain ⟨other, hother, hid⟩ := mem_map.mp hmem
      exact hid ▸ mem_map_of_mem ((hfirst.databases other).mp hother).1

/-- The removals take out the files with their numbers; the others are kept as pending. -/
theorem Indexed.processRemovedFiles (hindexed : cached.Indexed) (gone : Files) :
    Removes cached (cached.processRemovedFiles gone) gone := by
  induction gone generalizing cached with
  | nil => exact ⟨hindexed, by simp [CachedCheckpoint.processRemovedFiles], fun _ h => h,
      fun _ h => .inl h, by simp⟩
  | cons entry rest ih =>
    rw [CachedCheckpoint.processRemovedFiles, foldl_cons]
    cases hlookup : cached.fileIndex.lookup entry.2.id with
    | some key =>
      obtain ⟨hnext, hdatabases⟩ := hindexed.removeFile hlookup
      refine Removes.cons ⟨hnext, fun other => ?_, fun other hother => ?_, fun other hother => ?_,
        ?_⟩ (ih hnext)
      · rw [hdatabases, mem_filter, decide_eq_true_eq]
        simp only [map_cons, map_nil, mem_singleton]
        rfl
      · rwa [pendingRemovedFiles_removeFile]
      · rw [pendingRemovedFiles_removeFile] at hother
        exact .inl hother
      · intro other hother
        rw [mem_singleton.mp hother]
        obtain ⟨found, hfound, hid, _⟩ := (hindexed.indexes _ _).mp hlookup
        exact .inl (mem_map.mpr ⟨found, hfound, hid⟩)
    | none =>
      have habsent : ∀ other ∈ cached.checkpoint.databases, fileId other ≠ fileId entry := by
        intro other hother hid
        have hkey := (hindexed.indexes entry.2.id other.1).mpr ⟨other, hother, hid, rfl⟩
        simp [hlookup] at hkey
      have hnext : CachedCheckpoint.Indexed
          { cached with checkpoint := cached.checkpoint.addPendingRemoved entry } :=
        ⟨hindexed.nodup, hindexed.indexes⟩
      refine Removes.cons ⟨hnext, fun other => ?_, fun other hother => ?_, fun other hother => ?_,
        ?_⟩ (ih hnext)
      · simp only [map_cons, map_nil, mem_singleton]
        exact ⟨fun hother => ⟨hother, habsent other hother⟩, fun h => h.1⟩
      · exact mem_append_left _ hother
      · exact mem_append.mp hother
      · exact fun other hother => .inr (mem_append_right _ hother)

end CachedCheckpoint

/-- The month and the number of a checkpoint, which name its object. -/
def PersistedSnapshotCheckpoint.stamp (checkpoint : PersistedSnapshotCheckpoint) :
    YearMonth × Nat :=
  (checkpoint.yearMonth, checkpoint.lastSnapshotSequenceNumber)

section Stamp

variable {s : PersistedSnapshot}

theorem stamp_addSnapshotFiles (files : Files) (cached : CachedCheckpoint) :
    (cached.addSnapshotFiles files).checkpoint.stamp = cached.checkpoint.stamp := by
  induction files generalizing cached with
  | nil => rfl
  | cons entry rest ih => exact ih _

theorem stamp_processRemovedFiles (gone : Files) (cached : CachedCheckpoint) :
    (cached.processRemovedFiles gone).checkpoint.stamp = cached.checkpoint.stamp := by
  induction gone generalizing cached with
  | nil => rfl
  | cons entry rest ih =>
    rw [CachedCheckpoint.processRemovedFiles, foldl_cons]
    refine (ih _).trans ?_
    split
    · unfold PersistedSnapshotCheckpoint.removeFile
      split <;> rfl
    · rfl

theorem stamp_updateCachedCheckpoint (cached : CachedCheckpoint) :
    (cached.updateCachedCheckpoint s).checkpoint.stamp =
      (cached.checkpoint.yearMonth, s.snapshotSequenceNumber) :=
  (stamp_processRemovedFiles _ _).trans (stamp_addSnapshotFiles _ _)

theorem yearMonth_ofSnapshots (month : YearMonth) (snapshots : List PersistedSnapshot) :
    (CachedCheckpoint.ofSnapshots month snapshots).checkpoint.yearMonth = month := by
  induction snapshots using reverseRecOn with
  | nil => rfl
  | append_singleton earlier s ih =>
    rw [CachedCheckpoint.ofSnapshots, foldl_append]
    exact (congrArg Prod.fst (stamp_updateCachedCheckpoint _)).trans ih

theorem last_ofSnapshots (month : YearMonth) (earlier : List PersistedSnapshot) :
    (CachedCheckpoint.ofSnapshots month (earlier ++ [s])).checkpoint.lastSnapshotSequenceNumber =
      s.snapshotSequenceNumber := by
  rw [CachedCheckpoint.ofSnapshots, foldl_append]
  exact congrArg Prod.snd (stamp_updateCachedCheckpoint _)

end Stamp

/-- A checkpoint records these snapshots. -/
structure Records (snapshots : List PersistedSnapshot) (checkpoint : PersistedSnapshotCheckpoint) :
    Prop where
  databases : ∀ entry, entry ∈ checkpoint.databases ↔
    (∃ s ∈ snapshots, entry ∈ s.added) ∧ ¬∃ s ∈ snapshots, fileId entry ∈ s.removed.map fileId
  nodup : (checkpoint.databases.map fileId).Nodup
  pending : ∀ entry ∈ checkpoint.pendingRemovedFiles, ∃ s ∈ snapshots, entry ∈ s.removed
  found : ∀ s ∈ snapshots, ∀ entry ∈ s.removed,
    (∃ t ∈ snapshots, fileId entry ∈ t.added.map fileId) ∨ entry ∈ checkpoint.pendingRemovedFiles

namespace Records

variable {snapshots : List PersistedSnapshot} {s : PersistedSnapshot} {cached : CachedCheckpoint}

theorem empty (month : YearMonth) : Records [] { yearMonth := month } := by
  constructor <;> simp

/-- One more snapshot, with a larger number than those before. -/
theorem updateCachedCheckpoint (hrecords : Records snapshots cached.checkpoint)
    (hindexed : cached.Indexed) (hconsistent : Consistent (snapshots ++ [s]))
    (hlater : ∀ t ∈ snapshots, t.snapshotSequenceNumber < s.snapshotSequenceNumber) :
    Records (snapshots ++ [s]) (cached.updateCachedCheckpoint s).checkpoint ∧
      (cached.updateCachedCheckpoint s).Indexed := by
  have hupdated : CachedCheckpoint.Indexed
      { cached with checkpoint := cached.checkpoint.updateFromSnapshot s } :=
    ⟨hindexed.nodup, hindexed.indexes⟩
  have hfresh : ((cached.checkpoint.databases ++ s.added).map fileId).Nodup := by
    rw [map_append, nodup_append]
    have hids := hconsistent.1
    rw [flatMap_append, map_append, nodup_append] at hids
    refine ⟨hindexed.nodup, by simpa using hids.2.1, fun a ha b hb => ?_⟩
    obtain ⟨entry, hentry, rfl⟩ := mem_map.mp ha
    obtain ⟨t, ht, hadded⟩ := ((hrecords.databases entry).mp hentry).1
    exact hids.2.2 _ (mem_map_of_mem (mem_flatMap.mpr ⟨t, ht, hadded⟩)) b (by simpa using hb)
  obtain ⟨hadded, hdatabases, hpending⟩ := hupdated.addSnapshotFiles s.added hfresh
  have hremoves := hadded.processRemovedFiles s.removed
  -- a file of the new snapshot was not removed by an earlier one
  have hunremoved : ∀ entry ∈ s.added, ¬∃ t ∈ snapshots, fileId entry ∈ t.removed.map fileId := by
    rintro entry hentry ⟨t, ht, hgone⟩
    obtain ⟨gone, hmem, hid⟩ := mem_map.mp hgone
    have hagree := hconsistent.2.2 s (by simp) t (by simp [ht]) entry hentry gone hmem
    exact absurd (hagree.2 (hagree.1.mp hid.symm)) (not_le.mpr (hlater t ht))
  refine ⟨⟨fun entry => ?_, hremoves.indexed.nodup, fun entry hentry => ?_, ?_⟩, hremoves.indexed⟩
  · refine (hremoves.databases entry).trans ?_
    have hexists (property : PersistedSnapshot → Prop) : (∃ t ∈ snapshots ++ [s], property t) ↔
        (∃ t ∈ snapshots, property t) ∨ property s := by
      simp [or_and_right, exists_or]
    rw [hdatabases, mem_append, hexists, hexists, not_or]
    constructor
    · rintro ⟨hold | hnew, hkept⟩
      · obtain ⟨hby, hnot⟩ := (hrecords.databases entry).mp hold
        exact ⟨.inl hby, hnot, hkept⟩
      · exact ⟨.inr hnew, hunremoved entry hnew, hkept⟩
    · rintro ⟨hold | hnew, hnot, hkept⟩
      · exact ⟨.inl ((hrecords.databases entry).mpr ⟨hold, hnot⟩), hkept⟩
      · exact ⟨.inr hnew, hkept⟩
  · rcases hremoves.pending entry hentry with hold | hgone
    · rw [hpending] at hold
      obtain ⟨t, ht, hremoved⟩ := hrecords.pending entry hold
      exact ⟨t, mem_append_left _ ht, hremoved⟩
    · exact ⟨s, by simp, hgone⟩
  · intro t ht entry hentry
    rcases mem_append.mp ht with hold | hnew
    · rcases hrecords.found t hold entry hentry with ⟨u, hu, hid⟩ | hpend
      · exact .inl ⟨u, mem_append_left _ hu, hid⟩
      · exact .inr (hremoves.kept entry (hpending ▸ hpend))
    · rw [mem_singleton.mp hnew] at hentry
      refine (hremoves.found entry hentry).imp_left fun hid => ?_
      rw [hdatabases, map_append, mem_append] at hid
      rcases hid with hold | hnew
      · obtain ⟨other, hother, hid⟩ := mem_map.mp hold
        obtain ⟨u, hu, hadded⟩ := ((hrecords.databases other).mp hother).1
        exact ⟨u, mem_append_left _ hu, hid ▸ mem_map_of_mem hadded⟩
      · exact ⟨s, by simp, hnew⟩

/-- A fresh checkpoint and the snapshots of its month, oldest first. -/
theorem ofSnapshots (month : YearMonth) (hconsistent : Consistent snapshots)
    (hordered : snapshots.Pairwise fun s t =>
      s.snapshotSequenceNumber < t.snapshotSequenceNumber) :
    Records snapshots (CachedCheckpoint.ofSnapshots month snapshots).checkpoint ∧
      (CachedCheckpoint.ofSnapshots month snapshots).Indexed := by
  induction snapshots using reverseRecOn with
  | nil => exact ⟨empty month, CachedCheckpoint.indexed_empty month⟩
  | append_singleton earlier s ih =>
    rw [pairwise_append] at hordered
    obtain ⟨hrecords, hindexed⟩ :=
      ih (hconsistent.sublist (sublist_append_left _ _)) hordered.1
    rw [CachedCheckpoint.ofSnapshots, foldl_append]
    exact hrecords.updateCachedCheckpoint hindexed hconsistent
      fun t ht => hordered.2.2 t ht s (mem_singleton_self s)

end Records

end RefluxDb.Write
