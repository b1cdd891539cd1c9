import RefluxDb.Write.TablePartitions

/-! Whether a compacted file holds a primary key twice.

A job reads its inputs like a query reads chunks: they are de-duplicated only among those with one
partition id, which is the hash of the chunk time in the input's record. Inputs of the first
compaction have the chunk time of all their rows, but a compacted file has that of its first row,
so two compacted files may share a primary key under different chunk times. -/

namespace RefluxDb.Write

open RefluxDb.Library RefluxDb.Query

namespace Table

variable {Id Tags Field Value : Type*} [LinearOrder Id] [DecidableEq Tags]

variable {table : Table Tags Field Value} {job : List ParquetFile}

omit [LinearOrder Id] [DecidableEq Tags] in
theorem mem_createChunksFromFiles {config : TableConfig Id} {chunk : QueryChunk Id Tags Field Value}
    (hchunk : chunk ∈ table.createChunksFromFiles config job) :
    ∃ stored ∈ table.jobInputs job, ∃ (chunkOrder : Int) (id : Nat),
      chunk = { parquetChunkFromFile config stored chunkOrder with id := id } := by
  obtain ⟨⟨source, id⟩, hsource, rfl⟩ := List.mem_map.mp hchunk
  obtain ⟨⟨stored, index⟩, hstored, hsourced⟩ :=
    List.mem_map.mp (List.fst_mem_of_mem_zipIdx hsource)
  obtain rfl : parquetChunkFromFile config stored index = source := hsourced
  exact ⟨stored, List.fst_mem_of_mem_zipIdx hstored, index, id, rfl⟩

omit [LinearOrder Id] [DecidableEq Tags] in
theorem exists_chunk_of_mem_jobInputs (config : TableConfig Id)
    {stored : StoredFile Tags Field Value}
    (hstored : stored ∈ table.jobInputs job) :
    ∃ chunk ∈ table.createChunksFromFiles config job, chunk.rows = stored.rows ∧
      chunk.partitionId = config.partitionHash (toString stored.file.chunkTime) := by
  obtain ⟨index, hindex⟩ := exists_mem_zipIdx 0 hstored
  have hsource := List.mem_map_of_mem (f := fun (entry : StoredFile Tags Field Value × Nat) =>
    parquetChunkFromFile config entry.1 entry.2) hindex
  obtain ⟨id, hid⟩ := exists_mem_zipIdx 0 hsource
  exact ⟨_, List.mem_map.mpr ⟨_, hid, rfl⟩, rfl, rfl⟩

def ShareKey (stored other : StoredFile Tags Field Value) : Prop :=
  ∃ row ∈ stored.rows, ∃ row' ∈ other.rows, row.key = row'.key

instance (stored other : StoredFile Tags Field Value) : Decidable (ShareKey stored other) :=
  inferInstanceAs (Decidable (∃ row ∈ stored.rows, _))

/-- The file of a job whose inputs have no primary key twice has none twice exactly if the job is
read without splitting it, or inputs that share a primary key have one partition id. -/
theorem nodup_jobRows_iff (config : TableConfig Id) (table : Table Tags Field Value)
    (job : List ParquetFile)
    (hunique : ∀ stored ∈ table.jobInputs job, (stored.rows.map (·.key)).Nodup) :
    ((table.jobRows config job).map (·.key)).Nodup ↔
      config.maxDedupSplit < (splitGroups (table.createChunksFromFiles config job)).length ∨
        ∀ stored ∈ table.jobInputs job, ∀ other ∈ table.jobInputs job, ShareKey stored other →
          config.partitionHash (toString stored.file.chunkTime) =
            config.partitionHash (toString other.file.chunkTime) := by
  have hranges : ∀ chunk ∈ table.createChunksFromFiles config job,
      ∀ range ∈ chunk.timestampMinMax, range.1 ≤ range.2 ∧
        ∀ row ∈ chunk.rows, range.1 ≤ row.key.time ∧ row.key.time ≤ range.2 := by
    intro chunk hchunk range hrange
    obtain ⟨stored, _, chunkOrder, id, rfl⟩ := mem_createChunksFromFiles hchunk
    obtain rfl := Option.mem_some_iff.mp hrange
    exact stored.range
  have hrows : ∀ chunk ∈ table.createChunksFromFiles config job,
      chunk.mayContainPkDuplicates = false → (chunk.rows.map (·.key)).Nodup := by
    intro chunk hchunk _
    obtain ⟨stored, hstored, chunkOrder, id, rfl⟩ := mem_createChunksFromFiles hchunk
    exact hunique stored hstored
  have hnodup : (table.createChunksFromFiles config job).Nodup := nodup_withIds _
  rw [jobRows, nodup_splitDedup_iff hnodup hranges hrows]
  refine or_congr_right ⟨fun hpartitions => ?_, fun hpartitions => ?_⟩
  · rintro stored hstored other hother ⟨row, hrow, row', hrow', hkey⟩
    obtain ⟨chunk, hchunk, hsame, hid⟩ := exists_chunk_of_mem_jobInputs config hstored
    obtain ⟨chunk', hchunk', hsame', hid'⟩ := exists_chunk_of_mem_jobInputs config hother
    rw [← hid, ← hid']
    refine hpartitions chunk hchunk chunk' hchunk' fun hseparate => ?_
    exact hseparate row (hsame ▸ hrow) row' (hsame' ▸ hrow') hkey
  · intro chunk hchunk other hother hshared
    simp only [Separate, not_forall, not_not] at hshared
    obtain ⟨row, hrow, row', hrow', hkey⟩ := hshared
    obtain ⟨stored, hstored, _, _, rfl⟩ := mem_createChunksFromFiles hchunk
    obtain ⟨stored', hstored', _, _, rfl⟩ := mem_createChunksFromFiles hother
    exact hpartitions stored hstored stored' hstored' ⟨row, hrow, row', hrow', hkey⟩

section Example

/-- A row at time zero in two gen1 files. -/
def rewrittenTable : Table Nat Unit Nat where
  persisted :=
    [⟨writerFile 1 0, [⟨⟨1, 0⟩, fun _ => some 1⟩], by decide⟩,
      ⟨writerFile 2 0, [⟨⟨1, 0⟩, fun _ => some 2⟩], by decide⟩]

theorem nodup_jobRows_iff_rewritten :
    (∀ stored ∈ rewrittenTable.jobInputs [writerFile 1 0, writerFile 2 0],
        (stored.rows.map (·.key)).Nodup) ∧
      ((rewrittenTable.jobRows tenMinutes [writerFile 1 0, writerFile 2 0]).map (·.key)).Nodup :=
  ⟨by decide, (nodup_jobRows_iff tenMinutes rewrittenTable [writerFile 1 0, writerFile 2 0]
    (by decide)).mpr (.inr (by decide))⟩

def gen2Job (table : Table Nat Unit Nat) : List ParquetFile :=
  (table.filesOfGeneration 2).insertionSort fun a b => a.minTime ≤ b.minTime

/-- Gen1 files at zero and at twenty minutes are compacted into one gen2 file. A late rewrite of
the second row goes into another gen2 file, with another chunk time. The gen3 file of both has the
row twice. -/
theorem late_row_twice_in_compacted_file :
    ∃ table : Table Nat Unit Nat, (machine tenMinutes).Reachable Machine.Unrestricted table ∧
      canCompactToGeneration 2 (table.filesOfGeneration 2) (tenMinutes.generationNanos 3) ∧
      gen2Job table ∈ chunkFilesForJobs (table.filesOfGeneration 2) 4 ∧
      (∀ stored ∈ table.jobInputs (gen2Job table), (stored.rows.map (·.key)).Nodup) ∧
      (table.jobRows tenMinutes (gen2Job table)).map (·.key) =
        [⟨0, 0⟩, ⟨1, 1200000000000⟩, ⟨1, 1200000000000⟩, ⟨2, 2400000000000⟩] :=
  initial_table_reachable.exists_of_run
    ([writeAt 0 0 1, writeAt 1200000000000 1 1] ++ persistAs [1, 2] ++
      compactToGen2 4 [writerFile 1 0, writerFile 2 1200000000000] 3 ++
      [writeAt 1200000000000 1 2, writeAt 2400000000000 2 1] ++ persistAs [4, 5] ++
      compactToGen2 4 [writerFile 4 1200000000000, writerFile 5 2400000000000] 6)
    _ (by decide)

end Example

end Table

end RefluxDb.Write
