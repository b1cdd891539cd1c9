import RefluxDb.Catalog.Inner
import RefluxDb.Write.PersistedFiles

/-! Retention: the cutoff a database's retention period gives at a clock value, and the two places
that drop files by it, the view of persisted files and the table indices.

A retention period is a duration of up to `2 ^ 64` seconds and the cutoff is a signed 64-bit
number of nanoseconds, so the duration is truncated to 64 bits, read as a signed number and
subtracted with wraparound. The cutoff is then the difference modulo `2 ^ 64`; it is the difference
itself when that is at least the least timestamp. Below it the cutoff lands after the
difference, as a rule in the future, where every file is older than it. -/

namespace RefluxDb.Catalog

open RefluxDb.Library
open RefluxDb.Write (TableKey)

/-- A 64-bit pattern read as a signed number. -/
def asI64 (bits : Int) : Int := bits.bmod (2 ^ 64)

/-- The oldest timestamp the retention period allows at the clock value `now`. -/
def DatabaseSchema.getRetentionPeriodCutoffTsNanos (schema : DatabaseSchema) (now : Int) :
    Option Int :=
  match schema.retentionPeriod with
  | .indefinite => none
  | .duration nanoseconds =>
    let retentionPeriod : Nat := nanoseconds % 2 ^ 64
    some (asI64 (now - asI64 retentionPeriod))

/-- The cutoffs of all tables. Identifiers are unique, so each table has one entry. -/
def InnerCatalog.getRetentionPeriodCutoffMap (catalog : InnerCatalog) (now : Int) :
    List (TableKey × Int) :=
  catalog.databases.resources.flatMap fun schema =>
    schema.tables.resources.filterMap fun table =>
      (schema.getRetentionPeriodCutoffTsNanos now).map fun cutoff =>
        (⟨schema.id, table.tableId⟩, cutoff)

end RefluxDb.Catalog

namespace RefluxDb.Write

open List RefluxDb.Library
open RefluxDb.Catalog (InnerCatalog DatabaseSchema asI64)

/-- The tables of a database that are marked for deletion. -/
inductive DeletedTables where
  | all
  | list (tableIds : List Nat)
deriving DecidableEq

/-- The view with the tables marked for deletion. -/
structure MarkedInner extends Inner where
  deletedData : AList fun _ : Nat => DeletedTables := ∅

/-- Whether the table, or its whole database, is marked for deletion. -/
def MarkedInner.marked (inner : MarkedInner) (key : TableKey) : Bool :=
  match inner.deletedData.lookup key.dbId with
  | some .all => true
  | some (.list tableIds) => tableIds.contains key.tableId
  | none => false

def MarkedInner.deleteDatabase (inner : MarkedInner) (dbId : Nat) : MarkedInner :=
  { inner with deletedData := inner.deletedData.insert dbId .all }

/-- Marks a table for deletion, unless its database is. -/
def MarkedInner.deleteTable (inner : MarkedInner) (key : TableKey) : MarkedInner :=
  match inner.deletedData.lookup key.dbId with
  | some .all => inner
  | some (.list tableIds) =>
    { inner with
      deletedData := inner.deletedData.insert key.dbId (.list (tableIds.insert key.tableId)) }
  | none => { inner with deletedData := inner.deletedData.insert key.dbId (.list [key.tableId]) }

/-- Queues a file unless its path is queued already. -/
def queueForRemoval (removed : Files) (entry : TableKey × ParquetFile) : Files :=
  if entry.2.path ∈ removed.map (·.2.path) then removed else removed ++ [entry]

def MarkedInner.deletedFiles (inner : MarkedInner) : Files :=
  inner.deletedData.entries.flatMap fun deleted =>
    match deleted.2 with
    | .all => inner.files.filter fun entry => entry.1.dbId = deleted.1
    | .list tableIds => tableIds.flatMap fun tableId =>
      inner.files.filter fun entry => entry.1 = ⟨deleted.1, tableId⟩

/-- The files of the other tables that are older than their table's cutoff. -/
def MarkedInner.expiredFiles (inner : MarkedInner) (retentionPeriods : List (TableKey × Int)) :
    Files :=
  retentionPeriods.flatMap fun (key, cutoff) =>
    if inner.marked key then []
    else inner.files.filter fun entry => entry.1 = key && entry.2.maxTime < cutoff

def MarkedInner.removedFiles (inner : MarkedInner) (catalog : InnerCatalog) (now : Int) : Files :=
  (inner.deletedFiles ++ inner.expiredFiles (catalog.getRetentionPeriodCutoffMap now)).foldl
    queueForRemoval []

/-- The part of a removal under the write lock: the queued paths go, and all marks. -/
def MarkedInner.dropQueued (inner : MarkedInner) (removed : Files) : MarkedInner :=
  { inner with
    files := inner.files.filter fun entry => entry.2.path ∉ removed.map (·.2.path)
    parquetFilesCount := inner.parquetFilesCount - removed.length
    parquetFilesRowCount := inner.parquetFilesRowCount - (removed.map (·.2.rowCount)).sum
    deletedData := ∅ }

/-- Drops the files that are marked for deletion or past their retention period. -/
def MarkedInner.removeFilesForDeletion (inner : MarkedInner) (catalog : InnerCatalog)
    (now : Int) : Files × MarkedInner :=
  let removed := inner.removedFiles catalog now
  if removed.isEmpty then (removed, inner) else (removed, inner.dropQueued removed)

/-- The files of a table index that are deleted at a cutoff, and those that stay. -/
def purgeExpired (files : Finset ParquetFile) (cutoffTimeNs : Int) :
    Finset ParquetFile × Finset ParquetFile :=
  (files.filter fun file => file.maxTime < cutoffTimeNs,
    files.filter fun file => ¬ file.maxTime < cutoffTimeNs)

/-- The newest row of the file is older than the retention period of its database allows. -/
def Expired (catalog : InnerCatalog) (now : Int) (key : TableKey) (file : ParquetFile) : Prop :=
  ∃ schema ∈ catalog.databases.resources, schema.id = key.dbId ∧
    ∃ nanoseconds, schema.retentionPeriod = .duration nanoseconds ∧
      file.maxTime < now - nanoseconds

/-- The view drops no unmarked file that is not expired. -/
def RemovesOnlyExpired (catalog : InnerCatalog) (now : Int) : Prop :=
  ∀ inner : MarkedInner, (inner.files.map (·.2.path)).Nodup →
    (∀ entry ∈ inner.files, IsTimestamp entry.2.maxTime) →
      ∀ entry ∈ inner.files, entry ∉ (inner.removeFilesForDeletion catalog now).2.files →
        inner.marked entry.1 = false → Expired catalog now entry.1 entry.2

/-- No table index loses a file that is not expired. -/
def PurgesOnlyExpired (catalog : InnerCatalog) (now : Int) : Prop :=
  ∀ key cutoff, (key, cutoff) ∈ catalog.getRetentionPeriodCutoffMap now →
    ∀ files : Finset ParquetFile, (∀ file ∈ files, IsTimestamp file.maxTime) →
      ∀ file ∈ (purgeExpired files cutoff).1, Expired catalog now key file

/-- Every cutoff only reaches files that are expired. -/
def CutsOnlyExpired (catalog : InnerCatalog) (now : Int) : Prop :=
  ∀ key cutoff, (key, cutoff) ∈ catalog.getRetentionPeriodCutoffMap now →
    ∀ file : ParquetFile, IsTimestamp file.maxTime → file.maxTime < cutoff →
      Expired catalog now key file

/-- The cutoff of the duration is not after the difference it stands for: the difference is a
timestamp, or it wraps to the least one. -/
def CutoffFits (now : Int) (nanoseconds : Nat) : Prop :=
  -2 ^ 63 ≤ now - nanoseconds ∨ (2 ^ 64 : Int) ∣ nanoseconds - now - 2 ^ 63
deriving Decidable

/-- The cutoffs of all databases that have tables fit. -/
def CutoffsFit (catalog : InnerCatalog) (now : Int) : Prop :=
  ∀ schema ∈ catalog.databases.resources, schema.tables.resources ≠ [] →
    ∀ nanoseconds, schema.retentionPeriod = .duration nanoseconds → CutoffFits now nanoseconds

section Cutoff

variable {now : Int} {schema : DatabaseSchema} {nanoseconds : Nat} {cutoff : Int}

theorem isTimestamp_asI64 (bits : Int) : IsTimestamp (asI64 bits) := by
  have hle := Int.le_bmod (x := bits) (m := 2 ^ 64) (by norm_num)
  have hlt := Int.bmod_lt (x := bits) (m := 2 ^ 64) (by norm_num)
  exact ⟨hle, hlt⟩

theorem dvd_sub_asI64 (bits : Int) : (2 ^ 64 : Int) ∣ bits - asI64 bits :=
  Int.dvd_self_sub_bmod

/-- The cutoff is a timestamp and, modulo `2 ^ 64`, the difference. -/
theorem cutoff_spec (hperiod : schema.retentionPeriod = .duration nanoseconds)
    (hcutoff : schema.getRetentionPeriodCutoffTsNanos now = some cutoff) :
    IsTimestamp cutoff ∧ (2 ^ 64 : Int) ∣ now - nanoseconds - cutoff := by
  simp only [DatabaseSchema.getRetentionPeriodCutoffTsNanos, hperiod, Option.some.injEq] at hcutoff
  subst hcutoff
  refine ⟨isTimestamp_asI64 _, ?_⟩
  have hsub := dvd_sub_asI64 (now - asI64 ((nanoseconds % 2 ^ 64 : Nat) : Int))
  have hread := dvd_sub_asI64 ((nanoseconds % 2 ^ 64 : Nat) : Int)
  omega

/-- The cutoff is at most the difference, or the least timestamp, exactly when it fits. -/
theorem cutoffFits_iff (hnow : IsTimestamp now)
    (hperiod : schema.retentionPeriod = .duration nanoseconds)
    (hcutoff : schema.getRetentionPeriodCutoffTsNanos now = some cutoff) :
    CutoffFits now nanoseconds ↔
      ∀ time, IsTimestamp time → time < cutoff → time < now - nanoseconds := by
  obtain ⟨⟨hmin, hmax⟩, hdvd⟩ := cutoff_spec hperiod hcutoff
  constructor
  · rintro (hfits | hleast) time ⟨htime, -⟩ hlt
    · obtain ⟨-, hnow⟩ := hnow
      omega
    · omega
  · intro hall
    by_cases hleast : cutoff = -2 ^ 63
    · right
      omega
    · left
      have hlast := hall (cutoff - 1) ⟨by omega, by omega⟩ (by omega)
      omega

theorem exists_duration (hcutoff : schema.getRetentionPeriodCutoffTsNanos now = some cutoff) :
    ∃ nanoseconds, schema.retentionPeriod = .duration nanoseconds := by
  unfold DatabaseSchema.getRetentionPeriodCutoffTsNanos at hcutoff
  split at hcutoff
  · cases hcutoff
  · exact ⟨_, ‹_›⟩

end Cutoff

section Removal

variable {catalog : InnerCatalog} {now : Int} {inner : MarkedInner}
variable {entry : TableKey × ParquetFile} {key : TableKey} {cutoff : Int}

theorem mem_getRetentionPeriodCutoffMap :
    (key, cutoff) ∈ catalog.getRetentionPeriodCutoffMap now ↔
      ∃ schema ∈ catalog.databases.resources, ∃ table ∈ schema.tables.resources,
        schema.getRetentionPeriodCutoffTsNanos now = some cutoff ∧
          key = ⟨schema.id, table.tableId⟩ := by
  simp only [InnerCatalog.getRetentionPeriodCutoffMap, mem_flatMap, mem_filterMap,
    Option.map_eq_some_iff, Prod.mk.injEq]
  constructor
  · rintro ⟨schema, hschema, table, htable, cutoff, hcutoff, rfl, rfl⟩
    exact ⟨schema, hschema, table, htable, hcutoff, rfl⟩
  · rintro ⟨schema, hschema, table, htable, hcutoff, rfl⟩
    exact ⟨schema, hschema, table, htable, cutoff, hcutoff, rfl, rfl⟩

/-- Cutoffs that fit are those that reach expired files only, one database at a time. -/
theorem cutsOnlyExpired_iff (hlisted : catalog.databases.Listed) (hnow : IsTimestamp now) :
    CutsOnlyExpired catalog now ↔ CutoffsFit catalog now := by
  constructor
  · intro hcuts schema hschema htables nanoseconds hperiod
    obtain ⟨cutoff, hcutoff⟩ : ∃ cutoff,
        schema.getRetentionPeriodCutoffTsNanos now = some cutoff := by
      simp [DatabaseSchema.getRetentionPeriodCutoffTsNanos, hperiod]
    obtain ⟨table, htable⟩ := exists_mem_of_ne_nil _ htables
    rw [cutoffFits_iff hnow hperiod hcutoff]
    intro time htime hlt
    have hentry := mem_getRetentionPeriodCutoffMap.mpr
      ⟨schema, hschema, table, htable, hcutoff, rfl⟩
    obtain ⟨other, hother, hid, nanoseconds', hperiod', hexpired⟩ :=
      hcuts _ cutoff hentry ⟨0, "", 0, 0, 0, time, time⟩ htime hlt
    obtain rfl : other = schema := hlisted.resource_unique hother hschema hid
    obtain rfl : nanoseconds' = nanoseconds := by
      simpa [hperiod] using hperiod'.symm
    exact hexpired
  · intro hfit key cutoff hentry file htime hlt
    obtain ⟨schema, hschema, table, htable, hcutoff, rfl⟩ :=
      mem_getRetentionPeriodCutoffMap.mp hentry
    obtain ⟨nanoseconds, hperiod⟩ := exists_duration hcutoff
    have hfits := hfit schema hschema (ne_nil_of_mem htable) nanoseconds hperiod
    exact ⟨schema, hschema, rfl, nanoseconds, hperiod,
      (cutoffFits_iff hnow hperiod hcutoff).mp hfits _ htime hlt⟩

theorem purgesOnlyExpired_iff : PurgesOnlyExpired catalog now ↔ CutsOnlyExpired catalog now := by
  constructor
  · intro hpurges key cutoff hentry file htime hlt
    exact hpurges key cutoff hentry {file} (by simpa using htime) file
      (by simpa [purgeExpired] using hlt)
  · intro hcuts key cutoff hentry files htimes file hfile
    obtain ⟨hmem, hlt⟩ := Finset.mem_filter.mp hfile
    exact hcuts key cutoff hentry file (htimes file hmem) hlt

theorem mem_paths_foldl_queueForRemoval (queue removed : Files) (path : String) :
    path ∈ (queue.foldl queueForRemoval removed).map (·.2.path) ↔
      path ∈ removed.map (·.2.path) ∨ path ∈ queue.map (·.2.path) := by
  induction queue generalizing removed with
  | nil => simp
  | cons entry queue ih =>
    rw [foldl_cons, ih]
    unfold queueForRemoval
    split
    · rename_i hqueued
      simp only [map_cons, mem_cons]
      constructor
      · rintro (hmem | hmem)
        · exact .inl hmem
        · exact .inr (.inr hmem)
      · rintro (hmem | rfl | hmem)
        · exact .inl hmem
        · exact .inl hqueued
        · exact .inr hmem
    · simp [or_assoc]

theorem mem_removeFilesForDeletion (hentry : entry ∈ inner.files) :
    entry ∉ (inner.removeFilesForDeletion catalog now).2.files ↔
      entry.2.path ∈ (inner.removedFiles catalog now).map (·.2.path) := by
  simp only [MarkedInner.removeFilesForDeletion]
  split
  · rename_i hempty
    simp [List.isEmpty_iff.mp hempty, hentry]
  · simp [MarkedInner.dropQueued, hentry]

theorem marked_of_mem_deletedFiles (hentry : entry ∈ inner.deletedFiles) :
    entry ∈ inner.files ∧ inner.marked entry.1 = true := by
  obtain ⟨⟨dbId, deleted⟩, hdeleted, hmem⟩ := mem_flatMap.mp hentry
  have hlookup := AList.mem_lookup_iff.mpr hdeleted
  cases deleted with
  | all =>
    obtain ⟨hfile, hdb⟩ := mem_filter.mp hmem
    obtain rfl : entry.1.dbId = dbId := by simpa using hdb
    exact ⟨hfile, by simp [MarkedInner.marked, Option.mem_def.mp hlookup]⟩
  | list tableIds =>
    obtain ⟨tableId, htable, hmem⟩ := mem_flatMap.mp hmem
    obtain ⟨hfile, hkey⟩ := mem_filter.mp hmem
    have hkey : entry.1 = ⟨dbId, tableId⟩ := by simpa using hkey
    refine ⟨hfile, ?_⟩
    rw [hkey]
    simp [MarkedInner.marked, Option.mem_def.mp hlookup, htable]

theorem mem_expiredFiles {retentionPeriods : List (TableKey × Int)} :
    entry ∈ inner.expiredFiles retentionPeriods ↔
      entry ∈ inner.files ∧ inner.marked entry.1 = false ∧
        ∃ cutoff, (entry.1, cutoff) ∈ retentionPeriods ∧ entry.2.maxTime < cutoff := by
  unfold MarkedInner.expiredFiles
  rw [mem_flatMap]
  constructor
  · rintro ⟨⟨key, cutoff⟩, hperiod, hmem⟩
    by_cases hmarked : inner.marked key = true
    · simp [hmarked] at hmem
    · simp only [hmarked, Bool.false_eq_true, if_false, mem_filter, Bool.and_eq_true,
        decide_eq_true_eq] at hmem
      obtain ⟨hfile, rfl, hlt⟩ := hmem
      exact ⟨hfile, by simpa using hmarked, cutoff, hperiod, hlt⟩
  · rintro ⟨hfile, hmarked, cutoff, hperiod, hlt⟩
    exact ⟨(entry.1, cutoff), hperiod, by simp [hmarked, hfile, hlt]⟩

/-- What the view drops for retention is what some table's cutoff reaches. -/
theorem dropped_iff (hpaths : (inner.files.map (·.2.path)).Nodup) (hentry : entry ∈ inner.files)
    (hmarked : inner.marked entry.1 = false) :
    entry ∉ (inner.removeFilesForDeletion catalog now).2.files ↔
      ∃ cutoff, (entry.1, cutoff) ∈ catalog.getRetentionPeriodCutoffMap now ∧
        entry.2.maxTime < cutoff := by
  rw [mem_removeFilesForDeletion hentry, MarkedInner.removedFiles, mem_paths_foldl_queueForRemoval,
    map_append, mem_append]
  constructor
  · rintro (hnone | hdeleted | hexpired)
    · simp at hnone
    · obtain ⟨other, hother, hpath⟩ := mem_map.mp hdeleted
      obtain ⟨hfile, hother⟩ := marked_of_mem_deletedFiles hother
      obtain rfl := inj_on_of_nodup_map hpaths hfile hentry hpath
      rw [hmarked] at hother
      cases hother
    · obtain ⟨other, hother, hpath⟩ := mem_map.mp hexpired
      obtain ⟨hfile, -, hcutoff⟩ := mem_expiredFiles.mp hother
      obtain rfl := inj_on_of_nodup_map hpaths hfile hentry hpath
      exact hcutoff
  · intro hcutoff
    have hexpired := mem_expiredFiles.mpr ⟨hentry, hmarked, hcutoff⟩
    exact .inr (.inr (mem_map_of_mem hexpired))

theorem removesOnlyExpired_iff : RemovesOnlyExpired catalog now ↔ CutsOnlyExpired catalog now := by
  constructor
  · intro hremoves key cutoff hcutoff file htime hlt
    -- the view that holds this one file drops it
    let inner : MarkedInner := { files := [(key, file)] }
    have hdropped : (key, file) ∉ (inner.removeFilesForDeletion catalog now).2.files :=
      (dropped_iff (by simp [inner]) (by simp [inner]) (by simp [inner, MarkedInner.marked])).mpr
        ⟨cutoff, hcutoff, hlt⟩
    exact hremoves inner (by simp [inner]) (by simpa [inner] using htime) (key, file)
      (by simp [inner]) hdropped (by simp [inner, MarkedInner.marked])
  · intro hcuts inner hpaths htimes entry hentry hdropped hmarked
    obtain ⟨cutoff, hcutoff, hlt⟩ := (dropped_iff hpaths hentry hmarked).mp hdropped
    exact hcuts entry.1 cutoff hcutoff entry.2 (htimes entry hentry) hlt

/-- Both places drop for retention only what the retention period does not allow exactly when, at
this clock value, the cutoff of every duration in use fits. -/
theorem retention_onlyExpired_iff (hlisted : catalog.databases.Listed) (hnow : 0 ≤ now)
    (hclock : now < 2 ^ 63) :
    (RemovesOnlyExpired catalog now ↔ CutoffsFit catalog now) ∧
      (PurgesOnlyExpired catalog now ↔ CutoffsFit catalog now) := by
  have hnow : IsTimestamp now := ⟨by omega, hclock⟩
  rw [removesOnlyExpired_iff, purgesOnlyExpired_iff]
  exact ⟨cutsOnlyExpired_iff hlisted hnow, cutsOnlyExpired_iff hlisted hnow⟩

/-- A catalog of one table, in a database with the retention period. -/
def keepingFor (nanoseconds : Nat) : InnerCatalog where
  databases := ({} : Catalog.Repository DatabaseSchema).put 0
    { id := 0
      name := "sensors"
      tables := ({} : Catalog.Repository Catalog.TableDefinition).put 0
        { tableId := 0, tableName := "cpu", fieldFamilyMode := .auto } 1
      retentionPeriod := .duration nanoseconds } 1

theorem listed_keepingFor (nanoseconds : Nat) : (keepingFor nanoseconds).databases.Listed :=
  Catalog.Repository.Listed.empty.put rfl (.inl (by decide)) (by decide) (by decide)

/-- With a period of 30 days, at a time in 2026, only expired files are dropped. -/
theorem retention_onlyExpired_thirty_days :
    RemovesOnlyExpired (keepingFor 2592000000000000) 1784000000000000000 ∧
      PurgesOnlyExpired (keepingFor 2592000000000000) 1784000000000000000 := by
  have hfit : CutoffsFit (keepingFor 2592000000000000) 1784000000000000000 := by
    intro schema hschema _ nanoseconds hperiod
    obtain rfl := mem_singleton.mp hschema
    cases hperiod
    decide
  have hiff := @retention_onlyExpired_iff (keepingFor 2592000000000000) 1784000000000000000
    (listed_keepingFor _) (by decide) (by decide)
  exact ⟨hiff.1.mpr hfit, hiff.2.mpr hfit⟩

/-- A file whose newest row is as old as the clock value. -/
def freshFile : ParquetFile where
  id := 0
  path := "node/dbs/0/0/2026-07-14/03-30/0000000001.parquet"
  sizeBytes := 1024
  rowCount := 10
  chunkTime := 1783999800000000000
  minTime := 1783999900000000000
  maxTime := 1784000000000000000

/-- With a period of 400 years the cutoff at a time in 2026 is in 2211, so a file that has just
been written is dropped from the view and deleted from the table's index. -/
theorem fresh_file_dropped_by_long_retention :
    (keepingFor 12623040000000000000).getRetentionPeriodCutoffMap 1784000000000000000 =
        [(⟨0, 0⟩, 7607704073709551616)] ∧
      (MarkedInner.removeFilesForDeletion { files := [(⟨0, 0⟩, freshFile)] }
        (keepingFor 12623040000000000000) 1784000000000000000).2.files = [] ∧
      (purgeExpired {freshFile} 7607704073709551616).1 = {freshFile} ∧
      ¬ freshFile.maxTime < 1784000000000000000 - 12623040000000000000 := by
  decide

end Removal

end RefluxDb.Write
