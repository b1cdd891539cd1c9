import RefluxDb.Library.Lists
import RefluxDb.Library.TombstoneSet
import RefluxDb.Write.PersistedFiles

/-! What the fold of one manifest does to live paths, tombstones and counters.

The fold refines the application of a change to a tombstone set: the items are object paths,
live where the table they belong to has them, and buried where they have a tombstone. -/

namespace RefluxDb.Write

open List RefluxDb.Library

def Files.paths (files : Files) : List (TableKey × String) :=
  files.map fun entry => (entry.1, entry.2.path)

/-- The table and path of every file of a manifest's map. -/
def DatabaseTables.paths (tables : DatabaseTables) : List (TableKey × String) :=
  tables.tables.flatMap fun table => table.2.map fun file => (table.1, file.path)

variable {key key' : TableKey} {path : String} {state : FoldState} {file : ParquetFile}
variable {source : Option String}

variable {files : Files}

theorem hasPath_iff : hasPath files key path = true ↔ (key, path) ∈ files.paths := by
  simp only [hasPath, Files.paths, any_eq_true, mem_map, Bool.and_eq_true,
    decide_eq_true_eq, Prod.mk.injEq]

@[simp] theorem addFile_tombstones : (addFile key state file).tombstones = state.tombstones := by
  unfold addFile
  split
  · rfl
  · split <;> rfl

theorem mem_addFile_paths :
    (key', path) ∈ (addFile key state file).files.paths ↔
      (key', path) ∈ state.files.paths ∨
        (key' = key ∧ path = file.path) ∧ path ∉ state.tombstones := by
  unfold addFile
  split
  case isTrue hburied =>
    constructor
    · exact .inl
    · rintro (hold | ⟨⟨_, rfl⟩, hfree⟩)
      · exact hold
      · exact absurd hburied hfree
  case isFalse hfree =>
    split
    case isTrue hpresent =>
      rw [hasPath_iff] at hpresent
      constructor
      · exact .inl
      · rintro (hold | ⟨⟨rfl, rfl⟩, _⟩)
        · exact hold
        · exact hpresent
    case isFalse =>
      simp only [Files.paths, map_append, mem_append, map_cons, map_nil,
        mem_singleton, Prod.mk.injEq]
      constructor
      · rintro (hold | ⟨rfl, rfl⟩)
        · exact .inl hold
        · exact .inr ⟨⟨rfl, rfl⟩, hfree⟩
      · rintro (hold | ⟨hnew, _⟩)
        · exact .inl hold
        · exact .inr hnew

/-- Adding a list of files: the tombstones stay, and the paths without one are there. -/
theorem foldl_addFile (key : TableKey) (files : List ParquetFile) (state : FoldState) :
    (files.foldl (addFile key) state).tombstones = state.tombstones ∧
      ∀ key' path, (key', path) ∈ (files.foldl (addFile key) state).files.paths ↔
        (key', path) ∈ state.files.paths ∨
          (key' = key ∧ path ∈ files.map (·.path)) ∧ path ∉ state.tombstones := by
  induction files generalizing state with
  | nil => simp
  | cons file rest ih =>
    obtain ⟨htombstones, hpaths⟩ := ih (addFile key state file)
    refine ⟨htombstones.trans addFile_tombstones, fun key' path => ?_⟩
    rw [foldl_cons, hpaths, mem_addFile_paths, addFile_tombstones, map_cons,
      mem_cons]
    grind

/-- The addition phase of the fold. -/
theorem foldl_addTable (tables : List (TableKey × List ParquetFile)) (state : FoldState) :
    (tables.foldl addTable state).tombstones = state.tombstones ∧
      ∀ key path, (key, path) ∈ (tables.foldl addTable state).files.paths ↔
        (key, path) ∈ state.files.paths ∨
          (∃ table ∈ tables, key = table.1 ∧ path ∈ table.2.map (·.path)) ∧
            path ∉ state.tombstones := by
  induction tables generalizing state with
  | nil => simp
  | cons table rest ih =>
    obtain ⟨hfirst, hfirstpaths⟩ := foldl_addFile table.1 table.2 state
    obtain ⟨htombstones, hpaths⟩ := ih (addTable state table)
    change (addTable state table).tombstones = _ at hfirst
    refine ⟨htombstones.trans hfirst, fun key path => ?_⟩
    rw [foldl_cons, hpaths, addTable, hfirstpaths, ← addTable, hfirst]
    simp only [mem_cons, exists_eq_or_imp]
    grind

theorem mem_paths_tables {tables : DatabaseTables} :
    (key, path) ∈ tables.paths ↔
      ∃ table ∈ tables.tables, key = table.1 ∧ path ∈ table.2.map (·.path) := by
  simp only [DatabaseTables.paths, mem_flatMap, mem_map, Prod.mk.injEq]
  constructor
  · rintro ⟨table, htable, file, hfile, rfl, rfl⟩
    exact ⟨table, htable, rfl, file, hfile, rfl⟩
  · rintro ⟨table, htable, rfl, file, hfile, rfl⟩
    exact ⟨table, htable, file, hfile, rfl, rfl⟩

variable {presentTargets : List String}

/-- A removed file's tombstone: kept or set by the ones that were absent. -/
theorem mem_foldl_bury (files : List ParquetFile)
    (tombstones : Tombstones) :
    path ∈ files.foldl (bury source presentTargets) tombstones ↔
      path ∈ tombstones ∨ path ∈ files.map (·.path) ∧ path ∉ presentTargets ∧
        (tombstoneGc source path).isSome := by
  induction files generalizing tombstones with
  | nil => simp
  | cons file rest ih =>
    rw [foldl_cons, ih, map_cons, mem_cons]
    have hbury : path ∈ bury source presentTargets tombstones file ↔
        path ∈ tombstones ∨ path = file.path ∧ path ∉ presentTargets ∧
          (tombstoneGc source path).isSome := by
      unfold bury
      split
      case isTrue hpresent =>
        constructor
        · exact .inl
        · rintro (hold | ⟨rfl, habsent, _⟩)
          · exact hold
          · exact absurd hpresent habsent
      case isFalse habsent =>
        cases hgc : tombstoneGc source file.path with
        | none =>
          constructor
          · exact .inl
          · rintro (hold | ⟨rfl, _, hsome⟩)
            · exact hold
            · simp [hgc] at hsome
        | some gc =>
          simp only [AList.mem_insert]
          constructor
          · rintro (rfl | hold)
            · exact .inr ⟨rfl, habsent, by simp [hgc]⟩
            · exact .inl hold
          · rintro (hold | ⟨rfl, _⟩)
            · exact .inr hold
            · exact .inl rfl
    rw [hbury]
    grind

variable {table : TableKey × List ParquetFile}

theorem mem_removeTable_paths :
    (key, path) ∈ (removeTable source state table).files.paths ↔
      (key, path) ∈ state.files.paths ∧ ¬(key = table.1 ∧ path ∈ table.2.map (·.path)) := by
  simp only [removeTable, Files.paths, mem_map, mem_filter, Bool.not_eq_true',
    Bool.and_eq_false_iff, decide_eq_false_iff_not, Prod.mk.injEq, not_and_or]
  constructor
  · rintro ⟨entry, ⟨hentry, hkept⟩, rfl, rfl⟩
    exact ⟨⟨entry, hentry, rfl, rfl⟩, hkept⟩
  · rintro ⟨⟨entry, hentry, rfl, rfl⟩, hkept⟩
    exact ⟨entry, ⟨hentry, hkept⟩, rfl, rfl⟩

theorem mem_removeTable_tombstones :
    path ∈ (removeTable source state table).tombstones ↔
      path ∈ state.tombstones ∨
        path ∈ table.2.map (·.path) ∧ (table.1, path) ∉ state.files.paths ∧
          (tombstoneGc source path).isSome := by
  have htargets : path ∈ table.2.map (·.path) →
      (path ∈ (state.files.filter fun entry => decide (entry.1 = table.1) &&
        decide (entry.2.path ∈ table.2.map (·.path))).map (·.2.path) ↔
      (table.1, path) ∈ state.files.paths) := by
    intro hpath
    simp only [Files.paths, mem_map, mem_filter, Bool.and_eq_true, decide_eq_true_eq,
      Prod.mk.injEq] at hpath ⊢
    constructor
    · rintro ⟨entry, ⟨hentry, hkey, _⟩, rfl⟩
      exact ⟨entry, hentry, hkey, rfl⟩
    · rintro ⟨entry, hentry, hkey, rfl⟩
      exact ⟨entry, ⟨hentry, hkey, hpath⟩, rfl⟩
  simp only [removeTable, mem_foldl_bury]
  constructor
  · rintro (hold | ⟨hpath, habsent, hgc⟩)
    · exact .inl hold
    · exact .inr ⟨hpath, fun hmem => habsent ((htargets hpath).mpr hmem), hgc⟩
  · rintro (hold | ⟨hpath, habsent, hgc⟩)
    · exact .inl hold
    · exact .inr ⟨hpath, fun hmem => habsent ((htargets hpath).mp hmem), hgc⟩

/-- The removal phase keeps the files that no table's removals name. -/
theorem foldl_removeTable_files (tables : List (TableKey × List ParquetFile)) (state : FoldState) :
    (tables.foldl (removeTable source) state).files = state.files.filter fun entry =>
      decide (¬∃ table ∈ tables, entry.1 = table.1 ∧ entry.2.path ∈ table.2.map (·.path)) := by
  induction tables generalizing state with
  | nil => simp
  | cons table rest ih =>
    rw [foldl_cons, ih, removeTable, filter_filter]
    refine filter_congr fun entry _ => ?_
    simp only [mem_cons, exists_eq_or_imp, not_or, Bool.decide_and, decide_not, Bool.and_comm]

/-- The removal phase leaves tombstones for what was absent when it started: the tables are
distinct, so no table's removals hide another's. -/
theorem foldl_removeTable_tombstones (tables : List (TableKey × List ParquetFile))
    (hnodup : (tables.map Prod.fst).Nodup) (state : FoldState) :
    path ∈ (tables.foldl (removeTable source) state).tombstones ↔
      path ∈ state.tombstones ∨
        (∃ table ∈ tables, path ∈ table.2.map (·.path) ∧
          (table.1, path) ∉ state.files.paths) ∧ (tombstoneGc source path).isSome := by
  induction tables generalizing state with
  | nil => simp
  | cons table rest ih =>
    simp only [map_cons, nodup_cons] at hnodup
    have hlater : ∀ other ∈ rest,
        ((other.1, path) ∉ (removeTable source state table).files.paths ↔
          (other.1, path) ∉ state.files.paths) := by
      intro other hother
      rw [mem_removeTable_paths]
      grind
    rw [foldl_cons, ih hnodup.2, mem_removeTable_tombstones]
    have hrest : (∃ other ∈ rest, path ∈ other.2.map (·.path) ∧
          (other.1, path) ∉ (removeTable source state table).files.paths) ↔
        ∃ other ∈ rest, path ∈ other.2.map (·.path) ∧ (other.1, path) ∉ state.files.paths := by
      constructor
      · rintro ⟨other, hother, hpath, habsent⟩
        exact ⟨other, hother, hpath, (hlater other hother).mp habsent⟩
      · rintro ⟨other, hother, hpath, habsent⟩
        exact ⟨other, hother, hpath, (hlater other hother).mpr habsent⟩
    rw [hrest]
    simp only [mem_cons, exists_eq_or_imp]
    grind

/-- What is in a table between the additions and the removals of a manifest. -/
def PresentFor (inner : Inner) (snapshot : PersistedSnapshot) (key : TableKey) (path : String) :
    Prop :=
  (key, path) ∈ inner.files.paths ∨
    (key, path) ∈ snapshot.databases.paths ∧ path ∉ inner.removedTombstones

variable {inner : Inner} {snapshot : PersistedSnapshot}

private theorem mem_added_paths :
    (key, path) ∈ (snapshot.databases.tables.foldl addTable
      ⟨inner.files, inner.removedTombstones, {}⟩).files.paths ↔
      PresentFor inner snapshot key path := by
  rw [(foldl_addTable _ _).2]
  simp only [PresentFor, mem_paths_tables]

/-- What is new stands behind the files. -/
def Extends (files : Files) (state : FoldState) : Prop :=
  ∃ new, state.files = files ++ new ∧ ∀ entry ∈ new, (entry.1, entry.2.path) ∉ files.paths

theorem Extends.addFile (hextends : Extends files state) :
    Extends files (addFile key state file) := by
  obtain ⟨new, hfiles, hnew⟩ := hextends
  unfold Write.addFile
  split
  case isTrue => exact ⟨new, hfiles, hnew⟩
  case isFalse =>
    split
    case isTrue => exact ⟨new, hfiles, hnew⟩
    case isFalse habsent =>
      rw [hasPath_iff, hfiles, Files.paths, map_append] at habsent
      refine ⟨_, by rw [hfiles, append_assoc], forall_mem_concat.mpr ⟨hnew, fun hmem => ?_⟩⟩
      exact habsent (mem_append_left _ hmem)

theorem extends_foldl_addTable : Extends inner.files (snapshot.databases.tables.foldl addTable
    ⟨inner.files, inner.removedTombstones, {}⟩) := by
  refine foldl_keeps (Extends inner.files) (fun _ _ _ hextends => ?_) ⟨[], by simp⟩
  exact foldl_keeps (Extends inner.files) (fun _ _ _ hextends => hextends.addFile) hextends

theorem files_addPersistedSnapshot :
    (inner.addPersistedSnapshot snapshot source).files = (snapshot.databases.tables.foldl addTable
      ⟨inner.files, inner.removedTombstones, {}⟩).files.filter fun entry =>
        decide ((entry.1, entry.2.path) ∉ snapshot.removedFiles.paths) := by
  simp only [mem_paths_tables]
  exact foldl_removeTable_files _ _

/-- The live paths after a manifest: those present after its additions that it does not
remove. -/
theorem mem_addPersistedSnapshot_paths :
    (key, path) ∈ (inner.addPersistedSnapshot snapshot source).files.paths ↔
      PresentFor inner snapshot key path ∧ (key, path) ∉ snapshot.removedFiles.paths := by
  rw [files_addPersistedSnapshot, ← mem_added_paths]
  simp only [Files.paths, mem_map, mem_filter, decide_eq_true_eq, Prod.mk.injEq]
  constructor
  · rintro ⟨entry, ⟨hentry, hkept⟩, rfl, rfl⟩
    exact ⟨⟨entry, hentry, rfl, rfl⟩, hkept⟩
  · rintro ⟨⟨entry, hentry, rfl, rfl⟩, hkept⟩
    exact ⟨entry, ⟨hentry, hkept⟩, rfl, rfl⟩

/-- The tombstones after a manifest: the removals that found nothing, where they are kept. -/
theorem mem_addPersistedSnapshot_tombstones :
    path ∈ (inner.addPersistedSnapshot snapshot source).removedTombstones ↔
      path ∈ inner.removedTombstones ∨
        (∃ key, (key, path) ∈ snapshot.removedFiles.paths ∧
          ¬PresentFor inner snapshot key path) ∧ (tombstoneGc source path).isSome := by
  simp only [Inner.addPersistedSnapshot, updatePersistedFilesWithSnapshot]
  rw [foldl_removeTable_tombstones _ snapshot.removedFiles.nodup_keys, (foldl_addTable _ _).1]
  simp only [mem_added_paths, mem_paths_tables]
  constructor
  · rintro (hold | ⟨⟨table, htable, hpath, habsent⟩, hgc⟩)
    · exact .inl hold
    · exact .inr ⟨⟨table.1, ⟨table, htable, rfl, hpath⟩, habsent⟩, hgc⟩
  · rintro (hold | ⟨⟨key, ⟨table, htable, rfl, hpath⟩, habsent⟩, hgc⟩)
    · exact .inl hold
    · exact .inr ⟨⟨table, htable, hpath, habsent⟩, hgc⟩

variable {gc : TombstoneGc}

/-- Every tombstone a manifest leaves has the key `tombstoneGc` gives for its path. -/
theorem lookup_foldl_bury (files : List ParquetFile) (tombstones : Tombstones)
    (hgc : gc ∈ (files.foldl (bury source presentTargets) tombstones).lookup path) :
    gc ∈ tombstones.lookup path ∨
      path ∈ files.map (·.path) ∧ tombstoneGc source path = some gc := by
  induction files generalizing tombstones with
  | nil => exact .inl hgc
  | cons file rest ih =>
    rcases ih _ hgc with hbury | ⟨hpath, hkey⟩
    · unfold bury at hbury
      split at hbury
      case isTrue => exact .inl hbury
      case isFalse =>
        cases hfile : tombstoneGc source file.path with
        | none => exact .inl (by simpa [hfile] using hbury)
        | some filegc =>
          simp only [hfile] at hbury
          by_cases hsame : path = file.path
          · subst hsame
            rw [AList.lookup_insert, Option.mem_some_iff] at hbury
            exact .inr ⟨by simp, by rw [hfile, hbury]⟩
          · rw [AList.lookup_insert_ne hsame] at hbury
            exact .inl hbury
    · exact .inr ⟨mem_cons_of_mem _ hpath, hkey⟩

theorem lookup_foldl_removeTable (tables : List (TableKey × List ParquetFile)) (state : FoldState)
    (hgc : gc ∈ (tables.foldl (removeTable source) state).tombstones.lookup path) :
    gc ∈ state.tombstones.lookup path ∨
      (∃ table ∈ tables, path ∈ table.2.map (·.path)) ∧ tombstoneGc source path = some gc := by
  induction tables generalizing state with
  | nil => exact .inl hgc
  | cons table rest ih =>
    rcases ih _ hgc with hremove | ⟨⟨other, hother, hpath⟩, hkey⟩
    · rcases lookup_foldl_bury table.2 state.tombstones hremove with hold | ⟨hpath, hkey⟩
      · exact .inl hold
      · exact .inr ⟨⟨table, by simp, hpath⟩, hkey⟩
    · exact .inr ⟨⟨other, mem_cons_of_mem _ hother, hpath⟩, hkey⟩

theorem lookup_addPersistedSnapshot
    (hgc : gc ∈ (inner.addPersistedSnapshot snapshot source).removedTombstones.lookup path) :
    gc ∈ inner.removedTombstones.lookup path ∨
      (∃ key, (key, path) ∈ snapshot.removedFiles.paths) ∧ tombstoneGc source path = some gc := by
  rcases lookup_foldl_removeTable _ _ hgc with hold | ⟨⟨table, htable, hpath⟩, hkey⟩
  · rw [(foldl_addTable _ _).1] at hold
    exact .inl hold
  · exact .inr ⟨⟨table.1, mem_paths_tables.mpr ⟨table, htable, rfl, hpath⟩⟩, hkey⟩

def Files.rowCount (files : Files) : Nat := (files.map (·.2.rowCount)).sum

/-- The counters are the number of live files and their row total. -/
structure Inner.Counted (inner : Inner) : Prop where
  count : inner.parquetFilesCount = inner.files.length
  rows : inner.parquetFilesRowCount = inner.files.rowCount

/-- The delta of the fold so far accounts for the files: what was there before and what was
added is what is there and what was removed. -/
def Accounts (files : Files) (state : FoldState) : Prop :=
  files.length + state.delta.addedCount = state.files.length + state.delta.removedCount ∧
    files.rowCount + state.delta.addedRowCount =
      state.files.rowCount + state.delta.removedRowCount

theorem Accounts.addFile (haccounts : Accounts files state) :
    Accounts files (addFile key state file) := by
  unfold Write.addFile
  split
  · exact haccounts
  · split
    · exact haccounts
    · obtain ⟨hcount, hrows⟩ := haccounts
      constructor
      · simp only [SnapshotFoldDelta.add, length_append, length_singleton]
        omega
      · simp only [SnapshotFoldDelta.add, Files.rowCount, map_append, sum_append,
          map_cons, map_nil, sum_cons, sum_nil] at hrows ⊢
        omega

theorem sum_filter_add_sum_filter_not {α : Type*} (weight : α → Nat) (test : α → Bool)
    (list : List α) :
    ((list.filter test).map weight).sum + ((list.filter fun a => !test a).map weight).sum =
      (list.map weight).sum := by
  rw [← sum_append, ← map_append]
  exact ((filter_append_perm test list).map weight).sum_nat

theorem Accounts.removeTable
    (haccounts : Accounts files state) : Accounts files (removeTable source state table) := by
  obtain ⟨hcount, hrows⟩ := haccounts
  simp only [Write.removeTable, Accounts, SnapshotFoldDelta.remove]
  constructor
  · have hsplit := length_eq_length_filter_add (l := state.files) fun entry =>
      decide (entry.1 = table.1) && decide (entry.2.path ∈ table.2.map (·.path))
    omega
  · have hsplit := sum_filter_add_sum_filter_not (fun entry => entry.2.rowCount)
      (fun entry => decide (entry.1 = table.1) &&
        decide (entry.2.path ∈ table.2.map (·.path))) state.files
    simp only [Files.rowCount] at hrows ⊢
    omega

theorem accounts_updatePersistedFilesWithSnapshot :
    Accounts inner.files (updatePersistedFilesWithSnapshot snapshot inner.files
      inner.removedTombstones source) := by
  refine foldl_keeps (Accounts inner.files) (fun _ _ _ haccounts => haccounts.removeTable) ?_
  refine foldl_keeps (Accounts inner.files) (fun _ _ _ haccounts => ?_) ⟨rfl, rfl⟩
  exact foldl_keeps (Accounts inner.files) (fun _ _ _ haccounts => haccounts.addFile) haccounts

theorem Inner.Counted.addPersistedSnapshot (hcounted : inner.Counted) :
    (inner.addPersistedSnapshot snapshot source).Counted := by
  obtain ⟨hcount, hrows⟩ := @accounts_updatePersistedFilesWithSnapshot source inner snapshot
  constructor
  · simp only [Inner.addPersistedSnapshot, hcounted.count]
    omega
  · simp only [Inner.addPersistedSnapshot, hcounted.rows]
    omega

section Direct

theorem mem_addPersistedFile_paths :
    (key', path) ∈ (inner.addPersistedFile key file).files.paths ↔
      (key', path) ∈ inner.files.paths ∨ key' = key ∧ path = file.path := by
  unfold Inner.addPersistedFile
  split
  case isTrue hpresent =>
    have hpath : (key, file.path) ∈ inner.files.paths := mem_map.mpr ⟨_, hpresent, rfl⟩
    constructor
    · exact .inl
    · rintro (hold | ⟨rfl, rfl⟩)
      · exact hold
      · exact hpath
  case isFalse =>
    simp [Files.paths]

@[simp] theorem addPersistedFile_tombstones :
    (inner.addPersistedFile key file).removedTombstones = inner.removedTombstones := by
  unfold Inner.addPersistedFile
  split <;> rfl

theorem mem_removePersistedFiles_paths {files : List ParquetFile} :
    (key', path) ∈ (inner.removePersistedFiles key files).files.paths ↔
      (key', path) ∈ inner.files.paths ∧ ¬(key' = key ∧ path ∈ files.map (·.path)) := by
  change (key', path) ∈
    (removeTable none ⟨inner.files, inner.removedTombstones, {}⟩ (key, files)).files.paths ↔ _
  exact mem_removeTable_paths

/-- Adding one table's outputs: the paths are there, whatever their tombstones. -/
theorem foldl_addPersistedFile (key : TableKey) (files : List ParquetFile)
    (inner : Inner) :
    (files.foldl (fun inner file => inner.addPersistedFile key file) inner).removedTombstones =
        inner.removedTombstones ∧
      ∀ key' path, (key', path) ∈
          (files.foldl (fun inner file => inner.addPersistedFile key file) inner).files.paths ↔
        (key', path) ∈ inner.files.paths ∨ key' = key ∧ path ∈ files.map (·.path) := by
  induction files generalizing inner with
  | nil => simp
  | cons file rest ih =>
    obtain ⟨htombstones, hpaths⟩ := ih (inner.addPersistedFile key file)
    refine ⟨htombstones.trans addPersistedFile_tombstones, fun key' path => ?_⟩
    rw [foldl_cons, hpaths, mem_addPersistedFile_paths, map_cons, mem_cons]
    grind

end Direct

end RefluxDb.Write
