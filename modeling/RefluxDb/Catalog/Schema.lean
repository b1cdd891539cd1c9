import RefluxDb.Catalog.Table
import RefluxDb.Library.Text

/-! Databases, and how each kind of log entry changes one.

Entries carry the definitions that are added, with their identifiers, so that applying an entry
hands out none. The source keeps a borrowed schema until an entry changes it; here an entry returns
the schema and whether it changed it. Times are in nanoseconds since the epoch, durations are in
nanoseconds. Parsing a trigger's specification is left out. -/

namespace RefluxDb.Catalog

open RefluxDb.Library Fallible

section Stamps

/-- Year, month and day of a number of days since the epoch. -/
def civilFromDays (days : Int) : Nat × Nat × Nat :=
  let shifted := days + 719468
  let era := shifted / 146097
  let dayOfEra := (shifted % 146097).toNat
  let yearOfEra := (dayOfEra - dayOfEra / 1460 + dayOfEra / 36524 - dayOfEra / 146096) / 365
  let dayOfYear := dayOfEra - (365 * yearOfEra + yearOfEra / 4 - yearOfEra / 100)
  let monthFromMarch := (5 * dayOfYear + 2) / 153
  let day := dayOfYear - (153 * monthFromMarch + 2) / 5 + 1
  let month := if monthFromMarch < 10 then monthFromMarch + 3 else monthFromMarch - 9
  let year := (era * 400 + yearOfEra).toNat + if month ≤ 2 then 1 else 0
  (year, month, day)

/-- A time to the second, in the form `%Y%m%dT%H%M%S`. -/
def softDeletionTimeFormat (time : Int) : String :=
  let seconds := time / 1000000000
  let (year, month, day) := civilFromDays (seconds / 86400)
  let secondOfDay := (seconds % 86400).toNat
  .ofList (Text.padded 4 year ++ Text.padded 2 month ++ Text.padded 2 day ++ ['T'] ++
    Text.padded 2 (secondOfDay / 3600) ++ Text.padded 2 (secondOfDay / 60 % 60) ++
    Text.padded 2 (secondOfDay % 60))

example : softDeletionTimeFormat 1709210096500000000 = "20240229T123456" := by decide

/-- The name a database or a table gets when it is deleted. -/
def makeNewNameUsingDeletedTime (name : String) (deletionTime : Int) : String :=
  name ++ "-" ++ softDeletionTimeFormat deletionTime

end Stamps

def internalDbName : String := "_internal"

inductive RetentionPeriod where
  | indefinite
  | duration (nanoseconds : Nat)
deriving DecidableEq

/-- The period of a database that is created with a duration or without. -/
def RetentionPeriod.ofOption : Option Nat → RetentionPeriod
  | some nanoseconds => .duration nanoseconds
  | none => .indefinite

inductive TriggerSpecificationDefinition where
  | singleTableWalWrite (tableName : String)
  | allTablesWalWrite
  | schedule (schedule : String)
  | requestPath (path : String)
  | every (duration : Nat)
deriving DecidableEq

inductive ErrorBehavior where
  | log
  | retry
  | disable
deriving DecidableEq

structure TriggerSettings where
  runAsync : Bool
  errorBehavior : ErrorBehavior
deriving DecidableEq

structure TriggerDefinition where
  triggerId : Nat
  triggerName : String
  pluginFilename : String
  databaseName : String
  nodeId : String
  trigger : TriggerSpecificationDefinition
  triggerSettings : TriggerSettings
  triggerArguments : Option (List (String × String))
  disabled : Bool
deriving DecidableEq

instance : CatalogResource TriggerDefinition where
  id := TriggerDefinition.triggerId
  name := TriggerDefinition.triggerName
  maxId := 2 ^ 32 - 1

structure DatabaseSchema where
  id : Nat
  name : String
  tables : Repository TableDefinition := {}
  retentionPeriod : RetentionPeriod := .indefinite
  processingEngineTriggers : Repository TriggerDefinition := {}
  deleted : Bool := false
  hardDeleteTime : Option Int := none
deriving DecidableEq

instance : CatalogResource DatabaseSchema where
  id := DatabaseSchema.id
  name := DatabaseSchema.name
  maxId := 2 ^ 32 - 1

section Entries

structure CreateDatabaseLog where
  databaseId : Nat
  databaseName : String
  retentionPeriod : Option Nat
deriving DecidableEq

structure SoftDeleteDatabaseLog where
  databaseId : Nat
  databaseName : String
  deletionTime : Int
  hardDeletionTime : Option Int
deriving DecidableEq

structure CreateTableLog where
  databaseId : Nat
  databaseName : String
  tableName : String
  tableId : Nat
  fieldFamilyMode : FieldFamilyMode
deriving DecidableEq

structure SoftDeleteTableLog where
  databaseId : Nat
  databaseName : String
  tableId : Nat
  tableName : String
  deletionTime : Int
  hardDeletionTime : Option Int
deriving DecidableEq

structure AddColumnsLog where
  databaseName : String
  databaseId : Nat
  tableName : String
  tableId : Nat
  columnDefinitions : List ColumnDefinition
  fieldFamilyDefinitions : List FieldFamilyDefinitionLog
deriving DecidableEq

structure DeleteDistinctCacheLog where
  tableId : Nat
  tableName : String
  cacheId : Nat
  cacheName : String
deriving DecidableEq

structure DeleteLastCacheLog where
  tableId : Nat
  tableName : String
  id : Nat
  name : String
deriving DecidableEq

structure DeleteTriggerLog where
  triggerId : Nat
  triggerName : String
  force : Bool
deriving DecidableEq

structure TriggerIdentifier where
  dbId : Nat
  dbName : String
  triggerId : Nat
  triggerName : String
deriving DecidableEq

structure SetRetentionPeriodLog where
  databaseName : String
  databaseId : Nat
  retentionPeriod : RetentionPeriod
deriving DecidableEq

structure ClearRetentionPeriodLog where
  databaseName : String
  databaseId : Nat
deriving DecidableEq

inductive DatabaseCatalogOp where
  | createDatabase (log : CreateDatabaseLog)
  | softDeleteDatabase (log : SoftDeleteDatabaseLog)
  | createTable (log : CreateTableLog)
  | softDeleteTable (log : SoftDeleteTableLog)
  | addColumns (log : AddColumnsLog)
  | createDistinctCache (definition : DistinctCacheDefinition)
  | deleteDistinctCache (log : DeleteDistinctCacheLog)
  | createLastCache (definition : LastCacheDefinition)
  | deleteLastCache (log : DeleteLastCacheLog)
  | createTrigger (definition : TriggerDefinition)
  | deleteTrigger (log : DeleteTriggerLog)
  | enableTrigger (trigger : TriggerIdentifier)
  | disableTrigger (trigger : TriggerIdentifier)
  | setRetentionPeriod (log : SetRetentionPeriodLog)
  | clearRetentionPeriod (log : ClearRetentionPeriodLog)
deriving DecidableEq

/-- Entries that make no table and add no columns. -/
def DatabaseCatalogOp.keepsColumns : DatabaseCatalogOp → Bool
  | .createTable _ | .addColumns _ => false
  | _ => true

end Entries

namespace TableDefinition

/-- The table marked as deleted, under its deleted name. One that is deleted already only gets the
new time of its removal. -/
def softDelete (table : TableDefinition) (deletionTime : Int) (hardDeleteTime : Option Int) :
    TableDefinition :=
  { table with
    tableName := if table.deleted then table.tableName
      else makeNewNameUsingDeletedTime table.tableName deletionTime
    deleted := true
    hardDeleteTime := hardDeleteTime }

end TableDefinition

namespace DatabaseSchema

def new (id : Nat) (name : String) : DatabaseSchema where
  id := id
  name := name

variable (schema : DatabaseSchema)

def tableCount : Nat := (schema.tables.resources.filter fun table => !table.deleted).length

def tableDefinition (tableName : String) : Option TableDefinition :=
  schema.tables.getByName tableName

/-- Entries that change one table fail when it is not there. -/
def updateTable (tableId : Nat) (tableName : String)
    (update : TableDefinition → Result (TableDefinition × Bool)) :
      Result (DatabaseSchema × Bool) := do
  let table ← Fallible.okOr (.tableNotFound schema.name tableName) (schema.tables.getById tableId)
  let (newTable, changed) ← update table
  if changed then do
    let tables ← schema.tables.update newTable.tableId newTable
    pure ({ schema with tables := tables }, true)
  else pure (schema, false)

/-- A failed update is only warned about. -/
def softDeleteTable (tableId : Nat) (deletionTime : Int) (hardDeleteTime : Option Int) :
    Result DatabaseSchema :=
  match schema.tables.getById tableId with
  | none => pure schema
  | some table =>
    match schema.tables.update tableId (table.softDelete deletionTime hardDeleteTime) with
    | .ok tables => pure { schema with tables := tables }
    | .error (.error _) => pure schema
    | .error (.panic message) => throw (.panic message)

def disableTriggerById (id : Nat) : Result DatabaseSchema :=
  match schema.processingEngineTriggers.getById id with
  | none => pure schema
  | some trigger => do
      let triggers ← Fallible.unwrap "trigger should exist"
        (schema.processingEngineTriggers.update id { trigger with disabled := true })
      pure { schema with processingEngineTriggers := triggers }

/-- Deleting a database deletes its tables and disables its triggers. -/
def softDelete (log : SoftDeleteDatabaseLog) : Result DatabaseSchema := do
  let marked : DatabaseSchema :=
    { schema with
      name := if schema.deleted then schema.name
        else makeNewNameUsingDeletedTime log.databaseName log.deletionTime
      deleted := true
      hardDeleteTime := log.hardDeletionTime }
  let tableIds := (marked.tables.repo.entries.filter fun entry => !entry.2.deleted).map Prod.fst
  let cascaded ← tableIds.foldlM
    (fun schema id => schema.softDeleteTable id log.deletionTime log.hardDeletionTime) marked
  let triggerIds := (cascaded.processingEngineTriggers.repo.entries.filter fun entry =>
    !entry.2.disabled).map Prod.fst
  triggerIds.foldlM disableTriggerById cascaded

def setTriggerDisabled (identifier : TriggerIdentifier) (disabled : Bool) :
    Result (DatabaseSchema × Bool) := do
  let trigger ← Fallible.okOr
    (.processingEngineTriggerNotFound identifier.dbName identifier.triggerName)
    (schema.processingEngineTriggers.getByName identifier.triggerName)
  if trigger.disabled = disabled then pure (schema, false)
  else do
    let current ← Fallible.expect "already checked containment"
      (schema.processingEngineTriggers.getById trigger.triggerId)
    let triggers ← Fallible.unwrap "existing trigger should update"
      (schema.processingEngineTriggers.update trigger.triggerId
        { current with disabled := disabled })
    pure ({ schema with processingEngineTriggers := triggers }, true)

def createTrigger (definition : TriggerDefinition) : Result (DatabaseSchema × Bool) :=
  match schema.processingEngineTriggers.getByName definition.triggerName with
  | some current => do
      Fallible.ensure (current = definition)
        (.error (.processingEngineTriggerExists schema.name definition.triggerName))
      pure (schema, false)
  | none => do
      let triggers ← Fallible.unwrap "new trigger should insert"
        (schema.processingEngineTriggers.insert definition.triggerId definition)
      pure ({ schema with processingEngineTriggers := triggers }, true)

/-- Deleting a trigger that is not there changes nothing. -/
def deleteTrigger (log : DeleteTriggerLog) : Result (DatabaseSchema × Bool) :=
  match schema.processingEngineTriggers.getByName log.triggerName with
  | none => pure (schema, false)
  | some trigger => do
      Fallible.ensure (trigger.disabled || log.force)
        (.error (.processingEngineTriggerRunning log.triggerName))
      pure ({ schema with
        processingEngineTriggers :=
          schema.processingEngineTriggers.remove trigger.triggerId }, true)

/-- What an entry does to its database, and whether it changed it. -/
def updateSchema : DatabaseCatalogOp → Result (DatabaseSchema × Bool)
  | .createDatabase log => do
      Fallible.ensure (log.databaseId = schema.id && log.databaseName = schema.name)
        (.panic "Create database call received by a mismatched DatabaseSchema.")
      pure ({ schema with retentionPeriod := .ofOption log.retentionPeriod }, true)
  | .softDeleteDatabase log => do
      let deleted ← schema.softDelete log
      pure (deleted, true)
  | .createTable log =>
    if schema.tables.containsId log.tableId then pure (schema, false)
    else do
      let table := TableDefinition.newEmpty log.tableId log.tableName log.fieldFamilyMode
      let tables ← Fallible.unwrap "table inserted from the log should not already exist"
        (schema.tables.insert log.tableId table)
      pure ({ schema with tables := tables }, true)
  | .softDeleteTable log =>
    if schema.tables.containsId log.tableId then do
      let deleted ← schema.softDeleteTable log.tableId log.deletionTime log.hardDeletionTime
      pure (deleted, true)
    else pure (schema, false)
  | .addColumns log =>
    schema.updateTable log.tableId log.tableName fun table =>
      table.addFamiliesAndColumns log.fieldFamilyDefinitions log.columnDefinitions
  | .createDistinctCache definition =>
    schema.updateTable definition.tableId definition.tableName fun table => do
      let caches ← table.distinctCaches.insert definition.cacheId definition
      pure ({ table with distinctCaches := caches }, true)
  | .deleteDistinctCache log =>
    schema.updateTable log.tableId log.tableName fun table =>
      pure ({ table with distinctCaches := table.distinctCaches.remove log.cacheId }, true)
  | .createLastCache definition =>
    schema.updateTable definition.tableId definition.table fun table => do
      let caches ← table.lastCaches.insert definition.id definition
      pure ({ table with lastCaches := caches }, true)
  | .deleteLastCache log =>
    schema.updateTable log.tableId log.tableName fun table =>
      pure ({ table with lastCaches := table.lastCaches.remove log.id }, true)
  | .createTrigger definition => schema.createTrigger definition
  | .deleteTrigger log => schema.deleteTrigger log
  | .enableTrigger identifier => schema.setTriggerDisabled identifier false
  | .disableTrigger identifier => schema.setTriggerDisabled identifier true
  | .setRetentionPeriod log => pure ({ schema with retentionPeriod := log.retentionPeriod }, true)
  | .clearRetentionPeriod _ => pure ({ schema with retentionPeriod := .indefinite }, true)

/-- Applies the entries of a batch in order, and says whether one of them changed something. -/
def applyOps (ops : List DatabaseCatalogOp) : Result (DatabaseSchema × Bool) :=
  ops.foldlM (fun (state : DatabaseSchema × Bool) op => do
    let (updated, changed) ← state.1.updateSchema op
    pure (updated, state.2 || changed)) (schema, false)

section Removal

/-- The identifier of a database, and what the catalog says of its deletion. -/
def removal (schema : DatabaseSchema) : Nat × Bool × Option Int :=
  (schema.id, schema.deleted, schema.hardDeleteTime)

/-- Only deleting a database changes what is said of its deletion. -/
def removalOnceApplied (schema : DatabaseSchema) : DatabaseCatalogOp → Nat × Bool × Option Int
  | .softDeleteDatabase log => (schema.id, true, log.hardDeletionTime)
  | _ => schema.removal

variable {schema} {updated : DatabaseSchema} {changed : Bool}

variable {tableId : Nat}

theorem updateTable_removal {tableName : String}
    {update : TableDefinition → Result (TableDefinition × Bool)}
    (h : schema.updateTable tableId tableName update = .ok (updated, changed)) :
    updated.removal = schema.removal := by
  simp only [updateTable, bind_eq_ok, okOr_eq_ok] at h
  obtain ⟨_, _, ⟨_, wasChanged⟩, _, h⟩ := h
  cases wasChanged with
  | false =>
    obtain ⟨rfl, _⟩ := Prod.mk.inj (pure_eq_ok.mp h)
    rfl
  | true =>
    simp only [if_true, bind_eq_ok, pure_eq_ok, Prod.mk.injEq] at h
    obtain ⟨_, _, rfl, _⟩ := h
    rfl

theorem softDeleteTable_removal {deletionTime : Int} {hardDeleteTime : Option Int}
    (h : schema.softDeleteTable tableId deletionTime hardDeleteTime = .ok updated) :
    updated.removal = schema.removal := by
  unfold softDeleteTable at h
  split at h
  · exact pure_eq_ok.mp h ▸ rfl
  · split at h
    · exact pure_eq_ok.mp h ▸ rfl
    · exact pure_eq_ok.mp h ▸ rfl
    · exact (throw_eq_ok.mp h).elim

theorem disableTriggerById_eq {id : Nat} (h : schema.disableTriggerById id = .ok updated) :
    ∃ triggers, updated = { schema with processingEngineTriggers := triggers } := by
  unfold disableTriggerById at h
  split at h
  · exact ⟨_, (pure_eq_ok.mp h).symm⟩
  · simp only [bind_eq_ok, pure_eq_ok] at h
    obtain ⟨triggers, _, rfl⟩ := h
    exact ⟨triggers, rfl⟩

theorem softDelete_removal {log : SoftDeleteDatabaseLog} (h : schema.softDelete log = .ok updated) :
    updated.removal = (schema.id, true, log.hardDeletionTime) := by
  simp only [softDelete, bind_eq_ok] at h
  obtain ⟨cascaded, htables, htriggers⟩ := h
  have hcascaded : cascaded.removal = (schema.id, true, log.hardDeletionTime) :=
    foldlM_keeps (·.removal = (schema.id, true, log.hardDeletionTime))
      (fun _ _ _ _ hbefore hstep => (softDeleteTable_removal hstep).trans hbefore) rfl htables
  refine foldlM_keeps (·.removal = (schema.id, true, log.hardDeletionTime))
    (fun _ _ _ _ hbefore hstep => ?_) hcascaded htriggers
  obtain ⟨_, rfl⟩ := disableTriggerById_eq hstep
  exact hbefore

theorem setTriggerDisabled_eq {identifier : TriggerIdentifier} {disabled : Bool}
    (h : schema.setTriggerDisabled identifier disabled = .ok (updated, changed)) :
    ∃ triggers, updated = { schema with processingEngineTriggers := triggers } := by
  simp only [setTriggerDisabled, bind_eq_ok] at h
  obtain ⟨_, _, h⟩ := h
  split at h
  · exact ⟨_, (Prod.mk.inj (pure_eq_ok.mp h)).1.symm⟩
  · simp only [bind_eq_ok, pure_eq_ok, Prod.mk.injEq] at h
    obtain ⟨_, _, triggers, _, rfl, _⟩ := h
    exact ⟨triggers, rfl⟩

theorem createTrigger_eq {definition : TriggerDefinition}
    (h : schema.createTrigger definition = .ok (updated, changed)) :
    ∃ triggers, updated = { schema with processingEngineTriggers := triggers } := by
  unfold createTrigger at h
  split at h
  all_goals
    simp only [bind_eq_ok, pure_eq_ok, Prod.mk.injEq] at h
    obtain ⟨_, _, rfl, _⟩ := h
    exact ⟨_, rfl⟩

theorem deleteTrigger_eq {log : DeleteTriggerLog}
    (h : schema.deleteTrigger log = .ok (updated, changed)) :
    ∃ triggers, updated = { schema with processingEngineTriggers := triggers } := by
  unfold deleteTrigger at h
  split at h
  · exact ⟨_, (Prod.mk.inj (pure_eq_ok.mp h)).1.symm⟩
  · simp only [bind_eq_ok, pure_eq_ok, Prod.mk.injEq] at h
    obtain ⟨_, _, rfl, _⟩ := h
    exact ⟨_, rfl⟩

variable {op : DatabaseCatalogOp}

theorem updateSchema_removal (h : schema.updateSchema op = .ok (updated, changed)) :
    updated.removal = schema.removalOnceApplied op := by
  cases op with
  | createDatabase log =>
    simp only [updateSchema, bind_eq_ok, pure_eq_ok, Prod.mk.injEq] at h
    obtain ⟨_, _, rfl, _⟩ := h
    rfl
  | softDeleteDatabase log =>
    simp only [updateSchema, bind_eq_ok, pure_eq_ok, Prod.mk.injEq] at h
    obtain ⟨_, hdelete, rfl, _⟩ := h
    exact softDelete_removal hdelete
  | createTable log =>
    simp only [updateSchema] at h
    split at h
    · obtain ⟨rfl, _⟩ := Prod.mk.inj (pure_eq_ok.mp h)
      rfl
    · simp only [bind_eq_ok, pure_eq_ok, Prod.mk.injEq] at h
      obtain ⟨_, _, rfl, _⟩ := h
      rfl
  | softDeleteTable log =>
    simp only [updateSchema] at h
    split at h
    · simp only [bind_eq_ok, pure_eq_ok, Prod.mk.injEq] at h
      obtain ⟨_, hdelete, rfl, _⟩ := h
      exact softDeleteTable_removal hdelete
    · obtain ⟨rfl, _⟩ := Prod.mk.inj (pure_eq_ok.mp h)
      rfl
  | addColumns log => exact updateTable_removal h
  | createDistinctCache definition => exact updateTable_removal h
  | deleteDistinctCache log => exact updateTable_removal h
  | createLastCache definition => exact updateTable_removal h
  | deleteLastCache log => exact updateTable_removal h
  | createTrigger definition =>
    obtain ⟨_, rfl⟩ := createTrigger_eq h
    rfl
  | deleteTrigger log =>
    obtain ⟨_, rfl⟩ := deleteTrigger_eq h
    rfl
  | enableTrigger _ | disableTrigger _ =>
    obtain ⟨_, rfl⟩ := setTriggerDisabled_eq h
    rfl
  | setRetentionPeriod _ | clearRetentionPeriod _ =>
    obtain ⟨rfl, _⟩ := Prod.mk.inj (pure_eq_ok.mp h)
    rfl

theorem updateSchema_id
    (h : schema.updateSchema op = .ok (updated, changed)) : updated.id = schema.id := by
  have hid := congrArg Prod.fst (updateSchema_removal h)
  cases op <;> exact hid

theorem applyOps_id {ops : List DatabaseCatalogOp}
    (h : schema.applyOps ops = .ok (updated, changed)) : updated.id = schema.id := by
  refine foldlM_keeps (fun state : DatabaseSchema × Bool => state.1.id = schema.id) ?_ rfl h
  intro state next op _ hid hstep
  simp only [bind_eq_ok, pure_eq_ok] at hstep
  obtain ⟨⟨_, _⟩, hupdate, rfl⟩ := hstep
  exact (updateSchema_id hupdate).trans hid

end Removal

end DatabaseSchema

end RefluxDb.Catalog
