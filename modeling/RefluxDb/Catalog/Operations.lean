import RefluxDb.Catalog.Transaction

/-! The operations on the catalog, each as the batch it composes from the catalog's state.

An operation reads the catalog and composes one batch, or fails. Identifiers for nodes, databases
and tokens are taken from the catalog itself, so that they are used up even if the batch is never
persisted; those for caches and triggers are taken from a copy of the table or database. Random
values, an instance's identifier and a token's hash, are arguments. -/

namespace RefluxDb.Catalog

open RefluxDb.Library

/-- When a deleted object is to be removed for good. -/
inductive HardDeletionTime where
  | never
  | default
  | timestamp (time : Int)
  | now
deriving DecidableEq

/-- What operations read besides the catalog: the clock, in nanoseconds, and the settings. -/
structure OperationContext where
  timeNs : Int
  limits : CatalogLimits
  defaultHardDeleteDuration : Nat
deriving DecidableEq

def OperationContext.timestampMillis (context : OperationContext) : Int := context.timeNs / 1000000

namespace HardDeletionTime

variable (context : OperationContext)

def asTime : HardDeletionTime → Option Int
  | never => none
  | default => some (context.timeNs + context.defaultHardDeleteDuration)
  | timestamp time => some time
  | now => some context.timeNs

/-- A request for the default time keeps a time that is set already. -/
def resolve (requested : HardDeletionTime) (existing : Option Int) : Option Int :=
  if requested = .default ∧ existing.isSome then existing else requested.asTime context

end HardDeletionTime

def defaultOperatorTokenName : String := "_admin"

def nanosPerSecond : Nat := 1000000000

/-- The time, in milliseconds, at which a token of this many seconds expires. -/
def OperationContext.expiry (context : OperationContext) (seconds : Nat) : Int :=
  (context.timeNs + (seconds * nanosPerSecond : Nat)) / 1000000

def isValidDistinctCacheType (column : ColumnDefinition) : Bool :=
  match column.columnType with
  | .tag | .field .string => true
  | _ => false

def isValidLastCacheKeyCol (column : ColumnDefinition) : Bool :=
  match column.columnType with
  | .tag | .field .string | .field .integer | .field .uInteger | .field .boolean => true
  | _ => false

/-- The column of a name that the caller gave. -/
def TableDefinition.providedColumn (table : TableDefinition) (what name : String) :
    Result ColumnDefinition :=
  Fallible.okOr (.invalidConfiguration (what ++ " provided: " ++ name))
    (table.columnDefinition name)

inductive Operation where
  | setGenerationDuration (level duration : Nat)
  | registerNode (nodeId : String) (coreCount : Nat) (mode : List NodeMode) (processUuid : Nat)
      (cliParams : Option String) (instanceId : String)
  | updateNodeStateStopped (nodeId : String) (processUuid : Nat)
  | createDatabase (name : String) (retentionPeriod : Option Nat)
  | softDeleteDatabase (dbName : String) (hardDeleteTime : HardDeletionTime)
  | createTable (dbName tableName : String) (columns : CreateTableColumns)
      (fieldFamilyMode : FieldFamilyMode)
  | softDeleteTable (dbName tableName : String) (hardDeleteTime : HardDeletionTime)
  | hardDeleteTable (dbId tableId : Nat)
  | hardDeleteDatabase (dbId : Nat)
  | createDistinctCache (dbName tableName : String) (cacheName : Option String)
      (columns : List String) (maxCardinality maxAgeSeconds : Nat)
  | deleteDistinctCache (dbName tableName cacheName : String)
  | createLastCache (dbName tableName : String) (cacheName : Option String)
      (keyColumns valueColumns : Option (List String)) (count : LastCacheSize) (ttlSeconds : Nat)
  | deleteLastCache (dbName tableName cacheName : String)
  | createProcessingEngineTrigger (dbName triggerName nodeId pluginFilename : String)
      (trigger : TriggerSpecificationDefinition) (triggerSettings : TriggerSettings)
      (triggerArguments : Option (List (String × String))) (disabled : Bool)
  | deleteProcessingEngineTrigger (dbName triggerName : String) (force : Bool)
  | enableProcessingEngineTrigger (dbName triggerName : String)
  | disableProcessingEngineTrigger (dbName triggerName : String)
  | setRetentionPeriodForDatabase (dbName : String) (duration : Nat)
  | clearRetentionPeriodForDatabase (dbName : String)
  | createAdminToken (hash : List UInt8)
  | regenerateAdminToken (hash : List UInt8)
  | createNamedAdminToken (tokenName : String) (hash : List UInt8) (expirySecs : Option Nat)
  | createNamedAdminTokenWithHash (tokenName : String) (hash : List UInt8)
      (expiryMillis : Option Int)
  | createScopedToken (tokenName : String) (hash : List UInt8) (permissions : List Permission)
      (expirySecs : Option Nat)
  | deleteToken (tokenName : String)
deriving DecidableEq

namespace InnerCatalog

variable (inner : InnerCatalog) (context : OperationContext)

def nextNodeId : Result (Nat × InnerCatalog) := do
  let (id, nodes) ← inner.nodes.getAndIncrementNextId
  pure (id, { inner with nodes := nodes })

def nextDatabaseId : Result (Nat × InnerCatalog) := do
  let (id, databases) ← inner.databases.getAndIncrementNextId
  pure (id, { inner with databases := databases })

def nextTokenId : Result (Nat × InnerCatalog) := do
  let (id, repo) ← inner.tokens.repo.getAndIncrementNextId
  pure (id, { inner with tokens := { inner.tokens with repo := repo } })

section Nodes

def setGenerationDuration (level duration : Nat) : Result CatalogBatch :=
  match inner.generationConfig.get level with
  | some existing =>
    if duration = existing then throw (.error .alreadyExists)
    else throw (.error (.cannotChangeGenerationDuration level existing duration))
  | none => pure (.generation context.timeNs [{ level := level, duration := duration }])

def registerNode (nodeId : String) (coreCount : Nat) (mode : List NodeMode) (processUuid : Nat)
    (cliParams : Option String) (newInstanceId : String) :
    Result (InnerCatalog × CatalogBatch) := do
  let (nodeCatalogId, instanceId, updated) ←
    match inner.nodes.getByName nodeId with
    | some node => pure (node.nodeCatalogId, node.instanceId, inner)
    | none => do
        let (id, updated) ← inner.nextNodeId
        pure (id, newInstanceId, updated)
  pure (updated, .node
    { timeNs := context.timeNs
      nodeCatalogId := nodeCatalogId
      nodeId := nodeId
      ops := [.registerNode
        { nodeId := nodeId
          instanceId := instanceId
          registeredTimeNs := context.timeNs
          coreCount := coreCount
          mode := mode
          processUuid := processUuid
          cliParams := cliParams }] })

def updateNodeStateStopped (nodeId : String) (processUuid : Nat) : Result CatalogBatch := do
  let node ← Fallible.okOr (.notFound nodeId) (inner.nodes.getByName nodeId)
  match node.state with
  | .stopped _ => throw (.error (.nodeAlreadyStopped node.nodeId))
  | .running _ =>
    pure (.node
      { timeNs := context.timeNs
        nodeCatalogId := node.nodeCatalogId
        nodeId := node.nodeId
        ops := [.stopNode
          { nodeId := node.nodeId
            stoppedTimeNs := context.timeNs
            processUuid := processUuid }] })

end Nodes

section Databases

def databaseEntry (db : DatabaseSchema) (op : DatabaseCatalogOp) : CatalogBatch :=
  .database
    { timeNs := context.timeNs, databaseId := db.id, databaseName := db.name, ops := [op] }

def findDatabase (dbName : String) : Result DatabaseSchema :=
  Fallible.okOr (.notFound dbName) (inner.databases.getByName dbName)

def findDatabaseById (dbId : Nat) : Result DatabaseSchema :=
  Fallible.okOr (.notFound ("database id: " ++ toString dbId)) (inner.databases.getById dbId)

/-- A database that is not deleted. -/
def activeDb (dbName : String) : Result DatabaseSchema := do
  let db ← inner.findDatabase dbName
  Fallible.ensure (!(db.deleted || db.hardDeleteTime.isSome)) (.error (.alreadyDeleted dbName))
  pure db

def createDatabase (name : String) (retentionPeriod : Option Nat) :
    Result (InnerCatalog × CatalogBatch) :=
  match inner.databases.getByName name with
  | some _ => throw (.error .alreadyExists)
  | none => do
      Fallible.ensure (inner.databaseCount < context.limits.numDbs)
        (.error (.tooManyDbs context.limits.numDbs))
      let (id, updated) ← inner.nextDatabaseId
      pure (updated, databaseEntry context (.new id name) (.createDatabase
        { databaseId := id, databaseName := name, retentionPeriod := retentionPeriod }))

def softDeleteDatabase (dbName : String) (hardDeleteTime : HardDeletionTime) :
    Result CatalogBatch := do
  Fallible.ensure (dbName ≠ internalDbName) (.error .cannotDeleteInternalDatabase)
  let db ← inner.findDatabase dbName
  let resolved := hardDeleteTime.resolve context db.hardDeleteTime
  Fallible.ensure (!(db.deleted && db.hardDeleteTime = resolved)) (.error (.alreadyDeleted dbName))
  pure (databaseEntry context db (.softDeleteDatabase
    { databaseId := db.id
      databaseName := db.name
      deletionTime := context.timeNs
      hardDeletionTime := resolved }))

def hardDeleteDatabase (dbId : Nat) : Result CatalogBatch := do
  let db ← inner.findDatabaseById dbId
  Fallible.ensure (db.name ≠ internalDbName) (.error .cannotDeleteInternalDatabase)
  pure (.delete context.timeNs [.deleteDatabase dbId])

def setRetentionPeriodForDatabase (dbName : String) (duration : Nat) : Result CatalogBatch := do
  let db ← inner.activeDb dbName
  pure (databaseEntry context db (.setRetentionPeriod
    { databaseName := db.name
      databaseId := db.id
      retentionPeriod := .duration duration }))

def clearRetentionPeriodForDatabase (dbName : String) : Result CatalogBatch := do
  let db ← inner.activeDb dbName
  pure (databaseEntry context db (.clearRetentionPeriod
    { databaseName := db.name, databaseId := db.id }))

end Databases

section Tables

def findTable (db : DatabaseSchema) (tableName : String) : Result TableDefinition :=
  Fallible.okOr (.notFound tableName) (db.tableDefinition tableName)

def createTable (dbName tableName : String) (columns : CreateTableColumns)
    (fieldFamilyMode : FieldFamilyMode) : Result (InnerCatalog × CatalogBatch) := do
  let (updated, txn) ← inner.begin context.limits dbName context.timeNs
  let (_, created) ← txn.createTable tableName (some columns) fieldFamilyMode
  pure (updated, .database created.databaseBatch)

def softDeleteTable (dbName tableName : String) (hardDeleteTime : HardDeletionTime) :
    Result CatalogBatch := do
  let db ← inner.activeDb dbName
  let table ← findTable db tableName
  let resolved := hardDeleteTime.resolve context table.hardDeleteTime
  Fallible.ensure (!(table.deleted && table.hardDeleteTime = resolved))
    (.error (.alreadyDeleted tableName))
  pure (databaseEntry context db (.softDeleteTable
    { databaseId := db.id
      databaseName := db.name
      tableId := table.tableId
      tableName := table.tableName
      deletionTime := context.timeNs
      hardDeletionTime := resolved }))

/-- The error for a table that is not there speaks of a database. -/
def hardDeleteTable (dbId tableId : Nat) : Result CatalogBatch := do
  let db ← inner.findDatabaseById dbId
  let _ ← Fallible.okOr (.notFound ("database id: " ++ toString tableId))
    (db.tables.getById tableId)
  pure (.delete context.timeNs [.deleteTable dbId tableId])

end Tables

section Caches

def createDistinctCache (dbName tableName : String) (cacheName : Option String)
    (columns : List String) (maxCardinality maxAgeSeconds : Nat) : Result CatalogBatch := do
  let db ← inner.findDatabase dbName
  let table ← findTable db tableName
  Fallible.ensure (!columns.isEmpty)
    (.error (.invalidConfiguration "no columns provided when creating distinct cache"))
  let columnIds ← columns.mapM fun name => do
    let column ← table.providedColumn "invalid column" name
    Fallible.ensure (isValidDistinctCacheType column) (.error .invalidDistinctCacheColumnType)
    pure column.id
  let name := cacheName.getD
    (tableName ++ "_" ++ String.intercalate "_" columns ++ "_distinct_cache")
  Fallible.ensure (!table.distinctCaches.containsName name) (.error .alreadyExists)
  let (cacheId, _) ← table.distinctCaches.getAndIncrementNextId
  pure (databaseEntry context db (.createDistinctCache
    { tableId := table.tableId
      tableName := table.tableName
      cacheId := cacheId
      cacheName := name
      columnIds := columnIds
      maxCardinality := maxCardinality
      maxAgeSeconds := maxAgeSeconds }))

def deleteDistinctCache (dbName tableName cacheName : String) : Result CatalogBatch := do
  let db ← inner.findDatabase dbName
  let table ← findTable db tableName
  let cache ← Fallible.okOr (.notFound cacheName) (table.distinctCaches.getByName cacheName)
  pure (databaseEntry context db (.deleteDistinctCache
    { tableId := table.tableId
      tableName := table.tableName
      cacheId := cache.cacheId
      cacheName := cache.cacheName }))

/-- The key columns of a last cache: those the caller names, or the series key. -/
def lastCacheKey (table : TableDefinition) : Option (List String) → Result (List ColumnDefinition)
  | some names => names.mapM fun name => do
      let column ← table.providedColumn "invalid key column" name
      Fallible.ensure (isValidLastCacheKeyCol column) (.error .invalidLastCacheKeyColumnType)
      pure column
  | none => table.seriesKey.mapM fun id =>
    Fallible.expect "column id in series key should be valid" (table.columns.getById (.tag id))

def lastCacheValues (table : TableDefinition) :
    Option (List String) → Result LastCacheValueColumnsDef
  | some names => do
      let columns ← names.mapM (table.providedColumn "invalid value column")
      pure (.explicit (columns.map ColumnDefinition.id))
  | none => pure .allNonKeyColumns

def createLastCache (dbName tableName : String) (cacheName : Option String)
    (keyColumns valueColumns : Option (List String)) (count : LastCacheSize) (ttlSeconds : Nat) :
    Result CatalogBatch := do
  let db ← inner.findDatabase dbName
  let table ← findTable db tableName
  let keys ← lastCacheKey table keyColumns
  let values ← lastCacheValues table valueColumns
  let name := cacheName.getD
    (tableName ++ "_" ++ String.intercalate "_" (keys.map ColumnDefinition.name) ++ "_last_cache")
  Fallible.ensure (!table.lastCaches.containsName name) (.error .alreadyExists)
  let (cacheId, _) ← table.lastCaches.getAndIncrementNextId
  pure (databaseEntry context db (.createLastCache
    { tableId := table.tableId
      table := table.tableName
      id := cacheId
      name := name
      keyColumns := keys.map ColumnDefinition.id
      valueColumns := values
      count := count
      ttlSeconds := ttlSeconds }))

def deleteLastCache (dbName tableName cacheName : String) : Result CatalogBatch := do
  let db ← inner.findDatabase dbName
  let table ← findTable db tableName
  let cache ← Fallible.okOr (.notFound cacheName) (table.lastCaches.getByName cacheName)
  pure (databaseEntry context db (.deleteLastCache
    { tableId := table.tableId
      tableName := table.tableName
      id := cache.id
      name := cache.name }))

end Caches

section Triggers

def findTrigger (db : DatabaseSchema) (triggerName : String) : Result TriggerDefinition :=
  Fallible.okOr (.notFound triggerName) (db.processingEngineTriggers.getByName triggerName)

def createProcessingEngineTrigger (dbName triggerName nodeId pluginFilename : String)
    (trigger : TriggerSpecificationDefinition) (triggerSettings : TriggerSettings)
    (triggerArguments : Option (List (String × String))) (disabled : Bool) :
    Result CatalogBatch := do
  let db ← inner.findDatabase dbName
  Fallible.ensure (!db.processingEngineTriggers.containsName triggerName) (.error .alreadyExists)
  let (triggerId, _) ← db.processingEngineTriggers.getAndIncrementNextId
  pure (databaseEntry context db (.createTrigger
    { triggerId := triggerId
      triggerName := triggerName
      pluginFilename := pluginFilename
      databaseName := db.name
      nodeId := nodeId
      trigger := trigger
      triggerSettings := triggerSettings
      triggerArguments := triggerArguments
      disabled := disabled }))

def deleteProcessingEngineTrigger (dbName triggerName : String) (force : Bool) :
    Result CatalogBatch := do
  let db ← inner.findDatabase dbName
  let trigger ← findTrigger db triggerName
  Fallible.ensure (trigger.disabled || force)
    (.error (.processingEngineTriggerRunning trigger.triggerName))
  pure (databaseEntry context db (.deleteTrigger
    { triggerId := trigger.triggerId
      triggerName := trigger.triggerName
      force := force }))

def enableProcessingEngineTrigger (dbName triggerName : String) : Result CatalogBatch := do
  let db ← inner.findDatabase dbName
  let trigger ← findTrigger db triggerName
  Fallible.ensure trigger.disabled (.error .triggerAlreadyEnabled)
  pure (databaseEntry context db (.enableTrigger
    { dbId := db.id
      dbName := db.name
      triggerId := trigger.triggerId
      triggerName := trigger.triggerName }))

def disableProcessingEngineTrigger (dbName triggerName : String) : Result CatalogBatch := do
  let db ← inner.findDatabase dbName
  let trigger ← findTrigger db triggerName
  Fallible.ensure (!trigger.disabled) (.error .triggerAlreadyDisabled)
  pure (databaseEntry context db (.disableTrigger
    { dbId := db.id
      dbName := db.name
      triggerId := trigger.triggerId
      triggerName := trigger.triggerName }))

end Triggers

section TokenOperations

/-- Makes a token of a name that is not in use. The batch's time is in milliseconds. -/
def createToken (name : String) (op : Nat → TokenCatalogOp) :
    Result (InnerCatalog × CatalogBatch) := do
  Fallible.ensure (!inner.tokens.repo.containsName name) (.error (.tokenNameAlreadyExists name))
  let (id, updated) ← inner.nextTokenId
  pure (updated, .token context.timestampMillis [op id])

def adminTokenEntry (name : String) (hash : List UInt8) (expiry : Option Int) (id : Nat) :
    TokenCatalogOp :=
  .createAdminToken
    { tokenId := id
      name := name
      hash := hash
      createdAt := context.timestampMillis
      expiry := expiry }

def createAdminToken (hash : List UInt8) : Result (InnerCatalog × CatalogBatch) :=
  inner.createToken context defaultOperatorTokenName
    (adminTokenEntry context defaultOperatorTokenName hash none)

def regenerateAdminToken (hash : List UInt8) : Result CatalogBatch := do
  let token ← Fallible.okOr .missingAdminTokenToUpdate
    (inner.tokens.repo.getByName defaultOperatorTokenName)
  pure (.token context.timeNs [.regenerateAdminToken
    { tokenId := token.id, hash := hash, updatedAt := context.timestampMillis }])

def createNamedAdminToken (tokenName : String) (hash : List UInt8) (expirySecs : Option Nat) :
    Result (InnerCatalog × CatalogBatch) :=
  inner.createToken context tokenName
    (adminTokenEntry context tokenName hash (expirySecs.map context.expiry))

def createNamedAdminTokenWithHash (tokenName : String) (hash : List UInt8)
    (expiryMillis : Option Int) : Result (InnerCatalog × CatalogBatch) :=
  inner.createToken context tokenName (adminTokenEntry context tokenName hash expiryMillis)

def createScopedToken (tokenName : String) (hash : List UInt8) (permissions : List Permission)
    (expirySecs : Option Nat) : Result (InnerCatalog × CatalogBatch) :=
  inner.createToken context tokenName fun id => .createScopedToken
    { tokenId := id
      name := tokenName
      hash := hash
      createdAt := context.timestampMillis
      expiry := expirySecs.map context.expiry
      permissions := permissions }

def deleteToken (tokenName : String) : Result CatalogBatch := do
  Fallible.ensure (tokenName ≠ defaultOperatorTokenName) (.error .cannotDeleteOperatorToken)
  Fallible.ensure (inner.tokens.repo.containsName tokenName) (.error (.notFound tokenName))
  pure (.token context.timeNs [.deleteToken tokenName])

end TokenOperations

/-- The batch of an operation that hands out no identifier of the catalog. -/
def reading (batch : Result CatalogBatch) : Result (InnerCatalog × CatalogBatch) :=
  Prod.mk inner <$> batch

/-- The catalog with the identifiers handed out, and the batch. -/
def compose : Operation → Result (InnerCatalog × CatalogBatch)
  | .setGenerationDuration level duration =>
    inner.reading (inner.setGenerationDuration context level duration)
  | .registerNode nodeId coreCount mode processUuid cliParams instanceId =>
    inner.registerNode context nodeId coreCount mode processUuid cliParams instanceId
  | .updateNodeStateStopped nodeId processUuid =>
    inner.reading (inner.updateNodeStateStopped context nodeId processUuid)
  | .createDatabase name retentionPeriod => inner.createDatabase context name retentionPeriod
  | .softDeleteDatabase dbName hardDeleteTime =>
    inner.reading (inner.softDeleteDatabase context dbName hardDeleteTime)
  | .createTable dbName tableName columns fieldFamilyMode =>
    inner.createTable context dbName tableName columns fieldFamilyMode
  | .softDeleteTable dbName tableName hardDeleteTime =>
    inner.reading (inner.softDeleteTable context dbName tableName hardDeleteTime)
  | .hardDeleteTable dbId tableId => inner.reading (inner.hardDeleteTable context dbId tableId)
  | .hardDeleteDatabase dbId => inner.reading (inner.hardDeleteDatabase context dbId)
  | .createDistinctCache dbName tableName cacheName columns maxCardinality maxAgeSeconds =>
    inner.reading (inner.createDistinctCache context dbName tableName cacheName columns
      maxCardinality maxAgeSeconds)
  | .deleteDistinctCache dbName tableName cacheName =>
    inner.reading (inner.deleteDistinctCache context dbName tableName cacheName)
  | .createLastCache dbName tableName cacheName keyColumns valueColumns count ttlSeconds =>
    inner.reading (inner.createLastCache context dbName tableName cacheName keyColumns
      valueColumns count ttlSeconds)
  | .deleteLastCache dbName tableName cacheName =>
    inner.reading (inner.deleteLastCache context dbName tableName cacheName)
  | .createProcessingEngineTrigger dbName triggerName nodeId pluginFilename trigger
      triggerSettings triggerArguments disabled =>
      inner.reading (inner.createProcessingEngineTrigger context dbName triggerName nodeId
        pluginFilename trigger triggerSettings triggerArguments disabled)
  | .deleteProcessingEngineTrigger dbName triggerName force =>
    inner.reading (inner.deleteProcessingEngineTrigger context dbName triggerName force)
  | .enableProcessingEngineTrigger dbName triggerName =>
    inner.reading (inner.enableProcessingEngineTrigger context dbName triggerName)
  | .disableProcessingEngineTrigger dbName triggerName =>
    inner.reading (inner.disableProcessingEngineTrigger context dbName triggerName)
  | .setRetentionPeriodForDatabase dbName duration =>
    inner.reading (inner.setRetentionPeriodForDatabase context dbName duration)
  | .clearRetentionPeriodForDatabase dbName =>
    inner.reading (inner.clearRetentionPeriodForDatabase context dbName)
  | .createAdminToken hash => inner.createAdminToken context hash
  | .regenerateAdminToken hash => inner.reading (inner.regenerateAdminToken context hash)
  | .createNamedAdminToken tokenName hash expirySecs =>
    inner.createNamedAdminToken context tokenName hash expirySecs
  | .createNamedAdminTokenWithHash tokenName hash expiryMillis =>
    inner.createNamedAdminTokenWithHash context tokenName hash expiryMillis
  | .createScopedToken tokenName hash permissions expirySecs =>
    inner.createScopedToken context tokenName hash permissions expirySecs
  | .deleteToken tokenName => inner.reading (inner.deleteToken context tokenName)

/-- The transaction of a write to a database, and its batch if it added something. -/
def composeWrite (dbName : String) (calls : List DatabaseCatalogTransaction.Call) :
    Result (InnerCatalog × Option CatalogBatch) := do
  let (updated, txn) ← inner.begin context.limits dbName context.timeNs
  let filled := calls.foldl DatabaseCatalogTransaction.call txn
  pure (updated, if filled.isEmpty then none else some (.database filled.databaseBatch))

end InnerCatalog

end RefluxDb.Catalog
