import RefluxDb.Catalog.Inner

/-! Checkpoints of the catalog: what a snapshot keeps of each part, the catalog made from one, and
how a server loads the catalog from the last checkpoint and the log files after it.

Nodes, columns, triggers, caches and retention periods are kept field by field, so that their
definitions stand for their snapshots. A table is made again by its constructor, from its columns,
the names of its field families and its series key. -/

namespace RefluxDb.Catalog

open RefluxDb.Library

section Repositories

/-- The resources of a repository in their order, and the next identifier. -/
structure RepositorySnapshot (σ : Type) where
  repo : List (Nat × σ)
  nextId : Nat
deriving DecidableEq

variable {ρ σ : Type}

def Repository.snapshot (keep : ρ → σ) (r : Repository ρ) : RepositorySnapshot σ where
  repo := r.repo.entries.map fun entry => (entry.1, keep entry.2)
  nextId := r.nextId

variable [CatalogResource ρ]

/-- Adds a resource of a snapshot to the repository that is made from it. -/
def Repository.restoreEntry (restore : σ → Result ρ) (r : Repository ρ) (entry : Nat × σ) :
    Result (Repository ρ) := do
  let resource ← restore entry.2
  Fallible.unwrap "catalog should contain no duplicates" (r.insert entry.1 resource)

def Repository.fromSnapshot (restore : σ → Result ρ) (snap : RepositorySnapshot σ) :
    Result (Repository ρ) := do
  let r ← snap.repo.foldlM (Repository.restoreEntry restore) {}
  pure { r with nextId := snap.nextId }

end Repositories

section Tables

/-- The columns in the order of their column identifiers. -/
structure ColumnSetSnapshot where
  repo : List ColumnDefinition
  nextId : Nat
deriving DecidableEq

def ColumnSet.snapshot (columns : ColumnSet) : ColumnSetSnapshot where
  repo := columns.definitions.insertionSort fun a b => a.ordId ≤ b.ordId
  nextId := columns.nextId

/-- A family without its fields. -/
def FieldFamilyDefinition.snapshot (family : FieldFamilyDefinition) : FieldFamilyDefinitionLog where
  id := family.id
  name := family.name

structure TableSnapshot where
  tableId : Nat
  tableName : String
  key : List Nat
  columns : ColumnSetSnapshot
  fieldFamilies : RepositorySnapshot FieldFamilyDefinitionLog
  lastCaches : RepositorySnapshot LastCacheDefinition
  distinctCaches : RepositorySnapshot DistinctCacheDefinition
  deleted : Bool
  hardDeleteTime : Option Int
  fieldFamilyMode : FieldFamilyMode
deriving DecidableEq

def TableDefinition.snapshot (table : TableDefinition) : TableSnapshot where
  tableId := table.tableId
  tableName := table.tableName
  key := table.seriesKey
  columns := table.columns.snapshot
  fieldFamilies := table.fieldFamilies.snapshot FieldFamilyDefinition.snapshot
  lastCaches := table.lastCaches.snapshot id
  distinctCaches := table.distinctCaches.snapshot id
  deleted := table.deleted
  hardDeleteTime := table.hardDeleteTime
  fieldFamilyMode := table.fieldFamilyMode

def TableDefinition.fromSnapshot (snap : TableSnapshot) : Result TableDefinition := do
  let table ← Fallible.unwrap "serialized table definition from catalog should be valid"
    (TableDefinition.new snap.tableId snap.tableName snap.columns.repo
      (snap.fieldFamilies.repo.map Prod.snd) snap.key snap.fieldFamilyMode)
  let lastCaches ← Repository.fromSnapshot pure snap.lastCaches
  let distinctCaches ← Repository.fromSnapshot pure snap.distinctCaches
  pure { table with
    lastCaches := lastCaches
    distinctCaches := distinctCaches
    deleted := snap.deleted
    hardDeleteTime := snap.hardDeleteTime }

end Tables

section Databases

structure DatabaseSnapshot where
  id : Nat
  name : String
  tables : RepositorySnapshot TableSnapshot
  retentionPeriod : Option RetentionPeriod
  processingEngineTriggers : RepositorySnapshot TriggerDefinition
  deleted : Bool
  hardDeleteTime : Option Int
deriving DecidableEq

def DatabaseSchema.snapshot (schema : DatabaseSchema) : DatabaseSnapshot where
  id := schema.id
  name := schema.name
  tables := schema.tables.snapshot TableDefinition.snapshot
  retentionPeriod := some schema.retentionPeriod
  processingEngineTriggers := schema.processingEngineTriggers.snapshot fun trigger => trigger
  deleted := schema.deleted
  hardDeleteTime := schema.hardDeleteTime

def DatabaseSchema.fromSnapshot (snap : DatabaseSnapshot) : Result DatabaseSchema := do
  let tables ← Repository.fromSnapshot TableDefinition.fromSnapshot snap.tables
  let triggers ← Repository.fromSnapshot pure snap.processingEngineTriggers
  pure
    { id := snap.id
      name := snap.name
      tables := tables
      retentionPeriod := snap.retentionPeriod.getD .indefinite
      processingEngineTriggers := triggers
      deleted := snap.deleted
      hardDeleteTime := snap.hardDeleteTime }

end Databases

section TokenSnapshots

/-- Every action, whatever the set. -/
def DatabaseActions.snapshot (_ : DatabaseActions) : BitVec 16 := BitVec.allOnes 16

def DatabaseActions.fromSnapshot (snap : BitVec 16) : DatabaseActions := ⟨snap⟩

/-- Every action, whatever the set. -/
def CrudActions.snapshot (_ : CrudActions) : BitVec 16 := BitVec.allOnes 16

def CrudActions.fromSnapshot (snap : BitVec 16) : CrudActions := ⟨snap⟩

inductive ActionsSnapshot where
  | database (actions : BitVec 16)
  | token (actions : BitVec 16)
  | wildcard
deriving DecidableEq

def Actions.snapshot : Actions → ActionsSnapshot
  | .database actions => .database actions.snapshot
  | .token actions => .token actions.snapshot
  | .wildcard => .wildcard

def Actions.fromSnapshot : ActionsSnapshot → Actions
  | .database actions => .database (.fromSnapshot actions)
  | .token actions => .token (.fromSnapshot actions)
  | .wildcard => .wildcard

structure PermissionSnapshot where
  resourceType : ResourceType
  resourceIdentifier : ResourceIdentifier
  actions : ActionsSnapshot
deriving DecidableEq

def Permission.snapshot (permission : Permission) : PermissionSnapshot where
  resourceType := permission.resourceType
  resourceIdentifier := permission.resourceIdentifier
  actions := permission.actions.snapshot

def Permission.fromSnapshot (snap : PermissionSnapshot) : Permission where
  resourceType := snap.resourceType
  resourceIdentifier := snap.resourceIdentifier
  actions := .fromSnapshot snap.actions

structure TokenInfoSnapshot where
  id : Nat
  name : String
  hash : List UInt8
  createdAt : Int
  description : Option String
  createdBy : Option Nat
  expiry : Int
  updatedBy : Option Nat
  updatedAt : Option Int
  permissions : List PermissionSnapshot
deriving DecidableEq

def TokenInfo.snapshot (token : TokenInfo) : TokenInfoSnapshot where
  id := token.id
  name := token.name
  hash := token.hash
  createdAt := token.createdAt
  description := token.description
  createdBy := token.createdBy
  expiry := token.expiryMillis
  updatedBy := token.updatedBy
  updatedAt := token.updatedAt
  permissions := token.permissions.map Permission.snapshot

def TokenInfo.fromSnapshot (snap : TokenInfoSnapshot) : TokenInfo where
  id := snap.id
  name := snap.name
  hash := snap.hash
  createdAt := snap.createdAt
  description := snap.description
  createdBy := snap.createdBy
  expiryMillis := snap.expiry
  updatedBy := snap.updatedBy
  updatedAt := snap.updatedAt
  permissions := snap.permissions.map Permission.fromSnapshot

end TokenSnapshots

section Catalogs

structure CatalogSnapshot where
  sequence : Nat
  generationConfig : List (Nat × Nat)
  nodes : RepositorySnapshot NodeDefinition
  databases : RepositorySnapshot DatabaseSnapshot
  tokens : RepositorySnapshot TokenInfoSnapshot
deriving DecidableEq

/-- A batch with the sequence number of its log file. -/
structure OrderedCatalogBatch where
  batch : CatalogBatch
  sequence : Nat
deriving DecidableEq

namespace InnerCatalog

def snapshot (inner : InnerCatalog) : CatalogSnapshot where
  sequence := inner.sequence
  generationConfig := inner.generationConfig.entries
  nodes := inner.nodes.snapshot id
  databases := inner.databases.snapshot DatabaseSchema.snapshot
  tokens := inner.tokens.repo.snapshot TokenInfo.snapshot

/-- The map from identifiers to hashes is made again from the tokens. -/
def fromSnapshot (snap : CatalogSnapshot) : Result InnerCatalog := do
  let tokens ← Repository.fromSnapshot
    (fun token => pure (TokenInfo.fromSnapshot token)) snap.tokens
  let nodes ← Repository.fromSnapshot pure snap.nodes
  let databases ← Repository.fromSnapshot DatabaseSchema.fromSnapshot snap.databases
  pure
    { sequence := snap.sequence
      generationConfig := snap.generationConfig.foldl (fun config entry =>
        IndexMap.insert config entry.1 entry.2) {}
      nodes := nodes
      databases := databases
      tokens :=
        { repo := tokens
          hashLookupMap := tokens.repo.entries.foldl (fun hashes entry =>
            hashes.insert entry.1 entry.2.hash) {} } }

/-- Applies a log file while the catalog is loaded. A batch that changes nothing is passed over. -/
def applyLogFile (inner : InnerCatalog) (file : OrderedCatalogBatch) : Result InnerCatalog := do
  let applied ← inner.applyCatalogBatch file.batch file.sequence
  pure (applied.getD inner)

/-- The catalog of a checkpoint and of the log files after it, which are listed in their order. -/
def loadCatalog (checkpoint : CatalogSnapshot) (files : List OrderedCatalogBatch) :
    Result InnerCatalog := do
  let inner ← fromSnapshot checkpoint
  (files.filter fun file => inner.sequence < file.sequence).foldlM applyLogFile inner

end InnerCatalog

end Catalogs

end RefluxDb.Catalog
