import RefluxDb.Catalog.Schema
import RefluxDb.Catalog.Tokens

/-! The catalog's state and the application of batches to it. -/

namespace RefluxDb.Catalog

open RefluxDb.Library

inductive NodeMode where
  | core
deriving DecidableEq

inductive NodeState where
  | running (registeredTimeNs : Int)
  | stopped (stoppedTimeNs : Int)
deriving DecidableEq

structure NodeDefinition where
  nodeId : String
  nodeCatalogId : Nat
  instanceId : String
  mode : List NodeMode
  coreCount : Nat
  state : NodeState
  cliParams : Option String
deriving DecidableEq

instance : CatalogResource NodeDefinition where
  id := NodeDefinition.nodeCatalogId
  name := NodeDefinition.nodeId
  maxId := 2 ^ 32 - 1

structure RegisterNodeLog where
  nodeId : String
  instanceId : String
  registeredTimeNs : Int
  coreCount : Nat
  mode : List NodeMode
  processUuid : Nat
  cliParams : Option String
deriving DecidableEq

structure StopNodeLog where
  nodeId : String
  stoppedTimeNs : Int
  processUuid : Nat
deriving DecidableEq

inductive NodeCatalogOp where
  | registerNode (log : RegisterNodeLog)
  | stopNode (log : StopNodeLog)
deriving DecidableEq

structure CreateAdminTokenDetails where
  tokenId : Nat
  name : String
  hash : List UInt8
  createdAt : Int
  expiry : Option Int
deriving DecidableEq

structure CreateScopedTokenDetails where
  tokenId : Nat
  name : String
  hash : List UInt8
  createdAt : Int
  expiry : Option Int
  permissions : List Permission
deriving DecidableEq

structure RegenerateAdminTokenDetails where
  tokenId : Nat
  hash : List UInt8
  updatedAt : Int
deriving DecidableEq

inductive TokenCatalogOp where
  | createAdminToken (details : CreateAdminTokenDetails)
  | createScopedToken (details : CreateScopedTokenDetails)
  | regenerateAdminToken (details : RegenerateAdminTokenDetails)
  | deleteToken (tokenName : String)
deriving DecidableEq

inductive DeleteOp where
  | deleteDatabase (dbId : Nat)
  | deleteTable (dbId tableId : Nat)
deriving DecidableEq

structure SetGenerationDurationLog where
  level : Nat
  duration : Nat
deriving DecidableEq

structure NodeBatch where
  timeNs : Int
  nodeCatalogId : Nat
  nodeId : String
  ops : List NodeCatalogOp
deriving DecidableEq

structure DatabaseBatch where
  timeNs : Int
  databaseId : Nat
  databaseName : String
  ops : List DatabaseCatalogOp
deriving DecidableEq

inductive CatalogBatch where
  | node (batch : NodeBatch)
  | database (batch : DatabaseBatch)
  | token (timeNs : Int) (ops : List TokenCatalogOp)
  | delete (timeNs : Int) (ops : List DeleteOp)
  | generation (timeNs : Int) (ops : List SetGenerationDurationLog)
deriving DecidableEq

/-- The duration of each generation level that has one. -/
abbrev GenerationConfig := IndexMap Nat Nat

structure InnerCatalog where
  sequence : Nat := 0
  generationConfig : GenerationConfig := IndexMap.empty
  nodes : Repository NodeDefinition := {}
  databases : Repository DatabaseSchema := {}
  tokens : TokenRepository := {}
deriving DecidableEq

/-- A duration cannot be changed once it is set. -/
def GenerationConfig.setDuration (config : GenerationConfig) (level duration : Nat) :
    Result (GenerationConfig × Bool) :=
  match config.get level with
  | some existing => do
      Fallible.ensure (existing = duration)
        (.error (.cannotChangeGenerationDuration level existing duration))
      pure (config, false)
  | none => pure (config.insert level duration, true)

namespace InnerCatalog

variable (inner : InnerCatalog)

def databaseCount : Nat :=
  (inner.databases.resources.filter fun db => !db.deleted && db.name != internalDbName).length

def tableCount : Nat :=
  ((inner.databases.resources.filter fun db => !db.deleted).map DatabaseSchema.tableCount).sum

def applyNodeOp (nodeCatalogId : Nat) : NodeCatalogOp → Result (InnerCatalog × Bool)
  | .registerNode log =>
    match inner.nodes.getByName log.nodeId with
    | some node => do
        Fallible.ensure (node.instanceId = log.instanceId) (.error .invalidNodeRegistration)
        let nodes ← Fallible.unwrap "existing node should update"
          (inner.nodes.update nodeCatalogId
            { node with
              mode := log.mode
              coreCount := log.coreCount
              state := .running log.registeredTimeNs
              cliParams := log.cliParams })
        pure ({ inner with nodes := nodes }, true)
    | none => do
        let nodes ← Fallible.unwrap "there should not already be a node"
          (inner.nodes.insert nodeCatalogId
            { nodeId := log.nodeId
              nodeCatalogId := nodeCatalogId
              instanceId := log.instanceId
              mode := log.mode
              coreCount := log.coreCount
              state := .running log.registeredTimeNs
              cliParams := log.cliParams })
        pure ({ inner with nodes := nodes }, true)
  | .stopNode log =>
    match inner.nodes.getById nodeCatalogId with
    | some node => do
        let nodes ← Fallible.unwrap "there should be a node to update"
          (inner.nodes.update nodeCatalogId { node with state := .stopped log.stoppedTimeNs })
        pure ({ inner with nodes := nodes }, true)
    | none => pure (inner, false)

def applyTokenOp : TokenCatalogOp → Result (InnerCatalog × Bool)
  | .createAdminToken details => do
      let token := TokenInfo.new details.tokenId details.name details.hash details.createdAt
        details.expiry
      let tokens ← inner.tokens.addToken details.tokenId
        { token with permissions := [adminPermission] }
      pure ({ inner with tokens := tokens }, true)
  | .createScopedToken details => do
      let token := TokenInfo.new details.tokenId details.name details.hash details.createdAt
        details.expiry
      let tokens ← inner.tokens.addToken details.tokenId
        { token with permissions := details.permissions }
      pure ({ inner with tokens := tokens }, true)
  | .regenerateAdminToken details => do
      let tokens ← inner.tokens.updateAdminTokenHash details.tokenId details.hash details.updatedAt
      pure ({ inner with tokens := tokens }, true)
  | .deleteToken tokenName => do
      let tokens ← inner.tokens.deleteToken tokenName
      pure ({ inner with tokens := tokens }, true)

/-- A batch for a database that is not there makes it. -/
def applyDatabaseBatch (batch : DatabaseBatch) : Result (InnerCatalog × Bool) :=
  match inner.databases.getById batch.databaseId with
  | some db => do
      let (updated, changed) ← db.applyOps batch.ops
      if changed then do
        let databases ← Fallible.unwrap "existing database should be updated"
          (inner.databases.update db.id updated)
        pure ({ inner with databases := databases }, true)
      else pure (inner, false)
  | none => do
      let (created, changed) ← (DatabaseSchema.new batch.databaseId batch.databaseName).applyOps
        batch.ops
      Fallible.ensure changed (.panic "database must be new")
      let databases ← Fallible.unwrap "new database should be inserted"
        (inner.databases.insert created.id created)
      pure ({ inner with databases := databases }, true)

def applyDeleteOp : DeleteOp → Result (InnerCatalog × Bool)
  | .deleteDatabase dbId =>
    if (inner.databases.getById dbId).isSome then
      pure ({ inner with databases := inner.databases.remove dbId }, true)
    else pure (inner, false)
  | .deleteTable dbId tableId =>
    match inner.databases.getById dbId with
    | none => pure (inner, false)
    | some db =>
      if (db.tables.getById tableId).isSome then do
        let databases ← inner.databases.update dbId
          { db with tables := db.tables.remove tableId }
        pure ({ inner with databases := databases }, true)
      else pure (inner, false)

def applyGenerationOp (log : SetGenerationDurationLog) : Result (InnerCatalog × Bool) := do
  let (config, changed) ← inner.generationConfig.setDuration log.level log.duration
  pure ({ inner with generationConfig := config }, changed)

/-- Applies the entries of a batch in order, and says whether one of them changed something. -/
def applyAll {ι : Type} (apply : InnerCatalog → ι → Result (InnerCatalog × Bool)) (ops : List ι) :
    Result (InnerCatalog × Bool) :=
  ops.foldlM (fun (state : InnerCatalog × Bool) op => do
    let (updated, changed) ← apply state.1 op
    pure (updated, state.2 || changed)) (inner, false)

def applyBatch : CatalogBatch → Result (InnerCatalog × Bool)
  | .node batch => inner.applyAll (fun inner => inner.applyNodeOp batch.nodeCatalogId) batch.ops
  | .database batch => inner.applyDatabaseBatch batch
  | .token _ ops => inner.applyAll applyTokenOp ops
  | .delete _ ops => inner.applyAll applyDeleteOp ops
  | .generation _ ops => inner.applyAll applyGenerationOp ops

/-- Applies a batch; the sequence number moves when it changed something. -/
def applyCatalogBatch (batch : CatalogBatch) (sequence : Nat) : Result (Option InnerCatalog) := do
  let (updated, changed) ← inner.applyBatch batch
  pure (if changed then some { updated with sequence := sequence } else none)

/-- A batch of the log must be the next one, must be accepted and must change something. -/
def applyOrderedCatalogBatch (batch : CatalogBatch) (sequence : Nat) : Result InnerCatalog := do
  Fallible.ensure (sequence = inner.sequence + 1) (.panic "catalog batch received out of order")
  let applied ← Fallible.unwrap "ordered catalog batch should succeed when applied"
    (inner.applyCatalogBatch batch sequence)
  Fallible.expect "ordered catalog batch should contain changes" applied

end InnerCatalog

end RefluxDb.Catalog
