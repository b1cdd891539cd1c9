import RefluxDb.Catalog.Inner

/-! Transactions on one database: tables and columns are made on a copy of its schema, as a write
meets them, and become one batch.

A call that fails leaves the transaction as far as it got; a write goes on with its other lines. -/

namespace RefluxDb.Catalog

open RefluxDb.Library Fallible

section Names

inductive KeyType where
  | tag
  | field
deriving DecidableEq

def KeyType.text : KeyType → String
  | tag => "tag"
  | field => "field"

def isControl (c : Char) : Bool := c.toNat < 32 || (127 ≤ c.toNat && c.toNat ≤ 159)

/-- Keys are not empty and have no control characters. -/
def isValid (keyType : KeyType) (key : String) : Result Unit := do
  Fallible.ensure (!key.isEmpty)
    (.error (.invalidConfiguration (keyType.text ++ " key cannot be empty")))
  Fallible.ensure (!key.toList.any isControl)
    (.error (.invalidConfiguration (keyType.text ++ " key cannot contain control characters")))

inductive FieldName where
  | unqualified (name : String)
  | qualified (family name : String)
deriving DecidableEq

def parseFieldNameAuto (name : String) : FieldName := .unqualified name

/-- The text before and after the first `::`. -/
def splitFamily : List Char → Option (List Char × List Char)
  | [] => none
  | ':' :: ':' :: rest => some ([], rest)
  | c :: rest => (splitFamily rest).map fun (qualifier, name) => (c :: qualifier, name)

/-- Without a family before or a name after the delimiter, the whole text is the name. -/
def parseFieldNameAware (name : String) : FieldName :=
  match splitFamily name.toList with
  | none => .unqualified name
  | some (qualifier, field) =>
    if field.isEmpty || qualifier.isEmpty then .unqualified name
    else .qualified (.ofList qualifier) (.ofList field)

example : parseFieldNameAware "cpu::a::b" = .qualified "cpu" "a::b" := by decide

def FieldFamilyMode.parseFieldName : FieldFamilyMode → String → FieldName
  | .aware => parseFieldNameAware
  | .auto => parseFieldNameAuto

end Names

structure TableTransaction where
  table : TableDefinition
  columnDefinitions : List ColumnDefinition := []
  fieldFamilyDefinitions : List FieldFamilyDefinitionLog := []
  columnLimit : Nat
deriving DecidableEq

namespace TableTransaction

variable (tx : TableTransaction)

def checkColumnsLimit : Result Unit :=
  Fallible.ensure (tx.table.columns.repo.entries.length < tx.columnLimit)
    (.error (.tooManyColumns tx.columnLimit))

def addTag (tag : String) : Result (TagColumn × TableTransaction) := do
  isValid .tag tag
  Fallible.ensure (tx.table.tagColumns.repo.entries.length < numTagColumnsLimit)
    (.error (.tooManyTagColumns numTagColumnsLimit))
  tx.checkColumnsLimit
  tx.table.checkName tag
  let id := tx.table.tagColumns.nextId
  -- the largest identifier is handed out, but not passed
  let nextId := if id < CatalogResource.maxId TagColumn then id + 1 else id
  let (columnId, columns) ← tx.table.columns.getAndIncrementNextId
  let column : TagColumn := { id := id, columnId := columnId, name := tag }
  let tagColumns ← Fallible.unwrap "no duplicate tag"
    ({ tx.table.tagColumns with nextId := nextId }.insert id column)
  let columns ← Fallible.unwrap "no duplicate column" (columns.insert (.tag column))
  pure (column,
    { tx with
      table := { tx.table with tagColumns := tagColumns, columns := columns }
      columnDefinitions := tx.columnDefinitions ++ [.tag column] })

def addTime : Result (TimestampColumn × TableTransaction) := do
  Fallible.ensure tx.table.timestampColumn.isNone
    (.error (.duplicateColumn timeColumnName .timestamp))
  let (columnId, columns) ← tx.table.columns.getAndIncrementNextId
  let column : TimestampColumn := { columnId := columnId, name := timeColumnName }
  let columns ← Fallible.unwrap "no duplicate column" (columns.insert (.timestamp column))
  pure (column,
    { tx with
      table := { tx.table with timestampColumn := some column, columns := columns }
      columnDefinitions := tx.columnDefinitions ++ [.timestamp column] })

def newFamily (name : FieldFamilyName) : Result (Nat × TableTransaction) := do
  let (id, families) ← tx.table.fieldFamilies.getAndIncrementNextId
  let families ← Fallible.unwrap "field family ID and name don't exist"
    (families.insert id { id := id, name := name })
  pure (id,
    { tx with
      table := { tx.table with fieldFamilies := families }
      fieldFamilyDefinitions := tx.fieldFamilyDefinitions ++ [{ id := id, name := name }] })

def newAutoFamily : Result (Nat × TableTransaction) := do
  let (id, added) ← tx.newFamily (.auto tx.table.nextAutoFieldFamilyName)
  pure (id,
    { added with
      table := { added.table with
        autoFieldFamily := some id
        nextAutoFieldFamilyName := tx.table.nextAutoFieldFamilyName + 1 } })

/-- The generated field family, or the next one when there is none or it is full. -/
def nextAutoFamilyId : Result (Nat × TableTransaction) :=
  match tx.table.autoFieldFamily with
  | none => tx.newAutoFamily
  | some id => do
      let family ← Fallible.expect "auto field family exists" (tx.table.fieldFamilies.getById id)
      if family.fields.repo.entries.length < numFieldsPerFamilyLimit then pure (id, tx)
      else tx.newAutoFamily

def familyOf (field : String) : Result (Nat × TableTransaction) :=
  match tx.table.fieldFamilyMode.parseFieldName field with
  | .unqualified _ => tx.nextAutoFamilyId
  | .qualified familyName _ =>
    match tx.table.fieldFamilies.getByName familyName with
    | some family => do
        Fallible.ensure (family.fields.repo.entries.length < numFieldsPerFamilyLimit)
          (.error (.tooManyFields familyName numFieldsPerFamilyLimit))
        pure (family.id, tx)
    | none => tx.newFamily (.user familyName)

def addFieldTo (familyId : Nat) (field : String) (dataType : InfluxFieldType) :
    Result (FieldColumn × TableTransaction) := do
  let family ← Fallible.expect "field family name exists" (tx.table.fieldFamilies.getById familyId)
  let (fieldId, fields) ← family.fields.getAndIncrementNextId
  let (columnId, columns) ← tx.table.columns.getAndIncrementNextId
  let column : FieldColumn :=
    { id := ⟨family.id, fieldId⟩, columnId := columnId, name := field, dataType := dataType }
  let fields ← Fallible.unwrap "field does not exist" (fields.insert fieldId column)
  let columns ← Fallible.unwrap "no duplicate column" (columns.insert (.field column))
  let families := tx.table.fieldFamilies.repo.insert familyId { family with fields := fields }
  pure (column,
    { tx with
      table := { tx.table with
        fieldFamilies := { tx.table.fieldFamilies with repo := families }
        fieldCount := tx.table.fieldCount + 1
        columns := columns }
      columnDefinitions := tx.columnDefinitions ++ [.field column] })

def addField (field : String) (dataType : InfluxFieldType) :
    Result (FieldColumn × TableTransaction) := do
  isValid .field field
  tx.table.checkName field
  tx.checkColumnsLimit
  let (familyId, withFamily) ← tx.familyOf field
  withFamily.addFieldTo familyId field dataType

def timeOrCreate : Result (TimestampColumn × TableTransaction) :=
  match tx.table.timestampColumn with
  | some column => pure (column, tx)
  | none => tx.addTime

def tagOrCreate (tag : String) : Result (TagColumn × TableTransaction) :=
  match tx.table.tagColumns.getByName tag with
  | some column => pure (column, tx)
  | none =>
    match tx.table.columnDefinition tag with
    | some column => throw (.error (.invalidColumnType column.name column.columnType .tag))
    | none => tx.addTag tag

def fieldOrCreate (field : String) (dataType : InfluxFieldType) :
    Result (FieldColumn × TableTransaction) :=
  match tx.table.columnDefinition field with
  | none => tx.addField field dataType
  | some (.field column) =>
    if column.dataType = dataType then pure (column, tx)
    else throw (.error (.invalidColumnType field (.field column.dataType) (.field dataType)))
  | some column => throw (.error (.invalidColumnType field column.columnType (.field dataType)))

def columnOrCreate (name : String) (columnType : InfluxColumnType) :
    Result (ColumnDefinition × TableTransaction) :=
  match tx.table.columnDefinition name with
  | some column =>
    if column.columnType = columnType then pure (column, tx)
    else throw (.error (.invalidColumnType column.name column.columnType columnType))
  | none =>
    match columnType with
    | .tag => do
        let (column, added) ← tx.addTag name
        pure (.tag column, added)
    | .field dataType => do
        let (column, added) ← tx.addField name dataType
        pure (.field column, added)
    | .timestamp => do
        let (column, added) ← tx.addTime
        pure (.timestamp column, added)

def isEmpty : Bool := tx.columnDefinitions.isEmpty && tx.fieldFamilyDefinitions.isEmpty

end TableTransaction

/-- The tables of a transaction, by identifier and by name. -/
structure Repo where
  repo : IndexMap Nat TableTransaction := .empty
  idNameMap : BiMap Nat String := .empty
deriving DecidableEq

namespace Repo

variable (tables : Repo)

def containsName (name : String) : Bool := tables.idNameMap.containsRight name

def idForName (name : String) : Option Nat := tables.idNameMap.getByRight name

/-- Fails only when the identifier and the name are both in use. -/
def insert (id : Nat) (tx : TableTransaction) : Result Repo := do
  Fallible.ensure (tables.idNameMap.containsLeft id == tables.repo.contains id)
    (.panic "id map and repository are in an inconsistent state")
  Fallible.ensure (!(tables.repo.contains id && tables.containsName tx.table.tableName))
    (.error .alreadyExists)
  pure {
    repo := tables.repo.insert id tx
    idNameMap := tables.idNameMap.insert id tx.table.tableName }

end Repo

structure CatalogLimits where
  numDbs : Nat
  numTables : Nat
  numColumnsPerTable : Nat
deriving DecidableEq

structure DatabaseCatalogTransaction where
  catalogSequence : Nat
  currentTableCount : Nat
  tableLimit : Nat
  columnsPerTableLimit : Nat
  timeNs : Int
  databaseSchema : DatabaseSchema
  tables : Repo := {}
  nextTableId : Nat
  ops : List DatabaseCatalogOp := []
deriving DecidableEq

structure CreateTableColumns where
  tags : List String
  fields : List (String × InfluxFieldType)
deriving DecidableEq

/-- The number of columns of the new table, with its time column. -/
def CreateTableColumns.numColumns (columns : CreateTableColumns) : Nat :=
  columns.tags.length + columns.fields.length + 1

namespace TableTransaction

/-- The columns of a table that is created with them. -/
def addAll (tx : TableTransaction) (columns : CreateTableColumns) : Result TableTransaction := do
  let tagged ← columns.tags.foldlM (fun tx tag => Prod.snd <$> tx.addTag tag) tx
  let filled ← columns.fields.foldlM
    (fun tx field => Prod.snd <$> tx.addField field.1 field.2) tagged
  Prod.snd <$> filled.addTime

end TableTransaction

namespace DatabaseCatalogTransaction

variable (txn : DatabaseCatalogTransaction)

def tableExistsByName (name : String) : Bool :=
  txn.tables.containsName name || txn.databaseSchema.tables.containsName name

/-- The identifier of a table of the transaction. One that is only in the schema is taken into the
transaction. -/
def tableTransaction (name : String) : Result (Option Nat × DatabaseCatalogTransaction) :=
  match txn.tables.idForName name with
  | some id => pure (some id, txn)
  | none =>
    match txn.databaseSchema.tableDefinition name with
    | none => pure (none, txn)
    | some table => do
        let tx : TableTransaction := { table := table, columnLimit := txn.columnsPerTableLimit }
        let tables ← Fallible.unwrap "Existing transaction for table should not exist"
          (txn.tables.insert table.tableId tx)
        pure (some table.tableId, { txn with tables := tables })

def createTable (tableName : String) (columns : Option CreateTableColumns)
    (fieldFamilyMode : FieldFamilyMode) : Result (Nat × DatabaseCatalogTransaction) := do
  Fallible.ensure (!txn.tableExistsByName tableName) (.error .alreadyExists)
  Fallible.ensure (txn.currentTableCount < txn.tableLimit)
    (.error (.tooManyTables txn.currentTableCount txn.tableLimit))
  Fallible.ensure (columns.all fun columns => columns.tags.length ≤ numTagColumnsLimit)
    (.error (.tooManyTagColumns numTagColumnsLimit))
  Fallible.ensure (columns.all fun columns => columns.numColumns ≤ txn.columnsPerTableLimit)
    (.error (.tooManyColumns txn.columnsPerTableLimit))
  let tableId := txn.nextTableId
  Fallible.ensure (tableId < CatalogResource.maxId TableDefinition)
    (.panic "incrementing id overflow")
  let empty : TableTransaction :=
    { table := .newEmpty tableId tableName fieldFamilyMode
      columnLimit := txn.columnsPerTableLimit }
  let tx ← match columns with
    | none => pure empty
    | some columns => empty.addAll columns
  let tables ← Fallible.unwrap "no duplicate table by ID or name" (txn.tables.insert tableId tx)
  pure (tableId,
    { txn with
      nextTableId := tableId + 1
      ops := txn.ops ++ [.createTable
        { databaseId := txn.databaseSchema.id
          databaseName := txn.databaseSchema.name
          tableName := tableName
          tableId := tableId
          fieldFamilyMode := fieldFamilyMode }]
      tables := tables })

def tableOrCreate (tableName : String) : Result (Nat × DatabaseCatalogTransaction) := do
  let (found, taken) ← txn.tableTransaction tableName
  match found with
  | some id => pure (id, taken)
  | none => taken.createTable tableName none .aware

/-- Changes a table of the transaction, which stays as it is when the change fails. -/
def updateTransaction (id : Nat) (update : TableTransaction → Result TableTransaction) :
    DatabaseCatalogTransaction :=
  match txn.tables.repo.get id with
  | none => txn
  | some tx =>
    match update tx with
    | .error _ => txn
    | .ok updated =>
      { txn with tables := { txn.tables with repo := txn.tables.repo.insert id updated } }

/-- The calls that a write makes on its transaction. -/
inductive Call where
  | tableOrCreate (table : String)
  | columnOrCreate (table column : String) (columnType : InfluxColumnType)
  | timeOrCreate (table : String)
  | tagOrCreate (table tag : String)
  | fieldOrCreate (table field : String) (dataType : InfluxFieldType)
deriving DecidableEq

/-- Makes a change to a table of the transaction, after making the table if it is not there. -/
def onTable (tableName : String) (update : TableTransaction → Result TableTransaction) :
    DatabaseCatalogTransaction :=
  match txn.tableOrCreate tableName with
  | .error _ => txn
  | .ok (id, found) => found.updateTransaction id update

def call : Call → DatabaseCatalogTransaction
  | .tableOrCreate table => txn.onTable table pure
  | .columnOrCreate table column columnType =>
    match txn.tableTransaction table with
    | .ok (some id, found) =>
      found.updateTransaction id fun tx => Prod.snd <$> tx.columnOrCreate column columnType
    | _ => txn
  | .timeOrCreate table => txn.onTable table fun tx => Prod.snd <$> tx.timeOrCreate
  | .tagOrCreate table tag => txn.onTable table fun tx => Prod.snd <$> tx.tagOrCreate tag
  | .fieldOrCreate table field dataType =>
    txn.onTable table fun tx => Prod.snd <$> tx.fieldOrCreate field dataType

def isEmpty : Bool := txn.ops.isEmpty && txn.tables.repo.values.all TableTransaction.isEmpty

def addColumnsLog (tx : TableTransaction) : AddColumnsLog where
  databaseName := txn.databaseSchema.name
  databaseId := txn.databaseSchema.id
  tableName := tx.table.tableName
  tableId := tx.table.tableId
  columnDefinitions := tx.columnDefinitions
  fieldFamilyDefinitions := tx.fieldFamilyDefinitions

/-- The entries of the transaction, and then the additions to each of its tables. -/
def databaseBatch : DatabaseBatch where
  timeNs := txn.timeNs
  databaseId := txn.databaseSchema.id
  databaseName := txn.databaseSchema.name
  ops := txn.ops ++ (txn.tables.repo.values.filter fun tx => !tx.isEmpty).map fun tx =>
    .addColumns (txn.addColumnsLog tx)

section Schema

variable {txn} {found created : DatabaseCatalogTransaction} {tableName : String}

theorem tableTransaction_databaseSchema {id : Option Nat}
    (h : txn.tableTransaction tableName = .ok (id, found)) :
    found.databaseSchema = txn.databaseSchema := by
  unfold tableTransaction at h
  split at h
  · obtain ⟨_, rfl⟩ := Prod.mk.inj (pure_eq_ok.mp h)
    rfl
  · split at h
    · obtain ⟨_, rfl⟩ := Prod.mk.inj (pure_eq_ok.mp h)
      rfl
    · simp only [bind_eq_ok, pure_eq_ok, Prod.mk.injEq] at h
      obtain ⟨_, _, _, rfl⟩ := h
      rfl

variable {id : Nat}

theorem createTable_databaseSchema {columns : Option CreateTableColumns} {mode : FieldFamilyMode}
    (h : txn.createTable tableName columns mode = .ok (id, created)) :
    created.databaseSchema = txn.databaseSchema := by
  simp only [createTable, bind_eq_ok] at h
  obtain ⟨_, _, _, _, _, _, _, _, _, _, h⟩ := h
  cases columns <;>
    simp only [bind_eq_ok, pure_eq_ok, Prod.mk.injEq] at h <;>
    obtain ⟨_, _, _, _, _, rfl⟩ := h <;>
    rfl

theorem tableOrCreate_databaseSchema (h : txn.tableOrCreate tableName = .ok (id, found)) :
    found.databaseSchema = txn.databaseSchema := by
  simp only [tableOrCreate, bind_eq_ok] at h
  obtain ⟨⟨known, taken⟩, htaken, h⟩ := h
  have hschema : taken.databaseSchema = txn.databaseSchema := tableTransaction_databaseSchema htaken
  cases known with
  | some known =>
    obtain ⟨_, rfl⟩ := Prod.mk.inj (pure_eq_ok.mp h)
    exact hschema
  | none => exact (createTable_databaseSchema h).trans hschema

variable {update : TableTransaction → Result TableTransaction}

theorem updateTransaction_databaseSchema :
    (txn.updateTransaction id update).databaseSchema = txn.databaseSchema := by
  unfold updateTransaction
  split
  · rfl
  · split <;> rfl

theorem onTable_databaseSchema :
    (txn.onTable tableName update).databaseSchema = txn.databaseSchema := by
  unfold onTable
  split
  · rfl
  · rename_i hfound
    exact updateTransaction_databaseSchema.trans (tableOrCreate_databaseSchema hfound)

theorem call_databaseSchema (call : Call) :
    (txn.call call).databaseSchema = txn.databaseSchema := by
  cases call with
  | tableOrCreate table => exact onTable_databaseSchema
  | columnOrCreate table column columnType =>
    simp only [DatabaseCatalogTransaction.call]
    split
    · rename_i hfound
      exact updateTransaction_databaseSchema.trans (tableTransaction_databaseSchema hfound)
    · rfl
  | timeOrCreate table => exact onTable_databaseSchema
  | tagOrCreate table tag => exact onTable_databaseSchema
  | fieldOrCreate table field dataType => exact onTable_databaseSchema

theorem foldl_call_databaseSchema (calls : List Call) :
    (calls.foldl DatabaseCatalogTransaction.call txn).databaseSchema = txn.databaseSchema := by
  induction calls generalizing txn with
  | nil => rfl
  | cons call rest ih => exact ih.trans (call_databaseSchema call)

end Schema

end DatabaseCatalogTransaction

namespace InnerCatalog

/-- Starts a transaction. One on a name that is not there takes an identifier for a new database. -/
def begin (inner : InnerCatalog) (limits : CatalogLimits) (dbName : String) (timeNs : Int) :
    Result (InnerCatalog × DatabaseCatalogTransaction) :=
  match inner.databases.getByName dbName with
  | some schema =>
    pure (inner,
      { catalogSequence := inner.sequence
        currentTableCount := inner.tableCount
        tableLimit := limits.numTables
        columnsPerTableLimit := limits.numColumnsPerTable
        timeNs := timeNs
        databaseSchema := schema
        nextTableId := schema.tables.nextId })
  | none => do
      Fallible.ensure (inner.databaseCount < limits.numDbs) (.error (.tooManyDbs limits.numDbs))
      let (databaseId, databases) ← inner.databases.getAndIncrementNextId
      pure ({ inner with databases := databases },
        { catalogSequence := inner.sequence
          currentTableCount := inner.tableCount
          tableLimit := limits.numTables
          columnsPerTableLimit := limits.numColumnsPerTable
          timeNs := timeNs
          databaseSchema := .new databaseId dbName
          nextTableId := 0
          ops := [.createDatabase
            { databaseId := databaseId, databaseName := dbName, retentionPeriod := none }] })

end InnerCatalog

end RefluxDb.Catalog
