import RefluxDb.Catalog.Columns

/-! Table definitions: how one is made, from nothing or from the parts a snapshot keeps, and how a
log entry adds field families and columns to it.

The Arrow schema, which is built from the columns and the series key whenever they change, is left
out. -/

namespace RefluxDb.Catalog

open RefluxDb.Library

inductive LastCacheValueColumnsDef where
  | explicit (columns : List ColumnIdentifier)
  | allNonKeyColumns
deriving DecidableEq

/-- A last cache holds at least one value. -/
structure LastCacheSize where
  size : Nat
  pos : 0 < size := by decide
deriving DecidableEq

structure LastCacheDefinition where
  tableId : Nat
  table : String
  id : Nat
  name : String
  keyColumns : List ColumnIdentifier
  valueColumns : LastCacheValueColumnsDef
  count : LastCacheSize
  ttlSeconds : Nat
deriving DecidableEq

instance : CatalogResource LastCacheDefinition where
  id := LastCacheDefinition.id
  name := LastCacheDefinition.name
  maxId := 2 ^ 16 - 1

structure DistinctCacheDefinition where
  tableId : Nat
  tableName : String
  cacheId : Nat
  cacheName : String
  columnIds : List ColumnIdentifier
  maxCardinality : Nat
  maxAgeSeconds : Nat
deriving DecidableEq

instance : CatalogResource DistinctCacheDefinition where
  id := DistinctCacheDefinition.cacheId
  name := DistinctCacheDefinition.cacheName
  maxId := 2 ^ 16 - 1

structure TableDefinition where
  tableId : Nat
  tableName : String
  columns : ColumnSet := {}
  timestampColumn : Option TimestampColumn := none
  tagColumns : Repository TagColumn := {}
  fieldFamilies : Repository FieldFamilyDefinition := {}
  fieldCount : Nat := 0
  autoFieldFamily : Option Nat := none
  nextAutoFieldFamilyName : Nat := 0
  seriesKey : List Nat := []
  seriesKeyNames : List String := []
  sortKey : List String := []
  lastCaches : Repository LastCacheDefinition := {}
  distinctCaches : Repository DistinctCacheDefinition := {}
  deleted : Bool := false
  hardDeleteTime : Option Int := none
  fieldFamilyMode : FieldFamilyMode
deriving DecidableEq

instance : CatalogResource TableDefinition where
  id := TableDefinition.tableId
  name := TableDefinition.tableName
  maxId := 2 ^ 32 - 1

structure FieldFamilyDefinitionLog where
  id : Nat
  name : FieldFamilyName
deriving DecidableEq

def FieldFamilyDefinitionLog.definition (log : FieldFamilyDefinitionLog) :
    FieldFamilyDefinition where
  id := log.id
  name := log.name

def maxAutoFieldFamilyName : Nat := 2 ^ 16 - 1

namespace TableDefinition

variable (table : TableDefinition)

/-- The series key and then the time column, if the table has one. -/
def makeSortKey (seriesKeyNames : List String) (addTime : Bool) : List String :=
  if addTime then seriesKeyNames ++ [timeColumnName] else seriesKeyNames

def columnDefinition (name : String) : Option ColumnDefinition := table.columns.getByName name

/-- A column's name must not be reserved nor in use. -/
def checkName (name : String) : Result Unit := do
  Fallible.ensure (decide (name ∉ reservedColumnNames)) (.error (.reservedColumn name))
  match table.columnDefinition name with
  | some existing => throw (.error (.duplicateColumn existing.name existing.columnType))
  | none => pure ()

/-- Adds one of the new columns: to the set of columns, and to the timestamp, the tags or the fields
of its family, which must be there. -/
def addColumn (column : ColumnDefinition) : Result TableDefinition := do
  Fallible.ensure (!table.columns.containsName column.name)
    (.panic "attempted to add existing column")
  let columns ← table.columns.insert column
  match column with
  | .timestamp timestamp =>
    Fallible.ensure table.timestampColumn.isNone
      (.panic "table definition initialized with multiple timestamp columns")
    pure { table with columns := columns, timestampColumn := some timestamp }
  | .tag tag =>
    let tagColumns ← Fallible.unwrap "table definition initialized with duplicate tags"
      (table.tagColumns.insert tag.id tag)
    pure { table with
      columns := columns
      tagColumns := tagColumns
      seriesKey := table.seriesKey ++ [tag.id]
      seriesKeyNames := table.seriesKeyNames ++ [tag.name] }
  | .field field =>
    let family ← Fallible.expect "field family ID should exist in the table definition"
      (table.fieldFamilies.getById field.id.family)
    let fields ← Fallible.unwrap "" (family.fields.insert field.id.field field)
    let families := table.fieldFamilies.repo.insert field.id.family { family with fields := fields }
    pure { table with
      columns := columns
      fieldFamilies := { table.fieldFamilies with repo := families }
      fieldCount := table.fieldCount + 1 }

/-- Adds the columns and sorts them by name. The sort key is made again when one of them belongs to
it. -/
def addColumnsImpl (newColumns : List ColumnDefinition) : Result TableDefinition := do
  let added ← newColumns.foldlM addColumn table
  let sorted := { added with columns := added.columns.sortByName }
  if newColumns.any ColumnDefinition.isKey then
    pure { sorted with
      sortKey := makeSortKey sorted.seriesKeyNames (sorted.columns.containsId .timestamp) }
  else pure sorted

/-- What the constructor gathers from the field families: the repository, and the generated family
with the highest number. -/
structure FamilySet where
  families : Repository FieldFamilyDefinition := {}
  autoFieldFamily : Option Nat := none
  nextAutoFieldFamilyName : Nat := 0

def FamilySet.add (set : FamilySet) (family : FieldFamilyDefinitionLog) : Result FamilySet := do
  let numbered ← match family.name with
    | .auto n =>
      if set.nextAutoFieldFamilyName < n then do
        Fallible.ensure (decide (n < maxAutoFieldFamilyName)) (.panic "field family ID overflowed")
        pure { set with autoFieldFamily := some family.id, nextAutoFieldFamilyName := n + 1 }
      else pure set
    | .user _ => pure set
  let families ← Fallible.unwrap "field family definition should not exist"
    (set.families.insert family.id family.definition)
  pure { numbered with families := families }

def seriesKeyName (id : Nat) : Result String := do
  let tag ← Fallible.expect "tag column should exist by ID" (table.tagColumns.getById id)
  pure tag.name

def new (tableId : Nat) (tableName : String) (columnDefs : List ColumnDefinition)
    (fieldFamilyDefs : List FieldFamilyDefinitionLog) (seriesKey : List Nat)
    (fieldFamilyMode : FieldFamilyMode) : Result TableDefinition := do
  let set ← fieldFamilyDefs.foldlM FamilySet.add {}
  let empty : TableDefinition :=
    { tableId := tableId
      tableName := tableName
      fieldFamilies := set.families
      autoFieldFamily := set.autoFieldFamily
      nextAutoFieldFamilyName := set.nextAutoFieldFamilyName
      fieldFamilyMode := fieldFamilyMode }
  let table ← empty.addColumnsImpl columnDefs
  let seriesKeyNames ← seriesKey.mapM table.seriesKeyName
  pure { table with
    seriesKey := seriesKey
    seriesKeyNames := seriesKeyNames
    sortKey := makeSortKey seriesKeyNames table.timestampColumn.isSome }

def newEmpty (tableId : Nat) (tableName : String) (fieldFamilyMode : FieldFamilyMode) :
    TableDefinition where
  tableId := tableId
  tableName := tableName
  fieldFamilyMode := fieldFamilyMode

def insertFamily (family : FieldFamilyDefinitionLog) : Result TableDefinition := do
  let families ← table.fieldFamilies.insert family.id family.definition
  pure { table with fieldFamilies := families }

/-- Adds the families whose identifier is new, and says whether there were any. -/
def updateFieldFamilies (families : List FieldFamilyDefinitionLog) :
    Result (TableDefinition × Bool) := do
  let newFamilies := families.filter fun family => !table.fieldFamilies.containsId family.id
  let updated ← newFamilies.foldlM insertFamily table
  pure (updated, !newFamilies.isEmpty)

/-- Keeps the columns whose identifier is new; the others must have the type that is there. -/
def newColumn (newColumns : List ColumnDefinition) (column : ColumnDefinition) :
    Result (List ColumnDefinition) :=
  match table.columns.getById column.id with
  | some existing => do
      Fallible.ensure (existing.columnType = column.columnType)
        (.error (.fieldTypeMismatch table.tableName column.name existing.columnType
          column.columnType))
      pure newColumns
  | none => pure (newColumns ++ [column])

/-- Adds the columns that are new, and says whether there were any. -/
def updateColumns (columns : List ColumnDefinition) : Result (TableDefinition × Bool) := do
  let newColumns ← columns.foldlM table.newColumn []
  if newColumns.isEmpty then pure (table, false)
  else do
    let updated ← table.addColumnsImpl newColumns
    pure (updated, true)

/-- What an entry that adds columns does to its table, and whether it changed it. -/
def addFamiliesAndColumns (families : List FieldFamilyDefinitionLog)
    (columns : List ColumnDefinition) : Result (TableDefinition × Bool) := do
  let (withFamilies, changedFamilies) ← table.updateFieldFamilies families
  let (updated, changedColumns) ← withFamilies.updateColumns columns
  pure (updated, changedFamilies || changedColumns)

end TableDefinition

end RefluxDb.Catalog
