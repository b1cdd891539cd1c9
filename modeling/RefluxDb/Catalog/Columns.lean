import Mathlib.Data.String.Basic
import RefluxDb.Catalog.Repository

/-! Columns and field families of a table.

A column is known by three keys: its identifier (which says whether it is the timestamp, a tag or a
field of a family), its name, and its ordinal. The set of columns has a map for each and keeps its
entries sorted by name. -/

namespace RefluxDb.Catalog

open RefluxDb.Library

def timeColumnName : String := "time"

def reservedColumnNames : List String := [timeColumnName, "__chunk_order"]

def numTagColumnsLimit : Nat := 256

def numFieldsPerFamilyLimit : Nat := 100

structure TimestampColumn where
  columnId : Nat
  name : String
deriving DecidableEq

structure TagColumn where
  id : Nat
  columnId : Nat
  name : String
deriving DecidableEq

structure FieldIdentifier where
  family : Nat
  field : Nat
deriving DecidableEq

structure FieldColumn where
  id : FieldIdentifier
  columnId : Nat
  name : String
  dataType : InfluxFieldType
deriving DecidableEq

inductive ColumnIdentifier where
  | timestamp
  | tag (id : Nat)
  | field (id : FieldIdentifier)
deriving DecidableEq

inductive ColumnDefinition where
  | timestamp (column : TimestampColumn)
  | tag (column : TagColumn)
  | field (column : FieldColumn)
deriving DecidableEq

namespace ColumnDefinition

def id : ColumnDefinition → ColumnIdentifier
  | timestamp _ => .timestamp
  | tag column => .tag column.id
  | field column => .field column.id

def ordId : ColumnDefinition → Nat
  | timestamp column => column.columnId
  | tag column => column.columnId
  | field column => column.columnId

def name : ColumnDefinition → String
  | timestamp column => column.name
  | tag column => column.name
  | field column => column.name

def columnType : ColumnDefinition → InfluxColumnType
  | timestamp _ => .timestamp
  | tag _ => .tag
  | field column => .field column.dataType

/-- Timestamps and tags are part of the sort key. -/
def isKey : ColumnDefinition → Bool
  | timestamp _ => true
  | tag _ => true
  | field _ => false

end ColumnDefinition

inductive FieldFamilyName where
  | user (name : String)
  | auto (n : Nat)
deriving DecidableEq

instance : CatalogResource TagColumn where
  id := TagColumn.id
  name := TagColumn.name
  maxId := 2 ^ 8 - 1

/-- The fields of a family are kept by the second part of their identifier. -/
instance : CatalogResource FieldColumn where
  id column := column.id.field
  name := FieldColumn.name
  maxId := 2 ^ 16 - 1

structure FieldFamilyDefinition where
  id : Nat
  name : FieldFamilyName
  fields : Repository FieldColumn := {}
deriving DecidableEq

def FieldFamilyName.text : FieldFamilyName → String
  | user name => name
  | auto n => "__" ++ toString n

instance : CatalogResource FieldFamilyDefinition where
  id := FieldFamilyDefinition.id
  name family := family.name.text
  maxId := 2 ^ 16 - 1

/-- Fields must be qualified with their family, or are assigned to one. -/
inductive FieldFamilyMode where
  | aware
  | auto
deriving DecidableEq

structure ColumnSet where
  repo : IndexMap ColumnIdentifier ColumnDefinition := .empty
  idNameMap : BiMap ColumnIdentifier String := .empty
  idOrdIdMap : BiMap ColumnIdentifier Nat := .empty
  nextId : Nat := 0
deriving DecidableEq

namespace ColumnSet

def maxColumnId : Nat := 2 ^ 16 - 1

variable (columns : ColumnSet)

def getByName (name : String) : Option ColumnDefinition :=
  (columns.idNameMap.getByRight name).bind columns.repo.get

def getById (id : ColumnIdentifier) : Option ColumnDefinition := columns.repo.get id

def containsId (id : ColumnIdentifier) : Bool := columns.repo.contains id

def containsName (name : String) : Bool := columns.idNameMap.containsRight name

def definitions : List ColumnDefinition := columns.repo.values

def getAndIncrementNextId : Result (Nat × ColumnSet) := do
  Fallible.ensure (decide (columns.nextId < maxColumnId)) (.panic "incrementing id overflow")
  pure (columns.nextId, { columns with nextId := columns.nextId + 1 })

/-- Whether the identifier is there. The three maps must agree on it. -/
def idExists (id : ColumnIdentifier) : Result Bool := do
  Fallible.ensure (columns.idNameMap.containsLeft id == columns.idOrdIdMap.containsLeft id &&
      columns.idOrdIdMap.containsLeft id == columns.repo.contains id)
    (.panic "name, col_id and repository are in an inconsistent state")
  pure (columns.repo.contains id)

def definitionExists (column : ColumnDefinition) : Result Bool := do
  let idInRepo ← columns.idExists column.id
  pure (idInRepo && columns.containsName column.name &&
    columns.idOrdIdMap.containsRight column.ordId)

/-- The three maps with a column written to them. -/
def put (column : ColumnDefinition) : ColumnSet where
  repo := columns.repo.insert column.id column
  idNameMap := columns.idNameMap.insert column.id column.name
  idOrdIdMap := columns.idOrdIdMap.insert column.id column.ordId
  nextId := max columns.nextId (column.ordId + 1)

def insert (column : ColumnDefinition) : Result ColumnSet := do
  let all ← columns.definitionExists column
  Fallible.ensure (!all) (.error .alreadyExists)
  -- the ordinal is only incremented when the next one is not above it
  Fallible.ensure (decide (column.ordId < columns.nextId ∨ column.ordId < maxColumnId))
    (.panic "incrementing id overflow")
  pure (columns.put column)

def sortByName : ColumnSet :=
  { columns with repo := columns.repo.sortByKey ColumnDefinition.name }

variable {columns} {column other : ColumnDefinition}

/-- The maps hold the names and the ordinals of the columns, each column under its own
identifier. -/
structure Indexed (columns : ColumnSet) : Prop where
  ids : ∀ entry ∈ columns.repo.entries, entry.2.id = entry.1
  names : ∀ id name, (id, name) ∈ columns.idNameMap.pairs ↔
    ∃ column, (id, column) ∈ columns.repo.entries ∧ column.name = name
  ordIds : ∀ id ordId, (id, ordId) ∈ columns.idOrdIdMap.pairs ↔
    ∃ column, (id, column) ∈ columns.repo.entries ∧ column.ordId = ordId
  next : ∀ entry ∈ columns.repo.entries, entry.2.ordId < columns.nextId
  nextId_le : columns.nextId ≤ maxColumnId

/-- A column that shares none of its three keys with a column of the set. -/
structure New (columns : ColumnSet) (column : ColumnDefinition) : Prop where
  id : column.id ∉ columns.repo.keys
  name : columns.containsName column.name = false
  ordId : columns.nextId ≤ column.ordId
  ordId_lt : column.ordId < maxColumnId

namespace Indexed

theorem empty : Indexed {} where
  ids := by simp
  names := by simp
  ordIds := by simp
  next := by simp
  nextId_le := by decide

variable {name : String}

section

variable (h : Indexed columns)
include h

theorem containsName_iff :
    columns.containsName name = true ↔ ∃ entry ∈ columns.repo.entries, entry.2.name = name := by
  rw [containsName, BiMap.containsRight_iff]
  simp only [h.names]
  constructor
  · rintro ⟨id, column, hmem, hname⟩
    exact ⟨(id, column), hmem, hname⟩
  · rintro ⟨entry, hmem, hname⟩
    exact ⟨entry.1, entry.2, hmem, hname⟩

theorem getByName_eq_some :
    columns.getByName name = some column ↔
      (column.id, column) ∈ columns.repo.entries ∧ column.name = name := by
  simp only [getByName, Option.bind_eq_some_iff, BiMap.getByRight_eq_some, IndexMap.get_eq_some,
    h.names]
  constructor
  · rintro ⟨id, ⟨other, hother, hname⟩, hmem⟩
    obtain rfl := IndexMap.value_unique hother hmem
    have hid : other.id = id := h.ids _ hmem
    exact ⟨hid ▸ hmem, hname⟩
  · rintro ⟨hmem, hname⟩
    exact ⟨_, ⟨column, hmem, hname⟩, hmem⟩

theorem getByName_eq_none :
    columns.getByName name = none ↔ columns.containsName name = false := by
  rw [Option.eq_none_iff_forall_ne_some, ← Bool.not_eq_true, h.containsName_iff]
  simp only [ne_eq, h.getByName_eq_some]
  constructor
  · rintro hnone ⟨entry, hmem, hname⟩
    exact hnone entry.2 ⟨by rw [h.ids entry hmem]; exact hmem, hname⟩
  · rintro hnone column ⟨hmem, hname⟩
    exact hnone ⟨_, hmem, hname⟩

theorem notMem_of_new (hnew : columns.New column)
    {entry : ColumnIdentifier × ColumnDefinition} (hentry : entry ∈ columns.repo.entries) :
    entry.1 ≠ column.id ∧ entry.2.name ≠ column.name ∧ entry.2.ordId ≠ column.ordId := by
  refine ⟨?_, ?_, ?_⟩
  · intro hid
    exact hnew.id (hid ▸ IndexMap.mem_keys_of_mem hentry)
  · intro hname
    have hcontains := h.containsName_iff.mpr ⟨entry, hentry, hname⟩
    rw [hnew.name] at hcontains
    cases hcontains
  · exact ((h.next entry hentry).trans_le hnew.ordId).ne

/-- A new column goes into all three maps. -/
theorem insert_of_new (hnew : columns.New column) :
    columns.insert column = .ok (columns.put column) := by
  have hleft : columns.idNameMap.containsLeft column.id = false := by
    rw [← Bool.not_eq_true, BiMap.containsLeft_iff]
    rintro ⟨name, hpair⟩
    obtain ⟨other, hmem, _⟩ := (h.names _ _).mp hpair
    exact hnew.id (IndexMap.mem_keys_of_mem hmem)
  have hord : columns.idOrdIdMap.containsLeft column.id = false := by
    rw [← Bool.not_eq_true, BiMap.containsLeft_iff]
    rintro ⟨ordId, hpair⟩
    obtain ⟨other, hmem, _⟩ := (h.ordIds _ _).mp hpair
    exact hnew.id (IndexMap.mem_keys_of_mem hmem)
  have hrepo : columns.repo.contains column.id = false :=
    IndexMap.contains_eq_false_iff.mpr hnew.id
  simp [insert, definitionExists, idExists, hleft, hord, hrepo, hnew.ordId_lt, bind, Except.bind,
    pure, Except.pure, Fallible.ensure]

theorem put (hnew : columns.New column) : Indexed (columns.put column) where
  ids := IndexMap.forall_entries_insert rfl h.ids
  names := by
    intro id name
    simp only [ColumnSet.put, BiMap.mem_pairs_insert, IndexMap.mem_entries_insert, h.names,
      Prod.mk.injEq]
    constructor
    · rintro (⟨rfl, rfl⟩ | ⟨⟨other, hmem, hname⟩, hkey, _⟩)
      · exact ⟨column, .inl ⟨rfl, rfl⟩, rfl⟩
      · exact ⟨other, .inr ⟨hmem, hkey⟩, hname⟩
    · rintro ⟨other, ⟨rfl, rfl⟩ | ⟨hmem, hkey⟩, rfl⟩
      · exact .inl ⟨rfl, rfl⟩
      · exact .inr ⟨⟨other, hmem, rfl⟩, hkey, (h.notMem_of_new hnew hmem).2.1⟩
  ordIds := by
    intro id ordId
    simp only [ColumnSet.put, BiMap.mem_pairs_insert, IndexMap.mem_entries_insert, h.ordIds,
      Prod.mk.injEq]
    constructor
    · rintro (⟨rfl, rfl⟩ | ⟨⟨other, hmem, hord⟩, hkey, _⟩)
      · exact ⟨column, .inl ⟨rfl, rfl⟩, rfl⟩
      · exact ⟨other, .inr ⟨hmem, hkey⟩, hord⟩
    · rintro ⟨other, ⟨rfl, rfl⟩ | ⟨hmem, hkey⟩, rfl⟩
      · exact .inl ⟨rfl, rfl⟩
      · exact .inr ⟨⟨other, hmem, rfl⟩, hkey, (h.notMem_of_new hnew hmem).2.2⟩
  next := IndexMap.forall_entries_insert (lt_max_of_lt_right (Nat.lt_succ_self _))
    fun entry hmem => lt_max_of_lt_left (h.next entry hmem)
  nextId_le := max_le h.nextId_le hnew.ordId_lt

end

end Indexed

end ColumnSet

end RefluxDb.Catalog
