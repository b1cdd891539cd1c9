import RefluxDb.Catalog.Table

/-! How a table grows: by one field family or one column at a time, under identifiers handed out in
order.

A transaction adds families and columns to its copy of a table as it meets them; a log entry adds
the families first. Both take the same elementary steps on the part of a table that identifiers are
handed out from, its `TableShape`, and a family can be moved before a column. -/

namespace RefluxDb.Catalog

open List RefluxDb.Library
open CatalogResource (maxId)

/-- The part of a table that new columns and families are numbered by. -/
structure TableShape where
  tableId : Nat
  tableName : String
  columns : ColumnSet := {}
  timestampColumn : Option TimestampColumn := none
  tagColumns : Repository TagColumn := {}
  fieldFamilies : Repository FieldFamilyDefinition := {}

inductive Growth where
  | family (log : FieldFamilyDefinitionLog)
  | column (definition : ColumnDefinition)

namespace TableShape

def growFamily (shape : TableShape) (log : FieldFamilyDefinitionLog) : TableShape :=
  { shape with
    fieldFamilies := shape.fieldFamilies.put log.id log.definition
      (shape.fieldFamilies.nextIdAfter log.id) }

def addField (family : FieldFamilyDefinition) (field : FieldColumn) : FieldFamilyDefinition :=
  { family with
    fields := family.fields.put field.id.field field (family.fields.nextIdAfter field.id.field) }

def growColumn (shape : TableShape) (column : ColumnDefinition) : TableShape :=
  match column with
  | .timestamp timestamp =>
    { shape with columns := shape.columns.put column, timestampColumn := some timestamp }
  | .tag tag =>
    { shape with
      columns := shape.columns.put column
      tagColumns := shape.tagColumns.put tag.id tag (shape.tagColumns.nextIdAfter tag.id) }
  | .field field =>
    match shape.fieldFamilies.getById field.id.family with
    | none => shape
    | some family =>
      let families := shape.fieldFamilies.repo.insert field.id.family (addField family field)
      { shape with
        columns := shape.columns.put column
        fieldFamilies := { shape.fieldFamilies with repo := families } }

def grow (shape : TableShape) : Growth → TableShape
  | .family log => shape.growFamily log
  | .column definition => shape.growColumn definition

def growAll (shape : TableShape) (growths : List Growth) : TableShape :=
  growths.foldl grow shape

/-- The identifier a column brings is the next one of its kind, and its kind accepts it. -/
def NextColumn (shape : TableShape) : ColumnDefinition → Prop
  | .timestamp _ => shape.timestampColumn = none
  | .tag tag =>
    tag.id = shape.tagColumns.nextId ∧ shape.tagColumns.repo.keys.length < numTagColumnsLimit ∧
      tag.name ≠ timeColumnName ∧ shape.tagColumns.insert tag.id tag =
        .ok (shape.tagColumns.put tag.id tag (shape.tagColumns.nextIdAfter tag.id))
  | .field field =>
    ∃ family, (field.id.family, family) ∈ shape.fieldFamilies.repo.entries ∧
      field.id.field = family.fields.nextId ∧ field.id.field < maxId FieldColumn ∧
      field.name ≠ timeColumnName ∧ family.fields.insert field.id.field field =
        .ok (addField family field).fields

/-- A step that takes the next identifiers, and a name that no column has. -/
def Admits (shape : TableShape) : Growth → Prop
  | .family log =>
    log.id = shape.fieldFamilies.nextId ∧ log.id < maxId FieldFamilyDefinition
  | .column definition =>
    definition.ordId = shape.columns.nextId ∧ definition.ordId < ColumnSet.maxColumnId ∧
      shape.columns.containsName definition.name = false ∧ shape.NextColumn definition

def AdmitsAll : TableShape → List Growth → Prop
  | _, [] => True
  | shape, growth :: rest => shape.Admits growth ∧ (shape.grow growth).AdmitsAll rest

/-- The identifiers of the columns are below those that are handed out next, and without a
timestamp no column is called `time`. -/
structure Wf (shape : TableShape) : Prop where
  columns : shape.columns.Indexed
  families : shape.fieldFamilies.Listed
  timestamp : ∀ entry ∈ shape.columns.repo.entries,
    entry.1 = .timestamp ∨ entry.2.name = timeColumnName → shape.timestampColumn ≠ none
  tags : ∀ id, id ∈ shape.tagColumns.repo.keys ∨ .tag id ∈ shape.columns.repo.keys →
    id < shape.tagColumns.repo.keys.length
  tag_next : shape.tagColumns.nextId = min shape.tagColumns.repo.keys.length (maxId TagColumn)
  fields : ∀ id, .field id ∈ shape.columns.repo.keys → ∃ family,
    (id.family, family) ∈ shape.fieldFamilies.repo.entries ∧ id.field < family.fields.nextId

variable {shape : TableShape} {log : FieldFamilyDefinitionLog} {column : ColumnDefinition}
variable {growth : Growth} {growths rest : List Growth}

namespace Wf

theorem empty (tableId : Nat) (tableName : String) :
    Wf { tableId := tableId, tableName := tableName } where
  columns := .empty
  families := .empty
  timestamp := by simp
  tags := by simp [IndexMap.keys]
  tag_next := rfl
  fields := by simp [IndexMap.keys]

variable {tag : TagColumn}

/-- Tags are numbered in the order they are added. -/
theorem tag_id_eq_length (h : Wf shape) (hnext : shape.NextColumn (.tag tag)) :
    tag.id = shape.tagColumns.repo.keys.length := by
  have hmax : maxId TagColumn + 1 = numTagColumnsLimit := rfl
  obtain ⟨hid, hlimit, _⟩ := hnext
  rw [hid, h.tag_next]
  omega

/-- A column of the next identifier is new to the set of columns. -/
theorem new_of_admits (h : Wf shape) (hadmits : shape.Admits (.column column)) :
    shape.columns.New column := by
  obtain ⟨hord, hlt, hname, hnext⟩ := hadmits
  refine ⟨?_, hname, hord.ge, hlt⟩
  intro hkey
  cases column with
  | timestamp timestamp =>
    obtain ⟨other, hmem⟩ := IndexMap.mem_keys.mp hkey
    exact h.timestamp _ hmem (.inl rfl) hnext
  | tag tag =>
    have hid := h.tag_id_eq_length hnext
    exact (h.tags tag.id (.inr hkey)).ne hid
  | field field =>
    obtain ⟨family, hfamily, hid, _⟩ := hnext
    obtain ⟨owner, howner, hbelow⟩ := h.fields field.id hkey
    obtain rfl := IndexMap.value_unique howner hfamily
    exact hbelow.ne hid

theorem family_notMem (h : Wf shape) (hadmits : shape.Admits (.family log)) :
    log.id ∉ shape.fieldFamilies.repo.keys := by
  obtain ⟨hid, hmax⟩ := hadmits
  rw [hid] at hmax ⊢
  exact h.families.nextId_notMem hmax

theorem growFamily (h : Wf shape) (hadmits : shape.Admits (.family log)) :
    Wf (shape.growFamily log) := by
  have hnew := h.family_notMem hadmits
  refine { h with families := ?_, fields := ?_ }
  · exact h.families.put rfl (Repository.lt_nextIdAfter (.inl hadmits.2))
      (Repository.le_nextIdAfter _) (Repository.nextIdAfter_le h.families.nextId_le)
  · intro id hkey
    obtain ⟨family, hfamily, hbelow⟩ := h.fields id hkey
    exact ⟨family, (IndexMap.mem_entries_insert_of_notMem hnew).mpr (.inr hfamily), hbelow⟩

theorem mem_keys_put {columns : ColumnSet} {column : ColumnDefinition} {id : ColumnIdentifier} :
    id ∈ (columns.put column).repo.keys ↔ id = column.id ∨ id ∈ columns.repo.keys :=
  IndexMap.mem_keys_insert

theorem growTimestamp (h : Wf shape) {timestamp : TimestampColumn}
    (hadmits : shape.Admits (.column (.timestamp timestamp))) :
    Wf (shape.growColumn (.timestamp timestamp)) := by
  refine { h with
    columns := h.columns.put (h.new_of_admits hadmits), timestamp := ?_, tags := ?_, fields := ?_ }
  · intro entry _ _ hnone
    cases hnone
  · intro id hid
    simp only [growColumn, mem_keys_put, ColumnDefinition.id, reduceCtorEq, false_or] at hid
    exact h.tags id hid
  · intro id hid
    simp only [growColumn, mem_keys_put, ColumnDefinition.id, reduceCtorEq, false_or] at hid
    exact h.fields id hid

theorem growTag (h : Wf shape)
    (hadmits : shape.Admits (.column (.tag tag))) : Wf (shape.growColumn (.tag tag)) := by
  have hnew := h.new_of_admits hadmits
  obtain ⟨_, _, _, hnext⟩ := hadmits
  have hid := h.tag_id_eq_length hnext
  obtain ⟨hnextId, hlimit, htime, _⟩ := hnext
  have hfresh : tag.id ∉ shape.tagColumns.repo.keys := by
    intro hkey
    exact (h.tags tag.id (.inl hkey)).ne hid
  have hkeys : (shape.tagColumns.put tag.id tag (shape.tagColumns.nextIdAfter tag.id)).repo.keys =
      shape.tagColumns.repo.keys ++ [tag.id] := IndexMap.keys_insert_of_notMem hfresh
  refine { h with
    columns := h.columns.put hnew, timestamp := ?_, tags := ?_, tag_next := ?_, fields := ?_ }
  · intro entry hentry htimestamp
    rcases (IndexMap.mem_entries_insert_of_notMem hnew.id).mp hentry with rfl | hold
    · exact absurd htimestamp (by simp [ColumnDefinition.id, ColumnDefinition.name, htime])
    · exact h.timestamp entry hold htimestamp
  · intro id hmem
    simp only [growColumn, hkeys, mem_keys_put, ColumnDefinition.id, mem_append, mem_singleton,
      ColumnIdentifier.tag.injEq, length_append, length_singleton] at hmem ⊢
    have hbelow := h.tags id
    grind
  · have hmax : maxId TagColumn + 1 = numTagColumnsLimit := rfl
    rw [growColumn, hkeys, length_append, length_singleton]
    simp only [Repository.put, Repository.nextIdAfter, ← hnextId]
    split <;> omega
  · intro id hmem
    simp only [growColumn, mem_keys_put, ColumnDefinition.id, reduceCtorEq, false_or] at hmem
    exact h.fields id hmem

variable {field : FieldColumn}

/-- A family with another field keeps its identifier and its name. -/
theorem families_addField (h : Wf shape) {family : FieldFamilyDefinition}
    (hfamily : (field.id.family, family) ∈ shape.fieldFamilies.repo.entries) :
    Repository.Listed { shape.fieldFamilies with
      repo := shape.fieldFamilies.repo.insert field.id.family (addField family field) } where
  named := by
    intro id name hpair
    obtain ⟨other, hmem, hother⟩ := h.families.named id name hpair
    by_cases hsame : id = field.id.family
    · subst hsame
      obtain rfl := IndexMap.value_unique hmem hfamily
      exact ⟨_, IndexMap.mem_entries_insert_self, hother⟩
    · exact ⟨other, IndexMap.mem_entries_insert.mpr (.inr ⟨hmem, hsame⟩), hother⟩
  ids := IndexMap.forall_entries_insert (h.families.ids (_, family) hfamily) h.families.ids
  next := IndexMap.forall_entries_insert (h.families.next (_, family) hfamily) h.families.next
  nextId_le := h.families.nextId_le

theorem growField (h : Wf shape)
    (hadmits : shape.Admits (.column (.field field))) : Wf (shape.growColumn (.field field)) := by
  have hnew := h.new_of_admits hadmits
  obtain ⟨_, _, _, family, hfamily, hid, hmax, htime, _⟩ := hadmits
  have hnextId : (addField family field).fields.nextId = field.id.field + 1 := by
    simp [addField, Repository.put, Repository.nextIdAfter, ← hid, hmax]
  simp only [growColumn, Repository.getById_eq_some.mpr hfamily]
  refine { h with
    columns := h.columns.put hnew, families := h.families_addField hfamily, timestamp := ?_
    tags := ?_, fields := ?_ }
  · intro entry hentry htimestamp
    rcases (IndexMap.mem_entries_insert_of_notMem hnew.id).mp hentry with rfl | hold
    · exact absurd htimestamp (by simp [ColumnDefinition.id, ColumnDefinition.name, htime])
    · exact h.timestamp entry hold htimestamp
  · intro id hmem
    simp only [mem_keys_put, ColumnDefinition.id, reduceCtorEq, false_or] at hmem
    exact h.tags id hmem
  · intro id hmem
    by_cases hsame : id.family = field.id.family
    · refine ⟨addField family field, IndexMap.mem_entries_insert.mpr (.inl (by rw [hsame])), ?_⟩
      rw [hnextId]
      simp only [mem_keys_put, ColumnDefinition.id, ColumnIdentifier.field.injEq] at hmem
      rcases hmem with rfl | hold
      · exact Nat.lt_succ_self _
      · obtain ⟨owner, howner, hbelow⟩ := h.fields id hold
        rw [hsame] at howner
        obtain rfl := IndexMap.value_unique howner hfamily
        omega
    · simp only [mem_keys_put, ColumnDefinition.id, ColumnIdentifier.field.injEq] at hmem
      obtain ⟨owner, howner, hbelow⟩ := h.fields id (hmem.resolve_left fun heq => hsame (heq ▸ rfl))
      exact ⟨owner, IndexMap.mem_entries_insert.mpr (.inr ⟨howner, hsame⟩), hbelow⟩

theorem grow (h : Wf shape) (hadmits : shape.Admits growth) : Wf (shape.grow growth) := by
  cases growth with
  | family log => exact h.growFamily hadmits
  | column definition =>
    cases definition with
    | timestamp timestamp => exact h.growTimestamp hadmits
    | tag tag => exact h.growTag hadmits
    | field field => exact h.growField hadmits

theorem growAll (h : Wf shape) (hadmits : shape.AdmitsAll growths) :
    Wf (shape.growAll growths) := by
  induction growths generalizing shape with
  | nil => exact h
  | cons growth rest ih => exact ih (h.grow hadmits.1) hadmits.2

end Wf

theorem growAll_append : shape.growAll (growths ++ rest) = (shape.growAll growths).growAll rest :=
  foldl_append

theorem admitsAll_append :
    shape.AdmitsAll (growths ++ rest) ↔
      shape.AdmitsAll growths ∧ (shape.growAll growths).AdmitsAll rest := by
  induction growths generalizing shape with
  | nil => simp [AdmitsAll, growAll]
  | cons growth tail ih =>
    rw [cons_append, AdmitsAll, AdmitsAll, ih, and_assoc]
    rfl

theorem growAll_table (shape : TableShape) (growths : List Growth) :
    (shape.growAll growths).tableId = shape.tableId ∧
      (shape.growAll growths).tableName = shape.tableName := by
  induction growths generalizing shape with
  | nil => exact ⟨rfl, rfl⟩
  | cons growth rest ih =>
    have hsame : (shape.grow growth).tableId = shape.tableId ∧
        (shape.grow growth).tableName = shape.tableName := by
      unfold grow growFamily growColumn
      repeat' split
      all_goals exact ⟨rfl, rfl⟩
    have hrest := ih (shape.grow growth)
    exact ⟨hrest.1.trans hsame.1, hrest.2.trans hsame.2⟩

theorem columns_growColumn (hadmits : shape.Admits (.column column)) :
    (shape.growColumn column).columns = shape.columns.put column := by
  cases column with
  | timestamp timestamp => rfl
  | tag tag => rfl
  | field field =>
    obtain ⟨_, _, _, family, hmem, _⟩ := hadmits
    simp only [growColumn, Repository.getById_eq_some.mpr hmem]

variable {entry : ColumnIdentifier × ColumnDefinition}

theorem mem_columns_grow (h : Wf shape) (hadmits : shape.Admits growth)
    (hentry : entry ∈ shape.columns.repo.entries) :
    entry ∈ (shape.grow growth).columns.repo.entries := by
  cases growth with
  | family log => exact hentry
  | column column =>
    rw [grow, columns_growColumn hadmits]
    exact (IndexMap.mem_entries_insert_of_notMem (h.new_of_admits hadmits).id).mpr (.inr hentry)

theorem mem_columns_growAll (h : Wf shape) (hadmits : shape.AdmitsAll growths)
    (hentry : entry ∈ shape.columns.repo.entries) :
    entry ∈ (shape.growAll growths).columns.repo.entries := by
  induction growths generalizing shape with
  | nil => exact hentry
  | cons growth rest ih =>
    exact ih (h.grow hadmits.1) hadmits.2 (mem_columns_grow h hadmits.1 hentry)

/-- What an addition brings is not there yet. -/
def Lacks (shape : TableShape) : Growth → Prop
  | .family log => log.id ∉ shape.fieldFamilies.repo.keys
  | .column definition => definition.id ∉ shape.columns.repo.keys

theorem Lacks.of_grow {other : Growth} (hlacks : (shape.grow growth).Lacks other) :
    shape.Lacks other := by
  cases other with
  | family log =>
    intro hkey
    apply hlacks
    simp only [grow, growFamily, growColumn]
    repeat' split
    all_goals simp [Repository.put, IndexMap.mem_keys_insert, hkey]
  | column column =>
    intro hkey
    apply hlacks
    simp only [grow, growFamily, growColumn]
    repeat' split
    all_goals simp [ColumnSet.put, IndexMap.mem_keys_insert, hkey]

theorem AdmitsAll.lacks (h : Wf shape) (hadmits : shape.AdmitsAll growths) :
    ∀ growth ∈ growths, shape.Lacks growth := by
  induction growths generalizing shape with
  | nil => simp
  | cons first rest ih =>
    intro growth hgrowth
    rcases mem_cons.mp hgrowth with rfl | htail
    · cases growth with
      | family log => exact h.family_notMem hadmits.1
      | column column => exact (h.new_of_admits hadmits.1).id
    · exact (ih (h.grow hadmits.1) hadmits.2 growth htail).of_grow

end TableShape

end RefluxDb.Catalog
