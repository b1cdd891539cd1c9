import RefluxDb.Catalog.TableGrowth

/-! A log entry repeats on its table what a transaction did to a copy of it.

The transaction met families and columns in some order; the entry lists the families before the
columns. A family can be moved before a column, because a column's family is there before the
column, so the entry is accepted and leads to the same shape, up to the order of the columns. -/

namespace RefluxDb.Catalog

open List RefluxDb.Library

namespace TableShape

variable {shape : TableShape} {log : FieldFamilyDefinitionLog} {column : ColumnDefinition}

/-- A family that is added after a column could have been added before it. -/
theorem Admits.exchange (h : Wf shape) (hcolumn : shape.Admits (.column column))
    (hfamily : (shape.growColumn column).Admits (.family log)) :
    shape.Admits (.family log) ∧ (shape.growFamily log).Admits (.column column) ∧
      (shape.growFamily log).growColumn column = (shape.growColumn column).growFamily log := by
  obtain ⟨hord, hlt, hname, hnext⟩ := hcolumn
  cases column with
  | timestamp timestamp => exact ⟨hfamily, ⟨hord, hlt, hname, hnext⟩, rfl⟩
  | tag tag => exact ⟨hfamily, ⟨hord, hlt, hname, hnext⟩, rfl⟩
  | field field =>
    obtain ⟨family, hmem, hnextField⟩ := hnext
    have hget : shape.fieldFamilies.getById field.id.family = some family :=
      Repository.getById_eq_some.mpr hmem
    have hself : shape.Admits (.family log) := by
      simp only [growColumn, hget] at hfamily
      exact hfamily
    have hnew := h.family_notMem hself
    have hkept : (field.id.family, family) ∈
        (shape.growFamily log).fieldFamilies.repo.entries :=
      (IndexMap.mem_entries_insert_of_notMem hnew).mpr (.inr hmem)
    refine ⟨hself, ⟨hord, hlt, hname, family, hkept, hnextField⟩, ?_⟩
    have hcomm := IndexMap.insert_insert_comm (v := addField family field) (w := log.definition)
      (IndexMap.mem_keys_of_mem hmem) hnew
    simp only [growColumn, hget, Repository.getById_eq_some.mpr hkept]
    simp only [growFamily, Repository.put, Repository.nextIdAfter, hcomm]

/-- A family can be moved before all columns. -/
theorem AdmitsAll.family_first {columns : List ColumnDefinition} (h : Wf shape)
    (hadmits : shape.AdmitsAll (columns.map .column))
    (hfamily : (shape.growAll (columns.map .column)).Admits (.family log)) :
    shape.AdmitsAll (.family log :: columns.map .column) ∧
      shape.growAll (.family log :: columns.map .column) =
        (shape.growAll (columns.map .column)).growFamily log := by
  induction columns generalizing shape with
  | nil => exact ⟨⟨hfamily, trivial⟩, rfl⟩
  | cons column rest ih =>
    obtain ⟨hcolumn, hrest⟩ := hadmits
    obtain ⟨⟨hafter, hadmits⟩, hgrown⟩ := ih (h.grow hcolumn) hrest hfamily
    obtain ⟨hbefore, hmoved, heq⟩ := hcolumn.exchange h hafter
    refine ⟨⟨hbefore, hmoved, ?_⟩, ?_⟩
    · exact (congrArg (AdmitsAll · (rest.map .column)) heq).mpr hadmits
    · exact (congrArg (growAll · (rest.map .column)) heq).trans hgrown

def sort (shape : TableShape) : TableShape := { shape with columns := shape.columns.sortByName }

theorem Wf.sort (h : Wf shape) : Wf shape.sort := by
  have hmem : ∀ entry, entry ∈ shape.sort.columns.repo.entries ↔
      entry ∈ shape.columns.repo.entries := fun _ => IndexMap.mem_entries_sortByKey
  have hkeys : ∀ id, id ∈ shape.sort.columns.repo.keys ↔ id ∈ shape.columns.repo.keys := by
    intro id
    simp only [IndexMap.mem_keys, hmem]
  refine { h with columns := ?_, timestamp := ?_, tags := ?_, fields := ?_ }
  · exact {
      ids := fun entry hentry => h.columns.ids entry ((hmem entry).mp hentry)
      names := fun id name => (h.columns.names id name).trans (by simp only [hmem])
      ordIds := fun id ordId => (h.columns.ordIds id ordId).trans (by simp only [hmem])
      next := fun entry hentry => h.columns.next entry ((hmem entry).mp hentry)
      nextId_le := h.columns.nextId_le }
  · exact fun entry hentry => h.timestamp entry ((hmem entry).mp hentry)
  · exact fun id hid => h.tags id (hid.imp_right (hkeys _).mp)
  · exact fun id hid => h.fields id ((hkeys _).mp hid)

end TableShape

namespace TableDefinition

open TableShape

def shape (table : TableDefinition) : TableShape where
  tableId := table.tableId
  tableName := table.tableName
  columns := table.columns
  timestampColumn := table.timestampColumn
  tagColumns := table.tagColumns
  fieldFamilies := table.fieldFamilies

/-- The table's columns are numbered in order. -/
def Sound (table : TableDefinition) : Prop := table.shape.Wf

variable {table : TableDefinition} {log : FieldFamilyDefinitionLog} {column : ColumnDefinition}
variable {logs : List FieldFamilyDefinitionLog} {columns : List ColumnDefinition}

theorem insertFamily_of_admits (h : table.Sound) (hadmits : table.shape.Admits (.family log)) :
    ∃ updated, table.insertFamily log = .ok updated ∧
      updated.shape = table.shape.growFamily log := by
  have hinsert : table.fieldFamilies.insert log.id log.definition = .ok
      (table.fieldFamilies.put log.id log.definition (table.fieldFamilies.nextIdAfter log.id)) :=
    h.families.insert_of_notMem (h.family_notMem hadmits)
  exact ⟨_, by rw [insertFamily, hinsert]; rfl, rfl⟩

theorem addColumn_of_admits (h : table.Sound) (hadmits : table.shape.Admits (.column column)) :
    ∃ updated, table.addColumn column = .ok updated ∧
      updated.shape = table.shape.growColumn column := by
  have hnew := h.new_of_admits hadmits
  have hinsert : table.columns.insert column = .ok (table.columns.put column) :=
    h.columns.insert_of_new hnew
  have hname : table.columns.containsName column.name = false := hnew.name
  obtain ⟨_, _, _, hnext⟩ := hadmits
  cases column with
  | timestamp timestamp =>
    have hnone : table.timestampColumn = none := hnext
    simp [addColumn, hname, hinsert, hnone, Fallible.ensure, bind, Except.bind, pure, Except.pure]
    rfl
  | tag tag =>
    have htag : table.tagColumns.insert tag.id tag = .ok
        (table.tagColumns.put tag.id tag (table.tagColumns.nextIdAfter tag.id)) := hnext.2.2.2
    simp [addColumn, hname, hinsert, htag, Fallible.ensure, Fallible.unwrap, bind, Except.bind,
      pure, Except.pure]
    rfl
  | field field =>
    obtain ⟨family, hmem, _, _, _, hfield⟩ := hnext
    have hget : table.fieldFamilies.getById field.id.family = some family :=
      Repository.getById_eq_some.mpr hmem
    have hget' : table.shape.fieldFamilies.getById field.id.family = some family := hget
    simp [addColumn, hname, hinsert, hget, hfield, Fallible.ensure, Fallible.unwrap,
      Fallible.expect, bind, Except.bind, pure, Except.pure]
    simp only [growColumn, hget']
    rfl

/-- Additions of one kind, one after the other. -/
theorem foldlM_of_admits {α : Type} {add : TableDefinition → α → Result TableDefinition}
    {growth : α → Growth} (hadd : ∀ table item, table.Sound → table.shape.Admits (growth item) →
      ∃ updated, add table item = .ok updated ∧ updated.shape = table.shape.grow (growth item))
    {items : List α} (h : table.Sound) (hadmits : table.shape.AdmitsAll (items.map growth)) :
    ∃ updated, items.foldlM add table = .ok updated ∧
      updated.shape = table.shape.growAll (items.map growth) := by
  induction items generalizing table with
  | nil => exact ⟨table, rfl, rfl⟩
  | cons item rest ih =>
    obtain ⟨hitem, hrest⟩ := hadmits
    obtain ⟨next, hok, hshape⟩ := hadd table item h hitem
    have hsound : next.Sound := by
      rw [Sound, hshape]
      exact h.grow hitem
    obtain ⟨updated, hfold, hgrown⟩ := ih hsound (by rwa [hshape])
    refine ⟨updated, ?_, by rw [hgrown, hshape]; rfl⟩
    rw [foldlM_cons, hok]
    exact hfold

theorem foldlM_newColumn {acc : List ColumnDefinition}
    (hnew : ∀ column ∈ columns, column.id ∉ table.columns.repo.keys) :
    columns.foldlM table.newColumn acc = .ok (acc ++ columns) := by
  induction columns generalizing acc with
  | nil => simp
  | cons column rest ih =>
    have hget : table.columns.getById column.id = none :=
      IndexMap.get_eq_none.mpr (hnew column mem_cons_self)
    rw [foldlM_cons]
    simp only [newColumn, hget]
    rw [pure_bind, ih fun other hother => hnew other (mem_cons_of_mem _ hother),
      append_assoc, singleton_append]

theorem updateFieldFamilies_of_admits (h : table.Sound)
    (hadmits : table.shape.AdmitsAll (logs.map .family)) :
    ∃ updated, table.updateFieldFamilies logs = .ok (updated, !logs.isEmpty) ∧
      updated.shape = table.shape.growAll (logs.map .family) := by
  have hnew : logs.filter (fun log => !table.fieldFamilies.containsId log.id) = logs := by
    rw [filter_eq_self]
    intro log hlog
    have hlacks : log.id ∉ table.fieldFamilies.repo.keys :=
      hadmits.lacks h _ (mem_map_of_mem hlog)
    simp [Repository.containsId, hlacks]
  obtain ⟨updated, hok, hshape⟩ :=
    foldlM_of_admits (fun _ _ => insertFamily_of_admits) h hadmits
  exact ⟨updated, by rw [updateFieldFamilies, hnew, hok]; rfl, hshape⟩

theorem addColumnsImpl_of_admits (h : table.Sound)
    (hadmits : table.shape.AdmitsAll (columns.map .column)) :
    ∃ updated, table.addColumnsImpl columns = .ok updated ∧
      updated.shape = (table.shape.growAll (columns.map .column)).sort := by
  obtain ⟨grown, hok, hshape⟩ := foldlM_of_admits (fun _ _ => addColumn_of_admits) h hadmits
  rw [addColumnsImpl, hok, ← hshape]
  cases columns.any ColumnDefinition.isKey with
  | true => exact ⟨_, rfl, rfl⟩
  | false => exact ⟨_, rfl, rfl⟩

theorem updateColumns_of_admits (h : table.Sound)
    (hadmits : table.shape.AdmitsAll (columns.map .column)) :
    ∃ updated, table.updateColumns columns = .ok (updated, !columns.isEmpty) ∧
      updated.Sound ∧ updated.tableId = table.tableId ∧ updated.tableName = table.tableName ∧
      ∀ entry, entry ∈ updated.columns.repo.entries ↔
        entry ∈ (table.shape.growAll (columns.map .column)).columns.repo.entries := by
  cases columns with
  | nil => exact ⟨table, rfl, h, rfl, rfl, fun _ => Iff.rfl⟩
  | cons column rest =>
    have hnew : (column :: rest).foldlM table.newColumn [] = .ok (column :: rest) :=
      foldlM_newColumn fun _ hcolumn => hadmits.lacks h _ (mem_map_of_mem hcolumn)
    obtain ⟨updated, hok, hshape⟩ := addColumnsImpl_of_admits h hadmits
    obtain ⟨hid, hname⟩ := growAll_table table.shape ((column :: rest).map .column)
    refine ⟨updated, ?_, ?_, ?_, ?_, ?_⟩
    · rw [updateColumns, hnew]
      simp only [bind, Except.bind, isEmpty_cons, hok]
      rfl
    · rw [Sound, hshape]
      exact (h.growAll hadmits).sort
    · exact (congrArg TableShape.tableId hshape).trans hid
    · exact (congrArg TableShape.tableName hshape).trans hname
    · intro entry
      change entry ∈ updated.shape.columns.repo.entries ↔ _
      rw [hshape]
      exact IndexMap.mem_entries_sortByKey

/-- A log entry made from what a transaction added to a copy of the table is accepted, and gives the
table the columns the transaction gave the copy. -/
theorem addFamiliesAndColumns_of_admits (h : table.Sound)
    (hadmits : table.shape.AdmitsAll (logs.map .family ++ columns.map .column)) :
    ∃ updated, table.addFamiliesAndColumns logs columns =
        .ok (updated, !logs.isEmpty || !columns.isEmpty) ∧
      updated.Sound ∧ updated.tableId = table.tableId ∧ updated.tableName = table.tableName ∧
      ∀ entry, entry ∈ updated.columns.repo.entries ↔ entry ∈
        (table.shape.growAll (logs.map .family ++ columns.map .column)).columns.repo.entries := by
  obtain ⟨hfamilies, hcolumns⟩ := admitsAll_append.mp hadmits
  obtain ⟨grown, hok, hshape⟩ := updateFieldFamilies_of_admits h hfamilies
  have hsound : grown.Sound := by
    rw [Sound, hshape]
    exact h.growAll hfamilies
  obtain ⟨updated, hadded, hupdated, hid, hname, hentries⟩ :=
    updateColumns_of_admits hsound (by rwa [hshape])
  have hsame : grown.tableId = table.tableId ∧ grown.tableName = table.tableName := by
    have htable := growAll_table table.shape (logs.map .family)
    rw [← hshape] at htable
    exact htable
  refine ⟨updated, ?_, hupdated, hid.trans hsame.1, hname.trans hsame.2, ?_⟩
  · rw [addFamiliesAndColumns, hok]
    simp only [bind, Except.bind, hadded]
    rfl
  · rw [growAll_append, ← hshape]
    exact hentries

namespace Sound

theorem newEmpty (tableId : Nat) (tableName : String) (mode : FieldFamilyMode) :
    (newEmpty tableId tableName mode).Sound :=
  .empty tableId tableName

theorem of_shape_eq {other : TableDefinition} (h : table.Sound)
    (hshape : other.shape = table.shape) : other.Sound := by
  rw [Sound, hshape]
  exact h

end Sound

end TableDefinition

end RefluxDb.Catalog
