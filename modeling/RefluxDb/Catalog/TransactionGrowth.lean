import RefluxDb.Catalog.TableReplay
import RefluxDb.Catalog.Transaction

/-! What a transaction does to its copy of a table is a run of elementary additions, and its lists
of families and columns hold what they added. -/

namespace RefluxDb.Catalog

open RefluxDb.Library Fallible
open CatalogResource (maxId)

section Taking

variable {column : ColumnDefinition}

/-- A column that takes the next ordinal and is inserted. -/
theorem ColumnSet.put_of_take {columns taken inserted : ColumnSet}
    (htake : columns.getAndIncrementNextId = .ok (column.ordId, taken))
    (hinsert : taken.insert column = .ok inserted) :
    column.ordId = columns.nextId ∧ column.ordId < ColumnSet.maxColumnId ∧
      inserted = columns.put column := by
  simp only [getAndIncrementNextId, bind_eq_ok, ensure_eq_ok, decide_eq_true_eq,
    pure_eq_ok, Prod.mk.injEq, exists_const] at htake
  obtain ⟨hlt, hord, rfl⟩ := htake
  simp only [ColumnSet.insert, bind_eq_ok, ensure_eq_ok, pure_eq_ok,
    exists_const] at hinsert
  obtain ⟨_, _, _, _, rfl⟩ := hinsert
  refine ⟨hord.symm, hord ▸ hlt, ?_⟩
  simp [put, ← hord]

variable {ρ : Type} [CatalogResource ρ] {r taken inserted : Repository ρ} {id : Nat} {resource : ρ}

/-- A resource that takes the next identifier and is inserted. -/
theorem Repository.put_of_take (htake : r.getAndIncrementNextId = .ok (id, taken))
    (hinsert : taken.insert id resource = .ok inserted) :
    id = r.nextId ∧ id < maxId ρ ∧ inserted = r.put id resource (r.nextIdAfter id) ∧
      r.insert id resource = .ok inserted := by
  rw [getAndIncrementNextId_eq_ok] at htake
  obtain ⟨hlt, rfl, rfl⟩ := htake
  obtain ⟨hleft, hname, rfl⟩ := insert_eq_ok.mp hinsert
  have hput : r.put r.nextId resource (r.nextIdAfter r.nextId) =
      Repository.put { r with nextId := r.nextId + 1 } r.nextId resource
        (nextIdAfter { r with nextId := r.nextId + 1 } r.nextId) := by
    simp [put, nextIdAfter, hlt]
  exact ⟨rfl, hlt, hput.symm, insert_eq_ok.mpr ⟨hleft, hname, hput⟩⟩

end Taking

variable {name : String}

theorem TableDefinition.checkName_eq_ok {table : TableDefinition} {u : Unit} :
    table.checkName name = .ok u ↔
      name ∉ reservedColumnNames ∧ table.columnDefinition name = none := by
  unfold checkName
  cases table.columnDefinition name <;> simp

theorem timeColumnName_reserved (hname : name ∉ reservedColumnNames) :
    name ≠ timeColumnName := by
  rintro rfl
  exact hname (by decide)

namespace TableTransaction

/-- `tx'` is `tx` after one addition, to the copy and to its list. -/
structure Adds (tx : TableTransaction) (growth : Growth) (tx' : TableTransaction) : Prop where
  admits : tx.table.shape.Admits growth
  shape : tx'.table.shape = tx.table.shape.grow growth
  listed : match growth with
    | .family log => tx'.fieldFamilyDefinitions = tx.fieldFamilyDefinitions ++ [log] ∧
        tx'.columnDefinitions = tx.columnDefinitions
    | .column column => tx'.fieldFamilyDefinitions = tx.fieldFamilyDefinitions ∧
        tx'.columnDefinitions = tx.columnDefinitions ++ [column]

/-- The additions, in the order in which they are logged. -/
def additions (tx : TableTransaction) : List Growth :=
  tx.fieldFamilyDefinitions.map .family ++ tx.columnDefinitions.map .column

/-- The transaction's copy is the base table after the additions. -/
structure Tracks (base : TableDefinition) (tx : TableTransaction) : Prop where
  sound : base.Sound
  admits : base.shape.AdmitsAll tx.additions
  shape : tx.table.shape = base.shape.growAll tx.additions

variable {base : TableDefinition} {tx tx' : TableTransaction} {growth : Growth} {name : String}

theorem tracks_start (hbase : base.Sound) (columnLimit : Nat) :
    Tracks base { table := base, columnLimit := columnLimit } where
  sound := hbase
  admits := trivial
  shape := rfl

namespace Tracks

theorem wf (h : Tracks base tx) : tx.table.shape.Wf := by
  rw [h.shape]
  exact h.sound.growAll h.admits

theorem table (h : Tracks base tx) :
    tx.table.tableId = base.tableId ∧ tx.table.tableName = base.tableName := by
  have hsame := TableShape.growAll_table base.shape tx.additions
  rw [← h.shape] at hsame
  exact hsame

/-- A family is logged before the columns that were added before it. -/
theorem add (h : Tracks base tx) (hadds : Adds tx growth tx') : Tracks base tx' := by
  obtain ⟨hfirst, hcolumns⟩ := TableShape.admitsAll_append.mp h.admits
  have hshape := h.shape
  rw [additions, TableShape.growAll_append] at hshape
  cases growth with
  | column column =>
    have hadditions : tx'.additions = tx.additions ++ [.column column] := by
      simp [additions, hadds.listed.1, hadds.listed.2]
    refine ⟨h.sound, ?_, ?_⟩
    · rw [hadditions]
      exact TableShape.admitsAll_append.mpr ⟨h.admits, h.shape ▸ hadds.admits, trivial⟩
    · rw [hadditions, TableShape.growAll_append, ← h.shape]
      exact hadds.shape
  | family log =>
    have hadditions : tx'.additions = tx.fieldFamilyDefinitions.map .family ++
        (.family log :: tx.columnDefinitions.map .column) := by
      simp [additions, hadds.listed.1, hadds.listed.2]
    obtain ⟨hadmits, hgrown⟩ := TableShape.AdmitsAll.family_first (h.sound.growAll hfirst) hcolumns
      (hshape ▸ hadds.admits)
    refine ⟨h.sound, ?_, ?_⟩
    · rw [hadditions]
      exact TableShape.admitsAll_append.mpr ⟨hfirst, hadmits⟩
    · rw [hadditions, TableShape.growAll_append, hgrown, ← hshape]
      exact hadds.shape

end Tracks

section Additions

variable (hwf : tx.table.shape.Wf)
variable {tagColumn : TagColumn} {timestampColumn : TimestampColumn} {fieldColumn : FieldColumn}

include hwf in
theorem Adds.addTag (hadd : tx.addTag name = .ok (tagColumn, tx')) :
    Adds tx (.column (.tag tagColumn)) tx' := by
  simp only [TableTransaction.addTag, bind_eq_ok, pure_eq_ok, ensure_eq_ok, decide_eq_true_eq,
    exists_const, Prod.exists, unwrap_eq_ok, Prod.mk.injEq, TableDefinition.checkName_eq_ok] at hadd
  obtain ⟨_, _, hlimit, _, _, ⟨hreserved, hnone⟩, columnId, taken, htake, tagColumns, htags,
    columns, hcolumns, rfl, rfl⟩ := hadd
  obtain ⟨hord, hmax, rfl⟩ := ColumnSet.put_of_take htake hcolumns
  obtain ⟨hleft, hname, rfl⟩ := Repository.insert_eq_ok.mp htags
  let tag : TagColumn := ⟨tx.table.tagColumns.nextId, columnId, name⟩
  -- the identifier is passed before the tag is inserted, or is the largest
  have hput : tx.table.tagColumns.put tag.id tag (tx.table.tagColumns.nextIdAfter tag.id) =
      Repository.put { tx.table.tagColumns with
        nextId := if tag.id < maxId TagColumn then tag.id + 1 else tag.id } tag.id tag
        (Repository.nextIdAfter { tx.table.tagColumns with
          nextId := if tag.id < maxId TagColumn then tag.id + 1 else tag.id } tag.id) := by
    by_cases hlast : tx.table.tagColumns.nextId < maxId TagColumn
    · simp [Repository.put, Repository.nextIdAfter, hlast, tag]
    · simp [Repository.put, Repository.nextIdAfter, hlast, tag]
  refine ⟨⟨hord, hmax, hwf.columns.getByName_eq_none.mp hnone, rfl, ?_,
    timeColumnName_reserved hreserved, ?_⟩, ?_, rfl, rfl⟩
  · rw [IndexMap.keys, List.length_map]
    exact hlimit
  · exact Repository.insert_eq_ok.mpr ⟨hleft, hname, rfl⟩
  · rw [TableShape.grow]
    exact congrArg (fun tags => ({ tx.table.shape with
      columns := tx.table.columns.put (.tag tag), tagColumns := tags } : TableShape)) hput.symm

include hwf in
theorem Adds.addTime (hadd : tx.addTime = .ok (timestampColumn, tx')) :
    Adds tx (.column (.timestamp timestampColumn)) tx' := by
  simp only [TableTransaction.addTime, bind_eq_ok, pure_eq_ok, ensure_eq_ok, exists_const,
    Prod.exists, unwrap_eq_ok, Prod.mk.injEq, Option.isNone_iff_eq_none] at hadd
  obtain ⟨hnone, columnId, taken, htake, columns, hcolumns, rfl, rfl⟩ := hadd
  obtain ⟨hord, hmax, rfl⟩ := ColumnSet.put_of_take htake hcolumns
  -- only the timestamp is called `time`, and there is none
  have hfree : tx.table.columns.containsName timeColumnName = false := by
    rw [← Bool.not_eq_true]
    intro hcontains
    obtain ⟨entry, hmem, hname⟩ := hwf.columns.containsName_iff.mp hcontains
    exact hwf.timestamp entry hmem (.inr hname) hnone
  exact ⟨⟨hord, hmax, hfree, hnone⟩, rfl, rfl, rfl⟩

/-- A new family takes the next identifier, whatever its name. -/
theorem Adds.newFamily {id : Nat} {familyName : FieldFamilyName}
    (hnew : tx.newFamily familyName = .ok (id, tx')) :
    Adds tx (.family { id := id, name := familyName }) tx' ∧
      tx'.table.columns = tx.table.columns := by
  simp only [TableTransaction.newFamily, bind_eq_ok, pure_eq_ok, Prod.exists, unwrap_eq_ok,
    Prod.mk.injEq] at hnew
  obtain ⟨_, taken, htake, families, hfamilies, rfl, rfl⟩ := hnew
  obtain ⟨hid, hmax, rfl, _⟩ := Repository.put_of_take htake hfamilies
  exact ⟨⟨⟨hid, hmax⟩, rfl, rfl, rfl⟩, rfl⟩

/-- Finding the family of a field adds at most one family. -/
theorem Adds.familyOf {id : Nat} (hfamily : tx.familyOf name = .ok (id, tx')) :
    tx' = tx ∨ ∃ log, Adds tx (.family log) tx' ∧ tx'.table.columns = tx.table.columns := by
  have hauto : tx.newAutoFamily = .ok (id, tx') →
      ∃ log, Adds tx (.family log) tx' ∧ tx'.table.columns = tx.table.columns := by
    intro hnew
    simp only [newAutoFamily, bind_eq_ok, Prod.exists, pure_eq_ok, Prod.mk.injEq] at hnew
    obtain ⟨_, added, hnew, rfl, rfl⟩ := hnew
    obtain ⟨hadds, hcolumns⟩ := Adds.newFamily hnew
    exact ⟨_, { hadds with }, hcolumns⟩
  unfold TableTransaction.familyOf at hfamily
  split at hfamily
  · unfold nextAutoFamilyId at hfamily
    split at hfamily
    · exact .inr (hauto hfamily)
    · simp only [bind_eq_ok] at hfamily
      obtain ⟨family, _, hfamily⟩ := hfamily
      split at hfamily
      · exact .inl (Prod.mk.inj (pure_eq_ok.mp hfamily)).2.symm
      · exact .inr (hauto hfamily)
  · split at hfamily
    · simp only [bind_eq_ok, pure_eq_ok, Prod.mk.injEq] at hfamily
      obtain ⟨_, _, _, rfl⟩ := hfamily
      exact .inl rfl
    · exact .inr ⟨_, Adds.newFamily hfamily⟩

variable {dataType : InfluxFieldType}

include hwf in
theorem Adds.addFieldTo {familyId : Nat}
    (hreserved : name ∉ reservedColumnNames) (hnone : tx.table.columnDefinition name = none)
    (hadd : tx.addFieldTo familyId name dataType = .ok (fieldColumn, tx')) :
    Adds tx (.column (.field fieldColumn)) tx' := by
  simp only [TableTransaction.addFieldTo, bind_eq_ok, pure_eq_ok, expect_eq_ok, Prod.exists,
    unwrap_eq_ok, Prod.mk.injEq, Repository.getById_eq_some] at hadd
  obtain ⟨family, hfamily, fieldId, takenFields, htakeField, columnId, taken, htake, fields,
    hfields, columns, hcolumns, rfl, rfl⟩ := hadd
  obtain ⟨hord, hmax, rfl⟩ := ColumnSet.put_of_take htake hcolumns
  obtain ⟨hid, hfieldMax, rfl, hinsert⟩ := Repository.put_of_take htakeField hfields
  obtain rfl : family.id = familyId := hwf.families.ids _ hfamily
  have hget : tx.table.shape.fieldFamilies.getById family.id = some family :=
    Repository.getById_eq_some.mpr hfamily
  refine ⟨⟨hord, hmax, hwf.columns.getByName_eq_none.mp hnone, family, hfamily, hid, hfieldMax,
    timeColumnName_reserved hreserved, hinsert⟩, ?_, rfl, rfl⟩
  simp only [TableShape.grow, TableShape.growColumn, hget]
  rfl

end Additions

/-- `tx'` is `tx` after more additions. -/
def Continues (tx tx' : TableTransaction) : Prop :=
  ∀ base, Tracks base tx → Tracks base tx' ∧
    ∀ entry ∈ tx.table.columns.repo.entries, entry ∈ tx'.table.columns.repo.entries

/-- More additions, of which the last is a column. -/
def Makes (tx : TableTransaction) (column : ColumnDefinition) (tx' : TableTransaction) : Prop :=
  ∃ middle, Continues tx middle ∧
    (middle.table.shape.Wf → Adds middle (.column column) tx')

namespace Continues

theorem refl (tx : TableTransaction) : Continues tx tx :=
  fun _ h => ⟨h, fun _ hentry => hentry⟩

theorem trans {tx'' : TableTransaction} (hfirst : Continues tx tx')
    (hsecond : Continues tx' tx'') : Continues tx tx'' := by
  intro base h
  obtain ⟨hmiddle, hkept⟩ := hfirst base h
  obtain ⟨hlast, hmore⟩ := hsecond base hmiddle
  exact ⟨hlast, fun entry hentry => hmore entry (hkept entry hentry)⟩

theorem of_adds (hadds : tx.table.shape.Wf → Adds tx growth tx') : Continues tx tx' := by
  intro base h
  have hadded := hadds h.wf
  refine ⟨h.add hadded, fun entry hentry => ?_⟩
  have hkept := TableShape.mem_columns_grow h.wf hadded.admits hentry
  rw [← hadded.shape] at hkept
  exact hkept

theorem of_makes (hmakes : Makes tx column tx') : Continues tx tx' := by
  obtain ⟨middle, hfirst, hadds⟩ := hmakes
  exact hfirst.trans (.of_adds hadds)

end Continues

namespace Makes

theorem addTag {column : TagColumn} (hadd : tx.addTag name = .ok (column, tx')) :
    Makes tx (.tag column) tx' :=
  ⟨tx, .refl tx, fun hwf => .addTag hwf hadd⟩

theorem addTime {column : TimestampColumn} (hadd : tx.addTime = .ok (column, tx')) :
    Makes tx (.timestamp column) tx' :=
  ⟨tx, .refl tx, fun hwf => .addTime hwf hadd⟩

theorem addField {column : FieldColumn}
    (hadd : tx.addField name dataType = .ok (column, tx')) : Makes tx (.field column) tx' := by
  simp only [TableTransaction.addField, bind_eq_ok, Prod.exists,
    TableDefinition.checkName_eq_ok] at hadd
  obtain ⟨_, _, _, ⟨hreserved, hnone⟩, _, _, id, middle, hfamily, hadd⟩ := hadd
  rcases Adds.familyOf hfamily with rfl | ⟨log, hadds, hcolumns⟩
  · exact ⟨middle, .refl middle, fun hwf => .addFieldTo hwf hreserved hnone hadd⟩
  · rw [TableDefinition.columnDefinition, ← hcolumns] at hnone
    exact ⟨middle, .of_adds fun _ => hadds, fun hwf => .addFieldTo hwf hreserved hnone hadd⟩

variable {columnType : InfluxColumnType}

theorem columnOrCreate
    (hcall : tx.columnOrCreate name columnType = .ok (column, tx')) :
    (tx' = tx ∧ tx.table.columnDefinition name = some column) ∨ Makes tx column tx' := by
  unfold TableTransaction.columnOrCreate at hcall
  split at hcall
  · rename_i hfound
    split at hcall
    · obtain ⟨rfl, rfl⟩ := Prod.mk.inj (pure_eq_ok.mp hcall)
      exact .inl ⟨rfl, hfound⟩
    · exact (throw_eq_ok.mp hcall).elim
  · split at hcall <;>
      simp only [bind_eq_ok, Prod.exists, pure_eq_ok, Prod.mk.injEq] at hcall
    · obtain ⟨tag, _, hadd, rfl, rfl⟩ := hcall
      exact .inr (addTag hadd)
    · obtain ⟨field, _, hadd, rfl, rfl⟩ := hcall
      exact .inr (addField hadd)
    · obtain ⟨time, _, hadd, rfl, rfl⟩ := hcall
      exact .inr (addTime hadd)

end Makes

/-- The column that is returned is one of the copy's. -/
theorem Tracks.returned (h : Tracks base tx)
    (hcall : tx.columnOrCreate name columnType = .ok (column, tx')) :
    (column.id, column) ∈ tx'.table.columns.repo.entries := by
  rcases Makes.columnOrCreate hcall with ⟨rfl, hfound⟩ | ⟨middle, hfirst, hadds⟩
  · exact (h.wf.columns.getByName_eq_some.mp hfound).1
  · have hadded := hadds (hfirst base h).1.wf
    have hcolumns := congrArg TableShape.columns hadded.shape
    rw [TableShape.grow, TableShape.columns_growColumn hadded.admits] at hcolumns
    change _ ∈ tx'.table.shape.columns.repo.entries
    rw [hcolumns]
    exact IndexMap.mem_entries_insert_self

namespace Continues

theorem columnOrCreate
    (hcall : tx.columnOrCreate name columnType = .ok (column, tx')) : Continues tx tx' := by
  rcases Makes.columnOrCreate hcall with ⟨rfl, _⟩ | hmakes
  · exact .refl tx'
  · exact .of_makes hmakes

theorem timeOrCreate {column : TimestampColumn} (hcall : tx.timeOrCreate = .ok (column, tx')) :
    Continues tx tx' := by
  unfold TableTransaction.timeOrCreate at hcall
  split at hcall
  · exact (Prod.mk.inj (pure_eq_ok.mp hcall)).2 ▸ .refl tx
  · exact .of_makes (.addTime hcall)

theorem tagOrCreate {column : TagColumn} (hcall : tx.tagOrCreate name = .ok (column, tx')) :
    Continues tx tx' := by
  unfold TableTransaction.tagOrCreate at hcall
  split at hcall
  · exact (Prod.mk.inj (pure_eq_ok.mp hcall)).2 ▸ .refl tx
  · split at hcall
    · exact (throw_eq_ok.mp hcall).elim
    · exact .of_makes (.addTag hcall)

theorem fieldOrCreate {column : FieldColumn}
    (hcall : tx.fieldOrCreate name dataType = .ok (column, tx')) : Continues tx tx' := by
  unfold TableTransaction.fieldOrCreate at hcall
  split at hcall
  · exact .of_makes (.addField hcall)
  · split at hcall
    · exact (Prod.mk.inj (pure_eq_ok.mp hcall)).2 ▸ .refl tx
    · exact (throw_eq_ok.mp hcall).elim
  · exact (throw_eq_ok.mp hcall).elim

theorem addAll {columns : CreateTableColumns} (hadd : tx.addAll columns = .ok tx') :
    Continues tx tx' := by
  simp only [TableTransaction.addAll, bind_eq_ok, map_eq_ok, Prod.exists] at hadd
  obtain ⟨tagged, htags, filled, hfields, column, _, htime, rfl⟩ := hadd
  have htagged : Continues tx tagged := by
    refine foldlM_keeps (Continues tx) ?_ (.refl tx) htags
    intro s t tag _ hs ht
    simp only [map_eq_ok, Prod.exists] at ht
    obtain ⟨_, _, hadd, rfl⟩ := ht
    exact hs.trans (.of_makes (.addTag hadd))
  have hfilled : Continues tx filled := by
    refine foldlM_keeps (Continues tx) ?_ htagged hfields
    intro s t field _ hs ht
    simp only [map_eq_ok, Prod.exists] at ht
    obtain ⟨_, _, hadd, rfl⟩ := ht
    exact hs.trans (.of_makes (.addField hadd))
  exact hfilled.trans (.of_makes (.addTime htime))

end Continues

end TableTransaction

end RefluxDb.Catalog
