import RefluxDb.Catalog.BatchEffects
import RefluxDb.Catalog.TransactionBatch

/-! A transaction and the catalog agree on identifiers: once the transaction is committed, the
tables and columns it has returned are those of the database.

A transaction makes tables and columns on a copy of the schema as they are asked for; applying its
batch makes them again by other code. The catalogs considered are those that operations and writes
lead to from an empty one, on one server. -/

namespace RefluxDb.Catalog

open Option RefluxDb.Library Fallible
open CatalogResource (maxId)

namespace DatabaseCatalogTransaction

section Answers

/-- What a call returned: the identifier of a table, or a column of a table. -/
inductive Answer where
  | table (name : String) (id : Nat)
  | column (table : String) (definition : ColumnDefinition)
deriving DecidableEq

/-- What a call for a table or a column returns, if it does not fail. -/
def answer (txn : DatabaseCatalogTransaction) : Call → Option Answer
  | .tableOrCreate table => (txn.tableOrCreate table).toOption.map fun (id, _) => .table table id
  | .columnOrCreate table column columnType =>
    match txn.tableTransaction table with
    | .ok (some id, found) =>
      (found.tables.repo.get id).bind fun tx =>
        (tx.columnOrCreate column columnType).toOption.map fun (definition, _) =>
          .column table definition
    | _ => none
  | _ => none

def answers (txn : DatabaseCatalogTransaction) : List Call → List Answer
  | [] => []
  | call :: rest => (txn.answer call).toList ++ (txn.call call).answers rest

/-- The transaction has what it returned. -/
def Confirms (txn : DatabaseCatalogTransaction) : Answer → Prop
  | .table name id => (id, name) ∈ txn.tables.idNameMap.pairs
  | .column name column => ∃ id tx, (id, name) ∈ txn.tables.idNameMap.pairs ∧
      (id, tx) ∈ txn.tables.repo.entries ∧
      (column.id, column) ∈ tx.table.columns.repo.entries

variable {opening : List DatabaseCatalogOp} {creates : List CreateTableLog}
variable {txn later : DatabaseCatalogTransaction} {answer : Answer}

theorem Confirms.extend (h : txn.Confirms answer) (hextends : txn.Extends later) :
    later.Confirms answer := by
  cases answer with
  | table name id => exact hextends.pairs _ h
  | column name column =>
    obtain ⟨id, tx, hpair, htx, hcolumn⟩ := h
    obtain ⟨tx', htx', hcolumns⟩ := hextends.columns id tx htx
    exact ⟨id, tx', hextends.pairs _ hpair, htx', hcolumns _ hcolumn⟩

theorem Composed.confirms (h : Composed opening creates txn) (hschema : txn.databaseSchema.Sound)
    {call : Call} (hanswer : answer ∈ txn.answer call) : (txn.call call).Confirms answer := by
  cases call with
  | tableOrCreate table =>
    obtain ⟨⟨id, found⟩, hok, rfl⟩ := map_eq_some_iff.mp hanswer
    have hfound := toOption_eq_some.mp hok
    obtain ⟨⟨_, hcomposed⟩, _, hpair⟩ := h.tableOrCreate hschema hfound
    obtain ⟨_, hextends : found.Extends (found.updateTransaction id pure)⟩ :=
      hcomposed.updateTransaction fun tx tx' hpure => pure_eq_ok.mp hpure ▸ .refl tx
    simp only [DatabaseCatalogTransaction.call, DatabaseCatalogTransaction.onTable, hfound]
    exact hextends.pairs _ hpair
  | columnOrCreate table column columnType =>
    simp only [DatabaseCatalogTransaction.answer] at hanswer
    split at hanswer
    · rename_i id found hfound
      obtain ⟨tx, htx, hcolumn⟩ := bind_eq_some_iff.mp hanswer
      obtain ⟨⟨definition, tx'⟩, hok, rfl⟩ := map_eq_some_iff.mp hcolumn
      have hcall := toOption_eq_some.mp hok
      obtain ⟨hcomposed, _, hpair⟩ := h.tableTransaction hschema hfound
      obtain ⟨base, _, htracks⟩ := hcomposed.started _ (IndexMap.get_eq_some.mp htx)
      simp only [DatabaseCatalogTransaction.call, hfound,
        DatabaseCatalogTransaction.updateTransaction, htx, hcall]
      exact ⟨id, tx', hpair id rfl, IndexMap.mem_entries_insert_self,
        htracks.returned hcall⟩
    · cases hanswer
  | timeOrCreate _ | tagOrCreate _ _ | fieldOrCreate _ _ _ => cases hanswer

/-- After all calls the transaction is in order and has everything it returned. -/
theorem Composed.calls (calls : List Call) (h : Composed opening creates txn)
    (hschema : txn.databaseSchema.Sound) :
    (∃ creates, Composed opening creates (calls.foldl DatabaseCatalogTransaction.call txn)) ∧
      txn.Extends (calls.foldl DatabaseCatalogTransaction.call txn) ∧
      ∀ answer ∈ txn.answers calls,
        (calls.foldl DatabaseCatalogTransaction.call txn).Confirms answer := by
  induction calls generalizing txn creates with
  | nil => exact ⟨⟨creates, h⟩, .refl txn, by simp [answers]⟩
  | cons call rest ih =>
    obtain ⟨⟨_, hcomposed⟩, hextends⟩ := h.call hschema call
    have hsame : (txn.call call).databaseSchema = txn.databaseSchema := call_databaseSchema call
    obtain ⟨hfinal, hmore, hconfirms⟩ := ih hcomposed (hsame ▸ hschema)
    refine ⟨hfinal, hextends.trans hmore, ?_⟩
    intro answer hanswer
    rcases List.mem_append.mp hanswer with hfirst | hrest
    · exact (h.confirms hschema (mem_toList.mp hfirst)).extend hmore
    · exact hconfirms answer hrest

end Answers

/-- The schema after a transaction has the tables and columns that were returned, under their names
and identifiers, and the columns that were there before. -/
structure Agrees (before after : DatabaseSchema) (answers : List Answer) : Prop where
  tables : ∀ name id, .table name id ∈ answers → ∃ table, after.tableDefinition name = some table ∧
    table.tableId = id
  columns : ∀ name column, .column name column ∈ answers → ∃ table,
    after.tableDefinition name = some table ∧ table.columnDefinition column.name = some column ∧
      ∀ other ∈ table.columns.definitions, other.ordId = column.ordId → other = column
  kept : ∀ entry ∈ before.tables.repo.entries, ∃ table,
    (entry.1, table) ∈ after.tables.repo.entries ∧
      ∀ column ∈ entry.2.columns.repo.entries, column ∈ table.columns.repo.entries

section Outcomes

variable {opening : List DatabaseCatalogOp} {creates : List CreateTableLog}
variable {txn : DatabaseCatalogTransaction} {updated : DatabaseSchema} {answers : List Answer}

/-- A name of the transaction leads to the table that was grown under it. -/
theorem Outcome.tableDefinition (h : txn.Outcome updated) {id : Nat} {name : String}
    {table : TableDefinition} (hpair : (id, name) ∈ txn.tables.idNameMap.pairs)
    (htable : (id, table) ∈ updated.tables.repo.entries) :
    updated.tableDefinition name = some table :=
  bind_eq_some_iff.mpr
    ⟨id, BiMap.getByRight_eq_some.mpr (h.pairs _ hpair), Repository.getById_eq_some.mpr htable⟩

theorem Outcome.agrees (h : txn.Outcome updated) (hcomposed : Composed opening creates txn)
    (hschema : txn.databaseSchema.Sound) (hconfirms : ∀ answer ∈ answers, txn.Confirms answer) :
    Agrees txn.databaseSchema updated answers where
  tables := by
    intro name id hanswer
    have hpair : (id, name) ∈ txn.tables.idNameMap.pairs := hconfirms _ hanswer
    obtain ⟨tx, htx, _⟩ := (hcomposed.named id name).mp hpair
    obtain ⟨table, htable, _⟩ := h.grown id tx htx
    exact ⟨table, h.tableDefinition hpair htable, h.sound.ids _ htable⟩
  columns := by
    intro name column hanswer
    obtain ⟨id, tx, hpair, htx, hcolumn⟩ := hconfirms _ hanswer
    obtain ⟨table, htable, hcolumns⟩ := h.grown id tx htx
    have hindexed : table.columns.Indexed := (h.sound.all _ htable).columns
    have hmem := (hcolumns _).mpr hcolumn
    refine ⟨table, h.tableDefinition hpair htable, hindexed.getByName_eq_some.mpr ⟨hmem, rfl⟩, ?_⟩
    intro other hother hord
    obtain ⟨entry, hentry, rfl⟩ := List.mem_map.mp hother
    have hleft := (hindexed.ordIds entry.1 _).mpr ⟨entry.2, hentry, rfl⟩
    have hright := (hindexed.ordIds column.id _).mpr ⟨column, hmem, rfl⟩
    have hid : entry.1 = column.id :=
      congrArg Prod.fst (table.columns.idOrdIdMap.right_unique _ hleft _ hright hord)
    exact IndexMap.value_unique (hid ▸ hentry) hmem
  kept := by
    intro entry hentry
    by_cases hkey : entry.1 ∈ txn.tables.repo.keys
    · obtain ⟨tx, htx⟩ := IndexMap.mem_keys.mp hkey
      obtain ⟨base, ⟨hbase, _⟩ | ⟨create, hcreate, hid, _⟩, htracks⟩ := hcomposed.started _ htx
      · obtain rfl : base = entry.2 := IndexMap.value_unique hbase hentry
        obtain ⟨table, htable, hcolumns⟩ := h.grown entry.1 tx htx
        refine ⟨table, htable, fun column hcolumn => (hcolumns column).mpr ?_⟩
        have hkept := TableShape.mem_columns_growAll htracks.sound htracks.admits hcolumn
        rw [← htracks.shape] at hkept
        exact hkept
      · exact absurd (List.mem_map.mpr ⟨create, hcreate, hid⟩)
          (hcomposed.notMem_created hschema (IndexMap.mem_keys_of_mem hentry))
    · exact ⟨entry.2, h.kept entry hentry hkey, fun _ hcolumn => hcolumn⟩

end Outcomes

/-- A transaction has something to commit exactly when its batch has entries. -/
theorem isEmpty_eq (txn : DatabaseCatalogTransaction) :
    txn.isEmpty = txn.databaseBatch.ops.isEmpty := by
  rw [Bool.eq_iff_iff]
  simp [isEmpty, databaseBatch, List.filter_eq_nil_iff]

end DatabaseCatalogTransaction

open DatabaseCatalogTransaction (Call Composed Agrees Outcome)

namespace InnerCatalog

/-- Databases are listed, and their tables are in order. -/
def Sound (inner : InnerCatalog) : Prop := inner.databases.Keeps DatabaseSchema.Sound

/-- Commits a transaction to the catalog it was begun on. One that adds nothing is not persisted. -/
def commit (inner : InnerCatalog) (txn : DatabaseCatalogTransaction) : Result InnerCatalog :=
  if txn.isEmpty then pure inner
  else inner.applyOrderedCatalogBatch (.database txn.databaseBatch) (inner.sequence + 1)

section Keeping

variable {inner next updated : InnerCatalog} {changed : Bool}

theorem Sound.handsOut (h : inner.Sound) (hhands : HandsOut inner next) : next.Sound := by
  have hdatabases : next.databases =
      { inner.databases with nextId := next.databases.nextId } := by
    cases hnext : next.databases
    have hrepo := hhands.databases
    have hnames := hhands.names
    simp_all
  have hle : next.databases.nextId ≤ maxId DatabaseSchema :=
    hhands.nextDatabase_le.trans (max_le h.nextId_le le_rfl)
  unfold Sound
  rw [hdatabases]
  exact h.raiseNextId hhands.nextDatabase hle

theorem Sound.applyDeleteOp {op : DeleteOp} (h : inner.Sound)
    (hok : inner.applyDeleteOp op = .ok (updated, changed)) : updated.Sound := by
  cases op with
  | deleteDatabase dbId =>
    simp only [InnerCatalog.applyDeleteOp] at hok
    split at hok
    · obtain ⟨rfl, _⟩ := Prod.mk.inj (pure_eq_ok.mp hok)
      exact h.remove dbId
    · obtain ⟨rfl, _⟩ := Prod.mk.inj (pure_eq_ok.mp hok)
      exact h
  | deleteTable dbId tableId =>
    simp only [InnerCatalog.applyDeleteOp] at hok
    split at hok
    · obtain ⟨rfl, _⟩ := Prod.mk.inj (pure_eq_ok.mp hok)
      exact h
    · rename_i db hdb
      split at hok
      · simp only [bind_eq_ok, pure_eq_ok, Prod.mk.injEq] at hok
        obtain ⟨databases, hupdate, rfl, _⟩ := hok
        have hmem := Repository.getById_eq_some.mp hdb
        have hid : db.id = dbId := h.ids _ hmem
        have htables : db.Sound := h.all _ hmem
        exact h.update hupdate hid (htables.remove tableId)
      · obtain ⟨rfl, _⟩ := Prod.mk.inj (pure_eq_ok.mp hok)
        exact h

/-- Batches that make no table and add no columns. -/
theorem Sound.applyBatch {batch : CatalogBatch} (h : inner.Sound)
    (hbatch : batch.keepsColumns = true)
    (hids : ∀ id ∈ batch.databaseIds, id ∈ inner.databases.repo.keys ∨ id < maxId DatabaseSchema)
    (hok : inner.applyBatch batch = .ok (updated, changed)) : updated.Sound := by
  cases batch with
  | node batch =>
    simp only [InnerCatalog.applyBatch] at hok
    refine applyAll_induct (fun _ => Sound) (fun _ op state next _ hstate hop => ?_) h hok
    obtain ⟨_, rfl⟩ := applyNodeOp_frame hop
    exact hstate
  | database batch =>
    have hops : ∀ op ∈ batch.ops, op.keepsColumns = true := List.all_eq_true.mp hbatch
    simp only [InnerCatalog.applyBatch, applyDatabaseBatch] at hok
    split at hok
    · rename_i db hdb
      simp only [bind_eq_ok] at hok
      obtain ⟨⟨schema, schemaChanged⟩, happly, hok⟩ := hok
      have hsound : db.Sound := h.all _ (Repository.getById_eq_some.mp hdb)
      cases schemaChanged with
      | false =>
        obtain ⟨rfl, _⟩ := Prod.mk.inj (pure_eq_ok.mp hok)
        exact h
      | true =>
        simp only [if_true, bind_eq_ok, unwrap_eq_ok, pure_eq_ok,
          Prod.mk.injEq] at hok
        obtain ⟨databases, hupdate, rfl, _⟩ := hok
        exact h.update hupdate (DatabaseSchema.applyOps_id happly) (hsound.applyOps hops happly)
    · rename_i hnone
      simp only [bind_eq_ok, unwrap_eq_ok, pure_eq_ok,
        Prod.mk.injEq] at hok
      obtain ⟨⟨schema, _⟩, happly, _, _, databases, hinsert, rfl, _⟩ := hok
      have hnew : (DatabaseSchema.new batch.databaseId batch.databaseName).Sound := .empty
      have hid : schema.id = batch.databaseId := DatabaseSchema.applyOps_id happly
      have hmax : schema.id < maxId DatabaseSchema := by
        rw [hid]
        exact (hids _ List.mem_cons_self).resolve_left (IndexMap.get_eq_none.mp hnone)
      exact h.insert hinsert rfl (hnew.applyOps hops happly) hmax
  | token timeNs ops =>
    refine applyAll_induct (fun _ => Sound) (fun _ op state next _ hstate hop => ?_) h hok
    obtain ⟨_, rfl, _⟩ := applyTokenOp_effect hop
    exact hstate
  | delete timeNs ops =>
    exact applyAll_induct (fun _ => Sound)
      (fun _ op state next _ hstate hop => hstate.applyDeleteOp hop) h hok
  | generation timeNs ops =>
    refine applyAll_induct (fun _ => Sound) (fun _ op state next _ hstate hop => ?_) h hok
    obtain ⟨_, rfl⟩ := applyGenerationOp_frame hop
    exact hstate

end Keeping

section Committing

variable {inner next : InnerCatalog} {limits : CatalogLimits} {dbName : String} {timeNs : Int}
variable {txn filled : DatabaseCatalogTransaction}

/-- The database of a transaction is one of the catalog that its name leads to, or is to be made
under an identifier that is not in use. -/
def Begun (next : InnerCatalog) (dbName : String) (schema : DatabaseSchema)
    (opening : List DatabaseCatalogOp) : Prop :=
  ((schema.id, schema) ∈ next.databases.repo.entries ∧
      (schema.id, dbName) ∈ next.databases.idNameMap.pairs) ∨
    opening ≠ [] ∧ schema = .new schema.id dbName ∧ schema.id ∉ next.databases.repo.keys ∧
      schema.id < maxId DatabaseSchema

theorem begun_of_begin (h : inner.Sound)
    (hbegin : inner.begin limits dbName timeNs = .ok (next, txn)) :
    next.Sound ∧ txn.databaseSchema.Sound ∧ ∃ opening, Composed opening [] txn ∧
      txn.databaseSchema.Accepts opening txn.databaseSchema ∧
      Begun next dbName txn.databaseSchema opening := by
  unfold begin at hbegin
  split at hbegin
  · rename_i schema hfound
    obtain ⟨rfl, rfl⟩ := Prod.mk.inj (pure_eq_ok.mp hbegin)
    obtain ⟨hmem, hpair, _⟩ := h.of_getByName hfound
    have hsound : schema.Sound := h.all _ hmem
    refine ⟨h, hsound, [], ?_, .nil schema, .inl ⟨hmem, hpair⟩⟩
    constructor <;> simp [Repo.Named, hsound.nextId_le]
  · rename_i hnone
    simp only [bind_eq_ok, pure_eq_ok, Prod.mk.injEq] at hbegin
    obtain ⟨_, _, ⟨id, databases⟩, hnext, rfl, rfl⟩ := hbegin
    obtain ⟨hmax, rfl, rfl⟩ := Repository.getAndIncrementNextId_eq_ok.mp hnext
    let opening : DatabaseCatalogOp := .createDatabase
      { databaseId := inner.databases.nextId, databaseName := dbName, retentionPeriod := none }
    refine ⟨h.raiseNextId (Nat.le_succ _) hmax, .empty, [opening], ?_, .cons ?_ (.nil _),
      .inr ⟨by simp, rfl, h.nextId_notMem hmax, hmax⟩⟩
    · constructor <;> simp [Repo.Named, DatabaseSchema.new, opening]
    · simp [opening, DatabaseSchema.updateSchema, DatabaseSchema.new, Fallible.ensure, bind,
        Except.bind, pure, Except.pure, RetentionPeriod.ofOption]

/-- The batch of a transaction is applied to the catalog it was begun on. -/
theorem applyBatch_of_begun {opening : List DatabaseCatalogOp} {creates : List CreateTableLog}
    (hnext : next.Sound) (hcomposed : Composed opening creates filled)
    (hschema : filled.databaseSchema.Sound)
    (hopening : filled.databaseSchema.Accepts opening filled.databaseSchema)
    (hbegun : Begun next dbName filled.databaseSchema opening) :
    ∃ applied updated, next.applyBatch (.database filled.databaseBatch) =
        .ok (applied, !filled.databaseBatch.ops.isEmpty) ∧ applied.Sound ∧
      applied.databases.getByName dbName = some updated ∧ filled.Outcome updated := by
  obtain ⟨tables, haccepts, houtcome⟩ := hcomposed.accepted hschema hopening
  let updated : DatabaseSchema := { filled.databaseSchema with tables := tables }
  have happly := haccepts.applyOps
  have hfind : ∀ databases : Repository DatabaseSchema,
      (updated.id, dbName) ∈ databases.idNameMap.pairs →
        (updated.id, updated) ∈ databases.repo.entries →
          databases.getByName dbName = some updated := fun databases hpair hmem =>
    bind_eq_some_iff.mpr
      ⟨_, BiMap.getByRight_eq_some.mpr hpair, Repository.getById_eq_some.mpr hmem⟩
  rcases hbegun with ⟨hmem, hpair⟩ | ⟨hne, hnew, habsent, hmax⟩
  · have hget : next.databases.getById filled.databaseBatch.databaseId =
        some filled.databaseSchema := Repository.getById_eq_some.mpr hmem
    have hname : filled.databaseSchema.name = dbName := by
      obtain ⟨other, hother, hname⟩ := hnext.named _ _ hpair
      obtain rfl := IndexMap.value_unique hother hmem
      exact hname
    cases hempty : filled.databaseBatch.ops.isEmpty with
    | true =>
      rw [List.isEmpty_iff.mp hempty] at haccepts
      have hsame : filled.databaseSchema = updated :=
        congrArg Prod.fst (pure_eq_ok.mp (haccepts false))
      refine ⟨next, updated, ?_, hnext, hfind _ hpair (hsame ▸ hmem), houtcome⟩
      simp only [applyBatch, applyDatabaseBatch, hget, happly, hempty]
      rfl
    | false =>
      let databases := next.databases.put updated.id updated next.databases.nextId
      have hput : next.databases.update updated.id updated = .ok databases :=
        hnext.update_of_mem hpair updated
      refine ⟨{ next with databases := databases }, updated, ?_, ?_, hfind _ ?_ ?_, houtcome⟩
      · simp only [applyBatch, applyDatabaseBatch, hget, happly, hempty]
        change (do
          let databases ← Fallible.unwrap _ (next.databases.update updated.id updated)
          pure ({ next with databases := databases }, true)) = _
        rw [hput]
        rfl
      · exact hnext.put rfl houtcome.sound (hnext.next _ hmem) le_rfl hnext.nextId_le
      · subst hname
        exact (BiMap.mem_pairs_insert_of_mem hpair).mpr hpair
      · exact IndexMap.mem_entries_insert_self
  · have hget : next.databases.getById filled.databaseBatch.databaseId = none :=
      IndexMap.get_eq_none.mpr habsent
    have hname : filled.databaseSchema.name = dbName := congrArg DatabaseSchema.name hnew
    have hempty : filled.databaseBatch.ops.isEmpty = false := by
      simp [DatabaseCatalogTransaction.databaseBatch, hcomposed.ops, hne]
    have hmake : DatabaseSchema.new filled.databaseBatch.databaseId
        filled.databaseBatch.databaseName = filled.databaseSchema := by
      subst hname
      exact hnew.symm
    let databases := next.databases.put updated.id updated (next.databases.nextIdAfter updated.id)
    have hput : next.databases.insert updated.id updated = .ok databases :=
      hnext.insert_of_notMem habsent
    refine ⟨{ next with databases := databases }, updated, ?_, ?_, hfind _ ?_ ?_, houtcome⟩
    · simp only [applyBatch, applyDatabaseBatch, hget, hmake, happly, hempty]
      change (do
        let databases ← Fallible.unwrap _ (next.databases.insert updated.id updated)
        pure ({ next with databases := databases }, true)) = _
      rw [hput]
      rfl
    · exact hnext.put rfl houtcome.sound (Repository.lt_nextIdAfter (.inl hmax))
        (Repository.le_nextIdAfter _) (Repository.nextIdAfter_le hnext.nextId_le)
    · exact BiMap.mem_pairs_insert.mpr (.inl (by rw [← hname]; rfl))
    · exact IndexMap.mem_entries_insert_self

end Committing

section Runs

variable {inner next applied : InnerCatalog} {batch : CatalogBatch} {changed : Bool}

theorem Composition.sound (hcomposition : Composition inner next batch) (h : inner.Sound)
    (happly : next.applyBatch batch = .ok (applied, changed)) : applied.Sound := by
  rcases hcomposition.columns with hkeeps |
    ⟨limits, dbName, timeNs, txn, filled, hbegin, rfl, hfilled⟩
  · refine (h.handsOut hcomposition.handsOut).applyBatch hkeeps (fun id hid => ?_) happly
    rw [hcomposition.handsOut.databases]
    exact (hcomposition.databaseIds id hid).imp_right And.right
  · obtain ⟨hnext, hschema, opening, hcomposed, hopening, hbegun⟩ := begun_of_begin h hbegin
    obtain ⟨hsame, creates, hcomposed⟩ : filled.databaseSchema = txn.databaseSchema ∧
        ∃ creates, Composed opening creates filled := by
      rcases hfilled with ⟨calls, rfl⟩ | ⟨id, tableName, columns, mode, hcreate⟩
      · exact ⟨DatabaseCatalogTransaction.foldl_call_databaseSchema calls,
          (hcomposed.calls calls hschema).1⟩
      · exact ⟨DatabaseCatalogTransaction.createTable_databaseSchema hcreate,
          (hcomposed.createTable hschema hcreate).1⟩
    rw [← hsame] at hschema hopening hbegun
    obtain ⟨sound, _, hok, hsound, _⟩ := applyBatch_of_begun hnext hcomposed hschema hopening hbegun
    obtain ⟨rfl, _⟩ := Prod.mk.inj (Except.ok.inj (hok.symm.trans happly))
    exact hsound

/-- The catalogs that operations and writes lead to from an empty one. A batch that could not be
persisted has still used identifiers. -/
inductive Reached : InnerCatalog → Prop where
  | empty : Reached {}
  | operate {inner next outcome : InnerCatalog} {context : OperationContext}
      {operation : Operation} {batch : CatalogBatch} (h : Reached inner)
      (hcompose : inner.compose context operation = .ok (next, batch))
      (hcommit : outcome = next ∨
        next.applyOrderedCatalogBatch batch (next.sequence + 1) = .ok outcome) : Reached outcome
  | write {inner next outcome : InnerCatalog} {context : OperationContext} {dbName : String}
      {calls : List Call} {written : Option CatalogBatch} (h : Reached inner)
      (hcompose : inner.composeWrite context dbName calls = .ok (next, written))
      (hcommit : outcome = next ∨ ∃ batch ∈ written,
        next.applyOrderedCatalogBatch batch (next.sequence + 1) = .ok outcome) : Reached outcome

theorem Reached.sound (h : Reached inner) : inner.Sound := by
  induction h with
  | empty => exact .empty
  | operate _ hcompose hcommit ih =>
    have hcomposition := compose_composition ih.ids hcompose
    rcases hcommit with rfl | hordered
    · exact ih.handsOut hcomposition.handsOut
    · obtain ⟨applied, happly, rfl⟩ := applyOrderedCatalogBatch_eq_ok hordered
      have hsound : applied.Sound := hcomposition.sound ih happly
      exact hsound
  | write _ hcompose hcommit ih =>
    obtain ⟨hhands, hcomposition⟩ := composeWrite_composition ih.ids hcompose
    rcases hcommit with rfl | ⟨batch, hbatch, hordered⟩
    · exact ih.handsOut hhands
    · obtain ⟨applied, happly, rfl⟩ := applyOrderedCatalogBatch_eq_ok hordered
      have hsound : applied.Sound := (hcomposition batch hbatch).sound ih happly
      exact hsound

/-- A transaction on a sound catalog that is committed before any other makes, under the name of its
database, exactly the tables and columns it has returned, and leaves those before it. -/
theorem commit_agrees {limits : CatalogLimits} {dbName : String} {timeNs : Int}
    {txn : DatabaseCatalogTransaction} (h : inner.Sound)
    (hbegin : inner.begin limits dbName timeNs = .ok (next, txn)) (calls : List Call) :
    ∃ committed updated, next.commit (calls.foldl DatabaseCatalogTransaction.call txn) =
        .ok committed ∧ committed.Sound ∧ committed.databases.getByName dbName = some updated ∧
      Agrees txn.databaseSchema updated (txn.answers calls) := by
  obtain ⟨hnext, hschema, opening, hbegun, hopening, hdatabase⟩ := begun_of_begin h hbegin
  obtain ⟨⟨creates, hcomposed⟩, _, hconfirms⟩ := hbegun.calls calls hschema
  rw [← DatabaseCatalogTransaction.foldl_call_databaseSchema calls] at hschema hopening hdatabase ⊢
  generalize calls.foldl DatabaseCatalogTransaction.call txn = filled at *
  obtain ⟨applied, updated, happly, hsound, hfound, houtcome⟩ :=
    applyBatch_of_begun hnext hcomposed hschema hopening hdatabase
  have hagrees := houtcome.agrees hcomposed hschema hconfirms
  have hempty := filled.isEmpty_eq
  cases hops : filled.databaseBatch.ops.isEmpty with
  | true =>
    rw [hops] at happly hempty
    obtain rfl := applyBatch_unchanged happly
    exact ⟨applied, updated, if_pos hempty, hsound, hfound, hagrees⟩
  | false =>
    rw [hops] at happly hempty
    refine ⟨{ applied with sequence := next.sequence + 1 }, updated, ?_, hsound, hfound, hagrees⟩
    simp [commit, hempty, applyOrderedCatalogBatch, applyCatalogBatch, happly, Fallible.ensure,
      Fallible.unwrap, Fallible.expect, bind, Except.bind, pure, Except.pure]

/-- The first write to a database: a table with a tag and a field. -/
def firstCalls : List Call :=
  [.tableOrCreate "cpu", .columnOrCreate "cpu" "host" .tag,
    .columnOrCreate "cpu" "usage" (.field .float)]

/-- The next write: a call for a table over the limit fails, and the calls for columns return one
that is there and one new one. -/
def nextCalls : List Call :=
  [.tableOrCreate "mem", .columnOrCreate "cpu" "host" .tag,
    .columnOrCreate "cpu" "idle" (.field .integer)]

theorem commit_agrees_next_write : ∃ first next txn, Reached first ∧
    first.begin ⟨1, 1, 4⟩ "db" 0 = .ok (next, txn) ∧ (txn.answers nextCalls).length = 2 ∧
    ∃ committed updated, next.commit (nextCalls.foldl DatabaseCatalogTransaction.call txn) =
        .ok committed ∧ committed.Sound ∧ committed.databases.getByName "db" = some updated ∧
      Agrees txn.databaseSchema updated (txn.answers nextCalls) := by
  have hcompose : composeWrite {} ⟨0, ⟨1, 1, 4⟩, 0⟩ "db" firstCalls = .ok (_, some _) := rfl
  have hfirst := Reached.write .empty hcompose (.inr ⟨_, rfl, rfl⟩)
  exact ⟨_, _, _, hfirst, rfl, by decide, commit_agrees hfirst.sound rfl nextCalls⟩

end Runs

end InnerCatalog

end RefluxDb.Catalog
