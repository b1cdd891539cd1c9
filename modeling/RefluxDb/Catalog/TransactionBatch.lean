import RefluxDb.Catalog.SchemaUpdates
import RefluxDb.Catalog.TransactionGrowth
import RefluxDb.Library.Lists

/-! What the calls make of a transaction, and what its batch makes of the schema it started from.

The calls come in any order. In the batch the database is created first, then the tables, and then
each table is given its families and columns. -/

namespace RefluxDb.Catalog

open List RefluxDb.Library Fallible IndexMap

namespace Repo

/-- The map holds the names of the tables and nothing else. -/
def Named (tables : Repo) : Prop :=
  ∀ id name, (id, name) ∈ tables.idNameMap.pairs ↔
    ∃ tx, (id, tx) ∈ tables.repo.entries ∧ tx.table.tableName = name

variable {tables updated : Repo} {id : Nat} {tx tx' : TableTransaction}

theorem insert_eq_ok (h : tables.insert id tx = .ok updated) :
    updated = ⟨tables.repo.insert id tx, tables.idNameMap.insert id tx.table.tableName⟩ := by
  simp only [Repo.insert, bind_eq_ok, pure_eq_ok] at h
  obtain ⟨_, _, _, _, rfl⟩ := h
  rfl

/-- A table under a new identifier and a new name. -/
theorem Named.mem_pairs_insert (h : tables.Named) (hid : id ∉ tables.repo.keys)
    (hname : ∀ key, (key, tx.table.tableName) ∉ tables.idNameMap.pairs) {pair : Nat × String} :
    pair ∈ (tables.idNameMap.insert id tx.table.tableName).pairs ↔
      pair = (id, tx.table.tableName) ∨ pair ∈ tables.idNameMap.pairs := by
  refine BiMap.mem_pairs_insert.trans (or_congr_right ⟨And.left, fun hold => ⟨hold, ?_, ?_⟩⟩)
  · rintro rfl
    obtain ⟨_, hmem, _⟩ := (h pair.1 pair.2).mp hold
    exact hid (mem_keys_of_mem hmem)
  · intro hsame
    exact hname pair.1 (hsame ▸ hold)

theorem Named.insert (h : tables.Named) (hid : id ∉ tables.repo.keys)
    (hname : ∀ key, (key, tx.table.tableName) ∉ tables.idNameMap.pairs) :
    Named ⟨tables.repo.insert id tx, tables.idNameMap.insert id tx.table.tableName⟩ := by
  intro key name
  rw [h.mem_pairs_insert hid hname, h key name]
  simp only [mem_entries_insert_of_notMem hid, Prod.mk.injEq]
  constructor
  · rintro (⟨rfl, rfl⟩ | ⟨other, hmem, hother⟩)
    · exact ⟨tx, .inl ⟨rfl, rfl⟩, rfl⟩
    · exact ⟨other, .inr hmem, hother⟩
  · rintro ⟨other, ⟨rfl, rfl⟩ | hmem, hother⟩
    · exact .inl ⟨rfl, hother.symm⟩
    · exact .inr ⟨other, hmem, hother⟩

theorem Named.replace (h : tables.Named) (hmem : (id, tx) ∈ tables.repo.entries)
    (hname : tx'.table.tableName = tx.table.tableName) :
    Named { tables with repo := tables.repo.insert id tx' } := by
  intro key name
  simp only [h key name, mem_entries_insert, Prod.mk.injEq]
  constructor
  · rintro ⟨other, hother, rfl⟩
    by_cases hkey : key = id
    · subst hkey
      obtain rfl := value_unique hother hmem
      exact ⟨tx', .inl ⟨rfl, rfl⟩, hname⟩
    · exact ⟨other, .inr ⟨hother, hkey⟩, rfl⟩
  · rintro ⟨other, ⟨rfl, rfl⟩ | ⟨hother, _⟩, rfl⟩
    · exact ⟨tx, hmem, hname.symm⟩
    · exact ⟨other, hother, rfl⟩

end Repo

namespace DatabaseCatalogTransaction

open TableTransaction (Tracks Continues)

/-- The table that a table transaction starts from: one that its name leads to in the schema, or a
new one. -/
def Starts (schema : DatabaseSchema) (creates : List CreateTableLog) (id : Nat)
    (base : TableDefinition) : Prop :=
  ((id, base) ∈ schema.tables.repo.entries ∧
      (id, base.tableName) ∈ schema.tables.idNameMap.pairs) ∨
    ∃ create ∈ creates, create.tableId = id ∧
      base = .newEmpty create.tableId create.tableName create.fieldFamilyMode

/-- What the calls made of the transaction: the tables it creates are new to the schema, and each
of its tables is grown from one of the schema or from a new one. -/
structure Composed (opening : List DatabaseCatalogOp) (creates : List CreateTableLog)
    (txn : DatabaseCatalogTransaction) : Prop where
  ops : txn.ops = opening ++ creates.map .createTable
  ids_nodup : (creates.map CreateTableLog.tableId).Nodup
  ids : ∀ create ∈ creates, txn.databaseSchema.tables.nextId ≤ create.tableId ∧
    create.tableId < txn.nextTableId
  next : txn.databaseSchema.tables.nextId ≤ txn.nextTableId
  nextTableId_le : txn.nextTableId ≤ CatalogResource.maxId TableDefinition
  names_nodup : (creates.map CreateTableLog.tableName).Nodup
  names : ∀ create ∈ creates, txn.databaseSchema.tables.containsName create.tableName = false
  started : ∀ entry ∈ txn.tables.repo.entries, ∃ base,
    Starts txn.databaseSchema creates entry.1 base ∧ Tracks base entry.2
  named : txn.tables.Named
  created : ∀ create ∈ creates, (create.tableId, create.tableName) ∈ txn.tables.idNameMap.pairs

/-- Nothing of the transaction's tables is lost. -/
structure Extends (txn later : DatabaseCatalogTransaction) : Prop where
  pairs : ∀ pair ∈ txn.tables.idNameMap.pairs, pair ∈ later.tables.idNameMap.pairs
  columns : ∀ id tx, (id, tx) ∈ txn.tables.repo.entries → ∃ tx',
    (id, tx') ∈ later.tables.repo.entries ∧
      ∀ entry ∈ tx.table.columns.repo.entries, entry ∈ tx'.table.columns.repo.entries

variable {opening : List DatabaseCatalogOp} {creates : List CreateTableLog}
variable {txn found later : DatabaseCatalogTransaction} {id : Nat} {base : TableDefinition}
variable {name : String}

theorem Extends.refl (txn : DatabaseCatalogTransaction) : txn.Extends txn :=
  ⟨fun _ hpair => hpair, fun _ tx htx => ⟨tx, htx, fun _ hentry => hentry⟩⟩

theorem Extends.trans (hfirst : txn.Extends found) (hsecond : found.Extends later) :
    txn.Extends later where
  pairs := fun pair hpair => hsecond.pairs pair (hfirst.pairs pair hpair)
  columns := by
    intro id tx htx
    obtain ⟨tx', htx', hcolumns⟩ := hfirst.columns id tx htx
    obtain ⟨tx'', htx'', hmore⟩ := hsecond.columns id tx' htx'
    exact ⟨tx'', htx'', fun entry hentry => hmore entry (hcolumns entry hentry)⟩

variable {columns : Option CreateTableColumns}

theorem createTable_eq_ok {mode : FieldFamilyMode}
    (h : txn.createTable name columns mode = .ok (id, found)) :
    txn.tableExistsByName name = false ∧
      txn.nextTableId < CatalogResource.maxId TableDefinition ∧ txn.nextTableId = id ∧
      ∃ tx, Tracks (.newEmpty id name mode) tx ∧
        { txn with
          nextTableId := id + 1
          ops := txn.ops ++ [.createTable
            { databaseId := txn.databaseSchema.id
              databaseName := txn.databaseSchema.name
              tableName := name
              tableId := id
              fieldFamilyMode := mode }]
          tables := ⟨txn.tables.repo.insert id tx,
            txn.tables.idNameMap.insert id tx.table.tableName⟩ } = found := by
  have hstart := TableTransaction.tracks_start (.newEmpty txn.nextTableId name mode)
    txn.columnsPerTableLimit
  simp only [createTable, bind_eq_ok, ensure_eq_ok, exists_const,
    Bool.not_eq_true', decide_eq_true_eq] at h
  obtain ⟨hexists, _, _, _, hmax, h⟩ := h
  cases columns with
  | none =>
    simp only [pure_bind, bind_eq_ok, unwrap_eq_ok, pure_eq_ok,
      Prod.mk.injEq] at h
    obtain ⟨tables, hinsert, rfl, rfl⟩ := h
    obtain rfl := Repo.insert_eq_ok hinsert
    exact ⟨hexists, hmax, rfl, _, hstart, rfl⟩
  | some columns =>
    simp only [bind_eq_ok, unwrap_eq_ok, pure_eq_ok,
      Prod.mk.injEq] at h
    obtain ⟨tx, hadd, tables, hinsert, rfl, rfl⟩ := h
    obtain rfl := Repo.insert_eq_ok hinsert
    exact ⟨hexists, hmax, rfl, tx, (Continues.addAll hadd _ hstart).1, rfl⟩

namespace Composed

variable (h : Composed opening creates txn) (hschema : txn.databaseSchema.Sound)
include h

theorem notMem_created (hschema : txn.databaseSchema.Sound)
    (hmem : id ∈ txn.databaseSchema.tables.repo.keys) :
    id ∉ creates.map CreateTableLog.tableId := by
  intro hcreated
  obtain ⟨create, hcreate, rfl⟩ := mem_map.mp hcreated
  obtain ⟨table, hentry⟩ := mem_keys.mp hmem
  have hnext : create.tableId < txn.databaseSchema.tables.nextId ∨
      txn.databaseSchema.tables.nextId = CatalogResource.maxId TableDefinition :=
    hschema.next _ hentry
  have hid := h.ids create hcreate
  have hmax := h.nextTableId_le
  omega

theorem extends_insert (tx : TableTransaction) (hid : id ∉ txn.tables.repo.keys)
    (hname : ∀ key, (key, tx.table.tableName) ∉ txn.tables.idNameMap.pairs)
    (htables : later.tables =
      ⟨txn.tables.repo.insert id tx, txn.tables.idNameMap.insert id tx.table.tableName⟩) :
    txn.Extends later where
  pairs := by
    intro pair hpair
    rw [htables]
    exact (h.named.mem_pairs_insert hid hname).mpr (.inr hpair)
  columns := by
    intro key other hother
    rw [htables]
    exact ⟨other, (mem_entries_insert_of_notMem hid).mpr (.inr hother), fun _ hentry => hentry⟩

include hschema in
theorem tableTransaction {known : Option Nat}
    (hok : txn.tableTransaction name = .ok (known, found)) :
    Composed opening creates found ∧ txn.Extends found ∧
      ∀ id ∈ known, (id, name) ∈ found.tables.idNameMap.pairs := by
  unfold DatabaseCatalogTransaction.tableTransaction at hok
  split at hok
  · rename_i id hid
    obtain ⟨rfl, rfl⟩ := Prod.mk.inj (pure_eq_ok.mp hok)
    refine ⟨h, .refl txn, fun id hknown => ?_⟩
    obtain rfl := Option.some.inj hknown
    exact BiMap.getByRight_eq_some.mp hid
  · rename_i hnone
    split at hok
    · obtain ⟨rfl, rfl⟩ := Prod.mk.inj (pure_eq_ok.mp hok)
      exact ⟨h, .refl txn, by simp⟩
    · rename_i table hfound
      simp only [bind_eq_ok, unwrap_eq_ok, pure_eq_ok,
        Prod.mk.injEq] at hok
      obtain ⟨tables, hinsert, rfl, rfl⟩ := hok
      obtain rfl := Repo.insert_eq_ok hinsert
      obtain ⟨hmem, hpair, rfl⟩ := hschema.of_getByName hfound
      have hfree : ∀ key, (key, table.tableName) ∉ txn.tables.idNameMap.pairs :=
        BiMap.getByRight_eq_none.mp hnone
      -- a transaction of this table would be found by its name
      have hnew : table.tableId ∉ txn.tables.repo.keys := by
        intro hkey
        obtain ⟨tx, htx⟩ := mem_keys.mp hkey
        obtain ⟨base, ⟨hbase, _⟩ | ⟨create, hcreate, hid, _⟩, htracks⟩ := h.started _ htx
        · obtain rfl := value_unique hbase hmem
          exact hfree _ ((h.named _ _).mpr ⟨tx, htx, htracks.table.2⟩)
        · exact h.notMem_created hschema (mem_keys_of_mem hmem)
            (mem_map.mpr ⟨create, hcreate, hid⟩)
      let tx : TableTransaction := { table := table, columnLimit := txn.columnsPerTableLimit }
      let tables : Repo :=
        ⟨txn.tables.repo.insert table.tableId tx,
          txn.tables.idNameMap.insert table.tableId table.tableName⟩
      have hextends : txn.Extends { txn with tables := tables } :=
          h.extends_insert tx hnew hfree rfl
      refine ⟨{ h with started := ?_, named := h.named.insert hnew hfree, created := ?_ }, hextends,
        ?_⟩
      · intro entry hentry
        rcases (mem_entries_insert_of_notMem hnew).mp hentry with rfl | hold
        · exact ⟨table, .inl ⟨hmem, hpair⟩, TableTransaction.tracks_start (hschema.all _ hmem) _⟩
        · exact h.started entry hold
      · exact fun create hcreate => hextends.pairs _ (h.created create hcreate)
      · refine forall_eq_some ?_
        exact (h.named.mem_pairs_insert hnew hfree).mpr (.inl rfl)

include hschema in
theorem createTable {mode : FieldFamilyMode}
    (hok : txn.createTable name columns mode = .ok (id, found)) :
    (∃ creates, Composed opening creates found) ∧ txn.Extends found ∧
      (id, name) ∈ found.tables.idNameMap.pairs := by
  obtain ⟨hexists, hmax, rfl, tx, htracks, rfl⟩ := createTable_eq_ok hok
  obtain ⟨hfreeTxn, hfreeSchema⟩ := Bool.or_eq_false_iff.mp hexists
  let create : CreateTableLog :=
    { databaseId := txn.databaseSchema.id
      databaseName := txn.databaseSchema.name
      tableName := name
      tableId := txn.nextTableId
      fieldFamilyMode := mode }
  have hname : tx.table.tableName = name := htracks.table.2
  have hfree : ∀ key, (key, tx.table.tableName) ∉ txn.tables.idNameMap.pairs := by
    intro key hpair
    have hcontains : txn.tables.containsName name = true :=
      BiMap.containsRight_iff.mpr ⟨key, hname ▸ hpair⟩
    exact absurd (hfreeTxn.symm.trans hcontains) (by decide)
  have hnewCreate : txn.nextTableId ∉ creates.map CreateTableLog.tableId := by
    intro hmem
    obtain ⟨other, hother, hid⟩ := mem_map.mp hmem
    exact (h.ids other hother).2.ne hid
  have hnew : txn.nextTableId ∉ txn.tables.repo.keys := by
    intro hkey
    obtain ⟨other, hother⟩ := mem_keys.mp hkey
    obtain ⟨start, ⟨hstart, _⟩ | ⟨create, hcreate, hid, _⟩, _⟩ := h.started _ hother
    · have hnext : txn.nextTableId < txn.databaseSchema.tables.nextId ∨
          txn.databaseSchema.tables.nextId = CatalogResource.maxId TableDefinition :=
        hschema.next _ hstart
      have hle := h.next
      omega
    · exact hnewCreate (mem_map.mpr ⟨create, hcreate, hid⟩)
  have hself : (txn.nextTableId, name) ∈
      (txn.tables.idNameMap.insert txn.nextTableId tx.table.tableName).pairs :=
    BiMap.mem_pairs_insert.mpr (.inl (by rw [hname]))
  refine ⟨⟨creates ++ [create], ?_⟩, h.extends_insert tx hnew hfree rfl, hself⟩
  constructor
  case ops => simp [h.ops, create]
  case ids_nodup => simpa [nodup_append, h.ids_nodup, create] using hnewCreate
  case ids =>
    intro other hother
    rcases mem_concat.mp hother with hold | rfl
    · obtain ⟨hge, hlt⟩ := h.ids other hold
      exact ⟨hge, Nat.lt_succ_of_lt hlt⟩
    · exact ⟨h.next, Nat.lt_succ_self _⟩
  case next => exact Nat.le_succ_of_le h.next
  case nextTableId_le => exact hmax
  case names_nodup =>
    have hother : name ∉ creates.map CreateTableLog.tableName := by
      intro hmem
      obtain ⟨other, hother, hsame⟩ := mem_map.mp hmem
      exact hfree other.tableId (by rw [hname, ← hsame]; exact h.created other hother)
    simpa [nodup_append, h.names_nodup, create] using hother
  case names =>
    refine forall_mem_concat.mpr ⟨h.names, ?_⟩
    exact hfreeSchema
  case started =>
    intro entry hentry
    rcases (mem_entries_insert_of_notMem hnew).mp hentry with rfl | hold
    · exact ⟨_, .inr ⟨create, by simp, rfl, rfl⟩, htracks⟩
    · obtain ⟨start, hstarts, hgrown⟩ := h.started entry hold
      refine ⟨start, hstarts.imp_right ?_, hgrown⟩
      rintro ⟨other, hother, hid, heq⟩
      exact ⟨other, mem_append_left _ hother, hid, heq⟩
  case named => exact h.named.insert hnew hfree
  case created =>
    intro other hother
    rcases mem_concat.mp hother with hold | rfl
    · exact (h.named.mem_pairs_insert hnew hfree).mpr (.inr (h.created other hold))
    · exact hself

include hschema in
theorem tableOrCreate (hok : txn.tableOrCreate name = .ok (id, found)) :
    (∃ creates, Composed opening creates found) ∧ txn.Extends found ∧
      (id, name) ∈ found.tables.idNameMap.pairs := by
  simp only [DatabaseCatalogTransaction.tableOrCreate, bind_eq_ok] at hok
  obtain ⟨⟨known, taken⟩, htaken, hok⟩ := hok
  obtain ⟨hcomposed, hextends, hpair⟩ := h.tableTransaction hschema htaken
  cases known with
  | some known =>
    obtain ⟨rfl, rfl⟩ := Prod.mk.inj (pure_eq_ok.mp hok)
    exact ⟨⟨creates, hcomposed⟩, hextends, hpair known rfl⟩
  | none =>
    have hsame := tableTransaction_databaseSchema htaken
    obtain ⟨hcreated, hmore, hself⟩ := hcomposed.createTable (hsame ▸ hschema) hok
    exact ⟨hcreated, hextends.trans hmore, hself⟩

variable {update : TableTransaction → Result TableTransaction}

theorem updateTransaction (hupdate : ∀ tx tx', update tx = .ok tx' → Continues tx tx') :
    Composed opening creates (txn.updateTransaction id update) ∧
      txn.Extends (txn.updateTransaction id update) := by
  unfold DatabaseCatalogTransaction.updateTransaction
  split
  · exact ⟨h, .refl txn⟩
  · rename_i tx htx
    have hmem : (id, tx) ∈ txn.tables.repo.entries := get_eq_some.mp htx
    split
    · exact ⟨h, .refl txn⟩
    · rename_i tx' htx'
      obtain ⟨base, hstarts, htracks⟩ := h.started _ hmem
      obtain ⟨hmore, hkept⟩ := hupdate tx tx' htx' base htracks
      have hname : tx'.table.tableName = tx.table.tableName :=
        hmore.table.2.trans htracks.table.2.symm
      refine ⟨{ h with started := ?_, named := h.named.replace hmem hname },
        ⟨fun _ hpair => hpair, ?_⟩⟩
      · exact forall_entries_insert ⟨base, hstarts, hmore⟩ h.started
      · intro key other hother
        by_cases hkey : key = id
        · subst hkey
          obtain rfl := value_unique hother hmem
          exact ⟨tx', mem_entries_insert_self, hkept⟩
        · exact ⟨other, mem_entries_insert.mpr (.inr ⟨hother, hkey⟩), fun _ hentry => hentry⟩

include hschema in
theorem onTable (hupdate : ∀ tx tx', update tx = .ok tx' → Continues tx tx') :
    (∃ creates, Composed opening creates (txn.onTable name update)) ∧
      txn.Extends (txn.onTable name update) := by
  unfold DatabaseCatalogTransaction.onTable
  split
  · exact ⟨⟨creates, h⟩, .refl txn⟩
  · rename_i hfound
    obtain ⟨⟨creates, hcomposed⟩, hextends, _⟩ := h.tableOrCreate hschema hfound
    obtain ⟨hupdated, hmore⟩ := hcomposed.updateTransaction hupdate
    exact ⟨⟨creates, hupdated⟩, hextends.trans hmore⟩

include hschema in
/-- Every call keeps the transaction in order and loses nothing. -/
theorem call (call : Call) :
    (∃ creates, Composed opening creates (txn.call call)) ∧ txn.Extends (txn.call call) := by
  cases call with
  | tableOrCreate table =>
    refine h.onTable hschema fun tx tx' hpure => ?_
    obtain rfl := pure_eq_ok.mp hpure
    exact .refl tx
  | columnOrCreate table column columnType =>
    simp only [DatabaseCatalogTransaction.call]
    split
    · rename_i hfound
      obtain ⟨hcomposed, hextends, _⟩ := h.tableTransaction hschema hfound
      refine (hcomposed.updateTransaction fun tx tx' hok => ?_).imp
        (fun hupdated => ⟨creates, hupdated⟩) hextends.trans
      obtain ⟨_, hcall, rfl⟩ := map_eq_ok.mp hok
      exact .columnOrCreate hcall
    · exact ⟨⟨creates, h⟩, .refl txn⟩
  | timeOrCreate table =>
    refine h.onTable hschema fun tx tx' hok => ?_
    obtain ⟨_, hcall, rfl⟩ := map_eq_ok.mp hok
    exact .timeOrCreate hcall
  | tagOrCreate table tag =>
    refine h.onTable hschema fun tx tx' hok => ?_
    obtain ⟨_, hcall, rfl⟩ := map_eq_ok.mp hok
    exact .tagOrCreate hcall
  | fieldOrCreate table field dataType =>
    refine h.onTable hschema fun tx tx' hok => ?_
    obtain ⟨_, hcall, rfl⟩ := map_eq_ok.mp hok
    exact .fieldOrCreate hcall

end Composed

section Application

variable {schema : DatabaseSchema} {tx : TableTransaction}

/-- An addition is accepted by a schema that has the table the transaction started from. -/
theorem addColumns_accepted (hschema : schema.Sound)
    (hmem : (id, base) ∈ schema.tables.repo.entries)
    (hpair : (id, base.tableName) ∈ schema.tables.idNameMap.pairs)
    (htracks : Tracks base tx) (hadds : tx.isEmpty = false) :
    ∃ table, (∀ entry, entry ∈ table.columns.repo.entries ↔
        entry ∈ tx.table.columns.repo.entries) ∧
      table.tableName = base.tableName ∧
      schema.updateSchema (.addColumns (txn.addColumnsLog tx)) = .ok
        ({ schema with tables := schema.tables.put id table schema.tables.nextId }, true) ∧
      DatabaseSchema.Sound { schema with
        tables := schema.tables.put id table schema.tables.nextId } := by
  obtain rfl : base.tableId = id := hschema.ids _ hmem
  obtain ⟨table, hadded, hsound, hid, hname, hentries⟩ :=
    TableDefinition.addFamiliesAndColumns_of_admits htracks.sound htracks.admits
  have hcolumns : tx.table.columns = (base.shape.growAll tx.additions).columns :=
    congrArg TableShape.columns htracks.shape
  have hchanged : (!tx.fieldFamilyDefinitions.isEmpty || !tx.columnDefinitions.isEmpty) = true := by
    simpa [TableTransaction.isEmpty, imp_iff_or_not, or_comm] using hadds
  rw [hchanged] at hadded
  refine ⟨table, hcolumns ▸ hentries, hname, ?_, ?_⟩
  · simp only [DatabaseSchema.updateSchema, DatabaseSchema.updateTable, addColumnsLog,
      htracks.table.1, Repository.getById_eq_some.mpr hmem, Fallible.okOr, pure_bind, hadded]
    change (schema.tables.update table.tableId table >>= _) = _
    rw [hid, hschema.update_of_mem hpair table]
    rfl
  · exact hschema.put hid hsound (hschema.next _ hmem) le_rfl hschema.nextId_le

theorem additions_accepted (txn : DatabaseCatalogTransaction) (txs : List (Nat × TableTransaction))
    (hschema : schema.Sound)
    (hids : (txs.map Prod.fst).Nodup)
    (hstart : ∀ entry ∈ txs, entry.2.isEmpty = false ∧ ∃ base,
      (entry.1, base) ∈ schema.tables.repo.entries ∧
        (entry.1, base.tableName) ∈ schema.tables.idNameMap.pairs ∧ Tracks base entry.2) :
    ∃ tables, schema.Accepts (txs.map fun entry => .addColumns (txn.addColumnsLog entry.2))
        { schema with tables := tables } ∧
      DatabaseSchema.Sound { schema with tables := tables } ∧
      (∀ pair, pair ∈ tables.idNameMap.pairs ↔ pair ∈ schema.tables.idNameMap.pairs) ∧
      (∀ entry ∈ txs, ∃ table, (entry.1, table) ∈ tables.repo.entries ∧
        ∀ column, column ∈ table.columns.repo.entries ↔
          column ∈ entry.2.table.columns.repo.entries) ∧
      ∀ entry, entry.1 ∉ txs.map Prod.fst →
        (entry ∈ tables.repo.entries ↔ entry ∈ schema.tables.repo.entries) := by
  induction txs generalizing schema with
  | nil => exact ⟨schema.tables, .nil schema, hschema, by simp, by simp, by simp⟩
  | cons first rest ih =>
    obtain ⟨hfirst, hrest⟩ := nodup_cons.mp hids
    obtain ⟨hadds, base, hmem, hpair, htracks⟩ := hstart first mem_cons_self
    obtain ⟨table, hcolumns, hname, hok, hsound⟩ :=
      addColumns_accepted hschema hmem hpair htracks hadds
    let next := schema.tables.put first.1 table schema.tables.nextId
    have hself : (first.1, table.tableName) ∈ schema.tables.idNameMap.pairs := by
      rw [hname]
      exact hpair
    have hpairs : ∀ pair, pair ∈ next.idNameMap.pairs ↔ pair ∈ schema.tables.idNameMap.pairs :=
      fun _ => BiMap.mem_pairs_insert_of_mem hself
    obtain ⟨tables, haccepts, hfinal, hfinalPairs, hgrown, hkept⟩ := ih hsound hrest (by
      intro entry hentry
      obtain ⟨hnonempty, start, hstartMem, hstartPair, hgrown⟩ :=
        hstart entry (mem_cons_of_mem _ hentry)
      refine ⟨hnonempty, start, mem_entries_insert.mpr (.inr ⟨hstartMem, ?_⟩),
        (hpairs _).mpr hstartPair, hgrown⟩
      intro hsame
      exact hfirst (hsame ▸ mem_map_of_mem hentry))
    refine ⟨tables, .cons hok haccepts, hfinal, fun pair => (hfinalPairs pair).trans (hpairs pair),
      ?_, ?_⟩
    · intro entry hentry
      rcases mem_cons.mp hentry with rfl | htail
      · exact ⟨table, (hkept (_, table) hfirst).mpr mem_entries_insert_self,
          hcolumns⟩
      · exact hgrown entry htail
    · intro entry hentry
      obtain ⟨hne, hnotMem⟩ := not_or.mp (mem_cons.not.mp hentry)
      rw [hkept entry hnotMem]
      refine mem_entries_insert.trans ⟨?_, fun hold => .inr ⟨hold, hne⟩⟩
      rintro (rfl | ⟨hold, _⟩)
      · exact absurd rfl hne
      · exact hold

/-- What the batch of a transaction makes of its schema: it has the transaction's tables under
their names, with their columns, and the other tables as they were. -/
structure Outcome (txn : DatabaseCatalogTransaction) (updated : DatabaseSchema) : Prop where
  sound : updated.Sound
  pairs : ∀ pair ∈ txn.tables.idNameMap.pairs, pair ∈ updated.tables.idNameMap.pairs
  grown : ∀ id tx, (id, tx) ∈ txn.tables.repo.entries → ∃ table,
    (id, table) ∈ updated.tables.repo.entries ∧
      ∀ entry, entry ∈ table.columns.repo.entries ↔ entry ∈ tx.table.columns.repo.entries
  kept : ∀ entry ∈ txn.databaseSchema.tables.repo.entries, entry.1 ∉ txn.tables.repo.keys →
    entry ∈ updated.tables.repo.entries

theorem columns_of_isEmpty (htracks : Tracks base tx) (hempty : tx.isEmpty = true) :
    tx.table.columns = base.columns := by
  have hnone : tx.additions = [] := by
    simpa [TableTransaction.isEmpty, TableTransaction.additions, and_comm] using hempty
  have hshape := htracks.shape
  rw [hnone] at hshape
  exact congrArg TableShape.columns hshape

/-- The batch is accepted by the schema once it is opened. -/
theorem Composed.accepted (h : Composed opening creates txn) (hschema : txn.databaseSchema.Sound)
    (hopening : txn.databaseSchema.Accepts opening txn.databaseSchema) :
    ∃ tables, txn.databaseSchema.Accepts txn.databaseBatch.ops
        { txn.databaseSchema with tables := tables } ∧
      txn.Outcome { txn.databaseSchema with tables := tables } := by
  obtain ⟨created, hcreate, hcreated, hentries, hpairs⟩ := hschema.createTables h.ids_nodup
    (fun create hcreate hmem => h.notMem_created hschema hmem (mem_map_of_mem hcreate))
    (fun create hcreate => (h.ids create hcreate).2.trans_le h.nextTableId_le) h.names_nodup
    (by
      intro create hcreate id hpair
      have hcontains := Repository.containsName_iff.mpr ⟨id, hpair⟩
      rw [h.names create hcreate] at hcontains
      cases hcontains)
  -- the tables that the transaction's tables started from are all there
  have hstarts : ∀ entry ∈ txn.tables.repo.entries, ∃ base,
      (entry.1, base) ∈ created.repo.entries ∧ (entry.1, base.tableName) ∈ created.idNameMap.pairs ∧
        Tracks base entry.2 := by
    intro entry hentry
    obtain ⟨base, hstarts, htracks⟩ := h.started entry hentry
    refine ⟨base, ?_, ?_, htracks⟩
    · rcases hstarts with ⟨hmem, _⟩ | ⟨create, hcreate, hid, rfl⟩
      · exact (hentries _).mpr (.inl hmem)
      · exact (hentries _).mpr (.inr ⟨create, hcreate, by rw [hid]⟩)
    · rcases hstarts with ⟨_, hpair⟩ | ⟨create, hcreate, hid, rfl⟩
      · exact (hpairs _).mpr (.inl hpair)
      · exact (hpairs _).mpr (.inr ⟨create, hcreate, by rw [hid]; rfl⟩)
  let txs := txn.tables.repo.entries.filter fun entry => !entry.2.isEmpty
  have hmemTxs :
      ∀ entry, entry ∈ txs ↔ entry ∈ txn.tables.repo.entries ∧ entry.2.isEmpty = false := by
    intro entry
    simp [txs]
  obtain ⟨tables, hadd, hsound, hsamePairs, hgrown, hkept⟩ :=
    additions_accepted txn txs hcreated
      ((filter_sublist.map Prod.fst).nodup txn.tables.repo.nodup_keys)
      (fun entry hentry =>
        ⟨((hmemTxs entry).mp hentry).2, hstarts entry ((hmemTxs entry).mp hentry).1⟩)
  have hops : txn.databaseBatch.ops = opening ++ creates.map .createTable ++
      txs.map fun entry => .addColumns (txn.addColumnsLog entry.2) := by
    simp only [databaseBatch, h.ops, IndexMap.values, filter_map, map_map, txs]
    rfl
  refine ⟨tables, hops ▸ (hopening.append hcreate).append hadd, ⟨hsound, ?_, ?_, ?_⟩⟩
  · intro pair hpair
    obtain ⟨tx, htx, hname⟩ := (h.named pair.1 pair.2).mp hpair
    obtain ⟨base, _, hbasePair, htracks⟩ := hstarts _ htx
    rw [← htracks.table.2, hname] at hbasePair
    exact (hsamePairs _).mpr hbasePair
  · intro id tx htx
    cases hempty : tx.isEmpty with
    | true =>
      obtain ⟨base, hmem, _, htracks⟩ := hstarts _ htx
      have hnotMem : id ∉ txs.map Prod.fst := by
        intro hid
        obtain ⟨other, hother, rfl⟩ := mem_map.mp hid
        obtain ⟨hmemOther, hnonempty⟩ := (hmemTxs other).mp hother
        obtain rfl := value_unique hmemOther htx
        exact absurd (hnonempty.symm.trans hempty) (by decide)
      exact ⟨base, (hkept (id, base) hnotMem).mpr hmem,
        fun entry => by rw [columns_of_isEmpty htracks hempty]⟩
    | false => exact hgrown (id, tx) ((hmemTxs _).mpr ⟨htx, hempty⟩)
  · intro entry hentry hkey
    refine (hkept entry ?_).mpr ((hentries entry).mpr (.inl hentry))
    intro hid
    obtain ⟨other, hother, heq⟩ := mem_map.mp hid
    exact hkey (heq ▸ mem_keys_of_mem ((hmemTxs other).mp hother).1)

end Application

end DatabaseCatalogTransaction

end RefluxDb.Catalog
