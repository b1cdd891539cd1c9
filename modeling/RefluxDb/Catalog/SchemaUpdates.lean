import RefluxDb.Catalog.Schema
import RefluxDb.Catalog.TableReplay

/-! What entries keep of a database: its tables are listed, and the parts of each agree.

Entries that make tables or add columns keep it when they bring new identifiers, and are then
accepted. The others keep it whatever they say, also when a deleted table is given a name that is
in use. -/

namespace RefluxDb.Catalog

open List RefluxDb.Library Fallible

namespace DatabaseSchema

def Sound (schema : DatabaseSchema) : Prop := schema.tables.Keeps TableDefinition.Sound

variable {schema updated : DatabaseSchema} {changed : Bool}

namespace Sound

variable {tableId : Nat}

theorem updateTable {tableName : String}
    {update : TableDefinition → Result (TableDefinition × Bool)} (h : schema.Sound)
    (hupdate : ∀ table newTable changed, update table = .ok (newTable, changed) →
      newTable.shape = table.shape)
    (hok : schema.updateTable tableId tableName update = .ok (updated, changed)) :
    updated.Sound := by
  simp only [DatabaseSchema.updateTable, bind_eq_ok, okOr_eq_ok] at hok
  obtain ⟨table, hget, ⟨newTable, wasChanged⟩, hnew, hok⟩ := hok
  cases wasChanged with
  | false =>
    obtain ⟨rfl, _⟩ := Prod.mk.inj (pure_eq_ok.mp hok)
    exact h
  | true =>
    simp only [if_true, bind_eq_ok, pure_eq_ok, Prod.mk.injEq] at hok
    obtain ⟨tables, hput, rfl, _⟩ := hok
    have hsound : table.Sound := h.all _ (Repository.getById_eq_some.mp hget)
    have hshape : newTable.shape = table.shape := hupdate table newTable _ hnew
    exact h.update hput rfl (hsound.of_shape_eq hshape)

theorem softDeleteTable {deletionTime : Int} {hardDeleteTime : Option Int}
    (h : schema.Sound)
    (hok : schema.softDeleteTable tableId deletionTime hardDeleteTime = .ok updated) :
    updated.Sound := by
  unfold DatabaseSchema.softDeleteTable at hok
  split at hok
  · exact pure_eq_ok.mp hok ▸ h
  · rename_i table hget
    split at hok
    · rename_i tables hupdate
      obtain rfl := pure_eq_ok.mp hok
      have hmem := Repository.getById_eq_some.mp hget
      have hid : table.tableId = tableId := h.ids _ hmem
      have hsound : table.Sound := h.all _ hmem
      exact h.update hupdate hid { hsound with }
    · exact pure_eq_ok.mp hok ▸ h
    · exact (throw_eq_ok.mp hok).elim

theorem softDelete {log : SoftDeleteDatabaseLog} (h : schema.Sound)
    (hok : schema.softDelete log = .ok updated) : updated.Sound := by
  simp only [DatabaseSchema.softDelete, bind_eq_ok] at hok
  obtain ⟨cascaded, htables, htriggers⟩ := hok
  have hcascaded : cascaded.Sound := by
    refine foldlM_keeps Sound ?_ ?_ htables
    · exact fun _ _ _ _ hbefore hstep => hbefore.softDeleteTable hstep
    · exact h
  refine foldlM_keeps Sound (fun _ _ _ _ hbefore hstep => ?_) hcascaded htriggers
  obtain ⟨_, rfl⟩ := disableTriggerById_eq hstep
  exact hbefore

theorem updateSchema {op : DatabaseCatalogOp} (h : schema.Sound) (hop : op.keepsColumns = true)
    (hok : schema.updateSchema op = .ok (updated, changed)) : updated.Sound := by
  cases op with
  | createDatabase log =>
    simp only [DatabaseSchema.updateSchema, bind_eq_ok, pure_eq_ok,
      Prod.mk.injEq] at hok
    obtain ⟨_, _, rfl, _⟩ := hok
    exact h
  | softDeleteDatabase log =>
    simp only [DatabaseSchema.updateSchema, bind_eq_ok, pure_eq_ok,
      Prod.mk.injEq] at hok
    obtain ⟨_, hdelete, rfl, _⟩ := hok
    exact h.softDelete hdelete
  | createTable log => cases hop
  | addColumns log => cases hop
  | softDeleteTable log =>
    simp only [DatabaseSchema.updateSchema] at hok
    split at hok
    · simp only [bind_eq_ok, pure_eq_ok, Prod.mk.injEq] at hok
      obtain ⟨_, hdelete, rfl, _⟩ := hok
      exact h.softDeleteTable hdelete
    · obtain ⟨rfl, _⟩ := Prod.mk.inj (pure_eq_ok.mp hok)
      exact h
  | createDistinctCache _ | createLastCache _ =>
    refine h.updateTable (fun table newTable changed hnew => ?_) hok
    simp only [bind_eq_ok, pure_eq_ok, Prod.mk.injEq] at hnew
    obtain ⟨_, _, rfl, _⟩ := hnew
    rfl
  | deleteDistinctCache _ | deleteLastCache _ =>
    refine h.updateTable (fun table newTable changed hnew => ?_) hok
    obtain ⟨rfl, _⟩ := Prod.mk.inj (pure_eq_ok.mp hnew)
    rfl
  | createTrigger definition =>
    obtain ⟨_, rfl⟩ := createTrigger_eq hok
    exact h
  | deleteTrigger log =>
    obtain ⟨_, rfl⟩ := deleteTrigger_eq hok
    exact h
  | enableTrigger _ | disableTrigger _ =>
    obtain ⟨_, rfl⟩ := setTriggerDisabled_eq hok
    exact h
  | setRetentionPeriod _ | clearRetentionPeriod _ =>
    obtain ⟨rfl, _⟩ := Prod.mk.inj (pure_eq_ok.mp hok)
    exact h

theorem applyOps {ops : List DatabaseCatalogOp} (h : schema.Sound)
    (hops : ∀ op ∈ ops, op.keepsColumns = true)
    (hok : schema.applyOps ops = .ok (updated, changed)) : updated.Sound := by
  refine foldlM_keeps (fun state : DatabaseSchema × Bool => state.1.Sound) ?_ h hok
  intro state next op hop hsound hstep
  simp only [bind_eq_ok, pure_eq_ok] at hstep
  obtain ⟨⟨_, _⟩, hupdate, rfl⟩ := hstep
  exact hsound.updateSchema (hops op hop) hupdate

end Sound

section Accepting

/-- The entries are accepted, each of them changes something, and this comes of it. -/
def Accepts (schema : DatabaseSchema) (ops : List DatabaseCatalogOp) (updated : DatabaseSchema) :
    Prop :=
  ∀ changed, ops.foldlM (fun (state : DatabaseSchema × Bool) op => do
    let (updated, changed) ← state.1.updateSchema op
    pure (updated, state.2 || changed)) (schema, changed) = .ok (updated, changed || !ops.isEmpty)

variable {ops rest : List DatabaseCatalogOp} {op : DatabaseCatalogOp} {next : DatabaseSchema}

theorem Accepts.nil (schema : DatabaseSchema) : schema.Accepts [] schema := by
  intro changed
  simp

theorem Accepts.cons (hop : schema.updateSchema op = .ok (next, true))
    (hrest : next.Accepts rest updated) : schema.Accepts (op :: rest) updated := by
  intro changed
  rw [foldlM_cons, hop]
  simpa [bind, Except.bind, pure, Except.pure] using hrest true

theorem Accepts.append (hops : schema.Accepts ops next) (hrest : next.Accepts rest updated) :
    schema.Accepts (ops ++ rest) updated := by
  intro changed
  have hempty :
      (changed || !(ops ++ rest).isEmpty) = ((changed || !ops.isEmpty) || !rest.isEmpty) := by
    cases ops <;> simp
  rw [foldlM_append, hops changed, hempty]
  exact hrest (changed || !ops.isEmpty)

theorem Accepts.applyOps (h : schema.Accepts ops updated) :
    schema.applyOps ops = .ok (updated, !ops.isEmpty) :=
  h false

/-- A table under a new identifier. -/
theorem Sound.createTable (h : schema.Sound) {log : CreateTableLog}
    (hnew : log.tableId ∉ schema.tables.repo.keys) :
    schema.updateSchema (.createTable log) = .ok
      ({ schema with
        tables := schema.tables.put log.tableId
          (.newEmpty log.tableId log.tableName log.fieldFamilyMode)
          (schema.tables.nextIdAfter log.tableId) }, true) := by
  have hcontains : schema.tables.containsId log.tableId = false :=
    IndexMap.contains_eq_false_iff.mpr hnew
  have hinsert :
      ∀ table, schema.tables.insert log.tableId table = .ok (schema.tables.put log.tableId
      table (schema.tables.nextIdAfter log.tableId)) := fun _ => h.insert_of_notMem hnew
  simp [DatabaseSchema.updateSchema, hcontains, hinsert, Fallible.unwrap, bind, Except.bind, pure,
    Except.pure]

/-- New tables, under new names and identifiers. -/
theorem Sound.createTables {creates : List CreateTableLog} (h : schema.Sound)
    (hids : (creates.map CreateTableLog.tableId).Nodup)
    (hnew : ∀ create ∈ creates, create.tableId ∉ schema.tables.repo.keys)
    (hmax : ∀ create ∈ creates, create.tableId < CatalogResource.maxId TableDefinition)
    (hnames : (creates.map CreateTableLog.tableName).Nodup)
    (hfree : ∀ create ∈ creates, ∀ id, (id, create.tableName) ∉ schema.tables.idNameMap.pairs) :
    ∃ tables, schema.Accepts (creates.map .createTable) { schema with tables := tables } ∧
      Sound { schema with tables := tables } ∧
      (∀ entry, entry ∈ tables.repo.entries ↔ entry ∈ schema.tables.repo.entries ∨
        ∃ create ∈ creates, entry = (create.tableId,
          .newEmpty create.tableId create.tableName create.fieldFamilyMode)) ∧
      ∀ pair, pair ∈ tables.idNameMap.pairs ↔ pair ∈ schema.tables.idNameMap.pairs ∨
        ∃ create ∈ creates, pair = (create.tableId, create.tableName) := by
  induction creates generalizing schema with
  | nil => exact ⟨schema.tables, .nil schema, h, by simp, by simp⟩
  | cons create creates ih =>
    simp only [map_cons, nodup_cons, mem_map, not_exists, not_and] at hids hnames
    have hfirst := hnew create mem_cons_self
    have hbound := hmax create mem_cons_self
    let table : TableDefinition :=
      .newEmpty create.tableId create.tableName create.fieldFamilyMode
    let tables := schema.tables.put create.tableId table (schema.tables.nextIdAfter create.tableId)
    have hentries : ∀ entry, entry ∈ tables.repo.entries ↔
        entry = (create.tableId, table) ∨ entry ∈ schema.tables.repo.entries :=
      fun _ => IndexMap.mem_entries_insert_of_notMem hfirst
    have hpairs : ∀ pair, pair ∈ tables.idNameMap.pairs ↔
        pair = (create.tableId, create.tableName) ∨ pair ∈ schema.tables.idNameMap.pairs := by
      intro pair
      refine BiMap.mem_pairs_insert.trans (or_congr_right ⟨And.left, fun hold => ⟨hold, ?_, ?_⟩⟩)
      · rintro hid
        obtain ⟨_, hmem, _⟩ := h.named pair.1 pair.2 hold
        exact hfirst (hid ▸ IndexMap.mem_keys_of_mem hmem)
      · intro hname
        have hname : pair.2 = create.tableName := hname
        exact hfree create mem_cons_self pair.1 (hname ▸ hold)
    have hsound : Sound { schema with tables := tables } :=
      h.put rfl (.newEmpty _ _ _) (Repository.lt_nextIdAfter (.inl hbound))
        (Repository.le_nextIdAfter _) (Repository.nextIdAfter_le h.nextId_le)
    obtain ⟨final, haccepts, hfinal, hfinalEntries, hfinalPairs⟩ := ih hsound hids.2
      (by
        intro other hother hmem
        obtain ⟨existing, hentry⟩ := IndexMap.mem_keys.mp hmem
        rcases (hentries _).mp hentry with hself | hold
        · exact hids.1 other hother (Prod.mk.inj hself).1
        · exact hnew other (mem_cons_of_mem _ hother) (IndexMap.mem_keys_of_mem hold))
      (fun other hother => hmax other (mem_cons_of_mem _ hother)) hnames.2
      (by
        intro other hother id hpair
        rcases (hpairs _).mp hpair with hself | hold
        · exact hnames.1 other hother (Prod.mk.inj hself).2
        · exact hfree other (mem_cons_of_mem _ hother) id hold)
    refine ⟨final, .cons (h.createTable hfirst) haccepts, hfinal, ?_, ?_⟩
    · intro entry
      rw [hfinalEntries, hentries]
      simp only [mem_cons, exists_eq_or_imp]
      grind
    · intro pair
      rw [hfinalPairs, hpairs]
      simp only [mem_cons, exists_eq_or_imp]
      grind

end Accepting

end DatabaseSchema

end RefluxDb.Catalog
