import RefluxDb.Catalog.Operations
import RefluxDb.Catalog.Snapshot

/-! What a batch does to the tokens and the databases of whatever catalog it is applied to, and what
the operations put into a batch.

The effects are stated in terms of identifiers only: which tokens a batch creates and with which
permissions, which databases it speaks of and which it deletes. An operation hands out the next
identifier or uses that of a resource it has found. -/

namespace RefluxDb.Catalog

open List RefluxDb.Library Fallible Repository
open CatalogResource (maxId)

/-- The token an entry creates, with its permissions. -/
def TokenCatalogOp.created : TokenCatalogOp → List (Nat × List Permission)
  | .createAdminToken details => [(details.tokenId, [adminPermission])]
  | .createScopedToken details => [(details.tokenId, details.permissions)]
  | .regenerateAdminToken _ => []
  | .deleteToken _ => []

def DeleteOp.deleted : DeleteOp → List Nat
  | .deleteDatabase dbId => [dbId]
  | .deleteTable _ _ => []

namespace CatalogBatch

/-- The tokens a batch creates, with their permissions. -/
def created : CatalogBatch → List (Nat × List Permission)
  | .token _ ops => ops.flatMap TokenCatalogOp.created
  | _ => []

/-- The database a batch makes or changes. -/
def databaseIds : CatalogBatch → List Nat
  | .database batch => [batch.databaseId]
  | _ => []

/-- The databases a batch deletes. -/
def deleted : CatalogBatch → List Nat
  | .delete _ ops => ops.flatMap DeleteOp.deleted
  | _ => []

/-- Whether a batch makes no table and adds no columns. -/
def keepsColumns : CatalogBatch → Bool
  | .database batch => batch.ops.all DatabaseCatalogOp.keepsColumns
  | _ => true

end CatalogBatch

section Tokens

/-- The tokens afterwards are those before and the created ones, with their permissions, and the
next identifier is above the created ones. -/
structure TokenEffect (before after : TokenRepository) (created : List (Nat × List Permission)) :
    Prop where
  permissions : ∀ entry ∈ after.repo.repo.entries,
    (entry.1, entry.2.permissions) ∈ created ∨
      ∃ token, (entry.1, token) ∈ before.repo.repo.entries ∧
        token.permissions = entry.2.permissions
  nextId : before.repo.nextId ≤ after.repo.nextId
  above : ∀ grant ∈ created, grant.1 < maxId TokenInfo → grant.1 < after.repo.nextId

namespace TokenEffect

variable {a b c : TokenRepository} {first second : List (Nat × List Permission)}

theorem refl (a : TokenRepository) : TokenEffect a a [] where
  permissions := fun entry hentry => .inr ⟨entry.2, hentry, rfl⟩
  nextId := le_rfl
  above := by simp

theorem trans (hab : TokenEffect a b first) (hbc : TokenEffect b c second) :
    TokenEffect a c (first ++ second) where
  permissions := by
    intro entry hentry
    rcases hbc.permissions entry hentry with hnew | ⟨token, htoken, hsame⟩
    · exact .inl (mem_append_right _ hnew)
    · rcases hab.permissions _ htoken with hnew | ⟨old, hold, holdSame⟩
      · rw [hsame] at hnew
        exact .inl (mem_append_left _ hnew)
      · exact .inr ⟨old, hold, holdSame.trans hsame⟩
  nextId := hab.nextId.trans hbc.nextId
  above := by
    intro grant hgrant hmax
    rcases mem_append.mp hgrant with hfirst | hsecond
    · exact (hab.above grant hfirst hmax).trans_le hbc.nextId
    · exact hbc.above grant hsecond hmax

variable {tokens updated : TokenRepository}

theorem addToken {id : Nat} {token : TokenInfo}
    (h : tokens.addToken id token = .ok updated) :
    TokenEffect tokens updated [(id, token.permissions)] := by
  simp only [TokenRepository.addToken, bind_eq_ok, pure_eq_ok] at h
  obtain ⟨repo, hinsert, rfl⟩ := h
  obtain ⟨_, _, rfl⟩ := insert_eq_ok.mp hinsert
  refine ⟨?_, le_nextIdAfter id, ?_⟩
  · exact IndexMap.forall_entries_insert (.inl mem_cons_self)
      fun entry hold => .inr ⟨entry.2, hold, rfl⟩
  · intro grant hgrant hmax
    obtain rfl := mem_singleton.mp hgrant
    change id < tokens.repo.nextIdAfter id
    unfold Repository.nextIdAfter
    split <;> omega

theorem updateAdminTokenHash {id : Nat} {hash : List UInt8}
    {updatedAt : Int} (h : tokens.updateAdminTokenHash id hash updatedAt = .ok updated) :
    TokenEffect tokens updated [] := by
  simp only [TokenRepository.updateAdminTokenHash, bind_eq_ok, okOr_eq_ok,
    pure_eq_ok] at h
  obtain ⟨token, hfound, repo, hupdate, rfl⟩ := h
  obtain ⟨_, _, rfl⟩ := update_eq_ok.mp hupdate
  exact ⟨IndexMap.forall_entries_insert
    (.inr ⟨token, getById_eq_some.mp hfound, rfl⟩)
    fun entry hold => .inr ⟨entry.2, hold, rfl⟩, le_rfl, by simp⟩

theorem deleteToken {name : String}
    (h : tokens.deleteToken name = .ok updated) : TokenEffect tokens updated [] := by
  simp only [TokenRepository.deleteToken, bind_eq_ok, okOr_eq_ok,
    pure_eq_ok] at h
  obtain ⟨id, _, rfl⟩ := h
  refine ⟨?_, le_rfl, by simp⟩
  intro entry hentry
  exact .inr ⟨entry.2, (IndexMap.mem_entries_erase.mp hentry).1, rfl⟩

end TokenEffect

end Tokens

section Databases

/-- Resources are kept under their own identifiers. -/
def OwnIds (databases : Repository DatabaseSchema) : Prop :=
  ∀ entry ∈ databases.repo.entries, entry.2.id = entry.1

/-- The databases afterwards are among those before and the added ones, none of them is a deleted
one, and the next identifier is above the added ones. -/
structure DatabaseEffect (before after : Repository DatabaseSchema) (added deleted : List Nat) :
    Prop where
  keys : ∀ id ∈ after.repo.keys, (id ∈ before.repo.keys ∨ id ∈ added) ∧ id ∉ deleted
  ownIds : OwnIds after
  nextId : before.nextId ≤ after.nextId
  above : ∀ id ∈ added, id < maxId DatabaseSchema → id < after.nextId ∨ id ∈ before.repo.keys

namespace DatabaseEffect

variable {a b c : Repository DatabaseSchema} {first second : List Nat}

theorem refl (h : OwnIds a) : DatabaseEffect a a [] [] where
  keys := fun _ hid => ⟨.inl hid, not_mem_nil⟩
  ownIds := h
  nextId := le_rfl
  above := by simp

theorem trans (hab : DatabaseEffect a b [] first) (hbc : DatabaseEffect b c [] second) :
    DatabaseEffect a c [] (first ++ second) where
  keys := by
    intro id hid
    obtain ⟨hb, hsecond⟩ := hbc.keys id hid
    have hkept : id ∈ b.repo.keys := hb.resolve_right not_mem_nil
    obtain ⟨ha, hfirst⟩ := hab.keys id hkept
    exact ⟨ha, by simp [hfirst, hsecond]⟩
  ownIds := hbc.ownIds
  nextId := hab.nextId.trans hbc.nextId
  above := by simp

variable {db : DatabaseSchema}

variable {databases updated : Repository DatabaseSchema}

theorem update {id : Nat}
    (hown : OwnIds databases) (hid : db.id = id) (h : databases.update id db = .ok updated) :
    DatabaseEffect databases updated [] [] := by
  obtain ⟨_, hmem, rfl⟩ := update_eq_ok.mp h
  refine ⟨?_, ?_, le_rfl, by simp⟩
  · intro key hkey
    rcases IndexMap.mem_keys_insert.mp hkey with rfl | hkey
    · exact ⟨.inl hmem, not_mem_nil⟩
    · exact ⟨.inl hkey, not_mem_nil⟩
  · exact IndexMap.forall_entries_insert hid hown

theorem insert {id : Nat}
    (hown : OwnIds databases) (hid : db.id = id) (h : databases.insert id db = .ok updated) :
    DatabaseEffect databases updated [id] [] := by
  obtain ⟨_, _, rfl⟩ := insert_eq_ok.mp h
  refine ⟨?_, ?_, le_nextIdAfter id, ?_⟩
  · intro key hkey
    rcases IndexMap.mem_keys_insert.mp hkey with rfl | hkey
    · exact ⟨.inr mem_cons_self, not_mem_nil⟩
    · exact ⟨.inl hkey, not_mem_nil⟩
  · exact IndexMap.forall_entries_insert hid hown
  · intro key hkey hmax
    obtain rfl := mem_singleton.mp hkey
    left
    change key < databases.nextIdAfter key
    unfold Repository.nextIdAfter
    split <;> omega

theorem remove (hown : OwnIds a) (id : Nat) : DatabaseEffect a (a.remove id) [] [id] where
  keys := by
    intro key hkey
    obtain ⟨hkey, hne⟩ := IndexMap.mem_keys_erase.mp hkey
    exact ⟨.inl hkey, by simpa using hne⟩
  ownIds := fun entry hentry => hown entry (IndexMap.mem_entries_erase.mp hentry).1
  nextId := le_rfl
  above := by simp

end DatabaseEffect

end Databases

structure BatchEffect (before after : InnerCatalog) (batch : CatalogBatch) : Prop where
  tokens : TokenEffect before.tokens after.tokens batch.created
  databases : DatabaseEffect before.databases after.databases batch.databaseIds batch.deleted
  sequence : after.sequence = before.sequence

namespace InnerCatalog

section Application

variable {inner updated : InnerCatalog} {changed : Bool}

theorem applyNodeOp_frame {nodeCatalogId : Nat} {op : NodeCatalogOp}
    (h : inner.applyNodeOp nodeCatalogId op = .ok (updated, changed)) :
    ∃ nodes, updated = { inner with nodes := nodes } := by
  cases op with
  | registerNode log =>
    simp only [applyNodeOp] at h
    split at h
    · simp only [bind_eq_ok, pure_eq_ok, Prod.mk.injEq] at h
      obtain ⟨_, _, nodes, _, rfl, _⟩ := h
      exact ⟨nodes, rfl⟩
    · simp only [bind_eq_ok, pure_eq_ok, Prod.mk.injEq] at h
      obtain ⟨nodes, _, rfl, _⟩ := h
      exact ⟨nodes, rfl⟩
  | stopNode log =>
    simp only [applyNodeOp] at h
    split at h
    · simp only [bind_eq_ok, pure_eq_ok, Prod.mk.injEq] at h
      obtain ⟨nodes, _, rfl, _⟩ := h
      exact ⟨nodes, rfl⟩
    · obtain ⟨rfl, _⟩ := Prod.mk.inj (pure_eq_ok.mp h)
      exact ⟨_, rfl⟩

theorem applyGenerationOp_frame {log : SetGenerationDurationLog}
    (h : inner.applyGenerationOp log = .ok (updated, changed)) :
    ∃ config, updated = { inner with generationConfig := config } := by
  simp only [applyGenerationOp, bind_eq_ok, pure_eq_ok, Prod.mk.injEq] at h
  obtain ⟨⟨config, _⟩, _, rfl, _⟩ := h
  exact ⟨config, rfl⟩

theorem applyTokenOp_effect {op : TokenCatalogOp}
    (h : inner.applyTokenOp op = .ok (updated, changed)) :
    ∃ tokens, updated = { inner with tokens := tokens } ∧
      TokenEffect inner.tokens tokens op.created := by
  cases op with
  | createAdminToken details =>
    simp only [applyTokenOp, bind_eq_ok, pure_eq_ok, Prod.mk.injEq] at h
    obtain ⟨tokens, hadd, rfl, _⟩ := h
    exact ⟨tokens, rfl, .addToken hadd⟩
  | createScopedToken details =>
    simp only [applyTokenOp, bind_eq_ok, pure_eq_ok, Prod.mk.injEq] at h
    obtain ⟨tokens, hadd, rfl, _⟩ := h
    exact ⟨tokens, rfl, .addToken hadd⟩
  | regenerateAdminToken details =>
    simp only [applyTokenOp, bind_eq_ok, pure_eq_ok, Prod.mk.injEq] at h
    obtain ⟨tokens, hupdate, rfl, _⟩ := h
    exact ⟨tokens, rfl, .updateAdminTokenHash hupdate⟩
  | deleteToken tokenName =>
    simp only [applyTokenOp, bind_eq_ok, pure_eq_ok, Prod.mk.injEq] at h
    obtain ⟨tokens, hdelete, rfl, _⟩ := h
    exact ⟨tokens, rfl, .deleteToken hdelete⟩

theorem applyDeleteOp_effect {op : DeleteOp} (hown : OwnIds inner.databases)
    (h : inner.applyDeleteOp op = .ok (updated, changed)) :
    ∃ databases, updated = { inner with databases := databases } ∧
      DatabaseEffect inner.databases databases [] op.deleted := by
  cases op with
  | deleteDatabase dbId =>
    simp only [applyDeleteOp] at h
    split at h
    · obtain ⟨rfl, _⟩ := Prod.mk.inj (pure_eq_ok.mp h)
      exact ⟨_, rfl, .remove hown dbId⟩
    · rename_i hnone
      obtain ⟨rfl, _⟩ := Prod.mk.inj (pure_eq_ok.mp h)
      have habsent : dbId ∉ inner.databases.repo.keys :=
        IndexMap.get_eq_none.mp (Option.not_isSome_iff_eq_none.mp hnone)
      refine ⟨_, rfl, ⟨?_, hown, le_rfl, by simp⟩⟩
      intro id hid
      refine ⟨.inl hid, ?_⟩
      rintro hdeleted
      obtain rfl := mem_singleton.mp hdeleted
      exact habsent hid
  | deleteTable dbId tableId =>
    simp only [applyDeleteOp] at h
    split at h
    · obtain ⟨rfl, _⟩ := Prod.mk.inj (pure_eq_ok.mp h)
      exact ⟨_, rfl, .refl hown⟩
    · rename_i db hdb
      split at h
      · simp only [bind_eq_ok, pure_eq_ok, Prod.mk.injEq] at h
        obtain ⟨databases, hupdate, rfl, _⟩ := h
        have hid : { db with tables := db.tables.remove tableId }.id = dbId :=
          hown _ (getById_eq_some.mp hdb)
        exact ⟨databases, rfl, .update hown hid hupdate⟩
      · obtain ⟨rfl, _⟩ := Prod.mk.inj (pure_eq_ok.mp h)
        exact ⟨_, rfl, .refl hown⟩

/-- The rule for the entries of a batch: `holds` looks back at the entries already applied. -/
theorem applyAll_induct {ι : Type} {apply : InnerCatalog → ι → Result (InnerCatalog × Bool)}
    {ops : List ι} (holds : List ι → InnerCatalog → Prop)
    (hstep : ∀ done op inner updated changed, holds done inner →
      apply inner op = .ok (updated, changed) → holds (done ++ [op]) updated)
    (hinner : holds [] inner) (h : inner.applyAll apply ops = .ok (updated, changed)) :
    holds ops updated := by
  refine foldlM_induct (fun done (state : InnerCatalog × Bool) => holds done state.1)
    ?_ hinner h
  intro done op _ state next _ hstate happly
  simp only [bind_eq_ok, pure_eq_ok] at happly
  obtain ⟨⟨result, resultChanged⟩, happly, rfl⟩ := happly
  exact hstep done op _ _ _ hstate happly

theorem applyDatabaseBatch_effect {batch : DatabaseBatch} (hown : OwnIds inner.databases)
    (h : inner.applyDatabaseBatch batch = .ok (updated, changed)) :
    ∃ databases, updated = { inner with databases := databases } ∧
      DatabaseEffect inner.databases databases [batch.databaseId] [] := by
  have hkept : ∀ {databases}, DatabaseEffect inner.databases databases [] [] →
      batch.databaseId ∈ inner.databases.repo.keys →
      DatabaseEffect inner.databases databases [batch.databaseId] [] := by
    intro databases heffect hmem
    refine ⟨?_, heffect.ownIds, heffect.nextId, ?_⟩
    · intro id hid
      obtain ⟨hbefore, hdeleted⟩ := heffect.keys id hid
      exact ⟨.inl (hbefore.resolve_right not_mem_nil), hdeleted⟩
    · intro id hid _
      obtain rfl := mem_singleton.mp hid
      exact .inr hmem
  unfold applyDatabaseBatch at h
  split at h
  · rename_i db hdb
    have hentry := getById_eq_some.mp hdb
    have hmem := IndexMap.mem_keys_of_mem hentry
    simp only [bind_eq_ok] at h
    obtain ⟨⟨schema, schemaChanged⟩, hops, h⟩ := h
    cases schemaChanged with
    | false =>
      obtain ⟨rfl, _⟩ := Prod.mk.inj (pure_eq_ok.mp h)
      exact ⟨_, rfl, hkept (.refl hown) hmem⟩
    | true =>
      simp only [if_true, bind_eq_ok, unwrap_eq_ok, pure_eq_ok,
        Prod.mk.injEq] at h
      obtain ⟨databases, hupdate, rfl, _⟩ := h
      have hid : schema.id = db.id := DatabaseSchema.applyOps_id hops
      exact ⟨databases, rfl, hkept (.update hown hid hupdate) hmem⟩
  · simp only [bind_eq_ok, unwrap_eq_ok, pure_eq_ok, Prod.mk.injEq] at h
    obtain ⟨⟨schema, _⟩, hops, _, _, databases, hinsert, rfl, _⟩ := h
    have hid : schema.id = batch.databaseId := DatabaseSchema.applyOps_id hops
    have heffect := DatabaseEffect.insert hown rfl hinsert
    rw [hid] at heffect
    exact ⟨databases, rfl, heffect⟩

variable {batch : CatalogBatch}

theorem applyBatch_effect (hown : OwnIds inner.databases)
    (h : inner.applyBatch batch = .ok (updated, changed)) : BatchEffect inner updated batch := by
  cases batch with
  | node batch =>
    simp only [applyBatch] at h
    refine applyAll_induct (fun _ state => BatchEffect inner state (.node batch)) ?_
      ⟨.refl _, .refl hown, rfl⟩ h
    intro _ op state next _ hstate hop
    obtain ⟨nodes, rfl⟩ := applyNodeOp_frame hop
    exact ⟨hstate.tokens, hstate.databases, hstate.sequence⟩
  | database batch =>
    obtain ⟨databases, rfl, heffect⟩ := applyDatabaseBatch_effect hown h
    exact ⟨.refl _, heffect, rfl⟩
  | token timeNs ops =>
    refine applyAll_induct (fun done state => BatchEffect inner state (.token timeNs done)) ?_
      ⟨.refl _, .refl hown, rfl⟩ h
    intro done op state next _ hstate hop
    obtain ⟨tokens, rfl, heffect⟩ := applyTokenOp_effect hop
    refine ⟨?_, hstate.databases, hstate.sequence⟩
    have htokens := hstate.tokens.trans heffect
    simpa [CatalogBatch.created] using htokens
  | delete timeNs ops =>
    refine applyAll_induct (fun done state => BatchEffect inner state (.delete timeNs done)) ?_
      ⟨.refl _, .refl hown, rfl⟩ h
    intro done op state next _ hstate hop
    obtain ⟨databases, rfl, heffect⟩ := applyDeleteOp_effect hstate.databases.ownIds hop
    refine ⟨hstate.tokens, ?_, hstate.sequence⟩
    have hdatabases := DatabaseEffect.trans hstate.databases heffect
    simpa [CatalogBatch.databaseIds, CatalogBatch.deleted] using hdatabases
  | generation timeNs ops =>
    refine applyAll_induct (fun _ state => BatchEffect inner state (.generation timeNs ops)) ?_
      ⟨.refl _, .refl hown, rfl⟩ h
    intro _ op state next _ hstate hop
    obtain ⟨config, rfl⟩ := applyGenerationOp_frame hop
    exact ⟨hstate.tokens, hstate.databases, hstate.sequence⟩

theorem applyAll_unchanged {ι : Type} {apply : InnerCatalog → ι → Result (InnerCatalog × Bool)}
    {ops : List ι} (hop : ∀ inner updated op, apply inner op = .ok (updated, false) →
      updated = inner)
    (h : inner.applyAll apply ops = .ok (updated, false)) : updated = inner := by
  have hkeeps : (updated, false).2 = false → (updated, false).1 = inner := by
    refine foldlM_keeps
      (fun state : InnerCatalog × Bool => state.2 = false → state.1 = inner) ?_ (fun _ => rfl) h
    intro state next op _ hstate hstep hfalse
    simp only [bind_eq_ok, pure_eq_ok] at hstep
    obtain ⟨⟨result, resultChanged⟩, happly, rfl⟩ := hstep
    obtain ⟨hbefore, rfl⟩ : state.2 = false ∧ resultChanged = false := by simpa using hfalse
    exact (hop _ _ _ happly).trans (hstate hbefore)
  exact hkeeps rfl

theorem applyBatch_unchanged
    (h : inner.applyBatch batch = .ok (updated, false)) : updated = inner := by
  cases batch with
  | node batch =>
    simp only [applyBatch] at h
    refine applyAll_unchanged (fun inner updated op hop => ?_) h
    cases op with
    | registerNode log =>
      simp only [applyNodeOp] at hop
      split at hop
      · simp at hop
      · simp at hop
    | stopNode log =>
      simp only [applyNodeOp] at hop
      split at hop
      · simp at hop
      · exact (Prod.mk.inj (pure_eq_ok.mp hop)).1.symm
  | database batch =>
    simp only [applyBatch, applyDatabaseBatch] at h
    split at h
    · simp only [bind_eq_ok] at h
      obtain ⟨⟨_, schemaChanged⟩, _, h⟩ := h
      cases schemaChanged with
      | false => exact (Prod.mk.inj (pure_eq_ok.mp h)).1.symm
      | true => simp at h
    · simp at h
  | token timeNs ops =>
    refine applyAll_unchanged (fun inner updated op hop => ?_) h
    cases op <;> simp [applyTokenOp] at hop
  | delete timeNs ops =>
    refine applyAll_unchanged (fun inner updated op hop => ?_) h
    cases op with
    | deleteDatabase dbId =>
      simp only [applyDeleteOp] at hop
      split at hop
      · simp at hop
      · exact (Prod.mk.inj (pure_eq_ok.mp hop)).1.symm
    | deleteTable dbId tableId =>
      simp only [applyDeleteOp] at hop
      split at hop
      · exact (Prod.mk.inj (pure_eq_ok.mp hop)).1.symm
      · split at hop
        · simp at hop
        · exact (Prod.mk.inj (pure_eq_ok.mp hop)).1.symm
  | generation timeNs ops =>
    refine applyAll_unchanged (fun inner updated log hop => ?_) h
    simp only [applyGenerationOp, GenerationConfig.setDuration] at hop
    split at hop
    · simp only [bind_eq_ok, pure_eq_ok, Prod.mk.injEq] at hop
      obtain ⟨_, ⟨_, _, rfl⟩, rfl, _⟩ := hop
      rfl
    · simp at hop

/-- Loading a file applies its batch; only the sequence number may stay behind. -/
theorem applyLogFile_eq_ok {file : OrderedCatalogBatch}
    (h : inner.applyLogFile file = .ok updated) :
    ∃ applied changed, inner.applyBatch file.batch = .ok (applied, changed) ∧
      (updated = { applied with sequence := file.sequence } ∨ updated = applied) := by
  simp only [applyLogFile, applyCatalogBatch, bind_eq_ok, pure_eq_ok] at h
  obtain ⟨_, ⟨⟨applied, changed⟩, happly, rfl⟩, rfl⟩ := h
  cases changed with
  | true => exact ⟨applied, true, happly, .inl rfl⟩
  | false => exact ⟨applied, false, happly, .inr (applyBatch_unchanged happly).symm⟩

theorem applyOrderedCatalogBatch_eq_ok {sequence : Nat}
    (h : inner.applyOrderedCatalogBatch batch sequence = .ok updated) :
    ∃ applied, inner.applyBatch batch = .ok (applied, true) ∧
      updated = { applied with sequence := sequence } := by
  simp only [applyOrderedCatalogBatch, applyCatalogBatch, bind_eq_ok,
    unwrap_eq_ok, pure_eq_ok, expect_eq_ok] at h
  obtain ⟨_, _, _, ⟨⟨applied, changed⟩, happly, rfl⟩, hsome⟩ := h
  cases changed with
  | true => exact ⟨applied, happly, (Option.some.inj hsome).symm⟩
  | false => cases hsome

end Application

section Composition

/-- Two catalogs that differ in the next identifiers only, which may have grown. -/
structure HandsOut (inner next : InnerCatalog) : Prop where
  sequence : next.sequence = inner.sequence
  tokens : next.tokens.repo.repo = inner.tokens.repo.repo
  databases : next.databases.repo = inner.databases.repo
  names : next.databases.idNameMap = inner.databases.idNameMap
  nextToken : inner.tokens.repo.nextId ≤ next.tokens.repo.nextId
  nextDatabase : inner.databases.nextId ≤ next.databases.nextId
  nextDatabase_le : next.databases.nextId ≤ max inner.databases.nextId (maxId DatabaseSchema)

/-- The batch is that of a transaction on the catalog: of calls, or of a table with its columns. -/
def OfTransaction (inner next : InnerCatalog) (batch : CatalogBatch) : Prop :=
  ∃ limits dbName timeNs txn filled, inner.begin limits dbName timeNs = .ok (next, txn) ∧
    batch = .database filled.databaseBatch ∧
    ((∃ calls, filled = List.foldl DatabaseCatalogTransaction.call txn calls) ∨
      ∃ id tableName columns mode, txn.createTable tableName columns mode = .ok (id, filled))

/-- An operation's batch creates a token under the next identifier, and speaks of a database that
is there or takes the next identifier for it. Only transactions make tables and columns. -/
structure Composition (inner next : InnerCatalog) (batch : CatalogBatch) : Prop where
  handsOut : HandsOut inner next
  created : ∀ grant ∈ batch.created,
    grant.1 = inner.tokens.repo.nextId ∧ grant.1 < maxId TokenInfo
  created_once : batch.created.length ≤ 1
  databaseIds : ∀ id ∈ batch.databaseIds,
    id ∈ inner.databases.repo.keys ∨ (id = inner.databases.nextId ∧ id < maxId DatabaseSchema)
  deleted : ∀ id ∈ batch.deleted, id ∈ inner.databases.repo.keys
  columns : batch.keepsColumns = true ∨ OfTransaction inner next batch

variable {inner next : InnerCatalog} {context : OperationContext} {batch : CatalogBatch}
variable {db : DatabaseSchema}

theorem HandsOut.refl (inner : InnerCatalog) : HandsOut inner inner :=
  ⟨rfl, rfl, rfl, rfl, le_rfl, le_rfl, le_max_left _ _⟩

variable {id : Nat}

theorem nextNodeId_handsOut (h : inner.nextNodeId = .ok (id, next)) :
    HandsOut inner next := by
  simp only [nextNodeId, bind_eq_ok, pure_eq_ok, Prod.mk.injEq] at h
  obtain ⟨_, _, _, rfl⟩ := h
  exact ⟨rfl, rfl, rfl, rfl, le_rfl, le_rfl, le_max_left _ _⟩

theorem nextDatabaseId_eq_ok (h : inner.nextDatabaseId = .ok (id, next)) :
    HandsOut inner next ∧ id = inner.databases.nextId ∧ id < maxId DatabaseSchema := by
  simp only [nextDatabaseId, bind_eq_ok, pure_eq_ok, Prod.mk.injEq] at h
  obtain ⟨⟨_, databases⟩, hnext, rfl, rfl⟩ := h
  obtain ⟨hmax, rfl, rfl⟩ := getAndIncrementNextId_eq_ok.mp hnext
  exact ⟨⟨rfl, rfl, rfl, rfl, le_rfl, Nat.le_succ _, le_max_of_le_right hmax⟩, rfl, hmax⟩

theorem nextTokenId_eq_ok (h : inner.nextTokenId = .ok (id, next)) :
    HandsOut inner next ∧ id = inner.tokens.repo.nextId ∧ id < maxId TokenInfo := by
  simp only [nextTokenId, bind_eq_ok, pure_eq_ok, Prod.mk.injEq] at h
  obtain ⟨⟨_, repo⟩, hnext, rfl, rfl⟩ := h
  obtain ⟨hmax, rfl, rfl⟩ := getAndIncrementNextId_eq_ok.mp hnext
  exact ⟨⟨rfl, rfl, rfl, rfl, Nat.le_succ _, le_rfl, le_max_left _ _⟩, rfl, hmax⟩

namespace Composition

theorem ofNothing (hnext : HandsOut inner next) (hcreated : batch.created = [])
    (hdatabases : batch.databaseIds = []) (hdeleted : batch.deleted = [])
    (hcolumns : batch.keepsColumns = true) : Composition inner next batch where
  handsOut := hnext
  created := by simp [hcreated]
  created_once := by simp [hcreated]
  databaseIds := by simp [hdatabases]
  deleted := by simp [hdeleted]
  columns := .inl hcolumns

theorem ofFound (hfound : db.id ∈ inner.databases.repo.keys) {op : DatabaseCatalogOp}
    (hop : op.keepsColumns = true) : Composition inner inner (databaseEntry context db op) where
  handsOut := .refl inner
  created := by simp [databaseEntry, CatalogBatch.created]
  created_once := by simp [databaseEntry, CatalogBatch.created]
  databaseIds := by
    intro id hid
    obtain rfl := mem_singleton.mp hid
    exact .inl hfound
  deleted := by simp [databaseEntry, CatalogBatch.deleted]
  columns := .inl (by simp [databaseEntry, CatalogBatch.keepsColumns, hop])

theorem ofDatabase {databaseBatch : DatabaseBatch} (hnext : HandsOut inner next)
    (hid : databaseBatch.databaseId ∈ inner.databases.repo.keys ∨
      (databaseBatch.databaseId = inner.databases.nextId ∧
        databaseBatch.databaseId < maxId DatabaseSchema))
    (hcolumns : CatalogBatch.keepsColumns (.database databaseBatch) = true ∨
      OfTransaction inner next (.database databaseBatch)) :
    Composition inner next (.database databaseBatch) where
  handsOut := hnext
  created := by simp [CatalogBatch.created]
  created_once := by simp [CatalogBatch.created]
  databaseIds := by
    intro id hmem
    obtain rfl := mem_singleton.mp hmem
    exact hid
  deleted := by simp [CatalogBatch.deleted]
  columns := hcolumns

end Composition

section Lookups

variable (hown : OwnIds inner.databases)

include hown

variable {name : String}

theorem id_mem_of_getByName (h : inner.databases.getByName name = some db) :
    db.id ∈ inner.databases.repo.keys := by
  obtain ⟨id, _, hget⟩ := Option.bind_eq_some_iff.mp h
  have hmem := getById_eq_some.mp hget
  rw [hown _ hmem]
  exact IndexMap.mem_keys_of_mem hmem

theorem id_mem_of_findDatabase (h : inner.findDatabase name = .ok db) :
    db.id ∈ inner.databases.repo.keys :=
  id_mem_of_getByName hown (okOr_eq_ok.mp h)

theorem id_mem_of_activeDb (h : inner.activeDb name = .ok db) :
    db.id ∈ inner.databases.repo.keys := by
  simp only [activeDb, bind_eq_ok, pure_eq_ok] at h
  obtain ⟨_, hfind, _, _, rfl⟩ := h
  exact id_mem_of_findDatabase hown hfind

end Lookups

variable {name : String}

theorem createDatabase_composition {retentionPeriod : Option Nat}
    (h : inner.createDatabase context name retentionPeriod = .ok (next, batch)) :
    Composition inner next batch := by
  unfold createDatabase at h
  split at h
  · exact (throw_eq_ok.mp h).elim
  · simp only [bind_eq_ok, pure_eq_ok, Prod.mk.injEq] at h
    obtain ⟨_, _, ⟨id, updated⟩, hnext, rfl, rfl⟩ := h
    obtain ⟨hhands, hid, hmax⟩ := nextDatabaseId_eq_ok hnext
    exact .ofDatabase hhands (.inr ⟨hid, hmax⟩) (.inl rfl)

theorem createToken_composition {op : Nat → TokenCatalogOp}
    {permissions : List Permission} (hop : ∀ id, (op id).created = [(id, permissions)])
    (h : inner.createToken context name op = .ok (next, batch)) :
    Composition inner next batch := by
  simp only [createToken, bind_eq_ok, pure_eq_ok, Prod.mk.injEq] at h
  obtain ⟨_, _, ⟨id, updated⟩, hnext, rfl, rfl⟩ := h
  obtain ⟨hhands, hid, hmax⟩ := nextTokenId_eq_ok hnext
  have hcreated : (CatalogBatch.token context.timestampMillis [op id]).created =
      [(id, permissions)] := by
    simp [CatalogBatch.created, hop]
  refine ⟨hhands, ?_, by simp [hcreated], by simp [CatalogBatch.databaseIds],
    by simp [CatalogBatch.deleted], .inl rfl⟩
  rw [hcreated]
  intro grant hgrant
  obtain rfl := mem_singleton.mp hgrant
  exact ⟨hid, hmax⟩

variable {dbName : String}

/-- A transaction is on a database that is there or has taken the next identifier. -/
theorem begin_eq_ok {limits : CatalogLimits} {timeNs : Int}
    {txn : DatabaseCatalogTransaction} (hown : OwnIds inner.databases)
    (h : inner.begin limits dbName timeNs = .ok (next, txn)) :
    HandsOut inner next ∧ (txn.databaseSchema.id ∈ inner.databases.repo.keys ∨
      (txn.databaseSchema.id = inner.databases.nextId ∧
        txn.databaseSchema.id < maxId DatabaseSchema)) := by
  unfold begin at h
  split at h
  · rename_i schema hfound
    obtain ⟨rfl, rfl⟩ := Prod.mk.inj (pure_eq_ok.mp h)
    exact ⟨.refl inner, .inl (id_mem_of_getByName hown hfound)⟩
  · simp only [bind_eq_ok, pure_eq_ok, Prod.mk.injEq] at h
    obtain ⟨_, _, ⟨id, databases⟩, hnext, rfl, rfl⟩ := h
    obtain ⟨hmax, rfl, rfl⟩ := getAndIncrementNextId_eq_ok.mp hnext
    exact ⟨⟨rfl, rfl, rfl, rfl, le_rfl, Nat.le_succ _, le_max_of_le_right hmax⟩, .inr ⟨rfl, hmax⟩⟩

theorem createTable_composition {tableName : String} {columns : CreateTableColumns}
    {mode : FieldFamilyMode} (hown : OwnIds inner.databases)
    (h : inner.createTable context dbName tableName columns mode = .ok (next, batch)) :
    Composition inner next batch := by
  simp only [createTable, bind_eq_ok, pure_eq_ok, Prod.mk.injEq] at h
  obtain ⟨⟨updated, txn⟩, hbegin, ⟨_, created⟩, hcreate, rfl, rfl⟩ := h
  obtain ⟨hhands, hid⟩ := begin_eq_ok hown hbegin
  have hschema : created.databaseSchema = txn.databaseSchema :=
    DatabaseCatalogTransaction.createTable_databaseSchema hcreate
  rw [← hschema] at hid
  exact .ofDatabase hhands hid
    (.inr ⟨_, _, _, txn, created, hbegin, rfl, .inr ⟨_, _, _, _, hcreate⟩⟩)

theorem composeWrite_composition {calls : List DatabaseCatalogTransaction.Call}
    {written : Option CatalogBatch} (hown : OwnIds inner.databases)
    (h : inner.composeWrite context dbName calls = .ok (next, written)) :
    HandsOut inner next ∧ ∀ batch ∈ written, Composition inner next batch := by
  simp only [composeWrite, bind_eq_ok, pure_eq_ok, Prod.mk.injEq] at h
  obtain ⟨⟨updated, txn⟩, hbegin, rfl, rfl⟩ := h
  obtain ⟨hhands, hid⟩ := begin_eq_ok hown hbegin
  rw [← DatabaseCatalogTransaction.foldl_call_databaseSchema calls] at hid
  refine ⟨hhands, ?_⟩
  intro batch hbatch
  split at hbatch
  · cases hbatch
  · obtain rfl := Option.mem_some_iff.mp hbatch
    exact .ofDatabase hhands hid (.inr ⟨_, _, _, txn, _, hbegin, rfl, .inl ⟨calls, rfl⟩⟩)

theorem reading_eq_ok {composed : Result CatalogBatch} :
    inner.reading composed = .ok (next, batch) ↔ composed = .ok batch ∧ inner = next := by
  simp [reading, and_comm]

theorem compose_composition {operation : Operation} (hown : OwnIds inner.databases)
    (h : inner.compose context operation = .ok (next, batch)) : Composition inner next batch := by
  cases operation with
  | setGenerationDuration level duration =>
    obtain ⟨hcompose, rfl⟩ := reading_eq_ok.mp h
    unfold setGenerationDuration at hcompose
    split at hcompose
    · split at hcompose
      · exact (throw_eq_ok.mp hcompose).elim
      · exact (throw_eq_ok.mp hcompose).elim
    · obtain rfl := pure_eq_ok.mp hcompose
      exact .ofNothing (.refl inner) rfl rfl rfl rfl
  | registerNode nodeId coreCount mode processUuid cliParams instanceId =>
    simp only [compose, registerNode] at h
    cases hfound : inner.nodes.getByName nodeId with
    | some node =>
      simp only [hfound, pure_bind, pure_eq_ok, Prod.mk.injEq] at h
      obtain ⟨rfl, rfl⟩ := h
      exact .ofNothing (.refl _) rfl rfl rfl rfl
    | none =>
      simp only [hfound, pure_bind, bind_eq_ok, pure_eq_ok,
        Prod.mk.injEq] at h
      obtain ⟨⟨id, updated⟩, hnext, rfl, rfl⟩ := h
      exact .ofNothing (nextNodeId_handsOut hnext) rfl rfl rfl rfl
  | updateNodeStateStopped nodeId processUuid =>
    obtain ⟨hcompose, rfl⟩ := reading_eq_ok.mp h
    simp only [updateNodeStateStopped, bind_eq_ok] at hcompose
    obtain ⟨node, _, hcompose⟩ := hcompose
    split at hcompose
    · exact (throw_eq_ok.mp hcompose).elim
    · obtain rfl := pure_eq_ok.mp hcompose
      exact .ofNothing (.refl inner) rfl rfl rfl rfl
  | createDatabase name retentionPeriod => exact createDatabase_composition h
  | softDeleteDatabase dbName hardDeleteTime =>
    obtain ⟨hcompose, rfl⟩ := reading_eq_ok.mp h
    simp only [softDeleteDatabase, bind_eq_ok, pure_eq_ok] at hcompose
    obtain ⟨_, _, db, hfind, _, _, rfl⟩ := hcompose
    exact .ofFound (id_mem_of_findDatabase hown hfind) rfl
  | createTable dbName tableName columns mode => exact createTable_composition hown h
  | softDeleteTable dbName tableName hardDeleteTime =>
    obtain ⟨hcompose, rfl⟩ := reading_eq_ok.mp h
    simp only [softDeleteTable, bind_eq_ok, pure_eq_ok] at hcompose
    obtain ⟨db, hfind, _, _, _, _, rfl⟩ := hcompose
    exact .ofFound (id_mem_of_activeDb hown hfind) rfl
  | hardDeleteTable dbId tableId =>
    obtain ⟨hcompose, rfl⟩ := reading_eq_ok.mp h
    simp only [hardDeleteTable, bind_eq_ok, pure_eq_ok] at hcompose
    obtain ⟨_, _, _, _, rfl⟩ := hcompose
    exact .ofNothing (.refl inner) rfl rfl rfl rfl
  | hardDeleteDatabase dbId =>
    obtain ⟨hcompose, rfl⟩ := reading_eq_ok.mp h
    simp only [hardDeleteDatabase, bind_eq_ok, pure_eq_ok] at hcompose
    obtain ⟨_, hfind, _, _, rfl⟩ := hcompose
    refine ⟨.refl inner, by simp [CatalogBatch.created], by simp [CatalogBatch.created],
      by simp [CatalogBatch.databaseIds], ?_, .inl rfl⟩
    intro id hid
    obtain rfl : id = dbId := by simpa [CatalogBatch.deleted, DeleteOp.deleted] using hid
    exact IndexMap.mem_keys_of_mem (getById_eq_some.mp (okOr_eq_ok.mp hfind))
  | createDistinctCache | createLastCache =>
    obtain ⟨hcompose, rfl⟩ := reading_eq_ok.mp h
    simp only [createDistinctCache, createLastCache, bind_eq_ok,
      pure_eq_ok] at hcompose
    obtain ⟨db, hfind, _, _, _, _, _, _, _, _, _, _, rfl⟩ := hcompose
    exact .ofFound (id_mem_of_findDatabase hown hfind) rfl
  | deleteDistinctCache | deleteLastCache | createProcessingEngineTrigger
  | deleteProcessingEngineTrigger | enableProcessingEngineTrigger
  | disableProcessingEngineTrigger =>
    obtain ⟨hcompose, rfl⟩ := reading_eq_ok.mp h
    simp only [deleteDistinctCache, deleteLastCache, createProcessingEngineTrigger,
      deleteProcessingEngineTrigger, enableProcessingEngineTrigger,
      disableProcessingEngineTrigger, bind_eq_ok, pure_eq_ok] at hcompose
    obtain ⟨db, hfind, _, _, _, _, rfl⟩ := hcompose
    exact .ofFound (id_mem_of_findDatabase hown hfind) rfl
  | setRetentionPeriodForDatabase | clearRetentionPeriodForDatabase =>
    obtain ⟨hcompose, rfl⟩ := reading_eq_ok.mp h
    simp only [setRetentionPeriodForDatabase, clearRetentionPeriodForDatabase,
      bind_eq_ok, pure_eq_ok] at hcompose
    obtain ⟨db, hfind, rfl⟩ := hcompose
    exact .ofFound (id_mem_of_activeDb hown hfind) rfl
  | createAdminToken | createNamedAdminToken | createNamedAdminTokenWithHash =>
    exact createToken_composition (fun _ => rfl) h
  | regenerateAdminToken hash =>
    obtain ⟨hcompose, rfl⟩ := reading_eq_ok.mp h
    simp only [regenerateAdminToken, bind_eq_ok, pure_eq_ok] at hcompose
    obtain ⟨_, _, rfl⟩ := hcompose
    exact .ofNothing (.refl inner) rfl rfl rfl rfl
  | createScopedToken tokenName hash permissions expirySecs =>
    simp only [compose, createScopedToken] at h
    exact createToken_composition (fun _ => rfl) h
  | deleteToken tokenName =>
    obtain ⟨hcompose, rfl⟩ := reading_eq_ok.mp h
    simp only [deleteToken, bind_eq_ok, pure_eq_ok] at hcompose
    obtain ⟨_, _, _, _, rfl⟩ := hcompose
    exact .ofNothing (.refl inner) rfl rfl rfl rfl

end Composition

end InnerCatalog

section Restoring

variable {ρ σ : Type} [CatalogResource ρ] {restore : σ → Result ρ}

/-- A repository made from a snapshot has its identifiers, and what is restored under each. -/
theorem Repository.fromSnapshot_entries {snap : RepositorySnapshot σ} {r : Repository ρ}
    (h : Repository.fromSnapshot restore snap = .ok r) :
    r.nextId = snap.nextId ∧ ∀ entry ∈ r.repo.entries,
      ∃ kept, (entry.1, kept) ∈ snap.repo ∧ restore kept = .ok entry.2 := by
  simp only [Repository.fromSnapshot, bind_eq_ok, pure_eq_ok] at h
  obtain ⟨built, hbuilt, rfl⟩ := h
  refine ⟨rfl, ?_⟩
  have hkeeps : ∀ entry ∈ built.repo.entries,
      ∃ kept, (entry.1, kept) ∈ snap.repo ∧ restore kept = .ok entry.2 := by
    refine foldlM_keeps (fun r : Repository ρ => ∀ entry ∈ r.repo.entries,
      ∃ kept, (entry.1, kept) ∈ snap.repo ∧ restore kept = .ok entry.2) ?_
      (fun _ hentry => absurd hentry not_mem_nil) hbuilt
    intro r next kept hkept hr hstep
    simp only [Repository.restoreEntry, bind_eq_ok, unwrap_eq_ok] at hstep
    obtain ⟨resource, hrestore, hinsert⟩ := hstep
    obtain ⟨_, _, rfl⟩ := insert_eq_ok.mp hinsert
    exact IndexMap.forall_entries_insert ⟨kept.2, hkept, hrestore⟩ hr
  exact hkeeps

theorem DatabaseSchema.fromSnapshot_id {snap : DatabaseSnapshot} {db : DatabaseSchema}
    (h : DatabaseSchema.fromSnapshot snap = .ok db) : db.id = snap.id := by
  simp only [DatabaseSchema.fromSnapshot, bind_eq_ok, pure_eq_ok] at h
  obtain ⟨_, _, _, _, rfl⟩ := h
  rfl

end Restoring

end RefluxDb.Catalog
