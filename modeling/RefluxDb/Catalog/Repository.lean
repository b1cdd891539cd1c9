import RefluxDb.Library.BiMap
import RefluxDb.Library.Fallible
import RefluxDb.Library.IndexMap

/-! The repositories the catalog is made of: resources by identifier in the order they were added,
a bidirectional map between identifiers and names, and the next identifier to hand out.

The two maps are separate, and the bidirectional map drops a pair when a later one shares its name.
A repository is `Listed` when every name in the map is the name of the resource it leads to, which
writing resources keeps whatever their names: a resource whose name is taken by another is still
there, but is not found by its name any more. -/

namespace RefluxDb.Catalog

open RefluxDb.Library

inductive InfluxFieldType where
  | string
  | integer
  | uInteger
  | float
  | boolean
deriving DecidableEq

inductive InfluxColumnType where
  | tag
  | timestamp
  | field (fieldType : InfluxFieldType)
deriving DecidableEq

inductive CatalogError where
  | alreadyExists
  | notFound (what : String)
  | alreadyDeleted (name : String)
  | cannotDeleteInternalDatabase
  | cannotDeleteOperatorToken
  | tooManyDbs (limit : Nat)
  | tooManyTables (current limit : Nat)
  | tooManyColumns (limit : Nat)
  | tooManyTagColumns (limit : Nat)
  | tooManyFields (fieldFamily : String) (limit : Nat)
  | reservedColumn (name : String)
  | duplicateColumn (name : String) (existing : InfluxColumnType)
  | invalidColumnType (columnName : String) (expected got : InfluxColumnType)
  | fieldTypeMismatch (tableName columnName : String) (existing attempted : InfluxColumnType)
  | invalidConfiguration (message : String)
  | invalidDistinctCacheColumnType
  | invalidLastCacheKeyColumnType
  | tableNotFound (dbName tableName : String)
  | tokenNameAlreadyExists (name : String)
  | missingAdminTokenToUpdate
  | invalidNodeRegistration
  | nodeAlreadyStopped (nodeId : String)
  | processingEngineTriggerExists (databaseName triggerName : String)
  | processingEngineTriggerNotFound (databaseName triggerName : String)
  | processingEngineTriggerRunning (triggerName : String)
  | triggerAlreadyEnabled
  | triggerAlreadyDisabled
  | cannotChangeGenerationDuration (level existing attempted : Nat)
deriving DecidableEq

abbrev Result := Fallible CatalogError

/-- What a repository reads of its resources, and the largest identifier of their type. -/
class CatalogResource (ρ : Type*) where
  id : ρ → Nat
  name : ρ → String
  maxId : Nat

structure Repository (ρ : Type*) where
  repo : IndexMap Nat ρ := .empty
  idNameMap : BiMap Nat String := .empty
  nextId : Nat := 0
deriving DecidableEq

namespace Repository

open CatalogResource (maxId)

section Operations

variable {ρ : Type} (r : Repository ρ)

def nameToId (name : String) : Option Nat := r.idNameMap.getByRight name

def getById (id : Nat) : Option ρ := r.repo.get id

def getByName (name : String) : Option ρ := (r.nameToId name).bind r.getById

def containsId (id : Nat) : Bool := r.repo.contains id

def containsName (name : String) : Bool := r.idNameMap.containsRight name

def resources : List ρ := r.repo.values

/-- Whether the identifier is there. The two maps must agree on it. -/
def idExists (id : Nat) : Result Bool := do
  Fallible.ensure (r.idNameMap.containsLeft id == r.repo.contains id)
    (.panic "id map and repository are in an inconsistent state")
  pure (r.repo.contains id)

def idAndNameExists (id : Nat) (name : String) : Result Bool := do
  let idInRepo ← r.idExists id
  pure (idInRepo && r.containsName name)

def remove (id : Nat) : Repository ρ where
  repo := r.repo.erase id
  idNameMap := r.idNameMap.removeByLeft id
  nextId := r.nextId

variable [CatalogResource ρ]

/-- Both maps with a resource written to them. -/
def put (id : Nat) (resource : ρ) (nextId : Nat) : Repository ρ where
  repo := r.repo.insert id resource
  idNameMap := r.idNameMap.insert id (CatalogResource.name resource)
  nextId := nextId

/-- The next identifier once `id` is in use; the largest identifier cannot be passed. -/
def nextIdAfter (id : Nat) : Nat :=
  if r.nextId ≤ id ∧ id < maxId ρ then id + 1 else r.nextId

def getAndIncrementNextId : Result (Nat × Repository ρ) := do
  Fallible.ensure (decide (r.nextId < maxId ρ)) (.panic "incrementing id overflow")
  pure (r.nextId, { r with nextId := r.nextId + 1 })

/-- Fails only when the identifier and the name are both in use. -/
def insert (id : Nat) (resource : ρ) : Result (Repository ρ) := do
  let both ← r.idAndNameExists id (CatalogResource.name resource)
  Fallible.ensure (!both) (.error .alreadyExists)
  pure (r.put id resource (r.nextIdAfter id))

def update (id : Nat) (resource : ρ) : Result (Repository ρ) := do
  let idInRepo ← r.idExists id
  Fallible.ensure idInRepo (.error (.notFound ("catalog id: " ++ toString id)))
  pure (r.put id resource r.nextId)

end Operations

variable {ρ : Type} [CatalogResource ρ] {r s : Repository ρ} {id : Nat} {resource : ρ}
variable {name : String}

/-- Resources are kept under their own identifiers, all below the next one, and the map of names
leads to resources of those names. -/
structure Listed (r : Repository ρ) : Prop where
  named : ∀ id name, (id, name) ∈ r.idNameMap.pairs →
    ∃ resource, (id, resource) ∈ r.repo.entries ∧ CatalogResource.name resource = name
  ids : ∀ entry ∈ r.repo.entries, CatalogResource.id entry.2 = entry.1
  next : ∀ entry ∈ r.repo.entries, entry.1 < r.nextId ∨ r.nextId = maxId ρ
  nextId_le : r.nextId ≤ maxId ρ

theorem insert_eq_ok :
    r.insert id resource = .ok s ↔
      r.idNameMap.containsLeft id = r.repo.contains id ∧
        (id ∈ r.repo.keys → r.containsName (CatalogResource.name resource) = false) ∧
        r.put id resource (r.nextIdAfter id) = s := by
  simp [insert, idAndNameExists, idExists, imp_iff_not_or]

theorem update_eq_ok :
    r.update id resource = .ok s ↔
      r.idNameMap.containsLeft id = r.repo.contains id ∧ id ∈ r.repo.keys ∧
        r.put id resource r.nextId = s := by
  simp [update, idExists]

theorem le_nextIdAfter (id : Nat) : r.nextId ≤ r.nextIdAfter id := by
  unfold nextIdAfter
  split <;> omega

theorem nextIdAfter_le (hmax : r.nextId ≤ maxId ρ) : r.nextIdAfter id ≤ maxId ρ := by
  unfold nextIdAfter
  split <;> omega

/-- An identifier in use is below the next one, unless it is the largest. -/
theorem lt_nextIdAfter (hid : id < maxId ρ ∨ r.nextId = maxId ρ) :
    id < r.nextIdAfter id ∨ r.nextIdAfter id = maxId ρ := by
  unfold nextIdAfter
  split <;> omega

theorem getAndIncrementNextId_eq_ok :
    r.getAndIncrementNextId = .ok (id, s) ↔
      r.nextId < maxId ρ ∧ r.nextId = id ∧ { r with nextId := r.nextId + 1 } = s := by
  simp [getAndIncrementNextId]

omit [CatalogResource ρ] in
theorem getById_eq_some : r.getById id = some resource ↔ (id, resource) ∈ r.repo.entries :=
  IndexMap.get_eq_some

omit [CatalogResource ρ] in
theorem containsName_iff : r.containsName name = true ↔ ∃ id, (id, name) ∈ r.idNameMap.pairs :=
  BiMap.containsRight_iff

theorem getByName_put {nextId : Nat} :
    (r.put id resource nextId).getByName (CatalogResource.name resource) = some resource := by
  have hid : (r.put id resource nextId).nameToId (CatalogResource.name resource) = some id :=
    BiMap.getByRight_eq_some.mpr (BiMap.mem_pairs_insert.mpr (.inl rfl))
  rw [getByName, hid]
  exact getById_eq_some.mpr IndexMap.mem_entries_insert_self

namespace Listed

theorem empty : Listed ({} : Repository ρ) where
  named := by simp
  ids := by simp
  next := by simp
  nextId_le := Nat.zero_le _

section

variable (h : Listed r)
include h

theorem resource_unique {a b : ρ} (ha : a ∈ r.resources) (hb : b ∈ r.resources)
    (hid : CatalogResource.id a = CatalogResource.id b) : a = b := by
  obtain ⟨entry, hentry, rfl⟩ := List.mem_map.mp ha
  obtain ⟨other, hother, rfl⟩ := List.mem_map.mp hb
  have hkey : entry.1 = other.1 := by
    rw [← h.ids entry hentry, ← h.ids other hother, hid]
  obtain ⟨key, a⟩ := entry
  obtain rfl : key = _ := hkey
  exact IndexMap.value_unique hentry hother

theorem containsLeft_of_notMem (hid : id ∉ r.repo.keys) :
    r.idNameMap.containsLeft id = false := by
  rw [← Bool.not_eq_true, BiMap.containsLeft_iff]
  rintro ⟨name, hpair⟩
  obtain ⟨resource, hmem, _⟩ := h.named id name hpair
  exact hid (IndexMap.mem_keys_of_mem hmem)

/-- A resource under a new identifier is always accepted, also when its name is in use. -/
theorem insert_of_notMem (hid : id ∉ r.repo.keys) :
    r.insert id resource = .ok (r.put id resource (r.nextIdAfter id)) := by
  rw [insert_eq_ok, h.containsLeft_of_notMem hid, IndexMap.contains_eq_false_iff.mpr hid]
  exact ⟨rfl, fun hmem => absurd hmem hid, rfl⟩

theorem put {nextId : Nat} (hid : CatalogResource.id resource = id)
    (hnext : id < nextId ∨ nextId = maxId ρ) (hle : r.nextId ≤ nextId)
    (hmax : nextId ≤ maxId ρ) : Listed (r.put id resource nextId) where
  named := by
    intro key name hpair
    rcases BiMap.mem_pairs_insert.mp hpair with hself | ⟨hold, hkey, _⟩
    · obtain ⟨rfl, rfl⟩ := Prod.mk.inj hself
      exact ⟨resource, IndexMap.mem_entries_insert_self, rfl⟩
    · obtain ⟨other, hmem, hname⟩ := h.named key name hold
      exact ⟨other, IndexMap.mem_entries_insert.mpr (.inr ⟨hmem, hkey⟩), hname⟩
  ids := IndexMap.forall_entries_insert hid h.ids
  next := by
    refine IndexMap.forall_entries_insert hnext fun entry hmem => ?_
    rcases h.next entry hmem with hlt | heq
    · exact .inl (hlt.trans_le hle)
    · exact .inr (le_antisymm hmax (heq ▸ hle))
  nextId_le := hmax

theorem nextId_notMem (hmax : r.nextId < maxId ρ) : r.nextId ∉ r.repo.keys := by
  intro hmem
  obtain ⟨resource, hentry⟩ := IndexMap.mem_keys.mp hmem
  have hnext : r.nextId < r.nextId ∨ r.nextId = maxId ρ := h.next _ hentry
  omega

/-- What is found by name has that name, and the map leads to it. -/
theorem of_getByName (hfound : r.getByName name = some resource) :
    (CatalogResource.id resource, resource) ∈ r.repo.entries ∧
      (CatalogResource.id resource, name) ∈ r.idNameMap.pairs ∧
      CatalogResource.name resource = name := by
  obtain ⟨id, hid, hget⟩ := Option.bind_eq_some_iff.mp hfound
  have hpair : (id, name) ∈ r.idNameMap.pairs := BiMap.getByRight_eq_some.mp hid
  have hmem : (id, resource) ∈ r.repo.entries := getById_eq_some.mp hget
  obtain ⟨other, hother, hname⟩ := h.named id name hpair
  obtain rfl := IndexMap.value_unique hother hmem
  obtain rfl : CatalogResource.id other = id := h.ids _ hmem
  exact ⟨hmem, hpair, hname⟩

theorem update_of_mem (hpair : (id, name) ∈ r.idNameMap.pairs) (resource : ρ) :
    r.update id resource = .ok (r.put id resource r.nextId) := by
  obtain ⟨current, hmem, _⟩ := h.named id name hpair
  have hkey : id ∈ r.repo.keys := IndexMap.mem_keys_of_mem hmem
  have hleft : r.idNameMap.containsLeft id = true := BiMap.containsLeft_iff.mpr ⟨name, hpair⟩
  exact update_eq_ok.mpr ⟨by rw [hleft, IndexMap.contains_iff.mpr hkey], hkey, rfl⟩

end

end Listed

/-- A listed repository whose resources all have a property. -/
structure Keeps (P : ρ → Prop) (r : Repository ρ) : Prop extends Listed r where
  all : ∀ entry ∈ r.repo.entries, P entry.2

namespace Keeps

variable {P : ρ → Prop}

theorem empty : Keeps P ({} : Repository ρ) where
  toListed := .empty
  all := by simp

variable {nextId : Nat}

theorem put (h : Keeps P r) (hid : CatalogResource.id resource = id)
    (hresource : P resource) (hnext : id < nextId ∨ nextId = maxId ρ) (hle : r.nextId ≤ nextId)
    (hmax : nextId ≤ maxId ρ) : Keeps P (r.put id resource nextId) where
  toListed := h.toListed.put hid hnext hle hmax
  all := IndexMap.forall_entries_insert hresource h.all

theorem insert (h : Keeps P r) (hinsert : r.insert id resource = .ok s)
    (hid : CatalogResource.id resource = id) (hresource : P resource) (hmax : id < maxId ρ) :
    Keeps P s := by
  obtain ⟨_, _, rfl⟩ := insert_eq_ok.mp hinsert
  exact h.put hid hresource (lt_nextIdAfter (.inl hmax)) (le_nextIdAfter id)
    (nextIdAfter_le h.nextId_le)

theorem update (h : Keeps P r) (hupdate : r.update id resource = .ok s)
    (hid : CatalogResource.id resource = id) (hresource : P resource) : Keeps P s := by
  obtain ⟨_, hkey, rfl⟩ := update_eq_ok.mp hupdate
  obtain ⟨current, hmem⟩ := IndexMap.mem_keys.mp hkey
  exact h.put hid hresource (h.next _ hmem) le_rfl h.nextId_le

theorem remove (h : Keeps P r) (id : Nat) : Keeps P (r.remove id) where
  named := by
    intro key name hpair
    obtain ⟨hold, hkey⟩ := BiMap.mem_pairs_removeByLeft.mp hpair
    obtain ⟨resource, hmem, hname⟩ := h.named key name hold
    exact ⟨resource, IndexMap.mem_entries_erase.mpr ⟨hmem, hkey⟩, hname⟩
  ids := fun entry hentry => h.ids entry (IndexMap.mem_entries_erase.mp hentry).1
  next := fun entry hentry => h.next entry (IndexMap.mem_entries_erase.mp hentry).1
  nextId_le := h.nextId_le
  all := fun entry hentry => h.all entry (IndexMap.mem_entries_erase.mp hentry).1

theorem raiseNextId (h : Keeps P r) (hle : r.nextId ≤ nextId)
    (hmax : nextId ≤ maxId ρ) : Keeps P { r with nextId := nextId } where
  named := h.named
  ids := h.ids
  next := by
    intro entry hentry
    rcases h.next entry hentry with hlt | heq
    · exact .inl (hlt.trans_le hle)
    · exact .inr (le_antisymm hmax (heq ▸ hle))
  nextId_le := hmax
  all := h.all

end Keeps

end Repository

end RefluxDb.Catalog
