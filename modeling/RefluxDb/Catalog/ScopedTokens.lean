import Mathlib.Data.Fintype.EquivFin
import RefluxDb.Catalog.Operations

/-! Scoped tokens that are made over HTTP.

Each entry of a request has a type of resource, names and words for actions. Names of databases
become identifiers and the words become bits. Names of tokens are not looked up: such an entry is
for every token, whatever it names. -/

namespace RefluxDb.Catalog

open List RefluxDb.Library Fallible

structure PermissionRequest where
  resourceType : String
  resourceNames : List String
  actions : List String
deriving DecidableEq

inductive HttpError where
  | invalidContentType (expected : String)
  | missingDb (name : String)
deriving DecidableEq

/-- A word, and the bit that stands for it. -/
abbrev ActionWords := List (String × BitVec 16)

def databaseWords : ActionWords :=
  [("read", DatabaseActions.read.bits), ("write", DatabaseActions.write.bits),
    ("create", DatabaseActions.create.bits)]

def tokenWords : ActionWords :=
  [("read", 1), ("write", 1 <<< 1), ("create", 1 <<< 2), ("delete", 1 <<< 3)]

namespace PermissionRequest

variable (entry : PermissionRequest)

/-- All actions for the wildcard, and otherwise the bits of the words together. -/
def toActions (words : ActionWords) (wrap : BitVec 16 → Actions) : Fallible HttpError Actions :=
  if "*" ∈ entry.actions then pure .wildcard
  else do
    let bits ← entry.actions.foldlM (fun bits action => do
      let bit ← okOr (.invalidContentType "application/json") (words.lookup action)
      pure (bits ||| bit)) 0
    pure (wrap bits)

/-- All databases for the wildcard, and otherwise those of the names. -/
def toIdentifier (inner : InnerCatalog) : Fallible HttpError ResourceIdentifier :=
  if "*" ∈ entry.resourceNames then pure .wildcard
  else do
    let ids ← entry.resourceNames.mapM fun name =>
      okOr (.missingDb name) (inner.databases.nameToId name)
    pure (.database ids)

def toPermission (inner : InnerCatalog) : Fallible HttpError Permission :=
  if entry.resourceType = "db" then do
    let identifier ← entry.toIdentifier inner
    let actions ← entry.toActions databaseWords fun bits => .database ⟨bits⟩
    pure ⟨.database, identifier, actions⟩
  else if entry.resourceType = "token" then do
    -- there is no map from the names of tokens to identifiers here
    let actions ← entry.toActions tokenWords fun bits => .token ⟨bits⟩
    pure ⟨.token, .wildcard, actions⟩
  else throw (.error (.invalidContentType "application/json"))

/-- The entry lists all these actions, or the wildcard. -/
def Lists (words : ActionWords) (wanted : BitVec 16) : Prop :=
  "*" ∈ entry.actions ∨ ∀ i, wanted.getLsbD i = true →
    ∃ word ∈ entry.actions, ∃ bit, words.lookup word = some bit ∧ bit.getLsbD i = true

end PermissionRequest

/-- Some entry of the type, with such names, lists these actions. -/
def Asked (requests : List PermissionRequest) (resourceType : String) (words : ActionWords)
    (named : List String → Prop) (wanted : BitVec 16) : Prop :=
  ∃ entry ∈ requests, entry.resourceType = resourceType ∧ named entry.resourceNames ∧
    entry.Lists words wanted

/-- The names have the wildcard, or one that leads to the identifier. -/
def Names (nameToId : String → Option Nat) (id : Nat) (names : List String) : Prop :=
  "*" ∈ names ∨ ∃ name ∈ names, nameToId name = some id

/-- What the request asked for. -/
def Requested (inner : InnerCatalog) (requests : List PermissionRequest) : AccessRequest → Prop
  | .database dbId wanted =>
    Asked requests "db" databaseWords (Names inner.databases.nameToId dbId) wanted.bits
  | .unknownDatabase wanted => Asked requests "db" databaseWords ("*" ∈ ·) wanted.bits
  | .token tokenId wanted =>
    Asked requests "token" tokenWords (Names inner.tokens.repo.nameToId tokenId) wanted.bits
  | .admin => False

/-- What the token then permits: the names of tokens do not count. -/
def Granted (inner : InnerCatalog) (requests : List PermissionRequest) : AccessRequest → Prop
  | .token _ wanted => Asked requests "token" tokenWords (fun _ => True) wanted.bits
  | request => Requested inner requests request

namespace PermissionRequest

variable {entry : PermissionRequest} {inner : InnerCatalog} {permission : Permission}
variable {words : ActionWords}

theorem getLsbD_foldlM {names : List String} {start bits : BitVec 16} {i : Nat}
    (h : names.foldlM (fun bits action => do
      let bit ← okOr (.invalidContentType "application/json") (words.lookup action)
      pure (bits ||| bit)) start = (.ok bits : Fallible HttpError _)) :
    bits.getLsbD i = true ↔ start.getLsbD i = true ∨
      ∃ word ∈ names, ∃ bit, words.lookup word = some bit ∧ bit.getLsbD i = true := by
  induction names generalizing start with
  | nil =>
    obtain rfl := pure_eq_ok.mp h
    simp
  | cons name names ih =>
    simp only [foldlM_cons, bind_eq_ok, okOr_eq_ok, pure_eq_ok] at h
    obtain ⟨_, ⟨bit, hbit, rfl⟩, hrest⟩ := h
    rw [ih hrest]
    simp [hbit, or_assoc]

theorem contains_iff {have_ wanted : BitVec 16} :
    have_ &&& wanted = wanted ↔ ∀ i, wanted.getLsbD i = true → have_.getLsbD i = true := by
  constructor
  · intro h i hi
    rw [← h, BitVec.getLsbD_and] at hi
    exact (Bool.and_eq_true_iff.mp hi).1
  · intro h
    refine BitVec.eq_of_getLsbD_eq fun i _ => ?_
    rw [BitVec.getLsbD_and, Bool.and_eq_right_iff_imp]
    exact h i

/-- The actions of an entry are the wildcard, or bits that contain what the entry lists. -/
theorem toActions_eq_ok {wrap : BitVec 16 → Actions} {actions : Actions}
    (h : entry.toActions words wrap = .ok actions) :
    (actions = .wildcard ∧ ∀ wanted, entry.Lists words wanted) ∨
      ∃ bits, actions = wrap bits ∧
        ∀ wanted, bits &&& wanted = wanted ↔ entry.Lists words wanted := by
  unfold toActions at h
  split at h
  case isTrue hall => exact .inl ⟨(pure_eq_ok.mp h).symm, fun _ => .inl hall⟩
  case isFalse hall =>
    simp only [bind_eq_ok, pure_eq_ok] at h
    obtain ⟨bits, hbits, rfl⟩ := h
    refine .inr ⟨bits, rfl, fun wanted => ?_⟩
    rw [contains_iff, Lists, or_iff_right hall]
    simp [getLsbD_foldlM hbits]

theorem grantsDatabaseActions_iff {actions : Actions}
    (h : entry.toActions databaseWords (fun bits => .database ⟨bits⟩) = .ok actions)
    (identifier : ResourceIdentifier) (wanted : DatabaseActions) :
    Permission.grantsDatabaseActions ⟨.database, identifier, actions⟩ wanted = true ↔
      entry.Lists databaseWords wanted.bits := by
  obtain ⟨rfl, hlists⟩ | ⟨bits, rfl, hlists⟩ := toActions_eq_ok h
  · simp [Permission.grantsDatabaseActions, hlists]
  · simp [Permission.grantsDatabaseActions, DatabaseActions.contains, hlists]

theorem grants_iff (h : entry.toPermission inner = .ok permission) (request : AccessRequest) :
    permission.grants request = true ↔ Granted inner [entry] request := by
  unfold toPermission at h
  split at h
  case isTrue htype =>
    simp only [bind_eq_ok, pure_eq_ok] at h
    obtain ⟨identifier, hidentifier, actions, hactions, rfl⟩ := h
    have hlists := grantsDatabaseActions_iff hactions
    unfold toIdentifier at hidentifier
    split at hidentifier
    case isTrue hall =>
      obtain rfl := pure_eq_ok.mp hidentifier
      cases request <;>
        simp [Permission.grants, Permission.isAdmin, Granted, Requested, Asked, Names, hlists,
          htype, hall]
    case isFalse hall =>
      simp only [bind_eq_ok, pure_eq_ok] at hidentifier
      obtain ⟨ids, hids, rfl⟩ := hidentifier
      have hmem : ∀ id, id ∈ ids ↔
          ∃ name ∈ entry.resourceNames, inner.databases.nameToId name = some id := by
        intro id
        rw [← exists_mem_mapM hids (P := (· = id)) fun name _ found hfound => ?_]
        · simp
        · simp [okOr_eq_ok.mp hfound]
      cases request <;>
        simp [Permission.grants, Permission.isAdmin, Granted, Requested, Asked, Names, hlists,
          htype, hall, hmem]
  case isFalse hdb =>
    split at h
    case isTrue htype =>
      simp only [bind_eq_ok, pure_eq_ok] at h
      obtain ⟨actions, hactions, rfl⟩ := h
      obtain ⟨rfl, hlists⟩ | ⟨bits, rfl, hlists⟩ := toActions_eq_ok hactions
      all_goals
        cases request <;>
          simp [Permission.grants, Permission.isAdmin, Granted, Requested, Asked, htype, hlists,
            CrudActions.contains]
    case isFalse => exact (throw_eq_ok.mp h).elim

end PermissionRequest

variable {inner composed current reserved next : InnerCatalog}
variable {requests : List PermissionRequest} {permissions : List Permission}
variable {context : OperationContext} {tokenName : String} {hash : List UInt8}
variable {expirySecs : Option Nat} {batch : CatalogBatch} {changed : Bool}

theorem permits_iff_granted {token : TokenInfo}
    (hrequests : requests.mapM (·.toPermission inner) = .ok token.permissions)
    (request : AccessRequest) :
    token.permits request = true ↔ Granted inner requests request := by
  rw [TokenInfo.permits, any_eq_true, exists_mem_mapM hrequests
    fun entry _ permission hok => PermissionRequest.grants_iff hok request]
  cases request <;> simp [Granted, Requested, Asked]

/-- The names of finitely many entries leave out some identifier. -/
theorem exists_unnamed (nameToId : String → Option Nat) (requests : List PermissionRequest) :
    ∃ id, ∀ entry ∈ requests, ∀ name ∈ entry.resourceNames, nameToId name ≠ some id := by
  obtain ⟨id, hid⟩ := Infinite.exists_notMem_finset
    ((requests.flatMap (·.resourceNames)).filterMap nameToId).toFinset
  refine ⟨id, fun entry hentry name hname hfound => hid ?_⟩
  exact mem_toFinset.mpr (mem_filterMap.mpr ⟨name, mem_flatMap.mpr ⟨entry, hentry, hname⟩, hfound⟩)

section

variable (hcreate : composed.createScopedToken context tokenName hash permissions expirySecs =
  .ok (reserved, batch)) (happly : current.applyBatch batch = .ok (next, changed))
include hcreate happly

theorem exists_of_createScopedToken :
    ∃ token, next.tokens.repo.getByName tokenName = some token ∧
      token.permissions = permissions := by
  simp only [InnerCatalog.createScopedToken, InnerCatalog.createToken, bind_eq_ok, pure_eq_ok,
    Prod.mk.injEq] at hcreate
  obtain ⟨_, _, ⟨id, _⟩, _, -, rfl⟩ := hcreate
  simp only [InnerCatalog.applyBatch, InnerCatalog.applyAll, InnerCatalog.applyTokenOp,
    TokenRepository.addToken, foldlM_cons, foldlM_nil, bind_eq_ok, pure_eq_ok] at happly
  obtain ⟨_, ⟨_, ⟨_, ⟨repo, hinsert, rfl⟩, rfl⟩, rfl⟩, rfl, -⟩ := happly
  obtain ⟨_, _, rfl⟩ := Repository.insert_eq_ok.mp hinsert
  exact ⟨_, Repository.getByName_put, rfl⟩

/-- The token of an accepted request never has admin rights. It permits exactly what was asked for
if and only if the actions that some entry lists for tokens are also listed for all tokens. -/
theorem permits_iff_requested
    (hrequests : requests.mapM (·.toPermission inner) = .ok permissions) :
    ∃ token, next.tokens.repo.getByName tokenName = some token ∧ token.permits .admin = false ∧
      ((∀ request, token.permits request = true ↔ Requested inner requests request) ↔
        ∀ wanted, Asked requests "token" tokenWords (fun _ => True) wanted →
          Asked requests "token" tokenWords ("*" ∈ ·) wanted) := by
  obtain ⟨token, htoken, rfl⟩ := exists_of_createScopedToken hcreate happly
  have hpermits := permits_iff_granted hrequests
  refine ⟨token, htoken, Bool.eq_false_iff.mpr fun hadmin => (hpermits .admin).mp hadmin, ?_⟩
  constructor
  · intro hexact wanted hasked
    obtain ⟨id, hunnamed⟩ := exists_unnamed inner.tokens.repo.nameToId requests
    have hpermitted := (hpermits (.token id ⟨wanted⟩)).mpr hasked
    obtain ⟨entry, hentry, htype, hall | ⟨name, hname, hfound⟩, hlists⟩ :=
      (hexact _).mp hpermitted
    · exact ⟨entry, hentry, htype, hall, hlists⟩
    · exact (hunnamed entry hentry name hname hfound).elim
  · intro hcovered request
    rw [hpermits]
    cases request with
    | token id wanted =>
      constructor
      · intro hasked
        obtain ⟨entry, hentry, htype, hall, hlists⟩ := hcovered wanted.bits hasked
        exact ⟨entry, hentry, htype, .inl hall, hlists⟩
      · rintro ⟨entry, hentry, htype, -, hlists⟩
        exact ⟨entry, hentry, htype, trivial, hlists⟩
    | _ => rfl

end

/-- A catalog with one database. -/
def oneDatabase : InnerCatalog where
  databases := ({} : Repository DatabaseSchema).put 0 { id := 0, name := "metrics" } 1

/-- A request for one database by its name and for all tokens. -/
def readerRequests : List PermissionRequest :=
  [⟨"db", ["metrics"], ["read"]⟩, ⟨"token", ["*"], ["read"]⟩]

theorem permits_iff_requested_reader :
    ∃ token : TokenInfo, (token.permits (.database 0 .read) = true ∧
      token.permits (.database 1 .read) = false) ∧
      ∀ request, token.permits request = true ↔ Requested oneDatabase readerRequests request := by
  have hrequests : readerRequests.mapM (·.toPermission oneDatabase) =
    .ok [⟨.database, .database [0], .database .read⟩, ⟨.token, .wildcard, .token ⟨1⟩⟩] := rfl
  have hcreate : oneDatabase.createScopedToken ⟨0, ⟨5, 10, 50⟩, 0⟩ "reader" [1]
    [⟨.database, .database [0], .database .read⟩, ⟨.token, .wildcard, .token ⟨1⟩⟩] none =
      .ok (_, _) := rfl
  obtain ⟨token, htoken, _, hiff⟩ := permits_iff_requested hcreate
    (by rfl : oneDatabase.applyBatch _ = .ok (_, _)) hrequests
  have hexact := hiff.mpr (by simp [Asked, readerRequests])
  obtain rfl := Option.some.inj htoken
  exact ⟨_, ⟨by decide, by decide⟩, hexact⟩

/-- A token that may read the token `mine` may read every token. -/
theorem token_names_not_kept :
    ∃ permissions reserved batch next changed token,
      [PermissionRequest.mk "token" ["mine"] ["read"]].mapM (·.toPermission {}) =
        .ok permissions ∧
      ({} : InnerCatalog).createScopedToken ⟨0, ⟨5, 10, 50⟩, 0⟩ "reader" [1] permissions none =
        .ok (reserved, batch) ∧
      reserved.applyBatch batch = .ok (next, changed) ∧
      next.tokens.repo.getByName "reader" = some token ∧ token.permits (.token 5 ⟨1⟩) = true ∧
      ¬ Requested {} [⟨"token", ["mine"], ["read"]⟩] (.token 5 ⟨1⟩) := by
  refine ⟨_, _, _, _, _, _, rfl, rfl, rfl, rfl, rfl, ?_⟩
  rintro ⟨entry, hentry, -, hall | ⟨name, -, hfound⟩, -⟩
  · simp [mem_singleton.mp hentry] at hall
  · cases hfound

end RefluxDb.Catalog
