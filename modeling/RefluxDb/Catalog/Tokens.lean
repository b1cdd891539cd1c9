import Mathlib.Algebra.Group.Int.Defs
import Mathlib.Algebra.Group.Nat.Defs
import RefluxDb.Catalog.Repository

/-! Tokens, what their permissions grant, and the repository that finds them by their hash. -/

namespace RefluxDb.Catalog

open RefluxDb.Library

/-- A set of actions on databases, one bit each. -/
structure DatabaseActions where
  bits : BitVec 16
deriving DecidableEq

namespace DatabaseActions

def read : DatabaseActions := ⟨1⟩

def write : DatabaseActions := ⟨2⟩

def create : DatabaseActions := ⟨4⟩

def contains (have_ wanted : DatabaseActions) : Bool := have_.bits &&& wanted.bits = wanted.bits

end DatabaseActions

/-- A set of actions on tokens, one bit each. -/
structure CrudActions where
  bits : BitVec 16
deriving DecidableEq

def CrudActions.contains (have_ wanted : CrudActions) : Bool :=
  have_.bits &&& wanted.bits = wanted.bits

inductive ResourceType where
  | database
  | token
  | wildcard
deriving DecidableEq

inductive ResourceIdentifier where
  | database (ids : List Nat)
  | token (ids : List Nat)
  | wildcard
deriving DecidableEq

inductive Actions where
  | database (actions : DatabaseActions)
  | token (actions : CrudActions)
  | wildcard
deriving DecidableEq

structure Permission where
  resourceType : ResourceType
  resourceIdentifier : ResourceIdentifier
  actions : Actions
deriving DecidableEq

/-- What a request asks for. A database that is not in the catalog has no identifier. -/
inductive AccessRequest where
  | database (dbId : Nat) (wanted : DatabaseActions)
  | unknownDatabase (wanted : DatabaseActions)
  | token (tokenId : Nat) (wanted : CrudActions)
  | admin
deriving DecidableEq

namespace Permission

variable (permission : Permission)

def isAdmin : Bool :=
  permission.resourceType = .wildcard && permission.resourceIdentifier = .wildcard &&
    permission.actions = .wildcard

def grantsDatabaseActions (wanted : DatabaseActions) : Bool :=
  match permission.actions with
  | .wildcard => true
  | .database actions => actions.contains wanted
  | .token _ => false

def grants (request : AccessRequest) : Bool :=
  permission.isAdmin ||
    match request with
    | .admin => false
    | .database dbId wanted =>
      permission.resourceType = .database &&
        (match permission.resourceIdentifier with
          | .wildcard => true
          | .database ids => decide (dbId ∈ ids)
          | .token _ => false) &&
        permission.grantsDatabaseActions wanted
    | .unknownDatabase wanted =>
      permission.resourceType = .database && permission.resourceIdentifier = .wildcard &&
        permission.grantsDatabaseActions wanted
    | .token tokenId wanted =>
      permission.resourceType = .token &&
        (match permission.resourceIdentifier with
          | .wildcard => true
          | .token ids => decide (tokenId ∈ ids)
          | .database _ => false) &&
        match permission.actions with
        | .wildcard => true
        | .token actions => actions.contains wanted
        | .database _ => false

end Permission

def adminPermission : Permission where
  resourceType := .wildcard
  resourceIdentifier := .wildcard
  actions := .wildcard

structure TokenInfo where
  id : Nat
  name : String
  hash : List UInt8
  description : Option String := none
  createdBy : Option Nat := none
  createdAt : Int
  updatedAt : Option Int := none
  updatedBy : Option Nat := none
  expiryMillis : Int
  permissions : List Permission := []
deriving DecidableEq

/-- A token without permissions; one without an expiry gets the largest time. -/
def TokenInfo.new (id : Nat) (name : String) (hash : List UInt8) (createdAt : Int)
    (expiryMillis : Option Int) : TokenInfo where
  id := id
  name := name
  hash := hash
  createdAt := createdAt
  expiryMillis := expiryMillis.getD (2 ^ 63 - 1)

def TokenInfo.permits (token : TokenInfo) (request : AccessRequest) : Bool :=
  token.permissions.any fun permission => permission.grants request

instance : CatalogResource TokenInfo where
  id := TokenInfo.id
  name := TokenInfo.name
  maxId := 2 ^ 64 - 1

structure TokenRepository where
  repo : Repository TokenInfo := {}
  hashLookupMap : BiMap Nat (List UInt8) := .empty
deriving DecidableEq

namespace TokenRepository

variable (tokens : TokenRepository)

def hashToInfo (hash : List UInt8) : Option TokenInfo :=
  (tokens.hashLookupMap.getByRight hash).bind tokens.repo.getById

def addToken (tokenId : Nat) (token : TokenInfo) : Result TokenRepository := do
  let repo ← tokens.repo.insert tokenId token
  pure { repo := repo, hashLookupMap := tokens.hashLookupMap.insert tokenId token.hash }

def updateAdminTokenHash (tokenId : Nat) (hash : List UInt8) (updatedAt : Int) :
    Result TokenRepository := do
  let token ← Fallible.okOr .missingAdminTokenToUpdate (tokens.repo.getById tokenId)
  let repo ← tokens.repo.update tokenId
    { token with hash := hash, updatedAt := some updatedAt, updatedBy := some tokenId }
  pure { repo := repo, hashLookupMap := tokens.hashLookupMap.insert tokenId hash }

def deleteToken (tokenName : String) : Result TokenRepository := do
  let tokenId ← Fallible.okOr (.notFound tokenName) (tokens.repo.nameToId tokenName)
  pure {
    repo := tokens.repo.remove tokenId
    hashLookupMap := tokens.hashLookupMap.removeByLeft tokenId }

end TokenRepository

end RefluxDb.Catalog
