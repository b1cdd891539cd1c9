import Mathlib.Data.Option.Basic
import Mathlib.Order.Basic

/-! One object of a store with conditional writes.

Every successful write gives the object a version no earlier write had. A create succeeds only
when the object is absent, an update only when the object still has the version it names, and
both are atomic. A delete is unconditional. -/

namespace RefluxDb.Library

/-- The object, if it exists, with its version, and the version the next write will be given. -/
structure VersionedCell (α : Type*) where
  stored : Option (α × Nat)
  nextVersion : Nat
  version_lt : ∀ value version, stored = some (value, version) → version < nextVersion

namespace VersionedCell

variable {α : Type*} (cell : VersionedCell α) (value : α)

/-- The absent object of a store that has seen no write of it. -/
def empty : VersionedCell α where
  stored := none
  nextVersion := 0
  version_lt := by simp

/-- The state after a write went through; the version it was given is `cell.nextVersion`. -/
def write : VersionedCell α where
  stored := some (value, cell.nextVersion)
  nextVersion := cell.nextVersion + 1
  version_lt := by
    intro _ version hstored
    simp only [Option.some.injEq, Prod.mk.injEq] at hstored
    omega

/-- Conditional create: refused when the object exists. -/
def create : Option (VersionedCell α) :=
  if cell.stored.isNone then some (cell.write value) else none

/-- Conditional update: refused when the object is absent or has another version. -/
def update (version : Nat) : Option (VersionedCell α) :=
  if cell.stored.map Prod.snd = some version then some (cell.write value) else none

/-- Unconditional delete. -/
def delete : VersionedCell α where
  stored := none
  nextVersion := cell.nextVersion
  version_lt := by simp

@[simp] theorem write_stored : (cell.write value).stored = some (value, cell.nextVersion) := rfl

@[simp] theorem write_nextVersion : (cell.write value).nextVersion = cell.nextVersion + 1 := rfl

@[simp] theorem delete_stored : cell.delete.stored = none := rfl

@[simp] theorem delete_nextVersion : cell.delete.nextVersion = cell.nextVersion := rfl

variable {cell value}

variable {written : VersionedCell α}

theorem create_eq_some :
    cell.create value = some written ↔ cell.stored = none ∧ written = cell.write value := by
  unfold create
  cases cell.stored <;> simp [eq_comm]

theorem update_eq_some {version : Nat} :
    cell.update value version = some written ↔
      (∃ old, cell.stored = some (old, version)) ∧ written = cell.write value := by
  simp [update, eq_comm]

end VersionedCell

end RefluxDb.Library
