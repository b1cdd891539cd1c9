import RefluxDb.Wal.Restart

/-! Which WAL files the snapshots of one process delete.

The remover knows the oldest WAL file number and keeps a number of snapshotted files; both come
from outside, the oldest from the listing at the start. Each snapshot deletes from the oldest
number up to the last snapshotted one without those to keep. Their difference is taken in 64 bits,
so what is deleted is bounded as long as the oldest number is not above the last. -/

namespace RefluxDb.Wal

open List

/-- One removal: the oldest number it found, the last snapshotted number, and the number before
which it deleted, which is the oldest one afterwards. -/
structure Removal where
  oldest : Nat
  last : Nat
  upTo : Nat
deriving DecidableEq

def Removal.Deletes (removal : Removal) (number : Nat) : Prop :=
  removal.oldest ≤ number ∧ number < removal.upTo

def removeSnapshotWalFiles (snapshottedWalFilesToKeep oldest last : Nat) : Removal where
  oldest := oldest
  last := last
  upTo := (lastToDelete snapshottedWalFilesToKeep oldest last).getD oldest

/-- The removals of successive snapshots, given by their last WAL file numbers. -/
def removals (snapshottedWalFilesToKeep : Nat) : Nat → List Nat → List Removal
  | _, [] => []
  | oldest, last :: rest =>
    let removal := removeSnapshotWalFiles snapshottedWalFilesToKeep oldest last
    removal :: removals snapshottedWalFilesToKeep removal.upTo rest

/-- The difference does not underflow; what is deleted is below the last snapshotted number and
leaves the newest ones, then and later; no number is deleted twice; and the oldest number grows and
stays within the last. -/
structure BoundedRemovals (snapshottedWalFilesToKeep : Nat) (calls : List Removal) : Prop where
  no_underflow : ∀ call ∈ calls, call.oldest ≤ call.last
  below : ∀ call ∈ calls, ∀ number, call.Deletes number → number < call.last
  keeps : ∀ call ∈ calls, ∀ number, call.Deletes number →
    number + snapshottedWalFilesToKeep ≤ call.last
  keeps_later : calls.Pairwise fun earlier later => ∀ number, earlier.Deletes number →
    number + snapshottedWalFilesToKeep ≤ later.last
  once : calls.Pairwise fun earlier later => ∀ number, earlier.Deletes number →
    ¬later.Deletes number
  oldest_grows : ∀ call ∈ calls, call.oldest ≤ call.upTo ∧ call.upTo ≤ call.last
  oldest_carried : calls.Pairwise fun earlier later => earlier.upTo ≤ later.oldest

variable {keep oldest last : Nat} {lasts : List Nat}

/-- Without underflow the end of the range is the first number to keep, or the oldest one. -/
theorem upTo_removeSnapshotWalFiles (keep : Nat) (hle : oldest ≤ last) (hlast : last < 2 ^ 64) :
    (removeSnapshotWalFiles keep oldest last).upTo = max oldest (last - keep) := by
  have hcurr : (last + 2 ^ 64 - oldest) % 2 ^ 64 = last - oldest := by omega
  simp only [removeSnapshotWalFiles, lastToDelete, hcurr]
  split <;> simp only [Option.getD_some, Option.getD_none] <;> omega

theorem removals_facts (hlasts : lasts.Pairwise (· < ·)) (hbits : ∀ last ∈ lasts, last < 2 ^ 64)
    (hfirst : ∀ last ∈ lasts.head?, oldest ≤ last) :
    BoundedRemovals keep (removals keep oldest lasts) ∧
      ∀ call ∈ removals keep oldest lasts, oldest ≤ call.oldest ∧ call.last ∈ lasts := by
  induction lasts generalizing oldest with
  | nil =>
    refine ⟨⟨?_, ?_, ?_, ?_, ?_, ?_, ?_⟩, ?_⟩ <;> simp [removals]
  | cons last rest ih =>
    rw [pairwise_cons] at hlasts
    rw [forall_mem_cons] at hbits
    have hle : oldest ≤ last := hfirst last (by simp)
    have hupTo := upTo_removeSnapshotWalFiles keep hle hbits.1
    have hnext : ∀ later ∈ rest.head?, (removeSnapshotWalFiles keep oldest last).upTo ≤ later := by
      intro later hlater
      have hlt := hlasts.1 later (mem_of_mem_head? hlater)
      omega
    obtain ⟨hrest, hmore⟩ := ih hlasts.2 hbits.2 hnext
    have hdeletes : ∀ number, (removeSnapshotWalFiles keep oldest last).Deletes number →
        oldest ≤ number ∧ number < last - keep := by
      rintro number ⟨hge, hlt⟩
      change oldest ≤ number at hge
      omega
    have hlater : ∀ call ∈ removals keep (removeSnapshotWalFiles keep oldest last).upTo rest,
        last < call.last := fun call hcall => hlasts.1 _ (hmore call hcall).2
    refine ⟨⟨?_, ?_, ?_, ?_, ?_, ?_, ?_⟩, ?_⟩
    · exact forall_mem_cons.mpr ⟨hle, hrest.no_underflow⟩
    · refine forall_mem_cons.mpr ⟨fun number hnumber => ?_, hrest.below⟩
      change number < last
      have := hdeletes number hnumber
      omega
    · refine forall_mem_cons.mpr ⟨fun number hnumber => ?_, hrest.keeps⟩
      change number + keep ≤ last
      have := hdeletes number hnumber
      omega
    · refine pairwise_cons.mpr ⟨fun call hcall number hnumber => ?_, hrest.keeps_later⟩
      have := hdeletes number hnumber
      have := hlater call hcall
      omega
    · refine pairwise_cons.mpr ⟨fun call hcall number hnumber hagain => ?_, hrest.once⟩
      have hstart := (hmore call hcall).1
      have hend := hnumber.2
      have hbegin := hagain.1
      omega
    · refine forall_mem_cons.mpr ⟨⟨?_, ?_⟩, hrest.oldest_grows⟩
      · change oldest ≤ _
        omega
      · change _ ≤ last
        omega
    · exact pairwise_cons.mpr ⟨fun call hcall => (hmore call hcall).1, hrest.oldest_carried⟩
    · refine forall_mem_cons.mpr ⟨⟨le_refl _, mem_cons_self⟩, fun call hcall => ?_⟩
      obtain ⟨hstart, hmem⟩ := hmore call hcall
      exact ⟨by omega, mem_cons_of_mem _ hmem⟩

/-- From any listing, the removals of snapshots with increasing last numbers are bounded just when
the first of these is not below the oldest number of the listing, or below one without files. -/
theorem boundedRemovals_iff (snapshottedWalFilesToKeep : Nat) (oldestWalFile : Option Nat)
    (lasts : List Nat) (hlasts : lasts.Pairwise (· < ·)) (hbits : ∀ last ∈ lasts, last < 2 ^ 64) :
    BoundedRemovals snapshottedWalFilesToKeep
        (removals snapshottedWalFilesToKeep (oldestWalFile.getD 1) lasts) ↔
      ∀ first ∈ lasts.head?, oldestWalFile.getD 1 ≤ first := by
  constructor
  · intro hbounded first hfirst
    obtain ⟨rest, rfl⟩ := head?_eq_some_iff.mp hfirst
    exact hbounded.no_underflow _ mem_cons_self
  · intro hfirst
    exact (removals_facts hlasts hbits hfirst).1

/-- Three snapshots from an empty store, with two files to keep. -/
theorem boundedRemovals_iff_three :
    BoundedRemovals 2 (removals 2 ((none : Option Nat).getD 1) [3, 7, 8]) :=
  (boundedRemovals_iff 2 none [3, 7, 8] (by decide) (by decide)).mpr (by decide)

/-- The oldest file of the listing has number 7 and the first snapshot ends with file 5: the
difference underflows, and with 300 files to keep every number from 7 to the top is deleted. -/
theorem not_boundedRemovals_of_newer_listing :
    removals 300 ((some 7 : Option Nat).getD 1) [5] = [⟨7, 5, 2 ^ 64 - 295⟩] ∧
      ¬BoundedRemovals 300 (removals 300 ((some 7 : Option Nat).getD 1) [5]) := by
  refine ⟨by decide, fun hbounded => ?_⟩
  have hle := hbounded.no_underflow _ mem_cons_self
  simp [removeSnapshotWalFiles] at hle

end RefluxDb.Wal
