import RefluxDb.Library.CursorFeed
import RefluxDb.Write.FoldOrder

/-! The shared inventory: manifests every node can list.

Writers publish one manifest per snapshot under their node, one snapshot at a time, so in the
order of the sequence numbers. Compactions publish under an id of their own. Listing returns all
published manifests in no particular order; fetching a listed manifest may fail, and the manifest
is then left out. -/

namespace RefluxDb.Write

open List RefluxDb.Library

instance lawfulBEqStringNat : LawfulBEq (String × Nat) := inferInstance

/-- The published manifests, in the order they were published. -/
structure Store where
  walSnapshots : List PersistedSnapshot := []
  compactions : List (String × PersistedSnapshot) := []
  wal_numbered : ∀ s ∈ walSnapshots, 0 < s.snapshotSequenceNumber := by decide
  wal_ascending : walSnapshots.Pairwise fun earlier later =>
    earlier.nodeId = later.nodeId →
      earlier.snapshotSequenceNumber < later.snapshotSequenceNumber := by decide
  compaction_distinct : compactions.Pairwise fun c c' => c.1 ≠ c'.1 := by decide

namespace Store

def empty : Store := {}

@[simp]
theorem walSnapshots_empty : empty.walSnapshots = [] := rfl

@[simp]
theorem compactions_empty : empty.compactions = [] := rfl

def publishWalSnapshot (store : Store) (snapshot : PersistedSnapshot) : Option Store :=
  if hnext : 0 < snapshot.snapshotSequenceNumber ∧ ∀ s ∈ store.walSnapshots,
      s.nodeId = snapshot.nodeId → s.snapshotSequenceNumber < snapshot.snapshotSequenceNumber then
    some { store with
      walSnapshots := store.walSnapshots ++ [snapshot]
      wal_numbered := by
        refine forall_mem_concat.mpr ⟨store.wal_numbered, ?_⟩
        exact hnext.1
      wal_ascending := by
        rw [pairwise_append]
        refine ⟨store.wal_ascending, pairwise_singleton _ _, fun s hs s' hs' => ?_⟩
        rw [mem_singleton.mp hs']
        exact hnext.2 s hs }
  else none

/-- Publishes a compaction under an id that is not taken. -/
def publishCompaction (store : Store) (id : String) (snapshot : PersistedSnapshot) :
    Option Store :=
  if hnew : ∀ c ∈ store.compactions, c.1 ≠ id then
    some { store with
      compactions := store.compactions ++ [(id, snapshot)]
      compaction_distinct := by
        rw [pairwise_append]
        refine ⟨store.compaction_distinct, pairwise_singleton _ _, fun c hc c' hc' => ?_⟩
        rw [mem_singleton.mp hc']
        exact hnew c hc }
  else none

variable {store store' : Store}

variable {snapshot : PersistedSnapshot}

theorem publishWalSnapshot_eq_some (hpublish : store.publishWalSnapshot snapshot = some store') :
    (0 < snapshot.snapshotSequenceNumber ∧ ∀ s ∈ store.walSnapshots,
      s.nodeId = snapshot.nodeId → s.snapshotSequenceNumber < snapshot.snapshotSequenceNumber) ∧
      store'.walSnapshots = store.walSnapshots ++ [snapshot] ∧
      store'.compactions = store.compactions := by
  unfold publishWalSnapshot at hpublish
  split at hpublish
  case isTrue hnext =>
    simp only [Option.some.injEq] at hpublish
    subst hpublish
    exact ⟨hnext, rfl, rfl⟩
  case isFalse => simp at hpublish

theorem publishCompaction_eq_some {id : String}
    (hpublish : store.publishCompaction id snapshot = some store') :
    (∀ c ∈ store.compactions, c.1 ≠ id) ∧
      store'.compactions = store.compactions ++ [(id, snapshot)] ∧
      store'.walSnapshots = store.walSnapshots := by
  unfold publishCompaction at hpublish
  split at hpublish
  case isTrue hnew =>
    simp only [Option.some.injEq] at hpublish
    subst hpublish
    exact ⟨hnew, rfl, rfl⟩
  case isFalse => simp at hpublish

end Store

/-- The writers' manifests of a listing above a sequence number for each node, in ascending
order of the sequence numbers, without those that could not be fetched. -/
def loadAllWalSnapshots (listing : List PersistedSnapshot) (sinceSequencePerNode : String → Nat)
    (unreadable : List (String × Nat)) : List PersistedSnapshot :=
  ((listing.filter fun s =>
      decide (sinceSequencePerNode s.nodeId < s.snapshotSequenceNumber)).insertionSort
    fun s s' => s.snapshotSequenceNumber ≤ s'.snapshotSequenceNumber).filter fun s =>
      decide ((s.nodeId, s.snapshotSequenceNumber) ∉ unreadable)

/-- The compaction manifests of a listing above an id, in ascending order of the ids, without
those that could not be fetched. -/
def loadAllCompactions (listing : List (String × PersistedSnapshot))
    (sinceCompactionId : Option String) (unreadable : List String) :
    List (String × PersistedSnapshot) :=
  ((listing.filter fun c => sinceCompactionId.all (· < c.1)).insertionSort
    fun c c' => c.1 ≤ c'.1).filter fun c => decide (c.1 ∉ unreadable)

/-- The writers' manifests, each behind the later ones of its node, and a cursor per node. -/
def walFeed : CursorFeed PersistedSnapshot (String → Nat) where
  behind s s' := s.nodeId = s'.nodeId ∧ s.snapshotSequenceNumber ≤ s'.snapshotSequenceNumber
  passed cursors s := s.snapshotSequenceNumber ≤ cursors s.nodeId
  advance cursors s :=
    Function.update cursors s.nodeId (max (cursors s.nodeId) s.snapshotSequenceNumber)
  behind_self _ := ⟨rfl, le_refl _⟩
  passed_advance := by
    intro cursors s other _
    by_cases hnode : other.nodeId = s.nodeId
    · simp [hnode, Function.update_self]
    · simp [hnode, Function.update_of_ne]

/-- The compactions, each behind those with a larger id, and a cursor that is an id. -/
def compactionFeed : CursorFeed (String × PersistedSnapshot) (Option String) where
  behind c c' := c.1 ≤ c'.1
  passed cursor c := ∃ id ∈ cursor, c.1 ≤ id
  advance _ c := some c.1
  behind_self _ := le_refl _
  passed_advance := by
    intro cursor c other hunpassed
    constructor
    · rintro ⟨id, hid, hle⟩
      rw [← Option.mem_some_iff.mp hid] at hle
      exact .inr hle
    · rintro (⟨id, hid, hle⟩ | hbehind)
      · have hlt : id < c.1 := lt_of_not_ge fun hge => hunpassed ⟨id, hid, hge⟩
        exact ⟨c.1, rfl, hle.trans hlt.le⟩
      · exact ⟨c.1, rfl, hbehind⟩

theorem mem_loadAllWalSnapshots {listing : List PersistedSnapshot} {since : String → Nat}
    {unreadable : List (String × Nat)} {s : PersistedSnapshot} :
    s ∈ loadAllWalSnapshots listing since unreadable ↔
      s ∈ listing ∧ ¬walFeed.passed since s ∧
        (s.nodeId, s.snapshotSequenceNumber) ∉ unreadable := by
  simp only [loadAllWalSnapshots, mem_filter, mem_insertionSort, decide_eq_true_eq,
    walFeed, not_le, and_assoc]

variable {listing : List (String × PersistedSnapshot)}

theorem mem_loadAllCompactions
    {since : Option String} {unreadable : List String} {c : String × PersistedSnapshot} :
    c ∈ loadAllCompactions listing since unreadable ↔
      c ∈ listing ∧ ¬compactionFeed.passed since c ∧ c.1 ∉ unreadable := by
  have hsince : since.all (· < c.1) = true ↔ ¬∃ id ∈ since, c.1 ≤ id := by
    cases since <;> simp
  simp only [loadAllCompactions, mem_filter, mem_insertionSort, decide_eq_true_eq,
    hsince, compactionFeed, and_assoc]

/-- Sorting by a key leaves distinct entries in strictly ascending order where the key tells
them apart. -/
private theorem pairwise_insertionSort_filter {α κ : Type*} [LinearOrder κ] (key : α → κ)
    {distinct : α → α → Prop} (hsymm : ∀ a b, distinct a b → distinct b a) {list : List α}
    (hdistinct : list.Pairwise distinct) (keep : α → Bool) :
    ((list.insertionSort fun a b => key a ≤ key b).filter keep).Pairwise fun a b =>
      key a ≤ key b ∧ distinct a b := by
  refine List.Pairwise.filter _ (List.Pairwise.and ?_ ?_)
  · exact pairwise_insertionSort (fun a b => key a ≤ key b) list
  · exact (perm_insertionSort _ list).symm.pairwise hdistinct fun h => hsymm _ _ h

variable {store : Store}

/-- What the poller is about to fold of the writers' manifests is ahead of its cursors. -/
theorem ahead_loadAllWalSnapshots {listing : List PersistedSnapshot}
    (hlisting : listing.Perm store.walSnapshots) (since : String → Nat)
    (unreadable : List (String × Nat)) :
    walFeed.Ahead since (loadAllWalSnapshots listing since unreadable) := by
  refine ⟨fun s hs => (mem_loadAllWalSnapshots.mp hs).2.1, ?_⟩
  have hkeys : store.walSnapshots.Pairwise fun s s' =>
      ¬(s.nodeId = s'.nodeId ∧ s.snapshotSequenceNumber = s'.snapshotSequenceNumber) :=
    store.wal_ascending.imp fun hlt heq => absurd heq.2 (hlt heq.1).ne
  have hlisted := hlisting.symm.pairwise hkeys fun h heq => h ⟨heq.1.symm, heq.2.symm⟩
  refine (pairwise_insertionSort_filter (·.snapshotSequenceNumber) ?_
    (hlisted.filter _) _).imp ?_
  · exact fun s s' h heq => h ⟨heq.1.symm, heq.2.symm⟩
  · rintro s s' ⟨hle, hdistinct⟩ ⟨hnode, hge⟩
    exact hdistinct ⟨hnode.symm, le_antisymm hle hge⟩

/-- Writers' manifests are loaded in the order of their numbers, whatever their nodes. -/
theorem pairwise_loadAllWalSnapshots (listing : List PersistedSnapshot) (since : String → Nat)
    (unreadable : List (String × Nat)) :
    (loadAllWalSnapshots listing since unreadable).Pairwise fun s s' =>
      s.snapshotSequenceNumber ≤ s'.snapshotSequenceNumber := by
  have hany : listing.Pairwise fun _ _ => True :=
    pairwise_of_forall_mem_list fun _ _ _ _ => trivial
  exact (pairwise_insertionSort_filter (·.snapshotSequenceNumber) (fun _ _ h => h)
    (hany.filter _) _).imp And.left

/-- What the poller is about to fold of the compactions is ahead of its cursor. -/
theorem ahead_loadAllCompactions (hlisting : listing.Perm store.compactions) (since : Option String)
    (unreadable : List String) :
    compactionFeed.Ahead since (loadAllCompactions listing since unreadable) := by
  refine ⟨fun c hc => (mem_loadAllCompactions.mp hc).2.1, ?_⟩
  have hlisted := hlisting.symm.pairwise store.compaction_distinct fun h => Ne.symm h
  refine (pairwise_insertionSort_filter Prod.fst (fun _ _ => Ne.symm)
    (hlisted.filter _) _).imp ?_
  rintro c c' ⟨hle, hdistinct⟩ hge
  exact hdistinct (le_antisymm hle hge)

end RefluxDb.Write
