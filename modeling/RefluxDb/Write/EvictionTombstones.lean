import RefluxDb.Library.Machine
import RefluxDb.Write.FoldOrder

/-! Tombstones of objects that are confirmed gone.

A path whose object is gone gets a tombstone that no high-water mark drops and a place in a
bounded queue, so that no fold adds it back until enough others have been evicted after it. The
tombstone lasts as long as nothing else is written over it: a fold that removes the path sets one
that a high-water mark drops, and a path that has such a tombstone keeps it. -/

namespace RefluxDb.Write

open List RefluxDb.Library

/-- No fold adds the path to a table. -/
def Inner.Suppresses (inner : Inner) (path : String) : Prop :=
  ∀ manifest key, (key, path) ∈ (inner.fold manifest).files.paths →
    (key, path) ∈ inner.files.paths

/-- The view, the paths that were newly evicted, oldest first, and the recorded paths, each with
the number of paths newly evicted by then. -/
structure EvictionRun where
  inner : Inner := {}
  evictions : List String := []
  records : List (String × Nat) := []

inductive EvictionAction where
  | fold (manifest : Manifest)
  | gcTombstones (walHighWater : String → Nat) (compactionsHighWater : Option String)
  | evict (paths : List String)

namespace EvictionRun

variable (run : EvictionRun)

/-- Records one path, which is newly evicted if it has no tombstone. -/
def noteGone (path : String) : EvictionRun :=
  let evictions :=
    if path ∈ run.inner.removedTombstones then run.evictions else run.evictions ++ [path]
  { inner := run.inner.tombstoneGone path
    evictions := evictions
    records := run.records ++ [(path, evictions.length)] }

def step : EvictionAction → Option EvictionRun
  | .fold manifest => some { run with inner := run.inner.fold manifest }
  | .gcTombstones walHighWater compactionsHighWater => some { run with
      inner := run.inner.gcTombstones walHighWater compactionsHighWater }
  | .evict paths => some { paths.foldl noteGone run with
      inner := run.inner.tombstoneEvicted paths }

/-- Runs start at a view that has evicted nothing. -/
def evictionMachine : Machine EvictionRun EvictionAction where
  initial run := ∃ inner : Inner, inner.evictionTombstones = [] ∧
    (∀ path, inner.removedTombstones.lookup path ≠ some .objectGone) ∧ run = { inner := inner }
  step := step

/-- The tombstones of objects that are gone are in the queue, and the queue is bounded. -/
structure Queued (run : EvictionRun) : Prop where
  queued : ∀ path, run.inner.removedTombstones.lookup path = some .objectGone →
    path ∈ run.inner.evictionTombstones
  bounded : run.inner.evictionTombstones.length ≤ maxEvictionTombstones

/-- No fold adds a recorded path back while fewer than the maximum were newly evicted since. -/
def Lasts (run : EvictionRun) : Prop :=
  ∀ record ∈ run.records, run.evictions.length - record.2 < maxEvictionTombstones →
    run.inner.Suppresses record.1

/-- No manifest removes a path whose object is confirmed gone, and the paths that are evicted are
distinct and have no tombstone. -/
def Undisputed (run : EvictionRun) : EvictionAction → Prop
  | .fold manifest => ∀ entry ∈ manifest.removes,
      run.inner.removedTombstones.lookup entry.2 ≠ some .objectGone
  | .gcTombstones _ _ => True
  | .evict paths => paths.Nodup ∧ ∀ path ∈ paths, path ∉ run.inner.removedTombstones

instance (run : EvictionRun) (action : EvictionAction) : Decidable (run.Undisputed action) := by
  cases action <;> unfold Undisputed <;> infer_instance

end EvictionRun

section Tombstones

variable {inner : Inner} {manifest : Manifest} {path other : String}

theorem suppresses_of_mem (hmem : path ∈ inner.removedTombstones) : inner.Suppresses path := by
  intro manifest key hlisted
  rcases (mem_fold_paths.mp hlisted).1 with hbefore | ⟨_, hfree⟩
  · exact hbefore
  · exact absurd hmem hfree

theorem tombstoneGc_ne_objectGone {source : Option String} :
    tombstoneGc source path ≠ some .objectGone := by
  unfold tombstoneGc
  split
  · simp
  · cases source <;> simp

/-- A fold keeps the tombstone of a gone object that it does not remove. -/
theorem lookup_objectGone_fold (hgone : inner.removedTombstones.lookup path = some .objectGone)
    (hkept : ∀ key, (key, path) ∉ manifest.removes) :
    (inner.fold manifest).removedTombstones.lookup path = some .objectGone := by
  have hmem : path ∈ (inner.fold manifest).removedTombstones := by
    rw [Inner.fold_eq, mem_addPersistedSnapshot_tombstones]
    exact .inl (mem_iff_exists_lookup.mpr ⟨_, hgone⟩)
  obtain ⟨gc, hgc⟩ := mem_iff_exists_lookup.mp hmem
  have hsame := hgc
  rw [Inner.fold_eq] at hsame
  rcases lookup_addPersistedSnapshot hsame with hold | ⟨⟨key, hremoved⟩, _⟩
  · rw [hgone] at hold
    rw [hgc, ← hold]
  · exact absurd hremoved (hkept key)

@[simp] theorem evictionTombstones_fold :
    (inner.fold manifest).evictionTombstones = inner.evictionTombstones := by
  rw [Inner.fold_eq]
  rfl

theorem lookup_gcTombstones_objectGone {walHighWater : String → Nat}
    {compactionsHighWater : Option String} :
    (inner.gcTombstones walHighWater compactionsHighWater).removedTombstones.lookup path =
        some .objectGone ↔
      inner.removedTombstones.lookup path = some .objectGone := by
  change TombstoneGc.objectGone ∈ (retain _ inner.removedTombstones).lookup path ↔ _
  rw [mem_lookup_retain]
  simp [Inner.keepsTombstone]

end Tombstones

section Queue

variable {inner : Inner} {path : String}

theorem evictionTombstones_dropOldestEviction :
    inner.dropOldestEviction.evictionTombstones = inner.evictionTombstones.drop 1 := by
  unfold Inner.dropOldestEviction
  split <;> simp_all

/-- The oldest places are given up one by one. -/
theorem evictionTombstones_dropRounds (rounds : Nat) (inner : Inner) :
    ((range rounds).foldl (fun state _ => state.dropOldestEviction)
      inner).evictionTombstones = inner.evictionTombstones.drop rounds := by
  induction rounds with
  | zero => rfl
  | succ rounds ih =>
    rw [range_succ, foldl_append, foldl_cons, foldl_nil,
      evictionTombstones_dropOldestEviction, ih, drop_drop]

variable {oldest : String} {rest : List String}

theorem lookup_dropOldestEviction
    (hqueue : inner.evictionTombstones = oldest :: rest) (hne : path ≠ oldest) :
    inner.dropOldestEviction.removedTombstones.lookup path =
      inner.removedTombstones.lookup path := by
  unfold Inner.dropOldestEviction
  rw [hqueue]
  dsimp only
  split
  · rw [AList.lookup_erase_ne hne]
  · rfl

theorem lookup_oldest_dropOldestEviction (hqueue : inner.evictionTombstones = oldest :: rest) :
    inner.dropOldestEviction.removedTombstones.lookup oldest ≠ some .objectGone := by
  unfold Inner.dropOldestEviction
  rw [hqueue]
  dsimp only
  split
  · simp
  · assumption

/-- The tombstones of gone objects are in the queue. -/
def Inner.InQueue (inner : Inner) : Prop :=
  ∀ path, inner.removedTombstones.lookup path = some .objectGone →
    path ∈ inner.evictionTombstones

theorem Inner.InQueue.tombstoneGone (hinqueue : inner.InQueue) (path : String) :
    (inner.tombstoneGone path).InQueue := by
  intro other hgone
  unfold Inner.tombstoneGone at hgone ⊢
  split
  · rename_i hmem
    rw [if_pos hmem] at hgone
    exact hinqueue other hgone
  · rename_i habsent
    rw [if_neg habsent] at hgone
    by_cases hsame : other = path
    · simp [hsame]
    · rw [AList.lookup_insert_ne hsame] at hgone
      exact mem_append_left _ (hinqueue other hgone)

theorem Inner.InQueue.dropOldestEviction (hinqueue : inner.InQueue) :
    inner.dropOldestEviction.InQueue := by
  intro path hgone
  cases hqueue : inner.evictionTombstones with
  | nil =>
    simp only [Inner.dropOldestEviction, hqueue] at hgone
    simpa [hqueue] using hinqueue path hgone
  | cons oldest rest =>
    have hne : path ≠ oldest := by
      rintro rfl
      exact lookup_oldest_dropOldestEviction hqueue hgone
    rw [lookup_dropOldestEviction hqueue hne] at hgone
    rw [evictionTombstones_dropOldestEviction]
    simpa [hqueue, hne] using hinqueue path hgone

theorem Inner.InQueue.tombstoneEvicted (hinqueue : inner.InQueue) (paths : List String) :
    (inner.tombstoneEvicted paths).InQueue := by
  have hnoted : (paths.foldl Inner.tombstoneGone inner).InQueue :=
    foldl_keeps InQueue (fun _ path _ hstate => hstate.tombstoneGone path) hinqueue
  exact foldl_keeps InQueue (fun _ _ _ hstate => hstate.dropOldestEviction) hnoted

end Queue

namespace EvictionRun

variable {run next : EvictionRun} {path : String} {dropped : Nat}

variable {action : EvictionAction}

theorem Queued.step (hqueued : run.Queued)
    (hstep : run.step action = some next) : next.Queued := by
  cases action with
  | fold manifest =>
    obtain rfl := Option.some.inj hstep
    constructor
    · intro path hgone
      rw [evictionTombstones_fold]
      rw [Inner.fold_eq] at hgone
      rcases lookup_addPersistedSnapshot hgone with hold | ⟨_, hgc⟩
      · exact hqueued.queued path hold
      · exact absurd hgc tombstoneGc_ne_objectGone
    · rw [evictionTombstones_fold]
      exact hqueued.bounded
  | gcTombstones walHighWater compactionsHighWater =>
    obtain rfl := Option.some.inj hstep
    exact ⟨fun path hgone => hqueued.queued path (lookup_gcTombstones_objectGone.mp hgone),
      hqueued.bounded⟩
  | evict paths =>
    obtain rfl := Option.some.inj hstep
    have hinqueue : run.inner.InQueue := hqueued.queued
    refine ⟨hinqueue.tombstoneEvicted paths, ?_⟩
    rw [Inner.tombstoneEvicted, evictionTombstones_dropRounds, length_drop]
    omega

/-- The queue is what was newly evicted without the first few, all of it has the tombstone of a
gone object, and each record is at its place. -/
structure Noted (dropped : Nat) (run : EvictionRun) : Prop where
  queue : run.inner.evictionTombstones = run.evictions.drop dropped
  gone : ∀ path ∈ run.inner.evictionTombstones,
    run.inner.removedTombstones.lookup path = some .objectGone
  nodup : run.inner.evictionTombstones.Nodup
  placed : ∀ record ∈ run.records, ∃ index, record.2 = index + 1 ∧
    run.evictions[index]? = some record.1
  inside : dropped ≤ run.evictions.length

theorem Noted.noteGone (hnoted : run.Noted dropped) (hfree : path ∉ run.inner.removedTombstones) :
    (run.noteGone path).Noted dropped := by
  have habsent : path ∉ run.inner.evictionTombstones := by
    intro hmem
    exact hfree (mem_iff_exists_lookup.mpr ⟨_, hnoted.gone path hmem⟩)
  have hqueue := hnoted.queue
  simp only [EvictionRun.noteGone, Inner.tombstoneGone, if_neg hfree]
  refine ⟨?_, ?_, ?_, ?_, ?_⟩
  · simp only [hqueue, drop_append_of_le_length hnoted.inside]
  · simp only [mem_concat]
    rintro other (hother | rfl)
    · have hne : other ≠ path := fun heq => habsent (heq ▸ hother)
      rw [AList.lookup_insert_ne hne]
      exact hnoted.gone other hother
    · exact AList.lookup_insert _
  · exact hnoted.nodup.append (by simp) (by simpa using habsent)
  · simp only [mem_concat]
    rintro record (hrecord | rfl)
    · obtain ⟨index, hcount, hplace⟩ := hnoted.placed record hrecord
      have hlt := (List.getElem?_eq_some_iff.mp hplace).1
      exact ⟨index, hcount, by rw [getElem?_append_left hlt, hplace]⟩
    · exact ⟨run.evictions.length, by simp, by simp⟩
  · have hinside := hnoted.inside
    simp only [length_append]
    omega

theorem mem_tombstoneGone {inner : Inner} {other : String}
    (hmem : other ∈ (inner.tombstoneGone path).removedTombstones) (hne : other ≠ path) :
    other ∈ inner.removedTombstones := by
  unfold Inner.tombstoneGone at hmem
  split at hmem
  · exact hmem
  · exact (AList.mem_insert _).mp hmem |>.resolve_left hne

theorem Noted.foldl_noteGone (paths : List String) (hnoted : run.Noted dropped)
    (hnodup : paths.Nodup) (hfree : ∀ path ∈ paths, path ∉ run.inner.removedTombstones) :
    (paths.foldl EvictionRun.noteGone run).Noted dropped := by
  induction paths generalizing run with
  | nil => exact hnoted
  | cons path rest ih =>
    rw [nodup_cons] at hnodup
    rw [forall_mem_cons] at hfree
    refine ih (hnoted.noteGone hfree.1) hnodup.2 ?_
    intro other hother hmem
    have hne : other ≠ path := fun heq => hnodup.1 (heq ▸ hother)
    exact hfree.2 other hother (mem_tombstoneGone hmem hne)

theorem inner_foldl_noteGone (paths : List String) (run : EvictionRun) :
    (paths.foldl noteGone run).inner = paths.foldl Inner.tombstoneGone run.inner := by
  induction paths generalizing run with
  | nil => rfl
  | cons path rest ih => exact ih (run.noteGone path)

theorem Noted.dropOldestEviction (hnoted : run.Noted dropped)
    (hmore : dropped < run.evictions.length) :
    Noted (dropped + 1) { run with inner := run.inner.dropOldestEviction } := by
  have hqueue := hnoted.queue
  rw [drop_eq_getElem_cons hmore] at hqueue
  have hnodup := hnoted.nodup
  rw [hqueue, nodup_cons] at hnodup
  have hrest : run.inner.dropOldestEviction.evictionTombstones =
      run.evictions.drop (dropped + 1) := by
    rw [evictionTombstones_dropOldestEviction, hqueue]
    rfl
  refine ⟨hrest, ?_, ?_, hnoted.placed, hmore⟩
  · rw [hrest]
    intro path hpath
    have hne : path ≠ run.evictions[dropped] := fun heq => hnodup.1 (heq ▸ hpath)
    rw [lookup_dropOldestEviction hqueue hne]
    exact hnoted.gone path (by rw [hqueue]; exact mem_cons_of_mem _ hpath)
  · rw [hrest]
    exact hnodup.2

theorem Noted.dropRounds (rounds : Nat) (hnoted : run.Noted dropped)
    (hmore : dropped + rounds ≤ run.evictions.length) :
    Noted (dropped + rounds) { run with
      inner := (range rounds).foldl (fun state _ => state.dropOldestEviction) run.inner } := by
  induction rounds with
  | zero => exact hnoted
  | succ rounds ih =>
    rw [range_succ, foldl_append]
    exact (ih (by omega)).dropOldestEviction hmore

/-- What is given up of the queue is what is above the maximum. -/
def Kept (run : EvictionRun) : Prop :=
  ∃ dropped, run.Noted dropped ∧ dropped ≤ run.evictions.length - maxEvictionTombstones

theorem Kept.evict {paths : List String} (hkept : run.Kept) (hnodup : paths.Nodup)
    (hfree : ∀ path ∈ paths, path ∉ run.inner.removedTombstones) :
    Kept { paths.foldl noteGone run with inner := run.inner.tombstoneEvicted paths } := by
  obtain ⟨dropped, hnoted, hdropped⟩ := hkept
  have hall := hnoted.foldl_noteGone paths hnodup hfree
  have hgrown : run.evictions.length ≤ (paths.foldl noteGone run).evictions.length := by
    refine foldl_keeps (fun later : EvictionRun => run.evictions.length ≤ later.evictions.length)
      (fun later path _ hlater => ?_) (le_refl _)
    simp only [noteGone]
    split
    · exact hlater
    · rw [length_append]
      omega
  have hlength : (paths.foldl noteGone run).inner.evictionTombstones.length =
      (paths.foldl noteGone run).evictions.length - dropped := by
    rw [hall.queue, length_drop]
  have hrounds := hall.dropRounds
    ((paths.foldl noteGone run).inner.evictionTombstones.length - maxEvictionTombstones)
    (by omega)
  rw [inner_foldl_noteGone] at hrounds hlength
  refine ⟨_, hrounds, ?_⟩
  change _ ≤ (paths.foldl noteGone run).evictions.length - maxEvictionTombstones
  omega

theorem Kept.step (hkept : run.Kept)
    (hundisputed : run.Undisputed action) (hstep : run.step action = some next) : next.Kept := by
  cases action with
  | fold manifest =>
    obtain rfl := Option.some.inj hstep
    obtain ⟨dropped, hnoted, hdropped⟩ := hkept
    refine ⟨dropped, ⟨?_, ?_, ?_, hnoted.placed, hnoted.inside⟩, hdropped⟩
    · rw [evictionTombstones_fold]
      exact hnoted.queue
    · rw [evictionTombstones_fold]
      intro path hpath
      have hgone := hnoted.gone path hpath
      exact lookup_objectGone_fold hgone fun key hremoved => hundisputed _ hremoved hgone
    · rw [evictionTombstones_fold]
      exact hnoted.nodup
  | gcTombstones walHighWater compactionsHighWater =>
    obtain rfl := Option.some.inj hstep
    obtain ⟨dropped, hnoted, hdropped⟩ := hkept
    exact ⟨dropped, { hnoted with
      gone := fun path hpath => lookup_gcTombstones_objectGone.mpr (hnoted.gone path hpath) },
      hdropped⟩
  | evict paths =>
    obtain rfl := Option.some.inj hstep
    exact hkept.evict hundisputed.1 hundisputed.2

theorem Kept.lasts (hkept : run.Kept) : run.Lasts := by
  obtain ⟨dropped, hnoted, hdropped⟩ := hkept
  intro record hrecord hfew
  obtain ⟨index, hcount, hplace⟩ := hnoted.placed record hrecord
  have hqueued : record.1 ∈ run.inner.evictionTombstones := by
    rw [hnoted.queue]
    refine mem_of_getElem? (i := index - dropped) ?_
    rw [getElem?_drop, ← hplace]
    congr 1
    omega
  exact suppresses_of_mem (mem_iff_exists_lookup.mpr ⟨_, hnoted.gone _ hqueued⟩)

/-- In every run the tombstones of gone objects are in the bounded queue; and in every run whose
manifests remove none of their paths and whose evicted paths have no tombstone, evictions last. -/
theorem evictions_last (run : EvictionRun) :
    (evictionMachine.Reachable Machine.Unrestricted run → run.Queued) ∧
      (evictionMachine.Reachable Undisputed run → run.Lasts) := by
  constructor
  · intro hreachable
    induction hreachable with
    | initial hinitial =>
      obtain ⟨inner, hqueue, hnone, rfl⟩ := hinitial
      exact ⟨fun path hgone => absurd hgone (hnone path), by simp [hqueue]⟩
    | step _ _ hstep ih => exact ih.step hstep
  · intro hreachable
    have hkept : run.Kept := by
      induction hreachable with
      | initial hinitial =>
        obtain ⟨inner, hqueue, _, rfl⟩ := hinitial
        exact ⟨0, ⟨by simp [hqueue], by simp [hqueue], by simp [hqueue], by simp, by simp⟩, by simp⟩
      | step _ hundisputed hstep ih => exact ih.step hundisputed hstep
    exact hkept.lasts

theorem emptyRun_evictionReachable {allowed : EvictionRun → EvictionAction → Prop} :
    evictionMachine.Reachable allowed {} :=
  .initial ⟨{}, rfl, by simp, rfl⟩

/-- A gone object stays away when the manifest that added it is folded again. -/
theorem evictions_last_refolded :
    ∃ run, evictionMachine.Reachable Undisputed run ∧ run.records = [("a.parquet", 1)] ∧
      run.Queued ∧ run.Lasts := by
  obtain ⟨run, hreachable, hrecords⟩ :
      ∃ run, evictionMachine.Reachable Undisputed run ∧ run.records = [("a.parquet", 1)] :=
    emptyRun_evictionReachable.exists_of_exec
      [.evict ["a.parquet"],
        .fold (.wal
          { nodeId := "writer"
            snapshotSequenceNumber := 1
            walFileSequenceNumber := 1
            databases := ⟨[(⟨1, 1⟩, [⟨1, "a.parquet", 100, 1, 0, 0, 0⟩])], by decide⟩
            removedFiles := .empty })]
      _ (by decide) (by decide)
  have hlasts := evictions_last run
  exact ⟨run, hreachable, hrecords, hlasts.1 (hreachable.mono fun _ _ _ => trivial),
    hlasts.2 hreachable⟩

/-- A compaction that removes an evicted path writes over its tombstone; when that one is dropped,
a fold adds the path back. -/
theorem evicted_path_added_back :
    ∃ run, evictionMachine.Reachable Machine.Unrestricted run ∧ ¬run.Lasts := by
  let added : Manifest := .wal
    { nodeId := "writer"
      snapshotSequenceNumber := 1
      walFileSequenceNumber := 1
      databases := ⟨[(⟨1, 1⟩, [⟨1, "a.parquet", 100, 1, 0, 0, 0⟩])], by decide⟩
      removedFiles := .empty }
  let compacted : Manifest := .compaction "1"
    { nodeId := "compactor"
      snapshotSequenceNumber := 0
      walFileSequenceNumber := 0
      databases := .empty
      removedFiles := ⟨[(⟨1, 1⟩, [⟨1, "a.parquet", 100, 1, 0, 0, 0⟩])], by decide⟩ }
  obtain ⟨run, hreachable, hrecords, hcount, hlisted, hempty⟩ :=
    emptyRun_evictionReachable.exists_of_run
      [.evict ["a.parquet"], .fold compacted, .gcTombstones (fun _ => 0) (some "1")]
      (fun run => run.records = [("a.parquet", 1)] ∧ run.evictions.length = 1 ∧
        (⟨1, 1⟩, "a.parquet") ∈ (run.inner.fold added).files.paths ∧ run.inner.files = [])
      (by decide)
  refine ⟨run, hreachable, fun hlasts => ?_⟩
  have hsuppressed := hlasts ("a.parquet", 1) (by simp [hrecords])
    (by simp [hcount, maxEvictionTombstones])
  have hbefore := hsuppressed added _ hlisted
  simp [hempty, Files.paths] at hbefore

end EvictionRun

end RefluxDb.Write
