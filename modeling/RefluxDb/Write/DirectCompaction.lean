import RefluxDb.Write.Bookkeeping
import RefluxDb.Write.FoldOrder

/-! A compactor that applies each compaction to its view twice.

Publishing a compaction updates the view of the node at once, one new file after the other and
then the old files, and leaves no tombstones. The poller of the same node later folds the manifest
it finds in the shared inventory. The second application finds everything done as long as it comes
after the additions of the first and before the outputs are compacted further. -/

namespace RefluxDb.Write

open List RefluxDb.Library

/-- A compaction of one table: the files it writes and the files they replace. -/
structure PublishedCompaction where
  id : String
  key : TableKey
  newFiles : List ParquetFile
  oldFiles : List ParquetFile
deriving DecidableEq

namespace PublishedCompaction

variable (compaction : PublishedCompaction)

def adds : List (TableKey × String) :=
  compaction.newFiles.map fun file => (compaction.key, file.path)

def removes : List (TableKey × String) :=
  compaction.oldFiles.map fun file => (compaction.key, file.path)

/-- The manifest; it has no snapshot and WAL numbers of its own. -/
def manifest (nodeId : String) : Manifest :=
  .compaction compaction.id
    { nodeId := nodeId
      snapshotSequenceNumber := 0
      walFileSequenceNumber := 0
      databases := ⟨[(compaction.key, compaction.newFiles)], by simp⟩
      removedFiles := ⟨[(compaction.key, compaction.oldFiles)], by simp⟩ }

@[simp] theorem manifest_adds (nodeId : String) :
    (compaction.manifest nodeId).adds = compaction.adds := by
  simp [manifest, Manifest.adds, Manifest.snapshot, DatabaseTables.paths, adds]

@[simp] theorem manifest_removes (nodeId : String) :
    (compaction.manifest nodeId).removes = compaction.removes := by
  simp [manifest, Manifest.removes, Manifest.snapshot, DatabaseTables.paths, removes]

end PublishedCompaction

/-- The whole in-memory update of publishing a compaction. -/
def Inner.applyDirectly (inner : Inner) (compaction : PublishedCompaction) : Inner :=
  (compaction.newFiles.foldl (fun inner file => inner.addPersistedFile compaction.key file)
    inner).removePersistedFiles compaction.key compaction.oldFiles

/-- A compactor: the view it started with and the one it has, the compactions it has planned and
of those the published, the directly applied and the folded ones, the outputs it has added
directly, and the cursor of its poller. -/
structure DirectRun where
  base : Inner
  inner : Inner
  planned : List PublishedCompaction := []
  published : List PublishedCompaction := []
  added : List (TableKey × String) := []
  applied : List PublishedCompaction := []
  folded : List PublishedCompaction := []
  cursor : Option String := none

inductive DirectAction where
  | plan (compaction : PublishedCompaction)
  | publish (compaction : PublishedCompaction)
  | addNext (compaction : PublishedCompaction)
  | removeOld (compaction : PublishedCompaction)
  | fold (compaction : PublishedCompaction)
  | gcTombstones (walHighWater : String → Nat) (compactionsHighWater : Option String)

namespace DirectRun

variable (nodeId : String) (run : DirectRun)

/-- Inputs are taken from the view; the outputs get paths that no file has. -/
def Plans (compaction : PublishedCompaction) : Prop :=
  (∀ entry ∈ compaction.removes, entry ∈ run.inner.files.paths) ∧ compaction.adds.Nodup ∧
    ∀ entry ∈ compaction.adds, entry ∉ run.base.files.paths ∧
      ∀ other ∈ run.planned, entry ∉ other.adds
deriving Decidable

/-- The next output that publishing adds to the view. -/
def nextFile (compaction : PublishedCompaction) : Option ParquetFile :=
  compaction.newFiles.find? fun file => decide ((compaction.key, file.path) ∉ run.added)

def step : DirectAction → Option DirectRun
  | .plan compaction =>
    if run.Plans compaction then some { run with planned := run.planned ++ [compaction] }
    else none
  | .publish compaction =>
    if compaction ∈ run.planned ∧ compaction ∉ run.published then
      some { run with published := run.published ++ [compaction] }
    else none
  | .addNext compaction =>
    if compaction ∈ run.published then
      (run.nextFile compaction).map fun file => { run with
        inner := run.inner.addPersistedFile compaction.key file
        added := run.added ++ [(compaction.key, file.path)] }
    else none
  | .removeOld compaction =>
    if compaction ∈ run.published ∧ compaction ∉ run.applied ∧
        ∀ entry ∈ compaction.adds, entry ∈ run.added then
      some { run with
        inner := run.inner.removePersistedFiles compaction.key compaction.oldFiles
        applied := run.applied ++ [compaction] }
    else none
  | .fold compaction =>
    -- the ids folded increase; one that is published below the cursor is never folded
    if compaction ∈ run.published ∧ run.cursor.all (· < compaction.id) then
      some { run with
        inner := run.inner.fold (compaction.manifest nodeId)
        folded := run.folded ++ [compaction]
        cursor := some compaction.id }
    else none
  | .gcTombstones walHighWater compactionsHighWater => some { run with
      inner := run.inner.gcTombstones walHighWater compactionsHighWater }

/-- Runs start at any view with right books. -/
def directMachine : Machine DirectRun DirectAction where
  initial run := ∃ inner : Inner, inner.Booked ∧ run = { base := inner, inner := inner }
  step := step nodeId

/-- The replaced files of a compaction that has been applied directly are not live; and once all
published compactions have been applied directly, live paths and the file count are those of
applying each of them once. -/
structure AppliedOnce (run : DirectRun) : Prop where
  gone : ∀ compaction ∈ run.applied, ∀ entry ∈ compaction.removes,
    entry ∉ run.inner.files.paths
  settled : (∀ compaction ∈ run.published, compaction ∈ run.applied) →
    (∀ entry, entry ∈ run.inner.files.paths ↔
      entry ∈ (run.published.foldl Inner.applyDirectly run.base).files.paths) ∧
    run.inner.parquetFilesCount =
      (run.published.foldl Inner.applyDirectly run.base).parquetFilesCount

/-- A manifest is folded after its outputs have been added directly, and before a compaction that
replaces one of them has been applied directly. -/
def FoldsInTime (run : DirectRun) : DirectAction → Prop
  | .addNext compaction => compaction ∉ run.folded
  | .fold compaction => ∀ other ∈ run.applied, ∀ entry ∈ compaction.adds, entry ∉ other.removes
  | _ => True

instance (run : DirectRun) : (action : DirectAction) → Decidable (run.FoldsInTime action)
  | .addNext compaction => inferInstanceAs (Decidable (compaction ∉ run.folded))
  | .fold _ => inferInstanceAs (Decidable (∀ other ∈ run.applied, _))
  | .plan _ | .publish _ | .removeOld _ | .gcTombstones .. => .isTrue trivial

end DirectRun

section Direct

variable {inner : Inner} {key : TableKey} {file : ParquetFile} {entry : TableKey × String}
variable {compaction : PublishedCompaction}

theorem mem_map_path {other : TableKey} {path : String} {files : List ParquetFile} :
    (other, path) ∈ files.map (fun file => (key, file.path)) ↔
      other = key ∧ path ∈ files.map (·.path) := by
  simp only [mem_map, Prod.mk.injEq]
  constructor
  · rintro ⟨file, hfile, rfl, rfl⟩
    exact ⟨rfl, file, hfile, rfl⟩
  · rintro ⟨rfl, file, hfile, rfl⟩
    exact ⟨file, hfile, rfl, rfl⟩

theorem mem_addNext_paths :
    entry ∈ (inner.addPersistedFile key file).files.paths ↔
      entry ∈ inner.files.paths ∨ entry = (key, file.path) := by
  rw [Prod.ext_iff]
  exact mem_addPersistedFile_paths

theorem mem_removeOld_paths :
    entry ∈ (inner.removePersistedFiles compaction.key compaction.oldFiles).files.paths ↔
      entry ∈ inner.files.paths ∧ entry ∉ compaction.removes := by
  rw [PublishedCompaction.removes, mem_map_path]
  exact mem_removePersistedFiles_paths

/-- Adding new files one after the other. -/
theorem booked_foldl_addPersistedFile (files : List ParquetFile)
    (hnodup : (files.map fun file => (key, file.path)).Nodup) (hbooked : inner.Booked)
    (hnew : ∀ entry ∈ files.map fun file => (key, file.path), entry ∉ inner.files.paths) :
    (files.foldl (fun inner file => inner.addPersistedFile key file) inner).Booked := by
  induction files generalizing inner with
  | nil => exact hbooked
  | cons first rest ih =>
    simp only [map_cons, nodup_cons] at hnodup
    simp only [map_cons, forall_mem_cons] at hnew
    refine ih hnodup.2 (hbooked.addPersistedFile hnew.1) ?_
    intro entry hentry
    rw [mem_addNext_paths]
    rintro (hold | rfl)
    · exact hnew.2 entry hentry hold
    · exact hnodup.1 hentry

theorem Inner.Booked.applyDirectly (hbooked : inner.Booked) (hnodup : compaction.adds.Nodup)
    (hnew : ∀ entry ∈ compaction.adds, entry ∉ inner.files.paths) :
    (inner.applyDirectly compaction).Booked :=
  (booked_foldl_addPersistedFile compaction.newFiles hnodup hbooked hnew).removePersistedFiles _

end Direct

namespace DirectRun

variable {nodeId : String} {run next : DirectRun} {compaction : PublishedCompaction}
variable {entry : TableKey × String}

/-- Where a listed path can come from. -/
def Seen (run : DirectRun) (entry : TableKey × String) : Prop :=
  entry ∈ run.base.files.paths ∨ entry ∈ run.added ∨ ∃ other ∈ run.folded, entry ∈ other.adds

/-- The view that applies each published compaction once. -/
def reference (run : DirectRun) : Inner := run.published.foldl Inner.applyDirectly run.base

/-- What is known of the plans: their outputs are new and their inputs were listed. -/
structure Planned (run : DirectRun) : Prop where
  published : ∀ compaction ∈ run.published, compaction ∈ run.planned
  applied : ∀ compaction ∈ run.applied, compaction ∈ run.published
  folded : ∀ compaction ∈ run.folded, compaction ∈ run.published
  added : ∀ entry ∈ run.added, ∃ compaction ∈ run.published, entry ∈ compaction.adds
  nodup : ∀ compaction ∈ run.planned, compaction.adds.Nodup
  unlisted : ∀ compaction ∈ run.planned, ∀ entry ∈ compaction.adds, entry ∉ run.base.files.paths
  apart : ∀ compaction ∈ run.planned, ∀ other ∈ run.planned, ∀ entry ∈ compaction.adds,
    entry ∈ other.adds → compaction = other
  inputs : ∀ compaction ∈ run.planned, ∀ entry ∈ compaction.removes, run.Seen entry

/-- The view between the two applications. -/
structure Between (run : DirectRun) : Prop where
  planned : run.Planned
  booked : run.inner.Booked
  listed : ∀ entry ∈ run.inner.files.paths, run.Seen entry
  gone : ∀ compaction ∈ run.applied, ∀ entry ∈ compaction.removes,
    entry ∉ run.inner.files.paths
  kept : ∀ entry, entry ∈ run.base.files.paths ∨ entry ∈ run.added →
    (∀ compaction ∈ run.published, entry ∉ compaction.removes) → entry ∈ run.inner.files.paths
  complete : ∀ compaction ∈ run.applied, ∀ entry ∈ compaction.adds, entry ∈ run.added
  reference_booked : run.reference.Booked
  reference_paths : ∀ entry, entry ∈ run.reference.files.paths ↔
    (entry ∈ run.base.files.paths ∨ ∃ compaction ∈ run.published, entry ∈ compaction.adds) ∧
      ∀ compaction ∈ run.published, entry ∉ compaction.removes

theorem Planned.known_of_seen (hplanned : run.Planned) (hseen : run.Seen entry) :
    entry ∈ run.base.files.paths ∨ ∃ compaction ∈ run.published, entry ∈ compaction.adds := by
  rcases hseen with hbase | hadded | ⟨other, hother, hentry⟩
  · exact .inl hbase
  · exact .inr (hplanned.added entry hadded)
  · exact .inr ⟨other, hplanned.folded other hother, hentry⟩

/-- An output of a compaction that is neither added nor folded has not been seen. -/
theorem Planned.not_seen (hplanned : run.Planned) (hcompaction : compaction ∈ run.planned)
    (hentry : entry ∈ compaction.adds) (hadded : entry ∉ run.added)
    (hfolded : compaction ∉ run.folded) : ¬run.Seen entry := by
  rintro (hbase | hold | ⟨other, hother, hsame⟩)
  · exact hplanned.unlisted compaction hcompaction entry hentry hbase
  · exact hadded hold
  · have hpublished := hplanned.published other (hplanned.folded other hother)
    obtain rfl := hplanned.apart compaction hcompaction other hpublished entry hentry hsame
    exact hfolded hother

/-- An output of a compaction that is not published is unknown. -/
theorem Planned.unknown (hplanned : run.Planned) (hcompaction : compaction ∈ run.planned)
    (hunpublished : compaction ∉ run.published) (hentry : entry ∈ compaction.adds) :
    ¬(entry ∈ run.base.files.paths ∨ ∃ other ∈ run.published, entry ∈ other.adds) := by
  rintro (hbase | ⟨other, hother, hsame⟩)
  · exact hplanned.unlisted compaction hcompaction entry hentry hbase
  · obtain rfl := hplanned.apart compaction hcompaction other (hplanned.published other hother)
      entry hentry hsame
    exact hunpublished hother

section

variable (hbetween : run.Between)
include hbetween

theorem Between.plan (hplans : run.Plans compaction) :
    Between { run with planned := run.planned ++ [compaction] } := by
  obtain ⟨hinputs, hnodup, hfresh⟩ := hplans
  have hold := hbetween.planned
  refine { hbetween with planned := ?_ }
  refine { hold with published := ?_, nodup := ?_, unlisted := ?_, apart := ?_, inputs := ?_ }
  · intro other hother
    exact mem_append_left _ (hold.published other hother)
  · exact forall_mem_concat.mpr ⟨hold.nodup, hnodup⟩
  · exact forall_mem_concat.mpr ⟨hold.unlisted, fun entry hentry => (hfresh entry hentry).1⟩
  · simp only [mem_concat]
    rintro first (hfirst | rfl) second (hsecond | rfl) entry hentry hsame
    · exact hold.apart first hfirst second hsecond entry hentry hsame
    · exact absurd hentry ((hfresh entry hsame).2 first hfirst)
    · exact absurd hsame ((hfresh entry hentry).2 second hsecond)
    · rfl
  · exact forall_mem_concat.mpr ⟨hold.inputs, fun entry hentry =>
      hbetween.listed entry (hinputs entry hentry)⟩

theorem Between.publish (hcompaction : compaction ∈ run.planned)
    (hunpublished : compaction ∉ run.published) :
    Between { run with published := run.published ++ [compaction] } := by
  have hold := hbetween.planned
  have hreference : reference { run with published := run.published ++ [compaction] } =
      run.reference.applyDirectly compaction := by
    simp [reference]
  have hnew : ∀ entry ∈ compaction.adds, entry ∉ run.reference.files.paths := by
    intro entry hentry hlisted
    have hknown := ((hbetween.reference_paths entry).mp hlisted).1
    exact hold.unknown hcompaction hunpublished hentry hknown
  have hnodup := hold.nodup compaction hcompaction
  refine { hbetween with planned := ?_, kept := ?_, reference_booked := ?_, reference_paths := ?_ }
  · refine { hold with published := ?_, applied := ?_, folded := ?_, added := ?_ }
    · exact forall_mem_concat.mpr ⟨hold.published, hcompaction⟩
    · intro other hother
      exact mem_append_left _ (hold.applied other hother)
    · intro other hother
      exact mem_append_left _ (hold.folded other hother)
    · intro entry hentry
      obtain ⟨other, hother, hadds⟩ := hold.added entry hentry
      exact ⟨other, mem_append_left _ hother, hadds⟩
  · intro entry hentry hkept
    exact hbetween.kept entry hentry fun other hother =>
      hkept other (mem_append_left _ hother)
  · rw [hreference]
    exact hbetween.reference_booked.applyDirectly hnodup hnew
  · intro entry
    rw [hreference, Inner.applyDirectly, mem_removeOld_paths,
      (foldl_addPersistedFile compaction.key compaction.newFiles run.reference).2,
      hbetween.reference_paths, ← mem_map_path]
    have hadds : (∃ other ∈ run.published ++ [compaction], entry ∈ other.adds) ↔
        (∃ other ∈ run.published, entry ∈ other.adds) ∨ entry ∈ compaction.adds := by
      simp [or_and_right, exists_or]
    rw [hadds, forall_mem_append, forall_mem_singleton]
    -- an output of the compaction is no input of one published before: that was known then
    have hlater : entry ∈ compaction.adds → ∀ other ∈ run.published, entry ∉ other.removes := by
      intro hentry other hother hremoved
      have hseen := hold.inputs other (hold.published other hother) entry hremoved
      exact hold.unknown hcompaction hunpublished hentry (hold.known_of_seen hseen)
    constructor
    · rintro ⟨⟨hknown, hremoves⟩ | hentry, hnot⟩
      · exact ⟨hknown.imp_right .inl, hremoves, hnot⟩
      · exact ⟨.inr (.inr hentry), hlater hentry, hnot⟩
    · rintro ⟨hbase | hpublished | hentry, hremoves, hnot⟩
      · exact ⟨.inl ⟨.inl hbase, hremoves⟩, hnot⟩
      · exact ⟨.inl ⟨.inr hpublished, hremoves⟩, hnot⟩
      · exact ⟨.inr hentry, hnot⟩

section

variable (hpublished : compaction ∈ run.published)
include hpublished

theorem Between.addNext {file : ParquetFile}
    (hfile : run.nextFile compaction = some file)
    (hfolded : compaction ∉ run.folded) :
    Between { run with
      inner := run.inner.addPersistedFile compaction.key file
      added := run.added ++ [(compaction.key, file.path)] } := by
  have hold := hbetween.planned
  have hentry : (compaction.key, file.path) ∈ compaction.adds :=
    mem_map.mpr ⟨file, mem_of_find?_eq_some hfile, rfl⟩
  have hadded : (compaction.key, file.path) ∉ run.added := by
    simpa using find?_some hfile
  have hunseen := hold.not_seen (hold.published compaction hpublished) hentry hadded hfolded
  have hnew : (compaction.key, file.path) ∉ run.inner.files.paths := fun hlisted =>
    hunseen (hbetween.listed _ hlisted)
  have hseen : ∀ entry, run.Seen entry → Seen { run with
      inner := run.inner.addPersistedFile compaction.key file
      added := run.added ++ [(compaction.key, file.path)] } entry := by
    rintro entry (hbase | hadded | hfolded)
    · exact .inl hbase
    · exact .inr (.inl (mem_append_left _ hadded))
    · exact .inr (.inr hfolded)
  refine { hbetween with
    planned := ?_, booked := ?_, listed := ?_, gone := ?_, kept := ?_, complete := ?_ }
  · refine { hold with added := ?_, inputs := ?_ }
    · exact forall_mem_concat.mpr ⟨hold.added, compaction, hpublished, hentry⟩
    · intro other hother entry hremoved
      exact hseen entry (hold.inputs other hother entry hremoved)
  · exact hbetween.booked.addPersistedFile hnew
  · intro entry hlisted
    rcases mem_addNext_paths.mp hlisted with hbefore | rfl
    · exact hseen entry (hbetween.listed entry hbefore)
    · exact .inr (.inl (by simp))
  · intro other hother entry hremoved hlisted
    rcases mem_addNext_paths.mp hlisted with hbefore | rfl
    · exact hbetween.gone other hother entry hremoved hbefore
    · have hplanned := hold.published other (hold.applied other hother)
      exact hunseen (hold.inputs other hplanned _ hremoved)
  · intro entry hknown hkept
    rw [mem_addNext_paths]
    rw [mem_append, mem_singleton, ← or_assoc] at hknown
    exact hknown.imp_left fun hbefore => hbetween.kept entry hbefore hkept
  · intro other hother entry hadds
    exact mem_append_left _ (hbetween.complete other hother entry hadds)

theorem Between.removeOld (hadded : ∀ entry ∈ compaction.adds, entry ∈ run.added) :
    Between { run with
      inner := run.inner.removePersistedFiles compaction.key compaction.oldFiles
      applied := run.applied ++ [compaction] } := by
  have hold := hbetween.planned
  refine { hbetween with
    planned := ?_, booked := ?_, listed := ?_, gone := ?_, kept := ?_, complete := ?_ }
  · refine { hold with applied := ?_ }
    exact forall_mem_concat.mpr ⟨hold.applied, hpublished⟩
  · exact hbetween.booked.removePersistedFiles _
  · intro entry hlisted
    exact hbetween.listed entry (mem_removeOld_paths.mp hlisted).1
  · simp only [mem_concat]
    rintro other (hother | rfl) entry hremoved hlisted
    · exact hbetween.gone other hother entry hremoved (mem_removeOld_paths.mp hlisted).1
    · exact (mem_removeOld_paths.mp hlisted).2 hremoved
  · intro entry hknown hkept
    exact mem_removeOld_paths.mpr
      ⟨hbetween.kept entry hknown hkept, hkept compaction hpublished⟩
  · exact forall_mem_concat.mpr ⟨hbetween.complete, hadded⟩

theorem Between.fold (hintime : run.FoldsInTime (.fold compaction)) :
    Between { run with
      inner := run.inner.fold (compaction.manifest nodeId)
      folded := run.folded ++ [compaction]
      cursor := some compaction.id } := by
  have hold := hbetween.planned
  have hpaths : ∀ entry ∈ (run.inner.fold (compaction.manifest nodeId)).files.paths,
      entry ∈ run.inner.files.paths ∨ entry ∈ compaction.adds := by
    rintro ⟨key, path⟩ hlisted
    rcases (mem_fold_paths.mp hlisted).1 with hbefore | ⟨hadds, _⟩
    · exact .inl hbefore
    · exact .inr (compaction.manifest_adds nodeId ▸ hadds)
  have hseen : ∀ entry, run.Seen entry ∨ entry ∈ compaction.adds → Seen { run with
      inner := run.inner.fold (compaction.manifest nodeId)
      folded := run.folded ++ [compaction]
      cursor := some compaction.id } entry := by
    rintro entry ((hbase | hadded | ⟨other, hother, hentry⟩) | hadds)
    · exact .inl hbase
    · exact .inr (.inl hadded)
    · exact .inr (.inr ⟨other, mem_append_left _ hother, hentry⟩)
    · exact .inr (.inr ⟨compaction, by simp, hadds⟩)
  refine { hbetween with planned := ?_, booked := ?_, listed := ?_, gone := ?_, kept := ?_ }
  · refine { hold with folded := ?_, inputs := ?_ }
    · exact forall_mem_concat.mpr ⟨hold.folded, hpublished⟩
    · intro other hother entry hremoved
      exact hseen entry (.inl (hold.inputs other hother entry hremoved))
  · exact hbetween.booked.addPersistedSnapshot
  · intro entry hlisted
    exact hseen entry ((hpaths entry hlisted).imp_left (hbetween.listed entry))
  · intro other hother entry hremoved hlisted
    rcases hpaths entry hlisted with hbefore | hadds
    · exact hbetween.gone other hother entry hremoved hbefore
    · exact hintime other hother entry hadds hremoved
  · rintro ⟨key, path⟩ hknown hkept
    refine mem_fold_paths.mpr ⟨.inl (hbetween.kept _ hknown hkept), ?_⟩
    rw [PublishedCompaction.manifest_removes]
    exact hkept compaction hpublished

end

theorem Between.step {action : DirectAction}
    (hintime : run.FoldsInTime action) (hstep : run.step nodeId action = some next) :
    next.Between := by
  cases action with
  | plan compaction =>
    simp only [DirectRun.step, Option.ite_none_right_eq_some] at hstep
    obtain ⟨hplans, heq⟩ := hstep
    exact Option.some.inj heq ▸ hbetween.plan hplans
  | publish compaction =>
    simp only [DirectRun.step, Option.ite_none_right_eq_some] at hstep
    obtain ⟨⟨hcompaction, hunpublished⟩, heq⟩ := hstep
    exact Option.some.inj heq ▸ hbetween.publish hcompaction hunpublished
  | addNext compaction =>
    simp only [DirectRun.step, Option.ite_none_right_eq_some, Option.map_eq_some_iff] at hstep
    obtain ⟨hpublished, file, hfile, rfl⟩ := hstep
    exact hbetween.addNext hpublished hfile hintime
  | removeOld compaction =>
    simp only [DirectRun.step, Option.ite_none_right_eq_some] at hstep
    obtain ⟨⟨hpublished, _, hadded⟩, heq⟩ := hstep
    exact Option.some.inj heq ▸ hbetween.removeOld hpublished hadded
  | fold compaction =>
    simp only [DirectRun.step, Option.ite_none_right_eq_some] at hstep
    obtain ⟨⟨hpublished, _⟩, heq⟩ := hstep
    exact Option.some.inj heq ▸ hbetween.fold hpublished hintime
  | gcTombstones walHighWater compactionsHighWater =>
    obtain rfl := Option.some.inj hstep
    have hold := hbetween.planned
    have hcounted := hbetween.booked.counted
    exact { hbetween with
      planned := { hold with }
      booked := ⟨hbetween.booked.nodup, hcounted.count, hcounted.rows⟩ }

theorem Between.appliedOnce : run.AppliedOnce where
  gone := hbetween.gone
  settled := by
    intro happlied
    have hpaths : ∀ entry, entry ∈ run.inner.files.paths ↔ entry ∈ run.reference.files.paths := by
      intro entry
      rw [hbetween.reference_paths]
      constructor
      · intro hlisted
        refine ⟨hbetween.planned.known_of_seen (hbetween.listed entry hlisted), ?_⟩
        intro compaction hpublished hremoved
        exact hbetween.gone compaction (happlied compaction hpublished) entry hremoved hlisted
      · rintro ⟨hbase | ⟨compaction, hpublished, hadds⟩, hkept⟩
        · exact hbetween.kept entry (.inl hbase) hkept
        · have hadded := hbetween.complete compaction (happlied compaction hpublished) entry hadds
          exact hbetween.kept entry (.inr hadded) hkept
    have hperm := (perm_ext_iff_of_nodup hbetween.booked.nodup
      hbetween.reference_booked.nodup).mpr hpaths
    have hlength : run.inner.files.length = run.reference.files.length := by
      simpa [Files.paths] using hperm.length_eq
    exact ⟨hpaths, (hbetween.booked.counted.count.trans hlength).trans
      hbetween.reference_booked.counted.count.symm⟩

end

/-- In every run that folds each manifest between the direct additions of its outputs and their
further compaction, applying it twice is applying it once. -/
theorem appliedOnce_of_foldsInTime (nodeId : String) (run : DirectRun)
    (hreachable : (directMachine nodeId).Reachable FoldsInTime run) : run.AppliedOnce := by
  have hbetween : run.Between := by
    induction hreachable with
    | initial hinitial =>
      obtain ⟨inner, hbooked, rfl⟩ := hinitial
      refine ⟨⟨?_, ?_, ?_, ?_, ?_, ?_, ?_, ?_⟩, hbooked, ?_, ?_, ?_, ?_, hbooked, ?_⟩ <;>
        simp [Seen, reference]
    | step _ hintime hstep ih => exact ih.step hintime hstep
  exact hbetween.appliedOnce

def oneFile : Inner := ({} : Inner).addPersistedFile ⟨1, 1⟩ (MarkedInner.oneRowFile "a.parquet")

theorem oneFile_reachable {allowed : DirectRun → DirectAction → Prop} :
    (directMachine "compactor").Reachable allowed { base := oneFile, inner := oneFile } :=
  .initial ⟨oneFile, Inner.booked_empty.addPersistedFile (by simp [Files.paths]), rfl⟩

def oneToOne (id old new : String) : PublishedCompaction where
  id := id
  key := ⟨1, 1⟩
  newFiles := [MarkedInner.oneRowFile new]
  oldFiles := [MarkedInner.oneRowFile old]

def publishing (compaction : PublishedCompaction) : List DirectAction :=
  [.plan compaction, .publish compaction, .addNext compaction, .removeOld compaction]

/-- A chain of two compactions, each folded before the next. -/
theorem appliedOnce_of_foldsInTime_chain :
    ∃ run, (directMachine "compactor").Reachable FoldsInTime run ∧
      run.applied.length = 2 ∧ run.folded.length = 2 ∧ run.AppliedOnce := by
  obtain ⟨run, hreachable, happlied, hfolded⟩ :
      ∃ run, (directMachine "compactor").Reachable FoldsInTime run ∧
        run.applied.length = 2 ∧ run.folded.length = 2 :=
    oneFile_reachable.exists_of_exec
      (publishing (oneToOne "1" "a.parquet" "b.parquet") ++
        .fold (oneToOne "1" "a.parquet" "b.parquet") ::
        publishing (oneToOne "2" "b.parquet" "c.parquet") ++
        [.fold (oneToOne "2" "b.parquet" "c.parquet")])
      _ (by decide) (by decide)
  exact ⟨run, hreachable, happlied, hfolded, appliedOnce_of_foldsInTime _ run hreachable⟩

/-- The first manifest of a chain, folded after the second compaction has been applied directly,
lists the file between them again. -/
theorem compacted_file_live_again :
    ∃ run, (directMachine "compactor").Reachable Machine.Unrestricted run ∧ ¬run.AppliedOnce := by
  obtain ⟨run, hreachable, compaction, happlied, entry, hremoved, hlive⟩ :=
    oneFile_reachable.exists_of_run
      (publishing (oneToOne "1" "a.parquet" "b.parquet") ++
        publishing (oneToOne "2" "b.parquet" "c.parquet") ++
        [.fold (oneToOne "1" "a.parquet" "b.parquet")])
      (fun run => ∃ compaction ∈ run.applied, ∃ entry ∈ compaction.removes,
        entry ∈ run.inner.files.paths) (by decide)
  exact ⟨run, hreachable, fun honce => honce.gone compaction happlied entry hremoved hlive⟩

end DirectRun

end RefluxDb.Write
