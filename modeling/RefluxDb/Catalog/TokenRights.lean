import RefluxDb.Catalog.BatchEffects
import RefluxDb.Library.Lists
import RefluxDb.Library.Machine

/-! What a token permits over the life of a catalog.

The world is a server's catalog, its log files and its checkpoint in the object store, and the
snapshots that are on their way there. Operations and writes compose batches; a batch is persisted
as the next log file and then applied, and a server that cannot apply it stops. Snapshots are
uploaded in the background, in any order, each in the place of the last. A server may stop at any
time and load the catalog again.

The log itself says what each token was given and which databases were deleted. What a loaded
catalog must agree with is that log, not the catalog before the restart: it `Reflects` the files it
has seen. -/

namespace RefluxDb.Catalog.TokenRights

open List Option RefluxDb.Library Fallible
open CatalogResource (maxId)

section World

structure World where
  live : Option InnerCatalog := some {}
  log : List OrderedCatalogBatch := []
  checkpoint : CatalogSnapshot := InnerCatalog.snapshot {}
  uploads : List CatalogSnapshot := []

/-- The steps. An operation or a write whose batch is not persisted has still used identifiers. -/
inductive Action where
  | operate (context : OperationContext) (operation : Operation) (persisted : Bool)
  | write (context : OperationContext) (dbName : String)
      (calls : List DatabaseCatalogTransaction.Call) (persisted : Bool)
  | takeSnapshot
  | upload (index : Nat)
  | restart

/-- The operations on retention periods look their database up before the attempt whose batch is
persisted, and are left out. -/
def composesAtOnce : Operation → Bool
  | .setRetentionPeriodForDatabase _ _ => false
  | .clearRetentionPeriodForDatabase _ => false
  | _ => true

/-- Persists a batch as the next log file, which must not be there, and applies it. -/
def commit (w : World) (inner : InnerCatalog) (batch : CatalogBatch) : Option World :=
  if w.log.all fun file => file.sequence ≠ inner.sequence + 1 then
    some { w with
      live := (inner.applyOrderedCatalogBatch batch (inner.sequence + 1)).toOption
      log := w.log ++ [{ batch := batch, sequence := inner.sequence + 1 }] }
  else none

def step (w : World) : Action → Option World
  | .operate context operation persisted =>
    w.live.bind fun inner =>
      if composesAtOnce operation then
        (inner.compose context operation).toOption.bind fun (next, batch) =>
          if persisted then commit w next batch else some { w with live := some next }
      else none
  | .write context dbName calls persisted =>
    w.live.bind fun inner =>
      (inner.composeWrite context dbName calls).toOption.bind fun (next, written) =>
        match written, persisted with
        | some batch, true => commit w next batch
        | _, _ => some { w with live := some next }
  | .takeSnapshot => w.live.map fun inner => { w with uploads := w.uploads ++ [inner.snapshot] }
  | .upload index => w.uploads[index]?.map fun snap => { w with checkpoint := snap }
  | .restart =>
    (InnerCatalog.loadCatalog w.checkpoint w.log).toOption.map fun inner =>
      { w with live := some inner }

def machine : Machine World Action where
  initial w := w = {}
  step := step

end World

section Rights

/-- The tokens that were created, each with the permissions it was given. -/
def created (log : List OrderedCatalogBatch) : List (Nat × List Permission) :=
  log.flatMap fun file => file.batch.created

/-- No identifier is given to two tokens; every token permits what it was given, and nothing else;
and what it was given for certain databases holds only for those of them that were never deleted. -/
structure KeepsRights (log : List OrderedCatalogBatch) (inner : InnerCatalog) : Prop where
  created_once : ((created log).map Prod.fst).Nodup
  permits : ∀ entry ∈ inner.tokens.repo.repo.entries, ∃ permissions,
    (entry.1, permissions) ∈ created log ∧
      ∀ request, entry.2.permits request = permissions.any fun permission =>
        permission.grants request
  covers : ∀ entry ∈ inner.tokens.repo.repo.entries, ∀ permission ∈ entry.2.permissions,
    ∀ ids, permission.resourceIdentifier = .database ids →
      ∀ dbId ∈ inner.databases.repo.keys, ∀ wanted,
        permission.grants (.database dbId wanted) = true →
          dbId ∈ ids ∧ ∀ file ∈ log, dbId ∉ file.batch.deleted

/-- All sixteen action bits, or the wildcard. -/
def IsFull : Actions → Prop
  | .database actions => actions.bits = BitVec.allOnes 16
  | .token actions => actions.bits = BitVec.allOnes 16
  | .wildcard => True

instance : DecidablePred IsFull
  | .database actions => inferInstanceAs (Decidable (actions.bits = _))
  | .token actions => inferInstanceAs (Decidable (actions.bits = _))
  | .wildcard => inferInstanceAs (Decidable True)

/-- A snapshot is taken only while no token is restricted to some of the actions. -/
def SnapshotsUnrestricted (w : World) : Action → Prop
  | .takeSnapshot => ∀ inner ∈ w.live, ∀ entry ∈ inner.tokens.repo.repo.entries,
      ∀ permission ∈ entry.2.permissions, IsFull permission.actions
  | _ => True

instance (w : World) (action : Action) : Decidable (SnapshotsUnrestricted w action) := by
  cases action <;> unfold SnapshotsUnrestricted <;> infer_instance

end Rights

section Logs

/-- The files of a log are numbered from one, no token is created twice, and a database is deleted
once it is there and never spoken of again. -/
structure Sound (log : List OrderedCatalogBatch) : Prop where
  numbers : log.map OrderedCatalogBatch.sequence = List.range' 1 log.length
  created_once : ((created log).map Prod.fst).Nodup
  created_max : ∀ grant ∈ created log, grant.1 < maxId TokenInfo
  database_max : ∀ file ∈ log, ∀ id ∈ file.batch.databaseIds, id < maxId DatabaseSchema
  deleted_known : ∀ file ∈ log, ∀ id ∈ file.batch.deleted,
    ∃ other ∈ log, id ∈ other.batch.databaseIds
  deleted_last : ∀ file ∈ log, ∀ id ∈ file.batch.deleted, ∀ other ∈ log,
    id ∈ other.batch.databaseIds → other.sequence < file.sequence

/-- A catalog agrees with a log of which it has seen the files `seen`. -/
structure Reflects (log seen : List OrderedCatalogBatch) (inner : InnerCatalog) : Prop where
  permissions : ∀ entry ∈ inner.tokens.repo.repo.entries,
    (entry.1, entry.2.permissions) ∈ created log
  nextToken : ∀ grant ∈ created seen, grant.1 < inner.tokens.repo.nextId
  ownIds : OwnIds inner.databases
  known : ∀ id ∈ inner.databases.repo.keys, ∃ file ∈ log, id ∈ file.batch.databaseIds
  below : ∀ id ∈ inner.databases.repo.keys, id < inner.databases.nextId
  nextDatabase : ∀ file ∈ seen, ∀ id ∈ file.batch.databaseIds, id < inner.databases.nextId
  undeleted : ∀ id ∈ inner.databases.repo.keys, ∀ file ∈ seen, id ∉ file.batch.deleted
  sequence : inner.sequence ≤ log.length

variable {log seen : List OrderedCatalogBatch} {file : OrderedCatalogBatch}
variable {inner next updated : InnerCatalog} {changed : Bool}

theorem mem_created {grant : Nat × List Permission} :
    grant ∈ created log ↔ ∃ file ∈ log, grant ∈ file.batch.created := by
  simp [created]

namespace Sound

theorem pairwise (h : Sound log) : log.Pairwise fun a b => a.sequence < b.sequence := by
  have hrange : (log.map OrderedCatalogBatch.sequence).Pairwise (· < ·) := by
    rw [h.numbers]
    exact pairwise_lt_range'
  exact pairwise_map.mp hrange

theorem sequence_le (h : Sound log) (hfile : file ∈ log) : file.sequence ≤ log.length := by
  have hmem : file.sequence ∈ log.map OrderedCatalogBatch.sequence := mem_map_of_mem hfile
  rw [h.numbers, mem_range'_1] at hmem
  omega

/-- The number after a catalog's is free only when the catalog has the last one. -/
theorem sequence_eq_length (h : Sound log) {sequence : Nat} (hle : sequence ≤ log.length)
    (hfree : ∀ file ∈ log, file.sequence ≠ sequence + 1) : sequence = log.length := by
  by_contra hne
  have hmem : sequence + 1 ∈ log.map OrderedCatalogBatch.sequence := by
    rw [h.numbers, mem_range'_1]
    omega
  obtain ⟨file, hfile, hsequence⟩ := mem_map.mp hmem
  exact hfree file hfile hsequence

end Sound

namespace Reflects

section

variable (h : Reflects log seen inner)
include h

theorem handsOut (hnext : InnerCatalog.HandsOut inner next) :
    Reflects log seen next where
  permissions := hnext.tokens ▸ h.permissions
  nextToken := fun grant hgrant => (h.nextToken grant hgrant).trans_le hnext.nextToken
  ownIds := by
    unfold OwnIds
    rw [hnext.databases]
    exact h.ownIds
  known := hnext.databases ▸ h.known
  below := by
    rw [hnext.databases]
    exact fun id hid => (h.below id hid).trans_le hnext.nextDatabase
  nextDatabase := fun file hfile id hid =>
    (h.nextDatabase file hfile id hid).trans_le hnext.nextDatabase
  undeleted := hnext.databases ▸ h.undeleted
  sequence := hnext.sequence ▸ h.sequence

/-- A longer log does not matter to a catalog that has not seen the rest of it. -/
theorem append (file : OrderedCatalogBatch) :
    Reflects (log ++ [file]) seen inner :=
  { h with
    permissions := by
      intro entry hentry
      obtain ⟨earlier, hearlier, hgrant⟩ := mem_created.mp (h.permissions entry hentry)
      exact mem_created.mpr ⟨earlier, mem_append_left _ hearlier, hgrant⟩
    known := by
      intro id hid
      obtain ⟨earlier, hearlier, hmem⟩ := h.known id hid
      exact ⟨earlier, mem_append_left _ hearlier, hmem⟩
    sequence := h.sequence.trans (by simp) }

theorem of_subset {other : List OrderedCatalogBatch}
    (hsubset : ∀ file ∈ other, file ∈ seen) : Reflects log other inner :=
  { h with
    nextToken := by
      intro grant hgrant
      obtain ⟨file, hfile, hmem⟩ := mem_created.mp hgrant
      exact h.nextToken grant (mem_created.mpr ⟨file, hsubset file hfile, hmem⟩)
    nextDatabase := fun file hfile => h.nextDatabase file (hsubset file hfile)
    undeleted := fun id hid file hfile => h.undeleted id hid file (hsubset file hfile) }

theorem withSequence {sequence : Nat} (hle : sequence ≤ log.length) :
    Reflects log seen { inner with sequence := sequence } :=
  { h with sequence := hle }

/-- A file that is applied after all those seen so far has been seen. -/
theorem apply (hsound : Sound log) (hfile : file ∈ log)
    (hseen : ∀ earlier ∈ seen, earlier ∈ log ∧ earlier.sequence < file.sequence)
    (happly : inner.applyBatch file.batch = .ok (updated, changed)) :
    Reflects log (seen ++ [file]) updated := by
  have heffect := InnerCatalog.applyBatch_effect h.ownIds happly
  have hbelow : ∀ id ∈ file.batch.databaseIds, id < updated.databases.nextId := by
    intro id hid
    rcases heffect.databases.above id hid (hsound.database_max file hfile id hid) with hnew | hold
    · exact hnew
    · exact (h.below id hold).trans_le heffect.databases.nextId
  constructor
  case permissions =>
    intro entry hentry
    rcases heffect.tokens.permissions entry hentry with hnew | ⟨token, htoken, hsame⟩
    · exact mem_created.mpr ⟨file, hfile, hnew⟩
    · exact hsame ▸ h.permissions _ htoken
  case nextToken =>
    intro grant hgrant
    obtain ⟨other, hother, hmem⟩ := mem_created.mp hgrant
    rcases mem_concat.mp hother with hearlier | rfl
    · exact (h.nextToken grant (mem_created.mpr ⟨other, hearlier, hmem⟩)).trans_le
        heffect.tokens.nextId
    · exact heffect.tokens.above grant hmem
        (hsound.created_max grant (mem_created.mpr ⟨other, hfile, hmem⟩))
  case ownIds => exact heffect.databases.ownIds
  case known =>
    intro id hid
    rcases (heffect.databases.keys id hid).1 with hold | hnew
    · exact h.known id hold
    · exact ⟨file, hfile, hnew⟩
  case below =>
    intro id hid
    rcases (heffect.databases.keys id hid).1 with hold | hnew
    · exact (h.below id hold).trans_le heffect.databases.nextId
    · exact hbelow id hnew
  case nextDatabase =>
    intro other hother id hid
    rcases mem_concat.mp hother with hearlier | rfl
    · exact (h.nextDatabase other hearlier id hid).trans_le heffect.databases.nextId
    · exact hbelow id hid
  case undeleted =>
    intro id hid other hother hdeleted
    obtain ⟨hkept, hundeleted⟩ := heffect.databases.keys id hid
    rcases mem_concat.mp hother with hearlier | rfl
    · rcases hkept with hold | hnew
      · exact h.undeleted id hold other hearlier hdeleted
      · -- a database that a file deletes is spoken of in earlier files only
        obtain ⟨hlog, hlt⟩ := hseen other hearlier
        have hgt := hsound.deleted_last other hlog id hdeleted file hfile hnew
        omega
    · exact hundeleted hdeleted
  case sequence => exact heffect.sequence ▸ h.sequence

end

end Reflects

def upTo (log : List OrderedCatalogBatch) (sequence : Nat) : List OrderedCatalogBatch :=
  log.filter fun file => file.sequence ≤ sequence

/-- What a snapshot restores agrees with the log up to the snapshot's number. -/
def Kept (log : List OrderedCatalogBatch) (snap : CatalogSnapshot) : Prop :=
  ∀ inner, InnerCatalog.fromSnapshot snap = .ok inner → Reflects log (upTo log snap.sequence) inner

end Logs

section Snapshots

variable {log : List OrderedCatalogBatch} {inner restored : InnerCatalog} {snap : CatalogSnapshot}

theorem fromSnapshot_snapshot_permissions {permissions : List Permission}
    (hfull : ∀ permission ∈ permissions, IsFull permission.actions) :
    (permissions.map Permission.snapshot).map Permission.fromSnapshot = permissions := by
  rw [List.map_map]
  refine (map_congr_left fun permission hmem => ?_).trans (map_id permissions)
  have hactions := hfull permission hmem
  obtain ⟨resourceType, resourceIdentifier, actions⟩ := permission
  cases actions with
  | database actions =>
    have hbits : (⟨BitVec.allOnes 16⟩ : DatabaseActions) = actions :=
      congrArg DatabaseActions.mk hactions.symm
    exact congrArg (fun actions => Permission.mk resourceType resourceIdentifier
      (.database actions)) hbits
  | token actions =>
    have hbits : (⟨BitVec.allOnes 16⟩ : CrudActions) = actions :=
      congrArg CrudActions.mk hactions.symm
    exact congrArg (fun actions => Permission.mk resourceType resourceIdentifier
      (.token actions)) hbits
  | wildcard => rfl

/-- The parts of a restored catalog that rights depend on. -/
theorem fromSnapshot_eq_ok (h : InnerCatalog.fromSnapshot snap = .ok restored) :
    restored.sequence = snap.sequence ∧
      Repository.fromSnapshot (fun token => pure (TokenInfo.fromSnapshot token)) snap.tokens =
        .ok restored.tokens.repo ∧
      Repository.fromSnapshot DatabaseSchema.fromSnapshot snap.databases =
        .ok restored.databases := by
  simp only [InnerCatalog.fromSnapshot, bind_eq_ok, pure_eq_ok] at h
  obtain ⟨_, htokens, _, _, _, hdatabases, rfl⟩ := h
  exact ⟨rfl, htokens, hdatabases⟩

/-- A snapshot of a catalog whose tokens are unrestricted restores what the catalog agrees with. -/
theorem Reflects.kept (h : Reflects log log inner)
    (hfull : ∀ entry ∈ inner.tokens.repo.repo.entries, ∀ permission ∈ entry.2.permissions,
      IsFull permission.actions) : Kept log inner.snapshot := by
  intro restored hrestored
  obtain ⟨hsequence, htokens, hdatabases⟩ := fromSnapshot_eq_ok hrestored
  obtain ⟨hnextToken, htokens⟩ := Repository.fromSnapshot_entries htokens
  obtain ⟨hnextDatabase, hdatabases⟩ := Repository.fromSnapshot_entries hdatabases
  have hdatabase : ∀ entry ∈ restored.databases.repo.entries,
      ∃ db, (entry.1, db) ∈ inner.databases.repo.entries ∧ entry.2.id = db.id := by
    intro entry hentry
    obtain ⟨kept, hkept, hrestore⟩ := hdatabases entry hentry
    obtain ⟨⟨id, db⟩, hmem, hpair⟩ := mem_map.mp hkept
    obtain ⟨rfl, rfl⟩ := Prod.mk.inj hpair
    exact ⟨db, hmem, DatabaseSchema.fromSnapshot_id hrestore⟩
  have hkeys : ∀ id ∈ restored.databases.repo.keys, id ∈ inner.databases.repo.keys := by
    intro id hid
    obtain ⟨db, hmem⟩ := IndexMap.mem_keys.mp hid
    obtain ⟨original, horiginal, _⟩ := hdatabase _ hmem
    exact IndexMap.mem_keys_of_mem horiginal
  have hall : Reflects log log restored := by
    constructor
    case permissions =>
      intro entry hentry
      obtain ⟨kept, hkept, hrestore⟩ := htokens entry hentry
      obtain ⟨⟨id, token⟩, hmem, hpair⟩ := mem_map.mp hkept
      obtain ⟨rfl, rfl⟩ := Prod.mk.inj hpair
      have hsame : entry.2.permissions = token.permissions := by
        rw [← pure_eq_ok.mp hrestore]
        exact fromSnapshot_snapshot_permissions (hfull _ hmem)
      rw [hsame]
      exact h.permissions _ hmem
    case nextToken => exact hnextToken ▸ h.nextToken
    case ownIds =>
      intro entry hentry
      obtain ⟨db, hmem, hid⟩ := hdatabase entry hentry
      exact hid.trans (h.ownIds _ hmem)
    case known => exact fun id hid => h.known id (hkeys id hid)
    case below => exact fun id hid => hnextDatabase ▸ h.below id (hkeys id hid)
    case nextDatabase => exact hnextDatabase ▸ h.nextDatabase
    case undeleted => exact fun id hid => h.undeleted id (hkeys id hid)
    case sequence => exact hsequence ▸ h.sequence
  exact hall.of_subset fun file hfile => (mem_filter.mp hfile).1

theorem Kept.append (h : Kept log snap) {file : OrderedCatalogBatch}
    (hlast : log.length < file.sequence) : Kept (log ++ [file]) snap := by
  intro restored hrestored
  have hreflects := h restored hrestored
  have hsequence : snap.sequence ≤ log.length := by
    rw [← (fromSnapshot_eq_ok hrestored).1]
    exact hreflects.sequence
  have hupTo : upTo (log ++ [file]) snap.sequence = upTo log snap.sequence := by
    have hbeyond : ¬ file.sequence ≤ snap.sequence := by omega
    simp [upTo, hbeyond]
  rw [hupTo]
  exact hreflects.append file

theorem Kept.loadCatalog (h : Kept log snap) (hsound : Sound log)
    (hload : InnerCatalog.loadCatalog snap log = .ok inner) : Reflects log log inner := by
  simp only [InnerCatalog.loadCatalog, bind_eq_ok] at hload
  obtain ⟨restored, hrestored, hfiles⟩ := hload
  have hsequence : restored.sequence = snap.sequence := (fromSnapshot_eq_ok hrestored).1
  rw [hsequence] at hfiles
  have hpairwise := hsound.pairwise.filter fun file => decide (snap.sequence < file.sequence)
  have hreflects : Reflects log (upTo log snap.sequence ++
      log.filter fun file => snap.sequence < file.sequence) inner := by
    refine foldlM_induct
      (fun done state => Reflects log (upTo log snap.sequence ++ done) state) ?_ ?_ hfiles
    · intro done file rest state next hitems hstate hstep
      obtain ⟨applied, changed, happly, hnext⟩ := InnerCatalog.applyLogFile_eq_ok hstep
      have hmem : ∀ other ∈ done ++ file :: rest, other ∈ log ∧ snap.sequence < other.sequence := by
        rw [← hitems]
        intro other hother
        simpa using hother
      obtain ⟨hfile, hafter⟩ := hmem file (by simp)
      rw [hitems] at hpairwise
      have hearlier : ∀ earlier ∈ upTo log snap.sequence ++ done,
          earlier ∈ log ∧ earlier.sequence < file.sequence := by
        intro earlier hearlier
        rcases mem_append.mp hearlier with hold | hdone
        · obtain ⟨hlog, hle⟩ := mem_filter.mp hold
          have hle : earlier.sequence ≤ snap.sequence := of_decide_eq_true hle
          exact ⟨hlog, by omega⟩
        · exact ⟨(hmem earlier (mem_append_left _ hdone)).1,
            (pairwise_append.mp hpairwise).2.2 earlier hdone file mem_cons_self⟩
      have happlied := hstate.apply hsound hfile hearlier happly
      rw [append_assoc] at happlied
      rcases hnext with rfl | rfl
      · exact happlied.withSequence (hsound.sequence_le hfile)
      · exact happlied
    · rw [append_nil]
      exact h restored hrestored
  refine hreflects.of_subset fun file hfile => ?_
  by_cases hle : file.sequence ≤ snap.sequence
  · exact mem_append_left _ (mem_filter.mpr ⟨hfile, decide_eq_true hle⟩)
  · exact mem_append_right _
      (mem_filter.mpr ⟨hfile, decide_eq_true (Nat.lt_of_not_le hle)⟩)

end Snapshots

section Runs

variable {w next : World} {inner handed : InnerCatalog} {batch : CatalogBatch}

structure Inv (w : World) : Prop where
  sound : Sound w.log
  live : ∀ inner ∈ w.live, Reflects w.log w.log inner
  checkpoint : Kept w.log w.checkpoint
  uploads : ∀ snap ∈ w.uploads, Kept w.log snap

variable {log : List OrderedCatalogBatch}

theorem Sound.append (h : Sound log)
    (hreflects : Reflects log log inner) (hcomposed : InnerCatalog.Composition inner handed batch) :
    Sound (log ++ [{ batch := batch, sequence := log.length + 1 }]) := by
  have hnewer : ∀ file ∈ log, file.sequence < log.length + 1 := fun file hfile =>
    Nat.lt_succ_of_le (h.sequence_le hfile)
  have hcreated : created (log ++ [{ batch := batch, sequence := log.length + 1 }]) =
      created log ++ batch.created := by
    simp [created]
  constructor
  case numbers => simp [h.numbers, range'_concat, Nat.add_comm]
  case created_once =>
    rw [hcreated, map_append]
    refine nodup_append.mpr ⟨h.created_once, ?_, ?_⟩
    · match hgrants : batch.created, hcomposed.created_once with
      | [], _ => exact nodup_nil
      | [_], _ => exact nodup_singleton _
    · intro id hold other hnew
      obtain ⟨grant, hgrant, rfl⟩ := mem_map.mp hold
      obtain ⟨fresh, hfresh, rfl⟩ := mem_map.mp hnew
      have hlt := hreflects.nextToken grant hgrant
      have heq := (hcomposed.created fresh hfresh).1
      omega
  case created_max =>
    rw [hcreated]
    intro grant hgrant
    rcases mem_append.mp hgrant with hold | hnew
    · exact h.created_max grant hold
    · exact (hcomposed.created grant hnew).2
  case database_max =>
    refine forall_mem_concat.mpr ⟨h.database_max, ?_⟩
    intro id hid
    rcases hcomposed.databaseIds id hid with hthere | ⟨_, hmax⟩
    · obtain ⟨other, hother, hmem⟩ := hreflects.known id hthere
      exact h.database_max other hother id hmem
    · exact hmax
  case deleted_known =>
    intro file hfile id hid
    have hknown : ∃ other ∈ log, id ∈ other.batch.databaseIds := by
      rcases mem_concat.mp hfile with hold | rfl
      · exact h.deleted_known file hold id hid
      · exact hreflects.known id (hcomposed.deleted id hid)
    obtain ⟨other, hother, hmem⟩ := hknown
    exact ⟨other, mem_append_left _ hother, hmem⟩
  case deleted_last =>
    intro file hfile id hid other hother hmem
    rcases mem_concat.mp hfile with hold | rfl
    · rcases mem_concat.mp hother with hotherOld | hotherNew
      · exact h.deleted_last file hold id hid other hotherOld hmem
      · -- the new batch speaks of no deleted database
        obtain rfl := hotherNew
        rcases hcomposed.databaseIds id hmem with hthere | ⟨hfresh, _⟩
        · exact absurd hid (hreflects.undeleted id hthere file hold)
        · obtain ⟨earlier, hearlier, hspoken⟩ := h.deleted_known file hold id hid
          have hlt := hreflects.nextDatabase earlier hearlier id hspoken
          omega
    · rcases mem_concat.mp hother with hotherOld | rfl
      · exact hnewer other hotherOld
      · cases batch <;> simp_all [CatalogBatch.deleted, CatalogBatch.databaseIds]

theorem Inv.commit (h : Inv w) (hlive : w.live = some inner)
    (hcomposed : InnerCatalog.Composition inner handed batch)
    (hstep : commit w handed batch = some next) : Inv next := by
  have hinner : Reflects w.log w.log inner := h.live inner hlive
  have hhanded : Reflects w.log w.log handed := hinner.handsOut hcomposed.handsOut
  unfold TokenRights.commit at hstep
  split at hstep
  · rename_i hfree
    obtain rfl := some.inj hstep
    have hlast : handed.sequence = w.log.length :=
      h.sound.sequence_eq_length hhanded.sequence (by simpa using hfree)
    rw [hlast]
    have hsound := h.sound.append hinner hcomposed
    refine ⟨hsound, ?_, h.checkpoint.append (Nat.lt_succ_self _),
      fun snap hsnap => (h.uploads snap hsnap).append (Nat.lt_succ_self _)⟩
    intro live happlied
    obtain ⟨applied, happly, rfl⟩ := InnerCatalog.applyOrderedCatalogBatch_eq_ok
      (toOption_eq_some.mp happlied)
    refine Reflects.withSequence ?_ (by simp)
    refine (hhanded.append _).apply hsound (mem_append_right _ mem_cons_self) ?_ happly
    intro earlier hearlier
    exact ⟨mem_append_left _ hearlier, Nat.lt_succ_of_le (h.sound.sequence_le hearlier)⟩
  · exact nomatch hstep

theorem Inv.step {action : Action} (h : Inv w) (hallowed : SnapshotsUnrestricted w action)
    (hstep : TokenRights.step w action = some next) : Inv next := by
  cases action with
  | operate context operation persisted =>
    obtain ⟨inner, hlive, hstep⟩ := bind_eq_some_iff.mp hstep
    split at hstep
    · obtain ⟨⟨handed, batch⟩, hcompose, hstep⟩ := bind_eq_some_iff.mp hstep
      have hinner := h.live inner hlive
      have hcomposed := InnerCatalog.compose_composition hinner.ownIds
        (toOption_eq_some.mp hcompose)
      cases persisted with
      | true => exact h.commit hlive hcomposed hstep
      | false =>
        obtain rfl := some.inj hstep
        refine { h with live := ?_ }
        refine forall_eq_some ?_
        exact hinner.handsOut hcomposed.handsOut
    · exact nomatch hstep
  | write context dbName calls persisted =>
    obtain ⟨inner, hlive, hstep⟩ := bind_eq_some_iff.mp hstep
    obtain ⟨⟨handed, written⟩, hcompose, hstep⟩ := bind_eq_some_iff.mp hstep
    have hinner := h.live inner hlive
    obtain ⟨hhanded, hwritten⟩ := InnerCatalog.composeWrite_composition hinner.ownIds
      (toOption_eq_some.mp hcompose)
    have hspent : Inv { w with live := some handed } := by
      refine { h with live := ?_ }
      refine forall_eq_some ?_
      exact hinner.handsOut hhanded
    cases written with
    | none => exact some.inj hstep ▸ hspent
    | some batch =>
      cases persisted with
      | true => exact h.commit hlive (hwritten batch rfl) hstep
      | false => exact some.inj hstep ▸ hspent
  | takeSnapshot =>
    obtain ⟨inner, hlive, rfl⟩ := map_eq_some_iff.mp hstep
    refine { h with uploads := ?_ }
    refine forall_mem_concat.mpr ⟨h.uploads, ?_⟩
    exact (h.live inner hlive).kept (hallowed inner hlive)
  | upload index =>
    obtain ⟨snap, hsnap, rfl⟩ := map_eq_some_iff.mp hstep
    exact { h with checkpoint := h.uploads snap (mem_of_getElem? hsnap) }
  | restart =>
    obtain ⟨inner, hload, rfl⟩ := map_eq_some_iff.mp hstep
    refine { h with live := ?_ }
    refine forall_eq_some ?_
    exact h.checkpoint.loadCatalog h.sound (toOption_eq_some.mp hload)

theorem Inv.initial : Inv {} where
  sound := by constructor <;> simp [created]
  live := by
    refine forall_eq_some ?_
    constructor <;> simp [created, OwnIds, IndexMap.keys]
  checkpoint := by
    intro restored hrestored
    obtain rfl := Except.ok.inj hrestored
    constructor <;> simp [created, OwnIds, IndexMap.keys, upTo, InnerCatalog.snapshot]
  uploads := by simp

theorem Reflects.keepsRights (h : Reflects log log inner)
    (hsound : Sound log) : KeepsRights log inner where
  created_once := hsound.created_once
  permits := fun entry hentry => ⟨entry.2.permissions, h.permissions entry hentry, fun _ => rfl⟩
  covers := by
    intro entry _ permission _ ids hids dbId hdb wanted hgrants
    have hnamed : (permission.resourceType = .database ∧ dbId ∈ ids) ∧
        permission.grantsDatabaseActions wanted = true := by
      simpa [Permission.grants, Permission.isAdmin, hids] using hgrants
    exact ⟨hnamed.1.2, h.undeleted dbId hdb⟩

/-- In every run whose snapshots are taken while no token is restricted to some of the actions,
tokens keep their rights. -/
theorem keepsRights_of_snapshotsUnrestricted
    (hreachable : machine.Reachable SnapshotsUnrestricted w) (hlive : w.live = some inner) :
    KeepsRights w.log inner := by
  have hinv : Inv w := by
    refine hreachable.invariant ?_ ?_
    · rintro _ rfl
      exact .initial
    · intro w next action hinv hallowed hstep
      exact hinv.step hallowed hstep
  exact (hinv.live inner hlive).keepsRights hinv.sound

end Runs

section Restarts

def context : OperationContext where
  timeNs := 1000000000
  limits := { numDbs := 5, numTables := 10, numColumnsPerTable := 50 }
  defaultHardDeleteDuration := 0

/-- A token for the first database is created, a snapshot is taken and uploaded, and the server
starts again. -/
def schedule (actions : Actions) : List Action :=
  [.operate context (.createDatabase "metrics" none) true,
    .operate context (.createScopedToken "reader" [1] [{
      resourceType := .database, resourceIdentifier := .database [0], actions := actions }] none)
      true,
    .takeSnapshot,
    .upload 0,
    .restart]

theorem keepsRights_after_restart :
    ∃ w inner, machine.Reachable SnapshotsUnrestricted w ∧ w.live = some inner ∧
      inner.tokens.repo.repo.keys = [0] ∧ KeepsRights w.log inner := by
  have hinitial : machine.Reachable SnapshotsUnrestricted {} := .initial rfl
  obtain ⟨w, hreachable, inner, hlive, hkeys⟩ := hinitial.exists_of_exec (schedule .wildcard)
    (fun w => ∃ inner ∈ w.live, inner.tokens.repo.repo.keys = [0]) (by decide) (by decide)
  exact ⟨w, inner, hreachable, hlive, hkeys,
    keepsRights_of_snapshotsUnrestricted hreachable hlive⟩

/-- Some token answers a request differently from every permission list it was created with. -/
def answersAnew (w : World) (request : AccessRequest) : Bool :=
  w.live.any fun inner => inner.tokens.repo.repo.entries.any fun entry =>
    (created w.log).all fun grant => grant.1 ≠ entry.1 ∨
      entry.2.permits request ≠ grant.2.any fun permission => permission.grants request

/-- A token that may only read can write after a restart. -/
theorem restart_widens_reader :
    ∃ w inner, machine.Reachable Machine.Unrestricted w ∧ w.live = some inner ∧
      ¬ KeepsRights w.log inner := by
  have hinitial : machine.Reachable Machine.Unrestricted {} := .initial rfl
  obtain ⟨w, hreachable, hholds⟩ := hinitial.exists_of_run (schedule (.database .read))
    (fun w => answersAnew w (.database 0 .write)) (by decide)
  obtain ⟨inner, hlive, hchanged⟩ := (any_eq_true _ _).mp hholds
  refine ⟨w, inner, hreachable, hlive, fun hkeeps => ?_⟩
  obtain ⟨entry, hentry, hchanged⟩ := any_eq_true.mp hchanged
  obtain ⟨permissions, hcreated, hsame⟩ := hkeeps.permits entry hentry
  have hdiffers := all_eq_true.mp hchanged (entry.1, permissions) hcreated
  simp [hsame] at hdiffers

end Restarts

end RefluxDb.Catalog.TokenRights
