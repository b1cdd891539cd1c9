import RefluxDb.Library.Truncation
import RefluxDb.Write.CheckpointHistory

/-! How the durable checkpoints and the one in memory follow the snapshots.

`Kept` says that the checkpoints have every snapshot filed so far. It is kept when a snapshot is
applied to the checkpoint of its month, when a checkpoint is put in the store, when the one in
memory is dropped and loaded again, and when all checkpoints are built from the snapshots. -/

namespace RefluxDb.Write

open List RefluxDb.Library

/-- Puts a checkpoint in the store, under its month and number. -/
def putCheckpoint (checkpoints : List PersistedSnapshotCheckpoint)
    (checkpoint : PersistedSnapshotCheckpoint) : List PersistedSnapshotCheckpoint :=
  (checkpoints.filter fun other => other.stamp ≠ checkpoint.stamp) ++ [checkpoint]

/-- The latest time of the files a snapshot adds. -/
def PersistedSnapshot.maxTime (s : PersistedSnapshot) : Int :=
  s.added.foldl (fun time entry => max time entry.2.maxTime) i64Min

/-- The snapshot adds a file with a time, and is not passed over when checkpoints are built. -/
def PersistedSnapshot.Timed (s : PersistedSnapshot) : Prop := s.maxTime ≠ i64Min
deriving Decidable

/-- The checkpoints of some snapshots, newest first, that are given with their months, oldest month
first. -/
def buildCheckpointsFromSnapshots (snapshots : List Dated) : List PersistedSnapshotCheckpoint :=
  let dated := snapshots.filter fun d => d.2.Timed
  ((dated.map Prod.fst).dedup.insertionSort (· ≤ ·)).map fun month =>
    (CachedCheckpoint.ofSnapshots month
      ((dated.filter fun d => d.1 = month).map Prod.snd).reverse).checkpoint

def knownCheckpoints (checkpoints : List PersistedSnapshotCheckpoint)
    (cached : Option CachedCheckpoint) : List PersistedSnapshotCheckpoint :=
  checkpoints ++ (cached.map (·.checkpoint)).toList

/-- The checkpoint has every snapshot filed under its month. -/
def Latest (filed : List Dated) (checkpoint : PersistedSnapshotCheckpoint) : Prop :=
  ∀ dated ∈ filed, dated.1 = checkpoint.yearMonth →
    dated.2.snapshotSequenceNumber ≤ checkpoint.lastSnapshotSequenceNumber

/-- The checkpoints have all snapshots filed so far; those of months before the month of any
checkpoint are durable. -/
structure Kept (snapshots : List PersistedSnapshot) (filed : List Dated)
    (checkpoints : List PersistedSnapshotCheckpoint) (cached : Option CachedCheckpoint) : Prop where
  filing : Filing snapshots filed (knownCheckpoints checkpoints cached)
  isSealed : ∀ checkpoint ∈ knownCheckpoints checkpoints cached,
    Sealed filed checkpoints checkpoint.yearMonth
  covered : ∀ dated ∈ filed, Checkpointed (knownCheckpoints checkpoints cached) dated
  latest : ∀ c ∈ cached, Latest filed c.checkpoint
  indexed : ∀ c ∈ cached, c.Indexed

/-- The snapshot was persisted last and is not filed. -/
structure Newest (snapshots : List PersistedSnapshot) (filed : List Dated)
    (s : PersistedSnapshot) : Prop where
  persisted : s ∈ snapshots
  later : ∀ t ∈ snapshots, t ≠ s → t.snapshotSequenceNumber < s.snapshotSequenceNumber
  unfiled : ∀ dated ∈ filed, dated.2 ≠ s

section Lists

variable {checkpoints : List PersistedSnapshotCheckpoint} {cached : Option CachedCheckpoint}
variable {checkpoint other : PersistedSnapshotCheckpoint} {dated : Dated}

theorem mem_knownCheckpoints : checkpoint ∈ knownCheckpoints checkpoints cached ↔
    checkpoint ∈ checkpoints ∨ ∃ c ∈ cached, c.checkpoint = checkpoint := by
  simp [knownCheckpoints]

theorem knownCheckpoints_none : knownCheckpoints checkpoints none = checkpoints := by
  simp [knownCheckpoints]

theorem mem_of_mem_putCheckpoint (hmem : other ∈ putCheckpoint checkpoints checkpoint) :
    other ∈ checkpoints ∨ other = checkpoint := by
  rcases mem_concat.mp hmem with hkept | hnew
  · exact .inl (mem_of_mem_filter hkept)
  · exact .inr hnew

theorem self_mem_putCheckpoint : checkpoint ∈ putCheckpoint checkpoints checkpoint :=
  mem_concat_self

theorem Checkpointed.of_mem (hcheckpoint : checkpoint ∈ checkpoints)
    (hmonth : checkpoint.yearMonth = dated.1)
    (hle : dated.2.snapshotSequenceNumber ≤ checkpoint.lastSnapshotSequenceNumber) :
    Checkpointed checkpoints dated :=
  ⟨checkpoint, hcheckpoint, hmonth, hle⟩

theorem Checkpointed.putCheckpoint (hcheckpointed : Checkpointed checkpoints dated) :
    Checkpointed (putCheckpoint checkpoints checkpoint) dated := by
  obtain ⟨other, hother, hmonth, hle⟩ := hcheckpointed
  by_cases hstamp : other.stamp = checkpoint.stamp
  · refine .of_mem self_mem_putCheckpoint ((congrArg Prod.fst hstamp).symm.trans hmonth) ?_
    exact hle.trans (congrArg Prod.snd hstamp).le
  · refine .of_mem (mem_append_left _ (mem_filter.mpr ⟨hother, ?_⟩)) hmonth hle
    exact decide_eq_true hstamp

section

variable (built : List PersistedSnapshotCheckpoint)
include built

theorem mem_of_mem_foldl_putCheckpoint
    (hmem : other ∈ built.foldl putCheckpoint checkpoints) :
      other ∈ checkpoints ∨ other ∈ built := by
  induction built generalizing checkpoints with
  | nil => exact .inl hmem
  | cons first rest ih =>
    rcases ih hmem with hput | hrest
    · rcases mem_of_mem_putCheckpoint hput with hold | rfl
      · exact .inl hold
      · exact .inr mem_cons_self
    · exact .inr (mem_cons_of_mem _ hrest)

theorem Checkpointed.foldl_putCheckpoint (hcheckpointed : Checkpointed checkpoints dated) :
    Checkpointed (built.foldl RefluxDb.Write.putCheckpoint checkpoints) dated := by
  induction built generalizing checkpoints with
  | nil => exact hcheckpointed
  | cons first rest ih => exact ih hcheckpointed.putCheckpoint

/-- Every checkpoint of a list that is put has its snapshots in the store after. -/
theorem checkpointed_foldl_putCheckpoint (hbuilt : Checkpointed built dated) :
    Checkpointed (built.foldl putCheckpoint checkpoints) dated := by
  induction built generalizing checkpoints with
  | nil => simp [Checkpointed] at hbuilt
  | cons first rest ih =>
    obtain ⟨checkpoint, hcheckpoint, hmonth, hle⟩ := hbuilt
    rcases mem_cons.mp hcheckpoint with rfl | hrest
    · exact Checkpointed.foldl_putCheckpoint rest (.of_mem self_mem_putCheckpoint hmonth hle)
    · exact ih (.of_mem hrest hmonth hle)

/-- Where months differ, putting a list of checkpoints leaves all of them. -/
theorem mem_foldl_putCheckpoint
    (hmonths : built.Pairwise fun a b => a.yearMonth < b.yearMonth) (hmem : other ∈ built) :
    other ∈ built.foldl putCheckpoint checkpoints := by
  induction built using List.reverseRecOn with
  | nil => simp at hmem
  | append_singleton earlier last ih =>
    rw [pairwise_append] at hmonths
    rw [foldl_append]
    rcases mem_concat.mp hmem with hearlier | hlast
    · refine mem_append_left _ (mem_filter.mpr ⟨ih hmonths.1 hearlier, ?_⟩)
      have hlt := hmonths.2.2 other hearlier last (mem_singleton_self _)
      exact decide_eq_true fun hstamp => hlt.ne (congrArg Prod.fst hstamp)
    · rw [hlast]
      exact self_mem_putCheckpoint

end

end Lists

section Filed

variable {snapshots : List PersistedSnapshot} {filed : List Dated} {s : PersistedSnapshot}
variable {checkpoints : List PersistedSnapshotCheckpoint} {month : YearMonth} {last : Nat}
variable {cached : Option CachedCheckpoint} {checkpoint : PersistedSnapshotCheckpoint}

theorem Filing.mono {fewer : List PersistedSnapshotCheckpoint}
    (hfiling : Filing snapshots filed checkpoints) (hsubset : fewer ⊆ checkpoints) :
    Filing snapshots filed fewer where
  known := hfiling.known
  ordered := hfiling.ordered
  records checkpoint hcheckpoint := hfiling.records checkpoint (hsubset hcheckpoint)
  stamped checkpoint hcheckpoint := hfiling.stamped checkpoint (hsubset hcheckpoint)
  complete checkpoint hcheckpoint := hfiling.complete checkpoint (hsubset hcheckpoint)

theorem filedIn_append_of_lt (hlater : last < s.snapshotSequenceNumber) :
    filedIn (filed ++ [(month, s)]) checkpoint.yearMonth last =
      filedIn filed checkpoint.yearMonth last := by
  have hnew : ¬(month = checkpoint.yearMonth ∧ s.snapshotSequenceNumber ≤ last) := by omega
  simp [filedIn, filter_append, hnew]

theorem filedIn_append_self (hlater : ∀ dated ∈ filed,
    dated.2.snapshotSequenceNumber < s.snapshotSequenceNumber) :
    filedIn (filed ++ [(month, s)]) month s.snapshotSequenceNumber =
      (filed.filter fun dated => dated.1 = month).map Prod.snd ++ [s] := by
  have hold : (filed.filter fun dated => dated.1 = month ∧
      dated.2.snapshotSequenceNumber ≤ s.snapshotSequenceNumber) =
        filed.filter fun dated => dated.1 = month :=
    filter_congr fun dated hdated => decide_eq_decide.mpr
      ⟨fun h => h.1, fun hmonth => ⟨hmonth, (hlater dated hdated).le⟩⟩
  rw [filedIn, filter_append, hold]
  simp

/-- A checkpoint that has all of its month records just the month. -/
theorem Latest.filedIn_eq_group (hlatest : Latest filed checkpoint) :
    filedIn filed checkpoint.yearMonth checkpoint.lastSnapshotSequenceNumber =
      (filed.filter fun dated => dated.1 = checkpoint.yearMonth).map Prod.snd := by
  refine congrArg (List.map Prod.snd) (filter_congr fun dated hdated => ?_)
  exact decide_eq_decide.mpr ⟨fun h => h.1, fun hmonth => ⟨hmonth, hlatest dated hdated hmonth⟩⟩

/-- What is filed in the order of the persisted snapshots is consistent with them. -/
theorem consistent_filedIn (hknown : ∀ dated ∈ filed, dated.2 ∈ snapshots)
    (hfiled : filed.Pairwise fun a b =>
      a.2.snapshotSequenceNumber < b.2.snapshotSequenceNumber ∧ a.1 ≤ b.1)
    (hordered : snapshots.Pairwise fun s t =>
      s.snapshotSequenceNumber < t.snapshotSequenceNumber)
    (hconsistent : Consistent snapshots) : Consistent (filedIn filed month last) := by
  have hsorted : (filed.map Prod.snd).Pairwise fun s t =>
      s.snapshotSequenceNumber < t.snapshotSequenceNumber :=
    pairwise_map.mpr (hfiled.imp fun h => h.1)
  have hnodup : (filed.map Prod.snd).Nodup :=
    hsorted.imp fun h heq => h.ne (congrArg (·.snapshotSequenceNumber) heq)
  have hsubset : filed.map Prod.snd ⊆ snapshots := by
    intro s hs
    obtain ⟨dated, hdated, rfl⟩ := mem_map.mp hs
    exact hknown dated hdated
  have hsublist : (filed.map Prod.snd).Sublist snapshots :=
    sublist_of_subperm_of_pairwise (subperm_of_subset hnodup hsubset) hsorted hordered
  exact hconsistent.sublist ((filter_sublist.map Prod.snd).trans hsublist)

theorem Newest.lt (hnewest : Newest snapshots filed s)
    (hfiling : Filing snapshots filed checkpoints) {dated : Dated} (hdated : dated ∈ filed) :
    dated.2.snapshotSequenceNumber < s.snapshotSequenceNumber :=
  hnewest.later _ (hfiling.known dated hdated) (hnewest.unfiled dated hdated)

end Filed

namespace Kept

variable {snapshots : List PersistedSnapshot} {filed : List Dated} {s : PersistedSnapshot}
variable {checkpoints : List PersistedSnapshotCheckpoint} {month : YearMonth}
variable {cached : Option CachedCheckpoint} {checkpoint : PersistedSnapshotCheckpoint}

theorem empty : Kept [] [] [] none := by
  constructor
  · constructor <;> simp [knownCheckpoints]
  all_goals simp [knownCheckpoints]

theorem putSnapshot (hkept : Kept snapshots filed checkpoints cached)
    (hlater : ∀ t ∈ snapshots, t.snapshotSequenceNumber < s.snapshotSequenceNumber) :
    Kept (snapshots ++ [s]) filed checkpoints cached where
  filing := {
    hkept.filing with
    known := fun dated hdated => mem_append_left _ (hkept.filing.known dated hdated)
    complete := by
      intro checkpoint hcheckpoint t ht hlists hle
      rcases mem_concat.mp ht with hold | hnew
      · exact hkept.filing.complete checkpoint hcheckpoint t hold hlists hle
      · rw [hnew] at hle
        obtain ⟨dated, hdated, _, hnumber⟩ := hkept.filing.stamped checkpoint hcheckpoint
        have hlt := hlater _ (hkept.filing.known dated hdated)
        omega }
  isSealed := hkept.isSealed
  covered := hkept.covered
  latest := hkept.latest
  indexed := hkept.indexed

variable {c : CachedCheckpoint}

theorem persistCheckpoint (hkept : Kept snapshots filed checkpoints (some c)) :
    Kept snapshots filed (putCheckpoint checkpoints c.checkpoint) (some c) := by
  have hsubset : knownCheckpoints (putCheckpoint checkpoints c.checkpoint) (some c) ⊆
      knownCheckpoints checkpoints (some c) := by
    intro checkpoint hmem
    rcases mem_knownCheckpoints.mp hmem with hput | hcached
    · rcases mem_of_mem_putCheckpoint hput with hold | rfl
      · exact mem_knownCheckpoints.mpr (.inl hold)
      · exact mem_knownCheckpoints.mpr (.inr ⟨c, rfl, rfl⟩)
    · exact mem_knownCheckpoints.mpr (.inr hcached)
  refine ⟨hkept.filing.mono hsubset, fun checkpoint hcheckpoint dated hdated hlt => ?_,
    fun dated hdated => ?_, hkept.latest, hkept.indexed⟩
  · exact (hkept.isSealed checkpoint (hsubset hcheckpoint) dated hdated hlt).putCheckpoint
  · obtain ⟨checkpoint, hcheckpoint, hmonth, hle⟩ := hkept.covered dated hdated
    rcases mem_knownCheckpoints.mp hcheckpoint with hdurable | hcached
    · obtain ⟨other, hother, hmonth', hle'⟩ :
          Checkpointed (putCheckpoint checkpoints c.checkpoint) dated :=
        (Checkpointed.of_mem hdurable hmonth hle).putCheckpoint
      exact .of_mem (mem_knownCheckpoints.mpr (.inl hother)) hmonth' hle'
    · exact .of_mem (mem_knownCheckpoints.mpr (.inr hcached)) hmonth hle

theorem dropCached (hkept : Kept snapshots filed checkpoints (some c))
    (hdurable : c.checkpoint ∈ checkpoints) : Kept snapshots filed checkpoints none := by
  have hsubset : knownCheckpoints checkpoints none ⊆ knownCheckpoints checkpoints (some c) := by
    intro checkpoint hmem
    rw [knownCheckpoints_none] at hmem
    exact mem_knownCheckpoints.mpr (.inl hmem)
  refine ⟨hkept.filing.mono hsubset, fun checkpoint hcheckpoint =>
    hkept.isSealed checkpoint (hsubset hcheckpoint), fun dated hdated => ?_, by simp, by simp⟩
  obtain ⟨checkpoint, hcheckpoint, hmonth, hle⟩ := hkept.covered dated hdated
  rw [knownCheckpoints_none]
  rcases mem_knownCheckpoints.mp hcheckpoint with hold | ⟨_, ⟨⟩, rfl⟩
  · exact .of_mem hold hmonth hle
  · exact .of_mem hdurable hmonth hle

/-- A durable checkpoint that has all of its month is loaded. -/
theorem warmCheckpointCache (hkept : Kept snapshots filed checkpoints none)
    (hdurable : checkpoint ∈ checkpoints) (hlatest : Latest filed checkpoint) :
    Kept snapshots filed checkpoints (some (.ofCheckpoint checkpoint)) := by
  have hsubset : knownCheckpoints checkpoints (some (.ofCheckpoint checkpoint)) ⊆
      knownCheckpoints checkpoints none := by
    intro other hmem
    rw [knownCheckpoints_none]
    rcases mem_knownCheckpoints.mp hmem with hold | ⟨_, ⟨⟩, rfl⟩
    · exact hold
    · exact hdurable
  refine ⟨hkept.filing.mono hsubset, fun other hother =>
    hkept.isSealed other (hsubset hother), fun dated hdated => ?_, ?_, ?_⟩
  · obtain ⟨other, hother, hmonth, hle⟩ := hkept.covered dated hdated
    rw [knownCheckpoints_none] at hother
    exact .of_mem (mem_knownCheckpoints.mpr (.inl hother)) hmonth hle
  · rintro c ⟨⟩
    exact hlatest
  · rintro c ⟨⟩
    refine CachedCheckpoint.indexed_ofCheckpoint (hkept.filing.records checkpoint ?_).nodup
    exact knownCheckpoints_none.symm ▸ hdurable

section Apply

variable {base : CachedCheckpoint}
variable (hordered : snapshots.Pairwise fun s t =>
    s.snapshotSequenceNumber < t.snapshotSequenceNumber)
variable (hconsistent : Consistent snapshots)
variable (hkept : Kept snapshots filed checkpoints cached) (hnewest : Newest snapshots filed s)
variable (hcomplete : ∀ t ∈ snapshots, t.Lists → t ≠ s → ∃ month, (month, t) ∈ filed)
variable (hmonths : ∀ checkpoint ∈ knownCheckpoints checkpoints cached,
    checkpoint.yearMonth ≤ base.checkpoint.yearMonth)
variable (hindexed : base.Indexed)
variable (hrecords : Records ((filed.filter fun dated =>
    dated.1 = base.checkpoint.yearMonth).map Prod.snd) base.checkpoint)

theorem yearMonth_updateCachedCheckpoint :
    (base.updateCachedCheckpoint s).checkpoint.yearMonth = base.checkpoint.yearMonth :=
  congrArg Prod.fst (stamp_updateCachedCheckpoint base)

theorem last_updateCachedCheckpoint :
    (base.updateCachedCheckpoint s).checkpoint.lastSnapshotSequenceNumber =
      s.snapshotSequenceNumber :=
  congrArg Prod.snd (stamp_updateCachedCheckpoint base)

include hkept hmonths in
theorem filed_month_le {dated : Dated} (hdated : dated ∈ filed) :
    dated.1 ≤ base.checkpoint.yearMonth := by
  obtain ⟨checkpoint, hcheckpoint, heq, _⟩ := hkept.covered dated hdated
  exact heq ▸ hmonths checkpoint hcheckpoint

include hkept hnewest hmonths in
theorem pairwise_filed_append : (filed ++ [(base.checkpoint.yearMonth, s)]).Pairwise fun a b =>
    a.2.snapshotSequenceNumber < b.2.snapshotSequenceNumber ∧ a.1 ≤ b.1 := by
  refine pairwise_concat.mpr ⟨hkept.filing.ordered, fun dated hdated => ?_⟩
  exact ⟨hnewest.lt hkept.filing hdated, hkept.filed_month_le hmonths hdated⟩

include hkept hnewest in
theorem known_filed_append :
    ∀ dated ∈ filed ++ [(base.checkpoint.yearMonth, s)], dated.2 ∈ snapshots := by
  refine forall_mem_concat.mpr ⟨hkept.filing.known, ?_⟩
  exact hnewest.persisted

include hordered hconsistent hkept hnewest hmonths hindexed hrecords in
theorem records_updateCachedCheckpoint :
    Records (filedIn (filed ++ [(base.checkpoint.yearMonth, s)]) base.checkpoint.yearMonth
        s.snapshotSequenceNumber) (base.updateCachedCheckpoint s).checkpoint ∧
      (base.updateCachedCheckpoint s).Indexed := by
  have hall : Consistent (filedIn (filed ++ [(base.checkpoint.yearMonth, s)])
      base.checkpoint.yearMonth s.snapshotSequenceNumber) :=
    consistent_filedIn (hkept.known_filed_append hnewest)
      (hkept.pairwise_filed_append hnewest hmonths) hordered hconsistent
  rw [filedIn_append_self fun _ => hnewest.lt hkept.filing] at hall ⊢
  refine hrecords.updateCachedCheckpoint hindexed hall fun t ht => ?_
  obtain ⟨dated, hdated, rfl⟩ := mem_map.mp ht
  exact hnewest.lt hkept.filing (mem_of_mem_filter hdated)

include hordered hconsistent hkept hnewest hcomplete hmonths hindexed hrecords in
theorem filing_updateCachedCheckpoint :
    Filing snapshots (filed ++ [(base.checkpoint.yearMonth, s)])
      (knownCheckpoints checkpoints (some (base.updateCachedCheckpoint s))) where
  known := hkept.known_filed_append hnewest
  ordered := hkept.pairwise_filed_append hnewest hmonths
  records checkpoint hcheckpoint := by
    rcases mem_knownCheckpoints.mp hcheckpoint with hold | ⟨_, ⟨⟩, rfl⟩
    · have hknown : checkpoint ∈ knownCheckpoints checkpoints cached :=
        mem_knownCheckpoints.mpr (.inl hold)
      obtain ⟨dated, hdated, _, hnumber⟩ := hkept.filing.stamped checkpoint hknown
      rw [filedIn_append_of_lt (hnumber ▸ hnewest.lt hkept.filing hdated)]
      exact hkept.filing.records checkpoint hknown
    · rw [yearMonth_updateCachedCheckpoint, last_updateCachedCheckpoint]
      exact (records_updateCachedCheckpoint hordered hconsistent hkept hnewest hmonths hindexed
        hrecords).1
  stamped checkpoint hcheckpoint := by
    rcases mem_knownCheckpoints.mp hcheckpoint with hold | ⟨_, ⟨⟩, rfl⟩
    · obtain ⟨dated, hdated, hstamped⟩ :=
        hkept.filing.stamped checkpoint (mem_knownCheckpoints.mpr (.inl hold))
      exact ⟨dated, mem_append_left _ hdated, hstamped⟩
    · exact ⟨_, mem_concat_self,
        yearMonth_updateCachedCheckpoint.symm, last_updateCachedCheckpoint.symm⟩
  complete checkpoint _ t ht hlists _ := by
    by_cases hsame : t = s
    · exact ⟨base.checkpoint.yearMonth, mem_append_right _ (by simp [hsame])⟩
    · obtain ⟨month, hdated⟩ := hcomplete t ht hlists hsame
      exact ⟨month, mem_append_left _ hdated⟩

include hordered hconsistent hkept hnewest hcomplete hmonths hindexed hrecords in
/-- The newest snapshot is applied to a checkpoint of its month that has all earlier ones. -/
theorem updateCachedCheckpoint (hdurable : ∀ dated ∈ filed, dated.1 < base.checkpoint.yearMonth →
      Checkpointed checkpoints dated) :
    Kept snapshots (filed ++ [(base.checkpoint.yearMonth, s)]) checkpoints
      (some (base.updateCachedCheckpoint s)) where
  filing := filing_updateCachedCheckpoint hordered hconsistent hkept hnewest hcomplete hmonths
    hindexed hrecords
  isSealed checkpoint hcheckpoint dated hdated hlt := by
    have hle : checkpoint.yearMonth ≤ base.checkpoint.yearMonth := by
      rcases mem_knownCheckpoints.mp hcheckpoint with hold | ⟨_, ⟨⟩, rfl⟩
      · exact hmonths checkpoint (mem_knownCheckpoints.mpr (.inl hold))
      · exact yearMonth_updateCachedCheckpoint.le
    rcases mem_concat.mp hdated with hold | hnew
    · exact hdurable dated hold (hlt.trans_le hle)
    · rw [hnew] at hlt
      exact absurd hlt (not_lt.mpr hle)
  covered dated hdated := by
    have hself : (base.updateCachedCheckpoint s).checkpoint ∈
        knownCheckpoints checkpoints (some (base.updateCachedCheckpoint s)) :=
      mem_knownCheckpoints.mpr (.inr ⟨_, rfl, rfl⟩)
    rcases mem_concat.mp hdated with hold | hnew
    · rcases (hkept.filed_month_le hmonths hold).eq_or_lt with heq | hlt
      · exact .of_mem hself (yearMonth_updateCachedCheckpoint.trans heq.symm)
          ((hnewest.lt hkept.filing hold).le.trans last_updateCachedCheckpoint.ge)
      · obtain ⟨checkpoint, hcheckpoint, hrest⟩ := hdurable dated hold hlt
        exact ⟨checkpoint, mem_knownCheckpoints.mpr (.inl hcheckpoint), hrest⟩
    · rw [hnew]
      exact .of_mem hself yearMonth_updateCachedCheckpoint last_updateCachedCheckpoint.ge
  latest := by
    rintro c ⟨⟩ dated hdated _
    rw [last_updateCachedCheckpoint]
    rcases mem_concat.mp hdated with hold | hnew
    · exact (hnewest.lt hkept.filing hold).le
    · rw [hnew]
  indexed := by
    rintro c ⟨⟩
    exact (records_updateCachedCheckpoint hordered hconsistent hkept hnewest hmonths hindexed
      hrecords).2

include hordered hconsistent hnewest hcomplete in
/-- The newest snapshot begins the checkpoint of another month. -/
theorem beginMonth (hkept : Kept snapshots filed checkpoints none)
    (hbefore : ∀ checkpoint ∈ checkpoints, checkpoint.yearMonth < month) :
    Kept snapshots (filed ++ [(month, s)]) checkpoints
      (some (CachedCheckpoint.updateCachedCheckpoint
        { checkpoint := { yearMonth := month } } s)) := by
  have hdurable : ∀ dated ∈ filed, Checkpointed checkpoints dated := by
    intro dated hdated
    rw [← @knownCheckpoints_none checkpoints]
    exact hkept.covered dated hdated
  have hempty : (filed.filter fun dated => dated.1 = month) = [] := by
    refine filter_eq_nil_iff.mpr fun dated hdated hmonth => ?_
    obtain ⟨checkpoint, hcheckpoint, heq, _⟩ := hdurable dated hdated
    have hlt := hbefore checkpoint hcheckpoint
    rw [heq, of_decide_eq_true hmonth] at hlt
    exact lt_irrefl _ hlt
  refine updateCachedCheckpoint hordered hconsistent hkept hnewest hcomplete ?_
    (CachedCheckpoint.indexed_empty month) ?_ fun dated hdated _ => hdurable dated hdated
  · rw [knownCheckpoints_none]
    exact fun checkpoint hcheckpoint => (hbefore checkpoint hcheckpoint).le
  · rw [hempty]
    exact Records.empty month

include hordered hconsistent hnewest hcomplete in
/-- The newest snapshot is applied to the checkpoint in memory. -/
theorem continueMonth {c : CachedCheckpoint} (hkept : Kept snapshots filed checkpoints (some c))
    (hbefore : ∀ checkpoint ∈ knownCheckpoints checkpoints (some c),
      checkpoint.yearMonth ≤ c.checkpoint.yearMonth) :
    Kept snapshots (filed ++ [(c.checkpoint.yearMonth, s)]) checkpoints
      (some (c.updateCachedCheckpoint s)) := by
  have hknown : c.checkpoint ∈ knownCheckpoints checkpoints (some c) :=
    mem_knownCheckpoints.mpr (.inr ⟨c, rfl, rfl⟩)
  refine updateCachedCheckpoint hordered hconsistent hkept hnewest hcomplete hbefore
    (hkept.indexed c rfl) ?_ (hkept.isSealed c.checkpoint hknown)
  rw [← (hkept.latest c rfl).filedIn_eq_group]
  exact hkept.filing.records c.checkpoint hknown

end Apply

/-- Without a checkpoint in memory all is about the durable ones. -/
theorem of_durable (hfiling : Filing snapshots filed checkpoints)
    (hsealed : ∀ checkpoint ∈ checkpoints, Sealed filed checkpoints checkpoint.yearMonth)
    (hcovered : ∀ dated ∈ filed, Checkpointed checkpoints dated) :
    Kept snapshots filed checkpoints none := by
  refine ⟨?_, ?_, ?_, by simp, by simp⟩ <;> rw [knownCheckpoints_none]
  · exact hfiling
  · exact hsealed
  · exact hcovered

section Durable

variable (hfiling : Filing snapshots filed checkpoints)
variable (hsealed : ∀ checkpoint ∈ checkpoints, Sealed filed checkpoints checkpoint.yearMonth)

theorem filedIn_filter_checkpointed (hcheckpoint : checkpoint ∈ checkpoints) :
    filedIn (filed.filter fun dated => Checkpointed checkpoints dated) checkpoint.yearMonth
        checkpoint.lastSnapshotSequenceNumber =
      filedIn filed checkpoint.yearMonth checkpoint.lastSnapshotSequenceNumber := by
  unfold filedIn
  rw [filter_filter]
  refine congrArg (List.map Prod.snd) (filter_congr fun dated _ => ?_)
  rw [← Bool.decide_and, decide_eq_decide]
  exact ⟨fun h => h.1, fun h => ⟨h, .of_mem hcheckpoint h.1.symm h.2⟩⟩

include hfiling hsealed in
theorem filing_filter_checkpointed :
    Filing snapshots (filed.filter fun dated => Checkpointed checkpoints dated) checkpoints where
  known dated hdated := hfiling.known dated (mem_of_mem_filter hdated)
  ordered := hfiling.ordered.sublist filter_sublist
  records checkpoint hcheckpoint := by
    rw [filedIn_filter_checkpointed hcheckpoint]
    exact hfiling.records checkpoint hcheckpoint
  stamped checkpoint hcheckpoint := by
    obtain ⟨dated, hdated, hmonth, hnumber⟩ := hfiling.stamped checkpoint hcheckpoint
    refine ⟨dated, mem_filter.mpr ⟨hdated, decide_eq_true ?_⟩, hmonth, hnumber⟩
    exact .of_mem hcheckpoint hmonth.symm hnumber.le
  complete checkpoint hcheckpoint t ht hlists hle := by
    obtain ⟨month, hdated, hcheckpointed⟩ :=
      hfiling.checkpointed hsealed hcheckpoint ht hlists hle
    exact ⟨month, mem_filter.mpr ⟨hdated, decide_eq_true hcheckpointed⟩⟩

end Durable

section

variable (hkept : Kept snapshots filed checkpoints cached)
include hkept

theorem filing_durable :
    Filing snapshots filed checkpoints :=
  hkept.filing.mono fun _ h => mem_knownCheckpoints.mpr (.inl h)

theorem sealed_durable :
    ∀ checkpoint ∈ checkpoints, Sealed filed checkpoints checkpoint.yearMonth :=
  fun checkpoint h => hkept.isSealed checkpoint (mem_knownCheckpoints.mpr (.inl h))

/-- What the durable checkpoints have is kept when memory is lost. -/
theorem loseMemory :
    Kept snapshots (filed.filter fun dated => Checkpointed checkpoints dated) checkpoints none := by
  refine of_durable (filing_filter_checkpointed hkept.filing_durable hkept.sealed_durable) ?_ ?_
  · intro checkpoint hcheckpoint dated hdated
    exact hkept.sealed_durable checkpoint hcheckpoint dated (mem_of_mem_filter hdated)
  · exact fun dated hdated => of_decide_eq_true (mem_filter.mp hdated).2

end

end Kept

section Build

variable {snapshots : List PersistedSnapshot} {loaded : List Dated} {s : PersistedSnapshot}
variable {checkpoint : PersistedSnapshotCheckpoint} {dated : Dated}

/-- The snapshots that checkpoints are built from, oldest first. -/
def buildOrder (loaded : List Dated) : List Dated :=
  (loaded.filter fun d => d.2.Timed).reverse

theorem mem_buildOrder : dated ∈ buildOrder loaded ↔ dated ∈ loaded ∧ dated.2.Timed := by
  simp [buildOrder]

theorem mem_buildCheckpointsFromSnapshots :
    checkpoint ∈ buildCheckpointsFromSnapshots loaded ↔ ∃ month ∈ (buildOrder loaded).map Prod.fst,
      checkpoint = (CachedCheckpoint.ofSnapshots month
        (((buildOrder loaded).filter fun d => d.1 = month).map Prod.snd)).checkpoint := by
  simp only [buildCheckpointsFromSnapshots, mem_map, mem_insertionSort, mem_dedup,
    buildOrder, mem_reverse, filter_reverse, map_reverse, eq_comm]

theorem pairwise_buildCheckpointsFromSnapshots :
    (buildCheckpointsFromSnapshots loaded).Pairwise fun a b => a.yearMonth < b.yearMonth := by
  rw [buildCheckpointsFromSnapshots, pairwise_map]
  simp only [yearMonth_ofSnapshots]
  exact OwnObjects.pairwise_sortedMonths _

variable (hordered : (buildOrder loaded).Pairwise fun a b =>
    a.2.snapshotSequenceNumber < b.2.snapshotSequenceNumber ∧ a.1 ≤ b.1)

include hordered in
/-- A checkpoint that is built has the number of the last snapshot of its month. -/
theorem built_spec (hbuilt : checkpoint ∈ buildCheckpointsFromSnapshots loaded) :
    Latest (buildOrder loaded) checkpoint ∧
      (∃ dated ∈ buildOrder loaded, dated.1 = checkpoint.yearMonth ∧
        dated.2.snapshotSequenceNumber = checkpoint.lastSnapshotSequenceNumber) ∧
      checkpoint = (CachedCheckpoint.ofSnapshots checkpoint.yearMonth
        (filedIn (buildOrder loaded) checkpoint.yearMonth
          checkpoint.lastSnapshotSequenceNumber)).checkpoint := by
  obtain ⟨month, hmonth, heq⟩ := mem_buildCheckpointsFromSnapshots.mp hbuilt
  have hyear : checkpoint.yearMonth = month := by rw [heq, yearMonth_ofSnapshots]
  subst hyear
  have hgroup : ∀ dated, dated ∈ (buildOrder loaded).filter (fun d => d.1 = checkpoint.yearMonth) ↔
      dated ∈ buildOrder loaded ∧ dated.1 = checkpoint.yearMonth := by simp
  have hsorted : ((buildOrder loaded).filter fun d => d.1 = checkpoint.yearMonth).Pairwise
      fun a b => a.2.snapshotSequenceNumber < b.2.snapshotSequenceNumber ∧ a.1 ≤ b.1 :=
    hordered.sublist filter_sublist
  obtain ⟨earlier, last, hsplit⟩ : ∃ earlier last,
      (buildOrder loaded).filter (fun d => d.1 = checkpoint.yearMonth) = earlier ++ [last] := by
    obtain ⟨dated, hdated, hsame⟩ := mem_map.mp hmonth
    refine (eq_nil_or_concat _).resolve_left ?_ |>.imp fun _ h => by simpa using h
    exact ne_nil_of_mem ((hgroup dated).mpr ⟨hdated, hsame⟩)
  have hnumber : checkpoint.lastSnapshotSequenceNumber = last.2.snapshotSequenceNumber := by
    rw [heq, hsplit, map_append]
    exact last_ofSnapshots _ _
  rw [hsplit] at hgroup hsorted
  obtain ⟨hlast, hlastMonth⟩ := (hgroup last).mp (by simp)
  have hlatest : Latest (buildOrder loaded) checkpoint := by
    intro other hother hyear
    rw [hnumber]
    rcases mem_concat.mp ((hgroup other).mpr ⟨hother, hyear⟩) with hearlier | hself
    · exact ((pairwise_append.mp hsorted).2.2 other hearlier last
        (mem_singleton_self _)).1.le
    · rw [hself]
  refine ⟨hlatest, ⟨last, hlast, hlastMonth, hnumber.symm⟩, ?_⟩
  rw [hlatest.filedIn_eq_group]
  exact heq

include hordered in
theorem checkpointed_built (hdated : dated ∈ buildOrder loaded) :
    Checkpointed (buildCheckpointsFromSnapshots loaded) dated := by
  obtain ⟨checkpoint, hbuilt, hmonth⟩ : ∃ checkpoint ∈ buildCheckpointsFromSnapshots loaded,
      checkpoint.yearMonth = dated.1 :=
    ⟨_, mem_buildCheckpointsFromSnapshots.mpr ⟨dated.1, mem_map_of_mem hdated, rfl⟩,
      yearMonth_ofSnapshots _ _⟩
  exact .of_mem hbuilt hmonth ((built_spec hordered hbuilt).1 dated hdated hmonth.symm)

variable (hpersisted : snapshots.Pairwise fun s t =>
    s.snapshotSequenceNumber < t.snapshotSequenceNumber)
variable (hconsistent : Consistent snapshots)
variable (hknown : ∀ dated ∈ loaded, dated.2 ∈ snapshots)
variable (hcomplete : ∀ t ∈ snapshots, t.Lists → (∃ month, (month, t) ∈ buildOrder loaded) ∨
    ∀ dated ∈ loaded, dated.2.snapshotSequenceNumber < t.snapshotSequenceNumber)

include hordered hpersisted hconsistent hknown hcomplete in
theorem filing_built :
    Filing snapshots (buildOrder loaded) (buildCheckpointsFromSnapshots loaded) := by
  have hfiled : ∀ dated ∈ buildOrder loaded, dated.2 ∈ snapshots :=
    fun dated hdated => hknown dated (mem_buildOrder.mp hdated).1
  refine ⟨hfiled, hordered, fun checkpoint hbuilt => ?_, fun checkpoint hbuilt => ?_, ?_⟩
  · obtain ⟨_, _, heq⟩ := built_spec hordered hbuilt
    have hsorted : (filedIn (buildOrder loaded) checkpoint.yearMonth
        checkpoint.lastSnapshotSequenceNumber).Pairwise fun s t =>
          s.snapshotSequenceNumber < t.snapshotSequenceNumber :=
      pairwise_map.mpr ((hordered.sublist filter_sublist).imp fun h => h.1)
    have hrecords := (Records.ofSnapshots checkpoint.yearMonth
      (consistent_filedIn hfiled hordered hpersisted hconsistent) hsorted).1
    rwa [← heq] at hrecords
  · exact (built_spec hordered hbuilt).2.1
  · intro checkpoint hbuilt t ht hlists hle
    obtain ⟨last, hlast, _, hnumber⟩ := (built_spec hordered hbuilt).2.1
    rcases hcomplete t ht hlists with hfound | hlater
    · exact hfound
    · have hlt := hlater last (mem_buildOrder.mp hlast).1
      omega

include hordered hpersisted hconsistent hknown hcomplete in
/-- All checkpoints are built from the snapshots that were loaded. -/
theorem Kept.build :
    Kept snapshots (buildOrder loaded)
      ((buildCheckpointsFromSnapshots loaded).foldl putCheckpoint []) none := by
  have hcovered : ∀ dated ∈ buildOrder loaded,
      Checkpointed ((buildCheckpointsFromSnapshots loaded).foldl putCheckpoint []) dated :=
    fun dated hdated => checkpointed_foldl_putCheckpoint _ (checkpointed_built hordered hdated)
  refine of_durable ?_ (fun _ _ dated hdated _ => hcovered dated hdated) hcovered
  refine (filing_built hordered hpersisted hconsistent hknown hcomplete).mono ?_
  intro checkpoint hmem
  exact (mem_of_mem_foldl_putCheckpoint _ hmem).resolve_left not_mem_nil

end Build

end RefluxDb.Write
