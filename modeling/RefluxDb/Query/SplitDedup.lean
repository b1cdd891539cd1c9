import Mathlib.Data.Int.ConditionallyCompleteOrder
import Mathlib.Data.List.Dedup
import Mathlib.Data.List.Flatten
import Mathlib.Data.Prod.Lex
import Mathlib.Order.ConditionallyCompleteLattice.Basic
import RefluxDb.Library.LastValue
import RefluxDb.Library.Sweep

/-! De-duplication of a query's chunks, split by partition and by time.

The rule replaces one de-duplication over all chunks by one for each group of chunks that may hold
rows with the same primary key. Chunks are grouped by partition and then by overlapping time
range; groups of a single chunk without duplicates are read as they are. That a query returns no
primary key twice rests on the partitions having disjoint primary keys. -/

namespace RefluxDb.Query

open List RefluxDb.Library

/-- All tag values and the time of a row. -/
structure PrimaryKey (Tags : Type*) where
  tags : Tags
  time : Int
deriving DecidableEq

structure Row (Tags Field Value : Type*) where
  key : PrimaryKey Tags
  fields : Field → Option Value

structure QueryChunk (Id Tags Field Value : Type*) where
  partitionId : Id
  order : Int
  id : Nat
  timestampMinMax : Option (Int × Int)
  mayContainPkDuplicates : Bool
  rows : List (Row Tags Field Value)

abbrev Group (Id Tags Field Value : Type*) := List (QueryChunk Id Tags Field Value)

structure GroupWithDedupFlag (Id Tags Field Value : Type*) where
  group : Group Id Tags Field Value
  needsDedup : Bool

variable {Id Tags Field Value : Type*}

section Definitions

variable [LinearOrder Id] [DecidableEq Tags]

/-- One row for each primary key, with the last non-null value of each field. -/
def deduplicate (rows : List (Row Tags Field Value)) : List (Row Tags Field Value) :=
  (rows.map (·.key)).dedup.map fun key =>
    ⟨key, fun field => lastValue (fun row => if row.key = key then row.fields field else none) rows⟩

/-- De-duplication of the rows of a group in chunk order. -/
def deduplicateExec (group : Group Id Tags Field Value) : List (Row Tags Field Value) :=
  deduplicate ((group.insertionSort fun a b => a.order ≤ b.order).flatMap (·.rows))

def splitByPartition (chunks : Group Id Tags Field Value) : List (Group Id Tags Field Value) :=
  ((chunks.map (·.partitionId)).dedup.insertionSort (· ≤ ·)).map fun partitionId =>
    chunks.filter fun chunk => chunk.partitionId = partitionId

/-- Groups chunks with overlapping time ranges; all together if one has no time range. -/
def groupPotentialDuplicates (chunks : Group Id Tags Field Value) :
    List (Group Id Tags Field Value) :=
  if chunks.any (·.timestampMinMax.isNone) then [chunks]
  else overlapGroups (fun chunk => (chunk.timestampMinMax.getD (0, 0)).1)
    (fun chunk => (chunk.timestampMinMax.getD (0, 0)).2) chunks

def detectDedupRequirement (groups : List (Group Id Tags Field Value)) :
    List (GroupWithDedupFlag Id Tags Field Value) :=
  groups.map fun group =>
    let noDedup := decide (group.length < 2) && group.all fun c => !c.mayContainPkDuplicates
    ⟨group, !noDedup⟩

/-- The first time, chunk order, partition and chunk id of a group. -/
def GroupWithDedupFlag.sortKey (g : GroupWithDedupFlag Id Tags Field Value) :
    WithBot Int ×ₗ WithBot Int ×ₗ WithBot Id ×ₗ WithBot Nat :=
  toLex ((g.group.filterMap fun c => c.timestampMinMax.map Prod.fst).min?,
    toLex ((g.group.map (·.order)).min?,
      toLex ((g.group.map (·.partitionId)).min?, (g.group.map (·.id)).min?)))

def sortGroups (groups : List (GroupWithDedupFlag Id Tags Field Value)) :
    List (GroupWithDedupFlag Id Tags Field Value) :=
  groups.insertionSort fun g h => g.sortKey ≤ h.sortKey

def fuseStep (state : List (GroupWithDedupFlag Id Tags Field Value) ×
      Option (GroupWithDedupFlag Id Tags Field Value))
    (group : GroupWithDedupFlag Id Tags Field Value) :
    List (GroupWithDedupFlag Id Tags Field Value) ×
      Option (GroupWithDedupFlag Id Tags Field Value) :=
  match state.2 with
  | some current =>
    if current.needsDedup || group.needsDedup then (state.1 ++ [current], some group)
    else (state.1, some { current with group := current.group ++ group.group })
  | none => (state.1, some group)

/-- Fuses neighbouring groups that need no de-duplication. -/
def fuseGroups (groups : List (GroupWithDedupFlag Id Tags Field Value)) :
    List (GroupWithDedupFlag Id Tags Field Value) :=
  let (out, current) := groups.foldl fuseStep ([], none)
  out ++ current.toList

def splitGroups (chunks : Group Id Tags Field Value) :
    List (GroupWithDedupFlag Id Tags Field Value) :=
  fuseGroups (sortGroups (detectDedupRequirement
    ((splitByPartition chunks).flatMap groupPotentialDuplicates)))

/-- The rows a query reads from its chunks under the rule. When there are more groups than
`maxDedupSplit` the one de-duplication over all chunks stays. -/
def splitDedup (maxDedupSplit : Nat) (chunks : Group Id Tags Field Value) :
    List (Row Tags Field Value) :=
  let groups := splitGroups chunks
  if groups.isEmpty then []
  else if maxDedupSplit < groups.length then deduplicateExec chunks
  else groups.flatMap fun g =>
    if g.needsDedup then deduplicateExec g.group else g.group.flatMap (·.rows)

end Definitions

def Separate (chunk other : QueryChunk Id Tags Field Value) : Prop :=
  ∀ row ∈ chunk.rows, ∀ row' ∈ other.rows, row.key ≠ row'.key

/-- What the rule relies on: time ranges that hold, chunks that have duplicates only if they say
so, and partitions with disjoint primary keys. -/
structure WellFormed (chunks : Group Id Tags Field Value) : Prop where
  nodup : chunks.Nodup
  ranges : ∀ chunk ∈ chunks, ∀ range ∈ chunk.timestampMinMax, range.1 ≤ range.2 ∧
    ∀ row ∈ chunk.rows, range.1 ≤ row.key.time ∧ row.key.time ≤ range.2
  unique : ∀ chunk ∈ chunks, chunk.mayContainPkDuplicates = false →
    (chunk.rows.map (·.key)).Nodup
  partitions : ∀ chunk ∈ chunks, ∀ other ∈ chunks, ¬Separate chunk other →
    chunk.partitionId = other.partitionId

variable {chunks : Group Id Tags Field Value} {group other : Group Id Tags Field Value}

/-- No chunk of one group shares a primary key with one of the other. -/
def GroupsSeparate (group other : Group Id Tags Field Value) : Prop :=
  ∀ chunk ∈ group, ∀ chunk' ∈ other, Separate chunk chunk'

theorem GroupsSeparate.symm (hseparate : GroupsSeparate group other) :
    GroupsSeparate other group :=
  fun chunk' hchunk' chunk hchunk row' hrow' row hrow hkey =>
    hseparate chunk hchunk chunk' hchunk' row hrow row' hrow' hkey.symm

theorem GroupsSeparate.mono {group' other' : Group Id Tags Field Value}
    (hseparate : GroupsSeparate group other) (hgroup : group' ⊆ group) (hother : other' ⊆ other) :
    GroupsSeparate group' other' :=
  fun chunk hchunk chunk' hchunk' => hseparate chunk (hgroup hchunk) chunk' (hother hchunk')

variable {chunk : QueryChunk Id Tags Field Value}

theorem eq_some_getD_of_not_any
    (hsome : ¬group.any (·.timestampMinMax.isNone) = true) (hchunk : chunk ∈ group) :
    chunk.timestampMinMax = some (chunk.timestampMinMax.getD (0, 0)) := by
  cases hrange : chunk.timestampMinMax with
  | none => exact absurd (any_eq_true.mpr ⟨chunk, hchunk, by simp [hrange]⟩) hsome
  | some range => rfl

theorem flatten_groupPotentialDuplicates_perm
    (hranges : ∀ chunk ∈ group, ∀ range ∈ chunk.timestampMinMax, range.1 ≤ range.2) :
    (groupPotentialDuplicates group).flatten.Perm group := by
  unfold groupPotentialDuplicates
  split
  case isTrue => simp
  case isFalse hsome =>
    exact flatten_overlapGroups_perm fun chunk hchunk =>
      hranges chunk hchunk _ (eq_some_getD_of_not_any hsome hchunk)

/-- The groups of one partition by time share no primary key. -/
theorem groupPotentialDuplicates_separate
    (hranges : ∀ chunk ∈ group, ∀ range ∈ chunk.timestampMinMax, range.1 ≤ range.2 ∧
      ∀ row ∈ chunk.rows, range.1 ≤ row.key.time ∧ row.key.time ≤ range.2) :
    (groupPotentialDuplicates group).Pairwise GroupsSeparate := by
  have hperm := flatten_groupPotentialDuplicates_perm fun chunk hchunk range hrange =>
    (hranges chunk hchunk range hrange).1
  unfold groupPotentialDuplicates at hperm ⊢
  split
  case isTrue => exact pairwise_singleton _ _
  case isFalse hsome =>
    rw [if_neg hsome] at hperm
    have hrange : ∀ chunk ∈ group, (chunk.timestampMinMax.getD (0, 0)).1 ≤
        (chunk.timestampMinMax.getD (0, 0)).2 := fun chunk hchunk =>
      (hranges chunk hchunk _ (eq_some_getD_of_not_any hsome hchunk)).1
    refine (overlapGroups_apart hrange).imp_of_mem ?_
    intro g g' hg hg' hapart chunk hchunk chunk' hchunk' row hrow row' hrow' hkey
    have hlt := hapart chunk hchunk chunk' hchunk'
    beta_reduce at hlt
    have hmem := hperm.subset (mem_flatten.mpr ⟨g, hg, hchunk⟩)
    have hmem' := hperm.subset (mem_flatten.mpr ⟨g', hg', hchunk'⟩)
    have hhi := ((hranges chunk hmem _ (eq_some_getD_of_not_any hsome hmem)).2 row hrow).2
    have hlo := ((hranges chunk' hmem' _ (eq_some_getD_of_not_any hsome hmem')).2 row' hrow').1
    rw [hkey] at hhi
    omega

section Deduplicate

variable [DecidableEq Tags]

theorem nodup_deduplicate (rows : List (Row Tags Field Value)) :
    ((deduplicate rows).map (·.key)).Nodup := by
  have hkeys : (deduplicate rows).map (·.key) = (rows.map (·.key)).dedup := by
    simp [deduplicate, Function.comp_def]
  rw [hkeys]
  exact nodup_dedup _

omit [DecidableEq Tags] in
theorem mem_flatMap_rows_key {key : PrimaryKey Tags} :
    key ∈ (group.flatMap (·.rows)).map (·.key) ↔
      ∃ chunk ∈ group, ∃ row ∈ chunk.rows, row.key = key := by
  simp only [mem_map, mem_flatMap]
  constructor
  · rintro ⟨row, ⟨chunk, hchunk, hrow⟩, hkey⟩
    exact ⟨chunk, hchunk, row, hrow, hkey⟩
  · rintro ⟨chunk, hchunk, row, hrow, hkey⟩
    exact ⟨row, ⟨chunk, hchunk, hrow⟩, hkey⟩

theorem mem_deduplicateExec_key {key : PrimaryKey Tags} :
    key ∈ (deduplicateExec group).map (·.key) ↔
      ∃ chunk ∈ group, ∃ row ∈ chunk.rows, row.key = key := by
  have hkeys : (deduplicateExec group).map (·.key) = (((group.insertionSort fun a b =>
      a.order ≤ b.order).flatMap (·.rows)).map (·.key)).dedup := by
    simp [deduplicateExec, deduplicate, Function.comp_def]
  rw [hkeys, mem_dedup, mem_flatMap_rows_key]
  simp only [mem_insertionSort]

end Deduplicate

variable [LinearOrder Id]

theorem subset_of_mem_splitByPartition (hgroup : group ∈ splitByPartition chunks) :
    group ⊆ chunks := by
  obtain ⟨partitionId, _, rfl⟩ := mem_map.mp hgroup
  exact filter_sublist.subset

theorem splitByPartition_separate (hwf : WellFormed chunks) :
    (splitByPartition chunks).Pairwise GroupsSeparate := by
  have hdistinct : ((chunks.map (·.partitionId)).dedup.insertionSort (· ≤ ·)).Nodup :=
    (perm_insertionSort _ _).nodup_iff.mpr (nodup_dedup _)
  refine List.Pairwise.map _ ?_ hdistinct
  intro partitionId partitionId' hne chunk hchunk chunk' hchunk'
  simp only [mem_filter, decide_eq_true_eq] at hchunk hchunk'
  by_contra hshared
  exact hne (hchunk.2 ▸ hchunk'.2 ▸ hwf.partitions chunk hchunk.1 chunk' hchunk'.1 hshared)

theorem mem_splitByPartition_flatten
    (hchunk : chunk ∈ chunks) : ∃ group ∈ splitByPartition chunks, chunk ∈ group := by
  refine ⟨chunks.filter fun c => c.partitionId = chunk.partitionId, ?_, by simp [hchunk]⟩
  refine mem_map.mpr ⟨chunk.partitionId, ?_, rfl⟩
  rw [mem_insertionSort, mem_dedup]
  exact mem_map_of_mem hchunk

/-- Before they are flagged, the groups share no primary key and hold the query's chunks. -/
theorem groups_separate (hwf : WellFormed chunks) :
    ((splitByPartition chunks).flatMap groupPotentialDuplicates).Pairwise GroupsSeparate ∧
      ∀ chunk, (∃ g ∈ (splitByPartition chunks).flatMap groupPotentialDuplicates, chunk ∈ g) ↔
        chunk ∈ chunks := by
  have hgroup : ∀ group ∈ splitByPartition chunks,
      (groupPotentialDuplicates group).Pairwise GroupsSeparate ∧
        (groupPotentialDuplicates group).flatten.Perm group := by
    intro group hgroup
    have hranges := fun chunk hchunk =>
      hwf.ranges chunk (subset_of_mem_splitByPartition hgroup hchunk)
    exact ⟨groupPotentialDuplicates_separate hranges, flatten_groupPotentialDuplicates_perm
      fun chunk hchunk range hrange => (hranges chunk hchunk range hrange).1⟩
  have hsubset : ∀ group ∈ splitByPartition chunks, ∀ g ∈ groupPotentialDuplicates group,
      g ⊆ group := fun group hmem g hg chunk hchunk =>
    (hgroup group hmem).2.subset (mem_flatten.mpr ⟨g, hg, hchunk⟩)
  constructor
  · rw [pairwise_flatMap]
    refine ⟨fun group hmem => (hgroup group hmem).1, ?_⟩
    refine (splitByPartition_separate hwf).imp_of_mem ?_
    intro group other hmem hmem' hseparate g hg g' hg'
    exact hseparate.mono (hsubset group hmem g hg) (hsubset other hmem' g' hg')
  · intro chunk
    constructor
    · rintro ⟨g, hg, hchunk⟩
      obtain ⟨group, hmem, hin⟩ := mem_flatMap.mp hg
      exact subset_of_mem_splitByPartition hmem (hsubset group hmem g hin hchunk)
    · intro hchunk
      obtain ⟨group, hmem, hin⟩ := mem_splitByPartition_flatten hchunk
      obtain ⟨g, hg, hing⟩ := mem_flatten.mp ((hgroup group hmem).2.mem_iff.mpr hin)
      exact ⟨g, mem_flatMap.mpr ⟨group, hmem, hg⟩, hing⟩

/-- Flagged groups that hold the query's chunks, share no primary key, and have no duplicates
where none are removed. -/
structure Ready (chunks : Group Id Tags Field Value)
    (groups : List (GroupWithDedupFlag Id Tags Field Value)) : Prop where
  mem_iff : ∀ chunk, (∃ g ∈ groups, chunk ∈ g.group) ↔ chunk ∈ chunks
  separate : groups.Pairwise fun g h => GroupsSeparate g.group h.group
  clean : ∀ g ∈ groups, g.needsDedup = false → ((g.group.flatMap (·.rows)).map (·.key)).Nodup

section

omit [LinearOrder Id]

variable {groups : List (Group Id Tags Field Value)}

theorem ready_detectDedupRequirement
    (hseparate : groups.Pairwise GroupsSeparate)
    (hmem : ∀ chunk, (∃ g ∈ groups, chunk ∈ g) ↔ chunk ∈ chunks)
    (hunique : ∀ chunk ∈ chunks, chunk.mayContainPkDuplicates = false →
      (chunk.rows.map (·.key)).Nodup) : Ready chunks (detectDedupRequirement groups) := by
  refine ⟨fun chunk => by simp [detectDedupRequirement, ← hmem], List.Pairwise.map _
    (fun _ _ h => h) hseparate, ?_⟩
  intro g hg hflag
  obtain ⟨group, hgroup, rfl⟩ := mem_map.mp hg
  simp only [Bool.not_eq_false', Bool.and_eq_true, decide_eq_true_eq, all_eq_true,
    Bool.not_eq_true'] at hflag
  match group, hflag with
  | [], _ => simp
  | [chunk], ⟨_, hnone⟩ =>
    simpa using hunique chunk ((hmem chunk).mp ⟨[chunk], hgroup, by simp⟩)
      (hnone chunk (by simp))
  | _ :: _ :: _, ⟨hshort, _⟩ =>
    simp only [length_cons] at hshort
    omega

theorem Ready.perm {groups groups' : List (GroupWithDedupFlag Id Tags Field Value)}
    (hready : Ready chunks groups) (hperm : groups.Perm groups') : Ready chunks groups' :=
  ⟨fun chunk => by rw [← hready.mem_iff]; simp [hperm.mem_iff],
    hperm.pairwise hready.separate fun h => h.symm,
    fun g hg => hready.clean g (hperm.mem_iff.mpr hg)⟩

/-- Two neighbours that need no de-duplication stay ready as one group. -/
theorem Ready.fuse {front rest : List (GroupWithDedupFlag Id Tags Field Value)}
    {g h : GroupWithDedupFlag Id Tags Field Value}
    (hready : Ready chunks (front ++ g :: h :: rest)) (hg : g.needsDedup = false)
    (hh : h.needsDedup = false) :
    Ready chunks (front ++ { g with group := g.group ++ h.group } :: rest) := by
  have hseparate := hready.separate
  rw [pairwise_append, pairwise_cons, pairwise_cons] at hseparate
  obtain ⟨hfront, ⟨hgrest, hhrest, hrest⟩, hacross⟩ := hseparate
  refine ⟨?_, ?_, ?_⟩
  · intro chunk
    rw [← hready.mem_iff]
    simp [or_and_right, exists_or, or_assoc]
  · rw [pairwise_append, pairwise_cons]
    refine ⟨hfront, ⟨?_, hrest⟩, ?_⟩
    · intro k hk chunk hchunk chunk' hchunk'
      rcases mem_append.mp hchunk with hin | hin
      · exact hgrest k (mem_cons_of_mem h hk) chunk hin chunk' hchunk'
      · exact hhrest k hk chunk hin chunk' hchunk'
    · intro k hk m hm chunk hchunk chunk' hchunk'
      rcases mem_cons.mp hm with rfl | hm
      · rcases mem_append.mp hchunk' with hin | hin
        · exact hacross k hk g (by simp) chunk hchunk chunk' hin
        · exact hacross k hk h (by simp) chunk hchunk chunk' hin
      · exact hacross k hk m (by simp [hm]) chunk hchunk chunk' hchunk'
  · intro k hk hflag
    rcases mem_append.mp hk with hin | hin
    · exact hready.clean k (mem_append_left _ hin) hflag
    · rcases mem_cons.mp hin with rfl | hin
      · rw [flatMap_append, map_append, nodup_append']
        refine ⟨hready.clean g (by simp) hg, hready.clean h (by simp) hh, ?_⟩
        intro key hkey hkey'
        simp only [mem_map, mem_flatMap] at hkey hkey'
        obtain ⟨row, ⟨chunk, hchunk, hrow⟩, rfl⟩ := hkey
        obtain ⟨row', ⟨chunk', hchunk', hrow'⟩, hsame⟩ := hkey'
        exact hgrest h (by simp) chunk hchunk chunk' hchunk' row hrow row' hrow' hsame.symm
      · exact hready.clean k (by simp [hin]) hflag

/-- Fusing the rest of the groups into what was fused so far. -/
theorem Ready.foldl_fuseStep {out rest : List (GroupWithDedupFlag Id Tags Field Value)}
    {current : Option (GroupWithDedupFlag Id Tags Field Value)}
    (hready : Ready chunks (out ++ current.toList ++ rest)) :
    Ready chunks ((rest.foldl fuseStep (out, current)).1 ++
      (rest.foldl fuseStep (out, current)).2.toList) := by
  induction rest generalizing out current with
  | nil => simpa using hready
  | cons group rest ih =>
    rw [foldl_cons]
    cases current with
    | none =>
      refine ih ?_
      simpa using hready
    | some current =>
      simp only [fuseStep]
      split
      case isTrue =>
        refine ih ?_
        simpa using hready
      case isFalse hflags =>
        simp only [Bool.or_eq_true, not_or, Bool.not_eq_true] at hflags
        refine ih ?_
        simp only [Option.toList_some, append_assoc, singleton_append] at hready ⊢
        exact hready.fuse hflags.1 hflags.2

end

theorem ready_splitGroups (hwf : WellFormed chunks) : Ready chunks (splitGroups chunks) := by
  obtain ⟨hseparate, hsubset⟩ := groups_separate hwf
  have hdetected := ready_detectDedupRequirement hseparate hsubset hwf.unique
  have hsorted := hdetected.perm (perm_insertionSort (fun g h => g.sortKey ≤ h.sortKey) _).symm
  have hunfused : Ready chunks ([] ++ Option.toList none ++ sortGroups (detectDedupRequirement
      ((splitByPartition chunks).flatMap groupPotentialDuplicates))) := hsorted
  exact hunfused.foldl_fuseStep

variable [DecidableEq Tags]

def GroupWithDedupFlag.read (g : GroupWithDedupFlag Id Tags Field Value) :
    List (Row Tags Field Value) :=
  if g.needsDedup then deduplicateExec g.group else g.group.flatMap (·.rows)

variable {key : PrimaryKey Tags}

omit [LinearOrder Id] in
theorem mem_read_key_iff {g : GroupWithDedupFlag Id Tags Field Value} :
    key ∈ g.read.map (·.key) ↔ ∃ chunk ∈ g.group, ∃ row ∈ chunk.rows, row.key = key := by
  unfold GroupWithDedupFlag.read
  split
  · exact mem_deduplicateExec_key
  · exact mem_flatMap_rows_key

omit [LinearOrder Id] in
theorem Ready.nodup_read {groups : List (GroupWithDedupFlag Id Tags Field Value)}
    (hready : Ready chunks groups) : ((groups.flatMap (·.read)).map (·.key)).Nodup := by
  rw [map_flatMap, nodup_flatMap]
  constructor
  · intro g hg
    unfold GroupWithDedupFlag.read
    split
    case isTrue => exact nodup_deduplicate _
    case isFalse hflag => exact hready.clean g hg (by simpa using hflag)
  · refine hready.separate.imp ?_
    intro g h hseparate key hkey hkey'
    obtain ⟨chunk, hchunk, row, hrow, rfl⟩ := mem_read_key_iff.mp hkey
    obtain ⟨chunk', hchunk', row', hrow', hsame⟩ := mem_read_key_iff.mp hkey'
    exact hseparate chunk hchunk chunk' hchunk' row hrow row' hrow' hsame.symm

/-- A query over well-formed chunks returns no primary key twice. -/
theorem nodup_splitDedup (hwf : WellFormed chunks) (maxDedupSplit : Nat) :
    ((splitDedup maxDedupSplit chunks).map (·.key)).Nodup := by
  simp only [splitDedup]
  split
  · simp
  · split
    · exact nodup_deduplicate _
    · exact (ready_splitGroups hwf).nodup_read

variable {maxDedupSplit : Nat}

theorem mem_splitDedup_key_iff (hwf : WellFormed chunks) :
    key ∈ (splitDedup maxDedupSplit chunks).map (·.key) ↔
      ∃ chunk ∈ chunks, ∃ row ∈ chunk.rows, row.key = key := by
  have hmem := (ready_splitGroups hwf).mem_iff
  simp only [splitDedup]
  split
  case isTrue hempty =>
    rw [List.isEmpty_iff] at hempty
    constructor
    · intro hkey
      simp at hkey
    · rintro ⟨chunk, hchunk, _⟩
      obtain ⟨g, hg, _⟩ := (hmem chunk).mpr hchunk
      simp [hempty] at hg
  case isFalse =>
    split
    · exact mem_deduplicateExec_key
    · rw [map_flatMap, mem_flatMap]
      constructor
      · rintro ⟨g, hg, hin⟩
        obtain ⟨chunk, hchunk, hrow⟩ := mem_read_key_iff.mp hin
        exact ⟨chunk, (hmem chunk).mp ⟨g, hg, hchunk⟩, hrow⟩
      · rintro ⟨chunk, hchunk, hrow⟩
        obtain ⟨g, hg, hin⟩ := (hmem chunk).mpr hchunk
        exact ⟨g, hg, mem_read_key_iff.mpr ⟨chunk, hin, hrow⟩⟩

theorem splitDedup_of_le (hle : (splitGroups chunks).length ≤ maxDedupSplit) :
    splitDedup maxDedupSplit chunks = (splitGroups chunks).flatMap (·.read) := by
  simp only [splitDedup]
  split
  case isTrue hempty =>
    rw [List.isEmpty_iff] at hempty
    simp [hempty]
  case isFalse =>
    rw [if_neg (not_lt.mpr hle)]
    rfl

section Preservation

omit [LinearOrder Id] [DecidableEq Tags] in
/-- Fusing groups changes nothing that is collected from them group by group. -/
theorem flatMap_foldl_fuseStep {β : Type*} {f : GroupWithDedupFlag Id Tags Field Value → List β}
    (hf : ∀ g h : GroupWithDedupFlag Id Tags Field Value, g.needsDedup = false →
      h.needsDedup = false → f { g with group := g.group ++ h.group } = f g ++ f h)
    (out rest : List (GroupWithDedupFlag Id Tags Field Value))
    (current : Option (GroupWithDedupFlag Id Tags Field Value)) :
    ((rest.foldl fuseStep (out, current)).1 ++
        (rest.foldl fuseStep (out, current)).2.toList).flatMap f =
      (out ++ current.toList ++ rest).flatMap f := by
  induction rest generalizing out current with
  | nil => simp
  | cons group rest ih =>
    rw [foldl_cons]
    cases current with
    | none => simp [fuseStep, ih]
    | some current =>
      simp only [fuseStep]
      split
      case isTrue => simp [ih]
      case isFalse hflags =>
        simp only [Bool.or_eq_true, not_or, Bool.not_eq_true] at hflags
        rw [ih]
        simp [hf current group hflags.1 hflags.2]

omit [DecidableEq Tags] in
theorem flatMap_splitGroups_perm {β : Type*} {f : GroupWithDedupFlag Id Tags Field Value → List β}
    (hf : ∀ g h : GroupWithDedupFlag Id Tags Field Value, g.needsDedup = false →
      h.needsDedup = false → f { g with group := g.group ++ h.group } = f g ++ f h)
    (chunks : Group Id Tags Field Value) :
    ((splitGroups chunks).flatMap f).Perm ((detectDedupRequirement
      ((splitByPartition chunks).flatMap groupPotentialDuplicates)).flatMap f) := by
  have hfused := flatMap_foldl_fuseStep hf [] (sortGroups (detectDedupRequirement
    ((splitByPartition chunks).flatMap groupPotentialDuplicates))) none
  refine (List.Perm.of_eq hfused).trans ?_
  exact (perm_insertionSort _ _).flatMap_right _

omit [DecidableEq Tags] in
theorem flatten_splitByPartition_perm (hnodup : chunks.Nodup) :
    (splitByPartition chunks).flatten.Perm chunks := by
  have hids : ((chunks.map (·.partitionId)).dedup.insertionSort (· ≤ ·)).Nodup :=
    (perm_insertionSort _ _).nodup_iff.mpr (nodup_dedup _)
  have hparts : (splitByPartition chunks).flatten.Nodup := by
    refine nodup_flatten.mpr ⟨?_, ?_⟩
    · intro part hpart
      obtain ⟨partitionId, _, rfl⟩ := mem_map.mp hpart
      exact hnodup.filter _
    · refine List.Pairwise.map _ ?_ hids
      intro partitionId partitionId' hne chunk hchunk hchunk'
      simp only [mem_filter, decide_eq_true_eq] at hchunk hchunk'
      exact hne (hchunk.2.symm.trans hchunk'.2)
  rw [perm_ext_iff_of_nodup hparts hnodup]
  intro chunk
  rw [mem_flatten]
  constructor
  · rintro ⟨part, hpart, hin⟩
    exact subset_of_mem_splitByPartition hpart hin
  · exact mem_splitByPartition_flatten

omit [DecidableEq Tags] in
theorem flatMap_group_splitGroups_perm (hnodup : chunks.Nodup)
    (hranges : ∀ chunk ∈ chunks, ∀ range ∈ chunk.timestampMinMax, range.1 ≤ range.2) :
    ((splitGroups chunks).flatMap (·.group)).Perm chunks := by
  refine (flatMap_splitGroups_perm (fun _ _ _ _ => rfl) chunks).trans ?_
  have hgroups : (detectDedupRequirement ((splitByPartition chunks).flatMap
      groupPotentialDuplicates)).flatMap (·.group) =
        (splitByPartition chunks).flatMap fun part => (groupPotentialDuplicates part).flatten := by
    simp [detectDedupRequirement, flatMap_map, flatMap_assoc]
  rw [hgroups]
  refine List.Perm.trans ?_ (flatten_splitByPartition_perm hnodup)
  rw [← flatMap_id]
  refine List.Perm.flatMap_left _ ?_
  intro part hpart
  exact flatten_groupPotentialDuplicates_perm fun chunk hchunk =>
    hranges chunk (subset_of_mem_splitByPartition hpart hchunk)

instance : Std.Total fun a b : QueryChunk Id Tags Field Value => a.order ≤ b.order :=
  ⟨fun a b => le_total a.order b.order⟩

instance : IsTrans (QueryChunk Id Tags Field Value) fun a b => a.order ≤ b.order :=
  ⟨fun _ _ _ => le_trans⟩

/-- What a row holds for a field of a primary key. -/
def keyedField (key : PrimaryKey Tags) (field : Field) (row : Row Tags Field Value) :
    Option Value :=
  if row.key = key then row.fields field else none

def rowsInOrder (chunks : Group Id Tags Field Value) : List (Row Tags Field Value) :=
  (chunks.insertionSort fun a b => a.order ≤ b.order).flatMap (·.rows)

variable {key : PrimaryKey Tags} {field : Field} {row : Row Tags Field Value}

omit [LinearOrder Id] in
theorem fields_of_mem_deduplicateExec (hrow : row ∈ deduplicateExec group) :
    row.fields field = lastValue (keyedField row.key field) (rowsInOrder group) := by
  obtain ⟨key, _, rfl⟩ := mem_map.mp hrow
  rfl

/-- Where the key occurs once, its row is the last. -/
theorem lastValue_keyedField_of_nodup {rows : List (Row Tags Field Value)} (hrow : row ∈ rows)
    (hnodup : (rows.map (·.key)).Nodup) :
    lastValue (keyedField row.key field) rows = row.fields field := by
  have hothers : rows.filterMap (keyedField row.key field) = (row.fields field).toList := by
    induction rows with
    | nil => simp at hrow
    | cons first rest ih =>
      rw [map_cons, nodup_cons] at hnodup
      rcases mem_cons.mp hrow with rfl | hrest
      · have hnone : rest.filterMap (keyedField row.key field) = [] := by
          rw [filterMap_eq_nil_iff]
          intro other hother
          have hne : other.key ≠ row.key := fun hkey =>
            hnodup.1 (hkey ▸ mem_map_of_mem hother)
          rw [keyedField, if_neg hne]
        cases hfield : row.fields field <;> simp [keyedField, hfield, hnone]
      · have hne : first.key ≠ row.key := fun hkey =>
          hnodup.1 (hkey ▸ mem_map_of_mem hrest)
        rw [filterMap_cons, keyedField, if_neg hne]
        exact ih hrest hnodup.2
  rw [lastValue, hothers]
  cases row.fields field <;> rfl

def HasKey (key : PrimaryKey Tags) (chunk : QueryChunk Id Tags Field Value) : Prop :=
  ∃ row ∈ chunk.rows, row.key = key

instance (key : PrimaryKey Tags) (chunk : QueryChunk Id Tags Field Value) :
    Decidable (HasKey key chunk) :=
  inferInstanceAs (Decidable (∃ row ∈ chunk.rows, row.key = key))

omit [LinearOrder Id] in
theorem lastValue_filter_hasKey (chunks : Group Id Tags Field Value) :
    lastValue (keyedField key field) (chunks.flatMap (·.rows)) =
      lastValue (keyedField key field)
        ((chunks.filter fun c => HasKey key c).flatMap (·.rows)) := by
  have hsame : (chunks.flatMap (·.rows)).filterMap (keyedField key field) =
      ((chunks.filter fun c => HasKey key c).flatMap (·.rows)).filterMap
        (keyedField key field) := by
    induction chunks with
    | nil => rfl
    | cons chunk rest ih =>
      rw [flatMap_cons, filterMap_append, ih, filter_cons]
      split
      case isTrue => rw [flatMap_cons, filterMap_append]
      case isFalse hnot =>
        have hnone : chunk.rows.filterMap (keyedField key field) = [] := by
          rw [filterMap_eq_nil_iff]
          intro row hrow
          have hne : row.key ≠ key := fun hkey => hnot (by simpa using ⟨row, hrow, hkey⟩)
          rw [keyedField, if_neg hne]
        rw [hnone, nil_append]
  rw [lastValue, lastValue, hsame]

omit [LinearOrder Id] in
/-- A group that holds all chunks with a key, in chunk orders that tell them apart, gives the key
the values that all chunks give it. -/
theorem lastValue_rowsInOrder_of_hasKey (hnodup : chunks.Nodup)
    (horders : ∀ chunk ∈ chunks, ∀ other ∈ chunks, chunk.order = other.order → chunk = other)
    (hgroup : group.Nodup) (hsubset : group ⊆ chunks)
    (hall : ∀ chunk ∈ chunks, HasKey key chunk → chunk ∈ group) :
    lastValue (keyedField key field) (rowsInOrder group) =
      lastValue (keyedField key field) (rowsInOrder chunks) := by
  rw [rowsInOrder, rowsInOrder, lastValue_filter_hasKey, lastValue_filter_hasKey
    (chunks.insertionSort fun a b => a.order ≤ b.order)]
  congr 2
  have hnodups : ∀ {l : Group Id Tags Field Value}, l.Nodup →
      ((l.insertionSort fun a b => a.order ≤ b.order).filter fun c => HasKey key c).Nodup :=
    fun hl => ((perm_insertionSort _ _).nodup_iff.mpr hl).filter _
  have hmem : ∀ {l : Group Id Tags Field Value} {c},
      c ∈ ((l.insertionSort fun a b => a.order ≤ b.order).filter fun c => HasKey key c) ↔
        c ∈ l ∧ HasKey key c := by
    intro l c
    simp [mem_insertionSort]
  refine List.Perm.eq_of_pairwise ?_ ((pairwise_insertionSort _ _).filter _)
    ((pairwise_insertionSort _ _).filter _) ?_
  · intro a b ha hb hab hba
    exact horders a (hsubset (hmem.mp ha).1) b (hmem.mp hb).1 (le_antisymm hab hba)
  · rw [perm_ext_iff_of_nodup (hnodups hgroup) (hnodups hnodup)]
    intro c
    rw [hmem, hmem]
    exact ⟨fun hc => ⟨hsubset hc.1, hc.2⟩, fun hc => ⟨hall c hc.1 hc.2, hc.2⟩⟩

/-- Every row the rule reads has the values that one de-duplication over all chunks gives it. -/
theorem fields_of_mem_splitDedup (hwf : WellFormed chunks)
    (horders : ∀ chunk ∈ chunks, ∀ other ∈ chunks, chunk.order = other.order → chunk = other)
    {maxDedupSplit : Nat} (hrow : row ∈ splitDedup maxDedupSplit chunks) :
    row.fields field = lastValue (keyedField row.key field) (rowsInOrder chunks) := by
  by_cases hwide : maxDedupSplit < (splitGroups chunks).length
  · simp only [splitDedup] at hrow
    split at hrow
    · simp at hrow
    · exact fields_of_mem_deduplicateExec hrow
  · rw [splitDedup_of_le (not_lt.mp hwide)] at hrow
    obtain ⟨g, hg, hread⟩ := mem_flatMap.mp hrow
    have hready := ready_splitGroups hwf
    have hperm := flatMap_group_splitGroups_perm hwf.nodup fun chunk hchunk range hrange =>
      (hwf.ranges chunk hchunk range hrange).1
    have hgroup : g.group.Nodup :=
      (nodup_flatMap.mp (hperm.nodup_iff.mpr hwf.nodup)).1 g hg
    have hsubset : g.group ⊆ chunks := fun chunk hchunk => (hready.mem_iff chunk).mp ⟨g, hg, hchunk⟩
    have hkey :=
        mem_read_key_iff.mp (mem_map_of_mem (f := fun r : Row Tags Field Value => r.key) hread)
    have hall : ∀ chunk ∈ chunks, HasKey row.key chunk → chunk ∈ g.group := by
      intro chunk hchunk hhas
      obtain ⟨g', hg', hin⟩ := (hready.mem_iff chunk).mpr hchunk
      by_cases hsame : g' = g
      · exact hsame ▸ hin
      · exfalso
        obtain ⟨chunk', hchunk', row', hrow', hkey'⟩ := hkey
        obtain ⟨row'', hrow'', hkey''⟩ := hhas
        have hsymm : Std.Symm fun g h : GroupWithDedupFlag Id Tags Field Value =>
            GroupsSeparate g.group h.group := ⟨fun _ _ => GroupsSeparate.symm⟩
        exact hready.separate.forall hg' hg hsame chunk hin chunk' hchunk' row'' hrow'' row' hrow'
          (hkey''.trans hkey'.symm)
    rw [← lastValue_rowsInOrder_of_hasKey hwf.nodup horders hgroup hsubset hall]
    unfold GroupWithDedupFlag.read at hread
    split at hread
    case isTrue => exact fields_of_mem_deduplicateExec hread
    case isFalse hflag =>
      have hclean := hready.clean g hg (by simpa using hflag)
      have hsorted : (rowsInOrder g.group).Perm (g.group.flatMap (·.rows)) :=
        (perm_insertionSort _ _).flatMap_right _
      exact (lastValue_keyedField_of_nodup (hsorted.mem_iff.mpr hread)
        ((hsorted.map _).nodup_iff.mpr hclean)).symm

omit [LinearOrder Id] [DecidableEq Tags] in
theorem Row.eq_of_key_of_fields {other : Row Tags Field Value} (hkey : row.key = other.key)
    (hfields : ∀ field, row.fields field = other.fields field) : row = other := by
  cases row
  cases other
  simp only [Row.mk.injEq]
  exact ⟨hkey, funext hfields⟩

/-- Splitting the de-duplication keeps its rows. -/
theorem splitDedup_perm_deduplicateExec (hwf : WellFormed chunks)
    (horders : ∀ chunk ∈ chunks, ∀ other ∈ chunks, chunk.order = other.order → chunk = other)
    (maxDedupSplit : Nat) : (splitDedup maxDedupSplit chunks).Perm (deduplicateExec chunks) := by
  have hsame : ∀ row ∈ splitDedup maxDedupSplit chunks, ∀ other ∈ deduplicateExec chunks,
      row.key = other.key → row = other := by
    intro row hrow other hother hkey
    refine Row.eq_of_key_of_fields hkey fun field => ?_
    rw [fields_of_mem_splitDedup hwf horders hrow, fields_of_mem_deduplicateExec hother, hkey]
  have hnodup : (deduplicateExec chunks).Nodup := .of_map _ (nodup_deduplicate _)
  rw [perm_ext_iff_of_nodup (.of_map _ (nodup_splitDedup hwf maxDedupSplit)) hnodup]
  intro row
  constructor
  · intro hrow
    have hkey := (mem_splitDedup_key_iff hwf).mp (mem_map_of_mem hrow)
    obtain ⟨other, hother, hkey⟩ := mem_map.mp (mem_deduplicateExec_key.mpr hkey)
    rwa [hsame row hrow other hother hkey.symm]
  · intro hrow
    have hkey := mem_deduplicateExec_key.mp (mem_map_of_mem hrow)
    obtain ⟨other, hother, hkey⟩ :=
      mem_map.mp ((mem_splitDedup_key_iff hwf).mpr hkey)
    rwa [← hsame other hother row hrow hkey]

/-- Two partitions; in the first, two chunks overlap and a third is free of duplicates. -/
def fourChunks : Group Nat Nat Unit Unit :=
  let row (tags : Nat) (time : Int) : Row Nat Unit Unit := ⟨⟨tags, time⟩, some⟩
  [⟨0, 0, 0, some (0, 5), true, [row 0 0, row 0 5]⟩, ⟨0, 1, 1, some (5, 8), true, [row 0 5]⟩,
    ⟨0, 2, 2, some (20, 20), false, [row 0 20]⟩, ⟨1, 3, 3, some (0, 0), true, [row 1 0]⟩]

theorem splitDedup_perm_two_partitions :
    (splitGroups fourChunks).map (·.needsDedup) = [true, true, false] ∧
      (splitDedup 4 fourChunks).Perm (deduplicateExec fourChunks) := by
  refine ⟨by decide, splitDedup_perm_deduplicateExec ⟨?_, ?_, ?_, ?_⟩ ?_ 4⟩ <;>
    simp [fourChunks, Separate]

end Preservation

section Sharp

omit [LinearOrder Id] [DecidableEq Tags] in
theorem exists_flagged (hgroup : group ∈ groups) :
    ∃ flagged ∈ detectDedupRequirement groups, flagged.group = group :=
  ⟨_, mem_map_of_mem hgroup, rfl⟩

omit [DecidableEq Tags] in
theorem exists_group_of_mem
    (hranges : ∀ chunk ∈ chunks, ∀ range ∈ chunk.timestampMinMax, range.1 ≤ range.2)
    {chunk : QueryChunk Id Tags Field Value} (hchunk : chunk ∈ chunks) :
    ∃ group ∈ (splitByPartition chunks).flatMap groupPotentialDuplicates, chunk ∈ group ∧
      ∀ other ∈ group, other.partitionId = chunk.partitionId := by
  obtain ⟨part, hpart, hin⟩ := mem_splitByPartition_flatten hchunk
  have hperm := flatten_groupPotentialDuplicates_perm fun c hc =>
    hranges c (subset_of_mem_splitByPartition hpart hc)
  obtain ⟨group, hgroup, hing⟩ := mem_flatten.mp (hperm.mem_iff.mpr hin)
  refine ⟨group, mem_flatMap.mpr ⟨part, hpart, hgroup⟩, hing, fun other hother => ?_⟩
  have hsame : ∀ c ∈ part, ∀ d ∈ part, c.partitionId = d.partitionId := by
    obtain ⟨partitionId, _, rfl⟩ := mem_map.mp hpart
    intro c hc d hd
    simp only [mem_filter, decide_eq_true_eq] at hc hd
    rw [hc.2, hd.2]
  exact hsame other (hperm.subset (mem_flatten.mpr ⟨group, hgroup, hother⟩)) chunk hin

/-- A query of chunks that are free of duplicates where they say so returns no primary key twice
exactly if it is not split, or chunks that share a primary key have one partition id. -/
theorem nodup_splitDedup_iff (hnodup : chunks.Nodup)
    (hranges : ∀ chunk ∈ chunks, ∀ range ∈ chunk.timestampMinMax, range.1 ≤ range.2 ∧
      ∀ row ∈ chunk.rows, range.1 ≤ row.key.time ∧ row.key.time ≤ range.2)
    (hunique : ∀ chunk ∈ chunks, chunk.mayContainPkDuplicates = false →
      (chunk.rows.map (·.key)).Nodup) (maxDedupSplit : Nat) :
    ((splitDedup maxDedupSplit chunks).map (·.key)).Nodup ↔
      maxDedupSplit < (splitGroups chunks).length ∨
        ∀ chunk ∈ chunks, ∀ other ∈ chunks, ¬Separate chunk other →
          chunk.partitionId = other.partitionId := by
  constructor
  · intro hkeys
    by_contra hcontra
    push Not at hcontra
    obtain ⟨hsplit, chunk, hchunk, other, hother, hshared, hdiffer⟩ := hcontra
    have hrange : ∀ chunk ∈ chunks, ∀ range ∈ chunk.timestampMinMax, range.1 ≤ range.2 :=
      fun c hc range hrange => (hranges c hc range hrange).1
    obtain ⟨group, hgroup, hin, hsame⟩ := exists_group_of_mem hrange hchunk
    obtain ⟨group', hgroup', hin', hsame'⟩ := exists_group_of_mem hrange hother
    obtain ⟨key, hkey, hkey'⟩ : ∃ key, key ∈ chunk.rows.map (·.key) ∧
        key ∈ other.rows.map (·.key) := by
      simp only [Separate, not_forall, not_not] at hshared
      obtain ⟨row, hrow, row', hrow', hsame⟩ := hshared
      exact ⟨row.key, mem_map_of_mem hrow, hsame ▸ mem_map_of_mem hrow'⟩
    have hperm := flatMap_splitGroups_perm (f := GroupWithDedupFlag.read)
      (fun g h hg hh => by simp [GroupWithDedupFlag.read, hg, hh]) chunks
    rw [splitDedup_of_le hsplit, (hperm.map _).nodup_iff, map_flatMap, nodup_flatMap] at hkeys
    obtain ⟨flagged, hflagged, rfl⟩ := exists_flagged hgroup
    obtain ⟨flagged', hflagged', rfl⟩ := exists_flagged hgroup'
    have hne : flagged ≠ flagged' := by
      rintro rfl
      exact hdiffer (hsame' chunk hin)
    have hread : ∀ {flagged : GroupWithDedupFlag Id Tags Field Value}
        {chunk : QueryChunk Id Tags Field Value}, chunk ∈ flagged.group →
        key ∈ chunk.rows.map (·.key) → key ∈ flagged.read.map (·.key) := by
      intro flagged chunk hchunk hkey
      obtain ⟨row, hrow, rfl⟩ := mem_map.mp hkey
      exact mem_read_key_iff.mpr ⟨chunk, hchunk, row, hrow, rfl⟩
    have hsymm : Std.Symm (Function.onFun List.Disjoint
        fun g : GroupWithDedupFlag Id Tags Field Value => g.read.map (·.key)) :=
      ⟨fun _ _ hdisjoint => hdisjoint.symm⟩
    exact hkeys.2.forall hflagged hflagged' hne (hread hin hkey) (hread hin' hkey')
  · rintro (hwide | hpartitions)
    · simp only [splitDedup]
      split
      · simp
      · exact nodup_deduplicate _
    · exact nodup_splitDedup ⟨hnodup, hranges, hunique, hpartitions⟩ maxDedupSplit

end Sharp

end RefluxDb.Query
