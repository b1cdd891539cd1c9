import RefluxDb.Library.Pieces
import RefluxDb.Write.Compaction

/-! Generations read back from object paths.

`get_file_generation` searches a path for its first `/gen`, `parse_gen1_path` takes a path apart
at its first and last slash. Both see the path after the object store has cut it at slashes,
dropped empty parts and escaped the rest. A writer's node id and a compactor's host, database name
and table name are arbitrary text in the path; the round trip holds when none of them leaves a
directory that begins with `gen` in front of the one the compactor adds. -/

namespace RefluxDb.Write

open List Option RefluxDb.Library Text

/-- The object store's escaping of the characters of one path part. -/
structure PathEncoding where
  encodeChar : Char → List Char
  plain : ∀ c, c.isAlphanum ∨ c ∈ ['-', '.', '+'] → encodeChar c = [c]
  escaped : ∀ c, encodeChar c = [c] ∨ ∃ high low rest, encodeChar c = '%' :: high :: low :: rest
  no_slash : ∀ c, c ≠ '/' → '/' ∉ encodeChar c

namespace PathEncoding

variable (encoding : PathEncoding)

def encodePart (part : List Char) : List Char :=
  if part = ['.'] then "%2E".toList
  else if part = ['.', '.'] then "%2E%2E".toList
  else part.flatMap encoding.encodeChar

def parts (text : String) : List (List Char) :=
  (Text.pieces '/' text.toList).map encoding.encodePart

/-- `ObjPath::from`. -/
def objPath (text : String) : String :=
  .ofList (Text.joined '/' (encoding.parts text))

end PathEncoding

/-- A UTC time as far as a path shows it. -/
structure CivilTime where
  year : Nat
  month : Nat
  day : Nat
  hour : Nat
  minute : Nat
deriving DecidableEq

namespace CivilTime

variable (time : CivilTime)

def date : List Char :=
  Text.padded 4 time.year ++ '-' :: Text.padded 2 time.month ++ '-' :: Text.padded 2 time.day

def clock : List Char :=
  Text.padded 2 time.hour ++ '-' :: Text.padded 2 time.minute

/-- `%Y-%m-%d/%H-%M`. -/
def format : String :=
  .ofList (time.date ++ '/' :: time.clock)

end CivilTime

/-- The lowest `width` hexadecimal digits of a number. -/
def hexGroup (width n : Nat) : List Char :=
  (List.range width).reverse.map fun i => Nat.digitChar (n / 16 ^ i % 16)

def hyphenated (uuid : BitVec 128) : String :=
  .ofList (hexGroup 8 (uuid.toNat / 2 ^ 96) ++ '-' :: (hexGroup 4 (uuid.toNat / 2 ^ 80) ++
    '-' :: (hexGroup 4 (uuid.toNat / 2 ^ 64) ++ '-' :: (hexGroup 4 (uuid.toNat / 2 ^ 48) ++
    '-' :: hexGroup 12 uuid.toNat))))

/-- What a writer names a gen1 file after. -/
structure WriterFile where
  nodeId : String
  noSlash : '/' ∉ nodeId.toList
  dbId : Nat
  tableId : Nat
  chunkTime : CivilTime
  walFileSequenceNumber : Nat
  sequence_lt : walFileSequenceNumber < 2 ^ 64
  chunkOrdinal : Nat

/-- What a compactor names an output after. -/
structure CompactedFile where
  host : String
  databaseName : String
  databaseId : Nat
  tableName : String
  tableId : Nat
  generation : Nat
  generation_range : 1 ≤ generation ∧ generation ≤ 5
  chunkTime : CivilTime
  compactionId : BitVec 128

inductive FileOrigin where
  | writer (file : WriterFile)
  | compactor (file : CompactedFile)

/-- The text `ParquetFilePath` formats. -/
def WriterFile.rawPath (file : WriterFile) : String :=
  parquetFilePath file.nodeId file.dbId file.tableId file.chunkTime.format
    file.walFileSequenceNumber file.chunkOrdinal

/-- The text `compacted_file_path` formats. -/
def CompactedFile.rawPath (file : CompactedFile) : String :=
  compactedFilePath file.host file.databaseName file.databaseId file.tableName file.tableId
    file.generation file.chunkTime.format (hyphenated file.compactionId)

/-- The part of an output's path that holds the names. -/
def CompactedFile.directories (file : CompactedFile) : List Char :=
  file.host.toList ++ '/' :: ("dbs".toList ++ '/' :: ((file.databaseName ++ "-" ++
    toString file.databaseId).toList ++ '/' :: (file.tableName ++ "-" ++
    toString file.tableId).toList))

namespace FileOrigin

def path (encoding : PathEncoding) : FileOrigin → String
  | writer file => encoding.objPath file.rawPath
  | compactor file => encoding.objPath file.rawPath

def generation : FileOrigin → Nat
  | writer _ => 1
  | compactor file => file.generation

/-- The node and WAL number of a gen1 file. -/
def gen1Name : FileOrigin → Option (String × Nat)
  | writer file => some (file.nodeId, file.walFileSequenceNumber)
  | compactor _ => none

/-- A node id the object store leaves as it is, or names without a misleading directory. -/
def Unmistakable (encoding : PathEncoding) : FileOrigin → Prop
  | writer file => file.nodeId ≠ "" ∧ file.nodeId ≠ "." ∧ file.nodeId ≠ ".." ∧
      ∀ c ∈ file.nodeId.toList, encoding.encodeChar c = [c]
  | compactor file =>
    ∀ directory ∈ (Text.pieces '/' file.directories).tail.find? "gen".toList.isPrefixOf,
      Text.parseU8 (directory.drop 3) = some file.generation

end FileOrigin

/-- A file at the path its origin gives it. -/
structure PlacedFile (encoding : PathEncoding) where
  origin : FileOrigin
  file : ParquetFile
  path_eq : file.path = origin.path encoding

def PlacedFile.RoundTrips {encoding : PathEncoding} (placed : PlacedFile encoding) : Prop :=
  getFileGeneration placed.file = some placed.origin.generation ∧
    parseGen1Path placed.file.path = placed.origin.gen1Name

/-- The grouping in `identify_compaction_jobs`: one unreadable path fails the whole cycle. -/
def filesByGeneration (files : List ParquetFile) : Option (Nat → List ParquetFile) :=
  files.foldlM (fun groups file => do
    let generation ← getFileGeneration file
    pure (Function.update groups generation (groups generation ++ [file]))) fun _ => []

namespace PathEncoding

variable {encoding : PathEncoding} {part mark : List Char}

/-- Characters the object store never escapes. -/
def IsPlain (c : Char) : Prop :=
  c.isAlphanum ∨ c ∈ ['-', '.', '+']

variable {c : Char}

theorem isPlain_of_isDigit (hdigit : c.isDigit = true) : IsPlain c := by
  left
  simp [Char.isAlphanum, hdigit]

theorem flatMap_encodeChar (hpart : ∀ c ∈ part, encoding.encodeChar c = [c]) :
    part.flatMap encoding.encodeChar = part := by
  induction part with
  | nil => rfl
  | cons c part ih =>
    obtain ⟨hc, hrest⟩ := forall_mem_cons.mp hpart
    rw [flatMap_cons, hc, ih hrest, singleton_append]

/-- A part of plain characters with a character other than a dot stays as it is. -/
theorem encodePart_of_plain (hpart : ∀ c ∈ part, IsPlain c) (hc : c ∈ part)
    (hdot : c ≠ '.') : encoding.encodePart part = part := by
  have hsingle : part ≠ ['.'] := by
    rintro rfl
    exact hdot (mem_singleton.mp hc)
  have hdouble : part ≠ ['.', '.'] := by
    rintro rfl
    simp [hdot] at hc
  rw [encodePart, if_neg hsingle, if_neg hdouble]
  exact flatMap_encodeChar fun c hc => encoding.plain c (hpart c hc)

theorem slash_notMem_encodePart (hpart : '/' ∉ part) : '/' ∉ encoding.encodePart part := by
  unfold encodePart
  split_ifs
  · decide
  · decide
  · intro hmem
    obtain ⟨c, hc, hslash⟩ := mem_flatMap.mp hmem
    refine encoding.no_slash c ?_ hslash
    rintro rfl
    exact hpart hc

theorem encodeChar_ne_nil (c : Char) : encoding.encodeChar c ≠ [] := by
  rcases encoding.escaped c with hplain | ⟨high, low, rest, hescaped⟩
  · simp [hplain]
  · simp [hescaped]

theorem encodePart_ne_nil (hpart : part ≠ []) : encoding.encodePart part ≠ [] := by
  unfold encodePart
  split_ifs
  · decide
  · decide
  · obtain ⟨c, rest, rfl⟩ := exists_cons_of_ne_nil hpart
    simp [encodeChar_ne_nil]

/-- Escaping neither makes nor hides a plain text at the front of a part. -/
theorem prefix_flatMap_encodeChar (hmark : ∀ c ∈ mark, IsPlain c) (hpercent : '%' ∉ mark) :
    mark <+: part.flatMap encoding.encodeChar ↔ mark <+: part := by
  induction mark generalizing part with
  | nil => simp
  | cons m mark ih =>
    obtain ⟨hm, hrest⟩ := forall_mem_cons.mp hmark
    simp only [mem_cons, not_or] at hpercent
    cases part with
    | nil => simp
    | cons c part =>
      rcases encoding.escaped c with hplain | ⟨high, low, rest, hescaped⟩
      · rw [flatMap_cons, hplain, singleton_append, cons_prefix_cons,
          cons_prefix_cons, ih hrest hpercent.2]
      · -- An escaped character is not plain, so it is no character of the mark.
        have hne : m ≠ c := by
          rintro rfl
          rw [encoding.plain m hm] at hescaped
          simp at hescaped
        rw [flatMap_cons, hescaped, cons_append,
          cons_prefix_cons]
        simp [Ne.symm hpercent.1, hne]

theorem parseU8_flatMap_encodeChar :
    Text.parseU8 (part.flatMap encoding.encodeChar) = Text.parseU8 part := by
  by_cases hpart : ∀ c ∈ part, encoding.encodeChar c = [c]
  · rw [flatMap_encodeChar hpart]
  · -- An escaped character is neither a digit nor a plus sign, and neither is its escape.
    push Not at hpart
    obtain ⟨c, hc, hother⟩ := hpart
    obtain ⟨high, low, rest, hescaped⟩ := (encoding.escaped c).resolve_left hother
    have hdigit : c.isDigit = false := by
      by_contra hdigit
      exact hother (encoding.plain c (isPlain_of_isDigit (Bool.eq_true_of_not_eq_false hdigit)))
    have hplus : c ≠ '+' := by
      rintro rfl
      exact hother (encoding.plain '+' (.inr (by decide)))
    have hpercent : '%' ∈ part.flatMap encoding.encodeChar :=
      mem_flatMap.mpr ⟨c, hc, by simp [hescaped]⟩
    rw [parseU8_eq_none_of_mem hc hdigit hplus,
      parseU8_eq_none_of_mem hpercent (by decide) (by decide)]

theorem isPlain_of_mem_gen (hc : c ∈ "gen".toList) : IsPlain c := by
  have hall : "gen".toList.all Char.isAlphanum = true := by decide
  exact .inl (all_eq_true.mp hall c hc)

theorem gen_prefix_encodePart :
    "gen".toList <+: encoding.encodePart part ↔ "gen".toList <+: part := by
  unfold encodePart
  split_ifs with hsingle hdouble
  · subst hsingle
    decide
  · subst hdouble
    decide
  · exact prefix_flatMap_encodeChar (fun c => isPlain_of_mem_gen) (by decide)

theorem isPrefixOf_gen_encodePart :
    "gen".toList.isPrefixOf (encoding.encodePart part) = "gen".toList.isPrefixOf part := by
  rw [Bool.eq_iff_iff, isPrefixOf_iff_prefix, isPrefixOf_iff_prefix,
    gen_prefix_encodePart]

theorem parseU8_drop_encodePart (hgen : "gen".toList <+: part) :
    Text.parseU8 ((encoding.encodePart part).drop 3) = Text.parseU8 (part.drop 3) := by
  obtain ⟨rest, rfl⟩ := hgen
  have hencoded : encoding.encodePart ("gen".toList ++ rest) =
      "gen".toList ++ rest.flatMap encoding.encodeChar := by
    rw [encodePart, if_neg (by simp), if_neg (by simp), flatMap_append, flatMap_encodeChar]
    exact fun c hc => encoding.plain c (isPlain_of_mem_gen hc)
  rw [hencoded]
  exact parseU8_flatMap_encodeChar

theorem length_le_flatMap_encodeChar :
    part.length ≤ (part.flatMap encoding.encodeChar).length := by
  induction part with
  | nil => exact Nat.zero_le _
  | cons c part ih =>
    have hc : 0 < (encoding.encodeChar c).length :=
      length_pos_of_ne_nil (encodeChar_ne_nil c)
    rw [flatMap_cons, length_append, length_cons]
    omega

theorem encodeChar_of_flatMap_eq_self (hpart : part.flatMap encoding.encodeChar = part) :
    ∀ c ∈ part, encoding.encodeChar c = [c] := by
  induction part with
  | nil => simp
  | cons c part ih =>
    rw [flatMap_cons] at hpart
    rcases encoding.escaped c with hplain | ⟨high, low, rest, hescaped⟩
    · rw [hplain] at hpart
      exact forall_mem_cons.mpr ⟨hplain, ih (List.cons.inj hpart).2⟩
    · -- The escape is longer than the character, and no other character gets shorter.
      have hlength := congrArg List.length hpart
      have hle : part.length ≤ (part.flatMap encoding.encodeChar).length :=
        length_le_flatMap_encodeChar
      simp only [hescaped, length_append, length_cons] at hlength
      omega

/-- A part is left as it is when nothing in it is escaped. -/
theorem encodePart_eq_self_iff :
    encoding.encodePart part = part ↔
      part ≠ ['.'] ∧ part ≠ ['.', '.'] ∧ ∀ c ∈ part, encoding.encodeChar c = [c] := by
  unfold encodePart
  split_ifs with hsingle hdouble
  · subst hsingle
    simp
  · subst hdouble
    simp
  · simp only [ne_eq, hsingle, hdouble, not_false_eq_true, true_and]
    exact ⟨encodeChar_of_flatMap_eq_self, flatMap_encodeChar⟩

end PathEncoding

section Reading

variable {file : ParquetFile} {first directory next : List Char} {front later : List (List Char)}

/-- The first directory after the first part that begins with `gen` decides. -/
theorem getFileGeneration_of_find?
    (hpath : file.path.toList = Text.joined '/' (first :: (front ++ next :: later)))
    (hslash : ∀ part ∈ first :: (front ++ next :: later), '/' ∉ part)
    (hfind : front.find? "gen".toList.isPrefixOf = some directory) :
    getFileGeneration file =
      (Text.parseU8 (directory.drop 3)).filter fun level => 1 ≤ level && level ≤ 5 := by
  obtain ⟨hgen, before, after, rfl, hbefore⟩ := find?_eq_some_iff_append.mp hfind
  obtain ⟨hfirst, hparts⟩ := forall_mem_cons.mp hslash
  rw [List.isPrefixOf_iff_prefix] at hgen
  have hpassed : ∀ part ∈ before, '/' ∉ part ∧ ¬"gen".toList <+: part := by
    intro part hpart
    refine ⟨hparts part (by simp [hpart]), fun hgen => ?_⟩
    have hnot := hbefore part hpart
    rw [List.isPrefixOf_iff_prefix.mpr hgen] at hnot
    exact Bool.noConfusion hnot
  have hafter : Text.afterFirst "/gen".toList file.path.toList =
      some (directory.drop 3 ++ (after ++ next :: later).flatMap ('/' :: ·)) := by
    rw [hpath, append_assoc, cons_append]
    exact (afterFirst_append hfirst).trans
      ((afterFirst_flatMap_append (by decide) hpassed).trans
        (afterFirst_flatMap_cons hgen))
  -- The part after the first one that decides gives the closing slash.
  obtain ⟨text, htext⟩ : ∃ text, (after ++ next :: later).flatMap ('/' :: ·) = '/' :: text := by
    cases after <;> exact ⟨_, rfl⟩
  have hpiece : '/' ∉ directory.drop 3 := fun hmem =>
    hparts directory (by simp) (mem_of_mem_drop hmem)
  simp only [getFileGeneration, hafter, htext, splitOnce_append hpiece]

/-- A path without such a directory is of gen1. -/
theorem getFileGeneration_of_noGen (hpath : file.path.toList = Text.joined '/' (first :: later))
    (hslash : ∀ part ∈ first :: later, '/' ∉ part)
    (hother : ∀ part ∈ later, ¬"gen".toList <+: part) :
    getFileGeneration file = some 1 := by
  obtain ⟨hfirst, hparts⟩ := forall_mem_cons.mp hslash
  have hafter : Text.afterFirst "/gen".toList file.path.toList = none := by
    rw [hpath]
    have hnone : Text.afterFirst ('/' :: "gen".toList) ((later ++ []).flatMap ('/' :: ·)) = none :=
      afterFirst_flatMap_append (by decide) fun part hpart =>
        ⟨hparts part hpart, hother part hpart⟩
    rw [append_nil] at hnone
    exact (afterFirst_append hfirst).trans hnone
  simp only [getFileGeneration, hafter]

/-- The first part is the node, the last one without its extension the WAL number. -/
theorem parseGen1Path_joined {stem : List Char} (hnonempty : first ≠ []) (hfront : front ≠ [])
    (hslash : ∀ part ∈ first :: (front ++ [stem ++ ".parquet".toList]), '/' ∉ part) :
    parseGen1Path (.ofList (Text.joined '/' (first :: (front ++ [stem ++ ".parquet".toList])))) =
      (parseGen1Stem stem).map (String.ofList first, ·) := by
  have hstem : '/' ∉ stem := fun hmem =>
    hslash (stem ++ ".parquet".toList) (by simp) (mem_append_left _ hmem)
  obtain ⟨next, later, rfl⟩ := exists_cons_of_ne_nil hfront
  have hread : parseGen1Path (.ofList (first ++ '/' :: (next ++ later.flatMap ('/' :: ·)) ++
      '/' :: stem ++ ".parquet".toList)) = (parseGen1Stem stem).map (String.ofList first, ·) :=
    parseGen1Path_ofList (hslash first (by simp)) hnonempty hstem
  rw [← hread]
  simp [Text.joined, flatMap_append]

end Reading

/-- A path part that the object store leaves as it is and that is no generation. -/
structure FixedPart (part : List Char) : Prop where
  first : ∃ c ∈ part.head?, c ≠ 'g' ∧ c ≠ '.'
  plain : ∀ c ∈ part, PathEncoding.IsPlain c

namespace FixedPart

open PathEncoding

variable {part rest : List Char} {encoding : PathEncoding}

theorem slash_notMem_of_plain (hplain : ∀ c ∈ part, IsPlain c) : '/' ∉ part := by
  intro hmem
  have hslash : ¬IsPlain '/' := by simp [IsPlain]
  exact hslash (hplain '/' hmem)

section

variable (hpart : FixedPart part)
include hpart

theorem slash_notMem : '/' ∉ part :=
  slash_notMem_of_plain hpart.plain

theorem ne_nil : part ≠ [] := by
  obtain ⟨c, hc, -⟩ := hpart.first
  rintro rfl
  simp at hc

theorem pieces_eq : Text.pieces '/' part = [part] :=
  pieces_of_notMem hpart.slash_notMem hpart.ne_nil

theorem encodePart_eq : encoding.encodePart part = part := by
  obtain ⟨c, hc, -, hdot⟩ := hpart.first
  exact encodePart_of_plain hpart.plain (mem_of_mem_head? hc) hdot

theorem not_begins_gen : ¬"gen".toList <+: part := by
  obtain ⟨c, hc, hg, -⟩ := hpart.first
  rintro ⟨rest, rfl⟩
  simp only [String.reduceToList, cons_append, head?_cons, mem_some_iff] at hc
  exact hg hc.symm

end

/-- A numeral, with plain text after it. -/
theorem of_digits (hdigits : Text.allDigits part = true) (hrest : ∀ c ∈ rest, IsPlain c) :
    FixedPart (part ++ rest) := by
  simp only [Text.allDigits, Bool.and_eq_true, Bool.not_eq_true', isEmpty_eq_false_iff,
    List.all_eq_true] at hdigits
  obtain ⟨hnonempty, hdigits⟩ := hdigits
  obtain ⟨c, part, rfl⟩ := exists_cons_of_ne_nil hnonempty
  refine ⟨⟨c, by simp, ?_, ?_⟩, ?_⟩
  · rintro rfl
    exact absurd (hdigits 'g' (by simp)) (by decide)
  · rintro rfl
    exact absurd (hdigits '.' (by simp)) (by decide)
  · intro d hd
    rcases mem_append.mp hd with hd | hd
    · exact isPlain_of_isDigit (hdigits d hd)
    · exact hrest d hd

end FixedPart

namespace FixedPart

open PathEncoding

theorem dbs : FixedPart "dbs".toList := by
  refine ⟨⟨'d', by decide, by decide, by decide⟩, ?_⟩
  have hall : "dbs".toList.all Char.isAlphanum = true := by decide
  exact fun c hc => .inl (all_eq_true.mp hall c hc)

variable {c : Char}

theorem isPlain_of_mem_extension (hc : c ∈ ".parquet".toList) : IsPlain c := by
  have hall : ".parquet".toList.all (fun c => c.isAlphanum || ['-', '.', '+'].contains c) = true :=
    by decide
  simpa [IsPlain] using all_eq_true.mp hall c hc

theorem isPlain_dash : IsPlain '-' :=
  .inr (by decide)

theorem isPlain_of_mem_padded {width n : Nat} (hc : c ∈ Text.padded width n) :
    IsPlain c :=
  isPlain_of_isDigit (isDigit_of_mem_padded hc)

theorem padded (width n : Nat) : FixedPart (Text.padded width n) := by
  have hfixed : FixedPart (Text.padded width n ++ []) :=
    of_digits (allDigits_padded width n) (by simp)
  rwa [append_nil] at hfixed

theorem toDigits_eq_padded (n : Nat) : Nat.toDigits 10 n = Text.padded 0 n := by
  simp [Text.padded]

theorem date (time : CivilTime) : FixedPart time.date := by
  unfold CivilTime.date
  rw [append_assoc]
  refine of_digits (allDigits_padded 4 time.year) fun c hc => ?_
  simp only [cons_append, mem_cons, mem_append] at hc
  rcases hc with rfl | hc | rfl | hc
  · exact isPlain_dash
  · exact isPlain_of_mem_padded hc
  · exact isPlain_dash
  · exact isPlain_of_mem_padded hc

theorem clock (time : CivilTime) : FixedPart time.clock := by
  refine of_digits (allDigits_padded 2 time.hour) fun c hc => ?_
  rcases mem_cons.mp hc with rfl | hc
  · exact isPlain_dash
  · exact isPlain_of_mem_padded hc

theorem gen1Name (walSeq ordinal : Nat) :
    FixedPart (Text.padded 10 walSeq ++
      (if ordinal = 0 then [] else '-' :: Text.padded 0 ordinal) ++ ".parquet".toList) := by
  rw [append_assoc]
  refine of_digits (allDigits_padded 10 walSeq) fun c hc => ?_
  rcases mem_append.mp hc with hc | hc
  · split at hc
    · simp at hc
    · rcases mem_cons.mp hc with rfl | hc
      · exact isPlain_dash
      · exact isPlain_of_mem_padded hc
  · exact isPlain_of_mem_extension hc

theorem hexDigit {width n : Nat} (hc : c ∈ hexGroup width n) :
    c.isAlphanum ∧ c ≠ 'g' ∧ c ≠ '.' ∧ c ≠ '-' := by
  have hdigit : ∀ d < 16, (Nat.digitChar d).isAlphanum ∧ Nat.digitChar d ≠ 'g' ∧
      Nat.digitChar d ≠ '.' ∧ Nat.digitChar d ≠ '-' := by decide
  obtain ⟨i, -, rfl⟩ := mem_map.mp hc
  exact hdigit _ (Nat.mod_lt _ (by decide))

theorem isPlain_hexGroup (width n : Nat) : ∀ c ∈ hexGroup width n, IsPlain c :=
  fun _ hc => .inl (hexDigit hc).1

theorem isPlain_hexGroup_append {rest : List Char} (width n : Nat)
    (hrest : ∀ c ∈ rest, IsPlain c) : ∀ c ∈ hexGroup width n ++ '-' :: rest, IsPlain c := by
  intro c hc
  rcases mem_append.mp hc with hc | hc
  · exact isPlain_hexGroup width n c hc
  · rcases mem_cons.mp hc with rfl | hc
    · exact isPlain_dash
    · exact hrest c hc

theorem isPlain_hyphenated (uuid : BitVec 128) : ∀ c ∈ (hyphenated uuid).toList, IsPlain c := by
  rw [hyphenated, String.toList_ofList]
  apply isPlain_hexGroup_append
  apply isPlain_hexGroup_append
  apply isPlain_hexGroup_append
  apply isPlain_hexGroup_append
  apply isPlain_hexGroup

theorem compactedName (uuid : BitVec 128) :
    FixedPart ((hyphenated uuid).toList ++ ".parquet".toList) := by
  have hnonempty : ∀ n, hexGroup 8 n ≠ [] := by simp [hexGroup]
  obtain ⟨c, digits, hdigits⟩ :=
    exists_cons_of_ne_nil (hnonempty (uuid.toNat / 2 ^ 96))
  have hc : c ∈ hexGroup 8 (uuid.toNat / 2 ^ 96) := by
    rw [hdigits]
    exact mem_cons_self
  refine ⟨⟨c, ?_, (hexDigit hc).2.1, (hexDigit hc).2.2.1⟩, ?_⟩
  · rw [hyphenated, String.toList_ofList, hdigits]
    exact rfl
  · intro d hd
    rcases mem_append.mp hd with hd | hd
    · exact isPlain_hyphenated uuid d hd
    · exact isPlain_of_mem_extension hd

end FixedPart

theorem parseGen1Stem_hyphenated (uuid : BitVec 128) :
    parseGen1Stem (hyphenated uuid).toList = none := by
  rw [hyphenated, String.toList_ofList]
  exact parseGen1Stem_two_dashes fun hdash => (FixedPart.hexDigit hdash).2.2.2 rfl

section Parts

variable {encoding : PathEncoding}

def genDirectory (generation : Nat) : List Char :=
  "gen".toList ++ Text.padded 0 generation

theorem isPlain_genDirectory (generation : Nat) :
    ∀ c ∈ genDirectory generation, PathEncoding.IsPlain c := by
  intro c hc
  rcases mem_append.mp hc with hc | hc
  · exact PathEncoding.isPlain_of_mem_gen hc
  · exact FixedPart.isPlain_of_mem_padded hc

theorem pieces_genDirectory (generation : Nat) :
    Text.pieces '/' (genDirectory generation) = [genDirectory generation] := by
  refine pieces_of_notMem (FixedPart.slash_notMem_of_plain ?_) (by simp [genDirectory])
  exact isPlain_genDirectory generation

theorem encodePart_genDirectory (generation : Nat) :
    encoding.encodePart (genDirectory generation) = genDirectory generation :=
  PathEncoding.encodePart_of_plain (isPlain_genDirectory generation) (c := 'g')
    (by simp [genDirectory]) (by decide)

theorem toList_objPath (text : String) :
    (encoding.objPath text).toList = Text.joined '/' (encoding.parts text) :=
  String.toList_ofList

theorem slash_notMem_parts (encoding : PathEncoding) (text : String) :
    ∀ part ∈ encoding.parts text, '/' ∉ part := by
  intro part hpart
  obtain ⟨piece, hpiece, rfl⟩ := mem_map.mp hpart
  exact PathEncoding.slash_notMem_encodePart (notMem_of_mem_pieces hpiece)

/-- The parts of an output's path: those of the names, then the compactor's own. -/
theorem pieces_compactedFilePath (file : CompactedFile) :
    Text.pieces '/' file.rawPath.toList = Text.pieces '/' file.directories ++
      [genDirectory file.generation, file.chunkTime.date, file.chunkTime.clock,
        (hyphenated file.compactionId).toList ++ ".parquet".toList] := by
  have htext : file.rawPath.toList =
      file.directories ++ '/' :: (genDirectory file.generation ++ '/' ::
        (file.chunkTime.date ++ '/' :: (file.chunkTime.clock ++ '/' ::
          ((hyphenated file.compactionId).toList ++ ".parquet".toList)))) := by
    simp [CompactedFile.rawPath, compactedFilePath, CompactedFile.directories, CivilTime.format,
      genDirectory, FixedPart.toDigits_eq_padded]
  rw [htext]
  simp only [pieces_append, pieces_genDirectory, (FixedPart.date _).pieces_eq,
    (FixedPart.clock _).pieces_eq, (FixedPart.compactedName _).pieces_eq, cons_append,
    nil_append]

def WriterFile.directories (file : WriterFile) : List (List Char) :=
  ["dbs".toList, Text.padded 0 file.dbId, Text.padded 0 file.tableId,
    file.chunkTime.date, file.chunkTime.clock]

def WriterFile.stem (file : WriterFile) : List Char :=
  Text.padded 10 file.walFileSequenceNumber ++
    (if file.chunkOrdinal = 0 then [] else '-' :: Text.padded 0 file.chunkOrdinal)

theorem pieces_parquetFilePath (file : WriterFile) :
    Text.pieces '/' file.rawPath.toList = Text.pieces '/' file.nodeId.toList ++
      (file.directories ++ [file.stem ++ ".parquet".toList]) := by
  have htext : file.rawPath.toList =
      file.nodeId.toList ++ '/' :: ("dbs".toList ++ '/' :: (Text.padded 0 file.dbId ++ '/' ::
        (Text.padded 0 file.tableId ++ '/' :: (file.chunkTime.date ++ '/' ::
          (file.chunkTime.clock ++ '/' :: (file.stem ++ ".parquet".toList)))))) := by
    simp [WriterFile.rawPath, WriterFile.stem, parquetFilePath, CivilTime.format,
      FixedPart.toDigits_eq_padded]
  have hname : FixedPart (file.stem ++ ".parquet".toList) := FixedPart.gen1Name _ _
  rw [htext]
  simp only [pieces_append, FixedPart.dbs.pieces_eq, (FixedPart.padded _ _).pieces_eq,
    (FixedPart.date _).pieces_eq, (FixedPart.clock _).pieces_eq, hname.pieces_eq,
    WriterFile.directories, cons_append, nil_append]

end Parts

section Compactor

variable {encoding : PathEncoding} (compacted : CompactedFile)

theorem pieces_directories_ne_nil : Text.pieces '/' compacted.directories ≠ [] := by
  rw [CompactedFile.directories, pieces_append, pieces_append,
    FixedPart.dbs.pieces_eq]
  simp

/-- The first generation directory of the names decides, the compactor's own if there is none. -/
theorem find?_gen_parts (names : List (List Char)) (generation : Nat) :
    (names.map encoding.encodePart ++ [genDirectory generation]).find?
      "gen".toList.isPrefixOf =
    some (((names.find? "gen".toList.isPrefixOf).map encoding.encodePart).getD
      (genDirectory generation)) := by
  have hkept : "gen".toList.isPrefixOf ∘ encoding.encodePart = "gen".toList.isPrefixOf :=
    funext fun _ => PathEncoding.isPrefixOf_gen_encodePart
  have hgen : "gen".toList.isPrefixOf (genDirectory generation) = true := by
    rw [List.isPrefixOf_iff_prefix]
    exact prefix_append _ _
  rw [find?_append, find?_map, hkept]
  cases names.find? "gen".toList.isPrefixOf with
  | none =>
    rfl
  | some directory => rfl

theorem parts_rawPath (encoding : PathEncoding) : ∃ first names,
    Text.pieces '/' compacted.directories = first :: names ∧ first ≠ [] ∧
    encoding.parts compacted.rawPath = encoding.encodePart first ::
      (names.map encoding.encodePart ++ [genDirectory compacted.generation] ++
        compacted.chunkTime.date :: [compacted.chunkTime.clock,
          (hyphenated compacted.compactionId).toList ++ ".parquet".toList]) := by
  obtain ⟨first, names, hnames⟩ :=
    exists_cons_of_ne_nil (pieces_directories_ne_nil compacted)
  refine ⟨first, names, hnames, ne_nil_of_mem_pieces (hnames ▸ mem_cons_self), ?_⟩
  rw [PathEncoding.parts, pieces_compactedFilePath, hnames]
  simp only [map_append, map_cons, map_nil, encodePart_genDirectory,
    (FixedPart.date _).encodePart_eq, (FixedPart.clock _).encodePart_eq,
    (FixedPart.compactedName _).encodePart_eq, cons_append, append_assoc,
    nil_append]

theorem parseU8_genDirectory :
    Text.parseU8 ((genDirectory compacted.generation).drop 3) = some compacted.generation := by
  have hbyte : compacted.generation < 2 ^ 8 :=
    Nat.lt_of_le_of_lt compacted.generation_range.2 (by decide)
  exact parseU8_padded hbyte

theorem parseGen1Path_compactor :
    parseGen1Path ((FileOrigin.compactor compacted).path encoding) = none := by
  obtain ⟨first, names, -, hfirst, hparts⟩ := parts_rawPath compacted encoding
  have hslash := slash_notMem_parts encoding compacted.rawPath
  have hlast : encoding.parts compacted.rawPath = encoding.encodePart first ::
      (names.map encoding.encodePart ++ [genDirectory compacted.generation] ++
        [compacted.chunkTime.date, compacted.chunkTime.clock] ++
        [(hyphenated compacted.compactionId).toList ++ ".parquet".toList]) := by
    rw [hparts, append_assoc _ _ [_ ++ _]]
    rfl
  rw [hlast] at hslash
  change parseGen1Path (.ofList (Text.joined '/' (encoding.parts compacted.rawPath))) = none
  rw [hlast, parseGen1Path_joined (PathEncoding.encodePart_ne_nil hfirst) (by simp) hslash,
    parseGen1Stem_hyphenated, map_none]

/-- An output's generation is read back when its names leave no other generation in front. -/
theorem getFileGeneration_compactor_iff {file : ParquetFile}
    (hpath : file.path = (FileOrigin.compactor compacted).path encoding) :
    getFileGeneration file = some compacted.generation ↔
      (FileOrigin.compactor compacted).Unmistakable encoding := by
  obtain ⟨first, names, hnames, -, hparts⟩ := parts_rawPath compacted encoding
  have hslash := slash_notMem_parts encoding compacted.rawPath
  have htext : file.path.toList = Text.joined '/' (encoding.parts compacted.rawPath) := by
    rw [hpath]
    exact toList_objPath compacted.rawPath
  rw [hparts] at hslash htext
  rw [getFileGeneration_of_find? htext hslash (find?_gen_parts names compacted.generation)]
  simp only [FileOrigin.Unmistakable, hnames, tail_cons]
  cases hfind : names.find? "gen".toList.isPrefixOf with
  | none => simp [parseU8_genDirectory, compacted.generation_range]
  | some directory =>
    have hgen : "gen".toList <+: directory :=
      isPrefixOf_iff_prefix.mp (find?_some hfind)
    simp only [map_some, getD_some, PathEncoding.parseU8_drop_encodePart hgen,
      filter_eq_some_iff, mem_some_iff, forall_eq']
    simp [compacted.generation_range]

end Compactor

section Writer

variable {encoding : PathEncoding} (written : WriterFile)

theorem fixedPart_of_mem {part : List Char}
    (hpart : part ∈ written.directories ++ [written.stem ++ ".parquet".toList]) :
    FixedPart part := by
  simp only [WriterFile.directories, cons_append, nil_append, mem_cons,
    not_mem_nil, or_false] at hpart
  rcases hpart with rfl | rfl | rfl | rfl | rfl | rfl
  · exact FixedPart.dbs
  · exact FixedPart.padded 0 written.dbId
  · exact FixedPart.padded 0 written.tableId
  · exact FixedPart.date written.chunkTime
  · exact FixedPart.clock written.chunkTime
  · exact FixedPart.gen1Name written.walFileSequenceNumber written.chunkOrdinal

theorem parts_writer (encoding : PathEncoding) : encoding.parts written.rawPath =
    (Text.pieces '/' written.nodeId.toList).map encoding.encodePart ++
      (written.directories ++ [written.stem ++ ".parquet".toList]) := by
  have hfixed : (written.directories ++ [written.stem ++ ".parquet".toList]).map
      encoding.encodePart = written.directories ++ [written.stem ++ ".parquet".toList] := by
    rw [map_congr_left fun part hpart => (fixedPart_of_mem written hpart).encodePart_eq]
    exact map_id _
  rw [PathEncoding.parts, pieces_parquetFilePath, map_append, hfixed]

theorem nodeId_toList_eq_iff {text : List Char} {nodeId : String} :
    nodeId = String.ofList text ↔ nodeId.toList = text := by
  rw [← String.toList_inj, String.toList_ofList]

/-- The first part of a writer's path is the node id exactly when that is left as it is. -/
theorem parts_writer_cons (encoding : PathEncoding) : ∃ first front,
    encoding.parts written.rawPath =
      first :: (front ++ [written.stem ++ ".parquet".toList]) ∧
    first ≠ [] ∧ front ≠ [] ∧
    (∀ part ∈ front ++ [written.stem ++ ".parquet".toList], FixedPart part) ∧
    (String.ofList first = written.nodeId ↔
      (FileOrigin.writer written).Unmistakable encoding) := by
  by_cases hempty : written.nodeId = ""
  · -- The empty part is dropped, and the path begins with the next directory.
    refine ⟨"dbs".toList, written.directories.tail, ?_, by decide, ?_, ?_, ?_⟩
    · rw [parts_writer, hempty]
      rfl
    · simp [WriterFile.directories]
    · intro part hpart
      refine fixedPart_of_mem written ?_
      rcases mem_append.mp hpart with hpart | hpart
      · exact mem_append_left _ (mem_of_mem_tail hpart)
      · exact mem_append_right _ hpart
    · simp [FileOrigin.Unmistakable, hempty]
  · have hnode : written.nodeId.toList ≠ [] := by simpa using hempty
    refine ⟨encoding.encodePart written.nodeId.toList, written.directories, ?_,
      PathEncoding.encodePart_ne_nil hnode, by simp [WriterFile.directories],
      fun part hpart => fixedPart_of_mem written hpart, ?_⟩
    · rw [parts_writer, pieces_of_notMem written.noSlash hnode]
      rfl
    · rw [eq_comm, nodeId_toList_eq_iff, eq_comm, PathEncoding.encodePart_eq_self_iff]
      have hsingle : written.nodeId = "." ↔ written.nodeId.toList = ['.'] := nodeId_toList_eq_iff
      have hdouble : written.nodeId = ".." ↔ written.nodeId.toList = ['.', '.'] :=
        nodeId_toList_eq_iff
      simp only [FileOrigin.Unmistakable, ne_eq, hempty, hsingle, hdouble, not_false_eq_true,
        true_and]

theorem getFileGeneration_writer {file : ParquetFile}
    (hpath : file.path = (FileOrigin.writer written).path encoding) :
    getFileGeneration file = some 1 := by
  obtain ⟨first, front, hparts, -, -, hfixed, -⟩ := parts_writer_cons written encoding
  have hslash := slash_notMem_parts encoding written.rawPath
  have htext : file.path.toList = Text.joined '/' (encoding.parts written.rawPath) := by
    rw [hpath]
    exact toList_objPath written.rawPath
  rw [hparts] at hslash htext
  exact getFileGeneration_of_noGen htext hslash fun part hpart =>
    (hfixed part hpart).not_begins_gen

theorem parseGen1Path_writer_iff :
    parseGen1Path ((FileOrigin.writer written).path encoding) =
        some (written.nodeId, written.walFileSequenceNumber) ↔
      (FileOrigin.writer written).Unmistakable encoding := by
  obtain ⟨first, front, hparts, hfirst, hfront, -, hnode⟩ := parts_writer_cons written encoding
  have hslash := slash_notMem_parts encoding written.rawPath
  rw [hparts] at hslash
  have hread : parseGen1Path ((FileOrigin.writer written).path encoding) =
      some (String.ofList first, written.walFileSequenceNumber) := by
    change parseGen1Path (.ofList (Text.joined '/' (encoding.parts written.rawPath))) = _
    rw [hparts, parseGen1Path_joined hfirst hfront hslash, WriterFile.stem,
      parseGen1Stem_padded written.sequence_lt, map_some]
  rw [hread, ← hnode, some_inj, Prod.mk.injEq, and_iff_left rfl]

end Writer

namespace PlacedFile

variable {encoding : PathEncoding}

theorem roundTrips_iff (placed : PlacedFile encoding) :
    placed.RoundTrips ↔ placed.origin.Unmistakable encoding := by
  obtain ⟨origin, file, hpath⟩ := placed
  unfold RoundTrips
  rw [hpath]
  cases origin with
  | writer written =>
    rw [getFileGeneration_writer written hpath, ← parseGen1Path_writer_iff]
    exact and_iff_right rfl
  | compactor compacted =>
    rw [← getFileGeneration_compactor_iff compacted hpath]
    exact and_iff_left (parseGen1Path_compactor compacted)

/-- One file joins the group of its generation. -/
theorem filesByGeneration_append (files : List ParquetFile) (file : ParquetFile) :
    filesByGeneration (files ++ [file]) = (filesByGeneration files).bind fun groups =>
      (getFileGeneration file).map fun generation =>
        Function.update groups generation (groups generation ++ [file]) := by
  unfold filesByGeneration
  rw [foldlM_append]
  congr 1
  funext groups
  rw [foldlM_cons]
  cases getFileGeneration file <;> rfl

end PlacedFile

/-- A file's generation and writer survive the path exactly when its names leave no other
generation in front and the object store leaves the node id as it is; then the grouping succeeds
and puts every file under the generation it was written for. -/
theorem roundTrips_and_grouped (encoding : PathEncoding) :
    (∀ placed : PlacedFile encoding,
      placed.RoundTrips ↔ placed.origin.Unmistakable encoding) ∧
    ∀ files : List (PlacedFile encoding),
      (∀ placed ∈ files, placed.origin.Unmistakable encoding) →
        filesByGeneration (files.map (·.file)) = some fun level =>
          (files.filter fun placed => placed.origin.generation = level).map (·.file) := by
  refine ⟨PlacedFile.roundTrips_iff, fun files hfiles => ?_⟩
  induction files using List.reverseRecOn with
  | nil => rfl
  | append_singleton files placed ih =>
    have hplaced : placed.RoundTrips := placed.roundTrips_iff.mpr (hfiles placed (by simp))
    have hfront := ih fun other hother => hfiles other (mem_append_left _ hother)
    rw [map_append, map_singleton, PlacedFile.filesByGeneration_append, hfront,
      hplaced.1, bind_some, map_some]
    congr 1
    funext level
    rw [Function.update_apply, filter_append, map_append]
    by_cases hlevel : placed.origin.generation = level
    · simp [hlevel]
    · simp [hlevel, Ne.symm hlevel]

/-- Characters the object store escapes. -/
def reserved (c : Char) : Bool :=
  c.toNat < 0x20 || 0x7F ≤ c.toNat || c ∈ "/\\\x7b^\x7d%\x60]\">[~<#|*?".toList

/-- Escapes every byte of a reserved character. -/
def percentEncode (c : Char) : List Char :=
  if reserved c then (String.utf8EncodeChar c).flatMap fun byte =>
    ['%', (Nat.digitChar (byte.toNat / 16)).toUpper, (Nat.digitChar (byte.toNat % 16)).toUpper]
  else [c]

theorem reserved_of_isAlphanum {c : Char} (hc : c.isAlphanum = true) : reserved c = false := by
  have hlisted : "/\\\x7b^\x7d%\x60]\">[~<#|*?".toList.all (!Char.isAlphanum ·) = true := by decide
  have hnot : c ∉ "/\\\x7b^\x7d%\x60]\">[~<#|*?".toList := by
    intro hmem
    have hother := all_eq_true.mp hlisted c hmem
    rw [hc] at hother
    exact Bool.noConfusion hother
  have hrange : 0x20 ≤ c.toNat ∧ c.toNat < 0x7F := by
    delta Char.isAlphanum Char.isAlpha Char.isUpper Char.isLower Char.isDigit at hc
    simp only [Bool.or_eq_true, Bool.and_eq_true, decide_eq_true_eq, ge_iff_le,
      UInt32.le_iff_toNat_le, Char.reduceVal, UInt32.reduceToNat] at hc
    have hval : c.toNat = c.val.toNat := rfl
    omega
  simp only [reserved, hnot, decide_false, Bool.or_false, Bool.or_eq_false_iff,
    decide_eq_false_iff_not]
  omega

/-- The escaping of the object store crate. -/
def objectStoreEncoding : PathEncoding where
  encodeChar := percentEncode
  plain c hc := by
    have hreserved : reserved c = false := by
      rcases hc with hc | hc
      · exact reserved_of_isAlphanum hc
      · simp only [mem_cons, not_mem_nil, or_false] at hc
        rcases hc with rfl | rfl | rfl <;> decide
    simp [percentEncode, hreserved]
  escaped c := by
    unfold percentEncode
    split
    · right
      obtain ⟨byte, bytes, hbytes⟩ : ∃ byte bytes, String.utf8EncodeChar c = byte :: bytes :=
        exists_cons_of_ne_nil (by
          rw [← length_pos_iff, String.length_utf8EncodeChar]
          exact Char.utf8Size_pos c)
      rw [hbytes, flatMap_cons]
      exact ⟨_, _, _, rfl⟩
    · exact .inl rfl
  no_slash c hc := by
    have hdigit : ∀ d < 16, (Nat.digitChar d).toUpper ≠ '/' := by decide
    unfold percentEncode
    split
    · intro hmem
      obtain ⟨byte, -, hbyte⟩ := mem_flatMap.mp hmem
      have hlt : byte.toNat < 256 := byte.toNat_lt
      simp only [mem_cons, not_mem_nil, or_false] at hbyte
      rcases hbyte with hpercent | hhigh | hlow
      · exact absurd hpercent (by decide)
      · exact hdigit _ (by omega) hhigh.symm
      · exact hdigit _ (by omega) hlow.symm
    · simpa using Ne.symm hc

def outputOrigin (databaseName tableName : String) : FileOrigin :=
  .compactor ⟨"compactor-1", databaseName, 1, tableName, 2, 2, by decide, ⟨2026, 1, 1, 0, 0⟩,
    0x0190a1b2c3d47e5f8a6b7c8d9e0f1a2b#128⟩

def outputFor (databaseName tableName : String) : PlacedFile objectStoreEncoding where
  origin := outputOrigin databaseName tableName
  file := ⟨7, (outputOrigin databaseName tableName).path objectStoreEncoding, 100, 10, 0, 0, 1⟩
  path_eq := rfl

def gen1File : PlacedFile objectStoreEncoding where
  origin := .writer ⟨"writer-1", by decide, 1, 2, ⟨2026, 1, 1, 0, 0⟩, 42, by decide, 1⟩
  file := ⟨3, "writer-1/dbs/1/2/2026-01-01/00-00/0000000042-1.parquet", 100, 10, 0, 0, 1⟩
  path_eq := by decide +kernel

theorem roundTrips_and_grouped_metrics :
    (outputFor "metrics" "cpu").RoundTrips ∧ gen1File.RoundTrips ∧
      (filesByGeneration [(outputFor "metrics" "cpu").file, gen1File.file]).isSome := by
  have houtput : (outputFor "metrics" "cpu").origin.Unmistakable objectStoreEncoding := by
    intro directory hdirectory
    have hnone : (Text.pieces '/' "compactor-1/dbs/metrics-1/cpu-2".toList).tail.find?
        "gen".toList.isPrefixOf = none := by decide
    exact absurd (hnone ▸ hdirectory) (by simp)
  have hgen1 : gen1File.origin.Unmistakable objectStoreEncoding := by
    refine ⟨by decide, by decide, by decide, fun c hc => ?_⟩
    have hkept : "writer-1".toList.all (fun c => decide (percentEncode c = [c])) = true := by
      decide
    exact of_decide_eq_true (all_eq_true.mp hkept c hc)
  have hboth := roundTrips_and_grouped objectStoreEncoding
  refine ⟨(hboth.1 _).mpr houtput, (hboth.1 _).mpr hgen1, ?_⟩
  have hgrouped := hboth.2 [outputFor "metrics" "cpu", gen1File] (by simp [houtput, hgen1])
  simp only [map_cons, map_nil] at hgrouped
  rw [hgrouped]
  rfl

/-- Outputs of a database named `genome` fail the whole cycle. -/
theorem genome_fails_identification :
    ¬(outputFor "genome" "reads").RoundTrips ∧
      filesByGeneration [(outputFor "genome" "reads").file] = none := by
  have hunreadable : getFileGeneration (outputFor "genome" "reads").file = none := by
    decide +kernel
  refine ⟨fun hroundTrips => ?_, ?_⟩
  · rw [PlacedFile.RoundTrips, hunreadable] at hroundTrips
    exact absurd hroundTrips.1 (by simp)
  · rw [filesByGeneration, foldlM_cons, hunreadable]
    rfl

end RefluxDb.Write
