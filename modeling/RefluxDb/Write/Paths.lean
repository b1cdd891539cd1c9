import RefluxDb.Library.Text

/-! Object paths of parquet files, and telling writer files from compactor files by their path.

A writer names a gen1 file after the WAL file of its snapshot; a compactor names its output after
the compaction id, a UUID. `parse_gen1_path` recovers the writer's node and WAL number from the
path alone. Dates are an opaque part of the path. -/

namespace RefluxDb.Write

open List RefluxDb.Library

/-- The path of the `chunkOrdinal`-th file of one table and chunk time in a writer's snapshot. -/
def parquetFilePath (hostPrefix : String) (dbId tableId : Nat) (dateString : String)
    (walFileSequenceNumber chunkOrdinal : Nat) : String :=
  let ordinalSuffix := if chunkOrdinal = 0 then [] else '-' :: Text.padded 0 chunkOrdinal
  .ofList (hostPrefix.toList ++ '/' :: ("dbs/" ++ toString dbId ++ "/" ++ toString tableId ++
    "/" ++ dateString).toList ++ '/' ::
    (Text.padded 10 walFileSequenceNumber ++ ordinalSuffix) ++ ".parquet".toList)

def compactedFilePath (host db : String) (dbId : Nat) (table : String) (tableId generation : Nat)
    (date compactionId : String) : String :=
  .ofList (host.toList ++ '/' :: ("dbs/" ++ db ++ "-" ++ toString dbId ++ "/" ++ table ++ "-" ++
    toString tableId ++ "/gen" ++ toString generation ++ "/" ++ date).toList ++ '/' ::
    compactionId.toList ++ ".parquet".toList)

/-- The WAL number a file name without its extension stands for, if it is a gen1 name. -/
def parseGen1Stem (stem : List Char) : Option Nat :=
  let (seq, ordinal) := match Text.splitOnce '-' stem with
    | some (seq, ordinal) => (seq, some ordinal)
    | none => (stem, none)
  if !Text.allDigits seq || ordinal.any (!Text.allDigits ·) then none
  else if Nat.ofDigitChars 10 seq 0 < 2 ^ 64 then some (Nat.ofDigitChars 10 seq 0)
  else none

/-- The writer's node and WAL number, for the path of a gen1 file. -/
def parseGen1Path (path : String) : Option (String × Nat) :=
  let nodeId := Text.firstPiece '/' path.toList
  if nodeId.isEmpty then none
  else do
    let stem := Text.lastPiece '/' (← Text.stripSuffix ".parquet".toList path.toList)
    let walSeq ← parseGen1Stem stem
    pure (.ofList nodeId, walSeq)

/-- Parsing a path that is a host, directories, a file name and the parquet extension. -/
theorem parseGen1Path_ofList {host directories stem : List Char} (hhost : '/' ∉ host)
    (hnonempty : host ≠ []) (hstem : '/' ∉ stem) :
    parseGen1Path (.ofList (host ++ '/' :: directories ++ '/' :: stem ++ ".parquet".toList)) =
      (parseGen1Stem stem).map (String.ofList host, ·) := by
  have hfirst : Text.firstPiece '/' (host ++ '/' :: directories ++ '/' :: stem ++
      ".parquet".toList) = host := by
    rw [append_assoc, append_assoc]
    exact Text.firstPiece_append hhost
  have hlast : Text.lastPiece '/' (host ++ '/' :: directories ++ '/' :: stem) = stem :=
    Text.lastPiece_append hstem
  simp only [parseGen1Path, String.toList_ofList, hfirst, Text.stripSuffix_append,
    List.isEmpty_iff, hnonempty, if_false, Option.bind_eq_bind, Option.bind_some, hlast,
    Option.pure_def]
  cases parseGen1Stem stem <;> rfl

theorem parseGen1Stem_padded {walSeq : Nat} (hwalSeq : walSeq < 2 ^ 64) (ordinal : Nat) :
    parseGen1Stem (Text.padded 10 walSeq ++
      (if ordinal = 0 then [] else '-' :: Text.padded 0 ordinal)) = some walSeq := by
  have hdash : '-' ∉ Text.padded 10 walSeq := Text.notMem_padded (by decide)
  by_cases hordinal : ordinal = 0
  · rw [if_pos hordinal, append_nil]
    simp only [parseGen1Stem, Text.splitOnce_of_notMem hdash, Text.allDigits_padded,
      Text.ofDigitChars_padded, if_pos hwalSeq]
    rfl
  · rw [if_neg hordinal]
    simp only [parseGen1Stem, Text.splitOnce_append hdash, Text.allDigits_padded,
      Text.ofDigitChars_padded, if_pos hwalSeq]
    simp [Text.allDigits_padded]

/-- A name with a second dash is no gen1 name. -/
theorem parseGen1Stem_two_dashes {head middle tail : List Char} (hdash : '-' ∉ head) :
    parseGen1Stem (head ++ '-' :: (middle ++ '-' :: tail)) = none := by
  have hnotdigits : Text.allDigits (middle ++ '-' :: tail) = false := by
    simp only [Text.allDigits, Bool.and_eq_false_iff, all_eq_false]
    exact .inr ⟨'-', by simp, by decide⟩
  simp [parseGen1Stem, Text.splitOnce_append hdash, hnotdigits]

/-- No path a compactor produces parses: a UUID has a second dash. -/
theorem parseGen1Path_compactedFilePath {host db table date compactionId : String}
    {head middle tail : List Char} (hslash : '/' ∉ host.toList) (hnonempty : host ≠ "")
    (hid : compactionId.toList = head ++ '-' :: middle ++ '-' :: tail)
    (hdash : '-' ∉ head) (hidslash : '/' ∉ compactionId.toList) (dbId tableId generation : Nat) :
    parseGen1Path (compactedFilePath host db dbId table tableId generation date compactionId) =
      none := by
  have hhost : host.toList ≠ [] := by
    simpa using hnonempty
  have hstem : parseGen1Stem compactionId.toList = none := by
    rw [hid, append_assoc]
    exact parseGen1Stem_two_dashes hdash
  unfold compactedFilePath
  rw [parseGen1Path_ofList hslash hhost hidslash, hstem, Option.map_none]

example : parseGen1Path "writer-1/dbs/1/2/2026-01-01/00-00/0000000042-3.parquet" =
    some ("writer-1", 42) := by decide

end RefluxDb.Write
