import RefluxDb.Library.Tiles

/-! Reads of an object in one request or in several. -/

namespace RefluxDb.Store

open List RefluxDb.Library

/-- The bytes of an immutable object, which fit the memory. -/
structure Object where
  bytes : List UInt8
  length_lt : bytes.length < 9223372036854775808

/-- A range that reaches past the end gives the bytes that there are. -/
def Object.getRange (object : Object) (range : Nat × Nat) : List UInt8 :=
  (object.bytes.take range.2).drop range.1

structure ReadSizes where
  threshold : Nat
  chunk : Nat
  chunk_pos : 0 < chunk
  chunk_lt : chunk < 18446744073709551616
  maxChunksPerBatch : Nat
  batch_pos : 0 < maxChunksPerBatch

namespace ReadSizes

variable (sizes : ReadSizes) (object : Object)

/-- Ranges of a chunk each. The addition is that of the machine. -/
def ranges (firstOffset size : Nat) : List (Nat × Nat) :=
  (offsets firstOffset sizes.chunk size).map fun offset =>
    (offset, min ((offset + sizes.chunk) % 18446744073709551616) size)

/-- Fetches the ranges in batches, after what the buffer has. -/
def walk (firstOffset size : Nat) (buf : List UInt8) : List UInt8 :=
  (tiles (sizes.ranges firstOffset size) 0 sizes.maxChunksPerBatch).foldl
    (fun buf batch => (batch.map object.getRange).foldl (· ++ ·) buf) buf

def getAdaptiveImpl (size : Option Nat) : List UInt8 :=
  match size with
  | none =>
    if object.bytes.length ≤ sizes.chunk then object.getRange (0, sizes.chunk)
    else sizes.walk object sizes.chunk object.bytes.length (object.getRange (0, sizes.chunk))
  | some size =>
    if size ≤ sizes.threshold then object.bytes else sizes.walk object 0 size []

/-- No end of a range overflows: an offset is a multiple of the chunk size within the object. -/
theorem map_getRange_ranges {firstOffset : Nat} (hfirst : sizes.chunk ∣ firstOffset) :
    (sizes.ranges firstOffset object.bytes.length).map object.getRange =
      tiles object.bytes firstOffset sizes.chunk := by
  rw [ranges, map_map]
  refine map_congr_left fun offset hoffset => ?_
  obtain ⟨i, hi, rfl⟩ := mem_range'.mp hoffset
  have hwithin : firstOffset + sizes.chunk * i < object.bytes.length := by
    have hmul := Nat.mul_le_of_le_div _ _ _ hi
    rw [Nat.succ_mul, Nat.mul_comm] at hmul
    have hpos := sizes.chunk_pos
    omega
  have hdvd := Nat.dvd_add hfirst (Nat.dvd_mul_right sizes.chunk i)
  have hend : firstOffset + sizes.chunk * i + sizes.chunk < 18446744073709551616 := by
    have hlength := object.length_lt
    have hchunk := sizes.chunk_lt
    rcases Nat.lt_or_ge (firstOffset + sizes.chunk * i) sizes.chunk with hlt | hge
    · rw [Nat.eq_zero_of_dvd_of_lt hdvd hlt]
      omega
    · omega
  rw [Function.comp, Object.getRange, Nat.mod_eq_of_lt hend, ← take_eq_take_min]

theorem walk_eq {firstOffset : Nat} (hfirst : sizes.chunk ∣ firstOffset) (buf : List UInt8) :
    sizes.walk object firstOffset object.bytes.length buf =
      buf ++ object.bytes.drop firstOffset := by
  have hfold (batches : List (List (Nat × Nat))) :
      batches.foldl (fun buf batch => (batch.map object.getRange).foldl (· ++ ·) buf) buf =
        buf ++ (batches.flatten.map object.getRange).flatten := by
    simp [foldl_map, map_flatten, flatten_flatten, Function.comp_def]
  rw [walk, hfold, flatten_tiles _ _ _ sizes.batch_pos, drop_zero,
    sizes.map_getRange_ranges object hfirst, flatten_tiles _ _ _ sizes.chunk_pos]

/-- A read returns the object, whether its size is given or found out. -/
theorem getAdaptiveImpl_eq :
    sizes.getAdaptiveImpl object (some object.bytes.length) = object.bytes ∧
      sizes.getAdaptiveImpl object none = object.bytes := by
  constructor
  · simp [getAdaptiveImpl, walk_eq]
  · rw [getAdaptiveImpl, walk_eq _ _ (Nat.dvd_refl _)]
    split
    case isTrue hle => simp [Object.getRange, take_of_length_le hle]
    case isFalse => simp [Object.getRange]

/-- Five bytes in three chunks and two batches. -/
theorem getAdaptiveImpl_eq_five : ∃ (sizes : ReadSizes) (object : Object),
    (sizes.ranges 0 5).length = 3 ∧ sizes.getAdaptiveImpl object (some 5) = [1, 2, 3, 4, 5] ∧
      sizes.getAdaptiveImpl object none = [1, 2, 3, 4, 5] :=
  ⟨⟨4, 2, by decide, by decide, 2, by decide⟩, ⟨[1, 2, 3, 4, 5], by decide⟩, rfl,
    getAdaptiveImpl_eq _ _⟩

end ReadSizes

end RefluxDb.Store
