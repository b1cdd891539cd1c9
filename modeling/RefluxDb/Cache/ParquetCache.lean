import RefluxDb.Library.Lists
import RefluxDb.Library.Machine

/-! The in-memory cache of Parquet files in front of the object store, and what it answers in the
store's place.

Objects are immutable: they are put once and not deleted. A cached value was fetched, or was given
by the writer of the object, which takes the time of the last change from its own clock. Followed
are the calls that are answered from the cache; a fetch that fails is the store's own error. Sizes,
hit times, the choice of what is pruned and the other options of a `get_opts` are left out. -/

namespace RefluxDb.Cache

open Option RefluxDb.Library

structure ObjectMeta where
  location : String
  lastModified : Int
  size : Nat
  eTag : Option String
  version : Option String

structure CacheValue where
  data : List UInt8
  objectMeta : ObjectMeta

/-- What the store keeps under a path. -/
structure Object where
  data : List UInt8
  lastModified : Int
  eTag : Option String
  version : Option String

def Object.toValue (object : Object) (path : String) : CacheValue :=
  ⟨object.data, path, object.lastModified, object.data.length, object.eTag, object.version⟩

section Store

inductive CacheEntryState where
  | fetching
  | success (value : CacheValue)

structure MemCachedObjectStore where
  inner : String → Option Object := fun _ => none
  cache : String → Option CacheEntryState := fun _ => none

/-- An object is put, its writer caches it, a fetch starts or returns, and an entry is removed:
evicted, pruned, or because its fetch failed. -/
inductive Action where
  | put (path : String) (object : Object)
  | setCacheValueDirectly (path : String) (lastModified : Int)
  | setFetching (path : String)
  | setSuccess (path : String)
  | remove (path : String)

namespace MemCachedObjectStore

def setEntry (store : MemCachedObjectStore) (path : String) (state : Option CacheEntryState) :
    MemCachedObjectStore :=
  { store with cache := Function.update store.cache path state }

def step (store : MemCachedObjectStore) : Action → Option MemCachedObjectStore
  | .put path object =>
    if (store.inner path).isNone then
      some { store with inner := Function.update store.inner path (some object) }
    else none
  -- `register` looks for an entry before this step, and one may have come since
  | .setCacheValueDirectly path lastModified =>
    (store.inner path).map fun object =>
      store.setEntry path (some (.success ({ object with lastModified }.toValue path)))
  | .setFetching path => some (store.setEntry path (some .fetching))
  | .setSuccess path =>
    (store.inner path).map fun object =>
      match store.cache path with
      | some .fetching => store.setEntry path (some (.success (object.toValue path)))
      | _ => store
  | .remove path => some (store.setEntry path none)

def machine : Machine MemCachedObjectStore Action where
  initial store := store = {}
  step := step

/-- The value from which a call is answered. A fetch under way is waited for. -/
def value (store : MemCachedObjectStore) (path : String) : Option CacheValue :=
  match store.cache path with
  | none => none
  | some .fetching => (store.inner path).map (·.toValue path)
  | some (.success value) => some value

/-- Every cached value is the object under its path, but for the time of its last change. -/
def Faithful (store : MemCachedObjectStore) : Prop :=
  ∀ path v, store.value path = some v → ∃ object, store.inner path = some object ∧
    v = { object with lastModified := v.objectMeta.lastModified }.toValue path

variable {store next : MemCachedObjectStore}

variable {path : String}

theorem Faithful.setEntry (h : store.Faithful) {state : Option CacheEntryState}
    (hstate : ∀ v, state = some (.success v) → ∃ object, store.inner path = some object ∧
      v = { object with lastModified := v.objectMeta.lastModified }.toValue path) :
    (store.setEntry path state).Faithful := by
  intro other v hv
  by_cases hother : other = path
  · subst hother
    simp only [value, MemCachedObjectStore.setEntry, Function.update_self] at hv
    rcases state with _ | _ | _
    · cases hv
    · obtain ⟨object, hobject, rfl⟩ := map_eq_some_iff.mp hv
      exact ⟨object, hobject, rfl⟩
    · cases hv
      exact hstate v rfl
  · simp only [value, MemCachedObjectStore.setEntry, Function.update_of_ne hother] at hv
    exact h other v hv

theorem Faithful.put (h : store.Faithful) (habsent : store.inner path = none)
    (object : Object) :
    Faithful { store with inner := Function.update store.inner path (some object) } := by
  intro other v hv
  by_cases hother : other = path
  · subst hother
    -- without an object the path could only be waiting for a fetch
    refine ⟨object, Function.update_self .., ?_⟩
    cases hcache : store.cache other with
    | none => simp [value, hcache] at hv
    | some state =>
      cases state with
      | fetching =>
        simp only [value, hcache, Function.update_self, map_some, Option.some.injEq] at hv
        rw [← hv]
        rfl
      | success cached =>
        obtain ⟨_, hobject, -⟩ := h other cached (by simp [value, hcache])
        cases habsent.symm.trans hobject
  · simp only [value, Function.update_of_ne hother] at hv ⊢
    exact h other v hv

theorem Faithful.step (h : store.Faithful) {action : Action}
    (hstep : store.step action = some next) : next.Faithful := by
  cases action with
  | put path object =>
    obtain ⟨habsent, hnext⟩ := ite_none_right_eq_some.mp hstep
    cases hnext
    exact h.put (isNone_iff_eq_none.mp habsent) object
  | setCacheValueDirectly path lastModified =>
    obtain ⟨object, hobject, rfl⟩ := map_eq_some_iff.mp hstep
    refine h.setEntry fun v hv => ⟨object, hobject, ?_⟩
    cases hv
    rfl
  | setFetching path =>
    cases hstep
    exact h.setEntry nofun
  | setSuccess path =>
    obtain ⟨object, hobject, rfl⟩ := map_eq_some_iff.mp hstep
    split
    · refine h.setEntry fun v hv => ⟨object, hobject, ?_⟩
      cases hv
      rfl
    · exact h
  | remove path =>
    cases hstep
    exact h.setEntry nofun

theorem faithful_of_reachable (h : machine.Reachable Machine.Unrestricted store) :
    store.Faithful := by
  refine h.invariant ?_ fun _ _ _ hinv _ hstep => hinv.step hstep
  rintro _ rfl
  nofun

end MemCachedObjectStore

end Store

section Answers

inductive GetRange where
  | bounded (start stop : Nat)
  | offset (start : Nat)
  | suffix (length : Nat)

/-- The calls; `get_range` is `get_ranges` of one range. -/
inductive Call where
  | getOpts (range : Option GetRange)
  | getRanges (ranges : List (Nat × Nat))
  | head

inductive Answer where
  | got (bytes : List UInt8) (range : Nat × Nat) (objectMeta : ObjectMeta)
  | ranges (bytes : List (List UInt8))
  | head (objectMeta : ObjectMeta)

def slice (data : List UInt8) (range : Nat × Nat) : List UInt8 :=
  (data.drop range.1).take (range.2 - range.1)

def checkRange (range : Nat × Nat) (objectSize : Nat) : Except String (Nat × Nat) :=
  if objectSize < range.2 then
    .error s!"Range end ({range.2}) out of bounds, object size is {objectSize}"
  else if objectSize ≤ range.1 then
    .error s!"Range start ({range.1}) out of bounds, object size is {objectSize}"
  else if range.2 < range.1 then
    .error s!"Range end ({range.2}) is before range start ({range.1})"
  else .ok range

/-- The rule of the store: what reaches past the end is cut, and a suffix is at the end. -/
def GetRange.asRange (length : Nat) : GetRange → Option (Nat × Nat)
  | bounded start stop =>
    if start < stop ∧ start < length then some (start, min stop length) else none
  | offset start => if start < length then some (start, length) else none
  | suffix n => some (length - n, length)

namespace CacheValue

variable (v : CacheValue)

/-- What is answered from the cache. A suffix is taken from the start, and the range that is
reported is that of the whole object. -/
def cached : Call → Except String Answer
  | .getOpts none => .ok (.got v.data (0, v.data.length) v.objectMeta)
  | .getOpts (some range) =>
    (fun range => .got (slice v.data range) (0, v.data.length) v.objectMeta) <$>
      checkRange (match range with
        | .bounded start stop => (start, stop)
        | .offset start => (start, v.data.length)
        | .suffix stop => (0, stop)) v.data.length
  | .getRanges ranges =>
    .ranges <$> ranges.mapM fun range => slice v.data <$> checkRange range v.data.length
  | .head => .ok (.head v.objectMeta)

/-- What the store answers. -/
def stored : Call → Option Answer
  | .getOpts none => some (.got v.data (0, v.data.length) v.objectMeta)
  | .getOpts (some range) =>
    (range.asRange v.data.length).map fun range => .got (slice v.data range) range v.objectMeta
  | .getRanges ranges =>
    (ranges.mapM fun range =>
      ((GetRange.bounded range.1 range.2).asRange v.data.length).map (slice v.data)).map .ranges
  | .head => some (.head v.objectMeta)

end CacheValue

/-- The calls that the cache answers as the store does, for an object of a length whose time of
change the cache has or has not. -/
def Transparent (length : Nat) (sameTime : Prop) : Call → Prop
  | .getOpts none => sameTime
  | .getOpts (some (.bounded start stop)) =>
    length ≤ start ∨ stop < start ∨ (start = 0 ∧ stop = length ∧ sameTime)
  | .getOpts (some (.offset start)) => length ≤ start ∨ (start = 0 ∧ sameTime)
  | .getOpts (some (.suffix n)) => 0 < length ∧ n = length ∧ sameTime
  | .getRanges ranges =>
    (∀ range ∈ ranges, range.2 ≤ length ∧ range.1 < length ∧ range.1 ≤ range.2) ↔
      ∀ range ∈ ranges, range.1 < range.2 ∧ range.1 < length
  | .head => sameTime

end Answers

section Transparency

theorem toOption_map {α β : Type} (f : α → β) (x : Except String α) :
    (f <$> x).toOption = x.toOption.map f := by
  cases x <;> rfl

theorem toOption_mapM {α β : Type} (f : α → Except String β) (l : List α) :
    (l.mapM f).toOption = l.mapM fun a => (f a).toOption := by
  induction l with
  | nil => rfl
  | cons a rest ih =>
    rw [List.mapM_cons, List.mapM_cons, ← ih]
    cases f a with
    | error e => rfl
    | ok b => cases rest.mapM f <;> rfl

theorem toOption_checkRange (range : Nat × Nat) (size : Nat) :
    (checkRange range size).toOption =
      if range.2 ≤ size ∧ range.1 < size ∧ range.1 ≤ range.2 then some range else none := by
  unfold checkRange
  split_ifs <;> first | rfl | omega

theorem ite_eq_ite_iff {α : Type} {p q : Prop} [Decidable p] [Decidable q] {a b : α} :
    ((if p then some a else none) = if q then some b else none) ↔
      (p ↔ q) ∧ (p → q → a = b) := by
  by_cases hp : p <;> by_cases hq : q <;> simp [hp, hq]

theorem Object.cached_iff (object : Object) (path : String) (time : Int) (call : Call) :
    ({ object with lastModified := time }.toValue path |>.cached call).toOption =
        (object.toValue path).stored call ↔
      Transparent object.data.length (time = object.lastModified) call := by
  have hmap : ∀ {p : Prop} [Decidable p] {α β : Type} (f : α → β) (a : α),
      (if p then some a else none).map f = if p then some (f a) else none := by
    intro p _ α β f a
    split <;> rfl
  cases call with
  | head => simp [CacheValue.cached, CacheValue.stored, Transparent, Except.toOption, toValue]
  | getRanges ranges =>
    simp only [CacheValue.cached, CacheValue.stored, toValue]
    simp only [toOption_map, toOption_mapM, toOption_checkRange, GetRange.asRange, hmap, mapM_ite,
      ite_eq_ite_iff, Answer.ranges.injEq, Transparent, and_iff_left_iff_imp]
    intro _ hall _
    refine List.map_congr_left fun range hrange => ?_
    rw [Nat.min_eq_left (hall range hrange).1]
  | getOpts range =>
    rcases range with _ | ⟨start, stop⟩ | start | n
    · simp [CacheValue.cached, CacheValue.stored, Transparent, Except.toOption, toValue]
    all_goals
      simp only [CacheValue.cached, CacheValue.stored, toValue, toOption_map, toOption_checkRange,
        GetRange.asRange, hmap, map_some, ite_none_right_eq_some, Option.some.injEq,
        Answer.got.injEq, ObjectMeta.mk.injEq, Transparent]
      grind

namespace MemCachedObjectStore

/-- In every state that is reached and for every path that is cached, a call is answered as the
store answers it exactly when it is one of the calls of `Transparent`. -/
theorem cached_eq_stored_iff {store : MemCachedObjectStore}
    (h : machine.Reachable Machine.Unrestricted store) {path : String} {v : CacheValue}
    (hvalue : store.value path = some v) :
    ∃ object, store.inner path = some object ∧ ∀ call,
      (v.cached call).toOption = (object.toValue path).stored call ↔
        Transparent object.data.length (v.objectMeta.lastModified = object.lastModified) call := by
  obtain ⟨object, hobject, hv⟩ := faithful_of_reachable h path v hvalue
  refine ⟨object, hobject, fun call => ?_⟩
  rw [← object.cached_iff path, ← hv]

/-- Two bytes, and their fetch. -/
def fetched : MemCachedObjectStore where
  inner := Function.update (fun _ => none) "p" (some ⟨[1, 2], 0, none, none⟩)
  cache := Function.update (fun _ => none) "p" (some .fetching)

theorem fetched_reachable : machine.Reachable Machine.Unrestricted fetched := by
  have hmeets : machine.Meets Machine.Unrestricted {}
      [.put "p" ⟨[1, 2], 0, none, none⟩, .setFetching "p"] :=
    ⟨trivial, fun _ _ => ⟨trivial, fun _ _ => trivial⟩⟩
  exact .exec (.initial rfl) hmeets rfl

theorem cached_eq_stored_iff_fetched : ∃ v, fetched.value "p" = some v ∧
    (v.cached (.getOpts (some (.offset 0)))).toOption =
      v.stored (.getOpts (some (.offset 0))) := by
  obtain ⟨object, hobject, hcall⟩ := cached_eq_stored_iff fetched_reachable
    (rfl : fetched.value "p" = some (Object.toValue ⟨[1, 2], 0, none, none⟩ "p"))
  cases hobject
  exact ⟨_, rfl, (hcall _).mpr (.inr ⟨rfl, rfl⟩)⟩

/-- The last of the two bytes is asked for, and the cache answers with the first. -/
theorem suffix_from_start : ∃ v, machine.Reachable Machine.Unrestricted fetched ∧
    fetched.value "p" = some v ∧
    (v.cached (.getOpts (some (.suffix 1)))).toOption = some (.got [1] (0, 2) v.objectMeta) ∧
    v.stored (.getOpts (some (.suffix 1))) = some (.got [2] (1, 2) v.objectMeta) :=
  ⟨_, fetched_reachable, rfl, rfl, rfl⟩

end MemCachedObjectStore

end Transparency

end RefluxDb.Cache
