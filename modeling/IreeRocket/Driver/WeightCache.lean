import IreeRocket.Core.Weights

/-!
# The weight cache

The process-wide map from a weight binding and a packing geometry to a buffer that holds the packed
coefficients, with the generation of the binding the packing was made at. The counters that only the
profile report reads are left out. `setting` and `budget` stand for what the environment sets.

An entry names its buffer by the number of its GEM allocation.
-/

namespace IreeRocket.WeightCache

/-- NPU contexts a worker pool can hold. -/
def maxContexts : Nat := 8

/-- Everything about a dispatch that changes the packed bytes. -/
structure Geometry where
  filterHeight : Nat
  filterWidth : Nat
  inputChannels : Nat
  outputChannels : Nat
  programmedOutputChannels : Nat
  elementSize : Nat
  depthwise : Bool
  paddedChannels : Nat
  weightZeroPoint : Option Int8
  scratchLength : Nat
  deriving DecidableEq

/-- Identifies the packed form of one weight binding on one NPU context. -/
structure Key where
  buffer : Nat
  offset : Nat
  length : Nat
  geometry : Geometry
  context : Nat
  deriving DecidableEq

structure Entry where
  generation : Nat
  buffer : Nat
  bytes : Nat
  deriving DecidableEq

structure Cache where
  entries : List (Key × Entry)
  bytes : Nat
  deriving DecidableEq

/-- `ROCKET_WEIGHT_CACHE` and the byte budget. -/
structure Settings where
  enabled : Bool
  budgetBytes : Nat
  deriving DecidableEq

def usizeMax : Nat := 2 ^ 64 - 1

namespace Cache

def empty : Cache := ⟨[], 0⟩

/-- `entries.get(key)`. -/
def get (cache : Cache) (key : Key) : Option Entry := cache.entries.lookup key

/-- `entries.remove(key)`, with the bytes given back. -/
def remove (cache : Cache) (key : Key) : Cache :=
  match cache.get key with
  | some entry =>
    { entries := cache.entries.filter (·.1 ≠ key), bytes := cache.bytes - entry.bytes }
  | none => cache

/-- The packed buffer for `key` if it was packed at `generation`. An entry at another generation is
dropped. -/
def lookup (settings : Settings) (cache : Cache) (key : Key) (generation : Nat) :
    Option Nat × Cache :=
  if settings.enabled then
    match cache.get key with
    | some entry =>
      if entry.generation = generation then (some entry.buffer, cache) else (none, cache.remove key)
    | none => (none, cache)
  else (none, cache)

/-- The same packing on another context. -/
def lookupOtherContext (settings : Settings) (cache : Cache) (key : Key) (generation : Nat) :
    Option Nat :=
  if settings.enabled then
    ((List.range maxContexts).filter (· ≠ key.context)).findSome? fun context =>
      match cache.get { key with context } with
      | some entry => if entry.generation = generation then some entry.buffer else none
      | none => none
  else none

def publish (settings : Settings) (cache : Cache) (key : Key) (generation buffer bytes : Nat) :
    Cache :=
  if settings.enabled then
    let cache := cache.remove key
    if min (cache.bytes + bytes) usizeMax > settings.budgetBytes then cache
    else
      { entries := (key, { generation, buffer, bytes }) :: cache.entries
        bytes := wrap64 (cache.bytes + bytes) }
  else cache

/-- Drops every entry of a binding's buffer. -/
def forget (settings : Settings) (cache : Cache) (buffer : Nat) : Cache :=
  if settings.enabled then
    let freed := wrap64 ((cache.entries.filter (·.1.buffer = buffer)).map (·.2.bytes)).sum
    { entries := cache.entries.filter (·.1.buffer ≠ buffer), bytes := cache.bytes - freed }
  else cache

/-- Drops every entry, enabled or not. -/
def clear : Cache := empty

end Cache

/-! ### What each operation can do -/

namespace Cache

variable {settings : Settings} {cache : Cache} {key other : Key} {generation buffer bytes : Nat}
  {entry : Entry}

theorem mem_of_get (h : cache.get key = some entry) : (key, entry) ∈ cache.entries := by
  obtain ⟨before, after, hsplit, -⟩ := List.lookup_eq_some_iff.mp h
  rw [hsplit]
  exact List.mem_append_right _ List.mem_cons_self

theorem mem_remove (h : (other, entry) ∈ (cache.remove key).entries) :
    (other, entry) ∈ cache.entries := by
  unfold remove at h
  split at h
  · exact (List.mem_filter.mp h).1
  · exact h

theorem ne_of_mem_remove (h : (other, entry) ∈ (cache.remove key).entries) : other ≠ key := by
  unfold remove at h
  split at h
  · simpa using (List.mem_filter.mp h).2
  next hget =>
    rintro rfl
    have hlookup := List.lookup_eq_none_iff.mp hget _ h
    simp at hlookup

theorem mem_lookup (h : (other, entry) ∈ (cache.lookup settings key generation).2.entries) :
    (other, entry) ∈ cache.entries := by
  unfold lookup at h
  split at h
  · split at h
    · split at h
      · exact h
      · exact mem_remove h
    · exact h
  · exact h

theorem lookup_some (h : (cache.lookup settings key generation).1 = some buffer) :
    settings.enabled ∧ ∃ entry, (key, entry) ∈ cache.entries ∧ entry.generation = generation ∧
      entry.buffer = buffer := by
  unfold lookup at h
  split at h
  next henabled =>
    split at h
    next entry hget =>
      split at h
      next hgeneration =>
        exact ⟨henabled, entry, mem_of_get hget, hgeneration, Option.some.inj h⟩
      · cases h
    · cases h
  · cases h

theorem lookupOtherContext_some (h : cache.lookupOtherContext settings key generation = some buffer) :
    settings.enabled ∧ ∃ context entry, ({ key with context }, entry) ∈ cache.entries ∧
      entry.generation = generation ∧ entry.buffer = buffer := by
  unfold lookupOtherContext at h
  split at h
  next henabled =>
    obtain ⟨context, -, hfound⟩ := List.exists_of_findSome?_eq_some h
    split at hfound
    next entry hget =>
      split at hfound
      next hgeneration =>
        exact ⟨henabled, context, entry, mem_of_get hget, hgeneration, Option.some.inj hfound⟩
      · cases hfound
    · cases hfound
  · cases h

/-- Publishing leaves the entries of other keys, and under its own key at most the new one. -/
theorem mem_publish (h : (other, entry) ∈
    (cache.publish settings key generation buffer bytes).entries) :
    (other ≠ key ∧ (other, entry) ∈ cache.entries) ∨
      (settings.enabled ∧ other = key ∧ entry = { generation, buffer, bytes }) ∨
      (settings.enabled = false ∧ (other, entry) ∈ cache.entries) := by
  unfold publish at h
  split at h
  next henabled =>
    simp only at h
    split at h
    · exact .inl ⟨ne_of_mem_remove h, mem_remove h⟩
    · rcases List.mem_cons.mp h with heq | hmem
      · obtain ⟨rfl, rfl⟩ := Prod.mk.inj heq
        exact .inr (.inl ⟨henabled, rfl, rfl⟩)
      · exact .inl ⟨ne_of_mem_remove hmem, mem_remove hmem⟩
  next hdisabled =>
    exact .inr (.inr ⟨by simpa using hdisabled, h⟩)

end Cache

end IreeRocket.WeightCache
