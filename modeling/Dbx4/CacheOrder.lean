import Dbx4.Maps
import Dbx4.Runs
import Dbx4.Word32

/-!
The cache of rows in front of the query executor.

The cache keeps its keys twice, in a map and in a list that has the oldest first. A key that
is put again is listed again, and from then on the two are out of step.
-/

namespace Dbx4.CacheOrder

open Std Dbx4.Word32 Dbx4.Maps Dbx4.Runs

abbrev Row := ExtTreeMap Bytes Bytes

def maxSize : ℕ := 10000

structure RowCache where
  cache : ExtTreeMap Bytes Row := ∅
  lruOrder : List Bytes := []

namespace RowCache

/-- What has to go before a put. -/
def evict (c : RowCache) : RowCache :=
  if maxSize ≤ c.cache.size then
    match c.lruOrder with
    | [] => c
    | oldest :: lruOrder => ⟨c.cache.erase oldest, lruOrder⟩
  else c

def put (c : RowCache) (key : Bytes) (row : Row) : RowCache :=
  let c := c.evict
  ⟨c.cache.insert key row, c.lruOrder ++ [key]⟩

/-- Whether the key is there, and the caller's row behind the call. -/
def get (c : RowCache) (key : Bytes) (row : Row) : Bool × Row :=
  match c.cache[key]? with
  | some cached => (true, cached)
  | none => (false, row)

/-- Only the first place of the key in the list goes. -/
def erase (c : RowCache) (key : Bytes) : RowCache :=
  ⟨c.cache.erase key, c.lruOrder.erase key⟩

def clear (_ : RowCache) : RowCache := ⟨∅, []⟩

end RowCache

inductive Call
  | put (key : Bytes) (row : Row)
  | get (key : Bytes) (row : Row)
  | erase (key : Bytes)
  | clear

def step (c : RowCache) : Call → RowCache
  | .put key row => c.put key row
  | .get _ _ => c
  | .erase key => c.erase key
  | .clear => c.clear

/-- The cache has at most its size, and its list names every key of its map exactly once and no
other. -/
def InStep (c : RowCache) : Prop := c.cache.size ≤ maxSize ∧ Listed c.lruOrder c.cache

/-- A key that is put is not there, or has to go for itself. -/
def PutsFresh (c : RowCache) : Call → Prop
  | .put key _ => key ∉ c.cache ∨ (maxSize ≤ c.cache.size ∧ c.lruOrder.head? = some key)
  | .get _ _ => True
  | .erase _ => True
  | .clear => True

/-- The cache has room behind an eviction; only the oldest key can have gone. -/
lemma evict_spec {c : RowCache} (h : InStep c) :
    c.evict.cache.size < maxSize ∧ Listed c.evict.lruOrder c.evict.cache ∧
      ∀ key, key ∉ c.evict.cache ↔
        key ∉ c.cache ∨ (maxSize ≤ c.cache.size ∧ c.lruOrder.head? = some key) := by
  obtain ⟨hsize, hlisted⟩ := h
  rw [RowCache.evict]
  split_ifs with hfull
  · rcases hlru : c.lruOrder with _ | ⟨oldest, rest⟩
    · have hlen := hlisted.length_eq
      rw [hlru, List.length_nil] at hlen
      rw [← hlen] at hfull
      exact absurd hfull (by decide)
    · rw [hlru] at hlisted
      have htail := hlisted.tail
      have hlen := hlisted.length_eq
      have hlen' := htail.length_eq
      rw [List.length_cons] at hlen
      refine ⟨by dsimp only; omega, htail, fun key => ?_⟩
      rw [mem_erase_iff, List.head?_cons, Option.some_inj]
      tauto
  · refine ⟨Nat.lt_of_not_le hfull, hlisted, fun key => ?_⟩
    rw [or_iff_left fun h => hfull h.1]

/-- **One call**: only a put can take the cache out of step, of a key that stays. -/
lemma inStep_step_iff (c : RowCache) (call : Call) (h : InStep c) :
    InStep (step c call) ↔ PutsFresh c call := by
  cases call with
  | put key row =>
    obtain ⟨hroom, hlisted, hgone⟩ := evict_spec h
    have hsize : (c.evict.cache.insert key row).size ≤ maxSize :=
      ExtTreeMap.size_insert_le.trans hroom
    rw [InStep, step, RowCache.put, and_iff_right hsize, hlisted.concat_iff, hgone, PutsFresh]
  | get key row => exact iff_of_true h trivial
  | erase key =>
    exact iff_of_true ⟨ExtTreeMap.size_erase_le.trans h.1, h.2.erase key⟩ trivial
  | clear => exact iff_of_true ⟨Nat.zero_le _, Listed.empty⟩ trivial

/-- **When the list and the map stay in step**: when no key that is there is put, unless it is
the oldest of a full cache. -/
theorem always_inStep_iff (calls : List Call) :
    Always step InStep {} calls ↔ Along step PutsFresh {} calls :=
  always_iff_along inStep_step_iff ⟨Nat.zero_le _, Listed.empty⟩

/-- A key that is put twice is listed twice. -/
theorem not_always_inStep_twice : ¬ ∀ calls, Always step InStep {} calls := by
  intro h
  have hempty : ({} : RowCache).evict = {} := if_neg (by decide)
  have hfirst := h [.put [97] ∅, .put [97] ∅] [.put [97] ∅] [.put [97] ∅] rfl
  have hsecond := h [.put [97] ∅, .put [97] ∅] _ [] (List.append_nil _).symm
  rcases (inStep_step_iff _ (.put [97] ∅) hfirst).mp hsecond with hnew | ⟨hfull, -⟩
  · exact hnew ExtTreeMap.mem_insert_self
  · have hone : (({} : RowCache).evict.cache.insert [97] ∅).size ≤ 1 := by
      rw [hempty]
      exact ExtTreeMap.size_insert_le
    exact absurd (hfull.trans hone) (by decide)

end Dbx4.CacheOrder
