import Mathlib.Logic.Function.Basic
import Dbx4.CacheOrder

/-!
What the cache of rows answers.

The cache may have forgotten a row, but a row that it gives is the one put last under the key.
As long as no more rows have been put since the last clear than there is room for, it has
forgotten none.
-/

namespace Dbx4.CacheReads

open Std Dbx4.Word32 Dbx4.Maps Dbx4.Runs Dbx4.CacheOrder

/-- What has been put, and how often since the last clear. -/
structure Memory where
  rows : Bytes → Option Row := fun _ => none
  puts : ℕ := 0

def Memory.step (m : Memory) : Call → Memory
  | .put key row => ⟨Function.update m.rows key (some row), m.puts + 1⟩
  | .get _ _ => m
  | .erase key => { m with rows := Function.update m.rows key none }
  | .clear => {}

/-- The memory behind the calls. -/
def memory (calls : List Call) : Memory := run Memory.step {} calls

/-- A row of the cache is that of the memory, and with room for all of them none is missing. -/
structure Recalls (c : RowCache) (m : Memory) : Prop where
  sound : ∀ key row, c.cache[key]? = some row → m.rows key = some row
  complete : m.puts ≤ maxSize → ∀ key, c.cache[key]? = m.rows key
  size : m.puts ≤ maxSize → c.cache.size ≤ m.puts

lemma recalls_empty : Recalls {} {} where
  sound key row h := by
    rw [ExtTreeMap.getElem?_empty] at h
    cases h
  complete _ _ := ExtTreeMap.getElem?_empty
  size _ := le_rfl

lemma getElem?_erase (m : ExtTreeMap Bytes Row) (key key' : Bytes) :
    (m.erase key)[key']? = if key = key' then none else m[key']? := by
  rw [ExtTreeMap.getElem?_erase]
  simp only [LawfulEqOrd.compare_eq_iff_eq]

lemma getElem?_insert (m : ExtTreeMap Bytes Row) (key key' : Bytes) (row : Row) :
    (m.insert key row)[key']? = if key = key' then some row else m[key']? := by
  rw [ExtTreeMap.getElem?_insert]
  simp only [LawfulEqOrd.compare_eq_iff_eq]

lemma rows_put (m : Memory) (key key' : Bytes) (row : Row) :
    (m.step (.put key row)).rows key' = if key = key' then some row else m.rows key' := by
  refine (Function.update_apply m.rows key (some row) key').trans ?_
  simp only [eq_comm]

lemma rows_erase (m : Memory) (key key' : Bytes) :
    (m.step (.erase key)).rows key' = if key = key' then none else m.rows key' := by
  refine (Function.update_apply m.rows key none key').trans ?_
  simp only [eq_comm]

/-- An eviction forgets, and changes nothing where there is room. -/
lemma evict_recalls {c : RowCache} {m : Memory} (h : Recalls c m) :
    (∀ key row, c.evict.cache[key]? = some row → m.rows key = some row) ∧
      (m.puts + 1 ≤ maxSize → c.evict = c) := by
  refine ⟨fun key row hrow => ?_, fun hroom => ?_⟩
  · unfold RowCache.evict at hrow
    split_ifs at hrow with hfull
    · rcases hlru : c.lruOrder with _ | ⟨oldest, rest⟩
      · rw [hlru] at hrow
        exact h.sound key row hrow
      · rw [hlru] at hrow
        dsimp only at hrow
        rw [getElem?_erase] at hrow
        split_ifs at hrow
        exact h.sound key row hrow
    · exact h.sound key row hrow
  · have hsize := h.size (by omega)
    exact if_neg (by omega)

lemma recalls_put {c : RowCache} {m : Memory} (h : Recalls c m) (key : Bytes) (row : Row) :
    Recalls (c.put key row) (m.step (.put key row)) := by
  obtain ⟨hsound, hsame⟩ := evict_recalls h
  refine ⟨fun key' row' hrow => ?_, fun hroom key' => ?_, fun hroom => ?_⟩
  · have hrow' : (c.evict.cache.insert key row)[key']? = some row' := hrow
    rw [getElem?_insert] at hrow'
    rw [rows_put]
    split_ifs at hrow' ⊢
    · exact hrow'
    · exact hsound key' row' hrow'
  · have hroom' : m.puts + 1 ≤ maxSize := hroom
    change (c.evict.cache.insert key row)[key']? = _
    rw [hsame hroom', getElem?_insert, rows_put, h.complete (by omega)]
  · have hroom' : m.puts + 1 ≤ maxSize := hroom
    have hsize := h.size (by omega)
    have hinsert := ExtTreeMap.size_insert_le (t := c.cache) (k := key) (v := row)
    change (c.evict.cache.insert key row).size ≤ m.puts + 1
    rw [hsame hroom']
    omega

lemma recalls_erase {c : RowCache} {m : Memory} (h : Recalls c m) (key : Bytes) :
    Recalls (c.erase key) (m.step (.erase key)) := by
  refine ⟨fun key' row' hrow => ?_, fun hroom key' => ?_, fun hroom => ?_⟩
  · have hrow' : (c.cache.erase key)[key']? = some row' := hrow
    rw [getElem?_erase] at hrow'
    rw [rows_erase]
    split_ifs at hrow' ⊢
    exact h.sound key' row' hrow'
  · change (c.cache.erase key)[key']? = _
    rw [getElem?_erase, rows_erase, h.complete hroom]
  · exact ExtTreeMap.size_erase_le.trans (h.size hroom)

/-- **One call** keeps the cache and the memory together. -/
theorem recalls_step (c : RowCache) (m : Memory) (call : Call) (h : Recalls c m) :
    Recalls (step c call) (m.step call) := by
  cases call with
  | put key row => exact recalls_put h key row
  | get key row => exact h
  | erase key => exact recalls_erase h key
  | clear => exact recalls_empty

/-- **The cache may forget, but it does not make up**: after any calls, a row that `get` finds is
the one put last under the key and neither erased nor cleared since; where it finds none the
caller's row stays. With no more puts since the last clear than there is room for, it finds
every row. -/
theorem get_run (calls : List Call) (key : Bytes) (row : Row) :
    (∀ r, (run step {} calls).get key row = (true, r) → (memory calls).rows key = some r) ∧
      (∀ r, (run step {} calls).get key row = (false, r) → r = row) ∧
      ((memory calls).puts ≤ maxSize → (run step {} calls).get key row =
        (((memory calls).rows key).isSome, ((memory calls).rows key).getD row)) := by
  have h : Recalls (run step {} calls) (memory calls) := run_sim recalls_step recalls_empty calls
  rw [RowCache.get]
  rcases hfound : (run step {} calls).cache[key]? with _ | cached
  · refine ⟨fun r hr => ?_, fun r hr => ?_, fun hroom => ?_⟩
    · cases hr
    · cases hr
      rfl
    · rw [← h.complete hroom, hfound]
      rfl
  · refine ⟨fun r hr => ?_, fun r hr => ?_, fun hroom => ?_⟩
    · cases hr
      exact h.sound key _ hfound
    · cases hr
    · rw [← h.complete hroom, hfound]
      rfl

end Dbx4.CacheReads
