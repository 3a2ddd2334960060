import Mathlib.Data.List.Forall2
import Mathlib.Data.List.Induction
import Dbx4.CacheOrder
import Dbx4.Decimals
import Dbx4.Substrings

/-!
Inserts of `query_executor.cpp`.

An insert puts its row into the cache under the table's name and the time in seconds. Two
inserts into one table have keys of their own when the clock has moved between them.
-/

namespace Dbx4.CacheInsert

open Std Dbx4.Word32 Dbx4.Maps Dbx4.Runs Dbx4.Decimals Dbx4.Substrings Dbx4.CacheOrder

structure QueryExecutor where
  rowCache : RowCache := {}

/-- The arguments of `execute_insert`, and what the clock shows in the call. -/
structure Insert where
  tableName : Bytes
  columns : List Bytes
  values : List Bytes
  time : Int64

namespace Insert

/-- A column without a value, or a value without a column, is left out. -/
def row (insert : Insert) : Row :=
  (insert.columns.zip insert.values).foldl (fun row (column, value) => row.insert column value) ∅

/-- The table's name, `":row:"` and the time. -/
def key (insert : Insert) : Bytes :=
  insert.tableName ++ [58, 114, 111, 119, 58] ++ decimal insert.time.toInt

end Insert

def QueryExecutor.executeInsert (executor : QueryExecutor) (insert : Insert) :
    List Row × QueryExecutor :=
  ([insert.row], { executor with rowCache := executor.rowCache.put insert.key insert.row })

/-- A new executor behind the inserts. -/
def after (inserts : List Insert) : QueryExecutor :=
  run (fun executor insert => (executor.executeInsert insert).2) {} inserts

/-- Every row is in the cache behind the inserts, under a key that no other has. -/
def OwnKeys (inserts : List Insert) : Prop :=
  ∃ keys : List Bytes, keys.Nodup ∧
    List.Forall₂ (fun insert key => (after inserts).rowCache.cache[key]? = some insert.row)
      inserts keys

/-! ### Keys -/

/-- A key tells the table and the time. -/
lemma key_eq_iff (insert insert' : Insert) :
    insert.key = insert'.key ↔
      insert.tableName = insert'.tableName ∧ insert.time = insert'.time := by
  constructor
  · intro h
    have hsplit (i : Insert) :
        i.key = (i.tableName ++ [58, 114, 111, 119]) ++ 58 :: decimal i.time.toInt := by
      simp [Insert.key]
    rw [hsplit, hsplit] at h
    obtain ⟨hname, htime⟩ :=
      append_cons_inj_right (colon_notMem_decimal _) (colon_notMem_decimal _) h
    exact ⟨List.append_cancel_right hname, Int64.toInt_inj.mp (decimal_injective htime)⟩
  · rintro ⟨hname, htime⟩
    rw [Insert.key, Insert.key, hname, htime]

lemma nodup_keys_iff (inserts : List Insert) :
    (inserts.map Insert.key).Nodup ↔
      inserts.Pairwise fun i j => ¬ (i.tableName = j.tableName ∧ i.time = j.time) := by
  rw [List.Nodup, List.pairwise_map]
  exact List.Pairwise.iff fun i j => not_congr (key_eq_iff i j)

/-! ### The cache -/

def entries (inserts : List Insert) : List (Bytes × Row) := inserts.map fun i => (i.key, i.row)

/-- Nothing is evicted as long as there are few inserts. -/
lemma cache_after {inserts : List Insert} (hfew : inserts.length < maxSize) :
    (after inserts).rowCache.cache = ExtTreeMap.ofList (entries inserts) := by
  induction inserts using List.reverseRecOn with
  | nil => rfl
  | append_singleton inserts insert ih =>
    rw [List.length_append, List.length_singleton] at hfew
    have hcache := ih (by omega)
    have hroom : ¬ maxSize ≤ (after inserts).rowCache.cache.size := by
      rw [hcache, Nat.not_le]
      refine ExtTreeMap.size_ofList_le.trans_lt ?_
      rw [entries, List.length_map]
      omega
    have hstep : after (inserts ++ [insert]) = ((after inserts).executeInsert insert).2 := by
      rw [after, run_append]
      rfl
    rw [hstep, QueryExecutor.executeInsert, RowCache.put, RowCache.evict, if_neg hroom]
    dsimp only
    rw [hcache, entries, entries, List.map_append, ExtTreeMap.ofList_eq_insertMany_empty,
      ExtTreeMap.ofList_eq_insertMany_empty, ExtTreeMap.insertMany_append]
    rfl

lemma exists_of_forall₂ {α β : Type} {R : α → β → Prop} {l : List α} {l' : List β}
    (h : List.Forall₂ R l l') {b : β} (hb : b ∈ l') : ∃ a ∈ l, R a b := by
  induction h with
  | nil => cases hb
  | @cons a b' l l' hR _ ih =>
    rcases List.mem_cons.mp hb with rfl | hb
    · exact ⟨a, List.mem_cons_self, hR⟩
    · obtain ⟨a', ha', hR'⟩ := ih hb
      exact ⟨a', List.mem_cons_of_mem _ ha', hR'⟩

lemma ownKeys_iff_nodup {inserts : List Insert} (hfew : inserts.length < maxSize) :
    OwnKeys inserts ↔ (inserts.map Insert.key).Nodup := by
  rw [OwnKeys, cache_after hfew]
  have hfst : (entries inserts).map Prod.fst = inserts.map Insert.key := List.map_map
  constructor
  · rintro ⟨keys, hnodup, hall⟩
    have hsubset : keys ⊆ inserts.map Insert.key := by
      intro key hkey
      obtain ⟨i, -, hget⟩ := exists_of_forall₂ hall hkey
      rw [← hfst]
      exact List.contains_iff_mem.mp (ExtTreeMap.mem_ofList.mp (mem_of_getElem? hget))
    have hlength : (inserts.map Insert.key).length ≤ keys.length := by
      rw [List.length_map, hall.length_eq]
    have hperm := (List.subperm_of_subset hnodup hsubset).perm_of_length_le hlength
    exact hperm.nodup_iff.mp hnodup
  · intro hnodup
    refine ⟨inserts.map Insert.key, hnodup, ?_⟩
    rw [List.forall₂_map_right_iff, List.forall₂_same]
    intro insert hinsert
    refine ExtTreeMap.getElem?_ofList_of_mem ReflCmp.compare_self ?_
      (List.mem_map.mpr ⟨insert, hinsert, rfl⟩)
    rw [← hfst, List.Nodup, List.pairwise_map] at hnodup
    exact hnodup.imp fun hne heq => hne (LawfulEqOrd.eq_of_compare heq)

/-- **When every row keeps a key of its own**, with fewer inserts than the cache has room for:
when no two inserts go into the same table while the clock shows the same second. -/
theorem ownKeys_iff (inserts : List Insert) (hfew : inserts.length < maxSize) :
    OwnKeys inserts ↔
      inserts.Pairwise fun i j => ¬ (i.tableName = j.tableName ∧ i.time = j.time) :=
  (ownKeys_iff_nodup hfew).trans (nodup_keys_iff inserts)

def named (value : UInt8) (time : Int64) : Insert :=
  { tableName := [116], columns := [[97]], values := [[value]], time := time }

theorem ownKeys_later : OwnKeys [named 1 0, named 2 1] :=
  (ownKeys_iff _ (by decide)).mpr (by decide)

/-- Two inserts into one table within a second. -/
theorem not_forall_ownKeys : ¬ ∀ inserts : List Insert, inserts.length < maxSize →
    (inserts.map Insert.time).Pairwise (· ≤ ·) → OwnKeys inserts := by
  intro h
  have hown := h [named 1 0, named 2 0] (by decide) (by decide)
  have hnodup := (ownKeys_iff_nodup (by decide)).mp hown
  exact (List.nodup_cons.mp hnodup).1 List.mem_cons_self

end Dbx4.CacheInsert
