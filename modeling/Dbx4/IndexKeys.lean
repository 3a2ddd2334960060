import Mathlib.Data.List.Induction
import Dbx4.LowerBound
import Dbx4.Runs

/-!
The index of `indexing.cpp`.

The index is a single node. Its keys stay sorted, and so the search for a key and the search
for its place are both binary.
-/

namespace Dbx4.IndexKeys

open Dbx4.LowerBound Dbx4.Runs

universe u

variable {K : Type u} [LinearOrder K]

structure BTreeNode (K : Type u) where
  keys : List K := []

def BTreeNode.insertKey (node : BTreeNode K) (key : K) : BTreeNode K :=
  let pos := lowerBound node.keys key
  if node.keys[pos]? = some key then node
  else { node with keys := node.keys.insertIdx pos key }

def BTreeNode.contains (node : BTreeNode K) (key : K) : Bool := binarySearch node.keys key

structure BTreeIndex (K : Type u) where
  root : Option (BTreeNode K) := some {}

def BTreeIndex.insert (index : BTreeIndex K) (key : K) : BTreeIndex K :=
  match index.root with
  | none => { index with root := some (BTreeNode.insertKey {} key) }
  | some root => { index with root := some (root.insertKey key) }

def BTreeIndex.search (index : BTreeIndex K) (key : K) : Bool :=
  match index.root with
  | none => false
  | some root => root.contains key

/-- The root has the keys `s` in strictly increasing order. -/
def Holds (index : BTreeIndex K) (s : Set K) : Prop :=
  ∃ root, index.root = some root ∧ root.keys.Pairwise (· < ·) ∧ ∀ key, key ∈ root.keys ↔ key ∈ s

lemma holds_empty : Holds ({} : BTreeIndex K) ∅ :=
  ⟨{}, rfl, List.Pairwise.nil, fun _ => iff_of_false List.not_mem_nil id⟩

lemma Holds.search_iff {index : BTreeIndex K} {s : Set K} (h : Holds index s) (key : K) :
    index.search key = true ↔ key ∈ s := by
  obtain ⟨root, hroot, hsorted, hmem⟩ := h
  rw [← hmem, BTreeIndex.search, hroot]
  exact binarySearch_iff (hsorted.imp le_of_lt) key

lemma Holds.insert {index : BTreeIndex K} {s : Set K} (h : Holds index s) (key : K) :
    Holds (index.insert key) (Insert.insert key s) := by
  obtain ⟨root, hroot, hsorted, hmem⟩ := h
  refine ⟨root.insertKey key, by simp only [BTreeIndex.insert, hroot], ?_⟩
  simp only [BTreeNode.insertKey, getElem?_lowerBound_iff (hsorted.imp le_of_lt)]
  split_ifs with hkey
  · refine ⟨hsorted, fun key' => ?_⟩
    rw [hmem, Set.mem_insert_iff, or_iff_right_of_imp]
    rintro rfl
    exact (hmem _).mp hkey
  · refine ⟨pairwise_insertIdx_lowerBound hsorted hkey, fun key' => ?_⟩
    obtain ⟨_, _, hsplit, hbound, -⟩ := lowerBound_spec (hsorted.imp le_of_lt) key
    have hle : lowerBound root.keys key ≤ root.keys.length := by
      rw [hbound, hsplit, List.length_append]
      exact Nat.le_add_right _ _
    rw [List.mem_insertIdx hle, Set.mem_insert_iff, hmem]

lemma holds_run (keys : List K) : Holds (run BTreeIndex.insert {} keys) {key | key ∈ keys} := by
  induction keys using List.reverseRecOn with
  | nil => simpa using holds_empty
  | append_singleton keys key ih =>
    have hset : {key' | key' ∈ keys ++ [key]} = Insert.insert key {key' | key' ∈ keys} := by
      ext key'
      simp [or_comm]
    rw [run_append, hset]
    exact ih.insert key

/-- **The index** has its keys in strictly increasing order and finds those that were
inserted. -/
theorem search_run_insert (keys : List K) :
    ∃ root, (run BTreeIndex.insert {} keys).root = some root ∧ root.keys.Pairwise (· < ·) ∧
      ∀ key, (run BTreeIndex.insert {} keys).search key = true ↔ key ∈ keys := by
  obtain ⟨root, hroot, hsorted, -⟩ := holds_run keys
  exact ⟨root, hroot, hsorted, (holds_run keys).search_iff⟩

end Dbx4.IndexKeys
