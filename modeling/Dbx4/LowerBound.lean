import Mathlib.Data.List.Sort

/-!
Binary search in a sorted list, as the C++ library makes it.

The search halves the part of the list that can still hold the bound, and ends on the first
element that is not below the value sought.
-/

namespace Dbx4.LowerBound

universe u

variable {K : Type u} [LinearOrder K]

/-- The search among the `len` elements from `first` on. -/
def lowerBoundFrom (keys : List K) (value : K) (first len : ℕ)
    (h : first + len ≤ keys.length) : ℕ :=
  if hlen : 0 < len then
    let half := len / 2
    let middle := first + half
    have hhalf : half < len := Nat.div_lt_self hlen (by decide)
    if keys[middle] < value then
      lowerBoundFrom keys value (middle + 1) (len - half - 1) (by omega)
    else lowerBoundFrom keys value first half (by omega)
  else first
termination_by len
decreasing_by
  · omega
  · omega

/-- `std::lower_bound` over a whole list. -/
def lowerBound (keys : List K) (value : K) : ℕ :=
  lowerBoundFrom keys value 0 keys.length (Nat.zero_add _).le

/-- `std::binary_search` over a whole list. -/
def binarySearch (keys : List K) (value : K) : Bool :=
  match keys[lowerBound keys value]? with
  | some key => !decide (value < key)
  | none => false

/-- `i` parts the elements below the value from the others. -/
structure Parts (keys : List K) (value : K) (i : ℕ) : Prop where
  le : i ≤ keys.length
  below : ∀ j (hj : j < keys.length), j < i → keys[j] < value
  above : ∀ j (hj : j < keys.length), i ≤ j → value ≤ keys[j]

lemma getElem_le_of_le {keys : List K} (hsorted : keys.Pairwise (· ≤ ·)) {i j : ℕ}
    (hj : j < keys.length) (hij : i ≤ j) : keys[i] ≤ keys[j] := by
  rcases Nat.lt_or_eq_of_le hij with hlt | rfl
  · exact List.pairwise_iff_getElem.mp hsorted i j _ hj hlt
  · exact le_refl _

/-- What is left out of the search on either side stays on its side of the value. -/
lemma lowerBoundFrom_parts {keys : List K} (hsorted : keys.Pairwise (· ≤ ·)) {value : K}
    {first len : ℕ} (h : first + len ≤ keys.length)
    (hbelow : ∀ j (hj : j < keys.length), j < first → keys[j] < value)
    (habove : ∀ j (hj : j < keys.length), first + len ≤ j → value ≤ keys[j]) :
    Parts keys value (lowerBoundFrom keys value first len h) := by
  fun_induction lowerBoundFrom keys value first len h with
  | case1 first len h hlen half middle hhalf hmid ih =>
    refine ih (fun j hj hlt => ?_) fun j hj hge => habove j hj (by omega)
    exact (getElem_le_of_le hsorted _ (Nat.le_of_lt_succ hlt)).trans_lt hmid
  | case2 first len h hlen half middle hhalf hmid ih =>
    refine ih hbelow fun j hj hge => ?_
    exact (not_lt.mp hmid).trans (getElem_le_of_le hsorted hj hge)
  | case3 first len h hlen =>
    exact ⟨by omega, hbelow, fun j hj hge => habove j hj (by omega)⟩

/-- **The lower bound** parts a sorted list in two. -/
theorem lowerBound_spec {keys : List K} (hsorted : keys.Pairwise (· ≤ ·)) (value : K) :
    ∃ below above, keys = below ++ above ∧ lowerBound keys value = below.length ∧
      (∀ key ∈ below, key < value) ∧ ∀ key ∈ above, value ≤ key := by
  have hparts : Parts keys value (lowerBound keys value) := by
    refine lowerBoundFrom_parts hsorted _ (fun j _ hlt => absurd hlt (Nat.not_lt_zero j)) ?_
    exact fun j hj hge => absurd hj (by omega)
  refine ⟨keys.take (lowerBound keys value), keys.drop (lowerBound keys value),
    (List.take_append_drop _ _).symm, (List.length_take_of_le hparts.le).symm, ?_, ?_⟩
  · intro key hkey
    obtain ⟨j, hj, rfl⟩ := List.mem_take_iff_getElem.mp hkey
    exact hparts.below j _ (Nat.lt_min.mp hj).1
  · intro key hkey
    obtain ⟨j, hj, rfl⟩ := List.mem_drop_iff_getElem.mp hkey
    exact hparts.above _ _ (Nat.le_add_right _ _)

/-- The first element that is not below the value is the value, when it is there at all. -/
lemma getElem?_lowerBound_iff {keys : List K} (hsorted : keys.Pairwise (· ≤ ·)) (value : K) :
    keys[lowerBound keys value]? = some value ↔ value ∈ keys := by
  refine ⟨List.mem_of_getElem?, fun hmem => ?_⟩
  obtain ⟨below, above, rfl, hbound, hbelow, habove⟩ := lowerBound_spec hsorted value
  rw [hbound, List.getElem?_append_right (le_refl _), Nat.sub_self]
  rcases List.mem_append.mp hmem with hmem | hmem
  · exact absurd (hbelow value hmem) (lt_irrefl value)
  · rcases above with _ | ⟨key, above⟩
    · cases hmem
    · rcases List.mem_cons.mp hmem with rfl | hlater
      · rfl
      · have hfirst := (List.pairwise_append.mp hsorted).2.1
        have hle := (List.pairwise_cons.mp hfirst).1 value hlater
        exact congrArg some (le_antisymm hle (habove key List.mem_cons_self))

/-- **Binary search** finds what a sorted list has. -/
theorem binarySearch_iff {keys : List K} (hsorted : keys.Pairwise (· ≤ ·)) (value : K) :
    binarySearch keys value = true ↔ value ∈ keys := by
  rw [← getElem?_lowerBound_iff hsorted value]
  obtain ⟨below, above, rfl, hbound, -, habove⟩ := lowerBound_spec hsorted value
  unfold binarySearch
  rw [hbound, List.getElem?_append_right (le_refl _), Nat.sub_self]
  rcases above with _ | ⟨key, above⟩
  · simp
  · have hle := habove key List.mem_cons_self
    simp only [List.getElem?_cons_zero, Option.some_inj, Bool.not_eq_true',
      decide_eq_false_iff_not, not_lt]
    exact ⟨fun h => le_antisymm h hle, fun h => h.le⟩

/-- An element that is not there goes to its lower bound. -/
lemma pairwise_insertIdx_lowerBound {keys : List K} (hsorted : keys.Pairwise (· < ·)) {value : K}
    (hnew : value ∉ keys) : (keys.insertIdx (lowerBound keys value) value).Pairwise (· < ·) := by
  obtain ⟨below, above, rfl, hbound, hbelow, habove⟩ :=
    lowerBound_spec (hsorted.imp le_of_lt) value
  have hinsert : (below ++ above).insertIdx below.length value = below ++ value :: above := by
    clear hsorted hnew hbound hbelow habove
    induction below with
    | nil => rfl
    | cons key below ih => exact congrArg (key :: ·) ih
  obtain ⟨hsorted, hsorted', hcross⟩ := List.pairwise_append.mp hsorted
  have habove' : ∀ key ∈ above, value < key := by
    refine fun key hkey => lt_of_le_of_ne (habove key hkey) ?_
    rintro rfl
    exact hnew (List.mem_append_right _ hkey)
  rw [hbound, hinsert]
  refine List.pairwise_append.mpr ⟨hsorted, List.pairwise_cons.mpr ⟨habove', hsorted'⟩, ?_⟩
  intro key hkey key' hkey'
  rcases List.mem_cons.mp hkey' with rfl | hkey'
  · exact hbelow key hkey
  · exact hcross key hkey key' hkey'

end Dbx4.LowerBound
