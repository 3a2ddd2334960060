import Std.Data.ExtTreeMap
import Std.Data.ExtTreeSet
import Mathlib.Data.Finset.Card

/-!
Ordered maps and maps of maps: counting entries, putting in a list of them, changing the values
at a list of keys, and maps whose keys are listed beside them.
-/

namespace Dbx4.Maps

open Std

universe u v w

variable {κ : Type u} {ι : Type v} {β : Type w} [Ord κ] [TransOrd κ] [LawfulEqOrd κ]
  [Ord ι] [TransOrd ι] [LawfulEqOrd ι]

/-- The entries with a property are counted by the set of their keys. -/
theorem countP_toList [DecidableEq κ] (m : ExtTreeMap κ β) (p : β → Bool) (s : Finset κ)
    (hs : ∀ k, k ∈ s ↔ ∃ v, m[k]? = some v ∧ p v) :
    m.toList.countP (fun e => p e.2) = s.card := by
  set keys := (m.toList.filter fun e => p e.2).map Prod.fst with hkeys
  have hnodup : keys.Nodup := by
    rw [hkeys, List.Nodup, List.pairwise_map]
    refine (m.distinct_keys_toList.filter _).imp fun {a b} hab he => hab ?_
    rw [he]
    exact ReflCmp.compare_self
  have hmem : keys.toFinset = s := by
    ext k
    simp only [hkeys, List.mem_toFinset, List.mem_map, List.mem_filter, hs, Prod.exists,
      ExtTreeMap.mem_toList_iff_getElem?_eq_some]
    refine ⟨?_, fun ⟨v, hv, hp⟩ => ⟨k, v, ⟨hv, hp⟩, rfl⟩⟩
    rintro ⟨_, v, ⟨hv, hp⟩, rfl⟩
    exact ⟨v, hv, hp⟩
  rw [List.countP_eq_length_filter, ← hmem, List.toFinset_card_of_nodup hnodup, hkeys,
    List.length_map]

omit [LawfulEqOrd κ] in
lemma mem_of_getElem? {m : ExtTreeMap κ β} {k : κ} {v : β} (h : m[k]? = some v) : k ∈ m := by
  rw [ExtTreeMap.mem_iff_isSome_getElem?, h, Option.isSome_some]

omit [LawfulEqOrd κ] in
lemma not_mem_of_getElem? {m : ExtTreeMap κ β} {k : κ} (h : m[k]? = none) : k ∉ m := by
  rw [ExtTreeMap.mem_iff_isSome_getElem?, h]
  simp

lemma getElem?_insert_of_ne (m : ExtTreeMap κ β) {k k' : κ} (h : k ≠ k') (v : β) :
    (m.insert k v)[k']? = m[k']? := by
  rw [ExtTreeMap.getElem?_insert, if_neg (by rwa [LawfulEqOrd.compare_eq_iff_eq])]

/-- Only storing what is there leaves a map as it is. -/
lemma insert_eq_self_iff (m : ExtTreeMap κ β) (k : κ) (v : β) :
    m.insert k v = m ↔ m[k]? = some v := by
  refine ⟨fun h => ?_, fun h => ?_⟩
  · rw [← h, ExtTreeMap.getElem?_insert_self]
  · ext k' : 1
    rw [ExtTreeMap.getElem?_insert]
    split_ifs with hk
    · rw [← LawfulEqOrd.eq_of_compare hk, h]
    · rfl

lemma getElem?_erase_of_ne (m : ExtTreeMap κ β) {k k' : κ} (h : k ≠ k') :
    (m.erase k)[k']? = m[k']? := by
  rw [ExtTreeMap.getElem?_erase, if_neg (by rwa [LawfulEqOrd.compare_eq_iff_eq])]

lemma mem_insert_iff (m : ExtTreeMap κ β) (k k' : κ) (v : β) :
    k' ∈ m.insert k v ↔ k = k' ∨ k' ∈ m := by
  rw [ExtTreeMap.mem_insert, LawfulEqOrd.compare_eq_iff_eq]

lemma mem_erase_iff (m : ExtTreeMap κ β) (k k' : κ) : k' ∈ m.erase k ↔ k ≠ k' ∧ k' ∈ m := by
  rw [ExtTreeMap.mem_erase, ne_eq, LawfulEqOrd.compare_eq_iff_eq]

lemma getElem?_modify [DecidableEq κ] (m : ExtTreeMap κ β) (f : β → β) (k k' : κ) :
    (m.modify k f)[k']? = if k = k' then m[k']?.map f else m[k']? := by
  rw [ExtTreeMap.getElem?_modify]
  by_cases h : k = k'
  · subst h; simp
  · simp [h]

open Classical in
/-- Modifying every key of a list: each is changed once when changing twice is changing once. -/
theorem getElem?_foldl_modify {f : β → β} (hf : ∀ b, f (f b) = f b) (ks : List κ)
    (m : ExtTreeMap κ β) (k : κ) :
    (ks.foldl (fun m k => m.modify k f) m)[k]? = if k ∈ ks then m[k]?.map f else m[k]? := by
  induction ks generalizing m with
  | nil => simp
  | cons k' ks ih =>
    rw [List.foldl_cons, ih, getElem?_modify]
    by_cases hk : k' = k
    · subst hk
      have hff : f ∘ f = f := funext hf
      by_cases hks : k' ∈ ks <;> simp [hks, hff]
    · by_cases hks : k ∈ ks <;> simp [hk, hks, Ne.symm hk]

/-- Copying the entries of a map at a list of keys. -/
lemma getElem?_foldl_copy [DecidableEq κ] (row : ExtTreeMap κ β)
    {copy : ExtTreeMap κ β → κ → ExtTreeMap κ β}
    (hcopy : ∀ m k, copy m k = row[k]?.elim m fun v => m.insert k v) (ks : List κ)
    (m : ExtTreeMap κ β) (k : κ) :
    (ks.foldl copy m)[k]? = if k ∈ ks then row[k]?.or m[k]? else m[k]? := by
  induction ks generalizing m with
  | nil => simp
  | cons k' ks ih =>
    rw [List.foldl_cons, ih, hcopy]
    by_cases hk : k' = k
    · subst hk
      rcases row[k']? with _ | v <;> simp
    · have hsame : (row[k']?.elim m fun v => m.insert k' v)[k]? = m[k]? := by
        rcases row[k']? with _ | v
        · rfl
        · exact getElem?_insert_of_ne m hk v
      rw [hsame]
      simp [Ne.symm hk]

/-- A new last key comes last. -/
lemma toList_insert_of_forall_lt (m : ExtTreeMap κ β) {k : κ} (v : β)
    (h : ∀ k' ∈ m, compare k' k = .lt) : (m.insert k v).toList = m.toList ++ [(k, v)] := by
  have hordered : (m.toList ++ [(k, v)]).Pairwise fun a b => compare a.1 b.1 = .lt := by
    refine List.pairwise_append.mpr ⟨m.ordered_keys_toList, List.pairwise_singleton _ _, ?_⟩
    intro a ha b hb
    rw [List.mem_singleton.mp hb]
    exact h a.1 (mem_of_getElem? (ExtTreeMap.mem_toList_iff_getElem?_eq_some.mp ha))
  have hne : ∀ a b : κ × β, compare a.1 b.1 = .lt → a ≠ b := by
    rintro a b hlt rfl
    cases hlt.symm.trans ReflCmp.compare_self
  refine List.Perm.eq_of_pairwise ?_ (m.insert k v).ordered_keys_toList hordered ?_
  · intro a b _ _ hab hba
    rw [← OrientedCmp.gt_iff_lt, hab] at hba
    cases hba
  · refine (List.perm_ext_iff_of_nodup (((m.insert k v).ordered_keys_toList).imp (hne _ _))
      (hordered.imp (hne _ _))).mpr ?_
    rintro ⟨k', v'⟩
    rw [ExtTreeMap.mem_toList_iff_getElem?_eq_some, List.mem_append, List.mem_singleton,
      ExtTreeMap.mem_toList_iff_getElem?_eq_some, ExtTreeMap.getElem?_insert]
    split_ifs with hk
    · obtain rfl := LawfulEqOrd.eq_of_compare hk
      have hnone : m[k]? = none := by
        by_contra hsome
        obtain ⟨v'', hv⟩ := Option.ne_none_iff_exists'.mp hsome
        cases (h k (mem_of_getElem? hv)).symm.trans ReflCmp.compare_self
      simp [hnone, eq_comm]
    · have hne : k' ≠ k := by
        rintro rfl
        exact hk ReflCmp.compare_self
      simp [hne]

/-- Every entry was there, or is one of those put in. -/
lemma mem_or_getElem?_of_insertMany {m : ExtTreeMap κ β} {l : List (κ × β)} {k : κ} {v : β}
    (h : (m.insertMany l)[k]? = some v) : (k, v) ∈ l ∨ m[k]? = some v := by
  induction l generalizing m with
  | nil => exact Or.inr (by rwa [ExtTreeMap.insertMany_nil] at h)
  | cons e l ih =>
    rw [ExtTreeMap.insertMany_cons] at h
    rcases ih h with hmem | hm
    · exact Or.inl (List.mem_cons_of_mem _ hmem)
    · rw [ExtTreeMap.getElem?_insert] at hm
      split_ifs at hm with hk
      · cases hm
        rw [← LawfulEqOrd.eq_of_compare hk]
        exact Or.inl (List.mem_cons_self ..)
      · exact Or.inr hm

/-- A map is made of its entries. -/
lemma ofList_toList (m : ExtTreeMap κ β) : ExtTreeMap.ofList m.toList = m := by
  refine ExtTreeMap.ext_getElem? fun k => ?_
  rw [ExtTreeMap.ofList_eq_insertMany_empty]
  rcases hk : m[k]? with _ | v
  · by_contra hsome
    obtain ⟨v, hv⟩ := Option.ne_none_iff_exists'.mp hsome
    have hmem := (mem_or_getElem?_of_insertMany hv).resolve_right (by simp)
    rw [ExtTreeMap.mem_toList_iff_getElem?_eq_some, hk] at hmem
    cases hmem
  · rw [← ExtTreeMap.ofList_eq_insertMany_empty]
    exact ExtTreeMap.getElem?_ofList_of_mem ReflCmp.compare_self m.distinct_keys_toList
      (ExtTreeMap.mem_toList_iff_getElem?_eq_some.mpr hk)

/-! ### Maps whose keys are listed -/

/-- The list names every key of the map exactly once, and no other. -/
def Listed (keys : List κ) (m : ExtTreeMap κ β) : Prop := keys.Nodup ∧ ∀ k, k ∈ keys ↔ k ∈ m

namespace Listed

variable {keys : List κ} {m : ExtTreeMap κ β} {k : κ}

omit [LawfulEqOrd κ] in
lemma empty : Listed [] (∅ : ExtTreeMap κ β) := ⟨List.nodup_nil, fun k => by simp⟩

lemma length_eq (h : Listed keys m) : keys.length = m.size := by
  have hperm : keys.Perm m.keys := by
    rw [List.perm_ext_iff_of_nodup h.1 m.nodup_keys]
    intro k
    rw [h.2 k, ExtTreeMap.mem_keys]
  rw [hperm.length_eq, ExtTreeMap.length_keys]

/-- The entries of a map in any order list its keys. -/
lemma of_perm {entries : List (κ × β)} (h : entries.Perm m.toList) :
    Listed (entries.map Prod.fst) m := by
  have hperm : (entries.map Prod.fst).Perm m.keys := by
    rw [← ExtTreeMap.map_fst_toList_eq_keys]
    exact h.map Prod.fst
  exact ⟨hperm.nodup_iff.mpr m.nodup_keys, fun k => hperm.mem_iff.trans ExtTreeMap.mem_keys⟩

/-- A map has no more entries than a set with all its keys. -/
lemma size_le_card [DecidableEq κ] (h : Listed keys m) {s : Finset κ} (hs : ∀ k ∈ m, k ∈ s) :
    m.size ≤ s.card := by
  rw [← h.length_eq, ← List.toFinset_card_of_nodup h.1]
  exact Finset.card_le_card fun k hk => hs k ((h.2 k).mp (List.mem_toFinset.mp hk))

/-- A key put in and listed last. -/
lemma concat_iff (h : Listed keys m) (v : β) :
    Listed (keys ++ [k]) (m.insert k v) ↔ k ∉ m := by
  have hmem : ∀ k', k' ∈ keys ++ [k] ↔ k' ∈ m.insert k v := by
    intro k'
    rw [List.mem_append, List.mem_singleton, h.2 k', mem_insert_iff, or_comm, eq_comm]
  rw [Listed, and_iff_left hmem, ← List.concat_eq_append, List.nodup_concat, h.2 k,
    and_iff_left h.1]

/-- The first key taken out. -/
lemma tail (h : Listed (k :: keys) m) : Listed keys (m.erase k) := by
  obtain ⟨hnodup, hmem⟩ := h
  rw [List.nodup_cons] at hnodup
  refine ⟨hnodup.2, fun k' => ?_⟩
  rw [mem_erase_iff, ← hmem k', List.mem_cons]
  constructor
  · intro hk'
    exact ⟨fun heq => hnodup.1 (heq ▸ hk'), Or.inr hk'⟩
  · rintro ⟨hne, rfl | hk'⟩
    · exact absurd rfl hne
    · exact hk'

lemma erase [BEq κ] [LawfulBEq κ] (h : Listed keys m) (k : κ) :
    Listed (keys.erase k) (m.erase k) := by
  refine ⟨h.1.erase k, fun k' => ?_⟩
  rw [h.1.mem_erase_iff, h.2 k', mem_erase_iff, ne_comm]

end Listed

/-! ### Maps of maps -/

/-- The value under two keys. -/
def lookup₂ (m : ExtTreeMap κ (ExtTreeMap ι β)) (k : κ) (i : ι) : Option β :=
  m[k]?.bind fun row => row[i]?

/-- Modifying the values under many pairs of keys, given as rows of a list. -/
def modifyRows (f : β → β) (rows : List (κ × ExtTreeSet ι)) (m : ExtTreeMap κ (ExtTreeMap ι β)) :
    ExtTreeMap κ (ExtTreeMap ι β) :=
  rows.foldl (fun m row => m.modify row.1 fun inner =>
    row.2.toList.foldl (fun inner i => inner.modify i f) inner) m

omit [LawfulEqOrd κ] [LawfulEqOrd ι] in
lemma mem_modifyRows (f : β → β) (rows : List (κ × ExtTreeSet ι))
    (m : ExtTreeMap κ (ExtTreeMap ι β)) (k : κ) : k ∈ modifyRows f rows m ↔ k ∈ m := by
  unfold modifyRows
  induction rows generalizing m with
  | nil => rfl
  | cons row rows ih => rw [List.foldl_cons, ih, ExtTreeMap.mem_modify]

open Classical in
lemma lookup₂_modify {f : β → β} (hf : ∀ b, f (f b) = f b) (m : ExtTreeMap κ (ExtTreeMap ι β))
    (k k' : κ) (is : ExtTreeSet ι) (i : ι) :
    lookup₂ (m.modify k fun inner => is.toList.foldl (fun inner i => inner.modify i f) inner) k' i
      = if k = k' ∧ i ∈ is then (lookup₂ m k' i).map f else lookup₂ m k' i := by
  rw [lookup₂, lookup₂, getElem?_modify]
  by_cases hk : k = k'
  · subst hk
    rcases m[k]? with _ | inner
    · simp
    · simp only [if_true, Option.map_some, Option.bind_some, true_and, getElem?_foldl_modify hf,
        ExtTreeSet.mem_toList]
  · simp [hk]

open Classical in
theorem lookup₂_modifyRows {f : β → β} (hf : ∀ b, f (f b) = f b) (rows : List (κ × ExtTreeSet ι))
    (m : ExtTreeMap κ (ExtTreeMap ι β)) (k : κ) (i : ι) :
    lookup₂ (modifyRows f rows m) k i =
      if ∃ row ∈ rows, row.1 = k ∧ i ∈ row.2 then (lookup₂ m k i).map f
      else lookup₂ m k i := by
  have hff : f ∘ f = f := funext hf
  induction rows generalizing m with
  | nil => simp [modifyRows]
  | cons row rows ih =>
    have hstep : modifyRows f (row :: rows) m = modifyRows f rows (m.modify row.1 fun inner =>
        row.2.toList.foldl (fun inner i => inner.modify i f) inner) := rfl
    rw [hstep, ih, lookup₂_modify hf]
    by_cases hrow : row.1 = k ∧ i ∈ row.2
    · by_cases hrows : ∃ row ∈ rows, row.1 = k ∧ i ∈ row.2 <;> simp [hrow, hrows, hff]
    · by_cases hrows : ∃ row ∈ rows, row.1 = k ∧ i ∈ row.2
      · have : ∃ r ∈ row :: rows, r.1 = k ∧ i ∈ r.2 :=
          hrows.imp fun r hr => ⟨List.mem_cons_of_mem _ hr.1, hr.2⟩
        rw [if_pos hrows, if_neg hrow, if_pos this]
      · have : ¬ ∃ r ∈ row :: rows, r.1 = k ∧ i ∈ r.2 := by
          rintro ⟨r, hr, hk⟩
          rcases List.mem_cons.mp hr with rfl | hr
          · exact hrow hk
          · exact hrows ⟨r, hr, hk⟩
        rw [if_neg hrows, if_neg hrow, if_neg this]

end Dbx4.Maps
