import Mathlib.Algebra.Group.Nat.Defs
import Dbx4.Counters
import Dbx4.Runs
import Dbx4.TxModel
import Mathlib.Data.Finset.Basic

/-!
The versioned rows simulate a store of committed and pending keys.

The store keeps, for every table, the keys that committed transactions inserted, and for
every active transaction the keys it inserted itself. An active version lies under a key of
the write set of its creator, so commit and rollback reach all of them.
-/

namespace Dbx4.TxSim

open Std Dbx4.Counters Dbx4.Maps Dbx4.Runs Dbx4.TxModel

/-- The purpose of the component: who sees which keys. -/
structure Store where
  began : ℕ := 0
  active : Finset Int32 := ∅
  committed : String → Finset String := fun _ => ∅
  pending : Int32 → String → Finset String := fun _ _ => ∅

namespace Store

def step (s : Store) : Call → Store
  | .begin =>
    { s with began := s.began + 1, active := insert (Int32.ofNat (s.began + 1)) s.active }
  | .insert txId t k _ =>
    if txId ∈ s.active then
      let keys := insert k (s.pending txId t)
      { s with
        pending := Function.update s.pending txId (Function.update (s.pending txId) t keys) }
    else s
  | .commit txId =>
    if txId ∈ s.active then
      { s with
        active := s.active.erase txId
        committed := fun t => s.committed t ∪ s.pending txId t
        pending := Function.update s.pending txId (fun _ => ∅) }
    else s
  | .rollback txId =>
    if txId ∈ s.active then
      { s with
        active := s.active.erase txId
        pending := Function.update s.pending txId (fun _ => ∅) }
    else s

/-- The keys of a table that a committed transaction inserted, or the reader itself while it
is active. -/
def visible (s : Store) (reader : Int32) (t : String) : Finset String :=
  s.committed t ∪ if reader ∈ s.active then s.pending reader t else ∅

lemma step_insert (s : Store) {txId : Int32} (h : txId ∈ s.active) (t k : String)
    (data : ExtTreeMap String String) :
    s.step (.insert txId t k data) = { s with
      pending := Function.update s.pending txId
        (Function.update (s.pending txId) t (Insert.insert k (s.pending txId t))) } := if_pos h

end Store

lemma mem_addPending (pending : Int32 → String → Finset String) (id id' : Int32)
    (t t' k k' : String) :
    k' ∈ Function.update pending id
        (Function.update (pending id) t (insert k (pending id t))) id' t' ↔
      k' ∈ pending id' t' ∨ (id = id' ∧ t = t' ∧ k = k') := by
  by_cases hid : id' = id
  · subst hid
    by_cases ht : t' = t
    · subst ht
      simp [or_comm, eq_comm]
    · simp [ht, Ne.symm ht]
  · simp [hid, Ne.symm hid]

structure Sim (db : Db) (s : Store) : Prop where
  nextTxId : db.nextTxId = Int32.ofNat (s.began + 1)
  active : ∀ id, id ∈ db.activeTransactions ↔ id ∈ s.active
  bound : ∀ id ∈ s.active, id.toInt ≤ s.began
  committed : ∀ t k, k ∈ s.committed t ↔
    ∃ v ∈ versions db.tables t k, v.txState = .committed
  pending : ∀ id t k, k ∈ s.pending id t ↔
    ∃ v ∈ versions db.tables t k, v.creatorTxId = id ∧ v.txState = .active
  live : ∀ t k, ∀ v ∈ versions db.tables t k, v.isDeleted = false
  owned : ∀ t k, ∀ v ∈ versions db.tables t k, v.txState = .active →
    ∃ (tx : Transaction) (ks : ExtTreeSet String),
      db.activeTransactions[v.creatorTxId]? = some tx ∧ tx.writeSet[t]? = some ks ∧ k ∈ ks
  tables : ∀ (id : Int32) (tx : Transaction) (t : String),
    db.activeTransactions[id]? = some tx → t ∈ tx.writeSet → t ∈ db.tables

lemma sim_init : Sim {} {} where
  nextTxId := rfl
  active id := by simp
  bound id h := by simp at h
  committed t k := by simp [versions, lookup₂]
  pending id t k := by simp [versions, lookup₂]
  live t k v h := by simp [versions, lookup₂] at h
  owned t k v h := by simp [versions, lookup₂] at h
  tables id tx t h := by simp at h

lemma Sim.mem_active {db : Db} {s : Store} (h : Sim db s) {id : Int32} {tx : Transaction}
    (htx : db.activeTransactions[id]? = some tx) : id ∈ s.active :=
  (h.active id).mp (mem_of_getElem? htx)

lemma Sim.not_mem_active {db : Db} {s : Store} (h : Sim db s) {id : Int32}
    (htx : db.activeTransactions[id]? = none) : id ∉ s.active := by
  rw [← h.active]
  exact not_mem_of_getElem? htx

/-! ### Counting -/

/-- A reader counts the keys with a version it sees that is not deleted. -/
lemma countVisibleRows_eq (db : Db) (reader : Int32) (t : String) (keys : Finset String)
    (h : ∀ k, k ∈ keys ↔
      ∃ v ∈ versions db.tables t k, v.isVisibleTo reader ∧ v.isDeleted = false) :
    db.countVisibleRows reader t = Int32.ofNat keys.card := by
  unfold Db.countVisibleRows
  rcases ht : db.tables[t]? with _ | table
  · have hempty : keys = ∅ := by
      ext k
      simp [h, versions, lookup₂, ht]
    simp [hempty]
  · have hcard := countP_toList table
      (fun versions => versions.any fun v => v.isVisibleTo reader && !v.isDeleted) keys
      (fun k => by
        rw [h, versions, lookup₂, ht, Option.bind_some]
        rcases table[k]? with _ | vs <;> simp)
    simp only [ExtTreeMap.foldl_eq_foldl_toList, ← hcard]
    refine (foldl_count (fun e => e.2.any fun v => v.isVisibleTo reader && !v.isDeleted)
      table.toList 0).trans ?_
    simp

lemma Sim.countVisibleRows {db : Db} {s : Store} (h : Sim db s) (reader : Int32) (t : String) :
    db.countVisibleRows reader t = Int32.ofNat (s.visible reader t).card := by
  refine countVisibleRows_eq db reader t _ fun k => ?_
  have hpending : (k ∈ if reader ∈ s.active then s.pending reader t else ∅) ↔
      k ∈ s.pending reader t := by
    split_ifs with hr
    · rfl
    · refine ⟨fun h => by simp at h, fun hk => ?_⟩
      obtain ⟨v, hv, rfl, ha⟩ := (h.pending _ _ _).mp hk
      obtain ⟨tx, ks, htx, -⟩ := h.owned t k v hv ha
      exact absurd (h.mem_active htx) hr
  rw [Store.visible, Finset.mem_union, hpending, h.committed, h.pending]
  refine ⟨?_, ?_⟩
  · rintro (⟨v, hv, hc⟩ | ⟨v, hv, hc, ha⟩)
    · exact ⟨v, hv, by simp [VersionedRowWithTx.isVisibleTo, hc], h.live t k v hv⟩
    · exact ⟨v, hv, by simp [VersionedRowWithTx.isVisibleTo, hc, ha], h.live t k v hv⟩
  · rintro ⟨v, hv, hvis, -⟩
    rcases hs : v.txState with _ | _ | _
    · refine Or.inr ⟨v, hv, ?_, hs⟩
      simpa [VersionedRowWithTx.isVisibleTo, hs] using hvis
    · exact Or.inl ⟨v, hv, hs⟩
    · simp [VersionedRowWithTx.isVisibleTo, hs] at hvis

/-! ### One call -/

lemma Sim.begin {db : Db} {s : Store} (h : Sim db s) (hs : s.began + 1 < 2 ^ 31) :
    Sim (TxModel.step db .begin) (s.step .begin) := by
  have hid : (Int32.ofNat (s.began + 1)).toInt = (s.began + 1 : ℕ) := Int32.toInt_ofNat_of_lt hs
  -- the counter gives an id that no active transaction has
  have hnew : db.nextTxId ∉ s.active := by
    intro hmem
    have := h.bound _ hmem
    rw [h.nextTxId, hid] at this
    omega
  have hkeep : ∀ (id : Int32) (tx : Transaction), db.activeTransactions[id]? = some tx →
      db.nextTxId ≠ id := fun id tx htx he => hnew (he ▸ h.mem_active htx)
  refine ⟨?_, fun id => ?_, fun id hmem => ?_, h.committed, h.pending, h.live,
    fun t k v hv ha => ?_, fun id tx t htx ht => ?_⟩
  · simp [TxModel.step, Db.beginTransaction, Store.step, h.nextTxId]
  · change id ∈ db.activeTransactions.insert db.nextTxId _ ↔ id ∈ insert _ s.active
    rw [ExtTreeMap.mem_insert, Finset.mem_insert, h.active, LawfulEqOrd.compare_eq_iff_eq,
      h.nextTxId, eq_comm]
  · rcases Finset.mem_insert.mp hmem with rfl | hmem
    · exact hid.le
    · have := h.bound id hmem
      simp only [Store.step]
      omega
  · obtain ⟨tx, ks, htx, hks, hk⟩ := h.owned t k v hv ha
    refine ⟨tx, ks, ?_, hks, hk⟩
    simp [TxModel.step, Db.beginTransaction, ExtTreeMap.getElem?_insert, hkeep _ _ htx, htx]
  · by_cases hidn : db.nextTxId = id
    · subst hidn
      simp only [TxModel.step, Db.beginTransaction, ExtTreeMap.getElem?_insert_self,
        Option.some.injEq] at htx
      subst htx
      simp at ht
    · simp only [TxModel.step, Db.beginTransaction, ExtTreeMap.getElem?_insert,
        LawfulEqOrd.compare_eq_iff_eq, hidn, if_false] at htx
      exact h.tables id tx t htx ht

/-- A key more in a write set: what was owned still is. -/
lemma Sim.owned_insert {db : Db} {s : Store} (h : Sim db s) {id : Int32} {tx : Transaction}
    (htx : db.activeTransactions[id]? = some tx) (t k : String) {t' k' : String}
    {v : VersionedRowWithTx} (hv : v ∈ versions db.tables t' k') (ha : v.txState = .active) :
    ∃ (tx' : Transaction) (ks : ExtTreeSet String),
      (db.activeTransactions.insert id { tx with
        writeSet := tx.writeSet.insert t ((tx.writeSet[t]?.getD ∅).insert k) })[v.creatorTxId]? =
          some tx' ∧ tx'.writeSet[t']? = some ks ∧ k' ∈ ks := by
  obtain ⟨tx', ks, htx', hks, hk⟩ := h.owned t' k' v hv ha
  by_cases hc : id = v.creatorTxId
  · subst hc
    obtain rfl : tx = tx' := Option.some.inj (htx.symm.trans htx')
    by_cases ht : t = t'
    · subst ht
      exact ⟨_, _, ExtTreeMap.getElem?_insert_self, ExtTreeMap.getElem?_insert_self,
        by simp [hks, hk]⟩
    · exact ⟨_, ks, ExtTreeMap.getElem?_insert_self,
        (getElem?_insert_of_ne _ ht _).trans hks, hk⟩
  · exact ⟨tx', ks, (getElem?_insert_of_ne _ hc _).trans htx', hks, hk⟩

/-- Both sides leave an insert under an inactive id out. -/
lemma Sim.insert {db : Db} {s : Store} (h : Sim db s) (id : Int32) (t k : String)
    (data : ExtTreeMap String String) :
    Sim (TxModel.step db (.insert id t k data)) (s.step (.insert id t k data)) := by
  rcases htx : db.activeTransactions[id]? with _ | tx
  · have hdb : TxModel.step db (.insert id t k data) = db := by
      simp [TxModel.step, Db.insertInTx, htx]
    have hs : s.step (.insert id t k data) = s := if_neg (h.not_mem_active htx)
    rwa [hdb, hs]
  have hid := h.mem_active htx
  set v₀ : VersionedRowWithTx := { data := data, creatorTxId := id }
  have hdb : TxModel.step db (.insert id t k data) = { db with
      tables := db.tables.insert t ((db.tables[t]?.getD ∅).insert k
        ((db.tables[t]?.getD ∅)[k]?.getD [] ++ [v₀]))
      activeTransactions := db.activeTransactions.insert id
        { tx with writeSet := tx.writeSet.insert t ((tx.writeSet[t]?.getD ∅).insert k) } } := by
    rw [TxModel.step, Db.insertInTx, htx]
  have hmem := fun t' k' v => mem_versions_insert db.tables t k t' k' v₀ v
  rw [hdb, s.step_insert hid]
  constructor
  case nextTxId => exact h.nextTxId
  case active =>
    intro id'
    rw [mem_insert_iff, h.active]
    exact ⟨fun hid' => hid'.elim (fun he => he ▸ hid) (fun hid' => hid'), Or.inr⟩
  case bound => exact h.bound
  case committed =>
    intro t' k'
    rw [h.committed]
    refine ⟨fun ⟨v, hv, hc⟩ => ⟨v, (hmem _ _ _).mpr (Or.inl hv), hc⟩, ?_⟩
    rintro ⟨v, hv, hc⟩
    rcases (hmem _ _ _).mp hv with hv | ⟨-, -, rfl⟩
    · exact ⟨v, hv, hc⟩
    · cases hc
  case pending =>
    intro id' t' k'
    rw [mem_addPending, h.pending]
    refine ⟨?_, ?_⟩
    · rintro (⟨v, hv, hc⟩ | ⟨rfl, rfl, rfl⟩)
      · exact ⟨v, (hmem _ _ _).mpr (Or.inl hv), hc⟩
      · exact ⟨v₀, (hmem _ _ _).mpr (Or.inr ⟨rfl, rfl, rfl⟩), rfl, rfl⟩
    · rintro ⟨v, hv, hc, ha⟩
      rcases (hmem _ _ _).mp hv with hv | ⟨rfl, rfl, rfl⟩
      · exact Or.inl ⟨v, hv, hc, ha⟩
      · exact Or.inr ⟨hc, rfl, rfl⟩
  case live =>
    intro t' k' v hv
    rcases (hmem _ _ _).mp hv with hv | ⟨-, -, rfl⟩
    · exact h.live t' k' v hv
    · rfl
  case owned =>
    intro t' k' v hv ha
    rcases (hmem _ _ _).mp hv with hv | ⟨rfl, rfl, rfl⟩
    · exact h.owned_insert htx t k hv ha
    · exact ⟨_, _, ExtTreeMap.getElem?_insert_self, ExtTreeMap.getElem?_insert_self,
        ExtTreeSet.mem_insert_self⟩
  case tables =>
    intro id' tx' t' htx' ht'
    rw [mem_insert_iff]
    by_cases hid' : id = id'
    · subst hid'
      obtain rfl := Option.some.inj (ExtTreeMap.getElem?_insert_self.symm.trans htx')
      exact ((mem_insert_iff _ _ _ _).mp ht').imp_right (h.tables id tx t' htx)
    · rw [getElem?_insert_of_ne _ hid'] at htx'
      exact Or.inr (h.tables id' tx' t' htx' ht')

/-- The end of a transaction: every version of it is flipped to its last state. -/
lemma Sim.finish {db : Db} {s : Store} (h : Sim db s) {id : Int32} {tx : Transaction}
    (htx : db.activeTransactions[id]? = some tx) {state : TxState} (hstate : state ≠ .active) :
    Sim { db with
        tables := flipAll id state tx.writeSet db.tables
        activeTransactions := db.activeTransactions.erase id }
      { s with
        active := s.active.erase id
        committed := fun t =>
          if state = .committed then s.committed t ∪ s.pending id t else s.committed t
        pending := Function.update s.pending id (fun _ => ∅) } := by
  have hversions : ∀ t k, versions (flipAll id state tx.writeSet db.tables) t k =
      (versions db.tables t k).map (flip id state) := by
    intro t k
    refine versions_flipAll fun v hv hc ha => ?_
    obtain ⟨tx', ks, htx', hks, hk⟩ := h.owned t k v hv ha
    rw [hc] at htx'
    obtain rfl : tx = tx' := Option.some.inj (htx.symm.trans htx')
    exact ⟨ks, hks, hk⟩
  constructor
  case nextTxId => exact h.nextTxId
  case active =>
    intro id'
    rw [mem_erase_iff, Finset.mem_erase, h.active, ne_comm]
  case bound => exact fun id' hid' => h.bound id' (Finset.mem_of_mem_erase hid')
  case committed =>
    intro t k
    simp only [hversions, List.mem_map, exists_exists_and_eq_and, flip_committed]
    have hcommitted := h.committed t k
    have hpending := h.pending id t k
    split_ifs with hs
    · rw [Finset.mem_union, hcommitted, hpending]
      simp only [hs, true_and, and_or_left, exists_or]
    · rw [hcommitted]
      simp only [hs, false_and, or_false]
  case pending =>
    intro id' t k
    simp only [hversions, List.mem_map, exists_exists_and_eq_and, flip_creatorTxId,
      flip_active hstate]
    by_cases hid' : id' = id
    · subst hid'
      simp only [Function.update_self, Finset.notMem_empty, false_iff, not_exists]
      exact fun v ⟨_, hc, _, hne⟩ => hne hc
    · rw [Function.update_of_ne hid', h.pending]
      refine exists_congr fun v => and_congr_right fun _ => and_congr_right fun hc => ?_
      exact (and_iff_left (hc ▸ hid')).symm
  case live =>
    intro t k v hv
    rw [hversions] at hv
    obtain ⟨v, hvs, rfl⟩ := List.mem_map.mp hv
    rw [flip_isDeleted]
    exact h.live t k v hvs
  case owned =>
    intro t k v hv ha
    rw [hversions] at hv
    obtain ⟨v, hvs, rfl⟩ := List.mem_map.mp hv
    obtain ⟨ha, hne⟩ := (flip_active hstate v).mp ha
    obtain ⟨tx', ks, htx', hks, hk⟩ := h.owned t k v hvs ha
    rw [flip_creatorTxId]
    exact ⟨tx', ks, (getElem?_erase_of_ne _ hne.symm).trans htx', hks, hk⟩
  case tables =>
    intro id' tx' t htx' ht
    rw [flipAll, mem_modifyRows]
    by_cases hid' : id = id'
    · subst hid'
      simp at htx'
    · rw [getElem?_erase_of_ne _ hid'] at htx'
      exact h.tables id' tx' t htx' ht

lemma Sim.commit {db : Db} {s : Store} (h : Sim db s) (id : Int32) :
    ((db.commitTransaction id).1 = true ↔ id ∈ s.active) ∧
      Sim (TxModel.step db (.commit id)) (s.step (.commit id)) := by
  rcases htx : db.activeTransactions[id]? with _ | tx
  · have hid := h.not_mem_active htx
    have hs : s.step (.commit id) = s := if_neg hid
    rw [TxModel.step, hs]
    simp [Db.commitTransaction, htx, hid, h]
  · have hid := h.mem_active htx
    -- the tables of the write set were made by the inserts
    have htables : tx.writeSet.keys.all (fun t => t ∈ db.tables) = true := by
      simp only [List.all_eq_true, decide_eq_true_eq, ExtTreeMap.mem_keys]
      exact fun t ht => h.tables id tx t htx ht
    have hs : s.step (.commit id) = _ := if_pos hid
    rw [TxModel.step, hs]
    simp only [Db.commitTransaction, htx, htables, if_true, hid, true_and]
    exact h.finish htx (by simp)

lemma Sim.rollback {db : Db} {s : Store} (h : Sim db s) (id : Int32) :
    ((db.rollbackTransaction id).1 = true ↔ id ∈ s.active) ∧
      Sim (TxModel.step db (.rollback id)) (s.step (.rollback id)) := by
  rcases htx : db.activeTransactions[id]? with _ | tx
  · have hid := h.not_mem_active htx
    have hs : s.step (.rollback id) = s := if_neg hid
    rw [TxModel.step, hs]
    simp [Db.rollbackTransaction, htx, hid, h]
  · have hid := h.mem_active htx
    have hs : s.step (.rollback id) = _ := if_pos hid
    rw [TxModel.step, hs]
    simp only [Db.rollbackTransaction, htx, hid, true_and]
    exact h.finish htx (by simp)

/-! ### Runs -/

lemma Sim.step {db : Db} {s : Store} (h : Sim db s) (call : Call)
    (hs : call.isBegin → s.began + 1 < 2 ^ 31) : Sim (TxModel.step db call) (s.step call) := by
  cases call with
  | begin => exact h.begin (hs rfl)
  | insert txId t k data => exact h.insert txId t k data
  | commit txId => exact (h.commit txId).2
  | rollback txId => exact (h.rollback txId).2

lemma Store.began_step (s : Store) (call : Call) :
    (s.step call).began = s.began + if call.isBegin then 1 else 0 := by
  cases call <;> simp only [Store.step, Call.isBegin] <;> split_ifs <;> simp_all

lemma Sim.run {db : Db} {s : Store} (h : Sim db s) (calls : List Call)
    (hs : s.began + calls.countP Call.isBegin < 2 ^ 31) :
    Sim (run TxModel.step db calls) (run Store.step s calls) := by
  induction calls generalizing db s with
  | nil => exact h
  | cons call calls ih =>
    rw [List.countP_cons] at hs
    refine ih (h.step call fun hcall => ?_) ?_
    · rw [if_pos hcall] at hs
      omega
    · rw [Store.began_step]
      omega

end Dbx4.TxSim
