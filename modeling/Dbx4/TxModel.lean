import Dbx4.Maps

/-!
Transactions over versioned rows: `transaction_correctness.cpp` and `transaction_state.h`.

Every insert pushes a version under its row key and notes the key in the write set of the
transaction. Commit and rollback walk the write set and flip the versions the transaction
created; a reader counts the rows with a version it may see.
-/

namespace Dbx4.TxModel

open Std Dbx4.Maps

inductive TxState
  | active | committed | aborted
  deriving DecidableEq

structure VersionedRowWithTx where
  data : ExtTreeMap String String := ∅
  versionId : Int32 := 0
  createdAt : Int64 := 0
  deletedAt : Int64 := -1
  creatorTxId : Int32 := -1
  txState : TxState := .active

def VersionedRowWithTx.isVisibleTo (v : VersionedRowWithTx) (readerTxId : Int32) : Bool :=
  v.txState = .committed || (v.creatorTxId = readerTxId && v.txState = .active)

def VersionedRowWithTx.isDeleted (v : VersionedRowWithTx) : Bool := 0 ≤ v.deletedAt

structure Transaction where
  txId : Int32 := 0
  startTime : Int64 := 0
  state : TxState := .active
  writeSet : ExtTreeMap String (ExtTreeSet String) := ∅

/-- Table name, row key, versions in the order they were pushed. -/
abbrev Tables := ExtTreeMap String (ExtTreeMap String (List VersionedRowWithTx))

/-- The static variables of the file. -/
structure Db where
  tables : Tables := ∅
  activeTransactions : ExtTreeMap Int32 Transaction := ∅
  nextTxId : Int32 := 1

/-- What commit and rollback do to one version. -/
def flip (txId : Int32) (state : TxState) (v : VersionedRowWithTx) : VersionedRowWithTx :=
  if v.creatorTxId = txId ∧ v.txState = .active then { v with txState := state } else v

/-- The walk over the write set. -/
def flipAll (txId : Int32) (state : TxState) (writeSet : ExtTreeMap String (ExtTreeSet String))
    (tables : Tables) : Tables :=
  modifyRows (List.map (flip txId state)) writeSet.toList tables

namespace Db

def commitTransaction (db : Db) (txId : Int32) : Bool × Db :=
  match db.activeTransactions[txId]? with
  | none => (false, db)
  | some tx =>
    -- every table of the write set has to be there
    if tx.writeSet.keys.all fun tableName => tableName ∈ db.tables then
      (true, { db with
        tables := flipAll txId .committed tx.writeSet db.tables
        activeTransactions := db.activeTransactions.erase txId })
    else (false, db)

def rollbackTransaction (db : Db) (txId : Int32) : Bool × Db :=
  match db.activeTransactions[txId]? with
  | none => (false, db)
  | some tx =>
    (true, { db with
      tables := flipAll txId .aborted tx.writeSet db.tables
      activeTransactions := db.activeTransactions.erase txId })

def countVisibleRows (db : Db) (readerTxId : Int32) (tableName : String) : Int32 :=
  match db.tables[tableName]? with
  | none => 0
  | some table =>
    -- one version of a row is enough to count it
    table.foldl (fun count _ versions =>
      if versions.any fun v => v.isVisibleTo readerTxId && !v.isDeleted then count + 1
      else count) 0

def beginTransaction (db : Db) : Int32 × Db :=
  let txId := db.nextTxId
  (txId, { db with
    nextTxId := db.nextTxId + 1
    activeTransactions := db.activeTransactions.insert txId { txId := txId } })

def insertInTx (db : Db) (txId : Int32) (tableName rowKey : String)
    (data : ExtTreeMap String String) : Db :=
  match db.activeTransactions[txId]? with
  | none => db
  | some tx =>
    let table := db.tables[tableName]?.getD ∅
    let version : VersionedRowWithTx := { data := data, creatorTxId := txId }
    let rowKeys := (tx.writeSet[tableName]?.getD ∅).insert rowKey
    { db with
      tables := db.tables.insert tableName
        (table.insert rowKey (table[rowKey]?.getD [] ++ [version]))
      activeTransactions := db.activeTransactions.insert txId
        { tx with writeSet := tx.writeSet.insert tableName rowKeys } }

end Db

inductive Call
  | begin
  | insert (txId : Int32) (tableName rowKey : String) (data : ExtTreeMap String String)
  | commit (txId : Int32)
  | rollback (txId : Int32)

def Call.isBegin : Call → Bool
  | .begin => true
  | _ => false

def step (db : Db) : Call → Db
  | .begin => db.beginTransaction.2
  | .insert txId tableName rowKey data => db.insertInTx txId tableName rowKey data
  | .commit txId => (db.commitTransaction txId).2
  | .rollback txId => (db.rollbackTransaction txId).2

def versions (tables : Tables) (tableName rowKey : String) : List VersionedRowWithTx :=
  (lookup₂ tables tableName rowKey).getD []

lemma flip_flip (txId : Int32) (state : TxState) (v : VersionedRowWithTx) :
    flip txId state (flip txId state v) = flip txId state v := by
  unfold flip
  by_cases h : v.creatorTxId = txId ∧ v.txState = .active
  · simp only [if_pos h]
    split <;> rfl
  · simp only [if_neg h]

@[simp] lemma flip_creatorTxId (txId : Int32) (state : TxState) (v : VersionedRowWithTx) :
    (flip txId state v).creatorTxId = v.creatorTxId := by
  unfold flip
  split <;> rfl

@[simp] lemma flip_isDeleted (txId : Int32) (state : TxState) (v : VersionedRowWithTx) :
    (flip txId state v).isDeleted = v.isDeleted := by
  unfold flip
  split <;> rfl

lemma flip_active {txId : Int32} {state : TxState} (hstate : state ≠ .active)
    (v : VersionedRowWithTx) :
    (flip txId state v).txState = .active ↔ v.txState = .active ∧ v.creatorTxId ≠ txId := by
  unfold flip
  split_ifs with h
  · simp [hstate, h.1]
  · exact ⟨fun ha => ⟨ha, fun hc => h ⟨hc, ha⟩⟩, And.left⟩

lemma flip_committed (txId : Int32) (state : TxState) (v : VersionedRowWithTx) :
    (flip txId state v).txState = .committed ↔ v.txState = .committed ∨
      (state = .committed ∧ v.creatorTxId = txId ∧ v.txState = .active) := by
  unfold flip
  split_ifs with h
  · simp [h.1, h.2]
  · exact ⟨Or.inl, fun hs => hs.resolve_right fun hs => h hs.2⟩

/-- Commit and rollback flip every version of the transaction, when its active versions all
lie under keys of its write set. -/
lemma versions_flipAll {txId : Int32} {state : TxState}
    {writeSet : ExtTreeMap String (ExtTreeSet String)} {tables : Tables} {t k : String}
    (h : ∀ v ∈ versions tables t k, v.creatorTxId = txId → v.txState = .active →
      ∃ ks, writeSet[t]? = some ks ∧ k ∈ ks) :
    versions (flipAll txId state writeSet tables) t k =
      (versions tables t k).map (flip txId state) := by
  have hf : ∀ vs : List VersionedRowWithTx,
      (vs.map (flip txId state)).map (flip txId state) = vs.map (flip txId state) := by
    intro vs
    rw [List.map_map]
    exact List.map_congr_left fun v _ => flip_flip txId state v
  unfold versions at h ⊢
  rw [flipAll, lookup₂_modifyRows hf]
  split_ifs with hrow
  · rcases lookup₂ tables t k with _ | vs <;> rfl
  · rcases hvs : lookup₂ tables t k with _ | vs
    · rfl
    · have hid : ∀ v ∈ vs, flip txId state v = v := by
        intro v hv
        refine if_neg fun hflip => hrow ?_
        obtain ⟨ks, hks, hk⟩ := h v (by simpa [hvs] using hv) hflip.1 hflip.2
        exact ⟨(t, ks), ExtTreeMap.mem_toList_iff_getElem?_eq_some.mpr hks, rfl, hk⟩
      rw [Option.getD_some, List.map_congr_left hid, List.map_id']

lemma versions_insert (tables : Tables) (t k t' k' : String) (v : VersionedRowWithTx) :
    versions (tables.insert t ((tables[t]?.getD ∅).insert k
        ((tables[t]?.getD ∅)[k]?.getD [] ++ [v]))) t' k' =
      if t = t' ∧ k = k' then versions tables t' k' ++ [v] else versions tables t' k' := by
  unfold versions lookup₂
  by_cases ht : t = t'
  · subst ht
    by_cases hk : k = k'
    · subst hk
      rcases h : tables[t]? with _ | table <;> simp
    · rcases h : tables[t]? with _ | table <;>
        simp [ExtTreeMap.getElem?_insert, hk]
  · simp [ExtTreeMap.getElem?_insert, ht]

lemma mem_versions_insert (tables : Tables) (t k t' k' : String) (v v' : VersionedRowWithTx) :
    v' ∈ versions (tables.insert t ((tables[t]?.getD ∅).insert k
        ((tables[t]?.getD ∅)[k]?.getD [] ++ [v]))) t' k' ↔
      v' ∈ versions tables t' k' ∨ (t = t' ∧ k = k' ∧ v' = v) := by
  rw [versions_insert]
  split_ifs with he
  · simp [he]
  · exact ⟨Or.inl, fun hv => hv.resolve_right fun hv => he ⟨hv.1, hv.2.1⟩⟩

end Dbx4.TxModel
