import Dbx4.Counters
import Dbx4.TxModel

/-!
The count of visible rows, and the latest version a reader may see.

The count asks for any visible version that is not deleted, from the oldest on. So a row whose
latest visible version is deleted is counted all the same, for the sake of an older one.
-/

namespace Dbx4.TxLatest

open Std Dbx4.Counters Dbx4.Maps Dbx4.TxModel

/-- The rows of a table, each with its versions. -/
def rows (db : Db) (tableName : String) : List (String × List VersionedRowWithTx) :=
  (db.tables[tableName]?.getD ∅).toList

/-- The last version that the reader may see. -/
def latestVisible (reader : Int32) (versions : List VersionedRowWithTx) :
    Option VersionedRowWithTx :=
  (versions.filter fun v => v.isVisibleTo reader).getLast?

/-- The latest visible version is there, and not deleted. -/
def isLive (reader : Int32) (versions : List VersionedRowWithTx) : Bool :=
  (latestVisible reader versions).any fun v => !v.isDeleted

/-- What the loop over the versions looks for. -/
def isCounted (reader : Int32) (versions : List VersionedRowWithTx) : Bool :=
  versions.any fun v => v.isVisibleTo reader && !v.isDeleted

/-- The latest visible version is deleted, and an older visible one is not. -/
def isStale (reader : Int32) (versions : List VersionedRowWithTx) : Bool :=
  isCounted reader versions && !isLive reader versions

lemma isCounted_of_isLive {reader : Int32} {versions : List VersionedRowWithTx}
    (h : isLive reader versions) : isCounted reader versions := by
  rw [isLive, Option.any_eq_true] at h
  obtain ⟨v, hv, hlive⟩ := h
  obtain ⟨hmem, hvisible⟩ := List.mem_filter.mp (List.mem_of_getLast? hv)
  exact List.any_eq_true.mpr ⟨v, hmem, Bool.and_eq_true_iff.mpr ⟨hvisible, hlive⟩⟩

/-- What is counted is live or stale. -/
lemma countP_isCounted (reader : Int32) (table : List (String × List VersionedRowWithTx)) :
    table.countP (fun row => isCounted reader row.2) =
      table.countP (fun row => isLive reader row.2) +
        table.countP (fun row => isStale reader row.2) := by
  induction table with
  | nil => rfl
  | cons row table ih =>
    rw [List.countP_cons, List.countP_cons, List.countP_cons, ih, isStale]
    by_cases hlive : isLive reader row.2
    · simp only [hlive, isCounted_of_isLive hlive]
      simp only [Bool.not_true, Bool.and_false, if_true, Bool.false_eq_true, if_false]
      omega
    · simp only [hlive, Bool.not_false, Bool.and_true, Bool.false_eq_true, if_false]
      omega

lemma countVisibleRows_eq_countP (db : Db) (reader : Int32) (tableName : String) :
    db.countVisibleRows reader tableName =
      Int32.ofNat ((rows db tableName).countP fun row => isCounted reader row.2) := by
  unfold Db.countVisibleRows rows
  rcases db.tables[tableName]? with _ | table
  · have hnil : (∅ : ExtTreeMap String (List VersionedRowWithTx)).toList = [] :=
      ExtTreeMap.toList_eq_nil_iff.mpr rfl
    rw [Option.getD_none, hnil]
    rfl
  · rw [Option.getD_some]
    dsimp only
    rw [ExtTreeMap.foldl_eq_foldl_toList]
    refine (foldl_count (fun row => isCounted reader row.2) table.toList 0).trans ?_
    rw [Int32.zero_add]

/-- **When the count is that of the rows whose latest visible version is live.** -/
theorem countVisibleRows_eq_live_iff (db : Db) (reader : Int32) (tableName : String) :
    (db.countVisibleRows reader tableName).toInt =
        (rows db tableName).countP (fun row => isLive reader row.2) ↔
      2 ^ 32 ∣ (rows db tableName).countP (fun row => isStale reader row.2) ∧
        (rows db tableName).countP (fun row => isLive reader row.2) < 2 ^ 31 := by
  rw [countVisibleRows_eq_countP, countP_isCounted, toInt_ofNat_add_iff]

/-- A table of one row, with the versions. -/
def oneRow (versions : List VersionedRowWithTx) : Db :=
  { tables := (∅ : Tables).insert "t"
      ((∅ : ExtTreeMap String (List VersionedRowWithTx)).insert "r" versions) }

lemma rows_oneRow (versions : List VersionedRowWithTx) :
    rows (oneRow versions) "t" = [("r", versions)] := by
  rw [rows, oneRow, ExtTreeMap.getElem?_insert_self, Option.getD_some]
  exact toList_insert_of_forall_lt ∅ versions fun k hk =>
    absurd hk ExtTreeMap.not_mem_empty

/-- A row that was inserted, and then deleted, is counted. -/
theorem countVisibleRows_deleted :
    let db := oneRow [{ txState := .committed }, { txState := .committed, deletedAt := 1 }]
    ¬ (db.countVisibleRows 7 "t").toInt =
      (rows db "t").countP (fun row => isLive 7 row.2) := by
  intro db h
  rw [countVisibleRows_eq_countP, rows_oneRow] at h
  revert h
  decide

end Dbx4.TxLatest
