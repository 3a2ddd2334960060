import Dbx4.Catalog
import Dbx4.DatabaseModel
import Dbx4.EnginePage

/-!
What a `DatabaseEngine` does with its rows.

A page is full when it is made. No row goes into one, so no page is ever dirty, and no eviction
locks the mutex that it holds: every call comes back, and the pool has but empty pages in it.
-/

namespace Dbx4.DatabaseRuns

open Std Dbx4.Maps Dbx4.Runs Dbx4.Catalog Dbx4.EngineModel Dbx4.EnginePoolModel Dbx4.EngineEvict
  Dbx4.DatabaseModel
open Dbx4.EnginePage (full_new)
open Dbx4.EnginePool (EvictsClean evictLru_of_clean getPage_of_miss pages_evictWhile)

/-! ### Pools of empty pages -/

/-- Every page is as the constructor makes it. -/
def Fresh (pool : BufferPool) : Prop :=
  ∀ (k : UInt32) (entry : PoolEntry), pool.pages[k]? = some entry →
    ∃ created, entry.page = .new k created

/-- An empty page more, or another entry for one. -/
lemma Fresh.insert {pool pool' : BufferPool} {k created : UInt32} {entry : PoolEntry}
    (h : Fresh pool) (hpages : pool'.pages = pool.pages.insert k entry)
    (hpage : entry.page = .new k created) : Fresh pool' := by
  intro k' entry' hentry'
  rw [hpages, ExtTreeMap.getElem?_insert] at hentry'
  split_ifs at hentry' with hk
  · obtain rfl := Option.some.inj hentry'
    rw [← LawfulEqOrd.eq_of_compare hk]
    exact ⟨created, hpage⟩
  · exact h k' entry' hentry'

lemma Fresh.drop {pool : BufferPool} (h : Fresh pool) (k : UInt32) : Fresh (pool.drop k) := by
  intro k' entry hentry
  rw [BufferPool.drop, ExtTreeMap.getElem?_erase] at hentry
  split_ifs at hentry
  exact h k' entry hentry

/-- A pool of empty pages makes room. -/
lemma Fresh.evictsClean {pool : BufferPool} (h : Fresh pool) (listing : Listing) :
    EvictsClean listing pool := by
  induction hn : pool.pages.size using Nat.strong_induction_on generalizing pool with
  | h n ih =>
    subst hn
    by_cases hover : pool.Over
    · obtain ⟨k, entry, hlru⟩ := BufferPool.exists_lruEntry listing hover
      have hentry := getElem?_of_lruEntry hlru
      obtain ⟨created, hpage⟩ := h k entry hentry
      refine .turn hover hlru (by rw [hpage]; rfl) ?_
      exact ih _ (BufferPool.size_drop (mem_of_getElem? hentry)) (h.drop k) rfl
    · exact .stop hover

/-- Without dirty pages, the mutex makes no difference to an eviction. -/
lemma evictWhile_reentrant {listing : Listing} {pool : BufferPool}
    (h : EvictsClean listing pool) :
    pool.evictWhile sharedMutex listing = pool.evictWhile reentrantMutex listing := by
  induction h with
  | stop hover =>
    rw [BufferPool.evictWhile_of_not_over _ _ hover, BufferPool.evictWhile_of_not_over _ _ hover]
  | @turn pool k entry hover hlru hclean _ ih =>
    have hdrop : pool.evictLru reentrantMutex listing = .ok (pool.drop k) := by
      unfold BufferPool.evictLru
      rw [hlru]
      dsimp only
      rw [if_neg (by rw [hclean]; exact Bool.false_ne_true)]
    rw [BufferPool.evictWhile_of_over _ _ hover, BufferPool.evictWhile_of_over _ _ hover,
      evictLru_of_clean hlru hclean, hdrop, ok_bind, ok_bind, ih]

/-- **A request** for a page of a pool with empty pages comes back with an empty page, which is
the pool's own if the pool still has it. -/
lemma Fresh.getPage {pool : BufferPool} (h : Fresh pool) (hfits : Fits pool)
    (listing : Listing) (clock : Clock) (k : UInt32) :
    ∃ created pool', pool.getPage sharedMutex listing clock k = .ok (.new k created, pool') ∧
      (∀ entry, pool'.pages[k]? = some entry → entry.page = .new k created) ∧
      Fresh pool' ∧ Fits pool' := by
  rcases hentry : pool.pages[k]? with _ | entry
  · have hadd : Fresh (pool.addPage k clock) := h.insert rfl rfl
    obtain ⟨hcounts, hmax⟩ := hfits.addPage hentry clock
    obtain ⟨pool', hpool', ⟨hcounts', hmax'⟩, hle⟩ := keeps_evictWhile hcounts listing
    have hshared := (evictWhile_reentrant (hadd.evictsClean listing)).trans hpool'
    have hstays : ∀ (k' : UInt32) (entry' : PoolEntry), pool'.pages[k']? = some entry' →
        (pool.addPage k clock).pages[k']? = some entry' := by
      intro k' entry' hentry'
      rcases pages_evictWhile hshared k' with hgone | hsame
      · rw [hgone] at hentry'
        cases hentry'
      · rw [← hsame, hentry']
    refine ⟨clock.time, pool', ?_, fun entry' hentry' => ?_,
      fun k' entry' hentry' => hadd k' entry' (hstays k' entry' hentry'), hcounts', hle, ?_⟩
    · rw [getPage_of_miss hentry, hshared, ok_bind]
    · have hnew := hstays k entry' hentry'
      rw [BufferPool.addPage, ExtTreeMap.getElem?_insert_self] at hnew
      rw [← Option.some.inj hnew]
    · rw [hmax', hmax]
      exact hfits.room
  · obtain ⟨created, hpage⟩ := h k entry hentry
    refine ⟨created, pool.touch k entry clock, ?_, fun entry' hentry' => ?_,
      h.insert rfl hpage, ?_⟩
    · unfold BufferPool.getPage
      rw [hentry, ← hpage]
      rfl
    · rw [BufferPool.touch, ExtTreeMap.getElem?_insert_self] at hentry'
      obtain rfl := Option.some.inj hentry'
      exact hpage
    · exact hfits.insert hentry
        { entry with
          lastAccess := clock.now, accessCount := entry.accessCount + 1,
          frequency := entry.frequency + 1 } rfl rfl rfl rfl

/-- A page that nothing was put in is put back as it is. -/
lemma changePage_new {pool : BufferPool} {k created : UInt32}
    (hpage : ∀ entry, pool.pages[k]? = some entry → entry.page = .new k created) :
    changePage pool (.new k created) = pool := by
  unfold changePage
  have hnum : (Page.new k created).pageNum = k := rfl
  rw [hnum]
  rcases hentry : pool.pages[k]? with _ | entry
  · rfl
  · have hsame : { entry with page := .new k created } = entry := by rw [← hpage entry hentry]
    dsimp only
    rw [hsame, (insert_eq_self_iff _ _ _).mpr hentry]

/-! ### Calls -/

/-- The calls as the catalog sees them. -/
def asked : Call → Option CatalogModel.Call
  | .createTable tableName columns => some (.createTable tableName columns)
  | .insertRow .. => none
  | .updateRow .. => none
  | .deleteRow .. => none

def isUpdate : Call → Bool
  | .createTable .. => false
  | .insertRow .. => false
  | .updateRow .. => true
  | .deleteRow .. => false

def isDelete : Call → Bool
  | .createTable .. => false
  | .insertRow .. => false
  | .updateRow .. => false
  | .deleteRow .. => true

/-- The answer to a call behind others: rows are never taken, and never missed. -/
def answerTo (calls : List Call) : Call → Bool
  | .createTable tableName _ => tableName ∉ tables (calls.filterMap asked)
  | .insertRow .. => false
  | .updateRow .. => true
  | .deleteRow .. => true

/-- The engine behind `calls`: what it keeps are the tables and two counts. -/
structure Idle (calls : List Call) (db : DatabaseEngine) : Prop where
  catalog : Describes (calls.filterMap asked) db.schemaManager
  fresh : Fresh db.bufferPool
  fits : Fits db.bufferPool
  inserted : db.totalRowsInserted = 0
  updated : db.totalRowsUpdated = .ofNat (calls.countP isUpdate)
  deleted : db.totalRowsDeleted = .ofNat (calls.countP isDelete)

lemma idle_new (bufferPoolMb : UInt64) : Idle [] (.new bufferPoolMb) where
  catalog := describes_new
  fresh k entry h := by
    rw [DatabaseEngine.new, BufferPool.new, ExtTreeMap.getElem?_empty] at h
    cases h
  fits := fits_new bufferPoolMb
  inserted := rfl
  updated := rfl
  deleted := rfl

/-- **An insertion** finds the page of its table full. -/
lemma Idle.insertRow {calls : List Call} {db : DatabaseEngine} (h : Idle calls db)
    (tableName : String) (data : Word32.Bytes) (clock : Clock) (now : UInt32)
    (listing : Listing) :
    ∃ bufferPool, db.insertRow sharedMutex listing clock now tableName data =
      .ok (false, { db with bufferPool }) ∧ Fresh bufferPool ∧ Fits bufferPool := by
  unfold DatabaseEngine.insertRow
  rcases db.schemaManager.getSchema tableName with _ | schema
  · exact ⟨db.bufferPool, rfl, h.fresh, h.fits⟩
  · obtain ⟨created, pool, hget, hpage, hfresh, hfits⟩ :=
      h.fresh.getPage h.fits listing clock schema.tableId
    have hfull : (Page.new schema.tableId created).insertRow (passed data) 1 now =
        .ok (none, .new schema.tableId created) := if_pos (full_new _ _ _)
    refine ⟨pool, ?_, hfresh, hfits⟩
    dsimp only
    rw [hget, Except.mapError, ok_bind]
    dsimp only
    rw [hfull, Except.mapError, ok_bind]
    dsimp only
    rw [changePage_new hpage]
    rfl

/-- What a step says and does. -/
lemma Idle.step {calls : List Call} {db : DatabaseEngine} (h : Idle calls db) (c : Call) :
    ∃ db', step db c = .ok (answerTo calls c, db') ∧ Idle (calls ++ [c]) db' := by
  cases c with
  | createTable tableName columns =>
    obtain ⟨hanswer, hcatalog⟩ := h.catalog.call (.createTable tableName columns)
    refine ⟨_, congrArg (fun a => Except.ok (a, _)) hanswer, ?_⟩
    exact
      { catalog := by rw [List.filterMap_append]; exact hcatalog
        fresh := h.fresh
        fits := h.fits
        inserted := h.inserted
        updated := by simpa [isUpdate] using h.updated
        deleted := by simpa [isDelete] using h.deleted }
  | insertRow tableName data clock now listing =>
    obtain ⟨bufferPool, hinsert, hfresh, hfits⟩ := h.insertRow tableName data clock now listing
    refine ⟨_, hinsert, ?_⟩
    exact
      { catalog := by rw [filterMap_concat_of_none rfl]; exact h.catalog
        fresh := hfresh
        fits := hfits
        inserted := h.inserted
        updated := by simpa [isUpdate] using h.updated
        deleted := by simpa [isDelete] using h.deleted }
  | updateRow tableName rowId newRow =>
    refine ⟨_, rfl, ?_⟩
    exact
      { catalog := by rw [filterMap_concat_of_none rfl]; exact h.catalog
        fresh := h.fresh
        fits := h.fits
        inserted := h.inserted
        updated := by
          rw [List.countP_append, UInt64.ofNat_add, ← h.updated]
          rfl
        deleted := by simpa [isDelete] using h.deleted }
  | deleteRow tableName rowId =>
    refine ⟨_, rfl, ?_⟩
    exact
      { catalog := by rw [filterMap_concat_of_none rfl]; exact h.catalog
        fresh := h.fresh
        fits := h.fits
        inserted := h.inserted
        updated := by simpa [isUpdate] using h.updated
        deleted := by
          rw [List.countP_append, UInt64.ofNat_add, ← h.deleted]
          rfl }

/-- The answers are those to be given. -/
def Answered (answers : List (Call × Bool)) : Prop :=
  ∀ pre c a post, answers = pre ++ (c, a) :: post → a = answerTo (pre.map Prod.fst) c

lemma Answered.concat {answers : List (Call × Bool)} (h : Answered answers) (c : Call) :
    Answered (answers ++ [(c, answerTo (answers.map Prod.fst) c)]) := by
  rintro pre c' a post he
  rcases List.eq_nil_or_concat post with rfl | ⟨post, last, rfl⟩
  · obtain ⟨rfl, hlast⟩ := List.append_inj' he rfl
    cases hlast
    rfl
  · rw [List.concat_eq_append, ← List.cons_append, ← List.append_assoc] at he
    exact h pre c' a post (List.append_inj' he rfl).1

/-- The engine behind the answers it has given. -/
structure Served (answers : List (Call × Bool)) (db : DatabaseEngine) : Prop where
  answered : Answered answers
  idle : Idle (answers.map Prod.fst) db

lemma served_new (bufferPoolMb : UInt64) : Served [] (.new bufferPoolMb) where
  answered _ _ _ _ he := by simp at he
  idle := idle_new bufferPoolMb

lemma Served.step {answers : List (Call × Bool)} {db : DatabaseEngine} (h : Served answers db)
    (c : Call) : ∃ a db', step db c = .ok (a, db') ∧ Served (answers ++ [(c, a)]) db' := by
  obtain ⟨db', hstep, hidle⟩ := h.idle.step c
  exact ⟨_, db', hstep, h.answered.concat c, by rwa [List.map_append]⟩

/-- **An engine stores nothing**: whatever its pool may hold and whatever is asked of it, every
call comes back, no row is taken, every page in the pool is as the constructor makes it, and
the pool counts its pages right and holds no more than it may. -/
theorem engine_run (bufferPoolMb : UInt64) (calls : List Call) :
    ∃ answers db, history step (.new bufferPoolMb) calls = .ok (answers, db) ∧
      Answered answers ∧ Idle calls db := by
  obtain ⟨answers, db, hrun, hserved⟩ := exists_history_of_step (P := Served)
    (fun _ _ c h => Served.step h c) (served_new bufferPoolMb) calls
  have hidle := hserved.idle
  rw [List.nil_append, map_fst_history hrun] at hidle
  exact ⟨answers, db, hrun, hserved.answered, hidle⟩

end Dbx4.DatabaseRuns
