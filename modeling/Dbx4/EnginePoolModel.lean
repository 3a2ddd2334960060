import Std.Data.ExtTreeMap
import Dbx4.Maps
import Dbx4.Runs
import Dbx4.EngineModel

/-!
The buffer pool of `storage_engine_production.cpp`.

Calls are taken one after another. What a call asks its surroundings is passed to it: the
clock, the order in which the hash map lists its entries, and what the mutex of the pool does
when it is locked.
-/

namespace Dbx4.EnginePoolModel

open Std Dbx4.Maps Dbx4.Runs Dbx4.EngineModel

/-! ### What a call finds around it -/

/-- How a thread holds the mutex of the pool. -/
inductive Held
  | free
  | shared
  | exclusive

inductive PoolFault
  /-- The mutex is locked by the thread that holds it. -/
  | relock

/-- What becomes of a thread that locks the mutex. -/
abbrev Mutex := Held → Except PoolFault Unit

/-- `std::shared_mutex`, which a thread must not lock again. -/
def sharedMutex : Mutex
  | .free => .ok ()
  | .shared => .error .relock
  | .exclusive => .error .relock

/-- `time(nullptr)` and `system_clock::now()`. -/
structure Clock where
  time : UInt32
  now : ℤ

structure PoolEntry where
  page : Page
  lastAccess : ℤ
  accessCount : UInt64
  frequency : UInt64

abbrev Pages := ExtTreeMap UInt32 PoolEntry

/-- The order in which the hash map lists its entries. -/
structure Listing where
  list : Pages → List (UInt32 × PoolEntry)
  perm : ∀ pages, (list pages).Perm pages.toList

/-! ### The pool -/

structure BufferPool where
  pages : Pages
  maxSize : UInt64
  currentSize : UInt64
  totalHits : UInt64
  totalMisses : UInt64
  totalEvictions : UInt64
  totalPagesRead : UInt64
  totalPagesWritten : UInt64

/-- One turn of the search for the entry with the oldest access. -/
def older (oldest entry : UInt32 × PoolEntry) : UInt32 × PoolEntry :=
  if entry.2.lastAccess < oldest.2.lastAccess then entry else oldest

def lruEntry : List (UInt32 × PoolEntry) → Option (UInt32 × PoolEntry)
  | [] => none
  | first :: rest => some ((first :: rest).foldl older first)

lemma older_eq (a b : UInt32 × PoolEntry) : older a b = a ∨ older a b = b := by
  unfold older
  split_ifs
  · exact Or.inr rfl
  · exact Or.inl rfl

lemma foldl_older_mem (entries : List (UInt32 × PoolEntry)) (first : UInt32 × PoolEntry) :
    entries.foldl older first ∈ first :: entries := by
  induction entries generalizing first with
  | nil => simp
  | cons e entries ih =>
    rw [List.foldl_cons]
    rcases older_eq first e with h | h
    · rw [h]
      rcases List.mem_cons.mp (ih first) with hfirst | hmem
      · rw [hfirst]
        exact List.mem_cons_self
      · exact List.mem_cons_of_mem _ (List.mem_cons_of_mem _ hmem)
    · rw [h]
      exact List.mem_cons_of_mem _ (ih e)

/-- The entry picked is one of the entries. -/
lemma mem_of_lruEntry {entries : List (UInt32 × PoolEntry)} {e : UInt32 × PoolEntry}
    (h : lruEntry entries = some e) : e ∈ entries := by
  cases entries with
  | nil => cases h
  | cons first rest =>
    rw [lruEntry, Option.some_inj] at h
    have hmem := foldl_older_mem (first :: rest) first
    rw [h] at hmem
    simpa using hmem

lemma getElem?_of_lruEntry {listing : Listing} {pages : Pages} {pageNum : UInt32}
    {entry : PoolEntry} (h : lruEntry (listing.list pages) = some (pageNum, entry)) :
    pages[pageNum]? = some entry := by
  have hmem := (listing.perm pages).mem_iff.mp (mem_of_lruEntry h)
  exact ExtTreeMap.mem_toList_iff_getElem?_eq_some.mp hmem

namespace BufferPool

def new (poolSizeMb : UInt64) : BufferPool :=
  { pages := ∅, maxSize := poolSizeMb * 1024 * 1024, currentSize := 0, totalHits := 0,
    totalMisses := 0, totalEvictions := 0, totalPagesRead := 0, totalPagesWritten := 0 }

/-- The pool with a page that has been serialized; its image goes nowhere. -/
def written (pool : BufferPool) (pageNum : UInt32) (entry : PoolEntry) : BufferPool :=
  { pool with
    pages := pool.pages.insert pageNum { entry with page := entry.page.serialize.2.markClean }
    totalPagesWritten := pool.totalPagesWritten + 1 }

def savePage (mutex : Mutex) (held : Held) (pool : BufferPool) (pageNum : UInt32) :
    Except PoolFault (Bool × BufferPool) := do
  mutex held
  match pool.pages[pageNum]? with
  | none => return (false, pool)
  | some entry => return (true, pool.written pageNum entry)

def flushTurn (mutex : Mutex) (pool : BufferPool) (entry : UInt32 × PoolEntry) :
    Except PoolFault BufferPool :=
  if entry.2.page.isDirty then do
    let (_, pool) ← pool.savePage mutex .free entry.1
    mutex .free
    return pool
  else .ok pool

def flushAll (mutex : Mutex) (listing : Listing) (pool : BufferPool) :
    Except PoolFault BufferPool := do
  mutex .free
  (listing.list pool.pages).foldlM (flushTurn mutex) pool

/-- The pool without a page. -/
def drop (pool : BufferPool) (pageNum : UInt32) : BufferPool :=
  { pool with
    currentSize := pool.currentSize - UInt64.ofNat pageSize
    pages := pool.pages.erase pageNum
    totalEvictions := pool.totalEvictions + 1 }

def evictLru (mutex : Mutex) (listing : Listing) (pool : BufferPool) :
    Except PoolFault BufferPool :=
  match lruEntry (listing.list pool.pages) with
  | none => .ok pool
  | some (lruPage, entry) =>
    if entry.page.isDirty then do
      let (_, pool) ← pool.savePage mutex .exclusive lruPage
      return pool.drop lruPage
    else .ok (pool.drop lruPage)

/-- The pool holds more than it may, and a page to evict. -/
def Over (pool : BufferPool) : Prop :=
  pool.maxSize < pool.currentSize ∧ pool.pages.isEmpty = false

instance (pool : BufferPool) : Decidable pool.Over := inferInstanceAs (Decidable (_ ∧ _))

lemma size_written {pool : BufferPool} {pageNum : UInt32} {entry : PoolEntry}
    (h : pool.pages[pageNum]? = some entry) :
    (pool.written pageNum entry).pages.size = pool.pages.size := by
  rw [written, ExtTreeMap.size_insert, if_pos (ExtTreeMap.mem_iff_contains.mp (mem_of_getElem? h))]

lemma size_drop {pool : BufferPool} {pageNum : UInt32} (h : pageNum ∈ pool.pages) :
    (pool.drop pageNum).pages.size < pool.pages.size := by
  have hpos : pool.pages.size ≠ 0 := by
    intro hzero
    rw [← ExtTreeMap.eq_empty_iff_size_eq_zero] at hzero
    rw [hzero] at h
    exact ExtTreeMap.not_mem_empty h
  rw [drop, ExtTreeMap.size_erase, if_pos (ExtTreeMap.mem_iff_contains.mp h)]
  omega

/-- What a call of `save_page` may leave behind. -/
lemma savePage_eq_ok {mutex : Mutex} {held : Held} {pool pool' : BufferPool} {pageNum : UInt32}
    {found : Bool} (h : pool.savePage mutex held pageNum = .ok (found, pool')) :
    pool' = pool ∨ ∃ entry, pool.pages[pageNum]? = some entry ∧
      pool' = pool.written pageNum entry := by
  obtain ⟨_, -, h⟩ := bind_eq_ok.mp h
  rcases hentry : pool.pages[pageNum]? with _ | entry
  · rw [hentry] at h
    cases h
    exact Or.inl rfl
  · rw [hentry] at h
    have hpool : (true, pool.written pageNum entry) = (found, pool') := Except.ok.inj h
    exact Or.inr ⟨entry, rfl, (congrArg Prod.snd hpool).symm⟩

/-- A pool with too much in it has a page to pick. -/
lemma exists_lruEntry (listing : Listing) {pool : BufferPool} (h : pool.Over) :
    ∃ pageNum entry, lruEntry (listing.list pool.pages) = some (pageNum, entry) := by
  rcases hlist : listing.list pool.pages with _ | ⟨first, rest⟩
  · exfalso
    have hperm := listing.perm pool.pages
    rw [hlist, List.nil_perm, ← List.isEmpty_iff, ExtTreeMap.isEmpty_toList, h.2] at hperm
    cases hperm
  · exact ⟨_, _, rfl⟩

/-- An eviction takes a page from the pool. -/
lemma size_evictLru {mutex : Mutex} {listing : Listing} {pool pool' : BufferPool}
    (hover : pool.Over) (h : pool.evictLru mutex listing = .ok pool') :
    pool'.pages.size < pool.pages.size := by
  obtain ⟨lruPage, entry, hlru⟩ := exists_lruEntry listing hover
  have hentry := getElem?_of_lruEntry hlru
  unfold evictLru at h
  rw [hlru] at h
  dsimp only at h
  split_ifs at h with hdirty
  · obtain ⟨⟨found, saved⟩, hsave, h⟩ := bind_eq_ok.mp h
    obtain rfl : saved.drop lruPage = pool' := Except.ok.inj h
    rcases savePage_eq_ok hsave with rfl | ⟨entry', hentry', rfl⟩
    · exact size_drop (mem_of_getElem? hentry)
    · rw [← size_written hentry']
      exact size_drop (ExtTreeMap.mem_insert_self)
  · obtain rfl : pool.drop lruPage = pool' := Except.ok.inj h
    exact size_drop (mem_of_getElem? hentry)

/-- Evicts pages until the pool holds no more than it may. -/
def evictWhile (mutex : Mutex) (listing : Listing) (pool : BufferPool) :
    Except PoolFault BufferPool :=
  if hover : pool.Over then
    match h : pool.evictLru mutex listing with
    | .error fault => .error fault
    | .ok pool' =>
      have := size_evictLru hover h
      evictWhile mutex listing pool'
  else .ok pool
termination_by pool.pages.size

lemma evictWhile_of_over (mutex : Mutex) (listing : Listing) {pool : BufferPool}
    (hover : pool.Over) : pool.evictWhile mutex listing =
      (pool.evictLru mutex listing >>= fun pool' => pool'.evictWhile mutex listing) := by
  rw [evictWhile, dif_pos hover]
  split
  · next fault hfault => rw [hfault]; rfl
  · next pool' hpool => simp only [hpool, ok_bind]

lemma evictWhile_of_not_over (mutex : Mutex) (listing : Listing) {pool : BufferPool}
    (hover : ¬ pool.Over) : pool.evictWhile mutex listing = .ok pool := by
  rw [evictWhile, dif_neg hover]

/-- The pool behind a hit. -/
def touch (pool : BufferPool) (pageNum : UInt32) (entry : PoolEntry) (clock : Clock) :
    BufferPool :=
  { pool with
    pages := pool.pages.insert pageNum { entry with
      lastAccess := clock.now
      accessCount := entry.accessCount + 1
      frequency := entry.frequency + 1 }
    totalHits := pool.totalHits + 1 }

/-- The pool with a new page, before it makes room. -/
def addPage (pool : BufferPool) (pageNum : UInt32) (clock : Clock) : BufferPool :=
  { pool with
    pages := pool.pages.insert pageNum
      { page := .new pageNum clock.time, lastAccess := clock.now, accessCount := 0, frequency := 0 }
    currentSize := pool.currentSize + UInt64.ofNat pageSize
    totalMisses := pool.totalMisses + 1
    totalPagesRead := pool.totalPagesRead + 1 }

def getPage (mutex : Mutex) (listing : Listing) (clock : Clock) (pool : BufferPool)
    (pageNum : UInt32) : Except PoolFault (Page × BufferPool) := do
  mutex .free
  match pool.pages[pageNum]? with
  | some entry => return (entry.page, pool.touch pageNum entry clock)
  | none =>
    -- no call comes between the two locks: the second look finds nothing either
    mutex .free
    let pool ← (pool.addPage pageNum clock).evictWhile mutex listing
    return (.new pageNum clock.time, pool)

end BufferPool

end Dbx4.EnginePoolModel
