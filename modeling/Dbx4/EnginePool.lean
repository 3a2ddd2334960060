import Dbx4.EnginePoolModel

/-!
What a pool gives back of the pages it has evicted.

A page that is not in the pool is made anew, and never read from anywhere. A page that comes
back is the page that went only when the one that went was as the constructor makes it.
-/

namespace Dbx4.EnginePool

open Std Dbx4.Memory Dbx4.Maps Dbx4.Runs Dbx4.EngineModel Dbx4.EnginePoolModel

inductive Call
  | getPage (pageNum : UInt32) (clock : Clock) (listing : Listing)
  | savePage (pageNum : UInt32)
  | flushAll (listing : Listing)

/-- A pool, and the pages that are no longer in it as they were when they were evicted. -/
structure Watched where
  pool : BufferPool
  evicted : UInt32 → Option Page

/-- The evicted pages behind a request that was given `page`. Nothing is done to a page on its
way out: save_page does not come back to evict_lru, which holds the mutex. -/
def evictedAfter (s : Watched) (pageNum : UInt32) (page : Page) (pool' : BufferPool)
    (k : UInt32) : Option Page :=
  match pool'.pages[k]? with
  | some _ => none
  | none =>
    if k = pageNum then some page
    else
      match s.pool.pages[k]? with
      | some entry => some entry.page
      | none => s.evicted k

def step (s : Watched) : Call → Except PoolFault Watched
  | .getPage pageNum clock listing => do
    let (page, pool) ← s.pool.getPage sharedMutex listing clock pageNum
    return ⟨pool, evictedAfter s pageNum page pool⟩
  | .savePage pageNum => do
    let (_, pool) ← s.pool.savePage sharedMutex .free pageNum
    return ⟨pool, s.evicted⟩
  | .flushAll listing => do
    let pool ← s.pool.flushAll sharedMutex listing
    return ⟨pool, s.evicted⟩

/-- The same header, slots and data. -/
def SameContent (p q : Page) : Prop :=
  p.header = q.header ∧ p.slotDirectory = q.slotDirectory ∧ p.data = q.data

/-- A request for an evicted page yields the page as it was evicted. -/
def Restores (s : Watched) : Call → Prop
  | .getPage pageNum clock listing => ∀ lost, s.evicted pageNum = some lost →
      ∃ page pool', s.pool.getPage sharedMutex listing clock pageNum = .ok (page, pool') ∧
        SameContent page lost
  | .savePage _ => True
  | .flushAll _ => True

def Restored (pool : BufferPool) (calls : List Call) : Prop :=
  AlongOk step Restores ⟨pool, fun _ => none⟩ calls

/-! ### Evictions -/

/-- The pages that have to go are clean. -/
inductive EvictsClean (listing : Listing) : BufferPool → Prop
  | stop {pool : BufferPool} (h : ¬ pool.Over) : EvictsClean listing pool
  | turn {pool : BufferPool} {pageNum : UInt32} {entry : PoolEntry} (h : pool.Over)
      (hlru : lruEntry (listing.list pool.pages) = some (pageNum, entry))
      (hclean : entry.page.isDirty = false)
      (hrest : EvictsClean listing (pool.drop pageNum)) : EvictsClean listing pool

/-- An eviction of a dirty page locks the mutex again. -/
lemma evictLru_of_dirty {listing : Listing} {pool : BufferPool} {pageNum : UInt32}
    {entry : PoolEntry} (hlru : lruEntry (listing.list pool.pages) = some (pageNum, entry))
    (hdirty : entry.page.isDirty = true) :
    pool.evictLru sharedMutex listing = .error .relock := by
  unfold BufferPool.evictLru
  rw [hlru]
  dsimp only
  rw [if_pos hdirty]
  rfl

lemma evictLru_of_clean {listing : Listing} {pool : BufferPool} {pageNum : UInt32}
    {entry : PoolEntry} (hlru : lruEntry (listing.list pool.pages) = some (pageNum, entry))
    (hclean : entry.page.isDirty = false) :
    pool.evictLru sharedMutex listing = .ok (pool.drop pageNum) := by
  unfold BufferPool.evictLru
  rw [hlru]
  dsimp only
  rw [if_neg (by rw [hclean]; exact Bool.false_ne_true)]

/-- **Room is made** exactly when the pages that have to go are clean. -/
theorem evictWhile_iff (listing : Listing) (pool : BufferPool) :
    (∃ pool', pool.evictWhile sharedMutex listing = .ok pool') ↔ EvictsClean listing pool := by
  constructor
  · rintro ⟨pool', h⟩
    induction pool using BufferPool.evictWhile.induct sharedMutex listing with
    | case1 pool hover fault hfault =>
      rw [BufferPool.evictWhile_of_over _ _ hover, hfault] at h
      cases h
    | case2 pool hover rest hrest _ ih =>
      rw [BufferPool.evictWhile_of_over _ _ hover, hrest] at h
      obtain ⟨pageNum, entry, hlru⟩ := BufferPool.exists_lruEntry listing hover
      rcases hdirty : entry.page.isDirty with _ | _
      · rw [evictLru_of_clean hlru hdirty] at hrest
        obtain rfl : pool.drop pageNum = rest := Except.ok.inj hrest
        exact .turn hover hlru hdirty (ih h)
      · rw [evictLru_of_dirty hlru hdirty] at hrest
        cases hrest
    | case3 pool hover => exact .stop hover
  · intro h
    induction h with
    | stop hover => exact ⟨_, BufferPool.evictWhile_of_not_over _ _ hover⟩
    | turn hover hlru hclean _ ih =>
      obtain ⟨pool', hpool'⟩ := ih
      refine ⟨pool', ?_⟩
      rw [BufferPool.evictWhile_of_over _ _ hover, evictLru_of_clean hlru hclean, ok_bind, hpool']

/-- **An eviction only takes pages away**: those that stay are as they were. -/
theorem pages_evictWhile {listing : Listing} {pool pool' : BufferPool}
    (h : pool.evictWhile sharedMutex listing = .ok pool') (k : UInt32) :
    pool'.pages[k]? = none ∨ pool'.pages[k]? = pool.pages[k]? := by
  have hclean := (evictWhile_iff listing pool).mp ⟨pool', h⟩
  induction hclean with
  | stop hover =>
    rw [BufferPool.evictWhile_of_not_over _ _ hover] at h
    obtain rfl := Except.ok.inj h
    exact Or.inr rfl
  | @turn pool pageNum entry hover hlru hclean hrest ih =>
    rw [BufferPool.evictWhile_of_over _ _ hover, evictLru_of_clean hlru hclean, ok_bind] at h
    rcases ih h with hgone | hsame
    · exact Or.inl hgone
    · by_cases hk : pageNum = k
      · left
        rw [hsame, BufferPool.drop, hk, ExtTreeMap.getElem?_erase_self]
      · right
        rw [hsame, BufferPool.drop, getElem?_erase_of_ne _ hk]

/-! ### One call -/

lemma getPage_of_miss {pool : BufferPool} {pageNum : UInt32} (h : pool.pages[pageNum]? = none)
    (listing : Listing) (clock : Clock) :
    pool.getPage sharedMutex listing clock pageNum =
      ((pool.addPage pageNum clock).evictWhile sharedMutex listing >>= fun pool' =>
        .ok (.new pageNum clock.time, pool')) := by
  unfold BufferPool.getPage
  rw [h]
  rfl

/-- What has been evicted is not in the pool. -/
def Gone (s : Watched) : Prop :=
  ∀ pageNum lost, s.evicted pageNum = some lost → s.pool.pages[pageNum]? = none

lemma getElem?_written {pool : BufferPool} {pageNum : UInt32} {entry : PoolEntry}
    (h : pool.pages[pageNum]? = some entry) {k : UInt32} (hk : pool.pages[k]? = none) :
    (pool.written pageNum entry).pages[k]? = none := by
  have hne : pageNum ≠ k := by
    rintro rfl
    rw [h] at hk
    cases hk
  rw [BufferPool.written, getElem?_insert_of_ne _ hne, hk]

lemma getElem?_savePage {pool pool' : BufferPool} {pageNum : UInt32} {found : Bool}
    (h : pool.savePage sharedMutex .free pageNum = .ok (found, pool')) {k : UInt32}
    (hk : pool.pages[k]? = none) : pool'.pages[k]? = none := by
  rcases BufferPool.savePage_eq_ok h with rfl | ⟨entry, hentry, rfl⟩
  · exact hk
  · exact getElem?_written hentry hk

lemma getElem?_flushTurn {k : UInt32} (pool : BufferPool) (entry : UInt32 × PoolEntry)
    (pool' : BufferPool) (hk : pool.pages[k]? = none)
    (h : pool.flushTurn sharedMutex entry = .ok pool') : pool'.pages[k]? = none := by
  unfold BufferPool.flushTurn at h
  split_ifs at h with hdirty
  · obtain ⟨⟨found, saved⟩, hsave, h⟩ := bind_eq_ok.mp h
    obtain rfl : saved = pool' := Except.ok.inj h
    exact getElem?_savePage hsave hk
  · obtain rfl : pool = pool' := Except.ok.inj h
    exact hk

lemma gone_step (s : Watched) (call : Call) (s' : Watched) (hs : Gone s)
    (h : step s call = .ok s') : Gone s' := by
  cases call with
  | getPage pageNum clock listing =>
    obtain ⟨⟨page, pool⟩, -, h⟩ := bind_eq_ok.mp h
    obtain rfl : ⟨pool, evictedAfter s pageNum page pool⟩ = s' := Except.ok.inj h
    intro k lost hlost
    rcases hk : pool.pages[k]? with _ | entry
    · rfl
    · unfold evictedAfter at hlost
      simp only [hk] at hlost
      cases hlost
  | savePage pageNum =>
    obtain ⟨⟨found, pool⟩, hsave, h⟩ := bind_eq_ok.mp h
    obtain rfl : ⟨pool, s.evicted⟩ = s' := Except.ok.inj h
    exact fun k lost hlost => getElem?_savePage hsave (hs k lost hlost)
  | flushAll listing =>
    obtain ⟨pool, hflush, h⟩ := bind_eq_ok.mp h
    obtain rfl : ⟨pool, s.evicted⟩ = s' := Except.ok.inj h
    obtain ⟨_, -, hflush⟩ := bind_eq_ok.mp hflush
    intro k lost hlost
    exact foldlM_ok_inv (P := fun pool : BufferPool => pool.pages[k]? = none)
      getElem?_flushTurn (hs k lost hlost) hflush

/-! ### Runs -/

/-- An evicted page that is asked for again was as the constructor makes it now, and room is
made without a dirty page. -/
def FreshAgain (s : Watched) : Call → Prop
  | .getPage pageNum clock listing => ∀ lost, s.evicted pageNum = some lost →
      SameContent (.new pageNum clock.time) lost ∧
        EvictsClean listing (s.pool.addPage pageNum clock)
  | .savePage _ => True
  | .flushAll _ => True

lemma restores_iff (s : Watched) (call : Call) (hs : Gone s) :
    Restores s call ↔ FreshAgain s call := by
  cases call with
  | getPage pageNum clock listing =>
    unfold Restores FreshAgain
    refine forall_congr' fun lost => imp_congr_right fun hlost => ?_
    rw [getPage_of_miss (hs pageNum lost hlost), ← evictWhile_iff]
    constructor
    · rintro ⟨page, pool', hget, hsame⟩
      obtain ⟨pool, hevict, hpair⟩ := bind_eq_ok.mp hget
      obtain rfl : .new pageNum clock.time = page := congrArg Prod.fst (Except.ok.inj hpair)
      exact ⟨hsame, pool, hevict⟩
    · rintro ⟨hsame, pool', hevict⟩
      exact ⟨_, pool', by rw [hevict, ok_bind], hsame⟩
  | savePage pageNum => exact Iff.rfl
  | flushAll listing => exact Iff.rfl

/-- **When evicted pages come back**: from any pool and through any calls, exactly when every
page asked for again had nothing in it that the constructor does not put there, and room for
it is made without a dirty page. -/
theorem restored_iff (pool : BufferPool) (calls : List Call) :
    Restored pool calls ↔ AlongOk step FreshAgain ⟨pool, fun _ => none⟩ calls :=
  alongOk_congr gone_step restores_iff (fun _ _ h => by cases h) calls

/-! ### A page that does not come back -/

def inKeyOrder : Listing := ⟨fun pages => pages.toList, fun _ => List.Perm.refl _⟩

/-- A page with a byte in it. -/
def bytePage : Page := { Page.new 1 0 with data := Mem.set (Vector.replicate pageSize 0) 600 1 1 }

/-- A pool with room for one page, which holds that one. -/
def onePage : BufferPool :=
  { BufferPool.new 0 with
    pages := (∅ : Pages).insert 1 ⟨bytePage, 0, 0, 0⟩, maxSize := 8192, currentSize := 8192 }

/-- Page 2 puts page 1 out of the pool. -/
lemma step_onePage : step ⟨onePage, fun _ => none⟩ (.getPage 2 ⟨0, 1⟩ inKeyOrder) =
    .ok ⟨(onePage.addPage 2 ⟨0, 1⟩).drop 1,
      evictedAfter ⟨onePage, fun _ => none⟩ 2 (.new 2 0) ((onePage.addPage 2 ⟨0, 1⟩).drop 1)⟩ := by
  have hmiss : onePage.pages[(2 : UInt32)]? = none := rfl
  have hlru : lruEntry (inKeyOrder.list (onePage.addPage 2 ⟨0, 1⟩).pages) =
      some (1, ⟨bytePage, 0, 0, 0⟩) := rfl
  have hover : (onePage.addPage 2 ⟨0, 1⟩).Over := ⟨by decide, rfl⟩
  have hroom : ¬ ((onePage.addPage 2 ⟨0, 1⟩).drop 1).Over := fun h => absurd h.1 (by decide)
  unfold step
  dsimp only
  rw [getPage_of_miss hmiss, BufferPool.evictWhile_of_over _ _ hover, evictLru_of_clean hlru rfl,
    ok_bind, BufferPool.evictWhile_of_not_over _ _ hroom]
  rfl

/-- Asked for again, page 1 is empty. -/
theorem not_restored_byte :
    ¬ Restored onePage [.getPage 2 ⟨0, 1⟩ inKeyOrder, .getPage 1 ⟨0, 2⟩ inKeyOrder] := by
  rintro ⟨-, hrest⟩
  obtain ⟨hagain, -⟩ := hrest _ step_onePage
  obtain ⟨page, pool', hget, -, -, hdata⟩ := hagain bytePage rfl
  rw [getPage_of_miss rfl] at hget
  obtain ⟨pool, -, hpair⟩ := bind_eq_ok.mp hget
  obtain rfl : .new 1 0 = page := congrArg Prod.fst (Except.ok.inj hpair)
  have hbyte : Mem.get (Vector.replicate pageSize 0) 600 1 = 1 := by
    have hset : (Mem.set (Vector.replicate pageSize (0 : UInt8)) 600 1 1).get 600 1 = 1 :=
      get_set_self _ (by decide) (by decide)
    have hsame : (Vector.replicate pageSize 0 : Mem pageSize) =
      Mem.set (Vector.replicate pageSize 0) 600 1 1 := hdata
    rwa [← hsame] at hset
  rw [get_replicate] at hbyte
  cases hbyte

end Dbx4.EnginePool
