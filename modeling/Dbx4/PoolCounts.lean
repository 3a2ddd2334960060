import Dbx4.EngineEvict

/-!
What the pool says that it has done.

Every request is a hit or a miss, every miss is read, and what was read is in the pool or was
evicted. This holds for whatever the mutex does, as long as the calls come back.
-/

namespace Dbx4.PoolCounts

open Std Dbx4.Maps Dbx4.Runs Dbx4.EngineModel Dbx4.EnginePoolModel Dbx4.EngineEvict

variable {mutex : Mutex} {pool pool' : BufferPool}

/-- The pool behind a call, or behind what a caller makes of a page. -/
def useWith (mutex : Mutex) (pool : BufferPool) : Use → Except PoolFault BufferPool
  | .call (.getPage pageNum clock listing) => Prod.snd <$> pool.getPage mutex listing clock pageNum
  | .call (.savePage pageNum) => Prod.snd <$> pool.savePage mutex .free pageNum
  | .call (.flushAll listing) => pool.flushAll mutex listing
  | .change page => .ok (changePage pool page)

def isRequest : Use → Bool
  | .call (.getPage ..) => true
  | .call (.savePage _) => false
  | .call (.flushAll _) => false
  | .change _ => false

/-- The statistics of a pool that was asked for pages `requests` times. All counts are in 64
bits. -/
structure Balanced (requests : ℕ) (pool : BufferPool) : Prop where
  requested : pool.totalHits + pool.totalMisses = .ofNat requests
  read : pool.totalPagesRead = pool.totalMisses
  resident : pool.totalPagesRead = pool.totalEvictions + .ofNat pool.pages.size
  size : pool.currentSize = .ofNat pageSize * .ofNat pool.pages.size
  frequency : ∀ (k : UInt32) (entry : PoolEntry), pool.pages[k]? = some entry →
    entry.frequency = entry.accessCount

variable {requests : ℕ}

/-! ### One call -/

/-- A page of the pool is replaced by another version of it. -/
lemma Balanced.insert (h : Balanced requests pool) {k : UInt32} {entry : PoolEntry}
    (hentry : pool.pages[k]? = some entry) (entry' : PoolEntry)
    (hfrequency : entry'.frequency = entry'.accessCount)
    (hpages : pool'.pages = pool.pages.insert k entry')
    (hhits : pool'.totalHits + pool'.totalMisses = .ofNat requests)
    (hmisses : pool'.totalMisses = pool.totalMisses)
    (hevictions : pool'.totalEvictions = pool.totalEvictions)
    (hread : pool'.totalPagesRead = pool.totalPagesRead)
    (hsize : pool'.currentSize = pool.currentSize) : Balanced requests pool' := by
  have hpagesSize : pool'.pages.size = pool.pages.size := by
    rw [hpages, ExtTreeMap.size_insert,
      if_pos (ExtTreeMap.mem_iff_contains.mp (mem_of_getElem? hentry))]
  refine ⟨hhits, ?_, ?_, ?_, fun k' e he => ?_⟩
  · rw [hread, hmisses, h.read]
  · rw [hread, hevictions, hpagesSize, h.resident]
  · rw [hsize, hpagesSize, h.size]
  · rw [hpages, ExtTreeMap.getElem?_insert] at he
    split_ifs at he
    · rw [← Option.some.inj he, hfrequency]
    · exact h.frequency k' e he

lemma Balanced.written (h : Balanced requests pool) {k : UInt32} {entry : PoolEntry}
    (hentry : pool.pages[k]? = some entry) : Balanced requests (pool.written k entry) :=
  h.insert hentry { entry with page := entry.page.serialize.2.markClean }
    (h.frequency k entry hentry) rfl h.requested rfl rfl rfl rfl

lemma Balanced.savePage (h : Balanced requests pool) {held : Held} {k : UInt32} {found : Bool}
    (hsave : pool.savePage mutex held k = .ok (found, pool')) : Balanced requests pool' := by
  rcases BufferPool.savePage_eq_ok hsave with rfl | ⟨entry, hentry, rfl⟩
  · exact h
  · exact h.written hentry

lemma ofNat_succ (n : ℕ) : UInt64.ofNat (n + 1) = .ofNat n + 1 := UInt64.ofNat_add n 1

lemma Balanced.drop (h : Balanced requests pool) {k : UInt32} (hk : k ∈ pool.pages) :
    Balanced requests (pool.drop k) := by
  have hsize : pool.pages.size = (pool.pages.erase k).size + 1 := by
    have hlt := BufferPool.size_drop hk
    rw [BufferPool.drop, ExtTreeMap.size_erase, if_pos (ExtTreeMap.mem_iff_contains.mp hk)] at hlt
    rw [ExtTreeMap.size_erase, if_pos (ExtTreeMap.mem_iff_contains.mp hk)]
    omega
  refine ⟨h.requested, h.read, ?_, ?_, fun k' e he => ?_⟩
  · dsimp only [BufferPool.drop]
    rw [h.resident, hsize, ofNat_succ, UInt64.add_comm (.ofNat _) 1, UInt64.add_assoc]
  · dsimp only [BufferPool.drop]
    rw [h.size, hsize, ofNat_succ, UInt64.mul_succ, UInt64.add_sub_cancel]
  · rw [BufferPool.drop, ExtTreeMap.getElem?_erase] at he
    split_ifs at he
    exact h.frequency k' e he

lemma Balanced.evictLru (h : Balanced requests pool) {listing : Listing} (hover : pool.Over)
    (hevict : pool.evictLru mutex listing = .ok pool') : Balanced requests pool' := by
  obtain ⟨k, entry, hlru⟩ := BufferPool.exists_lruEntry listing hover
  have hentry := getElem?_of_lruEntry hlru
  unfold BufferPool.evictLru at hevict
  rw [hlru] at hevict
  dsimp only at hevict
  split_ifs at hevict
  · obtain ⟨⟨found, saved⟩, hsave, hdrop⟩ := bind_eq_ok.mp hevict
    obtain rfl : saved.drop k = pool' := Except.ok.inj hdrop
    rcases BufferPool.savePage_eq_ok hsave with rfl | ⟨entry', hentry', rfl⟩
    · exact h.drop (mem_of_getElem? hentry)
    · exact (h.written hentry').drop ExtTreeMap.mem_insert_self
  · obtain rfl : pool.drop k = pool' := Except.ok.inj hevict
    exact h.drop (mem_of_getElem? hentry)

lemma Balanced.evictWhile {listing : Listing} (h : Balanced requests pool)
    (hevict : pool.evictWhile mutex listing = .ok pool') : Balanced requests pool' := by
  induction pool using BufferPool.evictWhile.induct mutex listing with
  | case1 pool hover fault hfault =>
    rw [BufferPool.evictWhile_of_over _ _ hover, hfault] at hevict
    cases hevict
  | case2 pool hover rest hrest _ ih =>
    rw [BufferPool.evictWhile_of_over _ _ hover, hrest] at hevict
    exact ih (h.evictLru hover hrest) hevict
  | case3 pool hover =>
    rw [BufferPool.evictWhile_of_not_over _ _ hover] at hevict
    rwa [← Except.ok.inj hevict]

lemma Balanced.addPage (h : Balanced requests pool) {k : UInt32} (hmiss : pool.pages[k]? = none)
    (clock : Clock) : Balanced (requests + 1) (pool.addPage k clock) := by
  have hsize : (pool.addPage k clock).pages.size = pool.pages.size + 1 := by
    rw [BufferPool.addPage, ExtTreeMap.size_insert,
      if_neg fun hk => not_mem_of_getElem? hmiss (ExtTreeMap.mem_iff_contains.mpr hk)]
  refine ⟨?_, congrArg (· + 1) h.read, ?_, ?_, fun k' e he => ?_⟩
  · rw [ofNat_succ, ← h.requested, UInt64.add_assoc]
    rfl
  · rw [hsize, ofNat_succ, ← UInt64.add_assoc]
    exact congrArg (· + 1) h.resident
  · rw [hsize, ofNat_succ, UInt64.mul_succ, ← h.size]
    rfl
  · rw [BufferPool.addPage, ExtTreeMap.getElem?_insert] at he
    split_ifs at he
    · rw [← Option.some.inj he]
    · exact h.frequency k' e he

lemma Balanced.getPage (h : Balanced requests pool) {listing : Listing} {clock : Clock}
    {k : UInt32} {page : Page} (hget : pool.getPage mutex listing clock k = .ok (page, pool')) :
    Balanced (requests + 1) pool' := by
  obtain ⟨_, -, hget⟩ := bind_eq_ok.mp hget
  rcases hentry : pool.pages[k]? with _ | entry
  · rw [hentry] at hget
    obtain ⟨_, -, hget⟩ := bind_eq_ok.mp hget
    obtain ⟨rest, hevict, hpair⟩ := bind_eq_ok.mp hget
    obtain rfl : rest = pool' := congrArg Prod.snd (Except.ok.inj hpair)
    exact (h.addPage hentry clock).evictWhile hevict
  · rw [hentry] at hget
    obtain rfl : pool.touch k entry clock = pool' := congrArg Prod.snd (Except.ok.inj hget)
    have htouched : Balanced requests
        { pool.touch k entry clock with totalHits := pool.totalHits } :=
      h.insert hentry
        { entry with
          lastAccess := clock.now, accessCount := entry.accessCount + 1,
          frequency := entry.frequency + 1 }
        (congrArg (· + 1) (h.frequency k entry hentry)) rfl h.requested rfl rfl rfl rfl
    refine ⟨?_, htouched.read, htouched.resident, htouched.size, htouched.frequency⟩
    rw [ofNat_succ, ← h.requested, UInt64.add_assoc, UInt64.add_comm pool.totalMisses,
      ← UInt64.add_assoc]
    rfl

lemma Balanced.flushAll (h : Balanced requests pool) {listing : Listing}
    (hflush : pool.flushAll mutex listing = .ok pool') : Balanced requests pool' := by
  obtain ⟨_, -, hflush⟩ := bind_eq_ok.mp hflush
  refine foldlM_ok_inv (fun pool entry pool' h hturn => ?_) h hflush
  unfold BufferPool.flushTurn at hturn
  split_ifs at hturn
  · obtain ⟨⟨found, saved⟩, hsave, hturn⟩ := bind_eq_ok.mp hturn
    obtain ⟨_, -, hturn⟩ := bind_eq_ok.mp hturn
    rw [← Except.ok.inj hturn]
    exact h.savePage hsave
  · rwa [← Except.ok.inj hturn]

lemma Balanced.changePage (h : Balanced requests pool) (page : Page) :
    Balanced requests (changePage pool page) := by
  unfold EngineEvict.changePage
  rcases hentry : pool.pages[page.pageNum]? with _ | entry
  · exact h
  · exact h.insert hentry { entry with page } (h.frequency _ entry hentry) rfl
      h.requested rfl rfl rfl rfl

lemma Balanced.use (h : Balanced requests pool) {u : Use}
    (huse : useWith mutex pool u = .ok pool') :
    Balanced (requests + if isRequest u then 1 else 0) pool' := by
  cases u with
  | call call =>
    cases call with
    | getPage pageNum clock listing =>
      obtain ⟨⟨page, rest⟩, hget, hpair⟩ := bind_eq_ok.mp huse
      rw [← Except.ok.inj hpair]
      exact h.getPage hget
    | savePage pageNum =>
      obtain ⟨⟨found, rest⟩, hsave, hpair⟩ := bind_eq_ok.mp huse
      rw [← Except.ok.inj hpair]
      exact h.savePage hsave
    | flushAll listing => exact h.flushAll huse
  | change page =>
    rw [← Except.ok.inj huse]
    exact h.changePage page

/-! ### Runs -/

lemma balanced_new (poolSizeMb : UInt64) : Balanced 0 (.new poolSizeMb) := by
  refine ⟨rfl, rfl, rfl, rfl, fun k entry hentry => ?_⟩
  rw [BufferPool.new, ExtTreeMap.getElem?_empty] at hentry
  cases hentry

lemma Balanced.run (h : Balanced requests pool) {uses : List Use}
    (hrun : uses.foldlM (useWith mutex) pool = .ok pool') :
    Balanced (requests + uses.countP isRequest) pool' := by
  induction uses generalizing requests pool with
  | nil =>
    rw [← Except.ok.inj hrun]
    exact h
  | cons u uses ih =>
    rw [List.foldlM_cons] at hrun
    obtain ⟨rest, huse, hrun⟩ := bind_eq_ok.mp hrun
    have hrest := ih (h.use huse) hrun
    rwa [Nat.add_assoc, Nat.add_comm (ite _ _ _), ← List.countP_cons] at hrest

/-- **The pool's statistics**: through any calls that come back, whatever the mutex does and
whatever the callers make of their pages, every request is a hit or a miss, as many pages were
read as were missed, and those that were not evicted are the ones in the pool. -/
theorem balanced_run (mutex : Mutex) (poolSizeMb : UInt64) (uses : List Use) (pool : BufferPool)
    (h : uses.foldlM (useWith mutex) (.new poolSizeMb) = .ok pool) :
    Balanced (uses.countP isRequest) pool := by
  have hrun := (balanced_new poolSizeMb).run h
  rwa [Nat.zero_add] at hrun

/-- The pool behind two requests for page 1. -/
def twice : BufferPool :=
  ((BufferPool.new 1).addPage 1 ⟨0, 0⟩).touch 1 ⟨.new 1 0, 0, 0, 0⟩ ⟨0, 1⟩

lemma run_twice (listing : Listing) :
    [Use.call (.getPage 1 ⟨0, 0⟩ listing), .call (.getPage 1 ⟨0, 1⟩ listing)].foldlM
      (useWith sharedMutex) (.new 1) = .ok twice := by
  have hroom : ¬ ((BufferPool.new 1).addPage 1 ⟨0, 0⟩).Over := fun h => absurd h.1 (by decide)
  have hmiss : useWith sharedMutex (.new 1) (.call (.getPage 1 ⟨0, 0⟩ listing)) =
      .ok ((BufferPool.new 1).addPage 1 ⟨0, 0⟩) := by
    rw [useWith, EnginePool.getPage_of_miss rfl, BufferPool.evictWhile_of_not_over _ _ hroom]
    rfl
  rw [List.foldlM_cons, hmiss, ok_bind]
  rfl

/-- One miss, and one hit. -/
theorem balanced_twice :
    twice.totalHits = 1 ∧ twice.totalMisses = 1 ∧ Balanced 2 twice :=
  ⟨rfl, rfl, balanced_run sharedMutex 1 _ _ (run_twice EnginePool.inKeyOrder)⟩

end Dbx4.PoolCounts
