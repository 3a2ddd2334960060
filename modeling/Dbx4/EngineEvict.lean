import Dbx4.EnginePool

/-!
What an eviction locks, and what the pool counts.

`get_page` holds the mutex of the pool while it evicts, and `save_page` locks it: the page that
has to go must be clean. Where that lock goes through, the pool counts its pages right, and
holds no more of them than it may.
-/

namespace Dbx4.EngineEvict

open Std Dbx4.Maps Dbx4.Runs Dbx4.EngineModel Dbx4.EnginePoolModel Dbx4.EnginePool

/-! ### Calls that lock the mutex once -/

/-- The call comes back: it never locks the mutex that it holds. -/
def Completes (pool : BufferPool) : Call → Prop
  | .getPage pageNum clock listing =>
    ∃ answer, pool.getPage sharedMutex listing clock pageNum = .ok answer
  | .savePage pageNum => ∃ answer, pool.savePage sharedMutex .free pageNum = .ok answer
  | .flushAll listing => ∃ pool', pool.flushAll sharedMutex listing = .ok pool'

/-- The page is in the pool, or no page that has to go for it is dirty. -/
def CleanRoom (pool : BufferPool) : Call → Prop
  | .getPage pageNum clock listing =>
    pool.pages[pageNum]? = none → EvictsClean listing (pool.addPage pageNum clock)
  | .savePage _ => True
  | .flushAll _ => True

lemma exists_savePage (pool : BufferPool) (pageNum : UInt32) :
    ∃ answer, pool.savePage sharedMutex .free pageNum = .ok answer := by
  unfold BufferPool.savePage
  rcases pool.pages[pageNum]? with _ | entry
  · exact ⟨_, rfl⟩
  · exact ⟨_, rfl⟩

lemma exists_flushAll (pool : BufferPool) (listing : Listing) :
    ∃ pool', pool.flushAll sharedMutex listing = .ok pool' := by
  have hturn : ∀ (pool : BufferPool) (entry : UInt32 × PoolEntry), True →
      ∃ pool', pool.flushTurn sharedMutex entry = .ok pool' ∧ True := by
    intro pool entry _
    unfold BufferPool.flushTurn
    split_ifs
    · obtain ⟨answer, hsave⟩ := exists_savePage pool entry.1
      rw [hsave]
      exact ⟨answer.2, rfl, trivial⟩
    · exact ⟨pool, rfl, trivial⟩
  obtain ⟨pool', hpool', -⟩ := foldlM_inv hturn (s := pool) trivial (listing.list pool.pages)
  exact ⟨pool', hpool'⟩

lemma exists_getPage_iff (pool : BufferPool) (pageNum : UInt32) (clock : Clock)
    (listing : Listing) : (∃ answer, pool.getPage sharedMutex listing clock pageNum = .ok answer) ↔
      (pool.pages[pageNum]? = none → EvictsClean listing (pool.addPage pageNum clock)) := by
  rcases hentry : pool.pages[pageNum]? with _ | entry
  · rw [getPage_of_miss hentry, ← evictWhile_iff]
    constructor
    · rintro ⟨answer, h⟩ -
      obtain ⟨pool', hpool', -⟩ := bind_eq_ok.mp h
      exact ⟨pool', hpool'⟩
    · intro h
      obtain ⟨pool', hpool'⟩ := h rfl
      rw [hpool']
      exact ⟨_, rfl⟩
  · refine iff_of_true ?_ fun h => by cases h
    unfold BufferPool.getPage
    rw [hentry]
    exact ⟨_, rfl⟩

/-- **When a call comes back**: when it asks for no page that a dirty one has to make room for. -/
theorem completes_iff (pool : BufferPool) (call : Call) :
    Completes pool call ↔ CleanRoom pool call := by
  cases call with
  | getPage pageNum clock listing => exact exists_getPage_iff pool pageNum clock listing
  | savePage pageNum => exact iff_of_true (exists_savePage pool pageNum) trivial
  | flushAll listing => exact iff_of_true (exists_flushAll pool listing) trivial

/-! ### A pool full of dirty pages -/

lemma older_le (a b : UInt32 × PoolEntry) :
    (older a b).2.lastAccess ≤ a.2.lastAccess ∧ (older a b).2.lastAccess ≤ b.2.lastAccess := by
  unfold older
  split_ifs with h
  · exact ⟨h.le, le_rfl⟩
  · exact ⟨le_rfl, Int.not_lt.mp h⟩

/-- The entry picked is the oldest one. -/
lemma lastAccess_lruEntry_le {entries : List (UInt32 × PoolEntry)} {e : UInt32 × PoolEntry}
    (h : lruEntry entries = some e) : ∀ e' ∈ entries, e.2.lastAccess ≤ e'.2.lastAccess := by
  have hfold : ∀ (entries : List (UInt32 × PoolEntry)) (first : UInt32 × PoolEntry),
      ∀ e' ∈ first :: entries, (entries.foldl older first).2.lastAccess ≤ e'.2.lastAccess := by
    intro entries
    induction entries with
    | nil =>
      intro first e' he'
      rw [List.mem_singleton.mp he']
      exact le_rfl
    | cons next entries ih =>
      intro first e' he'
      obtain ⟨hfirst, hnext⟩ := older_le first next
      have hpicked := ih (older first next) (older first next) List.mem_cons_self
      rcases List.mem_cons.mp he' with rfl | he'
      · exact hpicked.trans hfirst
      · rcases List.mem_cons.mp he' with rfl | he'
        · exact hpicked.trans hnext
        · exact ih (older first next) e' (List.mem_cons_of_mem _ he')
  cases entries with
  | nil => cases h
  | cons first rest =>
    rw [lruEntry, Option.some_inj] at h
    rw [← h]
    intro e' he'
    exact hfold (first :: rest) first e' (List.mem_cons_of_mem _ he')

def dirtyEntry (pageNum : UInt32) : PoolEntry :=
  ⟨{ Page.new pageNum 0 with isDirty := true }, 0, 0, 0⟩

/-- The pages 0 to 127, each of them dirty. -/
@[irreducible] def dirtyPages : Pages :=
  (List.range 128).foldl (fun pages i => pages.insert (UInt32.ofNat i) (dirtyEntry (.ofNat i))) ∅

/-- A pool of one megabyte, full of dirty pages. -/
def dirtyPool : BufferPool :=
  { BufferPool.new 1 with pages := dirtyPages, currentSize := 1024 * 1024 }

def OldAndDirty (pages : Pages) : Prop :=
  ∀ (k : UInt32) (entry : PoolEntry), pages[k]? = some entry →
    k.toNat < 128 ∧ entry.page.isDirty = true ∧ entry.lastAccess = 0

lemma oldAndDirty_dirtyPages : OldAndDirty dirtyPages := by
  unfold dirtyPages
  refine List.foldlRecOn (motive := OldAndDirty) _ _ (fun k entry hk => ?_) ?_
  · rw [ExtTreeMap.getElem?_empty] at hk
    cases hk
  · intro pages hpages i hi k entry hentry
    rw [ExtTreeMap.getElem?_insert] at hentry
    split_ifs at hentry with hk
    · obtain rfl := Option.some.inj hentry
      have hlt := List.mem_range.mp hi
      rw [← LawfulEqOrd.eq_of_compare hk, UInt32.toNat_ofNat', Nat.mod_eq_of_lt (by omega)]
      exact ⟨hlt, rfl, rfl⟩
    · exact hpages k entry hentry

lemma exists_dirtyPages : ∃ (k : UInt32) (entry : PoolEntry), dirtyPages[k]? = some entry := by
  have hlast : ∀ n, ∃ (k : UInt32) (entry : PoolEntry),
      ((List.range (n + 1)).foldl (fun pages i =>
        pages.insert (UInt32.ofNat i) (dirtyEntry (.ofNat i))) (∅ : Pages))[k]? = some entry := by
    intro n
    rw [List.range_succ, List.foldl_concat]
    exact ⟨_, _, ExtTreeMap.getElem?_insert_self⟩
  unfold dirtyPages
  exact hlast 127

lemma dirtyPages_miss : dirtyPages[(128 : UInt32)]? = none := by
  by_contra hsome
  obtain ⟨entry, hentry⟩ := Option.ne_none_iff_exists'.mp hsome
  exact absurd (oldAndDirty_dirtyPages _ _ hentry).1 (by decide)

/-- Page 128 locks the mutex twice. -/
theorem not_completes_dirty : ¬ ∀ pool call, Completes pool call := by
  intro h
  have hclean := (exists_getPage_iff dirtyPool 128 ⟨0, 1⟩ inKeyOrder).mp
    (h dirtyPool (.getPage 128 ⟨0, 1⟩ inKeyOrder)) dirtyPages_miss
  cases hclean with
  | stop hover =>
    refine hover ⟨by decide, ?_⟩
    exact ExtTreeMap.isEmpty_eq_false_iff.mpr ExtTreeMap.insert_ne_empty
  | @turn _ pageNum entry hover hlru hclean hrest =>
    have hentry := getElem?_of_lruEntry hlru
    rw [BufferPool.addPage, ExtTreeMap.getElem?_insert] at hentry
    split_ifs at hentry with hnew
    · -- the new page is not the oldest one
      obtain ⟨k, old, hold⟩ := exists_dirtyPages
      have hmem : (k, old) ∈ inKeyOrder.list (dirtyPool.addPage 128 ⟨0, 1⟩).pages := by
        have hne : (128 : UInt32) ≠ k := by
          rintro rfl
          exact absurd (hold.symm.trans dirtyPages_miss) (by simp)
        refine ExtTreeMap.mem_toList_iff_getElem?_eq_some.mpr ?_
        rw [BufferPool.addPage, getElem?_insert_of_ne _ hne]
        exact hold
      have hle := lastAccess_lruEntry_le hlru _ hmem
      obtain rfl := Option.some.inj hentry
      rw [(oldAndDirty_dirtyPages k old hold).2.2] at hle
      exact Int.not_le.mpr Int.one_pos hle
    · rw [(oldAndDirty_dirtyPages _ _ hentry).2.1] at hclean
      cases hclean

/-! ### What the pool counts -/

/-- A mutex that lets the write-back of an eviction through. -/
def reentrantMutex : Mutex := fun _ => .ok ()

/-- A call of the pool, or what a caller makes of a page that it was given. -/
inductive Use
  | call (call : Call)
  | change (page : Page)

/-- The pool behind a change of a page; it does not know the pages that it has evicted. -/
def changePage (pool : BufferPool) (page : Page) : BufferPool :=
  match pool.pages[page.pageNum]? with
  | none => pool
  | some entry => { pool with pages := pool.pages.insert page.pageNum { entry with page } }

def use (pool : BufferPool) : Use → Except PoolFault BufferPool
  | .call (.getPage pageNum clock listing) =>
    Prod.snd <$> pool.getPage reentrantMutex listing clock pageNum
  | .call (.savePage pageNum) => Prod.snd <$> pool.savePage reentrantMutex .free pageNum
  | .call (.flushAll listing) => pool.flushAll reentrantMutex listing
  | .change page => .ok (changePage pool page)

/-- The pools that an eviction loop goes through. -/
inductive Evicting (listing : Listing) : BufferPool → BufferPool → Prop
  | start {pool : BufferPool} : Evicting listing pool pool
  | turn {pool pool' pool'' : BufferPool} (hover : pool.Over)
      (h : pool.evictLru reentrantMutex listing = .ok pool')
      (hrest : Evicting listing pool' pool'') : Evicting listing pool pool''

/-- The pool counts the bytes of its pages, and keeps each under its own number. -/
structure Counts (pool : BufferPool) : Prop where
  size : pool.currentSize.toNat = pageSize * pool.pages.size
  ownNumber : ∀ (k : UInt32) (entry : PoolEntry),
    pool.pages[k]? = some entry → entry.page.pageNum = k

/-- The pool counts right, holds no more than it may, and takes no page's bytes off a count
that has fewer. -/
structure Accounted (pool : BufferPool) : Prop extends Counts pool where
  fits : pool.currentSize ≤ pool.maxSize
  noUnderflow : ∀ pageNum clock listing pool', pool.pages[pageNum]? = none →
    Evicting listing (pool.addPage pageNum clock) pool' → pool'.Over →
      UInt64.ofNat pageSize ≤ pool'.currentSize

/-! Pages that stay in the pool. -/

lemma counts_insert {pool pool' : BufferPool} (h : Counts pool) {k : UInt32}
    {entry : PoolEntry} (hentry : pool.pages[k]? = some entry) (entry' : PoolEntry)
    (hpages : pool'.pages = pool.pages.insert k entry')
    (hsize : pool'.currentSize = pool.currentSize)
    (hnum : entry'.page.pageNum = entry.page.pageNum) : Counts pool' := by
  constructor
  · rw [hsize, h.size, hpages, ExtTreeMap.size_insert,
      if_pos (ExtTreeMap.mem_iff_contains.mp (mem_of_getElem? hentry))]
  · intro k' e he
    rw [hpages, ExtTreeMap.getElem?_insert] at he
    split_ifs at he with hk
    · obtain rfl := Option.some.inj he
      rw [hnum, h.ownNumber k entry hentry, LawfulEqOrd.eq_of_compare hk]
    · exact h.ownNumber k' e he

/-- The pool counts right, and may hold as much as before. -/
def Keeps (pool pool' : BufferPool) : Prop := Counts pool' ∧ pool'.maxSize = pool.maxSize

lemma keeps_written {pool : BufferPool} (h : Counts pool) {k : UInt32} {entry : PoolEntry}
    (hentry : pool.pages[k]? = some entry) : Keeps pool (pool.written k entry) :=
  ⟨counts_insert h hentry { entry with page := entry.page.serialize.2.markClean } rfl rfl rfl,
    rfl⟩

/-! Pages that come and go. -/

lemma keeps_addPage {pool : BufferPool} (h : Counts pool) {k : UInt32}
    (hmiss : pool.pages[k]? = none) (hroom : pool.currentSize.toNat + pageSize < 2 ^ 64)
    (clock : Clock) : Keeps pool (pool.addPage k clock) := by
  have hpage : (UInt64.ofNat pageSize).toNat = pageSize := rfl
  refine ⟨⟨?_, fun k' e he => ?_⟩, rfl⟩
  · rw [BufferPool.addPage, ExtTreeMap.size_insert,
      if_neg fun hk => not_mem_of_getElem? hmiss (ExtTreeMap.mem_iff_contains.mpr hk),
      UInt64.toNat_add, hpage, Nat.mod_eq_of_lt hroom, h.size, Nat.mul_succ]
  · rw [BufferPool.addPage, ExtTreeMap.getElem?_insert] at he
    split_ifs at he with hk
    · obtain rfl := Option.some.inj he
      exact LawfulEqOrd.eq_of_compare hk
    · exact h.ownNumber k' e he

/-- A pool with a page in it counts the bytes of that page. -/
lemma pageSize_le {pool : BufferPool} (h : Counts pool) {k : UInt32} (hk : k ∈ pool.pages) :
    UInt64.ofNat pageSize ≤ pool.currentSize := by
  have hpage : (UInt64.ofNat pageSize).toNat = pageSize := rfl
  have hpos : 0 < pool.pages.size := by
    have := BufferPool.size_drop hk
    omega
  rw [UInt64.le_iff_toNat_le, hpage, h.size]
  exact Nat.le_mul_of_pos_right _ hpos

lemma keeps_drop {pool : BufferPool} (h : Counts pool) {k : UInt32} (hk : k ∈ pool.pages) :
    Keeps pool (pool.drop k) := by
  have hpage : (UInt64.ofNat pageSize).toNat = pageSize := rfl
  refine ⟨⟨?_, fun k' e he => ?_⟩, rfl⟩
  · rw [BufferPool.drop, ExtTreeMap.size_erase, if_pos (ExtTreeMap.mem_iff_contains.mp hk),
      UInt64.toNat_sub_of_le _ _ (pageSize_le h hk), hpage, h.size, Nat.mul_sub, Nat.mul_one]
  · rw [BufferPool.drop, ExtTreeMap.getElem?_erase] at he
    split_ifs at he with hk'
    exact h.ownNumber k' e he

lemma keeps_evictLru {pool : BufferPool} (h : Counts pool) (hover : pool.Over)
    (listing : Listing) :
    ∃ pool', pool.evictLru reentrantMutex listing = .ok pool' ∧ Keeps pool pool' := by
  obtain ⟨k, entry, hlru⟩ := BufferPool.exists_lruEntry listing hover
  have hentry := getElem?_of_lruEntry hlru
  unfold BufferPool.evictLru
  rw [hlru]
  dsimp only
  split_ifs
  · obtain ⟨hcounts, hmax⟩ := keeps_written h hentry
    obtain ⟨hcounts', hmax'⟩ := keeps_drop hcounts (k := k) ExtTreeMap.mem_insert_self
    have hsave : pool.savePage reentrantMutex .exclusive k =
        .ok (true, pool.written k entry) := by
      unfold BufferPool.savePage
      rw [hentry]
      rfl
    rw [hsave]
    exact ⟨_, rfl, hcounts', hmax'.trans hmax⟩
  · exact ⟨_, rfl, keeps_drop h (mem_of_getElem? hentry)⟩

/-- **Every turn of the eviction loop counts right**. -/
lemma counts_evicting {listing : Listing} {pool pool' : BufferPool} (h : Counts pool)
    (hevicting : Evicting listing pool pool') : Counts pool' := by
  induction hevicting with
  | start => exact h
  | turn hover hevict _ ih =>
    obtain ⟨pool'', hpool'', hkeeps⟩ := keeps_evictLru h hover listing
    obtain rfl := Except.ok.inj (hevict.symm.trans hpool'')
    exact ih hkeeps.1

/-- **The eviction loop ends**, with no more in the pool than it may hold. -/
lemma keeps_evictWhile {pool : BufferPool} (h : Counts pool) (listing : Listing) :
    ∃ pool', pool.evictWhile reentrantMutex listing = .ok pool' ∧ Keeps pool pool' ∧
      pool'.currentSize ≤ pool'.maxSize := by
  induction pool using BufferPool.evictWhile.induct reentrantMutex listing with
  | case1 pool hover fault hfault =>
    obtain ⟨pool', hpool', -⟩ := keeps_evictLru h hover listing
    rw [hfault] at hpool'
    cases hpool'
  | case2 pool hover rest hrest _ ih =>
    obtain ⟨pool', hpool', hcounts, hmax⟩ := keeps_evictLru h hover listing
    obtain rfl := Except.ok.inj (hrest.symm.trans hpool')
    obtain ⟨pool'', hpool'', ⟨hcounts', hmax'⟩, hfits⟩ := ih hcounts
    refine ⟨pool'', ?_, ⟨hcounts', hmax'.trans hmax⟩, hfits⟩
    rw [BufferPool.evictWhile_of_over _ _ hover, hrest]
    exact hpool''
  | case3 pool hover =>
    refine ⟨pool, BufferPool.evictWhile_of_not_over _ _ hover, ⟨h, rfl⟩, ?_⟩
    by_contra hlarge
    have hempty : pool.pages.size = 0 := by
      rw [← ExtTreeMap.eq_empty_iff_size_eq_zero, ← ExtTreeMap.isEmpty_iff]
      by_contra hne
      exact hover ⟨UInt64.not_le.mp hlarge, Bool.eq_false_iff.mpr hne⟩
    refine hlarge (UInt64.le_iff_toNat_le.mpr ?_)
    rw [h.size, hempty]
    exact Nat.zero_le _

/-! ### Runs of the pool -/

/-- The pool counts right and holds no more than it may, with room to count one page more. -/
structure Fits (pool : BufferPool) : Prop extends Counts pool where
  fits : pool.currentSize ≤ pool.maxSize
  room : pool.maxSize.toNat + pageSize < 2 ^ 64

lemma Fits.addPage {pool : BufferPool} (h : Fits pool) {k : UInt32}
    (hmiss : pool.pages[k]? = none) (clock : Clock) : Keeps pool (pool.addPage k clock) := by
  have hfits := UInt64.le_iff_toNat_le.mp h.fits
  have hroom := h.room
  exact keeps_addPage h.toCounts hmiss (by omega) clock

/-- Nothing but pages that stay under their numbers. -/
lemma Fits.insert {pool pool' : BufferPool} (h : Fits pool) {k : UInt32}
    {entry : PoolEntry} (hentry : pool.pages[k]? = some entry) (entry' : PoolEntry)
    (hpages : pool'.pages = pool.pages.insert k entry')
    (hsize : pool'.currentSize = pool.currentSize) (hmax : pool'.maxSize = pool.maxSize)
    (hnum : entry'.page.pageNum = entry.page.pageNum) : Fits pool' := by
  refine ⟨counts_insert h.toCounts hentry entry' hpages hsize hnum, ?_, ?_⟩
  · rw [hsize, hmax]
    exact h.fits
  · rw [hmax]
    exact h.room

lemma fits_new (poolSizeMb : UInt64) : Fits (.new poolSizeMb) := by
  refine ⟨⟨?_, fun k entry hentry => ?_⟩, UInt64.zero_le, ?_⟩
  · rw [BufferPool.new, ExtTreeMap.size_empty]
    rfl
  · rw [BufferPool.new, ExtTreeMap.getElem?_empty] at hentry
    cases hentry
  · have hkilo : (1024 : UInt64).toNat = 1024 := rfl
    have hpage : pageSize = 8192 := rfl
    rw [BufferPool.new, UInt64.toNat_mul, UInt64.toNat_mul, hkilo, hpage]
    omega

lemma fits_savePage {pool : BufferPool} (h : Fits pool) (pageNum : UInt32) :
    ∃ found pool', pool.savePage reentrantMutex .free pageNum = .ok (found, pool') ∧
      Fits pool' := by
  unfold BufferPool.savePage
  rcases hentry : pool.pages[pageNum]? with _ | entry
  · exact ⟨false, pool, rfl, h⟩
  · exact ⟨true, pool.written pageNum entry, rfl, h.insert hentry
      { entry with page := entry.page.serialize.2.markClean } rfl rfl rfl rfl⟩

lemma fits_flushAll {pool : BufferPool} (h : Fits pool) (listing : Listing) :
    ∃ pool', pool.flushAll reentrantMutex listing = .ok pool' ∧ Fits pool' := by
  refine foldlM_inv (fun pool entry h => ?_) h (listing.list pool.pages)
  unfold BufferPool.flushTurn
  split_ifs
  · obtain ⟨found, pool', hsave, hfits⟩ := fits_savePage h entry.1
    rw [hsave]
    exact ⟨pool', rfl, hfits⟩
  · exact ⟨pool, rfl, h⟩

lemma fits_getPage {pool : BufferPool} (h : Fits pool) (pageNum : UInt32) (clock : Clock)
    (listing : Listing) :
    ∃ page pool', pool.getPage reentrantMutex listing clock pageNum = .ok (page, pool') ∧
      Fits pool' := by
  unfold BufferPool.getPage
  rcases hentry : pool.pages[pageNum]? with _ | entry
  · obtain ⟨hcounts, hmax⟩ := h.addPage hentry clock
    obtain ⟨pool', hpool', ⟨hcounts', hmax'⟩, hfits⟩ := keeps_evictWhile hcounts listing
    refine ⟨.new pageNum clock.time, pool', ?_, ⟨hcounts', hfits, ?_⟩⟩
    · simp only [reentrantMutex, ok_bind, hpool']
      rfl
    · rw [hmax', hmax]
      exact h.room
  · exact ⟨entry.page, pool.touch pageNum entry clock, rfl, h.insert hentry
      { entry with
        lastAccess := clock.now, accessCount := entry.accessCount + 1,
        frequency := entry.frequency + 1 } rfl rfl rfl rfl⟩

lemma fits_changePage {pool : BufferPool} (h : Fits pool) (page : Page) :
    Fits (changePage pool page) := by
  unfold changePage
  rcases hentry : pool.pages[page.pageNum]? with _ | entry
  · exact h
  · exact h.insert hentry { entry with page } rfl rfl rfl (h.ownNumber _ entry hentry).symm

lemma fits_use (pool : BufferPool) (u : Use) (h : Fits pool) :
    ∃ pool', use pool u = .ok pool' ∧ Fits pool' := by
  cases u with
  | call call =>
    cases call with
    | getPage pageNum clock listing =>
      obtain ⟨page, pool', hget, hfits⟩ := fits_getPage h pageNum clock listing
      exact ⟨pool', by rw [use, hget]; rfl, hfits⟩
    | savePage pageNum =>
      obtain ⟨found, pool', hsave, hfits⟩ := fits_savePage h pageNum
      exact ⟨pool', by rw [use, hsave]; rfl, hfits⟩
    | flushAll listing => exact fits_flushAll h listing
  | change page => exact ⟨_, rfl, fits_changePage h page⟩

lemma accounted_of_fits {pool : BufferPool} (h : Fits pool) : Accounted pool := by
  refine ⟨h.toCounts, h.fits, fun pageNum clock listing pool' hmiss hevicting hover => ?_⟩
  have hcounts := counts_evicting (h.addPage hmiss clock).1 hevicting
  obtain ⟨k, entry, hlru⟩ := BufferPool.exists_lruEntry listing hover
  exact pageSize_le hcounts (mem_of_getElem? (getElem?_of_lruEntry hlru))

/-- **The pool's books**: through any calls, and whatever the callers make of their pages, every
call comes back and the pool counts right, for a pool of any size. -/
theorem accounted_run (poolSizeMb : UInt64) (uses : List Use) :
    ∃ pool, uses.foldlM use (.new poolSizeMb) = .ok pool ∧ Accounted pool := by
  obtain ⟨pool, hpool, hfits⟩ := foldlM_inv fits_use (fits_new poolSizeMb) uses
  exact ⟨pool, hpool, accounted_of_fits hfits⟩

end Dbx4.EngineEvict
