import Mathlib.Logic.Function.Basic
import Dbx4.PoolCounts

/-!
The pool of `storage_engine_production.cpp` as a store of pages.

A pool that has room for all pages that it is asked for never evicts one. It gives back every
page as it was last changed or saved, with whatever clock and in whatever order its hash map
lists the pages, and no call locks a mutex that it holds.
-/

namespace Dbx4.PoolStore

open Std Function Dbx4.Maps Dbx4.Runs Dbx4.EngineModel Dbx4.EnginePoolModel Dbx4.EngineEvict
open Dbx4.EnginePool (getPage_of_miss inKeyOrder)

/-! ### The store -/

/-- The pages by their numbers. -/
abbrev Store := UInt32 → Option Page

inductive Answer
  | page (page : Page)
  | found (found : Bool)
  | done

/-- What `save_page` makes of a page. -/
def saved (page : Page) : Page := page.serialize.2.markClean

/-- What `flush_all` makes of a page. -/
def flushed (page : Page) : Page := if page.isDirty then saved page else page

namespace Store

/-- The page of a number, which is made when it is asked for first. -/
def fetched (s : Store) (pageNum : UInt32) (clock : Clock) : Page :=
  (s pageNum).getD (.new pageNum clock.time)

def step (s : Store) : Use → Store
  | .call (.getPage pageNum clock _) => update s pageNum (some (s.fetched pageNum clock))
  | .call (.savePage pageNum) => update s pageNum ((s pageNum).map saved)
  | .call (.flushAll _) => fun k => (s k).map flushed
  | .change page => update s page.pageNum ((s page.pageNum).map fun _ => page)

def answer (s : Store) : Use → Answer
  | .call (.getPage pageNum clock _) => .page (s.fetched pageNum clock)
  | .call (.savePage pageNum) => .found (s pageNum).isSome
  | .call (.flushAll _) => .done
  | .change _ => .done

end Store

/-- What the pool answers. -/
def serve (pool : BufferPool) : Use → Except PoolFault (Answer × BufferPool)
  | .call (.getPage pageNum clock listing) => do
    let (page, pool) ← pool.getPage sharedMutex listing clock pageNum
    return (.page page, pool)
  | .call (.savePage pageNum) => do
    let (found, pool) ← pool.savePage sharedMutex .free pageNum
    return (.found found, pool)
  | .call (.flushAll listing) => do
    let pool ← pool.flushAll sharedMutex listing
    return (.done, pool)
  | .change page => .ok (.done, changePage pool page)

def requested : Use → Option UInt32
  | .call (.getPage pageNum _ _) => some pageNum
  | .call (.savePage _) => none
  | .call (.flushAll _) => none
  | .change _ => none

/-! ### The pool as a store -/

/-- The pool holds the pages of the store, and has room for all the numbers. -/
structure Stands (numbers : Finset UInt32) (pool : BufferPool) (s : Store) : Prop
    extends Fits pool where
  pages : ∀ k, pool.pages[k]?.map PoolEntry.page = s k
  within : ∀ k ∈ pool.pages, k ∈ numbers
  enough : pageSize * numbers.card ≤ pool.maxSize.toNat

variable {numbers : Finset UInt32} {pool : BufferPool} {s : Store}

/-- A page of the pool is replaced by another version of it. -/
lemma Stands.insert (h : Stands numbers pool s) {pool' : BufferPool} {k : UInt32}
    {entry : PoolEntry} (hentry : pool.pages[k]? = some entry) (entry' : PoolEntry)
    (hpages : pool'.pages = pool.pages.insert k entry')
    (hsize : pool'.currentSize = pool.currentSize) (hmax : pool'.maxSize = pool.maxSize)
    (hnum : entry'.page.pageNum = entry.page.pageNum) :
    Stands numbers pool' (update s k (some entry'.page)) := by
  refine ⟨h.toFits.insert hentry entry' hpages hsize hmax hnum, fun k' => ?_, fun k' hk' => ?_, ?_⟩
  · by_cases hk : k = k'
    · subst hk
      rw [hpages, ExtTreeMap.getElem?_insert_self, update_self, Option.map_some]
    · rw [hpages, getElem?_insert_of_ne _ hk, update_of_ne (Ne.symm hk), h.pages]
  · rw [hpages, mem_insert_iff] at hk'
    rcases hk' with rfl | hk'
    · exact h.within _ (mem_of_getElem? hentry)
    · exact h.within _ hk'
  · rw [hmax]
    exact h.enough

lemma Stands.miss (h : Stands numbers pool s) {k : UInt32} (hmiss : pool.pages[k]? = none) :
    s k = none := by
  rw [← h.pages, hmiss, Option.map_none]

lemma Stands.hit (h : Stands numbers pool s) {k : UInt32} {entry : PoolEntry}
    (hentry : pool.pages[k]? = some entry) : s k = some entry.page := by
  rw [← h.pages, hentry, Option.map_some]

/-- **Room for one more**: the pool with a new page holds no more than it may. -/
lemma Stands.addPage (h : Stands numbers pool s) {k : UInt32} (hmiss : pool.pages[k]? = none)
    (hk : k ∈ numbers) (clock : Clock) :
    ¬(pool.addPage k clock).Over ∧
      Stands numbers (pool.addPage k clock) (update s k (some (.new k clock.time))) := by
  obtain ⟨hcounts, hmax⟩ := h.toFits.addPage hmiss clock
  have hwithin : ∀ k' ∈ (pool.addPage k clock).pages, k' ∈ numbers := by
    intro k' hk'
    rw [BufferPool.addPage, mem_insert_iff] at hk'
    rcases hk' with rfl | hk'
    · exact hk
    · exact h.within k' hk'
  have hfits : (pool.addPage k clock).currentSize ≤ (pool.addPage k clock).maxSize := by
    rw [UInt64.le_iff_toNat_le, hcounts.size, hmax]
    calc pageSize * (pool.addPage k clock).pages.size
        ≤ pageSize * numbers.card :=
          Nat.mul_le_mul_left _ ((Listed.of_perm (List.Perm.refl _)).size_le_card hwithin)
      _ ≤ pool.maxSize.toNat := h.enough
  refine ⟨fun hover => UInt64.not_lt.mpr hfits hover.1, ⟨hcounts, hfits, ?_⟩, fun k' => ?_,
    hwithin, ?_⟩
  · rw [hmax]
    exact h.room
  · by_cases hk' : k = k'
    · subst hk'
      rw [BufferPool.addPage, ExtTreeMap.getElem?_insert_self, update_self]
      rfl
    · rw [BufferPool.addPage, getElem?_insert_of_ne _ hk', update_of_ne (Ne.symm hk'), h.pages]
  · rw [hmax]
    exact h.enough

/-! ### One use -/

lemma Stands.getPage (h : Stands numbers pool s) {k : UInt32} (hk : k ∈ numbers) (clock : Clock)
    (listing : Listing) :
    ∃ pool', pool.getPage sharedMutex listing clock k = .ok (s.fetched k clock, pool') ∧
      Stands numbers pool' (update s k (some (s.fetched k clock))) := by
  rcases hentry : pool.pages[k]? with _ | entry
  · obtain ⟨hroom, hstands⟩ := h.addPage hentry hk clock
    have hfetched : s.fetched k clock = .new k clock.time := by
      rw [Store.fetched, h.miss hentry, Option.getD_none]
    refine ⟨pool.addPage k clock, ?_, hfetched ▸ hstands⟩
    rw [getPage_of_miss hentry, BufferPool.evictWhile_of_not_over _ _ hroom, ok_bind, hfetched]
  · have hfetched : s.fetched k clock = entry.page := by
      rw [Store.fetched, h.hit hentry, Option.getD_some]
    refine ⟨pool.touch k entry clock, ?_, ?_⟩
    · unfold BufferPool.getPage
      rw [hentry, hfetched]
      rfl
    · rw [hfetched]
      exact h.insert hentry
        { entry with
          lastAccess := clock.now, accessCount := entry.accessCount + 1,
          frequency := entry.frequency + 1 } rfl rfl rfl rfl

lemma Stands.savePage (h : Stands numbers pool s) (k : UInt32) :
    ∃ pool', pool.savePage sharedMutex .free k = .ok ((s k).isSome, pool') ∧
      Stands numbers pool' (update s k ((s k).map saved)) := by
  unfold BufferPool.savePage
  rcases hentry : pool.pages[k]? with _ | entry
  · have hs := h.miss hentry
    refine ⟨pool, by rw [hs]; rfl, ?_⟩
    rw [hs, Option.map_none, ← hs, update_eq_self]
    exact h
  · rw [h.hit hentry, Option.map_some]
    exact ⟨pool.written k entry, rfl,
      h.insert hentry { entry with page := entry.page.serialize.2.markClean } rfl rfl rfl rfl⟩

lemma Stands.changePage (h : Stands numbers pool s) (page : Page) :
    Stands numbers (changePage pool page)
      (update s page.pageNum ((s page.pageNum).map fun _ => page)) := by
  unfold EngineEvict.changePage
  rcases hentry : pool.pages[page.pageNum]? with _ | entry
  · have hs := h.miss hentry
    rw [hs, Option.map_none, ← hs, update_eq_self]
    exact h
  · rw [h.hit hentry, Option.map_some]
    exact h.insert hentry { entry with page } rfl rfl rfl
      (h.ownNumber _ entry hentry).symm

lemma Stands.flushTurn (h : Stands numbers pool s) {k : UInt32} {entry : PoolEntry}
    (hlisted : s k = some entry.page) :
    ∃ pool', pool.flushTurn sharedMutex (k, entry) = .ok pool' ∧
      Stands numbers pool' (update s k ((s k).map flushed)) := by
  rw [hlisted, Option.map_some]
  unfold BufferPool.flushTurn
  split_ifs with hdirty
  · obtain ⟨pool', hsave, hstands⟩ := h.savePage k
    rw [hsave, flushed, if_pos hdirty]
    rw [hlisted, Option.map_some] at hstands
    exact ⟨pool', rfl, hstands⟩
  · rw [flushed, if_neg hdirty, ← hlisted, update_eq_self]
    exact ⟨pool, rfl, h⟩

/-- The entries that the loop of `flush_all` goes through are those of the pool it started
with; each turn leaves the pages of the others as they are. -/
lemma Stands.flushEntries {entries : List (UInt32 × PoolEntry)} (h : Stands numbers pool s)
    (hnodup : (entries.map Prod.fst).Nodup) (hlisted : ∀ e ∈ entries, s e.1 = some e.2.page) :
    ∃ pool', entries.foldlM (BufferPool.flushTurn sharedMutex) pool = .ok pool' ∧
      Stands numbers pool' fun k => if k ∈ entries.map Prod.fst then (s k).map flushed else s k := by
  induction entries generalizing pool s with
  | nil => exact ⟨pool, rfl, h⟩
  | cons e entries ih =>
    rw [List.forall_mem_cons] at hlisted
    rw [List.map_cons, List.nodup_cons] at hnodup
    obtain ⟨pool', hturn, hstands⟩ := h.flushTurn hlisted.1
    have hothers : ∀ e' ∈ entries,
        update s e.1 ((s e.1).map flushed) e'.1 = some e'.2.page := by
      intro e' he'
      have hne : e'.1 ≠ e.1 := fun heq => hnodup.1 (heq ▸ List.mem_map_of_mem he')
      rw [update_of_ne hne, hlisted.2 e' he']
    obtain ⟨pool'', hrest, hstands'⟩ := ih hstands hnodup.2 hothers
    refine ⟨pool'', ?_, ?_⟩
    · rw [List.foldlM_cons, hturn, ok_bind, hrest]
    · convert hstands' using 2 with k
      by_cases hk : k = e.1
      · subst hk
        rw [List.map_cons, if_pos List.mem_cons_self, if_neg hnodup.1, update_self]
      · simp only [List.map_cons, List.mem_cons, hk, false_or, update_of_ne hk]

lemma Stands.flushAll (h : Stands numbers pool s) (listing : Listing) :
    ∃ pool', pool.flushAll sharedMutex listing = .ok pool' ∧
      Stands numbers pool' fun k => (s k).map flushed := by
  have hkeys := Listed.of_perm (listing.perm pool.pages)
  have hlisted : ∀ e ∈ listing.list pool.pages, s e.1 = some e.2.page := fun e he =>
    h.hit (ExtTreeMap.mem_toList_iff_getElem?_eq_some.mp ((listing.perm pool.pages).mem_iff.mp he))
  obtain ⟨pool', hflush, hstands⟩ := h.flushEntries hkeys.1 hlisted
  refine ⟨pool', hflush, ?_⟩
  convert hstands using 2 with k
  rcases hentry : pool.pages[k]? with _ | entry
  · rw [if_neg fun hk => not_mem_of_getElem? hentry ((hkeys.2 k).mp hk), h.miss hentry,
      Option.map_none]
  · rw [if_pos ((hkeys.2 k).mpr (mem_of_getElem? hentry))]

/-- **One use**: the pool answers as the store does, and stands for the store behind it. -/
lemma Stands.serve (h : Stands numbers pool s) {u : Use} (hu : ∀ k ∈ requested u, k ∈ numbers) :
    ∃ pool', serve pool u = .ok (s.answer u, pool') ∧ Stands numbers pool' (s.step u) := by
  cases u with
  | call call =>
    cases call with
    | getPage k clock listing =>
      obtain ⟨pool', hget, hstands⟩ := h.getPage (hu k rfl) clock listing
      exact ⟨pool', by rw [PoolStore.serve, hget]; rfl, hstands⟩
    | savePage k =>
      obtain ⟨pool', hsave, hstands⟩ := h.savePage k
      exact ⟨pool', by rw [PoolStore.serve, hsave]; rfl, hstands⟩
    | flushAll listing =>
      obtain ⟨pool', hflush, hstands⟩ := h.flushAll listing
      exact ⟨pool', by rw [PoolStore.serve, hflush]; rfl, hstands⟩
  | change page => exact ⟨_, rfl, h.changePage page⟩

/-! ### Runs -/

lemma stands_new {poolSizeMb : UInt64}
    (hroom : pageSize * numbers.card ≤ (BufferPool.new poolSizeMb).maxSize.toNat) :
    Stands numbers (.new poolSizeMb) fun _ => none := by
  refine ⟨fits_new poolSizeMb, fun k => ?_, fun k hk => ?_, hroom⟩
  · rw [BufferPool.new, ExtTreeMap.getElem?_empty, Option.map_none]
  · exact absurd hk ExtTreeMap.not_mem_empty

/-- **The pool is a store**: a pool with room for every page that a run asks for answers each
use as the store does, and has the store's pages behind the run. -/
theorem serve_run (poolSizeMb : UInt64) (uses : List Use)
    (hroom : pageSize * (uses.filterMap requested).toFinset.card ≤
      (BufferPool.new poolSizeMb).maxSize.toNat) :
    ∃ pool, history serve (.new poolSizeMb) uses =
        .ok (uses.zip (answers Store.step (fun _ => true) Store.answer (fun _ => none) uses),
          pool) ∧
      ∀ k, pool.pages[k]?.map PoolEntry.page = run Store.step (fun _ => none) uses k := by
  set numbers := (uses.filterMap requested).toFinset with hnumbers
  have hallowed : ∀ u ∈ uses, ∀ k ∈ requested u, k ∈ numbers := fun u hu k hk => by
    rw [hnumbers, List.mem_toFinset, List.mem_filterMap]
    exact ⟨u, hu, hk⟩
  have hstep (pool : BufferPool) (s : Store) (u : Use) (hu : ∀ k ∈ requested u, k ∈ numbers)
      (h : Stands numbers pool s) := h.serve hu
  obtain ⟨pool, hpool, hstands⟩ := history_sim hstep (stands_new hroom) hallowed
  exact ⟨pool, hpool, hstands.pages⟩

/-- Two pages are made, one is changed and saved, and both are flushed. -/
theorem serve_run_two :
    ∃ pool, history serve (.new 1)
        [.call (.getPage 1 ⟨0, 0⟩ inKeyOrder), .call (.getPage 2 ⟨0, 1⟩ inKeyOrder),
          .change { Page.new 2 0 with isDirty := true }, .call (.savePage 1),
          .call (.flushAll inKeyOrder)] =
        .ok ([(.call (.getPage 1 ⟨0, 0⟩ inKeyOrder), .page (.new 1 0)),
          (.call (.getPage 2 ⟨0, 1⟩ inKeyOrder), .page (.new 2 0)),
          (.change { Page.new 2 0 with isDirty := true }, .done),
          (.call (.savePage 1), .found true), (.call (.flushAll inKeyOrder), .done)], pool) ∧
      ∀ k, pool.pages[k]?.map PoolEntry.page = run Store.step (fun _ => none)
        [.call (.getPage 1 ⟨0, 0⟩ inKeyOrder), .call (.getPage 2 ⟨0, 1⟩ inKeyOrder),
          .change { Page.new 2 0 with isDirty := true }, .call (.savePage 1),
          .call (.flushAll inKeyOrder)] k :=
  serve_run 1 _ (by decide)

end Dbx4.PoolStore
