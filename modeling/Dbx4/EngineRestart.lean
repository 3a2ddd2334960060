import Dbx4.EnginePage
import Dbx4.EngineCrc

/-!
When a page of the engine survives a restart.

The writer's checksum covers the first 8188 bytes of the image, with the checksum that the
header had before; the reader's covers all 8192 bytes, with zeros in that field. The image
holds no directory of slots: the reader reads through its own.
-/

namespace Dbx4.EngineRestart

open Dbx4.Word32 Dbx4.Memory Dbx4.Runs Dbx4.XorFold Dbx4.EngineModel Dbx4.EnginePage Dbx4.EngineCrc

/-! ### The image -/

/-- The bytes of a page's image, but for a checksum of its own. -/
def unsealed (p : Page) : Mem pageSize :=
  Mem.write (Mem.write (Vector.replicate pageSize 0) 0 (p.header.bytes.read 0 sizeofPageHeader))
    pageHeaderSize (p.data.read pageHeaderSize (pageSize - pageHeaderSize))

/-- With zeros in the checksum field. -/
def blank (p : Page) : Mem pageSize := (unsealed p).set offsetofChecksum 4 0

/-- With a checksum. -/
def sealedWith (p : Page) (checksum : UInt32) : Mem pageSize :=
  (unsealed p).set offsetofChecksum 4 checksum.toNat

/-- What the writer puts into the checksum field. -/
def written (p : Page) : UInt32 := CRC32C.calculate ((unsealed p).read 0 8188)

/-- What the reader expects there. -/
def expected (p : Page) : UInt32 := CRC32C.calculate ((blank p).read 0 pageSize)

lemma checksum_setChecksum (h : PageHeader) (v : UInt32) : (h.setChecksum v).checksum = v := by
  obtain ⟨-, -, -, hsize, hoff⟩ := sizes
  rw [PageHeader.checksum, PageHeader.setChecksum, get_set32 _ (by omega)]

lemma serialize_fst (p : Page) : p.serialize.1 = (sealedWith p (written p)).read 0 pageSize := by
  have hend : pageSize - 4 = 8188 := rfl
  simp only [Page.serialize, checksum_setChecksum, sealedWith, written, unsealed, hend]

lemma serialize_snd (p : Page) :
    p.serialize.2.slotDirectory = p.slotDirectory ∧ p.serialize.2.data = p.data := ⟨rfl, rfl⟩

/-- The reader takes an image that holds the checksum it expects. -/
lemma deserialize_sealedWith (p q : Page) (c : UInt32) :
    (q.deserialize ((sealedWith p c).read 0 pageSize)).1 = decide (expected p = c) ∧
      (q.deserialize ((sealedWith p c).read 0 pageSize)).2.slotDirectory = q.slotDirectory ∧
      (expected p = c →
        (q.deserialize ((sealedWith p c).read 0 pageSize)).2.data = sealedWith p c) := by
  obtain ⟨hpage, -, -, -, hoff⟩ := sizes
  have hlen : ¬ ((sealedWith p c).read 0 pageSize).length ≠ pageSize := by
    rw [length_read, ne_eq, not_not]
  have hstored : UInt32.ofNat ((sealedWith p c).get offsetofChecksum 4) = c := by
    rw [sealedWith, get_set32 _ (by omega)]
  have htemp : (sealedWith p c).set offsetofChecksum 4 0 = blank p := set_set _ _ _ _ _
  have hverify : CRC32C.verify ((blank p).read 0 pageSize) c = decide (expected p = c) := by
    rw [CRC32C.verify, expected]
    rfl
  rw [Page.deserialize, if_neg hlen]
  simp only [write_read_all, hstored, htemp, hverify, decide_eq_true_eq]
  split_ifs with hok
  · exact ⟨(decide_eq_true hok).symm, rfl, fun _ => rfl⟩
  · exact ⟨(decide_eq_false hok).symm, rfl, fun h => absurd h hok⟩

/-! ### The two checksums -/

/-- The register behind the bytes ahead of the last four. -/
def register (p : Page) : UInt32 := ((blank p).read 0 8188).foldl CRC32C.turn 0xFFFFFFFF

/-- What the checksum field of the header, with the bytes behind it, makes of a zero register. -/
def staleShare (p : Page) : UInt32 :=
  (List.replicate 8160 0).foldl CRC32C.turn ((p.header.bytes.read 24 4).foldl CRC32C.turn 0)

/-- The last four bytes change the register by what the old checksum adds to it. -/
def ChecksumsMeet (p : Page) : Prop :=
  (p.data.read 8188 4).foldl CRC32C.turn (register p) = register p ^^^ staleShare p

lemma read_blank (p : Page) {off len : ℕ} (h : off + len ≤ 24 ∨ 28 ≤ off) :
    (blank p).read off len = (unsealed p).read off len := by
  have hoff := sizes.2.2.2.2
  rw [blank, read_set_of_disjoint _ (by omega)]

lemma read_blank_field (p : Page) : (blank p).read 24 4 = List.replicate 4 0 := by
  have hread := read_write_self (unsealed p) (show 24 + (toLe 4 0).length ≤ pageSize by decide)
  exact hread

/-- The old checksum is in the image while the writer computes the new one. -/
lemma read_unsealed_field (p : Page) : (unsealed p).read 24 4 = p.header.bytes.read 24 4 := by
  obtain ⟨hpage, hheader, -, hsize, -⟩ := sizes
  have hread : (Mem.write (Vector.replicate pageSize 0) 0
      (p.header.bytes.read 0 sizeofPageHeader)).read (0 + 24) 4 = p.header.bytes.read (0 + 24) 4 :=
    read_write_read _ _ (by omega) (by omega)
  rw [Nat.zero_add] at hread
  rw [unsealed, read_write_of_disjoint _ (by omega), hread]

lemma read_unsealed_tail (p : Page) : (unsealed p).read 8188 4 = p.data.read 8188 4 := by
  obtain ⟨hpage, hheader, -, -, -⟩ := sizes
  have hread : (unsealed p).read (pageHeaderSize + 7676) 4 =
      p.data.read (pageHeaderSize + 7676) 4 := read_write_read _ _ (by omega) (by omega)
  rwa [hheader] at hread

/-- A message around the checksum field. -/
lemma read_around (m : Mem pageSize) :
    m.read 0 8188 = m.read 0 24 ++ (m.read 24 4 ++ m.read 28 8160) := by
  have hfield := read_append m 24 4 8160
  have hall := read_append m 0 24 8164
  rw [hall, hfield]

/-- What the writer's register holds. -/
lemma foldl_unsealed (p : Page) :
    ((unsealed p).read 0 8188).foldl CRC32C.turn 0xFFFFFFFF = register p ^^^ staleShare p := by
  have hahead : (blank p).read 0 24 = (unsealed p).read 0 24 := read_blank p (by omega)
  have hbehind : (blank p).read 28 8160 = (unsealed p).read 28 8160 := read_blank p (by omega)
  rw [register, read_around, read_around (blank p), hahead, hbehind, read_blank_field,
    read_unsealed_field, List.foldl_append, List.foldl_append, List.foldl_append,
    List.foldl_append]
  set ahead := ((unsealed p).read 0 24).foldl CRC32C.turn 0xFFFFFFFF
  set stale := p.header.bytes.read 24 4 with hstale
  have hlen : stale.length = (List.replicate 4 (0 : UInt8)).length := by
    rw [hstale, length_read, List.length_replicate]
  -- the registers behind the field differ by what the old checksum makes of zero
  have hfield : stale.foldl CRC32C.turn ahead ^^^
      (List.replicate 4 0).foldl CRC32C.turn ahead = stale.foldl CRC32C.turn 0 := by
    rw [← foldl_zipWith_xor linear_turn hlen, UInt32.xor_self]
    congr 1
    apply List.ext_getElem (by simp [hstale])
    intro i hi hi'
    rw [List.getElem_zipWith, List.getElem_replicate, UInt8.xor_zero]
  have hrest := foldl_xor_foldl linear_turn (z := 0) (fun b => UInt8.xor_self)
    ((unsealed p).read 28 8160) (stale.foldl CRC32C.turn ahead)
    ((List.replicate 4 0).foldl CRC32C.turn ahead)
  rw [hfield, length_read] at hrest
  rw [staleShare, ← hstale, ← hrest, UInt32.xor_comm, UInt32.xor_assoc, UInt32.xor_self,
    UInt32.xor_zero]

/-- **The two checksums of a page** are the same when its last four bytes do to the register
what the old checksum has done to it. -/
lemma expected_eq_written_iff (p : Page) : expected p = written p ↔ ChecksumsMeet p := by
  have hall : (blank p).read 0 pageSize = (blank p).read 0 8188 ++ (blank p).read 8188 4 :=
    read_append (blank p) 0 8188 4
  have htail : (blank p).read 8188 4 = (unsealed p).read 8188 4 := read_blank p (by omega)
  rw [expected, written, calculate_eq_iff, foldl_unsealed, hall, List.foldl_append,
    htail, read_unsealed_tail]
  rfl

/-! ### What a page shows of a slot -/

/-- A version that some reader sees: the first version that reads it, the one from which on it
is gone, or zero, and what a reader finds. -/
structure Shown where
  creating : UInt64
  expiring : UInt64
  content : Except Fault (Bool × Bytes)
  seen : expiring = 0 ∨ creating < expiring

def Shown.Covers (e : Shown) (v : UInt64) : Prop :=
  e.creating ≤ v ∧ (e.expiring = 0 ∨ v < e.expiring)

/-- What lies in a slot of some data, and whether its checksum is right. -/
def content (data : Mem pageSize) (s : SlotHeader) : Except Fault (Bool × Bytes) := do
  let row ← data.readAt s.offset.toNat s.length.toNat
  return (CRC32C.verify row s.checksum, row)

def shownIn (data : Mem pageSize) (s : SlotHeader) : Option Shown :=
  if h : s.expiringTxn = 0 ∨ s.creatingTxn < s.expiringTxn then
    some ⟨s.creatingTxn, s.expiringTxn, content data s, h⟩
  else none

/-- What the slot shows of the data. -/
def shown (slots : List SlotHeader) (data : Mem pageSize) (slotId : UInt16) : Option Shown :=
  slots[slotId.toNat]?.bind (shownIn data)

/-- What a read gives the caller. -/
def answer (p : Page) (slotId : UInt16) (rowData : Bytes) (v : UInt64) :
    Except Fault (Bool × Bytes) :=
  Prod.fst <$> p.readRow slotId rowData v

lemma answer_of_none {p : Page} {slotId : UInt16}
    (h : shown p.slotDirectory p.data slotId = none) (rowData : Bytes) (v : UInt64) :
    answer p slotId rowData v = .ok (false, rowData) := by
  rw [answer, Page.readRow]
  rcases hs : p.slotDirectory[slotId.toNat]? with _ | s
  · rfl
  · rw [shown, hs, Option.bind_some, shownIn, dite_eq_right_iff] at h
    have hgone : ¬ (s.expiringTxn = 0 ∨ s.creatingTxn < s.expiringTxn) := fun hseen => by
      cases h hseen
    rw [not_or, UInt64.not_lt] at hgone
    dsimp only
    split_ifs with hnew hold
    · rfl
    · rfl
    · exact absurd ⟨hgone.1, UInt64.le_trans hgone.2 (UInt64.not_lt.mp hnew)⟩ hold

lemma answer_of_some {p : Page} {slotId : UInt16} {e : Shown}
    (h : shown p.slotDirectory p.data slotId = some e) (rowData : Bytes) (v : UInt64) :
    (e.Covers v → answer p slotId rowData v = e.content) ∧
      (¬ e.Covers v → answer p slotId rowData v = .ok (false, rowData)) := by
  rw [answer, Page.readRow]
  rcases hs : p.slotDirectory[slotId.toNat]? with _ | s
  · rw [shown, hs, Option.bind_none] at h
    cases h
  · rw [shown, hs, Option.bind_some, shownIn, Option.dite_none_right_eq_some] at h
    obtain ⟨hseen, he⟩ := h
    obtain rfl := Option.some.inj he
    dsimp only
    constructor
    · rintro ⟨hnew, hold⟩
      rw [if_neg (UInt64.not_lt.mpr hnew), if_neg]
      · rw [content]
        rcases p.data.readAt s.offset.toNat s.length.toNat with fault | row
        · rfl
        · rw [ok_bind, ok_bind]
          split_ifs with hverify
          · rw [hverify]
            rfl
          · rw [Bool.eq_false_iff.mpr hverify]
            rfl
      · rintro ⟨hne, hle⟩
        rcases hold with hzero | hlt
        · exact hne hzero
        · exact UInt64.not_lt.mpr hle hlt
    · intro hcovers
      split_ifs with hnew hold
      · rfl
      · rfl
      · refine absurd ⟨UInt64.not_lt.mp hnew, ?_⟩ hcovers
        by_contra hgone
        rw [not_or, UInt64.not_lt] at hgone
        exact hold hgone

/-- A read whose vector tells the two results apart. -/
lemma exists_content_ne (c : Except Fault (Bool × Bytes)) :
    ∃ rowData, c ≠ .ok (false, rowData) := by
  rcases c with fault | ⟨ok, row⟩
  · exact ⟨[], fun h => by cases h⟩
  · refine ⟨0 :: row, fun h => ?_⟩
    have hrow : row = 0 :: row := congrArg Prod.snd (Except.ok.inj h)
    exact List.cons_ne_self 0 row hrow.symm

lemma Shown.covers_creating (e : Shown) : e.Covers e.creating := ⟨UInt64.le_refl _, e.seen⟩

/-- The versions that see something give both ends. -/
lemma Shown.ends_of_covers {e e' : Shown} (h : ∀ v, e.Covers v → e'.Covers v) :
    e'.creating ≤ e.creating ∧ (e'.expiring ≠ 0 → e.expiring ≠ 0 ∧ e.expiring ≤ e'.expiring) := by
  have hcreating := (h _ e.covers_creating).1
  refine ⟨hcreating, fun hne => ?_⟩
  by_contra hcon
  have hold : e.expiring = 0 ∨ e'.expiring < e.expiring := by
    by_contra hno
    rw [not_or, UInt64.not_lt] at hno
    exact hcon hno
  by_cases hle : e.creating ≤ e'.expiring
  · -- the first one still covers the version at which the second one ends
    rcases (h _ ⟨hle, hold⟩).2 with hzero | hlt
    · exact hne hzero
    · exact UInt64.lt_irrefl _ hlt
  · rcases (h _ e.covers_creating).2 with hzero | hlt
    · exact hne hzero
    · exact hle (UInt64.le_of_lt hlt)

/-- The versions that see something determine both ends. -/
lemma Shown.same_ends {e e' : Shown} (h : ∀ v, e.Covers v ↔ e'.Covers v) :
    e.creating = e'.creating ∧ e.expiring = e'.expiring := by
  obtain ⟨hle, hends⟩ := Shown.ends_of_covers fun v => (h v).mp
  obtain ⟨hle', hends'⟩ := Shown.ends_of_covers fun v => (h v).mpr
  refine ⟨UInt64.le_antisymm hle' hle, ?_⟩
  by_cases hzero : e.expiring = 0
  · by_cases hzero' : e'.expiring = 0
    · rw [hzero, hzero']
    · exact absurd hzero (hends hzero').1
  · obtain ⟨hne', hge⟩ := hends' hzero
    exact UInt64.le_antisymm (hends hne').2 hge

/-- Where one slot shows something, a slot that reads alike does. -/
lemma exists_shown_of_answers {p q : Page} {slotId : UInt16}
    (h : ∀ rowData v, answer q slotId rowData v = answer p slotId rowData v) {e : Shown}
    (hp : shown p.slotDirectory p.data slotId = some e) {v : UInt64} (hv : e.Covers v) :
    ∃ e', shown q.slotDirectory q.data slotId = some e' ∧ e'.Covers v := by
  obtain ⟨rowData, hne⟩ := exists_content_ne e.content
  have hread := h rowData v
  rw [(answer_of_some hp _ _).1 hv] at hread
  rcases hq : shown q.slotDirectory q.data slotId with _ | e'
  · rw [answer_of_none hq] at hread
    exact absurd hread.symm hne
  · refine ⟨e', rfl, ?_⟩
    by_contra hv'
    rw [(answer_of_some hq _ _).2 hv'] at hread
    exact hne hread.symm

/-- **Slots that read alike** show the same. -/
lemma answer_eq_iff (p q : Page) (slotId : UInt16) :
    (∀ rowData v, answer q slotId rowData v = answer p slotId rowData v) ↔
      shown q.slotDirectory q.data slotId = shown p.slotDirectory p.data slotId := by
  refine ⟨fun h => ?_, fun h rowData v => ?_⟩
  · have hback : ∀ rowData v, answer p slotId rowData v = answer q slotId rowData v :=
      fun rowData v => (h rowData v).symm
    rcases hp : shown p.slotDirectory p.data slotId with _ | e
    · rcases hq : shown q.slotDirectory q.data slotId with _ | e'
      · rfl
      · obtain ⟨e, hp', -⟩ := exists_shown_of_answers hback hq e'.covers_creating
        cases hp.symm.trans hp'
    · obtain ⟨e', hq, -⟩ := exists_shown_of_answers h hp e.covers_creating
      have hcovers : ∀ v, e.Covers v ↔ e'.Covers v := by
        intro v
        constructor
        · intro hv
          obtain ⟨e'', hq', hv'⟩ := exists_shown_of_answers h hp hv
          obtain rfl := Option.some.inj (hq.symm.trans hq')
          exact hv'
        · intro hv'
          obtain ⟨e'', hp', hv⟩ := exists_shown_of_answers hback hq hv'
          obtain rfl := Option.some.inj (hp.symm.trans hp')
          exact hv
      have hcontent := h [] e.creating
      rw [(answer_of_some hp _ _).1 e.covers_creating,
        (answer_of_some hq _ _).1 ((hcovers _).mp e.covers_creating)] at hcontent
      obtain ⟨hcreating, hexpiring⟩ := Shown.same_ends hcovers
      rw [hq]
      obtain ⟨creating, expiring, content, seen⟩ := e
      obtain ⟨creating', expiring', content', seen'⟩ := e'
      obtain rfl : creating = creating' := hcreating
      obtain rfl : expiring = expiring' := hexpiring
      obtain rfl : content' = content := hcontent
      rfl
  · rcases hp : shown p.slotDirectory p.data slotId with _ | e
    · rw [answer_of_none hp, answer_of_none (h.trans hp)]
    · by_cases hv : e.Covers v
      · rw [(answer_of_some hp _ _).1 hv, (answer_of_some (h.trans hp) _ _).1 hv]
      · rw [(answer_of_some hp _ _).2 hv, (answer_of_some (h.trans hp) _ _).2 hv]

/-! ### Restarts -/

/-- The other page takes the image, and then reads as the first one does. -/
def Restarts (p q : Page) : Prop :=
  (q.deserialize p.serialize.1).1 = true ∧
    ∀ slotId rowData v, answer (q.deserialize p.serialize.1).2 slotId rowData v =
      answer p.serialize.2 slotId rowData v

/-- The image of the page, with the checksum that the reader expects. -/
def image (p : Page) : Mem pageSize := sealedWith p (expected p)

/-- **When a page survives a restart**: the checksums meet, and every slot of the page shows
what the reader's own slot of this number shows of the image. -/
theorem restarts_iff (p q : Page) :
    Restarts p q ↔ ChecksumsMeet p ∧
      ∀ slotId, shown q.slotDirectory (image p) slotId = shown p.slotDirectory p.data slotId := by
  obtain ⟨hok, hslots, hdata⟩ := deserialize_sealedWith p q (written p)
  obtain ⟨hslots', hdata'⟩ := serialize_snd p
  rw [Restarts, serialize_fst, hok, decide_eq_true_iff, expected_eq_written_iff]
  refine and_congr_right fun hmeet => forall_congr' fun slotId => ?_
  have hexpected := (expected_eq_written_iff p).mpr hmeet
  rw [answer_eq_iff, hslots, hdata hexpected, hslots', hdata', image, hexpected]

/-- A page with an empty row, which every version sees. -/
def withEmptyRow : Page :=
  { Page.new 1 0 with slotDirectory := [⟨512, 0, 0, 0, 0, 0⟩] }

/-- A fresh page does not find the row in the image. -/
theorem not_restarts_withEmptyRow : ¬ Restarts withEmptyRow (.new 2 0) := by
  rintro ⟨-, hreads⟩
  have hread := (answer_eq_iff _ _ 0).mp (hreads 0)
  obtain ⟨-, hslots, -⟩ := deserialize_sealedWith withEmptyRow (.new 2 0) (written withEmptyRow)
  rw [serialize_fst, shown, hslots, (serialize_snd _).1] at hread
  cases hread

end Dbx4.EngineRestart
