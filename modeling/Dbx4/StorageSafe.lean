import Dbx4.StorageLayout

/-!
Which images make a page that is safe to use.

A page takes its counters and slots from the image it reads; `insert_row` checks the counters,
`read_row` checks no slot. The page is safe to use exactly when the image has at most 256
slots and every one of them lies in the payload.
-/

namespace Dbx4.StorageSafe

open Dbx4.Word32 Dbx4.Memory Dbx4.Runs Dbx4.StorageModel Dbx4.StorageLayout

inductive Call
  | insertRow (row : Row)
  | readRow (slotIdx : UInt16)

/-- The page behind a call; a call that leaves the page does not get there. -/
def after (p : StoragePage) : Call → StoragePage
  | .insertRow row =>
    match p.insertRow row with
    | .ok (_, p') => p'
    | .error _ => p
  | .readRow _ => p

/-- The call uses one of the 256 slots, and touches only bytes of the page. -/
def Safe (p : StoragePage) : Call → Prop
  | .insertRow row => ∃ taken p', p.insertRow row = .ok (taken, p') ∧
      (taken = true → p.numSlots.toNat < 256)
  | .readRow i => i < p.numSlots → i.toNat < 256 ∧
      ∃ s, p.slot i.toNat = .ok s ∧ s.offset.toNat + s.length.toNat ≤ payloadSize

/-- Every call is safe, whatever calls come before it. -/
def SafeAfter (p : StoragePage) : Prop := ∀ calls, Along after Safe p calls

/-- A safe read does not fault. -/
theorem readRow_of_safe {p : StoragePage} {i : UInt16} (h : Safe p (.readRow i)) :
    ∃ row, p.readRow i = .ok row := by
  obtain ⟨hpage, hstart, hsize⟩ := layout
  rw [StoragePage.readRow]
  by_cases hi : p.numSlots ≤ i
  · exact ⟨none, if_pos hi⟩
  · obtain ⟨-, s, hs, hle⟩ := h (UInt16.not_le.mp hi)
    rw [if_neg hi, hs, ok_bind, StoragePage.readPayload, Mem.readAt, if_pos (by omega), ok_bind]
    exact ⟨_, rfl⟩

/-- At most 256 slots, each in the payload. -/
structure Inside (p : StoragePage) : Prop where
  few : p.data.get 8 2 ≤ 256
  inside : ∀ i < p.data.get 8 2,
    p.data.get (256 + 8 * i) 4 + p.data.get (256 + 8 * i + 4) 2 ≤ 5888

lemma inside_after {p : StoragePage} (h : Inside p) (call : Call) : Inside (after p call) := by
  obtain ⟨hfew, hin⟩ := h
  cases call with
  | readRow i => exact ⟨hfew, hin⟩
  | insertRow row =>
    rw [after, insertRow_eq, numSlots_toNat, freeOffset_toNat]
    split_ifs with hroom
    · obtain ⟨hslots, hroom⟩ := hroom
      obtain ⟨hnum, -⟩ := header_afterInsert hslots hroom
      refine ⟨by rw [hnum]; omega, fun i hi => ?_⟩
      rw [hnum] at hi
      obtain ⟨hoff, hlen⟩ := slots_afterInsert hslots hroom hi
      rw [hoff, hlen]
      split_ifs with hlt
      · exact hin i hlt
      · exact hroom
    · exact ⟨hfew, hin⟩

lemma safe_of_inside {p : StoragePage} (h : Inside p) (call : Call) : Safe p call := by
  have hsize := layout.2.2
  have hn := numSlots_toNat p
  cases call with
  | insertRow row =>
    rw [Safe, insertRow_eq]
    by_cases hroom : p.numSlots.toNat < 256 ∧ p.freeOffset.toNat + row.bytes.length ≤ 5888
    · rw [if_pos hroom]
      exact ⟨true, _, rfl, fun _ => hroom.1⟩
    · rw [if_neg hroom]
      exact ⟨false, p, rfl, by simp⟩
  | readRow i =>
    intro hi
    rw [UInt16.lt_iff_toNat_lt, hn] at hi
    have hfew := h.few
    have hin := h.inside i.toNat hi
    refine ⟨by omega, _, slot_of_lt p (by omega), ?_⟩
    rw [toNat_get32, toNat_get16, hsize]
    exact hin

/-- A page is safe to use when its slots lie in its payload. -/
lemma safeAfter_iff_inside (p : StoragePage) : SafeAfter p ↔ Inside p := by
  have hsize := layout.2.2
  have hn := numSlots_toNat p
  refine ⟨fun h => ?_, fun h calls => ?_⟩
  · have hread : ∀ i < p.data.get 8 2, i < 256 ∧
        p.data.get (256 + 8 * i) 4 + p.data.get (256 + 8 * i + 4) 2 ≤ 5888 := by
      intro i hi
      have hnum := get_lt p.data 8 2
      have hi16 : (UInt16.ofNat i).toNat = i := by
        rw [UInt16.toNat_ofNat', Nat.mod_eq_of_lt (by omega)]
      have hsafe : Safe p (.readRow (UInt16.ofNat i)) := (h [.readRow (UInt16.ofNat i)]).1
      obtain ⟨hlt, s, hs, hle⟩ := hsafe (by rw [UInt16.lt_iff_toNat_lt, hi16, hn]; exact hi)
      rw [hi16] at hlt hs
      rw [slot_of_lt p hlt] at hs
      obtain rfl := Except.ok.inj hs
      rw [toNat_get32, toNat_get16, hsize] at hle
      exact ⟨hlt, hle⟩
    refine ⟨?_, fun i hi => (hread i hi).2⟩
    by_contra hfew
    have := (hread 256 (by omega)).1
    omega
  · induction calls generalizing p with
    | nil => trivial
    | cons call calls ih =>
      exact ⟨safe_of_inside h call, ih _ (numSlots_toNat _) (inside_after h call)⟩

/-! ### Images -/

/-- The image has at most 256 slots, each in the payload. -/
structure SlotsInside (v : Bytes) : Prop where
  few : word v 8 2 ≤ 256
  inside : ∀ i < word v 8 2, word v (256 + 8 * i) 4 + word v (256 + 8 * i + 4) 2 ≤ 5888

/-- What a page reads from an image it takes. -/
lemma get_deserialize {q : StoragePage} {v : Bytes} (hv : (q.deserialize v).1 = true)
    {off k : ℕ} (h : off + k ≤ 8192) (hfield : off + k ≤ 12 ∨ 16 ≤ off) :
    (q.deserialize v).2.data.get off k = word v off k := by
  have hpage := layout.1
  by_cases hlen : v.length = pageSize
  · have hdata : (q.deserialize v).2 = (⟨q.data.write 0 v⟩ : StoragePage).setChecksum 0 := by
      simp only [StoragePage.deserialize, hlen, ne_eq, not_true_eq_false, if_false]
    rw [hdata, StoragePage.setChecksum, get_set_of_disjoint _ (by omega),
      get_write_all _ hlen (by omega)]
  · rw [StoragePage.deserialize, if_pos hlen] at hv
    exact absurd hv (by simp)

/-- **Safety of an image**: a page that takes an image is safe to use exactly when the slots
of the image lie in the payload. -/
theorem safeAfter_iff (q : StoragePage) (v : Bytes) (hv : (q.deserialize v).1 = true) :
    SafeAfter (q.deserialize v).2 ↔ SlotsInside v := by
  have hnum := get_deserialize hv (show 8 + 2 ≤ 8192 by omega) (by omega)
  have hslot : ∀ i < 256,
      (q.deserialize v).2.data.get (256 + 8 * i) 4 = word v (256 + 8 * i) 4 ∧
        (q.deserialize v).2.data.get (256 + 8 * i + 4) 2 = word v (256 + 8 * i + 4) 2 :=
    fun i hi => ⟨get_deserialize hv (by omega) (by omega), get_deserialize hv (by omega) (by omega)⟩
  rw [safeAfter_iff_inside]
  constructor
  · rintro ⟨hfew, hin⟩
    rw [hnum] at hfew hin
    refine ⟨hfew, fun i hi => ?_⟩
    obtain ⟨hoff, hlen⟩ := hslot i (by omega)
    rw [← hoff, ← hlen]
    exact hin i hi
  · rintro ⟨hfew, hin⟩
    rw [← hnum] at hfew hin
    refine ⟨hfew, fun i hi => ?_⟩
    obtain ⟨hoff, hlen⟩ := hslot i (by omega)
    rw [hoff, hlen]
    exact hin i hi

/-- The image of a fresh page is one. -/
theorem safeAfter_iff_new :
    ((StoragePage.new 1).deserialize (StoragePage.new 0).serialize.1).1 = true ∧
      (SafeAfter ((StoragePage.new 1).deserialize (StoragePage.new 0).serialize.1).2 ↔
        SlotsInside (StoragePage.new 0).serialize.1) := by
  have hv : ((StoragePage.new 1).deserialize (StoragePage.new 0).serialize.1).1 = true := by
    rw [deserialize_serialize]
  exact ⟨hv, safeAfter_iff _ _ hv⟩

/-- A page with one slot, of a row beyond the end of the page. -/
def forged : StoragePage := withSlot ((StoragePage.new 0).setNumSlots 1) 0 ⟨0xFFFFFFFF, 1, 0⟩

lemma forged_slot : forged.data.get 8 2 = 1 ∧ forged.data.get (256 + 8 * 0) 4 = 0xFFFFFFFF := by
  have hpage := layout.1
  constructor
  · rw [forged, withSlot, get_set_of_disjoint _ (by omega), get_set_of_disjoint _ (by omega),
      get_set_of_disjoint _ (by omega)]
    exact get_set_self _ (by omega) (by decide)
  · rw [forged, withSlot, get_set_of_disjoint _ (by omega), get_set_of_disjoint _ (by omega)]
    exact get_set_self _ (by omega) (by decide)

/-- What a page reads from the image of another, but for the checksum. -/
lemma get_deserialize_serialize (p q : StoragePage) {off k : ℕ}
    (h : off + k ≤ 12 ∨ 16 ≤ off) :
    (q.deserialize p.serialize.1).2.data.get off k = p.data.get off k := by
  rw [deserialize_serialize, sealed, StoragePage.setChecksum, StoragePage.setChecksum,
    StoragePage.setChecksum, get_set_of_disjoint _ (by omega), get_set_of_disjoint _ (by omega),
    get_set_of_disjoint _ (by omega)]

/-- The image of the forged page is taken, and reading its slot leaves the page. -/
theorem not_safeAfter_forged :
    ¬ ∀ (q : StoragePage) (v : Bytes), (q.deserialize v).1 = true →
      SafeAfter (q.deserialize v).2 := by
  intro h
  have hsafe := h (.new 0) forged.serialize.1 (by rw [deserialize_serialize])
  obtain ⟨-, hin⟩ := (safeAfter_iff_inside _).mp hsafe
  obtain ⟨hnum, hoff⟩ := forged_slot
  rw [get_deserialize_serialize _ _ (by omega), hnum] at hin
  have hslot := hin 0 Nat.one_pos
  rw [get_deserialize_serialize _ _ (by omega), hoff] at hslot
  exact absurd (le_trans (Nat.le_add_right _ _) hslot) (by decide)

end Dbx4.StorageSafe
