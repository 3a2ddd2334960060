import Dbx4.EngineCrc
import Dbx4.EnginePage

/-!
Whether an expired slot of a page stays out of sight.

`delete_row` and `update_row` put their transaction over the one that expired the slot before.
A reader in between, or any reader when the transaction is 0, sees the row again.
-/

namespace Dbx4.EngineExpiry

open Dbx4.Word32 Dbx4.Memory Dbx4.Runs Dbx4.EngineModel Dbx4.EnginePage
open Dbx4.EngineCrc (calculate_eq)
open Dbx4.StorageModel (Row)

inductive Call
  | insertRow (row : Row) (creatingTxn : UInt64) (now : UInt32)
  | readRow (slotId : UInt16) (rowData : Bytes) (readVersion : UInt64)
  | deleteRow (slotId : UInt16) (deletingTxn : UInt64) (now : UInt32)
  | updateRow (slotId : UInt16) (row : Row) (updatingTxn : UInt64) (now : UInt32)
  | serialize
  | deserialize (data : Bytes)
  | markClean

/-- The page behind a call. -/
def step (p : Page) : Call → Except Fault Page
  | .insertRow row creatingTxn now => Prod.snd <$> p.insertRow row creatingTxn now
  | .readRow slotId rowData readVersion => Prod.snd <$> p.readRow slotId rowData readVersion
  | .deleteRow slotId deletingTxn now => .ok (p.deleteRow slotId deletingTxn now).2
  | .updateRow slotId row updatingTxn now => Prod.snd <$> p.updateRow slotId row updatingTxn now
  | .serialize => .ok p.serialize.2
  | .deserialize data => .ok (p.deserialize data).2
  | .markClean => .ok p.markClean

/-- The slot is there, and a reader of version `v` is not too early for it. -/
def Created (i : UInt16) (v : UInt64) (p : Page) : Prop :=
  ∃ slot, p.slotDirectory[i.toNat]? = some slot ∧ slot.creatingTxn ≤ v

/-- The slot is there, and a reader of version `v` is too late for it. -/
def Expired (i : UInt16) (v : UInt64) (p : Page) : Prop :=
  ∃ slot, p.slotDirectory[i.toNat]? = some slot ∧ slot.creatingTxn ≤ v ∧
    slot.expiringTxn ≠ 0 ∧ slot.expiringTxn ≤ v

/-- A reader of version `v` gets the row of the slot. -/
def Returned (i : UInt16) (v : UInt64) (p : Page) : Prop :=
  ∃ rowData row p', p.readRow i rowData v = .ok ((true, row), p')

/-- The bytes of the slot lie in the page, and have its checksum. -/
def Intact (i : UInt16) (p : Page) : Prop :=
  ∀ slot, p.slotDirectory[i.toNat]? = some slot →
    ∃ row, p.data.readAt slot.offset.toNat slot.length.toNat = .ok row ∧
      CRC32C.verify row slot.checksum = true

/-- The slot that a call expires, and from which transaction on. -/
def expires (p : Page) : Call → Option (UInt16 × UInt64)
  | .deleteRow slotId deletingTxn _ => some (slotId, deletingTxn)
  | .updateRow slotId row updatingTxn _ => if p.full row then none else some (slotId, updatingTxn)
  | _ => none

/-- A call that expires the slot again does so for the readers of version `v`. -/
def KeepsExpired (i : UInt16) (v : UInt64) (p : Page) (call : Call) : Prop :=
  ∀ txn, expires p call = some (i, txn) → txn ≠ 0 ∧ txn ≤ v

/-- No reader of version `v` gets the row, as far as the calls go. -/
def StaysHidden (i : UInt16) (v : UInt64) (p : Page) (calls : List Call) : Prop :=
  AlwaysOk step (fun p => ¬ Returned i v p) p calls

/-! ### What a read finds -/

lemma not_returned_of_expired {i : UInt16} {v : UInt64} {p : Page} (h : Expired i v p) :
    ¬ Returned i v p := by
  obtain ⟨slot, hslot, -, hexpired⟩ := h
  rintro ⟨rowData, row, p', hread⟩
  unfold Page.readRow at hread
  rw [hslot] at hread
  dsimp only at hread
  split_ifs at hread with hnew
  · cases hread
  · cases hread

lemma expired_of_not_returned {i : UInt16} {v : UInt64} {p : Page} (hcreated : Created i v p)
    (hintact : Intact i p) (h : ¬ Returned i v p) : Expired i v p := by
  obtain ⟨slot, hslot, hnew⟩ := hcreated
  obtain ⟨row, hrow, hverify⟩ := hintact slot hslot
  refine ⟨slot, hslot, hnew, ?_⟩
  by_contra hlive
  refine h ⟨[], row, { p with accessCount := p.accessCount + 1 }, ?_⟩
  unfold Page.readRow
  rw [hslot]
  dsimp only
  rw [if_neg (UInt64.not_lt.mpr hnew), if_neg hlive, hrow, ok_bind, if_pos hverify]
  rfl

/-! ### What a call does to the directory -/

lemma map_snd_eq_ok {α : Type} {e : Except Fault (α × Page)} {p' : Page}
    (h : Prod.snd <$> e = .ok p') : ∃ a, e = .ok (a, p') := by
  rcases e with fault | ⟨a, q⟩
  · cases h
  · obtain rfl : q = p' := Except.ok.inj h
    exact ⟨a, rfl⟩

lemma slotDirectory_addVersion {p p' : Page} {row : Row} {txn : UInt64} {now : UInt32}
    (h : p.addVersion row txn now = .ok p') :
    p'.slotDirectory = p.slotDirectory ++ [newSlot p row txn] := by
  obtain ⟨data, -, h⟩ := bind_eq_ok.mp h
  obtain rfl := Except.ok.inj h
  rfl

lemma readRow_snd {p p' : Page} {slotId : UInt16} {rowData : Bytes} {v : UInt64}
    {answer : Bool × Bytes} (h : p.readRow slotId rowData v = .ok (answer, p')) :
    p'.slotDirectory = p.slotDirectory := by
  unfold Page.readRow at h
  rcases hslot : p.slotDirectory[slotId.toNat]? with _ | slot
  · rw [hslot] at h
    cases h
    rfl
  · rw [hslot] at h
    dsimp only at h
    split_ifs at h
    · cases h
      rfl
    · cases h
      rfl
    · obtain ⟨row, -, h⟩ := bind_eq_ok.mp h
      split_ifs at h <;> cases h <;> rfl

lemma slotDirectory_deserialize (p : Page) (data : Bytes) :
    (p.deserialize data).2.slotDirectory = p.slotDirectory := by
  unfold Page.deserialize
  dsimp only
  split_ifs <;> rfl

/-- The expiry of the slot `i` behind a call, where it was `txn` before. -/
def expiryAfter (p : Page) (call : Call) (i : UInt16) (txn : UInt64) : UInt64 :=
  match expires p call with
  | some (slotId, txn') => if slotId = i then txn' else txn
  | none => txn

lemma getElem?_expire {p : Page} {i : UInt16} {slot : SlotHeader}
    (hslot : p.slotDirectory[i.toNat]? = some slot) (slotId : UInt16) (txn : UInt64) :
    (p.expire slotId txn).slotDirectory[i.toNat]? =
      some { slot with expiringTxn := if slotId = i then txn else slot.expiringTxn } := by
  rw [Page.expire, List.getElem?_modify, hslot]
  by_cases hi : slotId = i
  · simp [hi]
  · have hne : ¬ slotId.toNat = i.toNat := mt UInt16.toNat_inj.mp hi
    simp [hi, hne]

lemma getElem?_append_of_some {slots new : List SlotHeader} {n : ℕ} {slot : SlotHeader}
    (h : slots[n]? = some slot) : (slots ++ new)[n]? = some slot := by
  rw [List.getElem?_append_left (List.getElem?_eq_some_iff.mp h).1, h]

lemma ne_of_out {p : Page} {i slotId : UInt16} {slot : SlotHeader}
    (hslot : p.slotDirectory[i.toNat]? = some slot)
    (hout : p.slotDirectory.length ≤ slotId.toNat) : slotId ≠ i := by
  rintro rfl
  rw [List.getElem?_eq_none hout] at hslot
  cases hslot

/-- **A call and a slot**: the slot stays, and its expiry is as it was unless the call sets it. -/
lemma getElem?_step {p p' : Page} {call : Call} {i : UInt16} {slot : SlotHeader}
    (hslot : p.slotDirectory[i.toNat]? = some slot) (h : step p call = .ok p') :
    p'.slotDirectory[i.toNat]? =
      some { slot with expiringTxn := expiryAfter p call i slot.expiringTxn } := by
  cases call with
  | insertRow row txn now =>
    obtain ⟨taken, h⟩ := map_snd_eq_ok h
    unfold Page.insertRow at h
    split_ifs at h with hfull
    · cases h
      exact hslot
    · obtain ⟨q, hq, h⟩ := bind_eq_ok.mp h
      cases h
      rw [slotDirectory_addVersion hq]
      exact getElem?_append_of_some hslot
  | readRow slotId rowData v =>
    obtain ⟨answer, h⟩ := map_snd_eq_ok h
    rw [readRow_snd h]
    exact hslot
  | deleteRow slotId txn now =>
    obtain rfl := Except.ok.inj h
    unfold Page.deleteRow
    split_ifs with hout
    · rw [expiryAfter, expires]
      dsimp only
      rw [if_neg (ne_of_out hslot hout)]
      exact hslot
    · exact getElem?_expire hslot slotId txn
  | updateRow slotId row txn now =>
    obtain ⟨updated, h⟩ := map_snd_eq_ok h
    unfold Page.updateRow at h
    rw [expiryAfter, expires]
    by_cases hfull : p.full row
    · rw [if_pos hfull, ite_self] at h
      cases h
      rw [if_pos hfull]
      exact hslot
    · rw [if_neg hfull] at h ⊢
      dsimp only
      split_ifs at h with hout
      · cases h
        rw [if_neg (ne_of_out hslot hout)]
        exact hslot
      · obtain ⟨q, hq, h⟩ := bind_eq_ok.mp h
        cases h
        rw [slotDirectory_addVersion hq]
        exact getElem?_append_of_some (getElem?_expire hslot slotId txn)
  | serialize =>
    obtain rfl := Except.ok.inj h
    exact hslot
  | deserialize data =>
    obtain rfl := Except.ok.inj h
    rw [slotDirectory_deserialize]
    exact hslot
  | markClean =>
    obtain rfl := Except.ok.inj h
    exact hslot

lemma created_step {i : UInt16} {v : UInt64} (p : Page) (call : Call) (p' : Page)
    (hcreated : Created i v p) (h : step p call = .ok p') : Created i v p' := by
  obtain ⟨slot, hslot, hnew⟩ := hcreated
  exact ⟨_, getElem?_step hslot h, hnew⟩

/-- A call that expires a slot goes through. -/
lemma exists_step {p : Page} {call : Call} {e : UInt16 × UInt64} (h : expires p call = some e) :
    ∃ p', step p call = .ok p' := by
  cases call with
  | deleteRow slotId txn now => exact ⟨_, rfl⟩
  | updateRow slotId row txn now =>
    rw [expires, Option.ite_none_left_eq_some] at h
    have hfull : ¬ (p.expire slotId txn).full row = true := h.1
    obtain ⟨p', hadd, -⟩ := addVersion_of_room hfull txn now
    rw [step, Page.updateRow, if_neg h.1]
    split_ifs with hout
    · exact ⟨_, rfl⟩
    · rw [hadd]
      exact ⟨_, rfl⟩
  | _ => cases h

/-- **What keeps an expired slot expired**: a call that does not expire it again for readers of
other versions only. -/
lemma expired_step_iff {i : UInt16} {v : UInt64} (p : Page) (call : Call)
    (hexpired : Expired i v p) :
    (∀ p', step p call = .ok p' → Expired i v p') ↔ KeepsExpired i v p call := by
  obtain ⟨slot, hslot, hnew, hold⟩ := hexpired
  constructor
  · intro h txn hexpires
    obtain ⟨p', hp'⟩ := exists_step hexpires
    obtain ⟨slot', hslot', -, hold'⟩ := h p' hp'
    rw [getElem?_step hslot hp'] at hslot'
    obtain rfl := Option.some.inj hslot'
    simpa only [expiryAfter, hexpires, if_true] using hold'
  · intro h p' hp'
    refine ⟨_, getElem?_step hslot hp', hnew, ?_⟩
    rcases hexpires : expires p call with _ | ⟨slotId, txn⟩
    · simpa only [expiryAfter, hexpires] using hold
    · by_cases hi : slotId = i
      · subst hi
        simpa only [expiryAfter, hexpires, if_true] using h txn hexpires
      · simpa only [expiryAfter, hexpires, if_neg hi] using hold

/-- **When an expired row stays hidden**: when every call that expires it again does so for the
readers of that version. A row that keeps its bytes stays hidden in no other case. -/
theorem staysHidden {i : UInt16} {v : UInt64} {p : Page} (h : Expired i v p)
    (calls : List Call) :
    (AlongOk step (KeepsExpired i v) p calls → StaysHidden i v p calls) ∧
      (AlwaysOk step (Intact i) p calls → StaysHidden i v p calls →
        AlongOk step (KeepsExpired i v) p calls) := by
  rw [← alwaysOk_iff_alongOk expired_step_iff h]
  constructor
  · intro hexpired pre post p' hcalls hp'
    exact not_returned_of_expired (hexpired pre post p' hcalls hp')
  · intro hintact hhidden pre post p' hcalls hp'
    have hcreated : Created i v p := by
      obtain ⟨slot, hslot, hnew, -⟩ := h
      exact ⟨slot, hslot, hnew⟩
    exact expired_of_not_returned (foldlM_ok_inv created_step hcreated hp')
      (hintact pre post p' hcalls hp') (hhidden pre post p' hcalls hp')

/-- A page with an empty row that transaction 1 has written and transaction 5 has deleted. -/
def deletedRow : Page := { Page.new 1 0 with slotDirectory := [⟨512, 0, 1, 5, 0, 0⟩] }

lemma expired_deletedRow : Expired 0 7 deletedRow :=
  ⟨_, rfl, by decide, by decide, by decide⟩

/-- A reader of version 7 does not see the row behind a delete by transaction 6. -/
theorem staysHidden_six : StaysHidden 0 7 deletedRow [.deleteRow 0 6 0] := by
  refine (staysHidden expired_deletedRow _).1 ⟨?_, fun _ _ => trivial⟩
  rintro txn htxn
  obtain rfl : 6 = txn := congrArg Prod.snd (Option.some.inj htxn)
  exact ⟨by decide, by decide⟩

/-- Behind a delete by transaction 9, it does. -/
theorem not_staysHidden_nine :
    ¬ ∀ (i : UInt16) (v : UInt64) (p : Page), Expired i v p → ∀ calls, StaysHidden i v p calls := by
  intro h
  have hhidden := h 0 7 deletedRow expired_deletedRow [.deleteRow 0 9 0] [.deleteRow 0 9 0] [] _ rfl
    rfl
  have hslot : (deletedRow.deleteRow 0 9 0).2.slotDirectory[(0 : UInt16).toNat]? =
      some ⟨512, 0, 1, 9, 0, 0⟩ := rfl
  have hintact : Intact 0 (deletedRow.deleteRow 0 9 0).2 := by
    rintro slot hslot'
    rw [hslot] at hslot'
    obtain rfl := Option.some.inj hslot'
    refine ⟨[], ?_, ?_⟩
    · have hread : ∀ data : Mem pageSize, data.readAt 512 0 = .ok [] := by
        intro data
        rw [Mem.readAt, if_pos (by decide), List.length_eq_zero_iff.mp (length_read data 512 0)]
      exact hread _
    · rw [CRC32C.verify, calculate_eq]
      decide
  obtain ⟨slot, hslot', -, -, hle⟩ := expired_of_not_returned
    ⟨_, hslot, by decide⟩ hintact hhidden
  rw [hslot] at hslot'
  obtain rfl := Option.some.inj hslot'
  exact absurd hle (by decide)

end Dbx4.EngineExpiry
