import Dbx4.StorageChecksum

/-!
What `verify` says of a page, and what a rejected image leaves of it.

`deserialize` copies the image over the page before it looks at the checksum, and leaves zeros
in the checksum field. So `verify` denies most pages that were just taken, and a page that has
rejected an image is seldom what it was before.
-/

namespace Dbx4.StorageVerify

open Dbx4.Word32 Dbx4.Memory Dbx4.Runs Dbx4.StorageModel Dbx4.StorageLayout Dbx4.StorageChecksum

/-! ### Images -/

/-- The page that an image would make. -/
def imagePage (image : Bytes) : StoragePage := ⟨Mem.write (Vector.replicate pageSize 0) 0 image⟩

def storedChecksum (image : Bytes) : UInt32 := UInt32.ofNat (word image 12 4)

/-- The checksum of the other bytes of an image. -/
def imageChecksum (image : Bytes) : UInt32 := (imagePage image).computeChecksum

/-- What a page makes of an image depends on the image alone. -/
lemma deserialize_eq (p : StoragePage) {image : Bytes} (h : image.length = pageSize) :
    p.deserialize image =
      (storedChecksum image == imageChecksum image, (imagePage image).setChecksum 0) := by
  have hpage : (⟨p.data.write 0 image⟩ : StoragePage) = imagePage image := by
    rw [imagePage]
    congr 1
    exact ext_byte fun i _ => by rw [byte_write_all _ h, byte_write_all _ h]
  have hstored : (imagePage image).checksum = storedChecksum image := by
    have hle : 12 + 4 ≤ pageSize := by decide
    rw [StoragePage.checksum, imagePage, get_write_all _ h hle, storedChecksum]
  rw [StoragePage.deserialize, if_neg (not_not.mpr h)]
  simp only [hpage, hstored, computeChecksum_setChecksum, imageChecksum]

lemma deserialize_of_length_ne (p : StoragePage) {image : Bytes} (h : image.length ≠ pageSize) :
    p.deserialize image = (false, p) := by
  rw [StoragePage.deserialize, if_pos h]

/-- `verify` compares the field with the checksum of the rest. -/
lemma verify_setChecksum (p : StoragePage) (v : UInt32) :
    (p.setChecksum v).verify = (v == p.computeChecksum) := by
  rw [StoragePage.verify, checksum_setChecksum, computeChecksum_setChecksum]

/-! ### Pages that verify -/

inductive Call
  | insertRow (row : Row)
  | serialize
  | deserialize (image : Bytes)

/-- The page behind a call; no insert leaves the page. -/
def after (p : StoragePage) : Call → StoragePage
  | .insertRow row =>
    match p.insertRow row with
    | .ok (_, p') => p'
    | .error _ => p
  | .serialize => p.serialize.2
  | .deserialize image => (p.deserialize image).2

/-- A page verifies behind `serialize`, and behind an image it has taken. -/
def Verifies (p : StoragePage) : Call → Prop
  | .insertRow _ => True
  | .serialize => p.serialize.2.verify = true
  | .deserialize image =>
    (p.deserialize image).1 = true → (p.deserialize image).2.verify = true

/-- An image with the right checksum has the checksum 0. -/
def ZeroChecksum : Call → Prop
  | .insertRow _ => True
  | .serialize => True
  | .deserialize image => image.length = pageSize →
      storedChecksum image = imageChecksum image → storedChecksum image = 0

lemma verifies_call_iff (p : StoragePage) (call : Call) : Verifies p call ↔ ZeroChecksum call := by
  cases call with
  | insertRow row => exact Iff.rfl
  | serialize =>
    refine iff_of_true ?_ trivial
    rw [Verifies, serialize_eq, sealed, verify_setChecksum, computeChecksum_setChecksum,
      beq_self_eq_true]
  | deserialize image =>
    rw [Verifies, ZeroChecksum]
    by_cases hlen : image.length = pageSize
    · rw [deserialize_eq p hlen]
      dsimp only
      rw [verify_setChecksum, beq_iff_eq, beq_iff_eq, ← imageChecksum, forall_prop_of_true hlen]
      refine forall_congr' fun hright => ?_
      rw [← hright, eq_comm]
    · rw [deserialize_of_length_ne p hlen]
      exact iff_of_true (fun h => absurd h Bool.false_ne_true) fun h => absurd h hlen

/-- **When every page verifies** that was just serialized or taken: when the images it has taken
have the checksum 0. -/
theorem verifies_iff (p : StoragePage) (calls : List Call) :
    Along after Verifies p calls ↔ ∀ call ∈ calls, ZeroChecksum call :=
  along_iff_forall_mem verifies_call_iff

/-- An image of zeros but for a byte of the checksum field, and a 1 at the end. -/
def lastByteOne (c : UInt8) : Bytes :=
  List.replicate 12 0 ++ ([c, 0, 0, 0] ++ (List.replicate 8175 0 ++ [1]))

lemma length_lastByteOne (c : UInt8) : (lastByteOne c).length = pageSize := by
  simp only [lastByteOne, List.length_append, List.length_replicate, List.length_cons,
    List.length_nil, pageSize]

lemma storedChecksum_lastByteOne (c : UInt8) : storedChecksum (lastByteOne c) = c.toUInt32 := by
  have hfield : ((lastByteOne c).drop 12).take 4 = [c, 0, 0, 0] := by
    rw [lastByteOne, List.drop_left' List.length_replicate]
    rfl
  rw [storedChecksum, word, hfield]
  apply UInt32.toNat_inj.mp
  have hc := c.toNat_lt
  simp only [ofLe, UInt8.toNat_zero, Nat.mul_zero, Nat.add_zero, UInt32.toNat_ofNat',
    UInt8.toNat_toUInt32]
  omega

lemma imageChecksum_lastByteOne (c : UInt8) : imageChecksum (lastByteOne c) = 1 := by
  have hlen := length_lastByteOne c
  have hahead : 0 + 12 ≤ pageSize := by decide
  have hbehind : 16 + 8176 ≤ pageSize := by decide
  have hcovered : covered (imagePage (lastByteOne c)).data =
      List.replicate 12 0 ++ (List.replicate 8175 0 ++ [1]) := by
    have hdrop : (lastByteOne c).drop 16 = List.replicate 8175 0 ++ [1] := by
      have hsplit : lastByteOne c = (List.replicate 12 0 ++ [c, 0, 0, 0]) ++
          (List.replicate 8175 0 ++ [1]) := by
        rw [lastByteOne, List.append_assoc]
      rw [hsplit, List.drop_left' (by simp)]
    have htake : (List.replicate 8175 (0 : UInt8) ++ [1]).take 8176 =
        List.replicate 8175 0 ++ [1] := by
      refine List.take_of_length_le ?_
      rw [List.length_append, List.length_replicate, List.length_singleton]
    rw [covered, imagePage, read_write_all _ hlen hahead, read_write_all _ hlen hbehind, hdrop,
      htake, List.drop_zero, lastByteOne, List.take_left' List.length_replicate]
  have hzeros : ∀ k, (List.replicate k 0).foldl mix 0 = 0 := by
    intro k
    rw [← UInt32.toBitVec_inj, foldl_mix_zeros, UInt32.toBitVec_zero, BitVec.zero_shiftLeft]
  rw [imageChecksum, computeChecksum_eq, hcovered, List.foldl_append, hzeros, List.foldl_concat,
    hzeros]
  decide

/-- A page does not verify behind an image with the checksum 1. -/
theorem not_verifies_lastByteOne : ¬ ∀ p calls, Along after Verifies p calls := by
  intro h
  have hverifies := (h (.new 0) [.deserialize (lastByteOne 1)]).1
  rw [verifies_call_iff, ZeroChecksum, storedChecksum_lastByteOne, imageChecksum_lastByteOne]
    at hverifies
  exact absurd (hverifies (length_lastByteOne 1) rfl) (by decide)

/-! ### Pages that have rejected an image -/

inductive Op
  | readRow (slotIdx : UInt16)
  | insertRow (row : Row)
  | serialize
  | verify

inductive Answer
  | row (row : Option Bytes)
  | taken (taken : Bool)
  | image (image : Bytes)
  | verified (verified : Bool)

def step (p : StoragePage) : Op → Except Fault (Answer × StoragePage)
  | .readRow slotIdx => do
    let row ← p.readRow slotIdx
    return (.row row, p)
  | .insertRow row => do
    let (taken, p) ← p.insertRow row
    return (.taken taken, p)
  | .serialize => .ok (.image p.serialize.1, p.serialize.2)
  | .verify => .ok (.verified p.verify, p)

/-- The pages answer every run of calls alike. -/
def Alike (p q : StoragePage) : Prop :=
  ∀ ops, (history step p ops).map Prod.fst = (history step q ops).map Prod.fst

/-- A page that rejects the image goes on as if it had not seen it. -/
def Unchanged (p : StoragePage) (image : Bytes) : Prop :=
  (p.deserialize image).1 = false → Alike p (p.deserialize image).2

def inserted (p : StoragePage) (row : Row) : StoragePage := after p (.insertRow row)

def fill (p : StoragePage) (rows : List Row) : StoragePage := rows.foldl inserted p

/-- No rows can be inserted with which the checksum of the page becomes 0, or the value of its
field. -/
def Denied (p : StoragePage) : Prop :=
  ∀ rows, (fill p rows).computeChecksum ≠ 0 ∧ (fill p rows).computeChecksum ≠ p.checksum

/-! The checksum field is out of the way of reads and inserts. -/

lemma setChecksum_setChecksum (p : StoragePage) (v w : UInt32) :
    (p.setChecksum v).setChecksum w = p.setChecksum w := by
  rw [StoragePage.setChecksum, StoragePage.setChecksum, StoragePage.setChecksum, set_set]

lemma setChecksum_of_eq {p : StoragePage} {v : UInt32} (h : p.checksum = v) :
    p.setChecksum v = p := by
  subst h
  rw [StoragePage.setChecksum, StoragePage.checksum, toNat_get32, set_get_self]

lemma numSlots_setChecksum (p : StoragePage) (v : UInt32) :
    (p.setChecksum v).numSlots = p.numSlots := by
  rw [StoragePage.numSlots, StoragePage.setChecksum, get_set_of_disjoint _ (by omega),
    StoragePage.numSlots]

lemma freeOffset_setChecksum (p : StoragePage) (v : UInt32) :
    (p.setChecksum v).freeOffset = p.freeOffset := by
  rw [StoragePage.freeOffset, StoragePage.setChecksum, get_set_of_disjoint _ (by omega),
    StoragePage.freeOffset]

lemma readRow_setChecksum (p : StoragePage) (v : UInt32) (i : UInt16) :
    (p.setChecksum v).readRow i = p.readRow i := by
  obtain ⟨hpage, hstart, -⟩ := layout
  have hslot : (p.setChecksum v).slot i.toNat = p.slot i.toNat := by
    rw [StoragePage.slot, StoragePage.slot, StoragePage.setChecksum, slotAt_eq,
      get_set_of_disjoint _ (by omega), get_set_of_disjoint _ (by omega),
      get_set_of_disjoint _ (by omega)]
  have hpayload : ∀ offset len,
      (p.setChecksum v).readPayload offset len = p.readPayload offset len := by
    intro offset len
    rw [StoragePage.readPayload, StoragePage.readPayload, StoragePage.setChecksum, Mem.readAt,
      Mem.readAt, read_set_of_disjoint _ (by omega)]
  rw [StoragePage.readRow, StoragePage.readRow, numSlots_setChecksum, hslot]
  simp only [hpayload]

lemma inserted_eq (p : StoragePage) (row : Row) : inserted p row =
    if p.numSlots.toNat < 256 ∧ p.freeOffset.toNat + row.bytes.length ≤ 5888 then
      afterInsert p row
    else p := by
  rw [inserted, after, insertRow_eq]
  split_ifs <;> rfl

lemma afterInsert_setChecksum {p : StoragePage} {row : Row} (hslots : p.numSlots.toNat < 256)
    (hroom : p.freeOffset.toNat + row.bytes.length ≤ 5888) (v : UInt32) :
    afterInsert (p.setChecksum v) row = (afterInsert p row).setChecksum v := by
  have hdata := data_afterInsert hslots hroom
  have hdata' := @data_afterInsert (p.setChecksum v) row
    (by rwa [numSlots_setChecksum]) (by rwa [freeOffset_setChecksum])
  rw [numSlots_setChecksum, freeOffset_setChecksum] at hdata'
  have hset : ∀ (m : Mem pageSize) (off k x : ℕ), 12 + 4 ≤ off ∨ off + k ≤ 12 →
      (m.set 12 4 v.toNat).set off k x = (m.set off k x).set 12 4 v.toNat :=
    fun m off k x h => set_comm m h _ _
  have heq : (afterInsert (p.setChecksum v) row).data =
      ((afterInsert p row).setChecksum v).data := by
    rw [hdata', StoragePage.setChecksum, StoragePage.setChecksum, hdata, hset _ _ _ _ (by omega),
      hset _ _ _ _ (by omega), hset _ _ _ _ (by omega), write_set_comm _ (by omega),
      hset _ _ _ _ (by omega), hset _ _ _ _ (by omega)]
  exact congrArg StoragePage.mk heq

lemma inserted_setChecksum (p : StoragePage) (v : UInt32) (row : Row) :
    inserted (p.setChecksum v) row = (inserted p row).setChecksum v := by
  rw [inserted_eq, inserted_eq, numSlots_setChecksum, freeOffset_setChecksum]
  split_ifs with hroom
  · exact afterInsert_setChecksum hroom.1 hroom.2 v
  · rfl

lemma checksum_inserted (p : StoragePage) (row : Row) :
    (inserted p row).checksum = p.checksum := by
  rw [inserted_eq]
  split_ifs with hroom
  · rw [StoragePage.checksum, data_afterInsert hroom.1 hroom.2, get_set_of_disjoint _ (by omega),
      get_set_of_disjoint _ (by omega), get_write_of_disjoint _ (by omega),
      get_set_of_disjoint _ (by omega), get_set_of_disjoint _ (by omega),
      get_set_of_disjoint _ (by omega), StoragePage.checksum]
  · rfl

lemma fill_setChecksum (p : StoragePage) (v : UInt32) (rows : List Row) :
    fill (p.setChecksum v) rows = (fill p rows).setChecksum v := by
  induction rows generalizing p with
  | nil => rfl
  | cons row rows ih => rw [fill, List.foldl_cons, inserted_setChecksum]; exact ih _

lemma checksum_fill (p : StoragePage) (rows : List Row) : (fill p rows).checksum = p.checksum := by
  induction rows generalizing p with
  | nil => rfl
  | cons row rows ih => exact (ih _).trans (checksum_inserted p row)

/-! ### What tells the pages apart -/

lemma step_serialize (p : StoragePage) :
    step p .serialize = .ok (.image p.serialize.1, p.serialize.2) := rfl

lemma step_verify (p : StoragePage) : step p .verify = .ok (.verified p.verify, p) := rfl

lemma step_insertRow (p : StoragePage) (row : Row) :
    ∃ taken, ∀ v, step (p.setChecksum v) (.insertRow row) =
      .ok (.taken taken, (inserted p row).setChecksum v) ∧
        step p (.insertRow row) = .ok (.taken taken, inserted p row) := by
  refine ⟨decide (p.numSlots.toNat < 256 ∧ p.freeOffset.toNat + row.bytes.length ≤ 5888),
    fun v => ?_⟩
  rw [step, step, insertRow_eq, insertRow_eq, ← inserted_setChecksum, inserted_eq, inserted_eq,
    numSlots_setChecksum, freeOffset_setChecksum]
  split_ifs with hroom
  · rw [decide_eq_true hroom]
    exact ⟨rfl, rfl⟩
  · rw [decide_eq_false hroom]
    exact ⟨rfl, rfl⟩

lemma verify_of_denied {p : StoragePage} (h : Denied p) :
    (p.setChecksum 0).verify = false ∧ p.verify = false := by
  obtain ⟨hzero, hfield⟩ := h []
  rw [verify_setChecksum, StoragePage.verify, beq_eq_false_iff_ne, beq_eq_false_iff_ne]
  exact ⟨hzero.symm, hfield.symm⟩

lemma denied_inserted {p : StoragePage} (h : Denied p) (row : Row) : Denied (inserted p row) := by
  intro rows
  rw [checksum_inserted]
  exact h (row :: rows)

/-- The same page, or a page that will not verify whatever goes into it, without its checksum. -/
def Related (p q : StoragePage) : Prop := q = p ∨ (q = p.setChecksum 0 ∧ Denied p)

lemma alike_of_related {p q : StoragePage} (h : Related p q) : Alike p q := by
  intro ops
  refine history_congr (R := Related) (fun p q op hR => ?_) h ops
  rcases hR with rfl | ⟨rfl, hdenied⟩
  · rcases hop : step q op with fault | ⟨answer, q'⟩
    · exact Or.inl ⟨fault, rfl, rfl⟩
    · exact Or.inr ⟨answer, q', q', rfl, rfl, Or.inl rfl⟩
  · cases op with
    | readRow slotIdx =>
      rw [step, step, readRow_setChecksum]
      rcases p.readRow slotIdx with fault | row
      · exact Or.inl ⟨fault, rfl, rfl⟩
      · exact Or.inr ⟨_, p, p.setChecksum 0, rfl, rfl, Or.inr ⟨rfl, hdenied⟩⟩
    | insertRow row =>
      obtain ⟨taken, htaken⟩ := step_insertRow p row
      obtain ⟨hsame, hp⟩ := htaken 0
      exact Or.inr ⟨_, _, _, hp, hsame, Or.inr ⟨rfl, denied_inserted hdenied row⟩⟩
    | serialize =>
      have hsealed : sealed (p.setChecksum 0) = sealed p := by
        rw [sealed, sealed, computeChecksum_setChecksum, setChecksum_setChecksum]
      rw [step, step, serialize_eq, serialize_eq, hsealed]
      exact Or.inr ⟨_, _, _, rfl, rfl, Or.inl rfl⟩
    | verify =>
      obtain ⟨hq, hp⟩ := verify_of_denied hdenied
      rw [step, step, hq, hp]
      exact Or.inr ⟨_, _, _, rfl, rfl, Or.inr ⟨rfl, hdenied⟩⟩

/-- Pages with the same image are the same, but for the checksum. -/
lemma setChecksum_of_alike {p q : StoragePage} (h : Alike p q) :
    p.setChecksum 0 = q.setChecksum 0 := by
  have himages := h [.serialize]
  rw [history_singleton (step_serialize p), history_singleton (step_serialize q)] at himages
  have himage : p.serialize.1 = q.serialize.1 := by
    have hentry := (List.cons.inj (Except.ok.inj himages)).1
    exact Answer.image.inj (congrArg Prod.snd hentry)
  have hdata : (sealed p).data = (sealed q).data := by
    rw [serialize_eq, serialize_eq] at himage
    dsimp only at himage
    rw [← write_read_all (sealed p).data (sealed p).data, himage, write_read_all]
  have hsealed : (sealed p).setChecksum 0 = (sealed q).setChecksum 0 := by
    rw [StoragePage.setChecksum, StoragePage.setChecksum, hdata]
  rwa [sealed, sealed, setChecksum_setChecksum, setChecksum_setChecksum, setChecksum_setChecksum,
    setChecksum_setChecksum] at hsealed

/-- The history of some inserts and a check. -/
lemma history_fill (p : StoragePage) (rows : List Row) :
    ∃ h, history step p (rows.map Op.insertRow ++ [.verify]) =
      .ok (h ++ [(.verify, .verified (fill p rows).verify)], fill p rows) := by
  induction rows generalizing p with
  | nil =>
    have hnil : fill p [] = p := rfl
    rw [hnil]
    exact ⟨[], history_singleton (step_verify p)⟩
  | cons row rows ih =>
    obtain ⟨taken, htaken⟩ := step_insertRow p row
    obtain ⟨h, hrest⟩ := ih (inserted p row)
    have hcons : fill p (row :: rows) = fill (inserted p row) rows := rfl
    rw [hcons]
    refine ⟨(.insertRow row, .taken taken) :: h, ?_⟩
    exact history_cons_eq_ok.mpr ⟨_, _, _, (htaken 0).2, hrest, rfl⟩

lemma verify_of_alike {p q : StoragePage} (h : Alike p q) (rows : List Row) :
    (fill p rows).verify = (fill q rows).verify := by
  obtain ⟨hist, hp⟩ := history_fill p rows
  obtain ⟨hist', hq⟩ := history_fill q rows
  have hsame := h (rows.map Op.insertRow ++ [.verify])
  rw [hp, hq] at hsame
  have hlen : [(Op.verify, Answer.verified (fill p rows).verify)].length =
      [(Op.verify, Answer.verified (fill q rows).verify)].length := by
    rw [List.length_singleton, List.length_singleton]
  have hlast := (List.append_inj' (Except.ok.inj hsame) hlen).2
  exact Answer.verified.inj (congrArg Prod.snd (List.cons.inj hlast).1)

/-- **When clearing the checksum goes unnoticed**. -/
lemma alike_setChecksum_iff (p : StoragePage) :
    Alike p (p.setChecksum 0) ↔ p.checksum = 0 ∨ Denied p := by
  constructor
  · intro h
    by_cases hzero : p.checksum = 0
    · exact Or.inl hzero
    · refine Or.inr fun rows => ?_
      have hverify := verify_of_alike h rows
      rw [fill_setChecksum, verify_setChecksum, StoragePage.verify, checksum_fill] at hverify
      constructor
      · intro hsum
        rw [hsum, beq_self_eq_true, beq_iff_eq] at hverify
        exact hzero hverify
      · intro hsum
        rw [hsum, beq_self_eq_true, eq_comm, beq_iff_eq] at hverify
        exact hzero hverify.symm
  · rintro (hzero | hdenied)
    · exact alike_of_related (Or.inl (setChecksum_of_eq hzero))
    · exact alike_of_related (Or.inr ⟨rfl, hdenied⟩)

/-- **When a rejected image leaves no trace**: when it does not have the size of a page, or is
the page but for the checksum, and the page does not show the loss of its own. -/
theorem unchanged_iff (p : StoragePage) (image : Bytes) :
    Unchanged p image ↔
      (image.length = pageSize → storedChecksum image ≠ imageChecksum image →
        p.setChecksum 0 = (imagePage image).setChecksum 0 ∧ (p.checksum = 0 ∨ Denied p)) := by
  unfold Unchanged
  by_cases hlen : image.length = pageSize
  · rw [deserialize_eq p hlen, beq_eq_false_iff_ne, forall_prop_of_true hlen]
    refine forall_congr' fun _ => ?_
    rw [← alike_setChecksum_iff]
    constructor
    · intro h
      have hsame := setChecksum_of_alike h
      rw [setChecksum_setChecksum] at hsame
      rw [hsame]
      exact ⟨rfl, h⟩
    · rintro ⟨hsame, h⟩
      rwa [hsame] at h
  · rw [deserialize_of_length_ne p hlen]
    exact iff_of_true (fun _ _ => rfl) fun h => absurd h hlen

/-- A fresh page shows the last byte of an image it has rejected. -/
theorem not_unchanged_lastByteOne : ¬ ∀ p image, Unchanged p image := by
  intro h
  have hlen := length_lastByteOne 2
  have hunchanged := h (.new 0) (lastByteOne 2)
  rw [Unchanged, deserialize_eq _ hlen, storedChecksum_lastByteOne, imageChecksum_lastByteOne]
    at hunchanged
  have hsame := setChecksum_of_alike (hunchanged rfl)
  rw [setChecksum_setChecksum] at hsame
  have hset : ∀ (m : Mem pageSize) (off k v : ℕ), off + k ≤ 16 →
      (m.set off k v).byte 8191 = m.byte 8191 := by
    intro m off k v hoff
    rw [Mem.set, byte_write, toLe_length, if_neg (by omega)]
  have hbyte : ∀ q : StoragePage, (q.setChecksum 0).data.byte 8191 = q.data.byte 8191 :=
    fun q => hset _ _ _ _ (by omega)
  have hfresh : (StoragePage.new 0).data.byte 8191 = 0 := by
    have hzeros : Mem.byte (Vector.replicate pageSize (0 : UInt8)) 8191 = 0 := by
      rw [Mem.byte, Vector.getElem?_replicate, if_pos (by decide), Option.getD_some]
    rw [← hzeros]
    exact (hset _ _ _ _ (by omega)).trans <| (hset _ _ _ _ (by omega)).trans <|
      (hset _ _ _ _ (by omega)).trans <| (hset _ _ _ _ (by omega)).trans (hset _ _ _ _ (by omega))
  have hlast : (imagePage (lastByteOne 2)).data.byte 8191 = 1 := by
    have hsplit : lastByteOne 2 =
        (List.replicate 12 0 ++ ([2, 0, 0, 0] ++ List.replicate 8175 0)) ++ [1] := by
      rw [lastByteOne, List.append_assoc, List.append_assoc]
    have hahead : (List.replicate 12 0 ++
        ([2, 0, 0, 0] ++ List.replicate 8175 (0 : UInt8))).length = 8191 := by
      simp only [List.length_append, List.length_replicate, List.length_cons, List.length_nil]
    rw [imagePage, byte_write_all _ hlen, hsplit, List.getD, List.getElem?_append_right hahead.le,
      hahead, Nat.sub_self, List.getElem?_cons_zero, Option.getD_some]
  have hzeroOne : (0 : UInt8) = 1 := by
    rw [← hfresh, ← hbyte, hsame, hbyte, hlast]
  exact absurd hzeroOne (by decide)

end Dbx4.StorageVerify
