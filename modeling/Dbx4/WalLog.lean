import Dbx4.WalModel
import Dbx4.Runs

/-!
The log as a list of entries, and recovery as a function of that list.

An entry fits when its length is a 32-bit word that can be added to the header without
wrapping. On entries that fit, the encoder and the decoder of the log are a codec; on any
file in which no header wraps, recovery replays the entries the codec reads.
-/

namespace Dbx4.WalLog

open Dbx4.Loops Dbx4.Frames Dbx4.Word32 Dbx4.WalModel

def Fits (e : WALEntry) : Prop := e.data.length + 12 < 2 ^ 32

instance (e : WALEntry) : Decidable (Fits e) := by unfold Fits; infer_instance

/-- The entry at the front of a buffer, its length taken as a number. -/
def readEntry (buf : Bytes) : Option (ℕ × WALEntry) :=
  if buf.length < 12 + (lenField buf).toNat then none
  else
    some (12 + (lenField buf).toNat, ⟨(ofLe32 buf).toInt32, (ofLe32 (buf.drop 4)).toInt32,
      (buf.drop 12).take (lenField buf).toNat⟩)

/-- The header at the front of the buffer, if there is one, does not wrap. -/
def NoWrap (buf : Bytes) : Prop := 12 ≤ buf.length → (lenField buf).toNat + 12 < 2 ^ 32

lemma toNat_add_len {len : UInt32} (h : len.toNat + 12 < 2 ^ 32) :
    (12 + len).toNat = 12 + len.toNat := by
  rw [UInt32.toNat_add, show (12 : UInt32).toNat = 12 from rfl, Nat.mod_eq_of_lt (by omega)]

lemma decodeEntry_of_noWrap {buf : Bytes} (h : NoWrap buf) :
    decodeEntry buf = .ok (readEntry buf) := by
  unfold decodeEntry readEntry
  by_cases h12 : buf.length < 12
  · rw [if_pos h12, if_pos (by omega)]
  · have hadd := toNat_add_len (h (by omega))
    simp only [if_neg h12, hadd]
    split <;> rfl

/-! ### The codec -/

section Header

variable (e : WALEntry) (bs : Bytes)

lemma encodeEntry_length : (encodeEntry e).length = 12 + e.data.length := by
  simp [encodeEntry]; omega

lemma ofLe32_encodeEntry : ofLe32 (encodeEntry e ++ bs) = e.txnId.toUInt32 := by
  simp [encodeEntry]

lemma drop_four_encodeEntry : (encodeEntry e ++ bs).drop 4 =
    le32 e.entryType.toUInt32 ++ (le32 (UInt32.ofNat e.data.length) ++ (e.data ++ bs)) := by
  simp only [encodeEntry, List.append_assoc]
  exact List.drop_left' (le32_length _)

lemma drop_eight_encodeEntry : (encodeEntry e ++ bs).drop 8 =
    le32 (UInt32.ofNat e.data.length) ++ (e.data ++ bs) := by
  rw [show 8 = 4 + 4 from rfl, ← List.drop_drop, drop_four_encodeEntry]
  exact List.drop_left' (le32_length _)

lemma drop_twelve_encodeEntry : (encodeEntry e ++ bs).drop 12 = e.data ++ bs := by
  rw [show 12 = 8 + 4 from rfl, ← List.drop_drop, drop_eight_encodeEntry]
  exact List.drop_left' (le32_length _)

lemma lenField_encodeEntry (h : Fits e) :
    (lenField (encodeEntry e ++ bs)).toNat = e.data.length := by
  rw [lenField, drop_eight_encodeEntry, ofLe32_le32, UInt32.toNat_ofNat']
  exact Nat.mod_eq_of_lt (by unfold Fits at h; omega)

end Header

lemma readEntry_encode {e : WALEntry} (bs : Bytes) (h : Fits e) :
    readEntry (encodeEntry e ++ bs) = some ((encodeEntry e).length, e) := by
  unfold readEntry
  rw [lenField_encodeEntry e bs h, ofLe32_encodeEntry, drop_four_encodeEntry, ofLe32_le32,
    drop_twelve_encodeEntry, List.take_left, encodeEntry_length, List.length_append,
    encodeEntry_length, if_neg (by omega)]
  simp

lemma lenField_of_cut {e : WALEntry} {bs : Bytes} (h : Fits e) (hp : bs <+: encodeEntry e)
    (h12 : 12 ≤ bs.length) : (lenField bs).toNat = e.data.length := by
  obtain ⟨tl, htl⟩ := hp
  have hfield := lenField_encodeEntry e [] h
  rw [List.append_nil, ← htl, lenField, List.drop_append_of_le_length (by omega),
    ofLe32_append (by rw [List.length_drop]; omega)] at hfield
  exact hfield

/-- A proper prefix of an entry is not read: its header is cut, or announces more bytes than
there are. -/
lemma readEntry_torn {e : WALEntry} {bs : Bytes} (h : Fits e) (hp : bs <+: encodeEntry e)
    (hne : bs ≠ encodeEntry e) : readEntry bs = none := by
  have hlt : bs.length < 12 + e.data.length := by
    have hle := hp.length_le
    have hneq : bs.length ≠ (encodeEntry e).length := fun h => hne (hp.eq_of_length h)
    rw [encodeEntry_length] at hle hneq
    omega
  unfold readEntry
  by_cases h12 : bs.length < 12
  · rw [if_pos (by omega)]
  · rw [lenField_of_cut h hp (by omega), if_pos (by omega)]

/-- **The codec of the log.** -/
def walCodec : Codec UInt8 WALEntry where
  read := readEntry
  read_pos {bs c a} h := by
    unfold readEntry at h; split at h
    · cases h
    · obtain ⟨rfl, -⟩ : _ = c ∧ _ := by simpa using h
      omega
  read_le {bs c a} h := by
    unfold readEntry at h; split at h
    · cases h
    · obtain ⟨rfl, -⟩ : _ = c ∧ _ := by simpa using h
      omega
  encode := encodeEntry
  Valid := Fits
  read_encode bs h := readEntry_encode bs h
  read_torn h hp hne := readEntry_torn h hp hne

/-- No header that is looked for in the file wraps. -/
def Sane (file : Bytes) : Prop := ∀ p, walCodec.At file p → NoWrap (file.drop p)

lemma noWrap_encode {e : WALEntry} (bs : Bytes) (h : Fits e) : NoWrap (encodeEntry e ++ bs) := by
  intro _
  rw [lenField_encodeEntry e bs h]
  exact h

lemma noWrap_torn {tail : Bytes} (h : walCodec.Torn tail) : NoWrap tail := by
  intro h12
  cases h with
  | nil => simp at h12
  | mid hv hp _ => rw [lenField_of_cut hv hp h12]; exact hv

/-- A file of whole entries that may end in a torn one is sane. -/
theorem sane_encodeAll {es : List WALEntry} {tail : Bytes} (hv : ∀ e ∈ es, Fits e)
    (ht : walCodec.Torn tail) : Sane (walCodec.encodeAll es ++ tail) := by
  intro p hp
  obtain ⟨fs, hfs, he⟩ := Codec.drop_at es hv ht hp
  rw [he]
  cases fs with
  | nil => exact noWrap_torn ht
  | cons f fs =>
    rw [Codec.encodeAll_cons, List.append_assoc]
    exact noWrap_encode _ (hv f (hfs.subset (by simp)))

/-! ### Markers and replay -/

/-- What an entry says about the transaction `t`: committed, aborted, or nothing. -/
def marker (t : Int32) (e : WALEntry) : Option Bool :=
  if e.txnId = t then
    if e.entryType = 2 then some true else if e.entryType = 3 then some false else none
  else none

def lastMarker (t : Int32) (es : List WALEntry) : Option Bool :=
  (es.filterMap (marker t)).getLast?

/-- The data entries of the transactions whose last marker is COMMIT. -/
def replayed (es : List WALEntry) : List WALEntry :=
  es.filter fun e => e.entryType = 1 ∧ lastMarker e.txnId es = some true

@[simp] lemma lastMarker_nil (t : Int32) : lastMarker t [] = none := rfl

lemma lastMarker_append (t : Int32) (es fs : List WALEntry) :
    lastMarker t (es ++ fs) = (lastMarker t fs).or (lastMarker t es) := by
  simp [lastMarker, List.getLast?_append]

lemma lastMarker_cons (t : Int32) (e : WALEntry) (es : List WALEntry) :
    lastMarker t (e :: es) = (lastMarker t es).or (marker t e) := by
  rw [← List.singleton_append, lastMarker_append]
  congr 1
  cases h : marker t e <;> simp [lastMarker, h]

lemma noteMarker_getElem? (m : Std.ExtTreeMap Int32 Bool) (e : WALEntry) (t : Int32) :
    (noteMarker m e)[t]? = (marker t e).or m[t]? := by
  unfold noteMarker marker
  by_cases ht : e.txnId = t
  · subst ht
    rw [if_pos rfl]
    split_ifs <;> simp
  · split_ifs <;> simp [Std.ExtTreeMap.getElem?_insert, ht]

lemma foldl_noteMarker (es : List WALEntry) (m : Std.ExtTreeMap Int32 Bool) (t : Int32) :
    (es.foldl noteMarker m)[t]? = (lastMarker t es).or m[t]? := by
  induction es generalizing m with
  | nil => simp
  | cons e es ih =>
    rw [List.foldl_cons, ih, noteMarker_getElem?, lastMarker_cons, Option.or_assoc]

lemma foldl_noteData (m : Std.ExtTreeMap Int32 Bool) (es rs : List WALEntry) :
    es.foldl (noteData m) rs =
      rs ++ es.filter fun e => e.entryType = 1 ∧ m[e.txnId]? = some true := by
  induction es generalizing rs with
  | nil => simp
  | cons e es ih =>
    rw [List.foldl_cons, ih, noteData]
    by_cases h : e.entryType = 1 ∧ m[e.txnId]? = some true <;> simp [h]

lemma loop_pass {τ : Type} {file : Bytes} (hs : Sane file) (note : τ → WALEntry → τ) (t : τ) :
    ∃ p, Returns (fun n => loop (turn decodeEntry note file) n (0, t))
      (p, (walCodec.records file).foldl note t) :=
  returns_turn (F := walCodec.toFraming) (fun p hp => decodeEntry_of_noWrap (hs p hp)) t

/-- **Recovery replays the log**: on a sane file it returns the data of the transactions
whose last marker is COMMIT, and has every transaction with a marker as its last one says. -/
theorem recover_of_sane (w : WALManager) (hs : Sane (w.wal.getD [])) :
    ∃ m, Returns w.recover
        (replayed (walCodec.records (w.wal.getD [])), { w with committedTxns := m }) ∧
      ∀ t, m[t]? = lastMarker t (walCodec.records (w.wal.getD [])) := by
  obtain ⟨_ | file, committed⟩ := w
  · have hnil : walCodec.records [] = [] := Framing.records_of_none Codec.read_nil
    refine ⟨∅, ?_, fun t => by simp [hnil]⟩
    simp only [Option.getD_none, hnil]
    exact returns_const _
  · set es := walCodec.records file with hes
    obtain ⟨p, hp⟩ := loop_pass hs noteMarker ∅
    obtain ⟨q, hq⟩ := loop_pass hs (noteData (es.foldl noteMarker ∅)) []
    have hmark : ∀ t, (es.foldl noteMarker ∅)[t]? = lastMarker t es := fun t => by
      simp [foldl_noteMarker]
    refine ⟨es.foldl noteMarker ∅, ?_, hmark⟩
    rw [foldl_noteData, List.nil_append] at hq
    simp only [hmark] at hq
    exact hp.bind (hq.bind (returns_const _))

end Dbx4.WalLog
