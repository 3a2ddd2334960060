import Mathlib.Data.List.TakeWhile
import Std.Data.ExtTreeSet
import Dbx4.WalCut

/-!
The other reader of the log: `QueryExecutor::recover_from_wal` of `query_executor.cpp`.

It reads a header of three words as transaction, committed flag and length, and takes a
non-zero flag for a commit. In the log of the manager the second word is the entry type, which
is never zero: every transaction with an entry counts as committed. Behind a header with a
length above 65536 it goes on with the payload as if it were headers.
-/

namespace Dbx4.WalReader

open Dbx4.Loops Dbx4.Frames Dbx4.Runs Dbx4.Word32 Dbx4.WalModel Dbx4.WalLog Dbx4.WalCut

/-- A read of four bytes, and the stream behind them. -/
def read32 (wal : Bytes) : Option (UInt32 × Bytes) :=
  if wal.length < 4 then none else some (ofLe32 wal, wal.drop 4)

structure Header where
  txnId : UInt32
  isCommitted : UInt32
  dataLen : UInt32
  rest : Bytes

def readHeader (wal : Bytes) : Option Header := do
  let (txnId, wal) ← read32 wal
  let (isCommitted, wal) ← read32 wal
  let (dataLen, wal) ← read32 wal
  return ⟨txnId, isCommitted, dataLen, wal⟩

/-- One turn of the loop, on the stream and the transactions found so far. -/
def readTurn (s : Bytes × Std.ExtTreeSet Int32) :
    Except Empty (Option (Bytes × Std.ExtTreeSet Int32)) :=
  match readHeader s.1 with
  | none => .ok none
  | some h =>
    -- taken for a corrupted entry: only the header is skipped
    if 65536 < h.dataLen then .ok (some (h.rest, s.2))
    else if h.rest.length < h.dataLen.toNat then .ok none
    else
      .ok (some (h.rest.drop h.dataLen.toNat,
        if h.isCommitted ≠ 0 then s.2.insert h.txnId.toInt32 else s.2))

/-- The committed transactions the reader finds in the file, `committedTxIds` at first. -/
def recoverFromWal (committedTxIds : Std.ExtTreeSet Int32) (wal : Option Bytes) (fuel : ℕ) :
    Outcome Empty (Std.ExtTreeSet Int32) :=
  match wal with
  | none => .done committedTxIds
  | some wal => (loop readTurn fuel (wal, committedTxIds)).bind fun s => .done s.2

/-! ### What the reader finds -/

@[simp] lemma read32_le32 (x : UInt32) (bs : Bytes) : read32 (le32 x ++ bs) = some (x, bs) := by
  have hlen : ¬ (le32 x ++ bs).length < 4 := by simp
  rw [read32, if_neg hlen, ofLe32_le32, List.drop_left' (le32_length x)]

lemma readHeader_encode (e : WALEntry) (bs : Bytes) :
    readHeader (encodeEntry e ++ bs) = some ⟨e.txnId.toUInt32, e.entryType.toUInt32,
      UInt32.ofNat e.data.length, e.data ++ bs⟩ := by
  simp [readHeader, encodeEntry]

lemma readHeader_length {wal : Bytes} {h : Header} (hr : readHeader wal = some h) :
    h.rest.length + 12 = wal.length := by
  unfold readHeader read32 at hr
  simp only [Option.bind_eq_bind, Option.bind_eq_some_iff, Prod.exists] at hr
  obtain ⟨_, w1, h1, _, w2, h2, _, w3, h3, h4⟩ := hr
  split_ifs at h1 h2 h3
  cases h1; cases h2; cases h3; cases h4
  simp only [List.length_drop] at *
  omega

/-- Walking a stream header by header, the reader meets one that flags the transaction `t`. -/
inductive Names : Bytes → Int32 → Prop
  | here {wal : Bytes} {h : Header} : readHeader wal = some h → h.dataLen ≤ 65536 →
      h.dataLen.toNat ≤ h.rest.length → h.isCommitted ≠ 0 → Names wal h.txnId.toInt32
  | entry {wal : Bytes} {h : Header} {t : Int32} : readHeader wal = some h →
      h.dataLen ≤ 65536 → h.dataLen.toNat ≤ h.rest.length →
      Names (h.rest.drop h.dataLen.toNat) t → Names wal t
  | header {wal : Bytes} {h : Header} {t : Int32} : readHeader wal = some h →
      65536 < h.dataLen → Names h.rest t → Names wal t

lemma not_names_of_none {wal : Bytes} {t : Int32} (h : readHeader wal = none) :
    ¬ Names wal t := by
  rintro (⟨hr, _, _, _⟩ | ⟨hr, _, _, _⟩ | ⟨hr, _, _⟩) <;> rw [h] at hr <;> cases hr

/-- After a header with a length above the limit, the rest is read as headers. -/
lemma names_long {wal : Bytes} {h : Header} (hr : readHeader wal = some h)
    (hlen : 65536 < h.dataLen) (t : Int32) : Names wal t ↔ Names h.rest t := by
  refine ⟨?_, .header hr hlen⟩
  rintro (⟨hr', hle, _, _⟩ | ⟨hr', hle, _, _⟩ | ⟨hr', _, hn⟩)
  all_goals
    rw [hr] at hr'
    cases hr'
  · exact absurd hlen (UInt32.not_lt.mpr hle)
  · exact absurd hlen (UInt32.not_lt.mpr hle)
  · exact hn

lemma names_entry {wal : Bytes} {h : Header} (hr : readHeader wal = some h)
    (hlen : h.dataLen ≤ 65536) (hrest : h.dataLen.toNat ≤ h.rest.length) (t : Int32) :
    Names wal t ↔
      (h.isCommitted ≠ 0 ∧ h.txnId.toInt32 = t) ∨ Names (h.rest.drop h.dataLen.toNat) t := by
  refine ⟨?_, ?_⟩
  · rintro (⟨hr', _, _, hflag⟩ | ⟨hr', _, _, hn⟩ | ⟨hr', hgt, _⟩)
    all_goals
      rw [hr] at hr'
      cases hr'
    · exact Or.inl ⟨hflag, rfl⟩
    · exact Or.inr hn
    · exact absurd hgt (UInt32.not_lt.mpr hlen)
  · rintro (⟨hflag, rfl⟩ | hn)
    · exact .here hr hlen hrest hflag
    · exact .entry hr hlen hrest hn

lemma not_names_of_cut {wal : Bytes} {h : Header} (hr : readHeader wal = some h)
    (hlen : h.dataLen ≤ 65536) (hrest : h.rest.length < h.dataLen.toNat) (t : Int32) :
    ¬ Names wal t := by
  rintro (⟨hr', _, hle, _⟩ | ⟨hr', _, hle, _⟩ | ⟨hr', hgt, _⟩)
  all_goals
    rw [hr] at hr'
    cases hr'
  · omega
  · omega
  · exact absurd hgt (UInt32.not_lt.mpr hlen)

/-- **The reader returns the transactions its walk names.** -/
theorem returns_readTurn (wal : Bytes) (ids : Std.ExtTreeSet Int32) :
    ∃ s, Returns (fun n => loop readTurn n (wal, ids)) s ∧
      ∀ t, t ∈ s.2 ↔ t ∈ ids ∨ Names wal t := by
  induction hn : wal.length using Nat.strongRecOn generalizing wal ids with
  | _ n ih =>
    rcases hr : readHeader wal with _ | h
    · refine ⟨_, returns_stop (by simp [readTurn, hr]), fun t => ?_⟩
      simp [not_names_of_none hr]
    · have hlen := readHeader_length hr
      rcases UInt32.lt_or_le 65536 h.dataLen with hgt | hle
      · obtain ⟨s, hs, hmem⟩ := ih h.rest.length (by omega) h.rest ids rfl
        refine ⟨s, returns_step (by simp [readTurn, hr, hgt]) hs, fun t => ?_⟩
        rw [hmem, names_long hr hgt]
      · have hngt : ¬ 65536 < h.dataLen := UInt32.not_lt.mpr hle
        rcases Nat.lt_or_ge h.rest.length h.dataLen.toNat with hcut | hwhole
        · refine ⟨_, returns_stop (by simp [readTurn, hr, hngt, hcut]), fun t => ?_⟩
          simp [not_names_of_cut hr hle hcut]
        · have hncut : ¬ h.rest.length < h.dataLen.toNat := by omega
          obtain ⟨s, hs, hmem⟩ := ih _ (by rw [List.length_drop]; omega)
            (h.rest.drop h.dataLen.toNat)
            (if h.isCommitted ≠ 0 then ids.insert h.txnId.toInt32 else ids) rfl
          refine ⟨s, returns_step (by simp [readTurn, hr, hngt, hncut]) hs, fun t => ?_⟩
          rw [hmem, names_entry hr hle hwhole]
          by_cases hflag : h.isCommitted = 0
          · simp [hflag]
          · simp [hflag, Std.ExtTreeSet.mem_insert]
            tauto

/-! ### On the log of the manager -/

def short (e : WALEntry) : Bool := e.data.length ≤ 65536

/-- The entries ahead of the first one that is longer than the limit. -/
def framed (es : List WALEntry) : List WALEntry := es.takeWhile short

/-- The payload of the first entry longer than the limit, and all the entries behind it. -/
def stray (es : List WALEntry) : Bytes :=
  match es.dropWhile short with
  | [] => []
  | e :: es => e.data ++ walCodec.encodeAll es

lemma dataLen_toNat {e : WALEntry} (h : Fits e) :
    (UInt32.ofNat e.data.length).toNat = e.data.length := by
  rw [UInt32.toNat_ofNat']
  exact Nat.mod_eq_of_lt (by unfold Fits at h; omega)

lemma names_encode_short {e : WALEntry} (hfit : Fits e) (hs : short e) (htype : e.entryType ≠ 0)
    (bs : Bytes) (t : Int32) :
    Names (encodeEntry e ++ bs) t ↔ e.txnId = t ∨ Names bs t := by
  have hlen := dataLen_toNat hfit
  have hle : UInt32.ofNat e.data.length ≤ 65536 := by
    rw [UInt32.le_iff_toNat_le, hlen]
    exact of_decide_eq_true hs
  have hflag : e.entryType.toUInt32 ≠ 0 := fun h =>
    htype (by simpa using congrArg UInt32.toInt32 h)
  rw [names_entry (readHeader_encode e bs) hle (by simp [hlen])]
  simp [hlen, hflag]

lemma names_encode_long {e : WALEntry} (hfit : Fits e) (hs : ¬ short e) (bs : Bytes)
    (t : Int32) : Names (encodeEntry e ++ bs) t ↔ Names (e.data ++ bs) t := by
  refine names_long (readHeader_encode e bs) ?_ t
  rw [UInt32.lt_iff_toNat_lt, dataLen_toNat hfit]
  have := of_decide_eq_false (Bool.not_eq_true _ ▸ hs : short e = false)
  exact Nat.lt_of_not_le this

lemma names_encodeAll {es : List WALEntry} (hfit : ∀ e ∈ es, Fits e)
    (htype : ∀ e ∈ es, e.entryType ≠ 0) (t : Int32) :
    Names (walCodec.encodeAll es) t ↔ (∃ e ∈ framed es, e.txnId = t) ∨ Names (stray es) t := by
  induction es with
  | nil => simp [framed, stray]
  | cons e es ih =>
    have ih' := ih (fun f hf => hfit f (by simp [hf])) (fun f hf => htype f (by simp [hf]))
    rw [Codec.encodeAll_cons]
    by_cases hs : short e = true
    · have hframed : framed (e :: es) = e :: framed es := by simp [framed, hs]
      have hstray : stray (e :: es) = stray es := by simp [stray, hs]
      rw [hframed, hstray]
      refine (names_encode_short (hfit e (by simp)) hs (htype e (by simp)) _ t).trans ?_
      rw [ih']
      simp [or_assoc]
    · have hframed : framed (e :: es) = [] := by simp [framed, hs]
      have hstray : stray (e :: es) = e.data ++ walCodec.encodeAll es := by simp [stray, hs]
      rw [hframed, hstray]
      refine (names_encode_long (hfit e (by simp)) hs _ t).trans ?_
      simp

/-- The reader and the manager find the same transactions committed. -/
def SameCommitted (calls : List Call) : Prop :=
  ∃ ids recovered w, Returns (recoverFromWal ∅ (writeAll calls).wal) ids ∧
    Returns (writeAll calls).recover (recovered, w) ∧
    ∀ t, t ∈ ids ↔ w.committedTxns[t]? = some true

/-- Every transaction with an entry ahead of the first long payload ends committed; the bytes
from there on, walked as headers, flag only transactions that end committed, and flag each
such transaction that has no entry ahead of them. -/
structure EndsCommitted (es : List WALEntry) : Prop where
  framed : ∀ e ∈ framed es, lastMarker e.txnId es = some true
  stray : ∀ t, Names (stray es) t → lastMarker t es = some true
  found : ∀ t, lastMarker t es = some true →
    (∃ e ∈ WalReader.framed es, e.txnId = t) ∨ Names (WalReader.stray es) t

lemma endsCommitted_iff (es : List WALEntry) :
    EndsCommitted es ↔
      ∀ t, ((∃ e ∈ framed es, e.txnId = t) ∨ Names (stray es) t) ↔
        lastMarker t es = some true := by
  refine ⟨fun h t => ⟨?_, h.found t⟩, fun h => ⟨?_, ?_, ?_⟩⟩
  · rintro (⟨e, he, rfl⟩ | hn)
    · exact h.framed e he
    · exact h.stray t hn
  · exact fun e he => (h _).mp (Or.inl ⟨e, he, rfl⟩)
  · exact fun t ht => (h t).mp (Or.inr ht)
  · exact fun t ht => (h t).mpr ht

/-- In a log without long payloads, every transaction has to end committed. -/
lemma endsCommitted_of_short {es : List WALEntry} (hs : ∀ e ∈ es, short e) :
    EndsCommitted es ↔ ∀ e ∈ es, lastMarker e.txnId es = some true := by
  have hframed : framed es = es := List.takeWhile_eq_self_iff.mpr hs
  have hstray : stray es = [] := by
    have : es.dropWhile short = [] := List.dropWhile_eq_nil_iff.mpr hs
    simp [stray, this]
  refine ⟨fun h => by simpa [hframed] using h.framed, fun h => ⟨?_, ?_, fun t ht => ?_⟩⟩
  · simpa [hframed] using h
  · intro t hn
    rw [hstray] at hn
    exact absurd hn (not_names_of_none rfl)
  · obtain ⟨c, hc, -, rfl⟩ := exists_commit ht
    exact Or.inl ⟨c, hframed.symm ▸ hc, rfl⟩

lemma entryType_ne_zero (c : Call) : c.entry.entryType ≠ 0 := by
  cases c <;> simp [Call.entry]

/-- The reader on the file the manager wrote. -/
lemma returns_recoverFromWal (calls : List Call) (hfit : ∀ c ∈ calls, Fits c.entry) :
    ∃ ids, Returns (recoverFromWal ∅ (writeAll calls).wal) ids ∧
      ∀ t, t ∈ ids ↔
        (∃ e ∈ framed (entries calls), e.txnId = t) ∨ Names (stray (entries calls)) t := by
  have hnames := names_encodeAll (fits_entries hfit) (fun e he => by
    obtain ⟨c, -, rfl⟩ := List.mem_map.mp he
    exact entryType_ne_zero c)
  have hfile : (writeAll calls).wal.getD [] = walCodec.encodeAll (entries calls) := by
    rw [writeAll, run_apply_wal]; simp
  rcases hwal : (writeAll calls).wal with _ | file
  · rw [hwal, Option.getD_none] at hfile
    refine ⟨∅, returns_const ∅, fun t => ?_⟩
    rw [← hnames, ← hfile]
    simp [not_names_of_none (t := t) (show readHeader [] = none from rfl)]
  · rw [hwal, Option.getD_some] at hfile
    obtain ⟨s, hs, hmem⟩ := returns_readTurn file ∅
    refine ⟨s.2, hs.bind (returns_const _), fun t => ?_⟩
    rw [hmem, ← hnames, hfile]
    simp

/-- What the two readers find in the file of the manager, set side by side. -/
lemma sameCommitted_iff_walk (calls : List Call) (hfit : ∀ c ∈ calls, Fits c.entry) :
    SameCommitted calls ↔
      ∀ t, ((∃ e ∈ framed (entries calls), e.txnId = t) ∨ Names (stray (entries calls)) t) ↔
        lastMarker t (entries calls) = some true := by
  obtain ⟨ids, hids, hmem⟩ := returns_recoverFromWal calls hfit
  obtain ⟨w, hw, hmark⟩ := recover_writeAll calls hfit
  refine ⟨?_, fun h => ⟨ids, _, w, hids, hw, fun t => ?_⟩⟩
  · rintro ⟨ids', rs', w', hids', hw', hsame⟩ t
    obtain rfl := hids'.unique hids
    obtain ⟨-, rfl⟩ := Prod.mk.inj (hw'.unique hw)
    rw [← hmem, hsame, hmark]
  · rw [hmem, h, hmark]

/-- **The two readers agree exactly when what the reader's walk names ends committed.** -/
theorem sameCommitted_iff (calls : List Call) (hfit : ∀ c ∈ calls, Fits c.entry) :
    SameCommitted calls ↔ EndsCommitted (entries calls) :=
  (sameCommitted_iff_walk calls hfit).trans (endsCommitted_iff _).symm

/-- A log whose only transaction is committed. -/
theorem sameCommitted_committed : SameCommitted [.data 1 [5], .commit 1] :=
  (sameCommitted_iff _ (by decide)).mpr ((endsCommitted_of_short (by decide)).mpr (by decide))

/-- An unfinished transaction counts as committed for the reader. -/
theorem not_sameCommitted_data : ¬ SameCommitted [.data 1 []] := by
  rw [sameCommitted_iff_walk _ (by decide)]
  intro h
  have hmarker := (h 1).mp (Or.inl ⟨⟨1, 1, []⟩, by decide, rfl⟩)
  revert hmarker
  decide

end Dbx4.WalReader
