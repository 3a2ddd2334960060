import Dbx4.WalReaders

/-!
What the hardened parser makes of a log.

A log is a sequence of entries, each a header of three words and its data. A header with a
length above the limit is skipped, alone, and the parser goes on behind it. What is left at
the end is reported as corruption from the fourth byte on.
-/

namespace Dbx4.WalEntries

open Dbx4.Counters Dbx4.Loops Dbx4.Frames Dbx4.Word32 Dbx4.WalReader Dbx4.WalReaders

/-! ### Writing -/

def encodeHeader (txnId isCommitted dataLen : UInt32) : Bytes :=
  le32 txnId ++ (le32 isCommitted ++ le32 dataLen)

def encodeRecord (r : Record) : Bytes :=
  encodeHeader r.txnId r.isCommitted (UInt32.ofNat r.data.length) ++ r.data

def encodeLog (rs : List Record) : Bytes := rs.flatMap encodeRecord

/-- The data of an entry is within the limit. -/
def Fits (r : Record) : Prop := r.data.length ≤ 65536

@[simp] lemma encodeHeader_length (txnId isCommitted dataLen : UInt32) :
    (encodeHeader txnId isCommitted dataLen).length = 12 := rfl

lemma encodeRecord_length (r : Record) : (encodeRecord r).length = 12 + r.data.length := by
  rw [encodeRecord, List.length_append, encodeHeader_length]

@[simp] lemma encodeLog_append (rs rs' : List Record) :
    encodeLog (rs ++ rs') = encodeLog rs ++ encodeLog rs' := List.flatMap_append

lemma encodeLog_cons (r : Record) (rs : List Record) :
    encodeLog (r :: rs) = encodeRecord r ++ encodeLog rs := rfl

lemma readHeader_encodeHeader (txnId isCommitted dataLen : UInt32) (bs : Bytes) :
    readHeader (encodeHeader txnId isCommitted dataLen ++ bs) =
      some ⟨txnId, isCommitted, dataLen, bs⟩ := by
  simp [readHeader, encodeHeader]

/-- A header above the limit is a record of its own. -/
lemma read_encodeHeader {dataLen : UInt32} (h : 65536 < dataLen) (txnId isCommitted : UInt32)
    (bs : Bytes) : framing.read (encodeHeader txnId isCommitted dataLen ++ bs) =
      some ((encodeHeader txnId isCommitted dataLen).length, none) :=
  readRecord_long (readHeader_encodeHeader _ _ _ _) h

/-- An entry within the limit is read back. -/
lemma read_encodeRecord {r : Record} (h : Fits r) (bs : Bytes) :
    framing.read (encodeRecord r ++ bs) = some ((encodeRecord r).length, some r) := by
  have hle : r.data.length ≤ 65536 := h
  have hlen : (UInt32.ofNat r.data.length).toNat = r.data.length :=
    UInt32.toNat_ofNat_of_lt' (Nat.lt_of_le_of_lt hle (by decide))
  have hheader := readHeader_encodeHeader r.txnId r.isCommitted (UInt32.ofNat r.data.length)
    (r.data ++ bs)
  rw [← List.append_assoc, ← encodeRecord] at hheader
  have hlong : ¬ 65536 < UInt32.ofNat r.data.length := by
    rw [UInt32.lt_iff_toNat_lt, hlen]
    exact Nat.not_lt.mpr hle
  have hcut : ¬ (r.data ++ bs).length < (UInt32.ofNat r.data.length).toNat := by
    rw [hlen, List.length_append]
    omega
  have hread := readRecord_whole hheader hlong hcut
  rw [hlen, List.take_left, ← encodeRecord_length] at hread
  exact hread

lemma read_nil : framing.read [] = none := rfl

lemma read_of_short {bs : Bytes} (h : bs.length < 4) : framing.read bs = none := by
  refine readRecord_none ?_
  rw [readHeader_eq, if_pos (by omega)]

/-- **Round trip** of a log, whatever follows it. -/
lemma records_encodeLog {rs : List Record} (h : ∀ r ∈ rs, Fits r) (tail : Bytes) :
    framing.records (encodeLog rs ++ tail) = rs.map some ++ framing.records tail :=
  Framing.records_flatMap (fun r hr bs => read_encodeRecord (h r hr) bs) tail

lemma rest_encodeLog {rs : List Record} (h : ∀ r ∈ rs, Fits r) (tail : Bytes) :
    framing.rest (encodeLog rs ++ tail) = framing.rest tail :=
  Framing.rest_flatMap (fun r hr bs => read_encodeRecord (h r hr) bs) tail

lemma records_log {rs : List Record} (h : ∀ r ∈ rs, Fits r) : records (encodeLog rs) = rs := by
  have hrecords := records_encodeLog h []
  rw [List.append_nil, Framing.records_of_none read_nil, List.append_nil] at hrecords
  rw [records, hrecords, List.reduceOption, List.filterMap_map]
  exact List.filterMap_some

/-! ### Entries among corrupt headers -/

/-- An entry, or a header that is all there is of one. -/
inductive Item
  | entry (r : Record)
  | header (txnId isCommitted dataLen : UInt32)

namespace Item

def encode : Item → Bytes
  | entry r => encodeRecord r
  | header txnId isCommitted dataLen => encodeHeader txnId isCommitted dataLen

/-- The entry is within the limit, the length of the header above it. -/
def Valid : Item → Prop
  | entry r => Fits r
  | header _ _ dataLen => 65536 < dataLen

def record : Item → Option Record
  | entry r => some r
  | header .. => none

lemma read_encode {item : Item} (h : item.Valid) (bs : Bytes) :
    framing.read (item.encode ++ bs) = some (item.encode.length, item.record) := by
  cases item with
  | entry r => exact read_encodeRecord h bs
  | header txnId isCommitted dataLen => exact read_encodeHeader h txnId isCommitted bs

end Item

/-- The entries among the items. -/
def entries (items : List Item) : List Record := items.filterMap Item.record

/-- The corrupt headers among the items. -/
def corrupt (items : List Item) : List Item := items.filter fun item => item.record.isNone

/-- The parser returns exactly the entries, and reports how many it recovered and skipped. -/
def Recovers (items : List Item) : Prop :=
  ∃ result, Returns (parseWalHardened (some (items.flatMap Item.encode))) result ∧
    result.entries = (entries items).map Entry.ofRecord ∧
    result.recoveredEntries.toInt = (entries items).length ∧
    result.skippedCorrupted.toInt = (corrupt items).length ∧
    (result.hasCorruption = true ↔ corrupt items ≠ [])

/-- The parser always returns the entries; the numbers are as its `int`s count them. -/
lemma recovers_iff_counted {items : List Item} (h : ∀ item ∈ items, item.Valid) :
    Recovers items ↔
      (Int32.ofNat (entries items).length).toInt = (entries items).length ∧
        (Int32.ofNat (corrupt items).length).toInt = (corrupt items).length := by
  have hread : ∀ item ∈ items, ∀ bs, framing.read (item.encode ++ bs) =
      some (item.encode.length, item.record) :=
    fun item hitem bs => Item.read_encode (h item hitem) bs
  have hrecords := Framing.records_flatMap hread []
  have hrest := Framing.rest_flatMap hread []
  rw [List.append_nil, Framing.records_of_none read_nil, List.append_nil] at hrecords
  rw [List.append_nil, Framing.rest_of_none read_nil] at hrest
  have hreturns := returns_parseWalHardened (items.flatMap Item.encode)
  rw [hrecords, hrest] at hreturns
  have hlist : (items.map Item.record).reduceOption = entries items := by
    rw [List.reduceOption, List.filterMap_map]
    rfl
  have hnumber : (items.map Item.record).countP Option.isNone = (corrupt items).length := by
    rw [List.countP_map, List.countP_eq_length_filter]
    rfl
  have hentries := foldl_note_entries (items.map Item.record) {}
  have hrecovered := foldl_note_recovered (items.map Item.record) {}
  have hskipped := foldl_note_skipped (items.map Item.record) {}
  rw [hlist, List.nil_append] at hentries
  rw [hlist, Int32.zero_add] at hrecovered
  rw [hnumber, Int32.zero_add] at hskipped
  have hflag : ((items.map Item.record).foldl ParseResult.note {}).hasCorruption = true ↔
      corrupt items ≠ [] := by
    rw [foldl_note_hasCorruption]
    simp [corrupt]
  constructor
  · rintro ⟨result, hr, -, hrec, hskip, -⟩
    obtain rfl := hr.unique hreturns
    exact ⟨hrecovered ▸ hrec, hskipped ▸ hskip⟩
  · rintro ⟨hrec, hskip⟩
    exact ⟨_, hreturns, hentries, hrecovered ▸ hrec, hskipped ▸ hskip, hflag⟩

/-- **When the parser recovers the entries and counts them right**: always, below 2^31 of a
kind. -/
theorem recovers_iff {items : List Item} (h : ∀ item ∈ items, item.Valid) :
    Recovers items ↔ (entries items).length < 2 ^ 31 ∧ (corrupt items).length < 2 ^ 31 := by
  rw [recovers_iff_counted h, toInt_ofNat_iff, toInt_ofNat_iff]

/-- An entry between two corrupt headers. -/
theorem recovers_three :
    Recovers [.header 1 1 70000, .entry ⟨7, 1, [1, 2]⟩, .header 2 0 65537] := by
  refine (recovers_iff ?_).mpr (by decide)
  simp only [List.forall_mem_cons, Item.Valid, Fits]
  exact ⟨by decide, by decide, by decide, List.forall_mem_nil _⟩

/-- Among 2^31 entries without data the counter has run over. -/
theorem not_recovers_overrun : ¬ Recovers (List.replicate (2 ^ 31) (.entry ⟨1, 1, []⟩)) := by
  have hvalid : ∀ item ∈ List.replicate (2 ^ 31) (Item.entry ⟨1, 1, []⟩), item.Valid := by
    intro item hitem
    rw [List.eq_of_mem_replicate hitem]
    exact Nat.zero_le _
  have hlength : (entries (List.replicate (2 ^ 31) (Item.entry ⟨1, 1, []⟩))).length = 2 ^ 31 := by
    rw [entries, List.filterMap_replicate_of_some (by rfl), List.length_replicate]
  rw [recovers_iff_counted hvalid, hlength, toInt_ofNat_iff]
  exact fun h => lt_irrefl _ h.1

/-! ### Reporting corruption -/

lemma eq_encodeHeader {wal : Bytes} {h : Header} (hr : readHeader wal = some h) :
    wal = encodeHeader h.txnId h.isCommitted h.dataLen ++ h.rest := by
  rw [readHeader_eq] at hr
  split_ifs at hr with hlen
  obtain rfl := Option.some_inj.mp hr
  have h0 : 4 ≤ wal.length := by omega
  have h4 : 4 ≤ (wal.drop 4).length := by rw [List.length_drop]; omega
  have h8 : 4 ≤ (wal.drop 8).length := by rw [List.length_drop]; omega
  simp only [encodeHeader, le32_ofLe32 h0, le32_ofLe32 h4, le32_ofLe32 h8, List.append_assoc]
  have hsplit : ∀ k, (wal.drop k).take 4 ++ wal.drop (k + 4) = wal.drop k := by
    intro k
    rw [← List.drop_drop, List.take_append_drop]
  calc wal = wal.take 4 ++ wal.drop 4 := (hsplit 0).symm
    _ = wal.take 4 ++ ((wal.drop 4).take 4 ++ wal.drop 8) := by rw [hsplit 4]
    _ = wal.take 4 ++ ((wal.drop 4).take 4 ++ ((wal.drop 8).take 4 ++ wal.drop 12)) := by
      rw [hsplit 8]

/-- What is read as an entry was written as one. -/
lemma eq_encodeRecord {wal : Bytes} {c : ℕ} {r : Record} (hr : readRecord wal = some (c, some r)) :
    Fits r ∧ wal = encodeRecord r ++ wal.drop c := by
  obtain ⟨h, hh, ⟨-, -, hnone⟩ | ⟨hlong, hle, rfl, hrec⟩⟩ := readRecord_eq_some hr
  · cases hnone
  obtain rfl := Option.some_inj.mp hrec
  have hlen : (h.rest.take h.dataLen.toNat).length = h.dataLen.toNat := by
    rw [List.length_take, Nat.min_eq_left hle]
  constructor
  · have hlimit := UInt32.le_iff_toNat_le.mp (UInt32.not_lt.mp hlong)
    exact hlen.trans_le hlimit
  · rw [encodeRecord, hlen, UInt32.ofNat_toNat, List.append_assoc, ← List.drop_drop,
      ← readHeader_rest hh, List.take_append_drop]
    exact eq_encodeHeader hh

/-- A file without a header above the limit is a log, and a rest. -/
lemma eq_encodeLog {wal : Bytes} (h : ¬ (framing.records wal).any Option.isNone) :
    (∀ r ∈ records wal, Fits r) ∧ wal = encodeLog (records wal) ++ framing.rest wal := by
  induction hn : wal.length using Nat.strongRecOn generalizing wal with
  | _ n ih =>
    rcases hr : readRecord wal with _ | ⟨c, r⟩
    · rw [records_of_none hr, Framing.rest_of_none hr]
      exact ⟨List.forall_mem_nil _, rfl⟩
    · obtain ⟨hpos, hle⟩ := readRecord_bounds hr
      rw [Framing.records_of_some hr, List.any_cons, Bool.or_eq_true, not_or] at h
      rcases r with _ | r
      · exact absurd rfl h.1
      · obtain ⟨hfits, heq⟩ := eq_encodeRecord hr
        obtain ⟨hrest, hlog⟩ := ih (wal.drop c).length (by rw [List.length_drop]; omega) h.2 rfl
        rw [records_of_entry hr, Framing.rest_of_some hr, encodeLog_cons, List.append_assoc,
          ← hlog]
        exact ⟨List.forall_mem_cons.mpr ⟨hfits, hrest⟩, heq⟩

/-- The file is a sequence of complete entries, with nothing left over. -/
def Complete (wal : Bytes) : Prop := ∃ rs, (∀ r ∈ rs, Fits r) ∧ wal = encodeLog rs

/-- The parser reports no corruption exactly on a complete file. -/
def ReportsCorruption (wal : Bytes) : Prop :=
  ∃ result, Returns (parseWalHardened (some wal)) result ∧
    (result.hasCorruption = false ↔ Complete wal)

lemma hasCorruption_noteRest (result : ParseResult) (rest : Bytes) :
    (result.noteRest rest).hasCorruption = (result.hasCorruption || decide (4 ≤ rest.length)) := by
  unfold ParseResult.noteRest
  by_cases h4 : rest.length < 4
  · rw [if_pos h4, decide_eq_false (Nat.not_le.mpr h4), Bool.or_false]
  · rw [if_neg h4, decide_eq_true (Nat.not_lt.mp h4), Bool.or_true]
    split_ifs <;> simp

/-- No corruption is reported when fewer than four bytes are left over. -/
lemma hasCorruption_eq_false_iff (wal : Bytes) :
    (((framing.records wal).foldl ParseResult.note {}).noteRest
        (framing.rest wal)).hasCorruption = false ↔
      ∃ rs tail, (∀ r ∈ rs, Fits r) ∧ wal = encodeLog rs ++ tail ∧ tail.length < 4 := by
  rw [hasCorruption_noteRest, foldl_note_hasCorruption, Bool.or_eq_false_iff,
    decide_eq_false_iff_not, Nat.not_le]
  constructor
  · rintro ⟨hnone, htail⟩
    obtain ⟨hfits, hlog⟩ := eq_encodeLog (Bool.eq_false_iff.mp hnone)
    exact ⟨_, _, hfits, hlog, htail⟩
  · rintro ⟨rs, tail, hfits, rfl, htail⟩
    have hcut := read_of_short htail
    rw [records_encodeLog hfits, rest_encodeLog hfits, Framing.records_of_none hcut,
      Framing.rest_of_none hcut]
    exact ⟨by simp, htail⟩

/-- What is left over behind a complete file is nothing. -/
lemma tail_unique {rs rs' : List Record} {tail : Bytes} (h : ∀ r ∈ rs, Fits r)
    (h' : ∀ r ∈ rs', Fits r) (htail : tail.length < 4) (he : encodeLog rs ++ tail = encodeLog rs') :
    tail = [] := by
  have hrest := rest_encodeLog h tail
  rw [he, ← List.append_nil (encodeLog rs'), rest_encodeLog h', Framing.rest_of_none read_nil,
    Framing.rest_of_none (read_of_short htail)] at hrest
  exact hrest.symm

/-- **When the report of corruption is right**: on every file but a log with one to three
bytes left over, which counts as complete. -/
theorem reportsCorruption_iff (wal : Bytes) :
    ReportsCorruption wal ↔ ¬ ∃ rs tail, (∀ r ∈ rs, Fits r) ∧ wal = encodeLog rs ++ tail ∧
      tail ≠ [] ∧ tail.length < 4 := by
  have hreports : ReportsCorruption wal ↔
      ((∃ rs tail, (∀ r ∈ rs, Fits r) ∧ wal = encodeLog rs ++ tail ∧ tail.length < 4) ↔
        Complete wal) := by
    rw [← hasCorruption_eq_false_iff]
    refine ⟨?_, fun h => ⟨_, returns_parseWalHardened wal, h⟩⟩
    rintro ⟨result, hr, h⟩
    rwa [hr.unique (returns_parseWalHardened wal)] at h
  rw [hreports]
  constructor
  · rintro h ⟨rs, tail, hfits, hwal, hne, htail⟩
    obtain ⟨rs', hfits', hwal'⟩ := h.mp ⟨rs, tail, hfits, hwal, htail⟩
    exact hne (tail_unique hfits hfits' htail (hwal.symm.trans hwal'))
  · intro h
    constructor
    · rintro ⟨rs, tail, hfits, hwal, htail⟩
      by_cases hne : tail = []
      · exact ⟨rs, hfits, by rw [hwal, hne, List.append_nil]⟩
      · exact absurd ⟨rs, tail, hfits, hwal, hne, htail⟩ h
    · rintro ⟨rs, hfits, hwal⟩
      exact ⟨rs, [], hfits, by rw [hwal, List.append_nil], by decide⟩

/-- Three bytes are the end of a file, and no corruption. -/
theorem not_reportsCorruption_three : ¬ ReportsCorruption [1, 0, 0] := by
  rintro ⟨result, hr, h⟩
  have hnone : readRecord [1, 0, 0] = none := rfl
  have hreturns := returns_parseWalHardened [1, 0, 0]
  rw [Framing.records_of_none hnone, Framing.rest_of_none hnone] at hreturns
  obtain rfl := hr.unique hreturns
  obtain ⟨rs, -, hwal⟩ := h.mp rfl
  rcases rs with _ | ⟨r, rs⟩
  · cases hwal
  · have hlen := congrArg List.length hwal
    rw [encodeLog_cons, List.length_append, encodeRecord_length] at hlen
    simp at hlen
    omega

end Dbx4.WalEntries
