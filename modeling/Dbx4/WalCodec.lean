import Dbx4.WalReaders

/-!
The codec of `wal_codec_robust.cpp`: transaction, length and data.

A read fills an entry that the caller brings along. It touches the data only when the length
is not zero, so an entry without data leaves there what an earlier read has put.
-/

namespace Dbx4.WalCodec

open Dbx4.Word32
open Dbx4.WalReaders (IStream read_of_le read_of_lt)

def maxEntrySize : UInt32 := 65536

structure WALEntry where
  txnId : UInt32
  dataLen : UInt32
  data : Bytes := []

/-- The file behind what is written. -/
def writeEntry (file : Bytes) (txnId : UInt32) (data : Bytes) : Bool × Bytes :=
  if maxEntrySize.toNat < data.length then (false, file)
  else
    let len := UInt32.ofNat data.length
    let file := file ++ le32 txnId ++ le32 len
    (true, if 0 < len then file ++ data else file)

/-- `std::vector::resize`. -/
def resize (data : Bytes) (n : ℕ) : Bytes := data.take n ++ List.replicate (n - data.length) 0

def readEntry (file : IStream) (entry : WALEntry) : Bool × IStream × WALEntry :=
  match file.read 4 with
  | (none, file) => (false, file, entry)
  | (some txnId, file) =>
    match file.read 4 with
    | (none, file) => (false, file, entry)
    | (some dataLen, file) =>
      let dataLen := ofLe32 dataLen
      if maxEntrySize < dataLen then (false, file, entry)
      else
        let entry := { entry with txnId := ofLe32 txnId, dataLen := dataLen }
        if 0 < dataLen then
          match file.read dataLen.toNat with
          -- the bytes that are there have been read into the data
          | (none, file') => (false, file', { entry with
              data := file.rest ++ (resize entry.data dataLen.toNat).drop file.rest.length })
          | (some data, file) => (true, file, { entry with data := data })
        else (true, file, entry)

/-- The file of the entries, written one after another. -/
def written (pairs : List (UInt32 × Bytes)) : Bytes :=
  pairs.foldl (fun file pair => (writeEntry file pair.1 pair.2).2) []

/-- Reading again and again into one entry gives the pairs in their order, and then nothing. -/
def ReadsBack : IStream → WALEntry → List (UInt32 × Bytes) → Prop
  | file, entry, [] => (readEntry file entry).1 = false
  | file, entry, pair :: pairs =>
    let (found, file', entry') := readEntry file entry
    found = true ∧ entry'.txnId = pair.1 ∧ entry'.dataLen.toNat = pair.2.length ∧
      entry'.data = pair.2 ∧ ReadsBack file' entry' pairs

/-- Before a pair without data there are only such, and nothing in the caller's entry. -/
def NoneStale (entry : WALEntry) (pairs : List (UInt32 × Bytes)) : Prop :=
  ∀ pre txnId post, pairs = pre ++ (txnId, []) :: post →
    entry.data = [] ∧ ∀ pair ∈ pre, pair.2 = []

/-! ### One entry -/

/-- What `writeEntry` adds to the file. -/
def encodePair (pair : UInt32 × Bytes) : Bytes :=
  le32 pair.1 ++ (le32 (UInt32.ofNat pair.2.length) ++ pair.2)

/-- The data is within the limit. -/
def Fits (pair : UInt32 × Bytes) : Prop := pair.2.length ≤ 65536

lemma toNat_length {pair : UInt32 × Bytes} (h : Fits pair) :
    (UInt32.ofNat pair.2.length).toNat = pair.2.length := by
  have hle : pair.2.length ≤ 65536 := h
  exact UInt32.toNat_ofNat_of_lt' (Nat.lt_of_le_of_lt hle (by decide))

/-- There is data where the length is not zero. -/
lemma length_pos_iff {pair : UInt32 × Bytes} (h : Fits pair) :
    0 < UInt32.ofNat pair.2.length ↔ pair.2 ≠ [] := by
  rw [UInt32.lt_iff_toNat_lt, toNat_length h, ← List.length_pos_iff]
  rfl

lemma writeEntry_eq {pair : UInt32 × Bytes} (h : Fits pair) (file : Bytes) :
    writeEntry file pair.1 pair.2 = (true, file ++ encodePair pair) := by
  have hlong : ¬ maxEntrySize.toNat < pair.2.length := Nat.not_lt.mpr h
  rw [writeEntry, if_neg hlong, encodePair]
  simp only [length_pos_iff h]
  by_cases hdata : pair.2 = []
  · simp [hdata]
  · simp [hdata]

lemma written_eq {pairs : List (UInt32 × Bytes)} (h : ∀ pair ∈ pairs, Fits pair) :
    written pairs = pairs.flatMap encodePair := by
  have hfold : ∀ file, pairs.foldl (fun file pair => (writeEntry file pair.1 pair.2).2) file =
      file ++ pairs.flatMap encodePair := by
    induction pairs with
    | nil => exact fun file => (List.append_nil file).symm
    | cons pair pairs ih =>
      intro file
      rw [List.forall_mem_cons] at h
      rw [List.foldl_cons, ih h.2, writeEntry_eq h.1, List.flatMap_cons, List.append_assoc]
  exact hfold []

lemma read_append {bs : Bytes} {n : ℕ} (h : bs.length = n) (rest : Bytes) :
    IStream.read { rest := bs ++ rest } n = (some bs, { rest := rest }) := by
  rw [read_of_le (by rw [List.length_append]; omega), List.take_left' h, List.drop_left' h]

/-- **One entry** is read back, but for data that a read without data leaves standing. -/
lemma readEntry_encodePair {pair : UInt32 × Bytes} (h : Fits pair) (rest : Bytes)
    (entry : WALEntry) :
    readEntry { rest := encodePair pair ++ rest } entry =
      (true, { rest := rest }, ⟨pair.1, UInt32.ofNat pair.2.length,
        if pair.2 = [] then entry.data else pair.2⟩) := by
  have hlong : ¬ maxEntrySize < UInt32.ofNat pair.2.length := by
    rw [UInt32.lt_iff_toNat_lt, toNat_length h]
    exact Nat.not_lt.mpr h
  have hword : ∀ x, ofLe32 (le32 x) = x := by
    intro x
    have := ofLe32_le32 x []
    rwa [List.append_nil] at this
  rw [encodePair, List.append_assoc, List.append_assoc, readEntry, read_append (le32_length _)]
  simp only [read_append (le32_length _), hword, if_neg hlong, length_pos_iff h]
  by_cases hdata : pair.2 = []
  · simp [hdata]
  · simp only [hdata, ne_eq, not_false_eq_true, if_true, if_false,
      read_append (toNat_length h).symm]

lemma readEntry_nil (entry : WALEntry) : (readEntry { rest := [] } entry).1 = false := by
  rw [readEntry, read_of_lt (by decide)]

/-! ### A file of entries -/

lemma noneStale_cons {entry : WALEntry} {pair : UInt32 × Bytes} {pairs : List (UInt32 × Bytes)}
    (len : UInt32) :
    NoneStale entry (pair :: pairs) ↔ (pair.2 = [] → entry.data = []) ∧
      NoneStale ⟨pair.1, len, if pair.2 = [] then entry.data else pair.2⟩ pairs := by
  constructor
  · intro h
    refine ⟨fun hdata => ?_, fun pre txnId post he => ?_⟩
    · refine (h [] pair.1 pairs ?_).1
      rw [← hdata]
      rfl
    · obtain ⟨hentry, hpre⟩ := h (pair :: pre) txnId post (by rw [he, List.cons_append])
      rw [List.forall_mem_cons] at hpre
      exact ⟨(if_pos hpre.1).trans hentry, hpre.2⟩
  · rintro ⟨hfirst, hrest⟩ pre txnId post he
    rcases pre with _ | ⟨first, pre⟩
    · cases he
      exact ⟨hfirst rfl, List.forall_mem_nil _⟩
    · obtain ⟨rfl, rfl⟩ := List.cons.inj he
      obtain ⟨hentry, hpre⟩ := hrest pre txnId post rfl
      by_cases hdata : pair.2 = []
      · exact ⟨hfirst hdata, List.forall_mem_cons.mpr ⟨hdata, hpre⟩⟩
      · exact absurd ((if_neg hdata).symm.trans hentry) hdata

/-- **When what was written is read back**: when no entry without data is read into one that
holds data. -/
theorem readsBack_iff (entry : WALEntry) {pairs : List (UInt32 × Bytes)}
    (h : ∀ pair ∈ pairs, Fits pair) :
    ReadsBack { rest := written pairs } entry pairs ↔ NoneStale entry pairs := by
  rw [written_eq h]
  induction pairs generalizing entry with
  | nil =>
    refine iff_of_true (readEntry_nil entry) fun pre txnId post he => ?_
    simp at he
  | cons pair pairs ih =>
    rw [List.forall_mem_cons] at h
    rw [List.flatMap_cons, ReadsBack, readEntry_encodePair h.1,
      noneStale_cons (UInt32.ofNat pair.2.length)]
    simp only [toNat_length h.1, true_and, ih _ h.2]
    refine and_congr_left fun _ => ?_
    by_cases hdata : pair.2 = []
    · simp [hdata]
    · simp [hdata]

theorem readsBack_two : ReadsBack { rest := written [(1, []), (2, [5])] } ⟨0, 0, []⟩
    [(1, []), (2, [5])] := by
  refine (readsBack_iff ⟨0, 0, []⟩ (by simp [Fits])).mpr fun pre txnId post he => ⟨rfl, ?_⟩
  rcases pre with _ | ⟨first, _ | ⟨second, pre⟩⟩
  · exact List.forall_mem_nil _
  · cases he
  · simp at he

/-- An entry without data, behind one with data, is read with the data of the other. -/
theorem not_readsBack_stale : ¬ ReadsBack { rest := written [(1, [5]), (2, [])] } ⟨0, 0, []⟩
    [(1, [5]), (2, [])] := by
  rintro ⟨-, -, -, -, -, -, -, hdata, -⟩
  revert hdata
  decide

end Dbx4.WalCodec
