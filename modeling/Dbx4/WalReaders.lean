import Mathlib.Data.List.ReduceOption
import Dbx4.Counters
import Dbx4.WalReader

/-!
Three readers of one format: entries of transaction, committed flag, length and data.

`QueryExecutor::recover_from_wal` of `query_executor.cpp` collects the committed transactions,
that of `query_executor_public_api.cpp` counts the committed entries, and
`HardenedWALParser::parse_wal_hardened` returns all entries. The loops leave a cut entry in
different ways; the entries they meet are the same. The counter is an `int`: it is the number
of the committed entries in every file with fewer than 2^31 of them.
-/

namespace Dbx4.WalReaders

open Dbx4.Counters Dbx4.Loops Dbx4.Frames Dbx4.Word32 Dbx4.WalReader

/-! ### `query_executor_public_api.cpp` -/

/-- One turn of the loop, on the stream and the counter. -/
def countTurn (s : Bytes × Int32) : Except Empty (Option (Bytes × Int32)) :=
  match readHeader s.1 with
  | none => .ok none
  | some h =>
    if 65536 < h.dataLen then .ok (some (h.rest, s.2))
    else if 0 < h.dataLen ∧ h.rest.length < h.dataLen.toNat then .ok none
    else
      .ok (some (h.rest.drop h.dataLen.toNat, if h.isCommitted ≠ 0 then s.2 + 1 else s.2))

/-- The number of transactions the reader prints, if there is a file. -/
def recoveredFromWal (wal : Option Bytes) (fuel : ℕ) : Outcome Empty (Option Int32) :=
  match wal with
  | none => .done none
  | some wal => (loop countTurn fuel (wal, 0)).bind fun s => .done (some s.2)

/-! ### `recovery_wal_hardened.cpp` -/

/-- An input stream: what is left of the file, and what `good()` says. -/
structure IStream where
  rest : Bytes
  good : Bool := true

/-- A read that finds too few bytes takes them and leaves a stream that is not good. -/
def IStream.read (s : IStream) (n : ℕ) : Option Bytes × IStream :=
  if s.good ∧ n ≤ s.rest.length then (some (s.rest.take n), { s with rest := s.rest.drop n })
  else (none, { rest := [], good := false })

structure Entry where
  txnId : UInt32
  isCommitted : UInt32
  dataLen : UInt32
  data : Bytes := []
  isValid : Bool := false
  checksum : UInt32 := 0

structure ParseResult where
  entries : List Entry := []
  recoveredEntries : Int32 := 0
  skippedCorrupted : Int32 := 0
  totalBytesRead : Int32 := 0
  hasCorruption : Bool := false

def ParseResult.bytesRead (r : ParseResult) (n : UInt32) : ParseResult :=
  { r with totalBytesRead := r.totalBytesRead + n.toInt32 }

def ParseResult.corrupted (r : ParseResult) : ParseResult :=
  { r with skippedCorrupted := r.skippedCorrupted + 1, hasCorruption := true }

def ParseResult.push (r : ParseResult) (e : Entry) : ParseResult :=
  { r with entries := r.entries ++ [e], recoveredEntries := r.recoveredEntries + 1 }

def calculateChecksum (data : Bytes) : UInt32 :=
  data.foldl (fun checksum b => ((checksum <<< 5) + checksum) ^^^ b.toUInt32) 0

def maxEntrySize : UInt32 := 65536

/-- One turn of the loop. After a `break` or `continue` behind a failed read the stream is not
good, and the next turn leaves the loop. -/
def parseTurn (s : IStream × ParseResult) : Except Empty (Option (IStream × ParseResult)) :=
  let (wal, result) := s
  if ¬ wal.good then .ok none
  else
    match wal.read 4 with
    | (none, wal) => .ok (some (wal, result))
    | (some txnId, wal) =>
      let result := result.bytesRead 4
      match wal.read 4 with
      | (none, wal) => .ok (some (wal, result.corrupted))
      | (some isCommitted, wal) =>
        let result := result.bytesRead 4
        match wal.read 4 with
        | (none, wal) => .ok (some (wal, result.corrupted))
        | (some dataLen, wal) =>
          let result := result.bytesRead 4
          let entry : Entry := ⟨ofLe32 txnId, ofLe32 isCommitted, ofLe32 dataLen, [], false, 0⟩
          if maxEntrySize < entry.dataLen then .ok (some (wal, result.corrupted))
          else if 0 < entry.dataLen then
            match wal.read entry.dataLen.toNat with
            | (none, wal) => .ok (some (wal, result.corrupted))
            | (some data, wal) =>
              let result := result.bytesRead entry.dataLen
              .ok (some (wal, result.push { entry with
                data := data, checksum := calculateChecksum data, isValid := true }))
          else
            .ok (some (wal, result.push { entry with
              checksum := calculateChecksum entry.data, isValid := true }))

def parseWalHardened (walFile : Option Bytes) (fuel : ℕ) : Outcome Empty ParseResult :=
  match walFile with
  | none => .done {}
  | some wal => (loop parseTurn fuel ({ rest := wal }, {})).bind fun s => .done s.2

/-! ### The entries of a file -/

structure Record where
  txnId : UInt32
  isCommitted : UInt32
  data : Bytes

/-- The next header with its data; `none` for a header whose length is above the limit, which
counts alone. -/
def readRecord (wal : Bytes) : Option (ℕ × Option Record) :=
  match readHeader wal with
  | none => none
  | some h =>
    if 65536 < h.dataLen then some (12, none)
    else if h.rest.length < h.dataLen.toNat then none
    else some (12 + h.dataLen.toNat,
      some ⟨h.txnId, h.isCommitted, h.rest.take h.dataLen.toNat⟩)

/-- A header is read when there are twelve bytes. -/
lemma readHeader_eq (wal : Bytes) : readHeader wal =
    if wal.length < 12 then none
    else some ⟨ofLe32 wal, ofLe32 (wal.drop 4), ofLe32 (wal.drop 8), wal.drop 12⟩ := by
  unfold readHeader read32
  by_cases h4 : wal.length < 4
  · simp [h4, show wal.length < 12 by omega]
  by_cases h8 : wal.length < 8
  · simp [h4, show wal.length < 12 by omega, show wal.length - 4 < 4 by omega]
  by_cases h12 : wal.length < 12
  · simp [h4, h12, show ¬ wal.length - 4 < 4 by omega, show wal.length - 8 < 4 by omega]
  · simp [h4, h12, show ¬ wal.length - 4 < 4 by omega, show ¬ wal.length - 8 < 4 by omega]

lemma readHeader_rest {wal : Bytes} {h : Header} (hr : readHeader wal = some h) :
    h.rest = wal.drop 12 := by
  rw [readHeader_eq] at hr
  split_ifs at hr
  exact (Option.some_inj.mp hr) ▸ rfl

lemma readRecord_none {wal : Bytes} (hr : readHeader wal = none) : readRecord wal = none := by
  simp [readRecord, hr]

lemma readRecord_long {wal : Bytes} {h : Header} (hr : readHeader wal = some h)
    (hlong : 65536 < h.dataLen) : readRecord wal = some (12, none) := by
  simp [readRecord, hr, hlong]

lemma readRecord_cut {wal : Bytes} {h : Header} (hr : readHeader wal = some h)
    (hlong : ¬ 65536 < h.dataLen) (hcut : h.rest.length < h.dataLen.toNat) :
    readRecord wal = none := by
  simp [readRecord, hr, hlong, hcut]

lemma readRecord_whole {wal : Bytes} {h : Header} (hr : readHeader wal = some h)
    (hlong : ¬ 65536 < h.dataLen) (hcut : ¬ h.rest.length < h.dataLen.toNat) :
    readRecord wal = some (12 + h.dataLen.toNat,
      some ⟨h.txnId, h.isCommitted, h.rest.take h.dataLen.toNat⟩) := by
  simp only [readRecord, hr, if_neg hlong, if_neg hcut]

/-- **What a read can be**: a header above the limit, or an entry whose data is there. -/
lemma readRecord_eq_some {wal : Bytes} {c : ℕ} {r : Option Record}
    (hr : readRecord wal = some (c, r)) : ∃ h, readHeader wal = some h ∧
      ((65536 < h.dataLen ∧ c = 12 ∧ r = none) ∨
        (¬ 65536 < h.dataLen ∧ h.dataLen.toNat ≤ h.rest.length ∧ c = 12 + h.dataLen.toNat ∧
          r = some ⟨h.txnId, h.isCommitted, h.rest.take h.dataLen.toNat⟩)) := by
  unfold readRecord at hr
  rcases hh : readHeader wal with _ | h
  · simp [hh] at hr
  · simp only [hh] at hr
    split_ifs at hr with hlong hcut <;> cases hr
    · exact ⟨h, rfl, Or.inl ⟨hlong, rfl, rfl⟩⟩
    · exact ⟨h, rfl, Or.inr ⟨hlong, Nat.not_lt.mp hcut, rfl, rfl⟩⟩

/-- There is no read where the header or the data is cut off. -/
lemma readRecord_eq_none {wal : Bytes} (hr : readRecord wal = none) :
    readHeader wal = none ∨ ∃ h, readHeader wal = some h ∧ ¬ 65536 < h.dataLen ∧
      h.rest.length < h.dataLen.toNat := by
  unfold readRecord at hr
  rcases hh : readHeader wal with _ | h
  · exact Or.inl rfl
  · simp only [hh] at hr
    split_ifs at hr with hlong hcut
    exact Or.inr ⟨h, rfl, hlong, hcut⟩

lemma readRecord_bounds {wal : Bytes} {c : ℕ} {r : Option Record}
    (hr : readRecord wal = some (c, r)) : 0 < c ∧ c ≤ wal.length := by
  obtain ⟨h, hh, hcases⟩ := readRecord_eq_some hr
  have hlen := readHeader_length hh
  rcases hcases with ⟨-, rfl, -⟩ | ⟨-, hle, rfl, -⟩ <;> omega

lemma readRecord_entry {wal : Bytes} {c : ℕ} {r : Record}
    (hr : readRecord wal = some (c, some r)) : 12 ≤ c := by
  obtain ⟨h, -, ⟨-, -, hnone⟩ | ⟨-, -, rfl, -⟩⟩ := readRecord_eq_some hr
  · cases hnone
  · omega

def framing : Framing UInt8 (Option Record) where
  read := readRecord
  read_pos h := (readRecord_bounds h).1
  read_le h := (readRecord_bounds h).2

def records (wal : Bytes) : List Record := (framing.records wal).reduceOption

def committed (wal : Bytes) : List Record := (records wal).filter (·.isCommitted ≠ 0)

lemma records_of_none {wal : Bytes} (h : readRecord wal = none) : records wal = [] := by
  rw [records, Framing.records_of_none h]
  rfl

lemma records_of_header {wal : Bytes} {c : ℕ} (h : readRecord wal = some (c, none)) :
    records wal = records (wal.drop c) := by
  rw [records, Framing.records_of_some h, List.reduceOption_cons_of_none]
  rfl

lemma records_of_entry {wal : Bytes} {c : ℕ} {r : Record} (h : readRecord wal = some (c, some r)) :
    records wal = r :: records (wal.drop c) := by
  rw [records, Framing.records_of_some h, List.reduceOption_cons_of_some]
  rfl

/-! ### The loops of the two executors -/

/-- Notes the entries, and passes over the headers without one. -/
def noteEntry {τ : Type} (note : τ → Record → τ) (t : τ) (r : Option Record) : τ :=
  match r with
  | none => t
  | some r => note t r

lemma foldl_noteEntry {τ : Type} (note : τ → Record → τ) (rs : List (Option Record)) (t : τ) :
    rs.foldl (noteEntry note) t = rs.reduceOption.foldl note t := by
  induction rs generalizing t with
  | nil => rfl
  | cons r rs ih =>
    rcases r with _ | r
    · rw [List.foldl_cons, ih, List.reduceOption_cons_of_none]
      rfl
    · rw [List.foldl_cons, ih, List.reduceOption_cons_of_some]
      rfl

def noteId (ids : Std.ExtTreeSet Int32) (r : Record) : Std.ExtTreeSet Int32 :=
  if r.isCommitted ≠ 0 then ids.insert r.txnId.toInt32 else ids

def noteCount (n : Int32) (r : Record) : Int32 := if r.isCommitted ≠ 0 then n + 1 else n

lemma readTurn_eq : readTurn = streamTurn framing (noteEntry noteId) := by
  funext s
  rcases hr : readHeader s.1 with _ | h
  · simp only [readTurn, streamTurn, framing, hr, readRecord_none hr]
  · have hrest := readHeader_rest hr
    simp only [readTurn, streamTurn, framing, hr]
    split_ifs with hlong hcut hflag
    · simp only [readRecord_long hr hlong, hrest, noteEntry]
    · simp only [readRecord_cut hr hlong hcut]
    · simp only [readRecord_whole hr hlong hcut, noteEntry, noteId, if_pos hflag, ← hrest,
        ← List.drop_drop]
    · simp only [readRecord_whole hr hlong hcut, noteEntry, noteId, if_neg hflag, ← hrest,
        ← List.drop_drop]

lemma countTurn_eq : countTurn = streamTurn framing (noteEntry noteCount) := by
  funext s
  rcases hr : readHeader s.1 with _ | h
  · simp only [countTurn, streamTurn, framing, hr, readRecord_none hr]
  · have hrest := readHeader_rest hr
    -- a cut entry has a length above zero
    have hpos : 0 < h.dataLen ∧ h.rest.length < h.dataLen.toNat ↔
        h.rest.length < h.dataLen.toNat := by
      refine ⟨And.right, fun hcut => ⟨?_, hcut⟩⟩
      rw [UInt32.lt_iff_toNat_lt]
      exact Nat.lt_of_le_of_lt (Nat.zero_le _) hcut
    simp only [countTurn, streamTurn, framing, hr, hpos]
    split_ifs with hlong hcut hflag
    · simp only [readRecord_long hr hlong, hrest, noteEntry]
    · simp only [readRecord_cut hr hlong hcut]
    · simp only [readRecord_whole hr hlong hcut, noteEntry, noteCount, if_pos hflag, ← hrest,
        ← List.drop_drop]
    · simp only [readRecord_whole hr hlong hcut, noteEntry, noteCount, if_neg hflag, ← hrest,
        ← List.drop_drop]

/-- The executor finds the transactions of the committed entries. -/
lemma returns_committedTxIds (wal : Bytes) :
    ∃ ids, Returns (recoverFromWal ∅ (some wal)) ids ∧
      ∀ t, t ∈ ids ↔ ∃ r ∈ committed wal, r.txnId.toInt32 = t := by
  have hloop := returns_streamTurn (ε := Empty) framing (noteEntry noteId) wal ∅
  rw [foldl_noteEntry, ← readTurn_eq] at hloop
  refine ⟨_, hloop.bind (returns_const _), fun t => ?_⟩
  have hmem : ∀ (rs : List Record) (ids : Std.ExtTreeSet Int32), t ∈ rs.foldl noteId ids ↔
      t ∈ ids ∨ ∃ r ∈ rs.filter (·.isCommitted ≠ 0), r.txnId.toInt32 = t := by
    intro rs
    induction rs with
    | nil => simp
    | cons r rs ih =>
      intro ids
      rw [List.foldl_cons, ih]
      by_cases hflag : r.isCommitted = 0
      · simp [noteId, hflag]
      · simp [noteId, hflag, Std.ExtTreeSet.mem_insert]
        tauto
  exact (hmem _ _).trans (by simp [committed, records])

/-- The number printed is that of the committed entries, as an `int` counts them. -/
lemma returns_recovered (wal : Bytes) :
    Returns (recoveredFromWal (some wal)) (some (Int32.ofNat (committed wal).length)) := by
  have hloop := returns_streamTurn (ε := Empty) framing (noteEntry noteCount) wal 0
  rw [foldl_noteEntry, ← countTurn_eq] at hloop
  have hnote : noteCount = fun n r => if decide (r.isCommitted ≠ 0) then n + 1 else n := by
    funext n r
    simp only [noteCount, decide_eq_true_eq]
  have hcount : (records wal).foldl noteCount 0 = Int32.ofNat (committed wal).length := by
    rw [hnote, foldl_count, Int32.zero_add, List.countP_eq_length_filter]
    rfl
  refine hloop.bind ?_
  rw [← hcount]
  exact returns_const _

/-! ### Loops over an input stream -/

section Stream

universe u v

variable {α : Type u} {τ : Type v} {F : Framing UInt8 α}
  {body : IStream × τ → Except Empty (Option (IStream × τ))} {note : τ → α → τ}
  {noteRest : τ → Bytes → τ}

/-- The body of a loop reads one record off its stream and notes it. Where there is none, it
notes what is left, and the stream is no longer good. -/
structure ReadsRecords (F : Framing UInt8 α)
    (body : IStream × τ → Except Empty (Option (IStream × τ))) (note : τ → α → τ)
    (noteRest : τ → Bytes → τ) : Prop where
  of_some : ∀ {bs c a}, F.read bs = some (c, a) → ∀ t,
    body ({ rest := bs }, t) = .ok (some ({ rest := bs.drop c }, note t a))
  of_none : ∀ {bs}, F.read bs = none → ∀ t,
    body ({ rest := bs }, t) = .ok (some ({ rest := [], good := false }, noteRest t bs))
  of_bad : ∀ bs t, body ({ rest := bs, good := false }, t) = .ok none

namespace ReadsRecords

/-- **The loop** notes the records of the stream, and then what is left of it. -/
theorem returns (h : ReadsRecords F body note noteRest) (bs : Bytes) (t : τ) :
    Returns (fun n => loop body n ({ rest := bs }, t))
      ({ rest := [], good := false }, noteRest ((F.records bs).foldl note t) (F.rest bs)) := by
  induction hn : bs.length using Nat.strongRecOn generalizing bs t with
  | _ n ih =>
    rcases hr : F.read bs with _ | ⟨c, a⟩
    · rw [Framing.records_of_none hr, Framing.rest_of_none hr]
      exact returns_step (h.of_none hr t) (returns_stop (h.of_bad _ _))
    · have hpos := F.read_pos hr
      have hle := F.read_le hr
      rw [Framing.records_of_some hr, Framing.rest_of_some hr, List.foldl_cons]
      refine returns_step (h.of_some hr t) (ih _ ?_ (bs.drop c) (note t a) rfl)
      rw [List.length_drop]
      omega

/-- A stream that is good stands where a record is looked for. -/
lemma at_of_reaches (h : ReadsRecords F body note noteRest) {bs : Bytes} {t : τ}
    {s : IStream × τ} (hs : Reaches body ({ rest := bs }, t) s) (hgood : s.1.good = true) :
    ∃ p, F.At bs p ∧ s.1 = { rest := bs.drop p } := by
  revert hgood
  refine hs.inv (P := fun s => s.1.good = true → ∃ p, F.At bs p ∧ s.1 = { rest := bs.drop p })
    (fun _ => ⟨0, .start, rfl⟩) ?_
  rintro ⟨stream, t⟩ s' ih hturn hgood'
  obtain ⟨rest, good⟩ := stream
  rcases good with _ | _
  · rw [h.of_bad] at hturn
    cases hturn
  · obtain ⟨p, hat, hstream⟩ := ih rfl
    obtain rfl : rest = bs.drop p := congrArg IStream.rest hstream
    rcases hr : F.read (bs.drop p) with _ | ⟨c, a⟩
    · rw [h.of_none hr] at hturn
      cases hturn
      cases hgood'
    · rw [h.of_some hr] at hturn
      cases hturn
      exact ⟨p + c, hat.next hr, by rw [List.drop_drop]⟩

lemma reaches_of_at (h : ReadsRecords F body note noteRest) {bs : Bytes} {p : ℕ}
    (hp : F.At bs p) (t : τ) :
    ∃ t', Reaches body ({ rest := bs }, t) ({ rest := bs.drop p }, t') := by
  induction hp with
  | start => exact ⟨t, .start⟩
  | @next p c a _ hr ih =>
    obtain ⟨t', hreaches⟩ := ih
    refine ⟨note t' a, hreaches.turn ?_⟩
    rw [h.of_some hr, List.drop_drop]

end ReadsRecords

end Stream

/-! ### The loop of the hardened parser -/

lemma read_of_le {bs : Bytes} {n : ℕ} (h : n ≤ bs.length) :
    IStream.read { rest := bs } n = (some (bs.take n), { rest := bs.drop n }) := by
  simp [IStream.read, h]

lemma read_of_lt {bs : Bytes} {n : ℕ} (h : bs.length < n) :
    IStream.read { rest := bs } n = (none, { rest := [], good := false }) := by
  simp [IStream.read, Nat.not_le.mpr h]

lemma ofLe32_take {bs : Bytes} (h : 4 ≤ bs.length) : ofLe32 (bs.take 4) = ofLe32 bs := by
  have hlen : 4 ≤ (bs.take 4).length := by rw [List.length_take]; omega
  rw [← ofLe32_append hlen (bs.drop 4), List.take_append_drop]

/-- The entry the parser makes of a record. -/
def Entry.ofRecord (r : Record) : Entry :=
  ⟨r.txnId, r.isCommitted, UInt32.ofNat r.data.length, r.data, true, calculateChecksum r.data⟩

/-- The bytes of one word. -/
lemma read_word {bs : Bytes} {k : ℕ} (h : k + 4 ≤ bs.length) :
    IStream.read { rest := bs.drop k } 4 =
      (some ((bs.drop k).take 4), { rest := bs.drop (k + 4) }) ∧
    ofLe32 ((bs.drop k).take 4) = ofLe32 (bs.drop k) := by
  have hlen : 4 ≤ (bs.drop k).length := by rw [List.length_drop]; omega
  exact ⟨by rw [read_of_le hlen, List.drop_drop], ofLe32_take hlen⟩

/-- The three words of a whole header. -/
lemma read_header {wal : Bytes} {h : Header} (hr : readHeader wal = some h) :
    ∃ txnId isCommitted dataLen,
      IStream.read { rest := wal } 4 = (some txnId, { rest := wal.drop 4 }) ∧
      IStream.read { rest := wal.drop 4 } 4 = (some isCommitted, { rest := wal.drop 8 }) ∧
      IStream.read { rest := wal.drop 8 } 4 = (some dataLen, { rest := h.rest }) ∧
      ofLe32 txnId = h.txnId ∧ ofLe32 isCommitted = h.isCommitted ∧
      ofLe32 dataLen = h.dataLen := by
  rw [readHeader_eq] at hr
  split_ifs at hr with hlen
  obtain rfl := Option.some_inj.mp hr
  obtain ⟨h0, hw0⟩ := read_word (show 0 + 4 ≤ wal.length by omega)
  obtain ⟨h1, hw1⟩ := read_word (show 4 + 4 ≤ wal.length by omega)
  obtain ⟨h2, hw2⟩ := read_word (show 8 + 4 ≤ wal.length by omega)
  exact ⟨_, _, _, h0, h1, h2, hw0, hw1, hw2⟩

/-- Without a whole header, the first word that is cut off leaves a stream that is not good. -/
lemma read_cut {wal : Bytes} (hr : readHeader wal = none) :
    (wal.length < 4 ∧ IStream.read { rest := wal } 4 = (none, { rest := [], good := false })) ∨
    (¬ wal.length < 4 ∧ wal.length < 8 ∧ ∃ txnId,
      IStream.read { rest := wal } 4 = (some txnId, { rest := wal.drop 4 }) ∧
      IStream.read { rest := wal.drop 4 } 4 = (none, { rest := [], good := false })) ∨
    (¬ wal.length < 4 ∧ ¬ wal.length < 8 ∧ wal.length < 12 ∧ ∃ txnId isCommitted,
      IStream.read { rest := wal } 4 = (some txnId, { rest := wal.drop 4 }) ∧
      IStream.read { rest := wal.drop 4 } 4 = (some isCommitted, { rest := wal.drop 8 }) ∧
      IStream.read { rest := wal.drop 8 } 4 = (none, { rest := [], good := false })) := by
  have hlen : wal.length < 12 := by
    rw [readHeader_eq] at hr
    split_ifs at hr with hlen
    exact hlen
  have hcut : ∀ k, wal.length < k + 4 → IStream.read { rest := wal.drop k } 4 =
      (none, { rest := [], good := false }) := by
    intro k hk
    exact read_of_lt (by rw [List.length_drop]; omega)
  by_cases h4 : wal.length < 4
  · exact Or.inl ⟨h4, hcut 0 h4⟩
  have h0 := (read_word (show 0 + 4 ≤ wal.length by omega)).1
  by_cases h8 : wal.length < 8
  · exact Or.inr (Or.inl ⟨h4, h8, _, h0, hcut 4 h8⟩)
  · have h1 := (read_word (show 4 + 4 ≤ wal.length by omega)).1
    exact Or.inr (Or.inr ⟨h4, h8, hlen, _, _, h0, h1, hcut 8 hlen⟩)

/-- A record is noted: a header without an entry counts as corrupted. -/
def ParseResult.note (result : ParseResult) : Option Record → ParseResult
  | none => (((result.bytesRead 4).bytesRead 4).bytesRead 4).corrupted
  | some r => ((((result.bytesRead 4).bytesRead 4).bytesRead 4).bytesRead
      (UInt32.ofNat r.data.length)).push (Entry.ofRecord r)

/-- What the last turn makes of the bytes that hold no record. Fewer than four are passed over
in silence. -/
def ParseResult.noteRest (result : ParseResult) (rest : Bytes) : ParseResult :=
  if rest.length < 4 then result
  else if rest.length < 8 then (result.bytesRead 4).corrupted
  else if rest.length < 12 then ((result.bytesRead 4).bytesRead 4).corrupted
  else (((result.bytesRead 4).bytesRead 4).bytesRead 4).corrupted

/-- Without a whole header the stream goes bad. -/
lemma parseTurn_none {wal : Bytes} (hr : readHeader wal = none) (result : ParseResult) :
    parseTurn ({ rest := wal }, result) =
      .ok (some ({ rest := [], good := false }, result.noteRest wal)) := by
  unfold ParseResult.noteRest
  rcases read_cut hr with ⟨h4, h0⟩ | ⟨h4, h8, _, h0, h1⟩ | ⟨h4, h8, h12, _, _, h0, h1, h2⟩
  · simp only [parseTurn, h0, if_pos h4, not_true, if_false]
  · simp only [parseTurn, h0, h1, if_neg h4, if_pos h8, not_true, if_false]
  · simp only [parseTurn, h0, h1, h2, if_neg h4, if_neg h8, if_pos h12, not_true, if_false]

/-- What the parser does behind a whole header. -/
lemma parseTurn_header {wal : Bytes} {h : Header} (hr : readHeader wal = some h)
    (result : ParseResult) :
    parseTurn ({ rest := wal }, result) =
      let result := ((result.bytesRead 4).bytesRead 4).bytesRead 4
      if 65536 < h.dataLen then .ok (some ({ rest := h.rest }, result.corrupted))
      else if 0 < h.dataLen then
        if h.rest.length < h.dataLen.toNat then
          .ok (some ({ rest := [], good := false }, result.corrupted))
        else
          .ok (some ({ rest := h.rest.drop h.dataLen.toNat },
            (result.bytesRead h.dataLen).push ⟨h.txnId, h.isCommitted, h.dataLen,
              h.rest.take h.dataLen.toNat, true,
              calculateChecksum (h.rest.take h.dataLen.toNat)⟩))
      else
        .ok (some ({ rest := h.rest },
          result.push ⟨h.txnId, h.isCommitted, h.dataLen, [], true, calculateChecksum []⟩)) := by
  obtain ⟨_, _, _, h0, h1, h2, hw0, hw1, hw2⟩ := read_header hr
  simp only [parseTurn, h0, h1, h2, hw0, hw1, hw2, maxEntrySize, not_true, if_false]
  split_ifs with hlong hpos hcut
  · rfl
  · simp only [read_of_lt hcut]
  · simp only [read_of_le (Nat.not_lt.mp hcut)]
  · rfl

/-- **One turn** on a record notes it. -/
lemma parseTurn_of_some {wal : Bytes} {c : ℕ} {r : Option Record}
    (hr : readRecord wal = some (c, r)) (result : ParseResult) :
    parseTurn ({ rest := wal }, result) = .ok (some ({ rest := wal.drop c }, result.note r)) := by
  obtain ⟨h, hh, hcases⟩ := readRecord_eq_some hr
  have hrest := readHeader_rest hh
  rw [parseTurn_header hh]
  rcases hcases with ⟨hlong, rfl, rfl⟩ | ⟨hlong, hle, rfl, rfl⟩
  · simp only [if_pos hlong, hrest, ParseResult.note]
  · have hlen : (h.rest.take h.dataLen.toNat).length = h.dataLen.toNat := by
      rw [List.length_take, Nat.min_eq_left hle]
    simp only [if_neg hlong, if_neg (Nat.not_lt.mpr hle), ParseResult.note, Entry.ofRecord, hlen,
      UInt32.ofNat_toNat, ← List.drop_drop, ← hrest]
    by_cases hpos : 0 < h.dataLen
    · rw [if_pos hpos]
    · -- an entry without data
      have hzero : h.dataLen = 0 := by
        apply UInt32.toNat_inj.mp
        have := mt UInt32.lt_iff_toNat_lt.mpr hpos
        simp at this ⊢
        omega
      rw [if_neg hpos, hzero]
      simp [ParseResult.bytesRead]

/-- **One turn** on what holds no record ends the stream. -/
lemma parseTurn_of_none {wal : Bytes} (hr : readRecord wal = none) (result : ParseResult) :
    parseTurn ({ rest := wal }, result) =
      .ok (some ({ rest := [], good := false }, result.noteRest wal)) := by
  rcases readRecord_eq_none hr with hh | ⟨h, hh, hlong, hcut⟩
  · exact parseTurn_none hh result
  · have hlen := readHeader_length hh
    have hpos : 0 < h.dataLen := UInt32.lt_iff_toNat_lt.mpr (by simp; omega)
    have hnote : result.noteRest wal =
        (((result.bytesRead 4).bytesRead 4).bytesRead 4).corrupted := by
      rw [ParseResult.noteRest, if_neg (by omega), if_neg (by omega), if_neg (by omega)]
    rw [parseTurn_header hh, hnote]
    simp only [if_neg hlong, if_pos hpos, if_pos hcut]

lemma readsRecords_parseTurn :
    ReadsRecords framing parseTurn ParseResult.note ParseResult.noteRest where
  of_some := parseTurn_of_some
  of_none := parseTurn_of_none
  of_bad bs result := by simp [parseTurn]

/-- **The parser** notes the records of the file, and then what is left of it. -/
lemma returns_parseWalHardened (wal : Bytes) :
    Returns (parseWalHardened (some wal))
      (((framing.records wal).foldl ParseResult.note {}).noteRest (framing.rest wal)) :=
  (readsRecords_parseTurn.returns wal {}).bind (returns_const _)

section Fields

variable (result : ParseResult) (n : UInt32) (e : Entry)

@[simp] lemma bytesRead_entries : (result.bytesRead n).entries = result.entries := rfl
@[simp] lemma bytesRead_recovered :
    (result.bytesRead n).recoveredEntries = result.recoveredEntries := rfl
@[simp] lemma bytesRead_skipped :
    (result.bytesRead n).skippedCorrupted = result.skippedCorrupted := rfl
@[simp] lemma bytesRead_hasCorruption :
    (result.bytesRead n).hasCorruption = result.hasCorruption := rfl
@[simp] lemma corrupted_entries : result.corrupted.entries = result.entries := rfl
@[simp] lemma corrupted_recovered :
    result.corrupted.recoveredEntries = result.recoveredEntries := rfl
@[simp] lemma corrupted_skipped :
    result.corrupted.skippedCorrupted = result.skippedCorrupted + 1 := rfl
@[simp] lemma corrupted_hasCorruption : result.corrupted.hasCorruption = true := rfl
@[simp] lemma push_entries : (result.push e).entries = result.entries ++ [e] := rfl
@[simp] lemma push_recovered :
    (result.push e).recoveredEntries = result.recoveredEntries + 1 := rfl
@[simp] lemma push_skipped : (result.push e).skippedCorrupted = result.skippedCorrupted := rfl
@[simp] lemma push_hasCorruption : (result.push e).hasCorruption = result.hasCorruption := rfl

end Fields

/-! What is noted of records: their entries, and their numbers. -/

lemma foldl_note_entries (rs : List (Option Record)) (result : ParseResult) :
    (rs.foldl ParseResult.note result).entries =
      result.entries ++ rs.reduceOption.map Entry.ofRecord := by
  induction rs generalizing result with
  | nil => simp
  | cons r rs ih =>
    rw [List.foldl_cons, ih]
    cases r <;> simp [ParseResult.note]

lemma foldl_note_recovered (rs : List (Option Record)) (result : ParseResult) :
    (rs.foldl ParseResult.note result).recoveredEntries =
      result.recoveredEntries + Int32.ofNat rs.reduceOption.length := by
  induction rs generalizing result with
  | nil => simp
  | cons r rs ih =>
    rw [List.foldl_cons, ih]
    rcases r with _ | r
    · simp [ParseResult.note]
    · rw [List.reduceOption_cons_of_some, List.length_cons, ← add_one_add_ofNat]
      simp [ParseResult.note]

lemma foldl_note_skipped (rs : List (Option Record)) (result : ParseResult) :
    (rs.foldl ParseResult.note result).skippedCorrupted =
      result.skippedCorrupted + Int32.ofNat (rs.countP Option.isNone) := by
  induction rs generalizing result with
  | nil => simp
  | cons r rs ih =>
    rw [List.foldl_cons, ih]
    rcases r with _ | r
    · rw [List.countP_cons_of_pos rfl, ← add_one_add_ofNat]
      simp [ParseResult.note]
    · simp [ParseResult.note]

lemma foldl_note_hasCorruption (rs : List (Option Record)) (result : ParseResult) :
    (rs.foldl ParseResult.note result).hasCorruption =
      (result.hasCorruption || rs.any Option.isNone) := by
  induction rs generalizing result with
  | nil => simp
  | cons r rs ih =>
    rw [List.foldl_cons, ih]
    cases r <;> simp [ParseResult.note]

lemma entries_noteRest (result : ParseResult) (rest : Bytes) :
    (result.noteRest rest).entries = result.entries := by
  unfold ParseResult.noteRest
  split_ifs <;> simp

lemma returns_entries (wal : Bytes) :
    ∃ result, Returns (parseWalHardened (some wal)) result ∧
      result.entries = (records wal).map Entry.ofRecord := by
  refine ⟨_, returns_parseWalHardened wal, ?_⟩
  rw [entries_noteRest, foldl_note_entries]
  rfl

/-! ### The readers side by side -/

/-- The committed entries the hardened parser returns. -/
def ParseResult.committed (result : ParseResult) : List Entry :=
  result.entries.filter (·.isCommitted ≠ 0)

/-- The readers agree on a file: one finds the transactions of the committed entries of the
parser, the other counts them. -/
def Agree (wal : Bytes) : Prop :=
  ∃ ids n result, Returns (recoverFromWal ∅ (some wal)) ids ∧
    Returns (recoveredFromWal (some wal)) (some n) ∧
    Returns (parseWalHardened (some wal)) result ∧
    (∀ t, t ∈ ids ↔ ∃ e ∈ result.committed, e.txnId.toInt32 = t) ∧
    n.toInt = result.committed.length

lemma committed_entries {result : ParseResult} {wal : Bytes}
    (h : result.entries = (records wal).map Entry.ofRecord) :
    result.committed = (committed wal).map Entry.ofRecord := by
  rw [ParseResult.committed, h, List.filter_map]
  rfl

/-- The readers find the same entries; only the counter can go wrong. -/
lemma agree_iff_counted (wal : Bytes) : Agree wal ↔
    (Int32.ofNat (committed wal).length).toInt = (committed wal).length := by
  obtain ⟨ids, hids, hmem⟩ := returns_committedTxIds wal
  have hcount := returns_recovered wal
  obtain ⟨result, hresult, hentries⟩ := returns_entries wal
  have hcommitted : result.committed.length = (committed wal).length := by
    rw [committed_entries hentries, List.length_map]
  refine ⟨?_, fun h => ⟨ids, _, result, hids, hcount, hresult, fun t => ?_, ?_⟩⟩
  · rintro ⟨_, n, result', -, hn, hr, -, hlen⟩
    obtain rfl := Option.some_inj.mp (hn.unique hcount)
    obtain rfl := hr.unique hresult
    rwa [hcommitted] at hlen
  · rw [hmem, committed_entries hentries]
    simp [Entry.ofRecord]
  · rwa [hcommitted]

/-- **The three readers agree exactly on the files with fewer than 2^31 committed entries.** -/
theorem agree_iff (wal : Bytes) : Agree wal ↔ (committed wal).length < 2 ^ 31 :=
  (agree_iff_counted wal).trans (toInt_ofNat_iff _)

/-- The entries of a file take twelve bytes each. -/
lemma records_length (wal : Bytes) : 12 * (records wal).length ≤ wal.length := by
  induction hn : wal.length using Nat.strongRecOn generalizing wal with
  | _ n ih =>
    rcases hr : readRecord wal with _ | ⟨c, r⟩
    · simp [records_of_none hr]
    · obtain ⟨hpos, hle⟩ := readRecord_bounds hr
      have hrest := ih (wal.drop c).length (by rw [List.length_drop]; omega) (wal.drop c) rfl
      rw [List.length_drop] at hrest
      rcases r with _ | r
      · rw [records_of_header hr]
        omega
      · have hc : 12 ≤ c := readRecord_entry hr
        rw [records_of_entry hr, List.length_cons]
        omega

/-- On every file of less than 24 GiB the readers agree. -/
theorem agree_of_short {wal : Bytes} (h : wal.length < 12 * 2 ^ 31) : Agree wal := by
  have hrecords := records_length wal
  have hcommitted : (committed wal).length ≤ (records wal).length := List.length_filter_le _ _
  exact (agree_iff_counted wal).mpr ((toInt_ofNat_iff _).mpr (by omega))

/-- A file of `n` committed entries without data. -/
def committedFile (n : ℕ) : Bytes := (List.replicate n (le32 1 ++ le32 1 ++ le32 0)).flatten

lemma committed_committedFile (n : ℕ) : (committed (committedFile n)).length = n := by
  induction n with
  | zero =>
    have hnil : records (committedFile 0) = [] := records_of_none (readRecord_none rfl)
    rw [committed, hnil]
    rfl
  | succ n ih =>
    have hfile : committedFile (n + 1) =
        le32 1 ++ (le32 1 ++ (le32 0 ++ committedFile n)) := by
      simp [committedFile, List.replicate_succ]
    have hheader : readHeader (committedFile (n + 1)) = some ⟨1, 1, 0, committedFile n⟩ := by
      rw [hfile]
      simp [readHeader]
    have hentry := readRecord_whole hheader (show ¬ (65536 : UInt32) < 0 by decide) (by simp)
    have hrest := readHeader_rest hheader
    have hrecords : records (committedFile (n + 1)) = ⟨1, 1, []⟩ :: records (committedFile n) := by
      rw [records_of_entry hentry]
      exact congrArg _ (congrArg records hrest.symm)
    rw [committed, hrecords, List.filter_cons_of_pos (by decide), List.length_cons, ← committed,
      ih]

/-- In a file of 2^31 committed entries the counter has run over. -/
theorem not_agree_overrun : ¬ Agree (committedFile (2 ^ 31)) := by
  rw [agree_iff_counted, committed_committedFile, toInt_ofNat_iff]
  exact lt_irrefl _

end Dbx4.WalReaders
