import Mathlib.Data.Finset.Card
import Dbx4.Maps
import Dbx4.WalEntries

/-!
The verifier of `transaction_integrity_e2e.cpp`.

It reads the log into a map from transactions to their last complete entry, and then works
out from the map alone whether the ACID properties hold. A damaged entry never gets into the
map, so it leaves no trace in the answer.
-/

namespace Dbx4.WalIntegrity

open Std Dbx4.Counters Dbx4.Maps Dbx4.Loops Dbx4.Frames Dbx4.Word32 Dbx4.WalReader
open Dbx4.Runs Dbx4.WalReaders Dbx4.WalEntries

structure Transaction where
  txnId : UInt32
  isCommitted : UInt32
  writes : Bytes := []
  writeCount : UInt32
  isValid : Bool

structure IntegrityResult where
  totalTxns : Int32 := 0
  committedTxns : Int32 := 0
  uncommittedTxns : Int32 := 0
  writeOperations : Int32 := 0
  allValid : Bool := true
  acidPropertiesHold : Bool := true

abbrev TxnMap := ExtTreeMap UInt32 Transaction

/-- One turn of the reading loop. -/
def verifyTurn (s : IStream × TxnMap × IntegrityResult) :
    Except Empty (Option (IStream × TxnMap × IntegrityResult)) :=
  let (wal, txnMap, result) := s
  if ¬ wal.good then .ok none
  else
    match wal.read 4 with
    | (none, wal) => .ok (some (wal, txnMap, result))
    | (some txnId, wal) =>
      match wal.read 4 with
      | (none, wal) => .ok (some (wal, txnMap, result))
      | (some isCommitted, wal) =>
        match wal.read 4 with
        | (none, wal) => .ok (some (wal, txnMap, result))
        | (some dataLen, wal) =>
          let txn : Transaction := ⟨ofLe32 txnId, ofLe32 isCommitted, [], ofLe32 dataLen, true⟩
          if 65536 < txn.writeCount then .ok (some (wal, txnMap, result))
          else if 0 < txn.writeCount then
            match wal.read txn.writeCount.toNat with
            -- the transaction is marked invalid, and dropped
            | (none, wal) => .ok (some (wal, txnMap, { result with allValid := false }))
            | (some writes, wal) =>
              .ok (some (wal, txnMap.insert txn.txnId { txn with writes := writes },
                { result with writeOperations := result.writeOperations + 1 }))
          else .ok (some (wal, txnMap.insert txn.txnId txn, result))

/-- The turn of the second loop on a transaction of the map. -/
def analyze (result : IntegrityResult) (txn : Transaction) : IntegrityResult :=
  let result := { result with totalTxns := result.totalTxns + 1 }
  if ¬ txn.isValid then { result with acidPropertiesHold := false }
  else if txn.isCommitted ≠ 0 then { result with committedTxns := result.committedTxns + 1 }
  else { result with uncommittedTxns := result.uncommittedTxns + 1 }

def acid (txnMap : TxnMap) (result : IntegrityResult) : Bool :=
  let atomicity := 0 < result.writeOperations && 0 < result.committedTxns
  let consistency := result.totalTxns == result.committedTxns + result.uncommittedTxns
  let isolation := UInt64.ofNat txnMap.size == result.totalTxns.toInt64.toUInt64
  let durability : Bool := 0 ≤ result.committedTxns
  atomicity && consistency && isolation && durability

/-- What follows the reading loop. -/
def finish (txnMap : TxnMap) (result : IntegrityResult) : IntegrityResult :=
  let result := txnMap.foldl (fun result _ txn => analyze result txn) result
  { result with acidPropertiesHold := acid txnMap result }

def verifyTransactionIntegrity (walFile : Option Bytes) (fuel : ℕ) :
    Outcome Empty IntegrityResult :=
  match walFile with
  | none => .done { allValid := false }
  | some wal => (loop verifyTurn fuel ({ rest := wal }, ∅, {})).bind fun s =>
      .done (finish s.2.1 s.2.2)

/-! ### The reading loop -/

def Transaction.ofRecord (r : Record) : Transaction :=
  ⟨r.txnId, r.isCommitted, r.data, UInt32.ofNat r.data.length, true⟩

/-- A complete entry replaces what the map has of its transaction. -/
def noteRecord (t : TxnMap × IntegrityResult) (r : Record) : TxnMap × IntegrityResult :=
  (t.1.insert r.txnId (.ofRecord r),
    if r.data = [] then t.2 else { t.2 with writeOperations := t.2.writeOperations + 1 })

/-- Behind a whole header, what is left over is a truncated entry. -/
def noteRest (t : TxnMap × IntegrityResult) (rest : Bytes) : TxnMap × IntegrityResult :=
  if rest.length < 12 then t else (t.1, { t.2 with allValid := false })

/-- The words of a header, one after another. -/
lemma verifyTurn_header {wal : Bytes} {h : Header} (hr : readHeader wal = some h)
    (t : TxnMap × IntegrityResult) :
    verifyTurn ({ rest := wal }, t) =
      if 65536 < h.dataLen then .ok (some ({ rest := h.rest }, t))
      else if 0 < h.dataLen then
        if h.rest.length < h.dataLen.toNat then
          .ok (some ({ rest := [], good := false }, t.1, { t.2 with allValid := false }))
        else
          .ok (some ({ rest := h.rest.drop h.dataLen.toNat },
            t.1.insert h.txnId ⟨h.txnId, h.isCommitted, h.rest.take h.dataLen.toNat, h.dataLen,
              true⟩,
            { t.2 with writeOperations := t.2.writeOperations + 1 }))
      else
        .ok (some ({ rest := h.rest },
          t.1.insert h.txnId ⟨h.txnId, h.isCommitted, [], h.dataLen, true⟩, t.2)) := by
  obtain ⟨_, _, _, h0, h1, h2, hw0, hw1, hw2⟩ := read_header hr
  simp only [verifyTurn, h0, h1, h2, hw0, hw1, hw2, not_true, if_false]
  split_ifs with hlong hpos hcut
  · rfl
  · simp only [read_of_lt hcut]
  · simp only [read_of_le (Nat.not_lt.mp hcut)]
  · rfl

/-- Without a whole header the stream goes bad, and nothing else changes. -/
lemma verifyTurn_none {wal : Bytes} (hr : readHeader wal = none) (t : TxnMap × IntegrityResult) :
    verifyTurn ({ rest := wal }, t) = .ok (some ({ rest := [], good := false }, t)) := by
  rcases read_cut hr with ⟨-, h0⟩ | ⟨-, -, _, h0, h1⟩ | ⟨-, -, -, _, _, h0, h1, h2⟩
  · simp only [verifyTurn, h0, not_true, if_false]
  · simp only [verifyTurn, h0, h1, not_true, if_false]
  · simp only [verifyTurn, h0, h1, h2, not_true, if_false]

lemma verifyTurn_of_some {wal : Bytes} {c : ℕ} {r : Option Record}
    (hr : framing.read wal = some (c, r)) (t : TxnMap × IntegrityResult) :
    verifyTurn ({ rest := wal }, t) =
      .ok (some ({ rest := wal.drop c }, noteEntry noteRecord t r)) := by
  obtain ⟨h, hh, hcases⟩ := readRecord_eq_some hr
  have hrest := readHeader_rest hh
  rw [verifyTurn_header hh]
  rcases hcases with ⟨hlong, rfl, rfl⟩ | ⟨hlong, hle, rfl, rfl⟩
  · rw [if_pos hlong, hrest]
    rfl
  · have hlen : (h.rest.take h.dataLen.toNat).length = h.dataLen.toNat := by
      rw [List.length_take, Nat.min_eq_left hle]
    have hpos : 0 < h.dataLen ↔ h.rest.take h.dataLen.toNat ≠ [] := by
      rw [← List.length_pos_iff, hlen, UInt32.lt_iff_toNat_lt]
      rfl
    simp only [if_neg hlong, if_neg (Nat.not_lt.mpr hle), noteEntry, noteRecord,
      Transaction.ofRecord, hlen, UInt32.ofNat_toNat, ← List.drop_drop, ← hrest, hpos]
    by_cases hdata : h.rest.take h.dataLen.toNat = []
    · -- an entry without data
      have hzero : h.dataLen.toNat = 0 := by
        rw [← hlen, hdata, List.length_nil]
      rw [if_neg (not_not.mpr hdata), if_pos hdata, hdata, hzero, List.drop_zero]
    · rw [if_pos hdata, if_neg hdata]

lemma verifyTurn_of_none {wal : Bytes} (hr : framing.read wal = none)
    (t : TxnMap × IntegrityResult) :
    verifyTurn ({ rest := wal }, t) =
      .ok (some ({ rest := [], good := false }, noteRest t wal)) := by
  rcases readRecord_eq_none hr with hh | ⟨h, hh, hlong, hcut⟩
  · have hlen : wal.length < 12 := by
      rw [readHeader_eq] at hh
      split_ifs at hh with hlen
      exact hlen
    rw [verifyTurn_none hh, noteRest, if_pos hlen]
  · have hlen := readHeader_length hh
    have hpos : 0 < h.dataLen := UInt32.lt_iff_toNat_lt.mpr (by simp; omega)
    rw [verifyTurn_header hh, if_neg hlong, if_pos hpos, if_pos hcut, noteRest,
      if_neg (by omega)]

lemma readsRecords_verifyTurn :
    ReadsRecords framing verifyTurn (noteEntry noteRecord) noteRest where
  of_some := verifyTurn_of_some
  of_none := verifyTurn_of_none
  of_bad bs t := by simp [verifyTurn]

/-- What the verifier makes of the complete entries, and of what is left over. -/
def answer (wal : Bytes) : IntegrityResult :=
  let t := noteRest ((records wal).foldl noteRecord (∅, {})) (framing.rest wal)
  finish t.1 t.2

lemma returns_verify (wal : Bytes) :
    Returns (verifyTransactionIntegrity (some wal)) (answer wal) := by
  have hloop := readsRecords_verifyTurn.returns wal (∅, {})
  rw [foldl_noteEntry] at hloop
  exact hloop.bind (returns_const _)

/-- The last complete entry of a transaction. -/
def lastRecord (t : UInt32) (rs : List Record) : Option Record :=
  (rs.filter fun r => r.txnId = t).getLast?

/-- The entries with data. -/
def writing (rs : List Record) : List Record := rs.filter fun r => r.data ≠ []

lemma lastRecord_concat (t : UInt32) (rs : List Record) (r : Record) :
    lastRecord t (rs ++ [r]) = if r.txnId = t then some r else lastRecord t rs := by
  simpa only [lastRecord, decide_eq_true_eq] using
    getLast?_filter_concat (fun r => decide (r.txnId = t)) rs r

lemma length_writing_concat (rs : List Record) (r : Record) :
    (writing (rs ++ [r])).length =
      if r.data = [] then (writing rs).length else (writing rs).length + 1 := by
  unfold writing
  rw [List.filter_append, List.length_append]
  split_ifs with hdata
  · rw [List.filter_cons_of_neg (by simpa using hdata), List.filter_nil, List.length_nil,
      Nat.add_zero]
  · rw [List.filter_cons_of_pos (by simpa using hdata), List.filter_nil, List.length_singleton]

/-- The map has the last complete entry of each transaction. -/
lemma getElem?_noted (rs : List Record) (t : UInt32) :
    (rs.foldl noteRecord (∅, {})).1[t]? = (lastRecord t rs).map Transaction.ofRecord := by
  induction rs using List.reverseRecOn with
  | nil => exact ExtTreeMap.getElem?_empty
  | append_singleton rs r ih =>
    rw [List.foldl_append, List.foldl_cons, List.foldl_nil, lastRecord_concat]
    show ((rs.foldl noteRecord (∅, {})).1.insert r.txnId (Transaction.ofRecord r))[t]? = _
    split_ifs with ht
    · rw [ht, ExtTreeMap.getElem?_insert_self, Option.map_some]
    · rw [getElem?_insert_of_ne _ ht, ih]

lemma result_noted (rs : List Record) : (rs.foldl noteRecord (∅, {})).2 =
    { writeOperations := Int32.ofNat (writing rs).length } := by
  induction rs using List.reverseRecOn with
  | nil => rfl
  | append_singleton rs r ih =>
    rw [List.foldl_append, List.foldl_cons, List.foldl_nil, length_writing_concat, noteRecord, ih]
    by_cases hdata : r.data = []
    · rw [if_pos hdata, if_pos hdata]
    · rw [if_neg hdata, if_neg hdata, Int32.ofNat_add]
      rfl

/-! ### The answer -/

/-- The second loop counts, and finds all transactions valid. -/
lemma foldl_analyze (txns : List (UInt32 × Transaction)) (h : ∀ e ∈ txns, e.2.isValid = true)
    (result : IntegrityResult) :
    let counted := txns.foldl (fun result e => analyze result e.2) result
    let committed := txns.countP fun e => e.2.isCommitted ≠ 0
    let uncommitted := txns.countP fun e => e.2.isCommitted = 0
    counted.totalTxns = result.totalTxns + Int32.ofNat (committed + uncommitted) ∧
      counted.committedTxns = result.committedTxns + Int32.ofNat committed ∧
      counted.uncommittedTxns = result.uncommittedTxns + Int32.ofNat uncommitted ∧
      counted.writeOperations = result.writeOperations := by
  induction txns generalizing result with
  | nil => simp
  | cons e txns ih =>
    rw [List.forall_mem_cons] at h
    obtain ⟨htotal, hcommitted, huncommitted, hwrites⟩ := ih h.2 (analyze result e.2)
    intro counted committed uncommitted
    by_cases hflag : e.2.isCommitted = 0
    · have hstep : analyze result e.2 = { result with
          totalTxns := result.totalTxns + 1
          uncommittedTxns := result.uncommittedTxns + 1 } := by
        simp [analyze, h.1, hflag]
      have hc : committed = txns.countP fun e => e.2.isCommitted ≠ 0 :=
        List.countP_cons_of_neg (by simpa using hflag)
      have hu : uncommitted = (txns.countP fun e => e.2.isCommitted = 0) + 1 :=
        List.countP_cons_of_pos (by simpa using hflag)
      rw [hc, hu, ← Nat.add_assoc, ← add_one_add_ofNat, ← add_one_add_ofNat]
      refine ⟨htotal.trans ?_, hcommitted.trans ?_, huncommitted.trans ?_, hwrites.trans ?_⟩ <;>
        rw [hstep]
    · have hstep : analyze result e.2 = { result with
          totalTxns := result.totalTxns + 1
          committedTxns := result.committedTxns + 1 } := by
        simp [analyze, h.1, hflag]
      have hc : committed = (txns.countP fun e => e.2.isCommitted ≠ 0) + 1 :=
        List.countP_cons_of_pos (by simpa using hflag)
      have hu : uncommitted = txns.countP fun e => e.2.isCommitted = 0 :=
        List.countP_cons_of_neg (by simpa using hflag)
      rw [hc, hu, Nat.add_right_comm, ← add_one_add_ofNat, ← add_one_add_ofNat]
      refine ⟨htotal.trans ?_, hcommitted.trans ?_, huncommitted.trans ?_, hwrites.trans ?_⟩ <;>
        rw [hstep]

/-! ### When damage is reported -/

/-- The transactions with a complete entry. -/
def ids (wal : Bytes) : Finset UInt32 := ((records wal).map Record.txnId).toFinset

/-- What the verifier asks of a log: as its `int`s count, something is written, a transaction
is committed, and there are as many transactions as it counts. -/
structure LooksSound (wal : Bytes) : Prop where
  written : 0 < (writing (records wal)).length % 2 ^ 32 ∧
    (writing (records wal)).length % 2 ^ 32 < 2 ^ 31
  committed : ∃ t r, lastRecord t (records wal) = some r ∧ r.isCommitted ≠ 0
  counted : (ids wal).card < 2 ^ 31

lemma card_le (s : Finset UInt32) : s.card ≤ 2 ^ 32 := by
  have himage : (s.image UInt32.toNat).card = s.card :=
    Finset.card_image_of_injective s fun a b h => UInt32.toNat_inj.mp h
  have hsubset : s.image UInt32.toNat ⊆ Finset.range (2 ^ 32) := by
    intro n hn
    obtain ⟨a, -, rfl⟩ := Finset.mem_image.mp hn
    exact Finset.mem_range.mpr a.toNat_lt
  calc s.card = (s.image UInt32.toNat).card := himage.symm
    _ ≤ (Finset.range (2 ^ 32)).card := Finset.card_le_card hsubset
    _ = 2 ^ 32 := Finset.card_range _

/-- The map has an entry of each transaction, and all of them are valid. -/
lemma toList_noted (rs : List Record) :
    let txns := (rs.foldl noteRecord (∅, {})).1.toList
    (∀ e ∈ txns, e.2.isValid = true) ∧
      txns.length = (rs.map Record.txnId).toFinset.card ∧
      (0 < txns.countP (fun e => e.2.isCommitted ≠ 0) ↔
        ∃ t r, lastRecord t rs = some r ∧ r.isCommitted ≠ 0) := by
  intro txns
  have hmem : ∀ t txn, (t, txn) ∈ txns ↔
      ∃ r, lastRecord t rs = some r ∧ Transaction.ofRecord r = txn := by
    intro t txn
    rw [ExtTreeMap.mem_toList_iff_getElem?_eq_some, getElem?_noted, Option.map_eq_some_iff]
  refine ⟨?_, ?_, ?_⟩
  · rintro ⟨t, txn⟩ he
    obtain ⟨r, -, rfl⟩ := (hmem t txn).mp he
    rfl
  · have hids : ∀ t, t ∈ (rs.map Record.txnId).toFinset ↔
        ∃ txn, (rs.foldl noteRecord (∅, {})).1[t]? = some txn ∧ true = true := by
      intro t
      simp only [getElem?_noted, List.mem_toFinset, List.mem_map, and_true,
        Option.map_eq_some_iff]
      constructor
      · rintro ⟨r, hr, rfl⟩
        have hne : rs.filter (fun r' => r'.txnId = r.txnId) ≠ [] :=
          List.ne_nil_of_mem (List.mem_filter.mpr ⟨hr, by simp⟩)
        exact ⟨_, _, List.getLast?_eq_some_getLast hne, rfl⟩
      · rintro ⟨-, r, hr, -⟩
        obtain ⟨hr, ht⟩ := List.mem_filter.mp (List.mem_of_getLast? hr)
        exact ⟨r, hr, of_decide_eq_true ht⟩
    have hcard := countP_toList _ (fun _ => true) _ hids
    rwa [List.countP_true] at hcard
  · rw [List.countP_pos_iff]
    constructor
    · rintro ⟨⟨t, txn⟩, he, hflag⟩
      obtain ⟨r, hr, rfl⟩ := (hmem t txn).mp he
      exact ⟨t, r, hr, of_decide_eq_true hflag⟩
    · rintro ⟨t, r, hr, hflag⟩
      exact ⟨(t, .ofRecord r), (hmem _ _).mpr ⟨r, hr, rfl⟩, decide_eq_true hflag⟩

/-- **The answer** of the verifier depends on the complete entries alone. -/
lemma acid_iff (wal : Bytes) : (answer wal).acidPropertiesHold = true ↔ LooksSound wal := by
  set t := noteRest ((records wal).foldl noteRecord (∅, {})) (framing.rest wal) with ht
  have hmap : t.1 = ((records wal).foldl noteRecord (∅, {})).1 := by
    simp only [ht, noteRest]
    split_ifs <;> rfl
  have hresult : t.2.totalTxns = 0 ∧ t.2.committedTxns = 0 ∧ t.2.uncommittedTxns = 0 ∧
      t.2.writeOperations = Int32.ofNat (writing (records wal)).length := by
    simp only [ht, noteRest]
    split_ifs <;> rw [result_noted] <;> exact ⟨rfl, rfl, rfl, rfl⟩
  obtain ⟨hvalid, hlength, hcommitted⟩ := toList_noted (records wal)
  rw [← hmap] at hvalid hlength hcommitted
  have hanswer : (answer wal).acidPropertiesHold =
      acid t.1 (t.1.toList.foldl (fun result e => analyze result e.2) t.2) := by
    simp only [answer, finish, ExtTreeMap.foldl_eq_foldl_toList, ht]
  obtain ⟨htotal, hc, hu, hw⟩ := foldl_analyze t.1.toList hvalid t.2
  rw [hresult.1, Int32.zero_add] at htotal
  rw [hresult.2.1, Int32.zero_add] at hc
  rw [hresult.2.2.1, Int32.zero_add] at hu
  rw [hresult.2.2.2] at hw
  have hsplit : t.1.toList.countP (fun e => e.2.isCommitted ≠ 0) +
      t.1.toList.countP (fun e => e.2.isCommitted = 0) = (ids wal).card := by
    rw [ids, ← hlength, List.length_eq_countP_add_countP fun e => decide (e.2.isCommitted ≠ 0)]
    simp
  have hsize : t.1.size = (ids wal).card := by
    rw [← ExtTreeMap.length_toList, hlength, ids]
  have hfew : (ids wal).card < 2 ^ 63 := Nat.lt_of_le_of_lt (card_le _) (by decide)
  rw [hanswer]
  simp only [acid, htotal, hc, hu, hw, hsplit, hsize, Bool.and_eq_true, decide_eq_true_eq,
    beq_iff_eq, size_eq_iff hfew]
  set c := t.1.toList.countP fun e => e.2.isCommitted ≠ 0
  set u := t.1.toList.countP fun e => e.2.isCommitted = 0
  constructor
  · rintro ⟨⟨⟨⟨hwritten, hpos⟩, -⟩, hcounted⟩, -⟩
    have hpos' := (pos_ofNat_iff c).mp hpos
    have hc0 : 0 < c := by omega
    exact ⟨(pos_ofNat_iff _).mp hwritten, hcommitted.mp hc0, hcounted⟩
  · rintro ⟨hwritten, hsome, hcounted⟩
    have hc0 := hcommitted.mpr hsome
    have hpos : 0 < Int32.ofNat c := (pos_ofNat_iff c).mpr (by omega)
    refine ⟨⟨⟨⟨(pos_ofNat_iff _).mpr hwritten, hpos⟩, ?_⟩, hcounted⟩, Int32.le_of_lt hpos⟩
    rw [← hsplit, Int32.ofNat_add]

/-! ### Damaged entries -/

/-- The verifier meets a header whose length is above the limit, or whose data is cut off. -/
def MeetsDamaged (wal : Bytes) : Prop :=
  ∃ s h, Reaches verifyTurn ({ rest := wal }, ∅, {}) s ∧ s.1.good = true ∧
    readHeader s.1.rest = some h ∧ (65536 < h.dataLen ∨ h.rest.length < h.dataLen.toNat)

/-- On a file with a damaged entry the ACID properties are reported not to hold. -/
def ReportsDamage (wal : Bytes) : Prop :=
  ∃ result, Returns (verifyTransactionIntegrity (some wal)) result ∧
    (MeetsDamaged wal → result.acidPropertiesHold = false)

/-- Damaged entries are met where the framing looks for one. -/
lemma meetsDamaged_iff (wal : Bytes) : MeetsDamaged wal ↔ ∃ p h, framing.At wal p ∧
    readHeader (wal.drop p) = some h ∧ (65536 < h.dataLen ∨ h.rest.length < h.dataLen.toNat) := by
  constructor
  · rintro ⟨s, h, hreaches, hgood, hheader, hdamaged⟩
    obtain ⟨p, hat, hs⟩ := readsRecords_verifyTurn.at_of_reaches hreaches hgood
    rw [hs] at hheader
    exact ⟨p, h, hat, hheader, hdamaged⟩
  · rintro ⟨p, h, hat, hheader, hdamaged⟩
    obtain ⟨t, hreaches⟩ := readsRecords_verifyTurn.reaches_of_at hat (∅, {})
    exact ⟨_, h, hreaches, rfl, hheader, hdamaged⟩

/-- **When damage is reported**: only when the complete entries do not look sound by
themselves. -/
theorem reportsDamage_iff (wal : Bytes) :
    ReportsDamage wal ↔ ¬ MeetsDamaged wal ∨ ¬ LooksSound wal := by
  rw [← acid_iff, Bool.not_eq_true, ← imp_iff_not_or]
  constructor
  · rintro ⟨result, hr, hreports⟩
    rwa [hr.unique (returns_verify wal)] at hreports
  · exact fun hreports => ⟨_, returns_verify wal, hreports⟩

/-- A header above the limit, and then a committed entry. -/
theorem not_reportsDamage :
    ¬ ReportsDamage (encodeHeader 2 1 70000 ++ encodeRecord ⟨1, 1, [5]⟩) := by
  rintro ⟨result, hr, hreports⟩
  rw [hr.unique (returns_verify _)] at hreports
  have hfits : ∀ r ∈ [(⟨1, 1, [5]⟩ : Record)], Fits r := by simp [Fits]
  have hheader := readHeader_encodeHeader 2 1 70000 (encodeRecord ⟨1, 1, [5]⟩)
  have hlong : (65536 : UInt32) < 70000 := by decide
  have hrecords : records (encodeHeader 2 1 70000 ++ encodeRecord ⟨1, 1, [5]⟩) =
      [⟨1, 1, [5]⟩] := by
    rw [records_of_header (readRecord_long hheader hlong)]
    exact records_log hfits
  have hmeets : MeetsDamaged (encodeHeader 2 1 70000 ++ encodeRecord ⟨1, 1, [5]⟩) :=
    (meetsDamaged_iff _).mpr ⟨0, _, .start, hheader, Or.inl hlong⟩
  have hsound : LooksSound (encodeHeader 2 1 70000 ++ encodeRecord ⟨1, 1, [5]⟩) := by
    constructor
    · rw [hrecords]
      decide
    · rw [hrecords]
      exact ⟨1, _, rfl, by decide⟩
    · rw [ids, hrecords]
      decide
  have hfalse := hreports hmeets
  rw [(acid_iff _).mpr hsound] at hfalse
  cases hfalse

end Dbx4.WalIntegrity
