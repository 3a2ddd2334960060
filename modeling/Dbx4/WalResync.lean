import Dbx4.WalEntries

/-!
An entry of the log with a damaged length, whose data is still in the file.

The parser skips the damaged header and takes the data behind it for headers, twelve bytes at
a time, up to one whose length is within the limit: what it finds there it takes for an entry.
It is one that was written only when that place is the start of one.
-/

namespace Dbx4.WalResync

open Dbx4.Loops Dbx4.Frames Dbx4.Word32 Dbx4.WalReader Dbx4.WalReaders Dbx4.WalEntries

/-- A log, the length of one of whose entries is overwritten. -/
def damagedLog (before : List Record) (damaged : Record) (dataLen : UInt32)
    (after : List Record) : Bytes :=
  encodeLog before ++ (encodeHeader damaged.txnId damaged.isCommitted dataLen ++
    (damaged.data ++ encodeLog after))

/-- The parser reads the entry at the offset `p` of the file. -/
def ReadsAt (wal : Bytes) (p : ℕ) (e : Entry) : Prop :=
  ∃ result s, Reaches parseTurn ({ rest := wal }, {}) ({ rest := wal.drop p }, result) ∧
    p ≤ wal.length ∧ parseTurn ({ rest := wal.drop p }, result) = .ok (some s) ∧
    s.2.entries = result.entries ++ [e]

/-- The entry was written at the offset `p` of the damaged log: before the damaged one, or
after it. -/
def WrittenAt (before : List Record) (damaged : Record) (after : List Record) (p : ℕ)
    (e : Entry) : Prop :=
  ∃ pre r post, e = Entry.ofRecord r ∧
    ((before = pre ++ r :: post ∧ p = (encodeLog pre).length) ∨
      (after = pre ++ r :: post ∧
        p = (encodeLog before).length + 12 + damaged.data.length + (encodeLog pre).length))

/-- The parser returns only entries that were written: those before the damaged one, then some
of those after it, each read where it was written. -/
def OnlyWritten (before : List Record) (damaged : Record) (dataLen : UInt32)
    (after : List Record) : Prop :=
  (∃ result sub, Returns (parseWalHardened (some (damagedLog before damaged dataLen after)))
      result ∧ result.entries = (before ++ sub).map Entry.ofRecord ∧ sub.Sublist after) ∧
    ∀ p e, ReadsAt (damagedLog before damaged dataLen after) p e →
      WrittenAt before damaged after p e

/-- The length in a header at the offset `p`. -/
def lengthAt (bs : Bytes) (p : ℕ) : UInt32 := ofLe32 (bs.drop (p + 8))

/-- Behind headers above the limit, the first within it whose data is in the file is the start
of an entry of the log. -/
def Resyncs (data : Bytes) (after : List Record) : Prop :=
  let bs := data ++ encodeLog after
  ∀ k, (∀ j < k, 65536 < lengthAt bs (12 * j)) → ¬ 65536 < lengthAt bs (12 * k) →
    12 * k + 12 + (lengthAt bs (12 * k)).toNat ≤ bs.length →
      ∃ pre, pre <+: after ∧ 12 * k = data.length + (encodeLog pre).length

/-! ### The places where the parser reads -/

/-- **Where the parser reads an entry**: where the framing has one. -/
lemma readsAt_iff (wal : Bytes) (p : ℕ) (e : Entry) :
    ReadsAt wal p e ↔ framing.At wal p ∧
      ∃ c r, framing.read (wal.drop p) = some (c, some r) ∧ e = Entry.ofRecord r := by
  constructor
  · rintro ⟨result, s, hreaches, hle, hturn, hentries⟩
    obtain ⟨q, hat, hq⟩ := readsRecords_parseTurn.at_of_reaches hreaches rfl
    -- the offset is told by what is left of the file
    have hlen := congrArg (fun stream : IStream => stream.rest.length) hq
    simp only [List.length_drop] at hlen
    have hqle := hat.le_length
    obtain rfl : p = q := by omega
    refine ⟨hat, ?_⟩
    rcases hr : readRecord (wal.drop p) with _ | ⟨c, _ | r⟩
    · rw [parseTurn_of_none hr] at hturn
      cases hturn
      simp [entries_noteRest] at hentries
    · rw [parseTurn_of_some hr] at hturn
      cases hturn
      simp [ParseResult.note] at hentries
    · rw [parseTurn_of_some hr] at hturn
      cases hturn
      simp only [ParseResult.note, push_entries, bytesRead_entries, List.append_cancel_left_eq,
        List.cons.injEq, and_true] at hentries
      exact ⟨c, r, hr, hentries.symm⟩
  · rintro ⟨hat, c, r, hr, rfl⟩
    obtain ⟨result, hreaches⟩ := readsRecords_parseTurn.reaches_of_at hat {}
    exact ⟨result, _, hreaches, hat.le_length, parseTurn_of_some hr result, rfl⟩

/-! ### What is read at an offset -/

/-- The header at an offset decides what is read there. -/
lemma read_drop (bs : Bytes) (p : ℕ) : framing.read (bs.drop p) =
    if bs.length < p + 12 then none
    else if 65536 < lengthAt bs p then some (12, none)
    else if bs.length < p + 12 + (lengthAt bs p).toNat then none
    else some (12 + (lengthAt bs p).toNat, some ⟨ofLe32 (bs.drop p), ofLe32 (bs.drop (p + 4)),
      (bs.drop (p + 12)).take (lengthAt bs p).toNat⟩) := by
  have hheader := readHeader_eq (bs.drop p)
  simp only [List.length_drop, List.drop_drop] at hheader
  split_ifs with hshort hlong hcut
  · rw [if_pos (by omega)] at hheader
    exact readRecord_none hheader
  · rw [if_neg (by omega)] at hheader
    exact readRecord_long hheader hlong
  · rw [if_neg (by omega)] at hheader
    refine readRecord_cut hheader hlong ?_
    show (bs.drop (p + 12)).length < (lengthAt bs p).toNat
    rw [List.length_drop]
    omega
  · rw [if_neg (by omega)] at hheader
    refine readRecord_whole hheader hlong ?_
    show ¬ (bs.drop (p + 12)).length < (lengthAt bs p).toNat
    rw [List.length_drop]
    omega

/-- There is a header where its length is above the limit. -/
lemma le_length_of_long {bs : Bytes} {p : ℕ} (h : 65536 < lengthAt bs p) : p + 12 ≤ bs.length := by
  by_contra hshort
  have hlen : (bs.drop (p + 8)).length < 4 := by rw [List.length_drop]; omega
  have hzero : lengthAt bs p = 0 := by
    rw [lengthAt]
    generalize bs.drop (p + 8) = word at hlen
    match word, hlen with
    | [], _ | [_], _ | [_, _], _ | [_, _, _], _ => rfl
  rw [hzero] at h
  exact absurd h (by decide)

lemma read_drop_of_long {bs : Bytes} {p : ℕ} (h : 65536 < lengthAt bs p) :
    framing.read (bs.drop p) = some (12, none) := by
  have hle := le_length_of_long h
  rw [read_drop, if_neg (by omega), if_pos h]

/-! ### The places in a damaged log -/

section Damaged

variable {before after : List Record} {damaged : Record} {dataLen : UInt32}

/-- The file from an entry before the damaged one on. -/
lemma drop_before {pre post : List Record} (h : before = pre ++ post) :
    (damagedLog before damaged dataLen after).drop (encodeLog pre).length =
      encodeLog post ++ (encodeHeader damaged.txnId damaged.isCommitted dataLen ++
        (damaged.data ++ encodeLog after)) := by
  rw [damagedLog, h, encodeLog_append, List.append_assoc, List.drop_left]

/-- The file behind the damaged header. -/
lemma drop_behind (k : ℕ) :
    (damagedLog before damaged dataLen after).drop ((encodeLog before).length + 12 + k) =
      (damaged.data ++ encodeLog after).drop k := by
  rw [← List.drop_drop, ← List.drop_drop, damagedLog, List.drop_left, List.drop_left' (by rfl)]

/-- The file from an entry after the damaged one on. -/
lemma drop_after {pre post : List Record} (h : after = pre ++ post) :
    (damaged.data ++ encodeLog after).drop (damaged.data.length + (encodeLog pre).length) =
      encodeLog post := by
  rw [← List.drop_drop, List.drop_left, h, encodeLog_append, List.drop_left]

variable (hbefore : ∀ r ∈ before, Fits r) (hafter : ∀ r ∈ after, Fits r)
  (hlong : 65536 < dataLen)

include hbefore hlong in
/-- The parser looks for an entry behind headers above the limit. -/
lemma at_stride {k : ℕ}
    (h : ∀ j < k, 65536 < lengthAt (damaged.data ++ encodeLog after) (12 * j)) :
    framing.At (damagedLog before damaged dataLen after)
      ((encodeLog before).length + 12 + 12 * k) := by
  induction k with
  | zero =>
    have hat : framing.At (damagedLog before damaged dataLen after) (encodeLog before).length :=
      Framing.at_flatMap (fun r hr bs => read_encodeRecord (hbefore r hr) bs) _
    refine hat.next (c := 12) (a := none) ?_
    rw [damagedLog, List.drop_left]
    exact read_encodeHeader hlong _ _ _
  | succ k ih =>
    have hat := ih fun j hj => h j (by omega)
    rw [Nat.mul_succ, ← Nat.add_assoc]
    refine hat.next (a := none) ?_
    rw [drop_behind]
    exact read_drop_of_long (h k (Nat.lt_succ_self k))

include hbefore hlong in
/-- A parser that reads only what was written resynchronizes. -/
lemma resyncs_of_written
    (h : ∀ p e, ReadsAt (damagedLog before damaged dataLen after) p e →
      WrittenAt before damaged after p e) : Resyncs damaged.data after := by
  intro k hheaders hfits hle
  have hread := read_drop (damaged.data ++ encodeLog after) (12 * k)
  rw [if_neg (by omega), if_neg hfits, if_neg (by omega)] at hread
  have hat := at_stride hbefore hlong hheaders
  have hreads := (readsAt_iff _ _ _).mpr
    ⟨hat, _, _, (congrArg framing.read (drop_behind _)).trans hread, rfl⟩
  obtain ⟨pre, r, post, -, hplace⟩ := h _ _ hreads
  rcases hplace with ⟨rfl, hp⟩ | ⟨rfl, hp⟩
  · -- before the damaged entry there is no such place
    rw [encodeLog_append, List.length_append] at hp
    omega
  · exact ⟨pre, List.prefix_append _ _, by omega⟩

include hbefore hlong in
/-- What is read before the damaged entry, or at it. -/
lemma read_before {pre post : List Record} (h : before = pre ++ post) {c : ℕ} {r : Option Record}
    (hr : framing.read ((damagedLog before damaged dataLen after).drop (encodeLog pre).length) =
      some (c, r)) :
    (post = [] ∧ c = 12 ∧ r = none) ∨
      ∃ r' post', post = r' :: post' ∧ c = (encodeRecord r').length ∧ r = some r' := by
  rw [drop_before h] at hr
  rcases post with _ | ⟨r', post⟩
  · rw [encodeLog, List.flatMap_nil, List.nil_append, read_encodeHeader hlong] at hr
    cases hr
    exact Or.inl ⟨rfl, rfl, rfl⟩
  · rw [encodeLog_cons, List.append_assoc, read_encodeRecord (hbefore r' (by simp [h]))] at hr
    cases hr
    exact Or.inr ⟨r', post, rfl, rfl, rfl⟩

include hafter in
/-- What is read after the data of the damaged entry. -/
lemma read_after {pre post : List Record} (h : after = pre ++ post) {c : ℕ} {r : Option Record}
    (hr : framing.read ((damaged.data ++ encodeLog after).drop
      (damaged.data.length + (encodeLog pre).length)) = some (c, r)) :
    ∃ r' post', post = r' :: post' ∧ c = (encodeRecord r').length ∧ r = some r' := by
  rw [drop_after h] at hr
  rcases post with _ | ⟨r', post⟩
  · cases hr
  · rw [encodeLog_cons, read_encodeRecord (hafter r' (by simp [h]))] at hr
    cases hr
    exact ⟨r', post, rfl, rfl, rfl⟩

/-- What is read behind headers above the limit: another, or an entry of the log. -/
lemma read_skipped (hsync : Resyncs damaged.data after) {k : ℕ}
    (hheaders : ∀ j < k, 65536 < lengthAt (damaged.data ++ encodeLog after) (12 * j)) {c : ℕ}
    {r : Option Record}
    (hr : framing.read ((damaged.data ++ encodeLog after).drop (12 * k)) = some (c, r)) :
    (c = 12 ∧ r = none ∧ 65536 < lengthAt (damaged.data ++ encodeLog after) (12 * k)) ∨
      ∃ pre post, after = pre ++ post ∧ 12 * k = damaged.data.length + (encodeLog pre).length := by
  rw [read_drop] at hr
  split_ifs at hr with hshort habove hcut
  · cases hr
    exact Or.inl ⟨rfl, rfl, habove⟩
  · obtain ⟨pre, ⟨post, hpre⟩, hk⟩ := hsync k hheaders habove (Nat.not_lt.mp hcut)
    exact Or.inr ⟨pre, post, hpre.symm, hk⟩

/-- The places where the parser may look for an entry: the entries before the damaged one, the
headers behind it, and the entries after it. -/
def Place (before : List Record) (damaged : Record) (after : List Record) (p : ℕ) : Prop :=
  (∃ pre post, before = pre ++ post ∧ p = (encodeLog pre).length) ∨
    (∃ k, (∀ j < k, 65536 < lengthAt (damaged.data ++ encodeLog after) (12 * j)) ∧
      p = (encodeLog before).length + 12 + 12 * k) ∨
    ∃ pre post, after = pre ++ post ∧
      p = (encodeLog before).length + 12 + (damaged.data.length + (encodeLog pre).length)

include hbefore hafter hlong in
lemma place_of_at (hsync : Resyncs damaged.data after) {p : ℕ}
    (h : framing.At (damagedLog before damaged dataLen after) p) :
    Place before damaged after p := by
  have hnext : ∀ (pre : List Record) (r : Record),
      (encodeLog (pre ++ [r])).length = (encodeLog pre).length + (encodeRecord r).length := by
    intro pre r
    simp [encodeLog]
  -- an entry after the damaged one is read, and leads to the next
  have hstep : ∀ (pre post : List Record) (c : ℕ) (r : Option Record), after = pre ++ post →
      framing.read ((damaged.data ++ encodeLog after).drop
        (damaged.data.length + (encodeLog pre).length)) = some (c, r) →
      Place before damaged after
        ((encodeLog before).length + 12 + (damaged.data.length + (encodeLog pre).length) + c) := by
    intro pre post c r hafter' hr
    obtain ⟨r', post', rfl, rfl, -⟩ := read_after hafter hafter' hr
    refine Or.inr (Or.inr ⟨pre ++ [r'], post', by rw [hafter', List.append_cons], ?_⟩)
    rw [hnext]
    omega
  induction h with
  | start => exact Or.inl ⟨[], before, rfl, rfl⟩
  | @next p c r _ hr ih =>
    rcases ih with ⟨pre, post, hpre, rfl⟩ | ⟨k, hheaders, rfl⟩ | ⟨pre, post, hpre, rfl⟩
    · rcases read_before hbefore hlong hpre hr with ⟨rfl, rfl, -⟩ | ⟨r', post', rfl, rfl, -⟩
      · refine Or.inr (Or.inl ⟨0, fun j hj => absurd hj (Nat.not_lt_zero j), ?_⟩)
        rw [hpre, List.append_nil]
      · exact Or.inl ⟨pre ++ [r'], post', by rw [hpre, List.append_cons], (hnext _ _).symm⟩
    · rw [drop_behind] at hr
      rcases read_skipped hsync hheaders hr with ⟨rfl, -, habove⟩ | ⟨pre, post, hpre, hk⟩
      · refine Or.inr (Or.inl ⟨k + 1, fun j hj => ?_, by omega⟩)
        rcases Nat.lt_succ_iff_lt_or_eq.mp hj with hj | rfl
        · exact hheaders j hj
        · exact habove
      · rw [hk] at hr ⊢
        exact hstep pre post c r hpre hr
    · rw [drop_behind] at hr
      exact hstep pre post c r hpre hr

include hbefore hafter hlong in
/-- A parser that resynchronizes reads only what was written. -/
lemma written_of_resyncs (hsync : Resyncs damaged.data after) {p : ℕ} {e : Entry}
    (h : ReadsAt (damagedLog before damaged dataLen after) p e) :
    WrittenAt before damaged after p e := by
  obtain ⟨hat, c, r, hr, rfl⟩ := (readsAt_iff _ _ _).mp h
  have hstep : ∀ pre post, after = pre ++ post →
      framing.read ((damaged.data ++ encodeLog after).drop
        (damaged.data.length + (encodeLog pre).length)) = some (c, some r) →
      WrittenAt before damaged after
        ((encodeLog before).length + 12 + (damaged.data.length + (encodeLog pre).length))
        (Entry.ofRecord r) := by
    intro pre post hpre hr
    obtain ⟨r', post', rfl, -, hr'⟩ := read_after hafter hpre hr
    obtain rfl := Option.some_inj.mp hr'
    exact ⟨pre, r, post', rfl, Or.inr ⟨hpre, by omega⟩⟩
  rcases place_of_at hbefore hafter hlong hsync hat with
    ⟨pre, post, hpre, rfl⟩ | ⟨k, hheaders, rfl⟩ | ⟨pre, post, hpre, rfl⟩
  · rcases read_before hbefore hlong hpre hr with ⟨-, -, hnone⟩ | ⟨r', post', rfl, -, hr'⟩
    · cases hnone
    · obtain rfl := Option.some_inj.mp hr'
      exact ⟨pre, r, post', rfl, Or.inl ⟨hpre, rfl⟩⟩
  · rw [drop_behind] at hr
    rcases read_skipped hsync hheaders hr with ⟨-, hnone, -⟩ | ⟨pre, post, hpre, hk⟩
    · cases hnone
    · rw [hk] at hr ⊢
      exact hstep pre post hpre hr
  · rw [drop_behind] at hr
    exact hstep pre post hpre hr

include hbefore hlong in
/-- The entries before the damaged one are returned, and then what is found behind its
header. -/
lemma records_damagedLog : records (damagedLog before damaged dataLen after) =
    before ++ records (damaged.data ++ encodeLog after) := by
  have hheader : framing.records (encodeHeader damaged.txnId damaged.isCommitted dataLen ++
      (damaged.data ++ encodeLog after)) =
        none :: framing.records (damaged.data ++ encodeLog after) := by
    rw [Framing.records_of_some (read_encodeHeader hlong _ _ _), List.drop_left]
  rw [records, damagedLog, records_encodeLog hbefore, hheader, List.reduceOption_append,
    List.reduceOption_cons_of_none, List.reduceOption, List.filterMap_map]
  exact congrArg (· ++ _) (List.filterMap_some)

include hbefore hafter hlong in
/-- A parser that reads only what was written returns, behind the damaged header, the entries
from one place of the log on. -/
lemma records_of_written
    (h : ∀ p e, ReadsAt (damagedLog before damaged dataLen after) p e →
      WrittenAt before damaged after p e) :
    records (damaged.data ++ encodeLog after) <:+ after := by
  have hrecords : ∀ n p, (damaged.data ++ encodeLog after).length - p = n →
      framing.At (damagedLog before damaged dataLen after) ((encodeLog before).length + 12 + p) →
      records ((damaged.data ++ encodeLog after).drop p) <:+ after := by
    intro n
    induction n using Nat.strongRecOn with
    | _ n ih =>
      intro p hn hat
      rcases hr : readRecord ((damaged.data ++ encodeLog after).drop p) with _ | ⟨c, _ | r⟩
      · rw [records_of_none hr]
        exact List.nil_suffix
      · obtain ⟨hpos, hle⟩ := readRecord_bounds hr
        rw [List.length_drop] at hle
        rw [records_of_header hr, List.drop_drop]
        refine ih _ ?_ (p + c) rfl ?_
        · omega
        · rw [← Nat.add_assoc]
          exact hat.next (a := none) (by rw [drop_behind]; exact hr)
      · have hread : framing.read ((damagedLog before damaged dataLen after).drop
            ((encodeLog before).length + 12 + p)) = some (c, some r) := by
          rw [drop_behind]
          exact hr
        obtain ⟨pre, r', post, -, hplace⟩ := h _ _ ((readsAt_iff _ _ _).mpr ⟨hat, c, r, hread, rfl⟩)
        rcases hplace with ⟨rfl, hp⟩ | ⟨hpre, hp⟩
        · rw [encodeLog_append, List.length_append] at hp
          omega
        · obtain rfl : p = damaged.data.length + (encodeLog pre).length := by omega
          have hpost : records (encodeLog (r' :: post)) = r' :: post := by
            refine records_log fun r hr => hafter r ?_
            rw [hpre]
            exact List.mem_append_right _ hr
          rw [drop_after hpre, hpost, hpre]
          exact List.suffix_append _ _
  refine hrecords _ 0 rfl (at_stride hbefore hlong (k := 0) fun j hj => ?_)
  exact absurd hj (Nat.not_lt_zero j)

include hbefore hafter hlong in
/-- **When the parser returns only what was written**: when the first header within the limit
that it meets in the data of the damaged entry, or behind it, starts an entry of the log. -/
theorem onlyWritten_iff :
    OnlyWritten before damaged dataLen after ↔ Resyncs damaged.data after := by
  refine ⟨fun h => resyncs_of_written hbefore hlong h.2, fun hsync => ?_⟩
  have hwritten : ∀ p e, ReadsAt (damagedLog before damaged dataLen after) p e →
      WrittenAt before damaged after p e :=
    fun p e h => written_of_resyncs hbefore hafter hlong hsync h
  obtain ⟨result, hr, hentries⟩ := returns_entries (damagedLog before damaged dataLen after)
  refine ⟨⟨result, records (damaged.data ++ encodeLog after), hr, ?_, ?_⟩, hwritten⟩
  · rw [hentries, records_damagedLog hbefore hlong]
  · exact (records_of_written hbefore hafter hlong hwritten).sublist

end Damaged

/-- Data that ends with a header above the limit. -/
theorem onlyWritten_header : OnlyWritten [⟨1, 1, [5]⟩] ⟨2, 1, List.replicate 12 255⟩ 65537
    [⟨3, 1, []⟩] := by
  refine (onlyWritten_iff (by simp [Fits]) (by simp [Fits]) (by decide)).mpr ?_
  intro k hheaders hfits _
  rcases k with _ | _ | k
  · exact absurd (by decide) hfits
  · exact ⟨[], List.nil_prefix, by decide⟩
  · exact absurd (hheaders 1 (by omega)) (by decide)

/-- Data that looks like an entry is returned as one. -/
theorem not_onlyWritten_data :
    ¬ OnlyWritten [] ⟨1, 1, encodeRecord ⟨7, 1, []⟩⟩ 65537 [] := by
  rintro ⟨⟨result, sub, hr, hentries, hsub⟩, -⟩
  obtain ⟨result', hr', hentries'⟩ :=
    returns_entries (damagedLog [] ⟨1, 1, encodeRecord ⟨7, 1, []⟩⟩ 65537 [])
  obtain rfl := hr.unique hr'
  rw [List.eq_nil_of_sublist_nil hsub] at hentries
  have hfits : ∀ r ∈ [(⟨7, 1, []⟩ : Record)], Fits r := by simp [Fits]
  have hdata : records (encodeRecord ⟨7, 1, []⟩ ++ encodeLog []) = [⟨7, 1, []⟩] :=
    records_log hfits
  rw [hentries, records_damagedLog (by simp) (by decide), hdata] at hentries'
  cases hentries'

end Dbx4.WalResync
