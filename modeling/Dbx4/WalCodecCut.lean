import Dbx4.WalCodec

/-!
Any file, read entry by entry.

What is read off a file is what has been written at its front: the reader makes nothing up, and
stops only where no entry begins. So a file that a crash has cut anywhere is read up to the last
entry that is whole, and entries that were refused as too long have left no trace in it.
-/

namespace Dbx4.WalCodecCut

open Dbx4.Frames Dbx4.Word32 Dbx4.WalCodec
open Dbx4.WalReaders (IStream read_of_le read_of_lt)

/-- Reading into a new entry each time, whatever its fields are, gives the pairs in their order,
and then nothing. -/
def ReadsFresh : IStream → List (UInt32 × Bytes) → Prop
  | file, [] => ∀ entry : WALEntry, entry.data = [] → (readEntry file entry).1 = false
  | file, pair :: pairs => ∀ entry : WALEntry, entry.data = [] →
    let (found, file', entry') := readEntry file entry
    found = true ∧ entry'.txnId = pair.1 ∧ entry'.dataLen.toNat = pair.2.length ∧
      entry'.data = pair.2 ∧ ReadsFresh file' pairs

instance (pair : UInt32 × Bytes) : Decidable (Fits pair) := by unfold Fits; infer_instance

/-! ### One entry -/

lemma encodePair_length (pair : UInt32 × Bytes) :
    (encodePair pair).length = 8 + pair.2.length := by
  simp only [encodePair, List.length_append, le32_length]
  omega

/-- The words in front, and what is behind them. -/
lemma eq_words (bs : Bytes) (h : 8 ≤ bs.length) :
    bs = le32 (ofLe32 (bs.take 4)) ++ (le32 (ofLe32 ((bs.drop 4).take 4)) ++ bs.drop 8) := by
  have hword : ∀ xs : Bytes, 4 ≤ xs.length → le32 (ofLe32 (xs.take 4)) = xs.take 4 := by
    intro xs hxs
    have hlength : (xs.take 4).length = 4 := List.length_take_of_le hxs
    rw [le32_ofLe32 hlength.ge, List.take_take, Nat.min_self]
  have hdrop : 4 ≤ (bs.drop 4).length := by
    rw [List.length_drop]
    omega
  calc bs = bs.take 4 ++ ((bs.drop 4).take 4 ++ (bs.drop 4).drop 4) := by
        rw [List.take_append_drop, List.take_append_drop]
    _ = _ := by rw [hword bs (by omega), hword _ hdrop, List.drop_drop]

/-- **What is read is at the front of the file.** -/
theorem readEntry_sound {bs : Bytes} {entry entry' : WALEntry} {file : IStream}
    (h : readEntry { rest := bs } entry = (true, file, entry')) (hentry : entry.data = []) :
    ∃ pair, Fits pair ∧ bs = encodePair pair ++ file.rest ∧ file.good = true ∧
      entry' = ⟨pair.1, UInt32.ofNat pair.2.length, pair.2⟩ := by
  unfold readEntry at h
  by_cases h4 : bs.length < 4
  · rw [read_of_lt h4] at h
    cases h
  rw [read_of_le (by omega)] at h
  dsimp only at h
  by_cases h8 : (bs.drop 4).length < 4
  · rw [read_of_lt h8] at h
    cases h
  rw [read_of_le (by omega)] at h
  dsimp only at h
  rw [List.length_drop] at h8
  have hwords := eq_words bs (by omega)
  set txnId := ofLe32 (bs.take 4)
  set len := ofLe32 ((bs.drop 4).take 4)
  have hlen : UInt32.ofNat len.toNat = len := UInt32.ofNat_toNat
  rw [List.drop_drop, show 4 + 4 = 8 from rfl] at h
  split_ifs at h with hmax hpos
  · cases h
  · have hfits : len.toNat ≤ 65536 := by
      rw [UInt32.lt_iff_toNat_lt] at hmax
      exact Nat.le_of_not_lt hmax
    by_cases hdata : (bs.drop 8).length < len.toNat
    · rw [read_of_lt hdata] at h
      cases h
    · have hlength : ((bs.drop 8).take len.toNat).length = len.toNat :=
        List.length_take_of_le (by omega)
      rw [read_of_le (by omega)] at h
      cases h
      refine ⟨(txnId, (bs.drop 8).take len.toNat), ?_, ?_, rfl, ?_⟩
      · rw [Fits, hlength]
        exact hfits
      · rw [encodePair, hlength, hlen, List.append_assoc, List.append_assoc,
          List.take_append_drop]
        exact hwords
      · rw [hlength, hlen]
  · have hzero : len = 0 := by
      rw [UInt32.lt_iff_toNat_lt] at hpos
      exact UInt32.toNat_inj.mp (by simpa using hpos)
    cases h
    refine ⟨(txnId, []), Nat.zero_le _, ?_, rfl, ?_⟩
    · rw [hzero] at hwords
      rw [encodePair, List.append_nil, List.append_assoc]
      exact hwords
    · rw [hzero, hentry]
      rfl

/-! ### The codec -/

/-- The pair at the front of a file, with the bytes it takes. -/
def readPair (bs : Bytes) : Option (ℕ × (UInt32 × Bytes)) :=
  let (found, file, entry) := readEntry { rest := bs } ⟨0, 0, []⟩
  if found then some (bs.length - file.rest.length, (entry.txnId, entry.data)) else none

lemma readPair_eq_some {bs : Bytes} {c : ℕ} {pair : UInt32 × Bytes} :
    readPair bs = some (c, pair) ↔
      Fits pair ∧ c = (encodePair pair).length ∧ encodePair pair <+: bs := by
  unfold readPair
  constructor
  · intro h
    rcases hread : readEntry { rest := bs } ⟨0, 0, []⟩ with ⟨_ | _, file, entry⟩ <;>
      rw [hread] at h
    · cases h
    · obtain ⟨pair', hfits, hbs, -, rfl⟩ := readEntry_sound hread rfl
      cases h
      refine ⟨hfits, ?_, file.rest, hbs.symm⟩
      dsimp only
      rw [hbs, List.length_append, Nat.add_sub_cancel_right]
  · rintro ⟨hfits, rfl, rest, rfl⟩
    have hdata : (if pair.2 = [] then [] else pair.2) = pair.2 := by
      split_ifs with hnil
      · exact hnil.symm
      · rfl
    rw [readEntry_encodePair hfits, List.length_append]
    simp only [hdata, if_true, Nat.add_sub_cancel_right]

/-- **The codec of the robust log.** -/
def pairCodec : Codec UInt8 (UInt32 × Bytes) where
  read := readPair
  read_pos {bs c a} h := by
    obtain ⟨-, rfl, -⟩ := readPair_eq_some.mp h
    rw [encodePair_length]
    omega
  read_le {bs c a} h := by
    obtain ⟨-, rfl, hfront⟩ := readPair_eq_some.mp h
    exact hfront.length_le
  encode := encodePair
  Valid := Fits
  read_encode {a} bs h := readPair_eq_some.mpr ⟨h, rfl, List.prefix_append _ _⟩
  read_torn {a bs} h hfront hne := by
    rcases hread : readPair bs with _ | ⟨c, pair⟩
    · rfl
    · -- the pair would be at the front of the encoding of `a`, and so be `a`
      obtain ⟨hfits, rfl, hpair⟩ := readPair_eq_some.mp hread
      have hwhole := readPair_eq_some.mpr ⟨hfits, rfl, hpair.trans hfront⟩
      rw [readPair_eq_some.mpr ⟨h, rfl, List.prefix_refl (encodePair a)⟩] at hwhole
      have hsame : a = pair := congrArg Prod.snd (Option.some.inj hwhole)
      rw [← hsame] at hpair
      exact absurd (hfront.eq_of_length_le hpair.length_le) hne

lemma readPair_eq_none {bs : Bytes} :
    readPair bs = none ↔ ∀ pair, Fits pair → ¬ encodePair pair <+: bs := by
  rw [Option.eq_none_iff_forall_not_mem, Prod.forall]
  constructor
  · exact fun h pair hfits hfront => h _ pair (readPair_eq_some.mpr ⟨hfits, rfl, hfront⟩)
  · rintro h c pair hread
    obtain ⟨hfits, -, hfront⟩ := readPair_eq_some.mp hread
    exact h pair hfits hfront

/-- Without an entry at the front, a read into a new entry fails. -/
lemma readsFresh_nil_iff {bs : Bytes} : ReadsFresh { rest := bs } [] ↔ readPair bs = none := by
  constructor
  · intro h
    unfold readPair
    rcases hread : readEntry { rest := bs } ⟨0, 0, []⟩ with ⟨found, file, entry⟩
    have hfound := h ⟨0, 0, []⟩ rfl
    rw [hread] at hfound
    subst hfound
    rfl
  · intro h entry hentry
    rcases hread : readEntry { rest := bs } entry with ⟨_ | _, file, entry'⟩
    · rfl
    · obtain ⟨pair, hfits, rfl, -⟩ := readEntry_sound hread hentry
      exact absurd (List.prefix_append _ _) (readPair_eq_none.mp h pair hfits)

lemma readsFresh_cons_iff {bs : Bytes} {pair : UInt32 × Bytes} {pairs : List (UInt32 × Bytes)} :
    ReadsFresh { rest := bs } (pair :: pairs) ↔ ∃ rest, Fits pair ∧
      bs = encodePair pair ++ rest ∧ ReadsFresh { rest := rest } pairs := by
  constructor
  · intro h
    have hfirst := h ⟨0, 0, []⟩ rfl
    rcases hread : readEntry { rest := bs } ⟨0, 0, []⟩ with ⟨found, ⟨rest, good⟩, entry⟩
    rw [hread] at hfirst
    obtain ⟨rfl, htxnId, -, hdata, hrest⟩ := hfirst
    obtain ⟨pair', hfits, hbs, rfl, rfl⟩ := readEntry_sound hread rfl
    obtain rfl : pair' = pair := Prod.ext htxnId hdata
    exact ⟨rest, hfits, hbs, hrest⟩
  · rintro ⟨rest, hfits, rfl, hrest⟩ entry hentry
    rw [readEntry_encodePair hfits]
    refine ⟨rfl, rfl, toNat_length hfits, ?_, hrest⟩
    dsimp only
    split_ifs with hnil
    · rw [hentry, hnil]
    · rfl

/-! ### Files -/

/-- The pairs that are not too long. -/
def accepted (pairs : List (UInt32 × Bytes)) : List (UInt32 × Bytes) :=
  pairs.filter fun pair => decide (Fits pair)

lemma fits_of_mem_accepted {pairs : List (UInt32 × Bytes)} :
    ∀ pair ∈ accepted pairs, Fits pair := by
  intro pair hpair
  exact of_decide_eq_true (List.mem_filter.mp hpair).2

lemma accepted_cons (pair : UInt32 × Bytes) (pairs : List (UInt32 × Bytes)) :
    accepted (pair :: pairs) = if Fits pair then pair :: accepted pairs else accepted pairs := by
  simp only [accepted, List.filter_cons, decide_eq_true_eq]

lemma accepted_eq_self {pairs : List (UInt32 × Bytes)} (h : ∀ pair ∈ pairs, Fits pair) :
    accepted pairs = pairs :=
  List.filter_eq_self.mpr fun pair hpair => decide_eq_true (h pair hpair)

/-- Entries that are too long leave no trace. -/
lemma written_eq_encodeAll (pairs : List (UInt32 × Bytes)) :
    written pairs = pairCodec.encodeAll (accepted pairs) := by
  have hfold : ∀ file, pairs.foldl (fun file pair => (writeEntry file pair.1 pair.2).2) file =
      file ++ pairCodec.encodeAll (accepted pairs) := by
    induction pairs with
    | nil => exact fun file => (List.append_nil file).symm
    | cons pair pairs ih =>
      intro file
      rw [List.foldl_cons, ih, accepted_cons]
      by_cases hfits : Fits pair
      · rw [writeEntry_eq hfits, if_pos hfits, Codec.encodeAll_cons, ← List.append_assoc]
        rfl
      · have hlong : maxEntrySize.toNat < pair.2.length := Nat.lt_of_not_le hfits
        rw [writeEntry, if_pos hlong, if_neg hfits]
  exact hfold []

/-- **Exactly what is read off a file**: pairs are read, and then nothing, when they have been
written at its front and no other entry follows. -/
theorem readsFresh_iff (file : Bytes) (pairs : List (UInt32 × Bytes)) :
    ReadsFresh { rest := file } pairs ↔
      (∀ pair ∈ pairs, Fits pair) ∧ ∃ tail, file = written pairs ++ tail ∧
        ∀ pair, Fits pair → ¬ encodePair pair <+: tail := by
  induction pairs generalizing file with
  | nil =>
    rw [readsFresh_nil_iff, readPair_eq_none]
    refine ⟨fun h => ⟨List.forall_mem_nil _, file, rfl, h⟩, ?_⟩
    rintro ⟨-, tail, rfl, h⟩
    exact h
  | cons pair pairs ih =>
    rw [readsFresh_cons_iff, List.forall_mem_cons]
    have hwritten (hfits : Fits pair) : written (pair :: pairs) =
        encodePair pair ++ written pairs := by
      rw [written_eq_encodeAll, written_eq_encodeAll, accepted_cons, if_pos hfits]
      rfl
    constructor
    · rintro ⟨rest, hfits, rfl, hrest⟩
      obtain ⟨hall, tail, rfl, htail⟩ := (ih rest).mp hrest
      exact ⟨⟨hfits, hall⟩, tail, by rw [hwritten hfits, List.append_assoc], htail⟩
    · rintro ⟨⟨hfits, hall⟩, tail, rfl, htail⟩
      refine ⟨written pairs ++ tail, hfits, by rw [hwritten hfits, List.append_assoc], ?_⟩
      exact (ih _).mpr ⟨hall, tail, rfl, htail⟩

/-- **After a crash**: a file cut to its first `n` bytes is read up to the last entry that is
whole in it. -/
theorem readsFresh_take (pairs : List (UInt32 × Bytes)) (n : ℕ) :
    ReadsFresh { rest := (written pairs).take n } (pairCodec.whole n (accepted pairs)) := by
  have hwhole : ∀ pair ∈ pairCodec.whole n (accepted pairs), Fits pair := fun pair hpair =>
    fits_of_mem_accepted pair ((Codec.whole_initial n _).subset hpair)
  obtain ⟨tail, htorn, hcut⟩ := Codec.take_encodeAll (C := pairCodec) (accepted pairs)
    fits_of_mem_accepted Codec.Torn.nil n
  rw [List.append_nil, ← written_eq_encodeAll] at hcut
  refine (readsFresh_iff _ _).mpr ⟨hwhole, tail, ?_, readPair_eq_none.mp htorn.read_eq_none⟩
  rw [hcut, written_eq_encodeAll, accepted_eq_self hwhole]

end Dbx4.WalCodecCut
