import Dbx4.Maps
import Dbx4.Prefixed

/-!
The rows of `unified_row.h`, and the bytes they are stored as.

A row is its columns; its bytes are their number and then, in the order of the names, each name
and value behind its length. The number has 32 bits and the lengths have 16.
-/

namespace Dbx4.RowCodec

open Std Dbx4.Word32 Dbx4.Memory Dbx4.Frames Dbx4.Prefixed Dbx4.Maps

structure Row where
  columns : ExtTreeMap Bytes Bytes := ∅

namespace Row

def set (row : Row) (columnName value : Bytes) : Row :=
  { row with columns := row.columns.insert columnName value }

/-- What one column adds to the data. -/
def serializeColumn (data : Bytes) (column : Bytes × Bytes) : Bytes :=
  let nameLen := UInt16.ofNat column.1.length
  let valLen := UInt16.ofNat column.2.length
  let data := data ++ toLe 2 nameLen.toNat
  let data := data ++ column.1
  let data := data ++ toLe 2 valLen.toNat
  data ++ column.2

def serialize (row : Row) : Bytes :=
  let colCount := UInt32.ofNat row.columns.size
  row.columns.toList.foldl serializeColumn (toLe 4 colCount.toNat)

/-- The `len` bytes of a vector from `pos` on. -/
def bytesAt (data : Bytes) (pos len : ℕ) : Except Fault Bytes :=
  if pos + len ≤ data.length then .ok ((data.drop pos).take len) else .error .outside

/-- A string behind its length, and the place behind it; none where the loop breaks. -/
def stringAt (data : Bytes) (pos : ℕ) : Except Fault (Option (ℕ × Bytes)) :=
  if data.length < pos + 2 then .ok none
  else do
    let lenBytes ← bytesAt data pos 2
    let len := UInt16.ofNat (ofLe lenBytes)
    let pos := pos + 2
    if data.length < pos + len.toNat then return none
    else
      let string ← bytesAt data pos len.toNat
      return some (pos + len.toNat, string)

/-- The loop at `pos`, with `left` columns still to come. -/
def deserializeFrom (data : Bytes) : ℕ → ℕ → Row → Except Fault Row
  | 0, _, row => .ok row
  | left + 1, pos, row =>
    if pos < data.length then do
      match ← stringAt data pos with
      | none => return row
      | some (pos, name) =>
        match ← stringAt data pos with
        | none => return row
        | some (pos, value) => deserializeFrom data left pos (row.set name value)
    else .ok row

def deserialize (data : Bytes) : Except Fault Row :=
  if data.length < 4 then .ok {}
  else do
    let countBytes ← bytesAt data 0 4
    let colCount := UInt32.ofNat (ofLe countBytes)
    deserializeFrom data colCount.toNat 4 {}

end Row

/-! ### Rows as streams of columns -/

def stringCodec : Codec UInt8 Bytes := prefixed 2 (by decide)

def columnCodec : Codec UInt8 (Bytes × Bytes) := pair stringCodec stringCodec

/-- The name and the value of a column are shorter than 65536 bytes. -/
def Short (column : Bytes × Bytes) : Prop := column.1.length < 65536 ∧ column.2.length < 65536

lemma toNat_len {n : ℕ} (h : n < 65536) : (UInt16.ofNat n).toNat = n := by
  rw [UInt16.toNat_ofNat']
  omega

lemma serializeColumn_eq (data : Bytes) {column : Bytes × Bytes} (h : Short column) :
    Row.serializeColumn data column = data ++ columnCodec.encode column := by
  have hencode : columnCodec.encode column =
      (toLe 2 column.1.length ++ column.1) ++ (toLe 2 column.2.length ++ column.2) := rfl
  rw [hencode, Row.serializeColumn, toNat_len h.1, toNat_len h.2]
  simp only [List.append_assoc]

/-- A row of short columns is their number and the stream of them. -/
lemma serialize_eq {row : Row} (h : ∀ column ∈ row.columns.toList, Short column) :
    row.serialize = toLe 4 (UInt32.ofNat row.columns.size).toNat ++
      columnCodec.encodeAll row.columns.toList := by
  rw [Row.serialize]
  generalize toLe 4 (UInt32.ofNat row.columns.size).toNat = data
  generalize row.columns.toList = columns at h
  induction columns generalizing data with
  | nil => rw [List.foldl_nil, Codec.encodeAll_nil, List.append_nil]
  | cons column columns ih =>
    rw [List.forall_mem_cons] at h
    rw [List.foldl_cons, ih _ h.2, serializeColumn_eq _ h.1, Codec.encodeAll_cons,
      List.append_assoc]

lemma bytesAt_of_le {data : Bytes} {pos len : ℕ} (h : pos + len ≤ data.length) :
    Row.bytesAt data pos len = .ok ((data.drop pos).take len) := if_pos h

/-- What the decoder reads of a string at a place is what the codec reads behind it. -/
lemma stringAt_eq (data : Bytes) (pos : ℕ) :
    Row.stringAt data pos =
      .ok ((stringCodec.read (data.drop pos)).map fun r => (pos + r.1, r.2)) := by
  have hread : stringCodec.read (data.drop pos) = readPrefixed 2 (data.drop pos) := rfl
  have hlt := ofLe_lt ((data.drop pos).take 2)
  rw [hread, Row.stringAt, readPrefixed, List.length_drop]
  by_cases hlen : data.length < pos + 2
  · rw [if_pos hlen, if_pos (by omega)]
    rfl
  · rw [List.length_take, List.length_drop, Nat.min_eq_left (by omega)] at hlt
    rw [if_neg hlen, if_neg (by omega), bytesAt_of_le (by omega)]
    dsimp only [bind, Except.bind]
    rw [toNat_len hlt]
    by_cases hcut : data.length < pos + 2 + ofLe ((data.drop pos).take 2)
    · rw [if_pos hcut, if_pos (by omega)]
      rfl
    · rw [if_neg hcut, if_neg (by omega), bytesAt_of_le (by omega), List.drop_drop,
        Option.map_some, ← Nat.add_assoc]
      rfl

def putColumns (row : Row) (columns : List (Bytes × Bytes)) : Row :=
  { row with columns := row.columns.insertMany columns }

/-- **The loop takes the next columns of the stream**, and reads nothing outside of the data. -/
lemma deserializeFrom_eq (data : Bytes) (left pos : ℕ) (row : Row) :
    Row.deserializeFrom data left pos row =
      .ok (putColumns row ((columnCodec.records (data.drop pos)).take left)) := by
  induction left generalizing pos row with
  | zero => rw [List.take_zero]; rfl
  | succ left ih =>
    rw [Row.deserializeFrom]
    split_ifs with hpos
    · rw [stringAt_eq]
      rcases hname : stringCodec.read (data.drop pos) with _ | ⟨k, name⟩
      · have hnone : columnCodec.read (data.drop pos) = none := pair_of_none hname
        rw [Framing.records_of_none hnone]
        rfl
      · dsimp only [bind, Except.bind, Option.map_some]
        rw [stringAt_eq, ← List.drop_drop]
        rcases hvalue : stringCodec.read ((data.drop pos).drop k) with _ | ⟨l, value⟩
        · have hnone : columnCodec.read (data.drop pos) = none := pair_of_some_none hname hvalue
          rw [Framing.records_of_none hnone]
          rfl
        · have hcolumn : columnCodec.read (data.drop pos) = some (k + l, name, value) :=
            pair_of_some hname hvalue
          rw [Framing.records_of_some hcolumn, List.take_succ_cons, List.drop_drop,
            ← Nat.add_assoc]
          dsimp only [Option.map_some]
          rw [ih, putColumns, putColumns, ExtTreeMap.insertMany_cons, Row.set]
    · have hnil : data.drop pos = [] := List.drop_eq_nil_of_le (by omega)
      rw [hnil, Framing.records_of_none Codec.read_nil]
      rfl

/-- The row of some columns. -/
def rowOf (columns : List (Bytes × Bytes)) : Row := ⟨ExtTreeMap.ofList columns⟩

lemma putColumns_empty (columns : List (Bytes × Bytes)) :
    putColumns {} columns = rowOf columns := by
  rw [putColumns, rowOf, ExtTreeMap.ofList_eq_insertMany_empty]

lemma mem_of_mem_rowOf {columns : List (Bytes × Bytes)} {column : Bytes × Bytes}
    (h : column ∈ (rowOf columns).columns.toList) : column ∈ columns := by
  rw [ExtTreeMap.mem_toList_iff_getElem?_eq_some, ← putColumns_empty] at h
  exact (mem_or_getElem?_of_insertMany h).resolve_right (by simp)

/-- **The rows that are read** from any data: the columns at its front, as many as it says. -/
theorem deserialize_eq (data : Bytes) : Row.deserialize data =
    .ok (rowOf (if data.length < 4 then [] else
      (columnCodec.records (data.drop 4)).take (ofLe (data.take 4)))) := by
  rw [Row.deserialize]
  split_ifs with hlen
  · rw [← putColumns_empty]
    rfl
  · have hlt := ofLe_lt (data.take 4)
    rw [List.length_take, Nat.min_eq_left (by omega)] at hlt
    have hcount : (UInt32.ofNat (ofLe (data.take 4))).toNat = ofLe (data.take 4) := by
      rw [UInt32.toNat_ofNat']
      omega
    rw [bytesAt_of_le (by omega)]
    dsimp only [bind, Except.bind]
    rw [deserializeFrom_eq, putColumns_empty, List.drop_zero, hcount]

/-! ### Cut rows -/

/-- The columns of a row that lie whole in the first `n` bytes of its data. -/
def wholeColumns (row : Row) (n : ℕ) : List (Bytes × Bytes) :=
  columnCodec.whole (n - 4) row.columns.toList

lemma length_wholeColumns_le (row : Row) (n : ℕ) :
    (wholeColumns row n).length ≤ row.columns.size := by
  rw [← ExtTreeMap.length_toList]
  exact (Codec.whole_initial _ _).length_le

lemma wholeColumns_serialize {row : Row} (h : ∀ column ∈ row.columns.toList, Short column) :
    wholeColumns row row.serialize.length = row.columns.toList := by
  refine Codec.whole_of_le ?_
  rw [serialize_eq h, List.length_append, toLe_length, Nat.add_sub_cancel_left]

/-- **Reading what is left of a row**: its whole columns, but no more than the count says. -/
theorem deserialize_cut {row : Row} (hshort : ∀ column ∈ row.columns.toList, Short column)
    {bs : Bytes} (hbefore : bs <+: row.serialize) : Row.deserialize bs =
      .ok (rowOf ((wholeColumns row bs.length).take (row.columns.size % 2 ^ 32))) := by
  have hvalid : ∀ column ∈ row.columns.toList, columnCodec.Valid column := hshort
  rw [deserialize_eq, wholeColumns]
  split_ifs with hlen
  · rw [Nat.sub_eq_zero_of_le (by omega), Codec.whole_zero hvalid, List.take_nil]
  · set data := columnCodec.encodeAll row.columns.toList with hdata
    have hbs : bs = toLe 4 (row.columns.size % 2 ^ 32) ++ data.take (bs.length - 4) := by
      have htake := List.prefix_iff_eq_take.mp hbefore
      rwa [serialize_eq hshort, UInt32.toNat_ofNat', List.take_append, toLe_length,
        List.take_of_length_le (by rw [toLe_length]; omega)] at htake
    have hcount : ofLe (bs.take 4) = row.columns.size % 2 ^ 32 := by
      rw [hbs, List.take_left' (toLe_length _ _), ofLe_toLe (by omega)]
    have hrest : bs.drop 4 = data.take (bs.length - 4) := by
      rw [hbs, List.drop_left' (toLe_length _ _), ← hbs]
    obtain ⟨tail, htorn, hcut⟩ :=
      Codec.take_encodeAll (C := columnCodec) row.columns.toList hvalid Codec.Torn.nil
        (bs.length - 4)
    have hwhole : ∀ column ∈ columnCodec.whole (bs.length - 4) row.columns.toList,
        columnCodec.Valid column := fun column hcolumn =>
      hvalid column ((Codec.whole_initial _ _).subset hcolumn)
    rw [List.append_nil, ← hdata] at hcut
    rw [hcount, hrest, hcut, Codec.records_encodeAll _ hwhole htorn]

lemma rowOf_toList (row : Row) : rowOf row.columns.toList = row := by
  rw [rowOf, ofList_toList]

/-! ### Whole rows -/

/-- A row whose columns are short, and fewer than a word can count. -/
def Fits (row : Row) : Prop :=
  (∀ column ∈ row.columns.toList, Short column) ∧ row.columns.size < 2 ^ 32

lemma short_of_read {bs : Bytes} {c : ℕ} {column : Bytes × Bytes}
    (h : columnCodec.read bs = some (c, column)) : Short column := by
  obtain ⟨k, l, hname, hvalue, -⟩ := pairRead_eq_some h
  exact ⟨(readPrefixed_eq_some hname).2.2, (readPrefixed_eq_some hvalue).2.2⟩

/-- Only rows that fit are ever read. -/
lemma fits_of_deserialize {data : Bytes} {row : Row} (h : Row.deserialize data = .ok row) :
    Fits row := by
  rw [deserialize_eq] at h
  obtain rfl := Except.ok.inj h
  have hlt := ofLe_lt (data.take 4)
  split_ifs with hlen
  · exact ⟨by simp [rowOf], by simp [rowOf]⟩
  · rw [List.length_take, Nat.min_eq_left (by omega)] at hlt
    set columns := (columnCodec.records (data.drop 4)).take (ofLe (data.take 4)) with hcolumns
    constructor
    · intro column hcolumn
      have hmem := List.mem_of_mem_take (mem_of_mem_rowOf hcolumn)
      exact Framing.forall_mem_records (fun _ _ _ => short_of_read) _ _ hmem
    · have hsize : (ExtTreeMap.ofList columns).size ≤ columns.length := ExtTreeMap.size_ofList_le
      have hcount : columns.length ≤ ofLe (data.take 4) := List.length_take_le _ _
      exact (hsize.trans hcount).trans_lt hlt

/-- The row that is read from the data of a row is that row. -/
def RoundTrips (row : Row) : Prop := Row.deserialize row.serialize = .ok row

/-- **When a row is read back**: when it fits. -/
theorem roundTrips_iff (row : Row) : RoundTrips row ↔ Fits row := by
  refine ⟨fits_of_deserialize, fun ⟨hshort, hsize⟩ => ?_⟩
  rw [RoundTrips, deserialize_cut hshort (List.prefix_refl _), wholeColumns_serialize hshort,
    Nat.mod_eq_of_lt hsize, List.take_of_length_le (by rw [ExtTreeMap.length_toList]),
    rowOf_toList]

/-- A value of 65536 bytes is not read back. -/
theorem not_roundTrips_long : ¬ ∀ row, RoundTrips row := by
  intro h
  have hshort := (fits_of_deserialize (h (({} : Row).set [] (List.replicate 65536 0)))).1
  have hmem : ([], List.replicate 65536 0) ∈
      (({} : Row).set [] (List.replicate 65536 0)).columns.toList := by
    rw [ExtTreeMap.mem_toList_iff_getElem?_eq_some, Row.set, ExtTreeMap.getElem?_insert_self]
  have hlen := (hshort _ hmem).2
  rw [List.length_replicate] at hlen
  omega

/-- What is left of a row reads as the columns that lie whole in it; the whole row is read back. -/
def ReadsPrefix (row : Row) (bs : Bytes) : Prop :=
  Row.deserialize bs = .ok (rowOf (wholeColumns row bs.length)) ∧
    (bs = row.serialize → Row.deserialize bs = .ok row)

/-- **When a cut row reads as its whole columns**: when the count in it says as many. -/
theorem readsPrefix_iff {row : Row} (hshort : ∀ column ∈ row.columns.toList, Short column)
    {bs : Bytes} (hbefore : bs <+: row.serialize) :
    ReadsPrefix row bs ↔ (wholeColumns row bs.length).length ≤ row.columns.size % 2 ^ 32 := by
  rw [ReadsPrefix, deserialize_cut hshort hbefore]
  set columns := wholeColumns row bs.length with hcolumns
  constructor
  · rintro ⟨hwhole, -⟩
    have hdistinct : columns.Pairwise fun a b => ¬ compare a.1 b.1 = .eq :=
      row.columns.distinct_keys_toList.sublist (Codec.whole_initial _ _).sublist
    have hmap : ExtTreeMap.ofList (columns.take (row.columns.size % 2 ^ 32)) =
        ExtTreeMap.ofList columns := congrArg Row.columns (Except.ok.inj hwhole)
    have hsize := ExtTreeMap.size_ofList hdistinct
    rw [← hmap] at hsize
    have hle : (ExtTreeMap.ofList (columns.take (row.columns.size % 2 ^ 32))).size ≤
        (columns.take (row.columns.size % 2 ^ 32)).length := ExtTreeMap.size_ofList_le
    rw [List.length_take] at hle
    omega
  · intro hle
    rw [List.take_of_length_le hle]
    refine ⟨rfl, ?_⟩
    rintro rfl
    rw [hcolumns, wholeColumns_serialize hshort, rowOf_toList]

/-- A row of two columns, cut inside the second. -/
theorem readsPrefix_two :
    ReadsPrefix (rowOf [([97], [49]), ([98], [50, 51])])
      ((rowOf [([97], [49]), ([98], [50, 51])]).serialize.take 16) := by
  have hcolumns : (rowOf [([97], [49]), ([98], [50, 51])]).columns.toList =
      [([97], [49]), ([98], [50, 51])] := by decide
  refine (readsPrefix_iff ?_ (List.take_prefix _ _)).mpr ?_
  · rw [hcolumns]
    simp [Short]
  · have hsize : (rowOf [([97], [49]), ([98], [50, 51])]).columns.size = 2 := by
      rw [← ExtTreeMap.length_toList, hcolumns]
      rfl
    have hle := length_wholeColumns_le (rowOf [([97], [49]), ([98], [50, 51])])
    rw [hsize] at hle ⊢
    exact hle _

/-! Rows of many columns: the names are the numbers below `n`, as four bytes. -/

def numbers (n : ℕ) : List (Bytes × Bytes) := (List.range n).map fun i => (toLe 4 i, [])

lemma distinct_numbers {n : ℕ} (h : n ≤ 2 ^ 32) :
    (numbers n).Pairwise fun a b => ¬ compare a.1 b.1 = .eq := by
  rw [numbers, List.pairwise_map]
  refine List.Pairwise.imp_of_mem ?_ List.nodup_range
  intro i j hi hj hne heq
  rw [List.mem_range] at hi hj
  have hnames := congrArg ofLe (LawfulEqOrd.eq_of_compare heq)
  rw [ofLe_toLe (by omega), ofLe_toLe (by omega)] at hnames
  exact hne hnames

lemma size_rowOf_numbers {n : ℕ} (h : n ≤ 2 ^ 32) : (rowOf (numbers n)).columns.size = n := by
  rw [rowOf, ExtTreeMap.size_ofList (distinct_numbers h), numbers, List.length_map,
    List.length_range]

lemma short_rowOf_numbers (n : ℕ) :
    ∀ column ∈ (rowOf (numbers n)).columns.toList, Short column := by
  rintro ⟨name, value⟩ hcolumn
  obtain ⟨i, -, heq⟩ := List.mem_map.mp (mem_of_mem_rowOf hcolumn)
  cases heq
  exact ⟨by rw [toLe_length]; decide, Nat.succ_pos _⟩

/-- Of a row of `2 ^ 32` columns, none is read back. -/
theorem not_readsPrefix_numbers :
    ¬ ∀ row : Row, (∀ column ∈ row.columns.toList, Short column) →
      ∀ bs, bs <+: row.serialize → ReadsPrefix row bs := by
  intro h
  set row := rowOf (numbers (2 ^ 32)) with hrow
  have hshort : ∀ column ∈ row.columns.toList, Short column := short_rowOf_numbers _
  have hsize : row.columns.size = 2 ^ 32 := size_rowOf_numbers (Nat.le_refl _)
  have hread := (h row hshort row.serialize (List.prefix_refl _)).2 rfl
  rw [deserialize_cut hshort (List.prefix_refl _), hsize, Nat.mod_self, List.take_zero] at hread
  rw [← Except.ok.inj hread] at hsize
  simp [rowOf] at hsize

end Dbx4.RowCodec
