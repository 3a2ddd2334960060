import Mathlib.Algebra.Group.Nat.Defs
import Mathlib.Data.Finset.Card
import Mathlib.Data.Fintype.Card
import Mathlib.Data.List.TakeWhile
import Dbx4.Maps
import Dbx4.Runs
import Dbx4.CatalogModel

/-!
A catalog is what its calls say: a table is as the first call that creates it has it, with the
indexes and constraints added behind that call.
-/

namespace Dbx4.Catalog

open Std Dbx4.Maps Dbx4.Runs Dbx4.CatalogModel

variable {calls : List Call} {c : Call} {name : String}

/-! ### What the calls say -/

/-- The table a call asks for. -/
def asked : Call → Option String
  | .createTable tableName _ => some tableName
  | .addIndex .. => none
  | .addConstraint .. => none

/-- The index a call adds to a table that is there. -/
def indexOn (name : String) : Call → Option Index
  | .createTable .. => none
  | .addIndex tableName indexName columns isUnique =>
    if tableName = name then some { indexName, columns, isUnique, isPrimary := false } else none
  | .addConstraint .. => none

def constraintOn (name : String) : Call → Option Constraint
  | .createTable .. => none
  | .addIndex .. => none
  | .addConstraint tableName constraint => if tableName = name then some constraint else none

/-- The tables that the calls create. -/
def tables (calls : List Call) : Finset String := (calls.filterMap asked).toFinset

/-- The calls up to the one that creates a table. -/
def before (name : String) (calls : List Call) : List Call :=
  calls.takeWhile (asked · ≠ some name)

/-- The call that creates a table, and those behind it. -/
def since (name : String) (calls : List Call) : List Call :=
  calls.dropWhile (asked · ≠ some name)

def indexesOf (name : String) (calls : List Call) : List Index :=
  (since name calls).filterMap (indexOn name)

/-- Of the indexes with one name, the last one. -/
def indexColumns (indexes : List Index) : ExtTreeMap String (List String) :=
  indexes.foldl (fun m idx => m.insert idx.indexName idx.columns) ∅

/-- The `n`-th table is numbered `n`, in 32 bits. -/
def schemaOf (name : String) (calls : List Call) : Option TableSchema :=
  match since name calls with
  | .createTable _ columns :: _ => some
    { tableName := name
      columns
      primaryKeys := primaryKeysOf columns
      indexes := indexColumns (indexesOf name calls)
      tableId := .ofNat ((tables (before name calls)).card + 1)
      rowCount := 0 }
  | _ => none

/-- A catalog that holds what the calls say. -/
structure Describes (calls : List Call) (m : SchemaManager) : Prop where
  schemas : ∀ name, m.schemas[name]? = schemaOf name calls
  indexes : ∀ name, m.indexes[name]?.getD [] = indexesOf name calls
  constraints : ∀ name, m.constraints[name]?.getD [] =
    (since name calls).filterMap (constraintOn name)
  size : m.schemas.size = (tables calls).card
  nextTableId : m.nextTableId = .ofNat ((tables calls).card + 1)

/-! ### One call more -/

lemma mem_tables : name ∈ tables calls ↔ ∃ c ∈ calls, asked c = some name := by
  rw [tables, List.mem_toFinset, List.mem_filterMap]

lemma tables_concat : tables (calls ++ [c]) =
    (asked c).elim (tables calls) fun name => insert name (tables calls) := by
  ext name
  rcases hc : asked c with _ | tableName
  · simp [mem_tables, hc]
  · simp [mem_tables, hc, eq_comm, or_comm]

lemma since_eq_nil_iff : since name calls = [] ↔ name ∉ tables calls := by
  rw [since, List.dropWhile_eq_nil_iff, mem_tables]
  simp

lemma before_eq_self (h : name ∉ tables calls) : before name calls = calls := by
  rw [mem_tables, not_exists] at h
  exact List.takeWhile_eq_self_iff.mpr fun c hc => decide_eq_true fun he => h c ⟨hc, he⟩

lemma since_concat_of_mem (h : name ∈ tables calls) :
    since name (calls ++ [c]) = since name calls ++ [c] := by
  have hne : since name calls ≠ [] := fun he => since_eq_nil_iff.mp he h
  unfold since at hne ⊢
  rw [List.dropWhile_append, if_neg (by rwa [List.isEmpty_iff])]

lemma before_concat_of_mem (h : name ∈ tables calls) :
    before name (calls ++ [c]) = before name calls := by
  obtain ⟨d, hd, hask⟩ := mem_tables.mp h
  unfold before
  rw [List.takeWhile_append, if_neg]
  intro hlen
  have hall := List.takeWhile_eq_self_iff.mp
    ((List.takeWhile_prefix (decide <| asked · ≠ some name)).eq_of_length hlen) d hd
  exact of_decide_eq_true hall hask

lemma since_concat_of_not_mem (h : name ∉ tables calls) :
    since name (calls ++ [c]) = if asked c = some name then [c] else [] := by
  have hnil := since_eq_nil_iff.mpr h
  unfold since at hnil ⊢
  rw [List.dropWhile_append, if_pos (by rw [hnil]; rfl)]
  split_ifs with hc
  · exact List.dropWhile_cons_of_neg (by simp [hc])
  · exact List.dropWhile_cons_of_pos (by simp [hc])

/-- A call that creates a table leads what is known of it. -/
lemma since_eq_cons (h : name ∈ tables calls) :
    ∃ columns later, since name calls = .createTable name columns :: later := by
  rcases hsince : since name calls with _ | ⟨c, later⟩
  · exact absurd h (since_eq_nil_iff.mp hsince)
  · have hhead := List.head?_dropWhile_not (decide <| asked · ≠ some name) calls
    rw [← since, hsince] at hhead
    have hask : asked c = some name := not_not.mp (of_decide_eq_false hhead)
    cases c with
    | createTable tableName columns =>
      cases hask
      exact ⟨columns, later, rfl⟩
    | addIndex tableName indexName columns isUnique => cases hask
    | addConstraint tableName constraint => cases hask

lemma schemaOf_eq_none_iff : schemaOf name calls = none ↔ name ∉ tables calls := by
  constructor
  · intro h hmem
    obtain ⟨columns, later, hsince⟩ := since_eq_cons hmem
    rw [schemaOf, hsince] at h
    cases h
  · intro h
    rw [schemaOf, since_eq_nil_iff.mpr h]

/-- What is added to a table once it is there. -/
lemma filterMap_since_concat {β : Type} {f : Call → Option β}
    (hf : asked c = some name → f c = none) :
    (since name (calls ++ [c])).filterMap f =
      (since name calls).filterMap f ++ if name ∈ tables calls then (f c).toList else [] := by
  split_ifs with hmem
  · rw [since_concat_of_mem hmem, List.filterMap_append]
    rcases hc : f c with _ | b
    · simp [hc]
    · simp [hc]
  · rw [since_concat_of_not_mem hmem, since_eq_nil_iff.mpr hmem]
    split_ifs with hc
    · simp [hf hc]
    · rfl

lemma indexOn_of_asked (h : asked c = some name) : indexOn name c = none := by
  cases c with
  | createTable tableName columns => rfl
  | addIndex tableName indexName columns isUnique => cases h
  | addConstraint tableName constraint => cases h

lemma constraintOn_of_asked (h : asked c = some name) : constraintOn name c = none := by
  cases c with
  | createTable tableName columns => rfl
  | addIndex tableName indexName columns isUnique => cases h
  | addConstraint tableName constraint => cases h

/-- A table that is there gets an index more, or none. -/
lemma schemaOf_concat_of_mem (h : name ∈ tables calls) :
    schemaOf name (calls ++ [c]) = (schemaOf name calls).map fun schema =>
      { schema with
        indexes := (indexOn name c).elim schema.indexes fun idx =>
          schema.indexes.insert idx.indexName idx.columns } := by
  obtain ⟨columns, later, hsince⟩ := since_eq_cons h
  have hindexes : indexesOf name (calls ++ [c]) =
      indexesOf name calls ++ (indexOn name c).toList := by
    rw [indexesOf, filterMap_since_concat indexOn_of_asked, if_pos h, indexesOf]
  unfold schemaOf
  rw [since_concat_of_mem h, before_concat_of_mem h, hindexes, hsince, List.cons_append]
  rcases indexOn name c with _ | idx
  · rw [Option.toList_none, List.append_nil]
    rfl
  · rw [Option.toList_some, indexColumns, List.foldl_concat]
    rfl

lemma schemaOf_concat_of_not_mem (h : name ∉ tables calls) (hc : asked c ≠ some name) :
    schemaOf name (calls ++ [c]) = none := by
  rw [schemaOf, since_concat_of_not_mem h, if_neg hc]

/-- A table that is new is as the call has it. -/
lemma schemaOf_concat_create {columns : List ColumnDef} (h : name ∉ tables calls) :
    schemaOf name (calls ++ [.createTable name columns]) = some
      { tableName := name, columns, primaryKeys := primaryKeysOf columns, indexes := ∅,
        tableId := .ofNat ((tables calls).card + 1), rowCount := 0 } := by
  have hbefore : before name (calls ++ [.createTable name columns]) = calls := by
    rw [before, List.takeWhile_append, ← before, before_eq_self h, if_pos rfl,
      List.takeWhile_cons_of_neg (by simp [asked]), List.append_nil]
  have hsince : since name (calls ++ [.createTable name columns]) =
      [.createTable name columns] := by
    rw [since_concat_of_not_mem h]
    exact if_pos rfl
  rw [schemaOf, indexesOf, hsince, hbefore]
  rfl

/-! ### The catalog behind its calls -/

/-- A call goes through when it creates a table that is new, or adds to one that is there. -/
def accepted (calls : List Call) : Call → Bool
  | .createTable tableName _ => tableName ∉ tables calls
  | .addIndex tableName .. => tableName ∈ tables calls
  | .addConstraint tableName _ => tableName ∈ tables calls

variable {m : SchemaManager}

lemma describes_new : Describes [] {} where
  schemas _ := ExtTreeMap.getElem?_empty
  indexes _ := rfl
  constraints _ := rfl
  size := rfl
  nextTableId := rfl

section Refused

variable (hc : accepted calls c = false)

include hc

lemma mem_of_asked_refused (h : asked c = some name) : name ∈ tables calls := by
  cases c with
  | createTable tableName columns =>
    cases h
    exact not_not.mp (of_decide_eq_false hc)
  | addIndex tableName indexName columns isUnique => cases h
  | addConstraint tableName constraint => cases h

lemma indexOn_of_refused (h : name ∈ tables calls) : indexOn name c = none := by
  cases c with
  | createTable tableName columns => rfl
  | addIndex tableName indexName columns isUnique =>
    refine if_neg fun he => of_decide_eq_false hc ?_
    rwa [he]
  | addConstraint tableName constraint => rfl

lemma constraintOn_of_refused (h : name ∈ tables calls) : constraintOn name c = none := by
  cases c with
  | createTable tableName columns => rfl
  | addIndex tableName indexName columns isUnique => rfl
  | addConstraint tableName constraint =>
    refine if_neg fun he => of_decide_eq_false hc ?_
    rwa [he]

/-- A call that is refused says nothing. -/
lemma Describes.refused (h : Describes calls m) : Describes (calls ++ [c]) m := by
  have htables : tables (calls ++ [c]) = tables calls := by
    rw [tables_concat]
    rcases hname : asked c with _ | name
    · rfl
    · exact Finset.insert_eq_self.mpr (mem_of_asked_refused hc hname)
  constructor
  · intro name
    rw [h.schemas]
    by_cases hname : name ∈ tables calls
    · rw [schemaOf_concat_of_mem hname, indexOn_of_refused hc hname]
      rcases schemaOf name calls with _ | schema <;> rfl
    · rw [schemaOf_concat_of_not_mem hname fun he => hname (mem_of_asked_refused hc he),
        schemaOf_eq_none_iff.mpr hname]
  · intro name
    rw [indexesOf, filterMap_since_concat indexOn_of_asked, h.indexes, indexesOf]
    split_ifs with hname
    · rw [indexOn_of_refused hc hname, Option.toList_none, List.append_nil]
    · rw [List.append_nil]
  · intro name
    rw [filterMap_since_concat constraintOn_of_asked, h.constraints]
    split_ifs with hname
    · rw [constraintOn_of_refused hc hname, Option.toList_none, List.append_nil]
    · rw [List.append_nil]
  · rw [htables, h.size]
  · rw [htables, h.nextTableId]

end Refused

lemma Describes.getElem?_of_not_mem (h : Describes calls m) (hname : name ∉ tables calls) :
    m.schemas[name]? = none := by
  rw [h.schemas, schemaOf_eq_none_iff.mpr hname]

lemma Describes.getElem?_of_mem (h : Describes calls m) (hname : name ∈ tables calls) :
    ∃ schema, m.schemas[name]? = some schema := by
  rw [h.schemas]
  exact Option.ne_none_iff_exists'.mp fun he => schemaOf_eq_none_iff.mp he hname

lemma Describes.created (h : Describes calls m) {columns : List ColumnDef}
    (hname : name ∉ tables calls) :
    call m (.createTable name columns) = (true, step m (.createTable name columns)) ∧
      Describes (calls ++ [.createTable name columns]) (step m (.createTable name columns)) := by
  have hnone := h.getElem?_of_not_mem hname
  have hcall : call m (.createTable name columns) = (true, { m with
      schemas := m.schemas.insert name
        { tableName := name, columns, primaryKeys := primaryKeysOf columns, indexes := ∅,
          tableId := m.nextTableId, rowCount := 0 }
      nextTableId := m.nextTableId + 1 }) := by
    rw [call, SchemaManager.createTable, hnone]
  have htables : tables (calls ++ [.createTable name columns]) = insert name (tables calls) :=
    tables_concat
  refine ⟨by rw [step, hcall], ?_⟩
  rw [step, hcall]
  constructor
  · intro name'
    dsimp only
    by_cases he : name = name'
    · subst he
      rw [ExtTreeMap.getElem?_insert_self, schemaOf_concat_create hname, h.nextTableId]
    · rw [getElem?_insert_of_ne _ he, h.schemas]
      by_cases hname' : name' ∈ tables calls
      · rw [schemaOf_concat_of_mem hname']
        rcases schemaOf name' calls with _ | schema <;> rfl
      · rw [schemaOf_concat_of_not_mem hname' (by simpa [asked] using he),
          schemaOf_eq_none_iff.mpr hname']
  · intro name'
    rw [indexesOf, filterMap_since_concat indexOn_of_asked, h.indexes, indexesOf]
    simp [indexOn]
  · intro name'
    rw [filterMap_since_concat constraintOn_of_asked, h.constraints]
    simp [constraintOn]
  · rw [htables, Finset.card_insert_of_notMem hname, ExtTreeMap.size_insert,
      if_neg fun hmem => not_mem_of_getElem? hnone (ExtTreeMap.mem_iff_contains.mpr hmem), h.size]
  · rw [htables, Finset.card_insert_of_notMem hname, UInt32.ofNat_add (_ + 1), ← h.nextTableId]
    rfl

lemma Describes.indexed (h : Describes calls m) {indexName : String} {columns : List String}
    {isUnique : Bool} (hname : name ∈ tables calls) :
    call m (.addIndex name indexName columns isUnique) =
        (true, step m (.addIndex name indexName columns isUnique)) ∧
      Describes (calls ++ [.addIndex name indexName columns isUnique])
        (step m (.addIndex name indexName columns isUnique)) := by
  obtain ⟨schema, hschema⟩ := h.getElem?_of_mem hname
  have hcall : call m (.addIndex name indexName columns isUnique) = (true, { m with
      indexes := m.indexes.insert name (m.indexes[name]?.getD [] ++
        [{ indexName, columns, isUnique, isPrimary := false }])
      schemas := m.schemas.insert name
        { schema with indexes := schema.indexes.insert indexName columns } }) := by
    rw [call, SchemaManager.addIndex, hschema]
  have hsame : tables (calls ++ [.addIndex name indexName columns isUnique]) = tables calls :=
    tables_concat
  refine ⟨by rw [step, hcall], ?_⟩
  rw [step, hcall]
  constructor
  · intro name'
    dsimp only
    by_cases he : name = name'
    · subst he
      rw [ExtTreeMap.getElem?_insert_self, schemaOf_concat_of_mem hname, ← h.schemas, hschema]
      simp [indexOn]
    · rw [getElem?_insert_of_ne _ he, h.schemas]
      by_cases hname' : name' ∈ tables calls
      · rw [schemaOf_concat_of_mem hname', indexOn, if_neg he]
        rcases schemaOf name' calls with _ | schema <;> rfl
      · rw [schemaOf_concat_of_not_mem hname' (by simp [asked]),
          schemaOf_eq_none_iff.mpr hname']
  · intro name'
    dsimp only
    rw [indexesOf, filterMap_since_concat indexOn_of_asked, indexOn]
    by_cases he : name = name'
    · subst he
      rw [ExtTreeMap.getElem?_insert_self, if_pos hname, if_pos rfl, Option.getD_some, h.indexes]
      rfl
    · rw [getElem?_insert_of_ne _ he, if_neg he, h.indexes]
      simp [indexesOf]
  · intro name'
    rw [filterMap_since_concat constraintOn_of_asked, h.constraints]
    simp [constraintOn]
  · rw [hsame, ExtTreeMap.size_insert,
      if_pos (ExtTreeMap.mem_iff_contains.mp (mem_of_getElem? hschema)), h.size]
  · rw [hsame]
    exact h.nextTableId

lemma Describes.constrained (h : Describes calls m) {constraint : Constraint}
    (hname : name ∈ tables calls) :
    call m (.addConstraint name constraint) = (true, step m (.addConstraint name constraint)) ∧
      Describes (calls ++ [.addConstraint name constraint])
        (step m (.addConstraint name constraint)) := by
  obtain ⟨schema, hschema⟩ := h.getElem?_of_mem hname
  have hcall : call m (.addConstraint name constraint) = (true, { m with
      constraints := m.constraints.insert name
        (m.constraints[name]?.getD [] ++ [constraint]) }) := by
    rw [call, SchemaManager.addConstraint, hschema]
  have hsame : tables (calls ++ [.addConstraint name constraint]) = tables calls := tables_concat
  refine ⟨by rw [step, hcall], ?_⟩
  rw [step, hcall]
  constructor
  · intro name'
    rw [h.schemas]
    by_cases hname' : name' ∈ tables calls
    · rw [schemaOf_concat_of_mem hname']
      rcases schemaOf name' calls with _ | schema <;> rfl
    · rw [schemaOf_concat_of_not_mem hname' (by simp [asked]),
        schemaOf_eq_none_iff.mpr hname']
  · intro name'
    rw [indexesOf, filterMap_since_concat indexOn_of_asked, h.indexes, indexesOf]
    simp [indexOn]
  · intro name'
    dsimp only
    rw [filterMap_since_concat constraintOn_of_asked, constraintOn]
    by_cases he : name = name'
    · subst he
      rw [ExtTreeMap.getElem?_insert_self, if_pos hname, if_pos rfl, Option.getD_some,
        h.constraints]
      rfl
    · rw [getElem?_insert_of_ne _ he, if_neg he, h.constraints]
      simp
  · rw [hsame, h.size]
  · rw [hsame, h.nextTableId]

/-- **One call**: it is answered as the calls before it have it, and is among those behind. -/
lemma Describes.call (h : Describes calls m) (c : Call) :
    (call m c).1 = accepted calls c ∧ Describes (calls ++ [c]) (step m c) := by
  rcases hc : accepted calls c with _ | _
  · have hcall : CatalogModel.call m c = (false, m) := by
      cases c with
      | createTable tableName columns =>
        obtain ⟨schema, hschema⟩ := h.getElem?_of_mem (not_not.mp (of_decide_eq_false hc))
        rw [CatalogModel.call, SchemaManager.createTable, hschema]
      | addIndex tableName indexName columns isUnique =>
        rw [CatalogModel.call, SchemaManager.addIndex,
          h.getElem?_of_not_mem (of_decide_eq_false hc)]
      | addConstraint tableName constraint =>
        rw [CatalogModel.call, SchemaManager.addConstraint,
          h.getElem?_of_not_mem (of_decide_eq_false hc)]
    rw [step, hcall]
    exact ⟨rfl, h.refused hc⟩
  · cases c with
    | createTable tableName columns =>
      obtain ⟨hcall, hdesc⟩ := h.created (of_decide_eq_true hc)
      exact ⟨by rw [hcall], hdesc⟩
    | addIndex tableName indexName columns isUnique =>
      obtain ⟨hcall, hdesc⟩ := h.indexed (of_decide_eq_true hc)
      exact ⟨by rw [hcall], hdesc⟩
    | addConstraint tableName constraint =>
      obtain ⟨hcall, hdesc⟩ := h.constrained (of_decide_eq_true hc)
      exact ⟨by rw [hcall], hdesc⟩

lemma describes_run (calls : List Call) : Describes calls (run step {} calls) := by
  induction calls using List.reverseRecOn with
  | nil => exact describes_new
  | append_singleton calls c ih =>
    rw [run_append, run_cons, run_nil]
    exact (ih.call c).2

/-- The place of a table among those created. -/
def rank (name : String) (calls : List Call) : ℕ := (tables (before name calls)).card

lemma tables_mono {pre post : List Call} : tables pre ⊆ tables (pre ++ post) := by
  intro name hname
  obtain ⟨c, hc, hask⟩ := mem_tables.mp hname
  exact mem_tables.mpr ⟨c, List.mem_append_left _ hc, hask⟩

/-- A table is new to the calls before it. -/
lemma not_mem_before : name ∉ tables (before name calls) := by
  intro hname
  obtain ⟨c, hc, hask⟩ := mem_tables.mp hname
  have hnot : decide (asked c ≠ some name) = true :=
    List.mem_takeWhile_imp (p := fun c => decide (asked c ≠ some name)) hc
  exact of_decide_eq_true hnot hask

lemma before_append_since : before name calls ++ since name calls = calls :=
  List.takeWhile_append_dropWhile

/-- A table created behind the calls that come before another one is younger than it. -/
lemma mem_before_append {name' : String} (h : name ∈ tables calls)
    (h' : name' ∈ tables calls) (hne : name ≠ name')
    (hpre : before name calls <+: before name' calls) : name ∈ tables (before name' calls) := by
  obtain ⟨columns, later, hsince⟩ := since_eq_cons h
  obtain ⟨columns', later', hsince'⟩ := since_eq_cons h'
  obtain ⟨rest, hrest⟩ := hpre
  have hcalls : before name calls ++ since name calls =
      before name calls ++ (rest ++ since name' calls) := by
    rw [← List.append_assoc, hrest, before_append_since, before_append_since]
  rw [List.append_cancel_left_eq, hsince] at hcalls
  cases rest with
  | nil =>
    rw [List.nil_append, hsince'] at hcalls
    cases hcalls
    exact absurd rfl hne
  | cons c rest =>
    cases hcalls
    rw [← hrest]
    exact mem_tables.mpr ⟨_, List.mem_append_right _ List.mem_cons_self, rfl⟩

lemma rank_lt_append {name' : String} (h : name ∈ tables calls)
    (h' : name' ∈ tables calls) (hne : name ≠ name')
    (hpre : before name calls <+: before name' calls) : rank name calls < rank name' calls := by
  have hsub : insert name (tables (before name calls)) ⊆ tables (before name' calls) := by
    refine Finset.insert_subset (mem_before_append h h' hne hpre) ?_
    obtain ⟨rest, hrest⟩ := hpre
    rw [← hrest]
    exact tables_mono
  have hcard := Finset.card_le_card hsub
  rwa [Finset.card_insert_of_notMem not_mem_before] at hcard

lemma rank_inj {name' : String} (h : name ∈ tables calls) (h' : name' ∈ tables calls)
    (hrank : rank name calls = rank name' calls) : name = name' := by
  by_contra hne
  rcases List.prefix_or_prefix_of_prefix (List.takeWhile_prefix _ : before name calls <+: calls)
    (List.takeWhile_prefix _ : before name' calls <+: calls) with hpre | hpre
  · exact absurd hrank (rank_lt_append h h' hne hpre).ne
  · exact absurd hrank (rank_lt_append h' h (Ne.symm hne) hpre).ne'

lemma rank_lt (h : name ∈ tables calls) : rank name calls < (tables calls).card := by
  have hsub : insert name (tables (before name calls)) ⊆ tables calls := by
    refine Finset.insert_subset h ?_
    conv_rhs => rw [← @before_append_since calls name]
    exact tables_mono
  have hcard := Finset.card_le_card hsub
  rwa [Finset.card_insert_of_notMem not_mem_before] at hcard

lemma tableId_schemaOf (h : name ∈ tables calls) :
    (schemaOf name calls).map TableSchema.tableId = some (.ofNat (rank name calls + 1)) := by
  obtain ⟨columns, later, hsince⟩ := since_eq_cons h
  rw [schemaOf, hsince]
  rfl

/-- Two tables of the catalog have one number. -/
def SharesId (m : SchemaManager) : Prop :=
  ∃ name name' schema schema', name ≠ name' ∧ m.getSchema name = some schema ∧
    m.getSchema name' = some schema' ∧ schema.tableId = schema'.tableId

/-- **Numbers run out**: two tables have one number, and with it one page, exactly when more
than `2 ^ 32` tables have been created. -/
theorem sharesId_iff (calls : List Call) :
    SharesId (run step {} calls) ↔ 2 ^ 32 < (tables calls).card := by
  have hschema : ∀ name, (run step {} calls).getSchema name = schemaOf name calls :=
    (describes_run calls).schemas
  unfold SharesId
  simp only [hschema]
  constructor
  · rintro ⟨name, name', schema, schema', hne, h, h', hid⟩
    have hmem : name ∈ tables calls := by
      by_contra hnot
      rw [schemaOf_eq_none_iff.mpr hnot] at h
      cases h
    have hmem' : name' ∈ tables calls := by
      by_contra hnot
      rw [schemaOf_eq_none_iff.mpr hnot] at h'
      cases h'
    have hrank := tableId_schemaOf hmem
    have hrank' := tableId_schemaOf hmem'
    rw [h, Option.map_some, hid] at hrank
    rw [h', Option.map_some, hrank] at hrank'
    by_contra hcard
    have hlt := rank_lt hmem
    have hlt' := rank_lt hmem'
    refine hne (rank_inj hmem hmem' ?_)
    have hmod := congrArg UInt32.toNat (Option.some.inj hrank')
    rw [UInt32.toNat_ofNat', UInt32.toNat_ofNat'] at hmod
    omega
  · intro hcard
    obtain ⟨name, hmem, name', hmem', hne, hid⟩ := Finset.exists_ne_map_eq_of_card_lt_of_maps_to
      (t := Finset.range (2 ^ 32)) (f := fun name => (rank name calls + 1) % 2 ^ 32)
      (by rwa [Finset.card_range])
      (fun _ _ => Finset.mem_range.mpr (Nat.mod_lt _ (Nat.two_pow_pos 32)))
    have hrank := tableId_schemaOf hmem
    have hrank' := tableId_schemaOf hmem'
    obtain ⟨schema, hschema, hid1⟩ := Option.map_eq_some_iff.mp hrank
    obtain ⟨schema', hschema', hid2⟩ := Option.map_eq_some_iff.mp hrank'
    refine ⟨name, name', schema, schema', hne, hschema, hschema', ?_⟩
    rw [hid1, hid2, ← UInt32.toNat_inj, UInt32.toNat_ofNat', UInt32.toNat_ofNat']
    exact hid

end Dbx4.Catalog
