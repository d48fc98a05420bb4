import IoxCore.BTreeMap
import IoxCore.ReadBuffer.RowIds
import Mathlib.Data.String.Basic

/-!
# Tables of the read buffer

`read_buffer/src/table.rs`. A `Table` holds a non-empty list of immutable row groups and meta data
about all of them. `add_row_group` updates the meta data with the incoming row group
(`MetaData::update_with`); `drop_row_group` removes a row group and rebuilds the meta data from the
rest (`From<&[Arc<RowGroup>]>`, a fold of `update_with`). The read paths first check a predicate
against the meta data (`validate_exprs`), then ask the row groups.

`RowGroup`, its `ColumnMeta`, `OwnedValue` and the read buffer's schema types live in modules that
are not in the source tree. A row group is read as what the table reads of it (its size, rows and
column meta data); its predicate tests are parameters of the functions that call them. The ends of
a column's range are values of a linear order, `none` standing for `OwnedValue::Null`.
-/

namespace IoxCore.ReadBuffer

/-! ## What a table reads of its row groups -/

/-- Modelled from the spec: the read buffer's `schema::ColumnType`, which is not in the source
tree; each kind carries the column's name. -/
inductive ColumnType
  | tag (name : String)
  | field (name : String)
  | timestamp (name : String)
  deriving DecidableEq, Repr

/-- Modelled from the spec: `LogicalDataType`, which is not in the source tree. -/
inductive LogicalDataType
  | integer
  | unsigned
  | float
  | string
  | binary
  | boolean
  deriving DecidableEq, Repr

/-- Modelled from the spec: the literal of a predicate expression, `row_group::Literal`. -/
inductive Literal
  | string (v : String)
  | integer (v : Int)
  | unsigned (v : Nat)
  | float (v : Float)
  | boolean (v : Bool)

/-- A `BinaryExpr`: a column compared with a literal. A predicate is a conjunction of them. -/
structure BinaryExpr where
  column : String
  op : Operator
  literal : Literal

/-- `row_group::ColumnMeta`, by the fields the table reads: the column's types, the range of its
values (`none` for a `NULL` end), its distinct count and its number of `NULL`s. -/
structure ColumnMeta (V : Type) where
  typ : ColumnType
  logicalDataType : LogicalDataType
  range : Option V × Option V
  distinctCount : Option Nat
  nullCount : Nat

/-- A `RowGroup`, by what the table reads of it: `size()`, `rows()`, and the columns and column
names of its meta data. -/
structure RowGroup (V : Type) where
  size : Nat
  rows : Nat
  columns : BTreeMap String (ColumnMeta V)
  columnNames : List String

/-- `MetaData`. The sums of sizes and rows are read without the `usize` and `u64` bounds. -/
structure MetaData (V : Type) where
  rgsSize : Nat
  rows : Nat
  columns : BTreeMap String (ColumnMeta V)
  columnNames : List String

/-- The errors of `table.rs`. The message of `UnsupportedColumnOperation` formats types that are
not in the source tree and is left out. -/
inductive TableError
  | emptyTable
  | noTimestampColumn
  | unsupportedColumnOperation (columnName : String)
  | columnDoesNotExist (columnName : String)
  deriving DecidableEq, Repr

variable {V : Type}

/-! ## The schema check -/

/-- Modelled from the spec: the two column metas agree for the schema check of `update_with`.
`ColumnMeta`'s equality is not in the source tree (it lives in `row_group.rs`); the tests add row
groups with other ranges and counts under the `assert_eq`, so it compares the types only. -/
def ColumnMeta.schemaEq (a b : ColumnMeta V) : Bool :=
  a.typ == b.typ && a.logicalDataType == b.logicalDataType

/-- `assert_eq!(&this.columns, &other_meta.columns)`: the maps have the same entries, in order,
up to `schemaEq`. -/
def columnsEq (m m' : BTreeMap String (ColumnMeta V)) : Bool :=
  m.entries.length == m'.entries.length &&
    (m.entries.zip m'.entries).all fun p => p.1.1 == p.2.1 && p.1.2.schemaEq p.2.2

/-- What the schema check reads of a column: its name and its two types. -/
def columnSchema (p : String × ColumnMeta V) : String × ColumnType × LogicalDataType :=
  (p.1, p.2.typ, p.2.logicalDataType)

/-- The schema check holds exactly when the two maps list the same names with the same types. -/
theorem columnsEq_iff {m m' : BTreeMap String (ColumnMeta V)} :
    columnsEq m m' = true ↔ m.entries.map columnSchema = m'.entries.map columnSchema := by
  unfold columnsEq
  generalize m.entries = l, m'.entries = l'
  induction l generalizing l' with
  | nil => cases l' <;> simp
  | cons a l ih =>
    cases l' with
    | nil => simp
    | cons b l' =>
      simp only [List.length_cons, List.zip_cons_cons, List.all_cons, List.map_cons,
        List.cons.injEq, ← ih l', Nat.add_right_cancel_iff, beq_iff_eq, Bool.and_eq_true]
      simp only [columnSchema, ColumnMeta.schemaEq, Prod.mk.injEq, beq_iff_eq, Bool.and_eq_true]
      tauto

theorem map_fst_columnSchema (l : List (String × ColumnMeta V)) :
    (l.map columnSchema).map Prod.fst = l.map Prod.fst := by
  rw [List.map_map]; rfl

/-! ## The ends of a column's range over row groups -/

/-- The non-`NULL` lower ends of column `c` over the row groups `rgs`. -/
def lows (rgs : List (RowGroup V)) (c : String) : List V :=
  rgs.filterMap fun rg => (rg.columns.get? c).bind fun cm => cm.range.1

/-- The non-`NULL` upper ends of column `c` over the row groups `rgs`. -/
def highs (rgs : List (RowGroup V)) (c : String) : List V :=
  rgs.filterMap fun rg => (rg.columns.get? c).bind fun cm => cm.range.2

theorem lows_append_of_get? {rgs : List (RowGroup V)} {rg : RowGroup V} {c : String}
    {cm : ColumnMeta V} (h : rg.columns.get? c = some cm) :
    lows (rgs ++ [rg]) c = lows rgs c ++ cm.range.1.toList := by
  cases hr : cm.range.1 <;> simp [lows, h, hr]

theorem highs_append_of_get? {rgs : List (RowGroup V)} {rg : RowGroup V} {c : String}
    {cm : ColumnMeta V} (h : rg.columns.get? c = some cm) :
    highs (rgs ++ [rg]) c = highs rgs c ++ cm.range.2.toList := by
  cases hr : cm.range.2 <;> simp [highs, h, hr]

/-! ## `update_with` and the rebuild -/

variable [LinearOrder V]

/-- Modelled from the spec: `OwnedValue::update_min`, which is not in the source tree: a `NULL`
end gives way to any value, as the tests with all-`NULL` row groups show, and otherwise the least
value is kept. -/
def updateMin : Option V → Option V → Option V
  | none, b => b
  | some a, none => some a
  | some a, some b => some (min a b)

/-- Modelled from the spec: `OwnedValue::update_max`, the same with the greatest value. -/
def updateMax : Option V → Option V → Option V
  | none, b => b
  | some a, none => some a
  | some a, some b => some (max a b)

/-- The body of `update_with`'s loop for one column: the distinct count is dropped and the range
widened by the incoming one. -/
def ColumnMeta.merge (curr incoming : ColumnMeta V) : ColumnMeta V :=
  { curr with
    distinctCount := none
    range := (updateMin curr.range.1 incoming.range.1, updateMax curr.range.2 incoming.range.2) }

/-- `MetaData::new`. -/
def MetaData.new (rg : RowGroup V) : MetaData V :=
  ⟨rg.size, rg.rows, rg.columns, rg.columnNames⟩

/-- The loop of `update_with` over the incoming columns: `get_mut(..).unwrap()`, `none` where
it panics. -/
def mergeColumns (columns : BTreeMap String (ColumnMeta V)) (incoming : List (String × ColumnMeta V)) :
    Option (BTreeMap String (ColumnMeta V)) :=
  incoming.foldlM (fun columns p => (columns.get? p.1).map fun curr =>
    columns.insert p.1 (curr.merge p.2)) columns

/-- `MetaData::update_with`; `none` where the schema assertion panics. -/
def MetaData.updateWith (this : MetaData V) (rg : RowGroup V) : Option (MetaData V) :=
  if this.columns.entries.isEmpty then some (MetaData.new rg)
  else if !columnsEq this.columns rg.columns then none
  else (mergeColumns this.columns rg.columns.entries).map fun columns =>
    { this with rgsSize := this.rgsSize + rg.size, rows := this.rows + rg.rows, columns }

/-- `From<&[Arc<RowGroup>]> for MetaData`; `none` where it panics. -/
def MetaData.ofRowGroups : List (RowGroup V) → Option (MetaData V)
  | [] => none
  | rg :: rgs => rgs.foldlM MetaData.updateWith (MetaData.new rg)

/-! ## Ranges -/

@[simp] theorem min?_toList (o : Option V) : o.toList.min? = o := by cases o <;> rfl

@[simp] theorem max?_toList (o : Option V) : o.toList.max? = o := by cases o <;> rfl

/-- `update_min` folds one more end into the least of a list of ends. -/
theorem updateMin_min? (l : List V) (o : Option V) : updateMin l.min? o = (l ++ o.toList).min? := by
  cases l with
  | nil => cases o <;> rfl
  | cons a l => cases o <;> simp [updateMin, List.min?, List.foldl_append]

theorem updateMax_max? (l : List V) (o : Option V) : updateMax l.max? o = (l ++ o.toList).max? := by
  cases l with
  | nil => cases o <;> rfl
  | cons a l => cases o <;> simp [updateMax, List.max?, List.foldl_append]

/-! ## What the meta data says of its row groups -/

/-- The meta data of column `c` of a table holding the row groups `rgs`, when the column's meta
data in the first of them is `cm`: its range runs from the least non-`NULL` lower end to the
greatest non-`NULL` upper end, its distinct count survives only while there is one row group,
and its types and `NULL` count are the first row group's. -/
def summaryColumn (rgs : List (RowGroup V)) (c : String) (cm : ColumnMeta V) : ColumnMeta V :=
  { cm with
    range := ((lows rgs c).min?, (highs rgs c).max?)
    distinctCount := if rgs.length = 1 then cm.distinctCount else none }

theorem summaryColumn_singleton {rg : RowGroup V} {c : String} {cm : ColumnMeta V}
    (h : rg.columns.get? c = some cm) : summaryColumn [rg] c cm = cm := by
  have hl : lows [rg] c = cm.range.1.toList := @lows_append_of_get? _ [] _ _ _ h
  have hh : highs [rg] c = cm.range.2.toList := @highs_append_of_get? _ [] _ _ _ h
  simp only [summaryColumn, hl, hh, min?_toList, max?_toList, List.length_singleton, if_true]

/-- One more row group, whose meta data for the column is `cm'`, merged into the summary. -/
theorem summaryColumn_merge {rgs : List (RowGroup V)} {rg : RowGroup V} {c : String}
    {cm cm' : ColumnMeta V} (hrgs : rgs ≠ []) (h : rg.columns.get? c = some cm') :
    (summaryColumn rgs c cm).merge cm' = summaryColumn (rgs ++ [rg]) c cm := by
  have hlen : (rgs ++ [rg]).length ≠ 1 := by
    have := List.length_pos.mpr hrgs
    rw [List.length_append, List.length_singleton]
    omega
  simp only [summaryColumn, ColumnMeta.merge, updateMin_min?, updateMax_max?,
    lows_append_of_get? h, highs_append_of_get? h, if_neg hlen]

/-! ## The loop of `update_with` -/

/-- The column `q` after `update_with` merged the incoming columns `incoming` into it. -/
def mergeEntry (incoming : List (String × ColumnMeta V)) (q : String × ColumnMeta V) :
    String × ColumnMeta V :=
  match BTreeMap.lookup q.1 incoming with
  | some cm => (q.1, q.2.merge cm)
  | none => q

/-- Merging sorted incoming columns that the map all holds never panics, and merges each column
in place. -/
theorem mergeColumns_entries {incoming : List (String × ColumnMeta V)}
    (hs : incoming.Pairwise fun a b => a.1 < b.1) (columns : BTreeMap String (ColumnMeta V))
    (hget : ∀ p ∈ incoming, (columns.get? p.1).isSome) :
    ∃ m, mergeColumns columns incoming = some m ∧
      m.entries = columns.entries.map (mergeEntry incoming) := by
  induction incoming generalizing columns with
  | nil => exact ⟨columns, rfl, (List.map_id _).symm.trans (List.map_congr_left fun _ _ => rfl)⟩
  | cons p incoming ih =>
    rw [List.pairwise_cons] at hs
    obtain ⟨curr, hcurr⟩ := Option.isSome_iff_exists.mp (hget p (List.mem_cons_self _ _))
    have hget' : ∀ p' ∈ incoming, ((columns.insert p.1 (curr.merge p.2)).get? p'.1).isSome := by
      intro p' hp'
      rw [BTreeMap.get?_insert]
      split_ifs
      · rfl
      · exact hget p' (List.mem_cons_of_mem _ hp')
    obtain ⟨m, hm, hentries⟩ := ih hs.2 _ hget'
    refine ⟨m, by simpa [mergeColumns, hcurr] using hm, ?_⟩
    rw [hentries, BTreeMap.entries_insert_of_get? hcurr, List.map_map]
    refine List.map_congr_left fun q hq => ?_
    by_cases hqp : q.1 = p.1
    · have hq : columns.get? p.1 = some q.2 := hqp ▸ (BTreeMap.mem_entries_iff _ _ _).mp hq
      rw [hcurr, Option.some_inj] at hq
      simp [mergeEntry, BTreeMap.lookup, hqp, hq, BTreeMap.lookup_eq_none_of_lt hs.1]
    · simp [mergeEntry, BTreeMap.lookup, hqp, Ne.symm hqp]

/-! ## Meta data that summarises row groups -/

/-- The meta data `meta` summarises the row groups `first :: rest`: sizes and rows are summed,
the column names are the first row group's, every row group has the first's schema, and each
column's meta data is its `summaryColumn` over all of them. -/
structure Summarises (first : RowGroup V) (rest : List (RowGroup V)) (meta : MetaData V) :
    Prop where
  rgsSize_eq : meta.rgsSize = ((first :: rest).map RowGroup.size).sum
  rows_eq : meta.rows = ((first :: rest).map RowGroup.rows).sum
  columnNames_eq : meta.columnNames = first.columnNames
  schema_eq : ∀ rg ∈ rest, columnsEq first.columns rg.columns = true
  columns_eq : meta.columns.entries =
    first.columns.entries.map fun p => (p.1, summaryColumn (first :: rest) p.1 p.2)

namespace Summarises

variable {first rg : RowGroup V} {rest : List (RowGroup V)} {meta : MetaData V}

theorem new (rg : RowGroup V) : Summarises rg [] (MetaData.new rg) where
  rgsSize_eq := by simp [MetaData.new]
  rows_eq := by simp [MetaData.new]
  columnNames_eq := rfl
  schema_eq := by simp
  columns_eq := by
    refine ((List.map_congr_left fun p hp => ?_).trans (List.map_id _)).symm
    rw [summaryColumn_singleton ((BTreeMap.mem_entries_iff _ _ _).mp hp)]
    rfl

theorem schema_columns (h : Summarises first rest meta) :
    meta.columns.entries.map columnSchema = first.columns.entries.map columnSchema := by
  rw [h.columns_eq, List.map_map]
  rfl

/-- Every row group summarised has the first one's schema. -/
theorem schema_of_mem (h : Summarises first rest meta) {rg : RowGroup V} (hrg : rg ∈ first :: rest) :
    rg.columns.entries.map columnSchema = first.columns.entries.map columnSchema := by
  rcases List.mem_cons.mp hrg with rfl | hrg
  · rfl
  · exact (columnsEq_iff.mp (h.schema_eq rg hrg)).symm

theorem columnsEq_left (h : Summarises first rest meta) (m : BTreeMap String (ColumnMeta V)) :
    columnsEq meta.columns m = columnsEq first.columns m :=
  Bool.eq_iff_iff.mpr (by rw [columnsEq_iff, columnsEq_iff, h.schema_columns])

theorem entries_ne_nil (h : Summarises first rest meta) (hne : first.columns.entries ≠ []) :
    meta.columns.entries ≠ [] := by
  simpa [h.columns_eq] using hne

/-- One `update_with` of a row group with the first's schema keeps the summary. -/
theorem updateWith (h : Summarises first rest meta) (hne : first.columns.entries ≠ [])
    (hrg : columnsEq first.columns rg.columns = true) :
    ∃ meta', meta.updateWith rg = some meta' ∧ Summarises first (rest ++ [rg]) meta' := by
  have hkeys : first.columns.entries.map Prod.fst = rg.columns.entries.map Prod.fst := by
    rw [← map_fst_columnSchema, columnsEq_iff.mp hrg, map_fst_columnSchema]
  have hkeys' : meta.columns.entries.map Prod.fst = rg.columns.entries.map Prod.fst := by
    rw [← map_fst_columnSchema, h.schema_columns, map_fst_columnSchema, hkeys]
  obtain ⟨columns, hm, hentries⟩ := mergeColumns_entries rg.columns.sorted meta.columns
    fun p hp => by rw [BTreeMap.get?_isSome_iff, hkeys']; exact List.mem_map_of_mem _ hp
  refine ⟨{ meta with rgsSize := meta.rgsSize + rg.size, rows := meta.rows + rg.rows, columns },
    by simp [MetaData.updateWith, h.entries_ne_nil hne, h.columnsEq_left, hrg, hm], ?_⟩
  exact {
    rgsSize_eq := by simp [h.rgsSize_eq, Nat.add_assoc]
    rows_eq := by simp [h.rows_eq, Nat.add_assoc]
    columnNames_eq := h.columnNames_eq
    schema_eq := fun r hr => (List.mem_append.mp hr).elim (h.schema_eq r) fun hr => by
      rwa [List.mem_singleton.mp hr]
    columns_eq := by
      rw [hentries, h.columns_eq, List.map_map]
      refine List.map_congr_left fun p hp => ?_
      obtain ⟨cm, hcm⟩ := Option.isSome_iff_exists.mp
        ((BTreeMap.get?_isSome_iff _ _).mpr (hkeys ▸ List.mem_map_of_mem Prod.fst hp))
      have hlookup : BTreeMap.lookup p.1 rg.columns.entries = some cm := hcm
      simp only [Function.comp, mergeEntry, hlookup, summaryColumn_merge (List.cons_ne_nil _ _) hcm]
      rfl }

/-- `update_with` of a row group with another schema than the first's panics. -/
theorem updateWith_eq_none (h : Summarises first rest meta) (hne : first.columns.entries ≠ [])
    (hrg : columnsEq first.columns rg.columns = false) : meta.updateWith rg = none := by
  simp [MetaData.updateWith, h.entries_ne_nil hne, h.columnsEq_left, hrg]

/-- Folding `update_with` over row groups with the first's schema keeps the summary. -/
theorem foldlM_updateWith (h : Summarises first rest meta) (hne : first.columns.entries ≠ [])
    (rgs : List (RowGroup V)) (hrgs : ∀ rg ∈ rgs, columnsEq first.columns rg.columns = true) :
    ∃ meta', rgs.foldlM MetaData.updateWith meta = some meta' ∧
      Summarises first (rest ++ rgs) meta' := by
  induction rgs generalizing rest meta with
  | nil => exact ⟨meta, rfl, by simpa using h⟩
  | cons rg rgs ih =>
    obtain ⟨meta₁, h₁, hs₁⟩ := h.updateWith hne (hrgs rg (List.mem_cons_self _ _))
    obtain ⟨meta', h', hs'⟩ := ih hs₁ fun r hr => hrgs r (List.mem_cons_of_mem _ hr)
    exact ⟨meta', by rw [List.foldlM_cons, h₁]; exact h', by simpa using hs'⟩

/-- Folding `update_with` over row groups one of which has another schema panics. -/
theorem foldlM_updateWith_eq_none (h : Summarises first rest meta)
    (hne : first.columns.entries ≠ []) {rgs : List (RowGroup V)}
    (hbad : ∃ rg ∈ rgs, columnsEq first.columns rg.columns = false) :
    rgs.foldlM MetaData.updateWith meta = none := by
  induction rgs generalizing rest meta with
  | nil => simp at hbad
  | cons rg rgs ih =>
    rw [List.foldlM_cons]
    cases hrg : columnsEq first.columns rg.columns
    · rw [h.updateWith_eq_none hne hrg]
      rfl
    · obtain ⟨meta₁, h₁, hs₁⟩ := h.updateWith hne hrg
      rw [h₁]
      exact ih hs₁ (by simpa [hrg] using hbad)

end Summarises

/-- The rebuild of the meta data from row groups whose first has a column panics exactly when
a row group's schema differs from the first's. -/
theorem ofRowGroups_isSome_iff {first : RowGroup V} {rest : List (RowGroup V)}
    (hne : first.columns.entries ≠ []) :
    (MetaData.ofRowGroups (first :: rest)).isSome ↔
      ∀ rg ∈ rest, columnsEq first.columns rg.columns = true := by
  constructor
  · intro hs
    by_contra hbad
    simp only [not_forall, Bool.not_eq_true, exists_prop] at hbad
    simp [MetaData.ofRowGroups, (Summarises.new first).foldlM_updateWith_eq_none hne hbad] at hs
  · intro hall
    obtain ⟨meta, hm, -⟩ := (Summarises.new first).foldlM_updateWith hne rest hall
    simp [MetaData.ofRowGroups, hm]

theorem summarises_of_ofRowGroups {first : RowGroup V} {rest : List (RowGroup V)}
    {meta : MetaData V} (hne : first.columns.entries ≠ [])
    (h : MetaData.ofRowGroups (first :: rest) = some meta) : Summarises first rest meta := by
  obtain ⟨meta', hm, hs⟩ := (Summarises.new first).foldlM_updateWith hne rest
    ((ofRowGroups_isSome_iff hne).mp (by simp [h]))
  rw [MetaData.ofRowGroups, hm, Option.some_inj] at h
  exact h ▸ by simpa using hs

/-! ## The table -/

/-- A `Table`: its row groups and their meta data (`RowGroupData`). A table holds at least one
row group. -/
structure Table (V : Type) where
  data : List (RowGroup V)
  meta : MetaData V
  data_ne_nil : data ≠ []

namespace Table

/-- `Table::with_row_group`. -/
def withRowGroup (rg : RowGroup V) : Table V :=
  ⟨[rg], MetaData.new rg, List.cons_ne_nil _ _⟩

/-- `Table::add_row_group`; `none` where `update_with` panics. -/
def addRowGroup (t : Table V) (rg : RowGroup V) : Option (Table V) :=
  (t.meta.updateWith rg).map fun meta => ⟨t.data ++ [rg], meta, by simp⟩

/-- `Table::drop_row_group`: `EmptyTable` for the last row group; `none` where
`Vec::remove` panics on a position past the end, or the rebuild of the meta data panics. -/
def dropRowGroup (t : Table V) (position : Nat) : Option (Except TableError (Table V)) :=
  if h : 1 < t.data.length then
    if hp : position < t.data.length then
      (MetaData.ofRowGroups (t.data.eraseIdx position)).map fun meta =>
        .ok ⟨t.data.eraseIdx position, meta, by
          rw [← List.length_pos, List.length_eraseIdx, if_pos hp]
          omega⟩
    else none
  else some (.error .emptyTable)

/-- `Table::rows`. -/
def rows (t : Table V) : Nat := t.meta.rows

/-- The tables that `with_row_group`, `add_row_group` and `drop_row_group` build. -/
inductive Reachable : Table V → Prop
  | withRowGroup (rg : RowGroup V) : Reachable (withRowGroup rg)
  | addRowGroup {t t' : Table V} (rg : RowGroup V) :
      Reachable t → t.addRowGroup rg = some t' → Reachable t'
  | dropRowGroup {t t' : Table V} (position : Nat) :
      Reachable t → t.dropRowGroup position = some (.ok t') → Reachable t'

variable {t t' : Table V}

theorem addRowGroup_eq_none {rg : RowGroup V} :
    t.addRowGroup rg = none ↔ t.meta.updateWith rg = none := by
  simp [addRowGroup]

theorem data_of_addRowGroup {rg : RowGroup V} (h : t.addRowGroup rg = some t') :
    t.meta.updateWith rg = some t'.meta ∧ t'.data = t.data ++ [rg] := by
  obtain ⟨meta, hm, rfl⟩ := Option.map_eq_some'.mp h
  exact ⟨hm, rfl⟩

theorem data_of_dropRowGroup {position : Nat} (h : t.dropRowGroup position = some (.ok t')) :
    t'.data = t.data.eraseIdx position ∧ MetaData.ofRowGroups t'.data = some t'.meta := by
  unfold dropRowGroup at h
  split_ifs at h
  · obtain ⟨meta, hm, h⟩ := Option.map_eq_some'.mp h
    cases h
    exact ⟨rfl, hm⟩
  · simp at h

/-- The meta data of a reachable table is the rebuild from its row groups. -/
theorem Reachable.ofRowGroups (h : t.Reachable) : MetaData.ofRowGroups t.data = some t.meta := by
  induction h with
  | withRowGroup rg => rfl
  | @addRowGroup t t' rg _ hadd ih =>
    obtain ⟨hm, hd⟩ := data_of_addRowGroup hadd
    obtain ⟨first, rest, hfr⟩ := List.exists_cons_of_ne_nil t.data_ne_nil
    rw [hfr, MetaData.ofRowGroups] at ih
    rw [hd, hfr, List.cons_append, MetaData.ofRowGroups, List.foldlM_append, ih]
    simpa using hm
  | dropRowGroup _ _ hdrop _ => exact (data_of_dropRowGroup hdrop).2

/-- After any run of `with_row_group`, `add_row_group` and `drop_row_group`, a table whose first
row group has a column holds meta data that summarises its row groups. -/
theorem Reachable.summarises (h : t.Reachable) {first : RowGroup V} {rest : List (RowGroup V)}
    (hdata : t.data = first :: rest) (hne : first.columns.entries ≠ []) :
    Summarises first rest t.meta :=
  summarises_of_ofRowGroups hne (hdata ▸ h.ofRowGroups)

/-- A row group of two rows with one timestamp column, whose values run from `lo` to `hi`. -/
def timeRowGroup (lo hi : Nat) : RowGroup Nat :=
  ⟨16, 2, ⟨[("time", ⟨.timestamp "time", .integer, (some lo, some hi), some 2, 0⟩)], by simp⟩,
    ["time"]⟩

theorem timeRowGroup_get?_time (lo hi : Nat) : (timeRowGroup lo hi).columns.get? "time" =
    some ⟨.timestamp "time", .integer, (some lo, some hi), some 2, 0⟩ := by
  simp [timeRowGroup, BTreeMap.get?, BTreeMap.lookup]

theorem timeRowGroup_get?_region (lo hi : Nat) :
    (timeRowGroup lo hi).columns.get? "region" = none := by
  simp [timeRowGroup, BTreeMap.get?, BTreeMap.lookup]

theorem addRowGroup_timeRowGroup_isSome :
    ((withRowGroup (timeRowGroup 1 5)).addRowGroup (timeRowGroup 3 9)).isSome := by
  obtain ⟨meta, hm, -⟩ := (Summarises.new (timeRowGroup 1 5)).updateWith (List.cons_ne_nil _ _)
    (columnsEq_iff.mpr rfl : columnsEq _ (timeRowGroup 3 9).columns = true)
  simp [addRowGroup, withRowGroup, hm]

/-- The table of the row groups `timeRowGroup 1 5` and `timeRowGroup 3 9`. -/
def twoRowGroups : Table Nat :=
  ((withRowGroup (timeRowGroup 1 5)).addRowGroup (timeRowGroup 3 9)).get
    addRowGroup_timeRowGroup_isSome

theorem twoRowGroups_reachable : twoRowGroups.Reachable :=
  .addRowGroup _ (.withRowGroup _) (Option.some_get _).symm

theorem twoRowGroups_data : twoRowGroups.data = [timeRowGroup 1 5, timeRowGroup 3 9] :=
  (data_of_addRowGroup (Option.some_get addRowGroup_timeRowGroup_isSome).symm).2

theorem twoRowGroups_summarises :
    Summarises (timeRowGroup 1 5) [timeRowGroup 3 9] twoRowGroups.meta :=
  Reachable.summarises twoRowGroups_reachable twoRowGroups_data (List.cons_ne_nil _ _)

/-- On a reachable table, `add_row_group` panics exactly on a row group whose schema differs from
the first row group's. -/
theorem Reachable.addRowGroup_eq_none_iff (h : t.Reachable) {first : RowGroup V}
    {rest : List (RowGroup V)} (hdata : t.data = first :: rest) (hne : first.columns.entries ≠ [])
    (rg : RowGroup V) : t.addRowGroup rg = none ↔ columnsEq first.columns rg.columns = false := by
  have hs := summarises_of_ofRowGroups hne (hdata ▸ h.ofRowGroups)
  rw [addRowGroup_eq_none]
  cases hrg : columnsEq first.columns rg.columns
  · simp [hs.updateWith_eq_none hne hrg]
  · obtain ⟨meta', hm, -⟩ := hs.updateWith hne hrg
    simp [hm]

theorem addRowGroup_twoRowGroups_eq_none_iff :
    twoRowGroups.addRowGroup (timeRowGroup 0 0) = none ↔
      columnsEq (timeRowGroup 1 5).columns (timeRowGroup 0 0).columns = false :=
  Reachable.addRowGroup_eq_none_iff twoRowGroups_reachable twoRowGroups_data (List.cons_ne_nil _ _)
    (timeRowGroup 0 0)

/-- On a reachable table of more than one row group, `drop_row_group` at a position in range
removes that row group and never panics in the rebuild of the meta data. -/
theorem Reachable.dropRowGroup_ok (h : t.Reachable) {first : RowGroup V}
    {rest : List (RowGroup V)} (hdata : t.data = first :: rest) (hne : first.columns.entries ≠ [])
    {position : Nat} (hlen : 1 < t.data.length) (hpos : position < t.data.length) :
    ∃ t', t.dropRowGroup position = some (.ok t') ∧ t'.data = t.data.eraseIdx position := by
  have hs := summarises_of_ofRowGroups hne (hdata ▸ h.ofRowGroups)
  have hschema : ∀ rg ∈ t.data,
      rg.columns.entries.map columnSchema = first.columns.entries.map columnSchema :=
    fun rg hrg => hs.schema_of_mem (hdata ▸ hrg)
  obtain ⟨first', rest', hl⟩ := @List.exists_cons_of_ne_nil _ (t.data.eraseIdx position) (by
    rw [← List.length_pos, List.length_eraseIdx, if_pos hpos]
    omega)
  have hmem : ∀ rg ∈ first' :: rest', rg ∈ t.data := fun rg hrg =>
    List.mem_of_mem_eraseIdx (hl ▸ hrg)
  have hfirst' := hschema first' (hmem first' (List.mem_cons_self _ _))
  have hne' : first'.columns.entries ≠ [] := fun h0 => hne (by simpa [h0] using hfirst'.symm)
  obtain ⟨meta, hmeta⟩ := Option.isSome_iff_exists.mp ((ofRowGroups_isSome_iff hne').mpr
    fun rg hrg => columnsEq_iff.mpr (hfirst'.trans
      (hschema rg (hmem rg (List.mem_cons_of_mem _ hrg))).symm))
  rw [← hl] at hmeta
  simp only [Table.dropRowGroup, dif_pos hlen, dif_pos hpos, hmeta, Option.map_some']
  exact ⟨_, rfl, rfl⟩

theorem dropRowGroup_twoRowGroups_ok :
    1 < twoRowGroups.data.length ∧ ∃ t', twoRowGroups.dropRowGroup 0 = some (.ok t') ∧
      t'.data = twoRowGroups.data.eraseIdx 0 :=
  have hlen : 1 < twoRowGroups.data.length := by simp [twoRowGroups_data]
  ⟨hlen, Reachable.dropRowGroup_ok twoRowGroups_reachable twoRowGroups_data (List.cons_ne_nil _ _)
    hlen (by omega)⟩

end Table

end IoxCore.ReadBuffer
