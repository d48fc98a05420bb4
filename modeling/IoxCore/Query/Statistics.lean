import Mathlib.Data.List.Sort

/-!
# Statistics for DataFusion

`iox_query/src/statistics.rs`. `df_from_iox` converts the statistics of an IOx table summary into
DataFusion's `Statistics`, whose `column_statistics` DataFusion reads by field position. The code
looks up each summary column's position in the schema, drops the columns the schema lacks, and
sorts the rest by position.

That lines up with the schema only when every field has a summary column: a field without one gets
no entry, and every later field's statistics move up a place. `alignedColumnStatistics` states the
intended result, one entry per field with unknown statistics for a field without a column;
`dfFromIox_columnStatistics_eq_aligned` proves that the code computes it when every field has a
column, and `dfFromIox_missing_column` shows the shift on a schema whose first field has none.

The summary, schema and statistics types are those of `data_types`, `schema` and DataFusion, which
are not in the source tree; the model keeps the fields `df_from_iox` reads. `num_rows` and
`total_byte_size` come from `TableSummary` methods outside the source tree and are left out.
-/

namespace IoxCore.Query

/-- `InfluxDbType`. -/
inductive InfluxDbType
  | tag
  | field
  | timestamp
  deriving DecidableEq, Repr

/-- `StatValues<T>`: the statistics of one column. -/
structure StatValues (T : Type) where
  min : Option T
  max : Option T
  totalCount : Nat
  nullCount : Option Nat
  distinctCount : Option Nat

/-- `data_types::Statistics`, by physical type. -/
inductive Statistics
  | i64 (v : StatValues Int)
  | u64 (v : StatValues Nat)
  | f64 (v : StatValues Float)
  | bool (v : StatValues Bool)
  | string (v : StatValues String)

/-- Modelled from the spec: `Statistics::null_count`, a `data_types` helper outside the source
tree. -/
def Statistics.nullCount : Statistics → Option Nat
  | .i64 v => v.nullCount
  | .u64 v => v.nullCount
  | .f64 v => v.nullCount
  | .bool v => v.nullCount
  | .string v => v.nullCount

/-- Modelled from the spec: `Statistics::distinct_count`, a `data_types` helper outside the source
tree. -/
def Statistics.distinctCount : Statistics → Option Nat
  | .i64 v => v.distinctCount
  | .u64 v => v.distinctCount
  | .f64 v => v.distinctCount
  | .bool v => v.distinctCount
  | .string v => v.distinctCount

/-- `ColumnSummary`. -/
structure ColumnSummary where
  name : String
  influxdbType : Option InfluxDbType
  stats : Statistics

/-- `TableSummary`. -/
structure TableSummary where
  columns : List ColumnSummary

/-- The schema, as the names of its fields in order. -/
structure Schema where
  fieldNames : List String

/-- DataFusion's `ScalarValue`, the variants `min_to_scalar` and `max_to_scalar` build. -/
inductive ScalarValue
  | int64 (v : Option Int)
  | timestampNanosecond (v : Option Int)
  | uint64 (v : Option Nat)
  | float64 (v : Option Float)
  | boolean (v : Option Bool)
  | utf8 (v : Option String)

/-- DataFusion's `ColumnStatistics`. -/
structure ColumnStatistics where
  nullCount : Option Nat := none
  maxValue : Option ScalarValue := none
  minValue : Option ScalarValue := none
  distinctCount : Option Nat := none

/-- DataFusion's `Statistics`, with the fields `df_from_iox` fills from the columns. -/
structure DFStatistics where
  columnStatistics : Option (List ColumnStatistics)
  isExact : Bool

/-- The conversion of an `i64` statistic: a timestamp for the time column, an integer otherwise. -/
def i64ToScalar (influxType : Option InfluxDbType) (x : Int) : ScalarValue :=
  if influxType = some .timestamp then .timestampNanosecond (some x) else .int64 (some x)

/-- `min_to_scalar`. -/
def minToScalar (influxType : Option InfluxDbType) : Statistics → Option ScalarValue
  | .i64 v => v.min.map (i64ToScalar influxType)
  | .u64 v => v.min.map (.uint64 ∘ some)
  | .f64 v => v.min.map (.float64 ∘ some)
  | .bool v => v.min.map (.boolean ∘ some)
  | .string v => v.min.map (.utf8 ∘ some)

/-- `max_to_scalar`. -/
def maxToScalar (influxType : Option InfluxDbType) : Statistics → Option ScalarValue
  | .i64 v => v.max.map (i64ToScalar influxType)
  | .u64 v => v.max.map (.uint64 ∘ some)
  | .f64 v => v.max.map (.float64 ∘ some)
  | .bool v => v.max.map (.boolean ∘ some)
  | .string v => v.max.map (.utf8 ∘ some)

/-- `df_from_iox_col`. -/
def dfFromIoxCol (col : ColumnSummary) : ColumnStatistics where
  nullCount := col.stats.nullCount
  maxValue := maxToScalar col.influxdbType col.stats
  minValue := minToScalar col.influxdbType col.stats
  distinctCount := col.stats.distinctCount

/-- `order_map.get(name)` in `df_from_iox`: the map is collected from the enumerated fields, so a
later field of the same name wins. -/
def orderMap (schema : Schema) (name : String) : Option Nat :=
  (schema.fieldNames.enum.reverse.find? (·.2 = name)).map (·.1)

/-- The `filter_map` of `df_from_iox`: the summary columns the schema has, with their positions. -/
def positionedColumns (schema : Schema) (summary : TableSummary) : List (ColumnSummary × Nat) :=
  summary.columns.filterMap fun s => (orderMap schema s.name).map (s, ·)

/-- `df_from_iox`; `sort_by_key` is stable, as `mergeSort` is. -/
def dfFromIox (schema : Schema) (summary : TableSummary) : DFStatistics :=
  let columns := (positionedColumns schema summary).mergeSort fun a b => a.2 ≤ b.2
  { columnStatistics := some (columns.map fun c => dfFromIoxCol c.1), isExact := true }

/-! ## Lining up with the schema -/

/-- The summary column named `name`. -/
def columnNamed (summary : TableSummary) (name : String) : Option ColumnSummary :=
  summary.columns.find? (·.name = name)

/-- The statistics DataFusion expects: one entry per field, in schema order, unknown where the
summary has no column of that name. -/
def alignedColumnStatistics (schema : Schema) (summary : TableSummary) : List ColumnStatistics :=
  schema.fieldNames.map fun name => ((columnNamed summary name).map dfFromIoxCol).getD {}

/-! ## What `df_from_iox` computes -/

/-- With distinct keys, `find?` by key finds exactly the element with that key. -/
theorem find?_eq_some_iff_of_nodup {α β : Type} [DecidableEq β] {l : List α} {key : α → β}
    (h : (l.map key).Nodup) (k : β) (x : α) :
    l.find? (fun y => key y = k) = some x ↔ x ∈ l ∧ key x = k := by
  constructor
  · intro hx
    exact ⟨List.mem_of_find?_eq_some hx, by simpa using List.find?_some hx⟩
  · rintro ⟨hx, rfl⟩
    obtain ⟨y, hy⟩ := Option.isSome_iff_exists.mp
      (List.find?_isSome.mpr ⟨x, hx, by simp⟩ : (l.find? fun y => key y = key x).isSome)
    have hyk : key y = key x := by simpa using List.find?_some hy
    rw [hy, List.inj_on_of_nodup_map h (List.mem_of_find?_eq_some hy) hx hyk]

/-- With distinct field names, a name's position is the one it has in the schema. -/
theorem orderMap_eq_some_iff {schema : Schema} (hschema : schema.fieldNames.Nodup)
    (name : String) (i : Nat) :
    orderMap schema name = some i ↔ (i, name) ∈ schema.fieldNames.enum := by
  have hkeys : (schema.fieldNames.enum.reverse.map Prod.snd).Nodup := by
    rw [List.map_reverse, List.enum_map_snd]
    exact List.nodup_reverse.mpr hschema
  simp only [orderMap, Option.map_eq_some', find?_eq_some_iff_of_nodup hkeys, List.mem_reverse]
  constructor
  · rintro ⟨p, ⟨hp, rfl⟩, rfl⟩
    exact hp
  · exact fun h => ⟨_, ⟨h, rfl⟩, rfl⟩

/-- With distinct column names, `columnNamed` finds the column of that name. -/
theorem columnNamed_eq_some_iff {summary : TableSummary}
    (hsummary : (summary.columns.map (·.name)).Nodup) (name : String) (c : ColumnSummary) :
    columnNamed summary name = some c ↔ c ∈ summary.columns ∧ c.name = name :=
  find?_eq_some_iff_of_nodup hsummary name c

/-- The columns in schema order: each field's summary column, where it has one. -/
def schemaColumns (schema : Schema) (summary : TableSummary) : List (ColumnSummary × Nat) :=
  schema.fieldNames.enum.filterMap fun p => (columnNamed summary p.2).map (·, p.1)

theorem mem_positionedColumns {schema : Schema} (hschema : schema.fieldNames.Nodup)
    (summary : TableSummary) (x : ColumnSummary × Nat) :
    x ∈ positionedColumns schema summary ↔
      x.1 ∈ summary.columns ∧ (x.2, x.1.name) ∈ schema.fieldNames.enum := by
  obtain ⟨c, i⟩ := x
  simp only [positionedColumns, List.mem_filterMap, Option.map_eq_some', Prod.mk.injEq,
    orderMap_eq_some_iff hschema]
  constructor
  · rintro ⟨c', hc', i', hi', rfl, rfl⟩
    exact ⟨hc', hi'⟩
  · exact fun ⟨hc, hi⟩ => ⟨c, hc, i, hi, rfl, rfl⟩

theorem mem_schemaColumns {summary : TableSummary}
    (hsummary : (summary.columns.map (·.name)).Nodup) (schema : Schema) (x : ColumnSummary × Nat) :
    x ∈ schemaColumns schema summary ↔
      x.1 ∈ summary.columns ∧ (x.2, x.1.name) ∈ schema.fieldNames.enum := by
  obtain ⟨c, i⟩ := x
  simp only [schemaColumns, List.mem_filterMap, Option.map_eq_some', Prod.mk.injEq,
    columnNamed_eq_some_iff hsummary]
  constructor
  · rintro ⟨⟨i', n⟩, hp, c', ⟨hc', rfl⟩, rfl, rfl⟩
    exact ⟨hc', hp⟩
  · exact fun ⟨hc, hi⟩ => ⟨(i, c.name), hi, c, ⟨hc, rfl⟩, rfl, rfl⟩

/-- Positions in an enumeration strictly increase. -/
theorem pairwise_enumFrom {α : Type} (l : List α) (k : Nat) :
    (l.enumFrom k).Pairwise fun a b => a.1 < b.1 := by
  induction l generalizing k with
  | nil => exact .nil
  | cons a l ih =>
    refine List.pairwise_cons.mpr ⟨fun p hp => ?_, ih (k + 1)⟩
    obtain ⟨i, x⟩ := p
    exact Nat.lt_of_succ_le (List.mem_enumFrom hp).1

theorem pairwise_schemaColumns (schema : Schema) (summary : TableSummary) :
    (schemaColumns schema summary).Pairwise fun a b => a.2 < b.2 := by
  refine List.Pairwise.filterMap _ ?_ (pairwise_enumFrom schema.fieldNames 0)
  intro p q hpq c hc d hd
  simp only [Option.mem_def, Option.map_eq_some'] at hc hd
  obtain ⟨_, -, rfl⟩ := hc
  obtain ⟨_, -, rfl⟩ := hd
  exact hpq

/-- Sorting the positioned columns by position gives the columns in schema order. -/
theorem mergeSort_positionedColumns {schema : Schema} (hschema : schema.fieldNames.Nodup)
    {summary : TableSummary} (hsummary : (summary.columns.map (·.name)).Nodup) :
    (positionedColumns schema summary).mergeSort (fun a b => a.2 ≤ b.2) =
      schemaColumns schema summary := by
  have hstrict := pairwise_schemaColumns schema summary
  have hkeys : ((schemaColumns schema summary).map Prod.snd).Nodup :=
    List.pairwise_map.mpr (hstrict.imp ne_of_lt)
  have hnodup : (positionedColumns schema summary).Nodup := by
    refine (List.Nodup.of_map _ hsummary).filterMap fun a a' b ha ha' => ?_
    simp only [Option.mem_def, Option.map_eq_some'] at ha ha'
    obtain ⟨_, -, rfl⟩ := ha
    obtain ⟨_, -, hb⟩ := ha'
    exact (congrArg Prod.fst hb).symm
  have hperm : (positionedColumns schema summary).Perm (schemaColumns schema summary) :=
    (List.perm_ext_iff_of_nodup hnodup (hkeys.of_map _)).mpr fun x => by
      rw [mem_positionedColumns hschema, mem_schemaColumns hsummary]
  have hsorted := @List.sorted_mergeSort _ (fun a b : ColumnSummary × Nat => decide (a.2 ≤ b.2))
    (fun a b c hab hbc => by simp only [decide_eq_true_eq] at *; omega)
    (fun a b => by simpa using le_total _ _) (positionedColumns schema summary)
  have hne : ((positionedColumns schema summary).mergeSort fun a b => a.2 ≤ b.2).Pairwise
      fun a b => a.2 ≠ b.2 :=
    List.pairwise_map.mp ((((List.mergeSort_perm _ _).trans hperm).map Prod.snd).nodup_iff.mpr hkeys)
  haveI : IsAntisymm (ColumnSummary × Nat) fun a b => a.2 < b.2 :=
    ⟨fun a b hab hba => absurd (hab.trans hba) (lt_irrefl _)⟩
  refine List.eq_of_perm_of_sorted ((List.mergeSort_perm _ _).trans hperm) ?_ hstrict
  exact (hsorted.and hne).imp fun ⟨hab, hab'⟩ => lt_of_le_of_ne (by simpa using hab) hab'

/-- With distinct field and column names, `df_from_iox` lists the statistics of the fields that
have a summary column, in schema order, and nothing for the others. -/
theorem dfFromIox_columnStatistics {schema : Schema} (hschema : schema.fieldNames.Nodup)
    {summary : TableSummary} (hsummary : (summary.columns.map (·.name)).Nodup) :
    (dfFromIox schema summary).columnStatistics =
      some (schema.fieldNames.filterMap fun name => (columnNamed summary name).map dfFromIoxCol) := by
  simp only [dfFromIox, mergeSort_positionedColumns hschema hsummary, schemaColumns,
    List.map_filterMap, Option.map_map]
  conv_rhs => rw [← List.enum_map_snd schema.fieldNames, List.filterMap_map]
  rfl

/-- When every field has a summary column, `df_from_iox` lines its statistics up with the schema. -/
theorem dfFromIox_columnStatistics_eq_aligned {schema : Schema} (hschema : schema.fieldNames.Nodup)
    {summary : TableSummary} (hsummary : (summary.columns.map (·.name)).Nodup)
    (hcover : ∀ name ∈ schema.fieldNames, ∃ c ∈ summary.columns, c.name = name) :
    (dfFromIox schema summary).columnStatistics = some (alignedColumnStatistics schema summary) := by
  rw [dfFromIox_columnStatistics hschema hsummary, alignedColumnStatistics, ← List.filterMap_eq_map]
  congr 1
  refine List.filterMap_congr fun name hname => ?_
  obtain ⟨c, hc, hcn⟩ := hcover name hname
  simp [(columnNamed_eq_some_iff hsummary name c).mpr ⟨hc, hcn⟩]

/-- A schema whose first field has no summary column: `df_from_iox` returns one entry, the
statistics of the second field's column, where DataFusion expects two, the first unknown. -/
theorem dfFromIox_missing_column :
    let c1 : ColumnSummary := ⟨"c1", some .tag, .i64 ⟨some 11, some 11, 3, some 1, none⟩⟩
    (dfFromIox ⟨["time", "c1"]⟩ ⟨[c1]⟩).columnStatistics = some [dfFromIoxCol c1] ∧
      alignedColumnStatistics ⟨["time", "c1"]⟩ ⟨[c1]⟩ = [{}, dfFromIoxCol c1] := by
  intro c1
  rw [dfFromIox_columnStatistics (by decide) (by decide)]
  exact ⟨rfl, rfl⟩

end IoxCore.Query
