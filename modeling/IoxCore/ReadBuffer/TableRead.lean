import IoxCore.ReadBuffer.Table
import Mathlib.Data.Finset.Basic

/-!
# Reads of a read-buffer table

The read paths of `read_buffer/src/table.rs`. Each first checks the predicate against the table's
meta data (`MetaData::validate_exprs`, a `try_fold` that stops at the first expression whose
column is missing or whose literal does not fit the column's type), then hands the predicate to
the row groups that might satisfy it. What a row group answers (`RowGroup::satisfies_predicate`,
`could_satisfy_conjunctive_binary_expressions`, `column_names`, `column_values`) is computed in
`row_group.rs`, which is not in the source tree, so it is a parameter here.

The results: `validate_exprs` returns the predicate unchanged or the first error;
`satisfies_predicate`'s own check that every column exists never decides anything; the short
circuit of `column_names` agrees with the full scan wherever the scan succeeds; and the tag check
of `column_values` reads the requested names against a list from which missing names were
dropped.
-/

namespace IoxCore.ReadBuffer

variable {V : Type}

/-! ## Predicate validation -/

/-- The literal kinds `validate_exprs` accepts for a column of each logical type: a binary
column is compared with a string literal. -/
def literalFits : LogicalDataType → Literal → Bool
  | .integer, .integer _ => true
  | .unsigned, .unsigned _ => true
  | .float, .float _ => true
  | .string, .string _ => true
  | .binary, .string _ => true
  | .boolean, .boolean _ => true
  | _, _ => false

/-- One step of the `try_fold` of `validate_exprs`. -/
def MetaData.validateExpr (this : MetaData V) (arr : List BinaryExpr) (expr : BinaryExpr) :
    Except TableError (List BinaryExpr) :=
  match this.columns.get? expr.column with
  | some colMeta =>
    if literalFits colMeta.logicalDataType expr.literal then .ok (arr ++ [expr])
    else .error (.unsupportedColumnOperation expr.column)
  | none => .error (.columnDoesNotExist expr.column)

/-- `MetaData::validate_exprs`. -/
def MetaData.validateExprs (this : MetaData V) (exprs : List BinaryExpr) :
    Except TableError (List BinaryExpr) :=
  exprs.foldlM this.validateExpr []

/-- The error `validate_exprs` reports for the expression `expr`, if any. -/
def MetaData.exprError (this : MetaData V) (expr : BinaryExpr) : Option TableError :=
  match this.columns.get? expr.column with
  | some colMeta =>
    if literalFits colMeta.logicalDataType expr.literal then none
    else some (.unsupportedColumnOperation expr.column)
  | none => some (.columnDoesNotExist expr.column)

namespace MetaData

theorem validateExpr_eq (this : MetaData V) (arr : List BinaryExpr) (expr : BinaryExpr) :
    this.validateExpr arr expr = match this.exprError expr with
      | none => .ok (arr ++ [expr])
      | some e => .error e := by
  unfold validateExpr exprError
  cases this.columns.get? expr.column with
  | none => rfl
  | some colMeta => by_cases h : literalFits colMeta.logicalDataType expr.literal <;> simp [h]

theorem foldlM_validateExpr (this : MetaData V) (exprs arr : List BinaryExpr) :
    exprs.foldlM this.validateExpr arr = match exprs.findSome? this.exprError with
      | none => .ok (arr ++ exprs)
      | some e => .error e := by
  induction exprs generalizing arr with
  | nil => simp only [List.foldlM_nil, List.findSome?_nil, List.append_nil]; rfl
  | cons expr exprs ih =>
    rw [List.foldlM_cons, validateExpr_eq, List.findSome?_cons]
    cases this.exprError expr with
    | none => simpa using ih (arr ++ [expr])
    | some e => rfl

/-- What `validate_exprs` returns on success is the predicate it was given. -/
theorem validateExprs_eq_ok {this : MetaData V} {exprs out : List BinaryExpr}
    (h : this.validateExprs exprs = .ok out) :
    out = exprs ∧ exprs.findSome? this.exprError = none := by
  rw [validateExprs, foldlM_validateExpr, List.nil_append] at h
  cases hf : exprs.findSome? this.exprError <;> rw [hf] at h <;> cases h
  exact ⟨rfl, rfl⟩

/-- An expression that passes validation names a column of the table. -/
theorem get?_isSome_of_exprError {this : MetaData V} {expr : BinaryExpr}
    (h : this.exprError expr = none) : (this.columns.get? expr.column).isSome := by
  unfold exprError at h
  cases hc : this.columns.get? expr.column <;> simp_all

/-- `validate_exprs` returns the predicate unchanged when every expression passes, and the
error of the first expression that does not otherwise. -/
theorem validateExprs_eq (this : MetaData V) (exprs : List BinaryExpr) :
    this.validateExprs exprs = match exprs.findSome? this.exprError with
      | none => .ok exprs
      | some e => .error e :=
  foldlM_validateExpr this exprs []

end MetaData

/-- `MetaData::schema_for_column_names`: the types of the named columns, skipping the names the
table does not have. -/
def MetaData.schemaForColumnNames (this : MetaData V) (names : List String) :
    List (ColumnType × LogicalDataType) :=
  names.filterMap fun name =>
    (this.columns.get? name).map fun schema => (schema.typ, schema.logicalDataType)

/-- `matches!(ct, ColumnType::Tag(_))`. -/
def ColumnType.isTag : ColumnType → Bool
  | .tag _ => true
  | _ => false

/-- `matches!(cm.typ, ColumnType::Timestamp(_))`. -/
def ColumnType.isTimestamp : ColumnType → Bool
  | .timestamp _ => true
  | _ => false

/-- `Selection`: every column, or the named ones. -/
inductive Selection
  | all
  | some (names : List String)

/-- `ReadFilterResults`: the validated predicate and negated predicates, the selected columns of
its `ResultSchema`, and the row groups to read. -/
structure ReadFilterResults (V : Type) where
  predicate : List BinaryExpr
  negatedPredicates : List (List BinaryExpr)
  selectColumns : List (ColumnType × LogicalDataType)
  rowGroups : List (RowGroup V)

/-- `MetaData::schema_for_all_columns`, in the order of `column_names`; `none` where `unwrap`
panics on a name without meta data. -/
def MetaData.schemaForAllColumns (this : MetaData V) :
    Option (List (ColumnType × LogicalDataType)) :=
  this.columnNames.mapM fun name =>
    (this.columns.get? name).map fun schema => (schema.typ, schema.logicalDataType)

/-- The `select_columns` of `read_filter`'s schema. -/
def MetaData.selectColumns (this : MetaData V) : Selection →
    Option (List (ColumnType × LogicalDataType))
  | .all => this.schemaForAllColumns
  | .some names => some (this.schemaForColumnNames names)

/-! ## Predicates against the whole table -/

namespace Table

/-- `Table::validate_predicate`. -/
def validatePredicate (t : Table V) (predicate : List BinaryExpr) :
    Except TableError (List BinaryExpr) :=
  t.meta.validateExprs predicate

/-- `Table::could_pass_predicate`, with `could_satisfy_conjunctive_binary_expressions` as
`couldSatisfy`. -/
def couldPassPredicate (couldSatisfy : RowGroup V → List BinaryExpr → Bool) (t : Table V)
    (predicate : List BinaryExpr) : Bool :=
  match t.meta.validateExprs predicate with
  | .ok exprs => t.data.any fun rg => couldSatisfy rg exprs
  | .error _ => false

/-- `Table::filter_row_groups`. -/
def filterRowGroups (couldSatisfy : RowGroup V → List BinaryExpr → Bool)
    (predicate : List BinaryExpr) (rowGroups : List (RowGroup V)) : List (RowGroup V) :=
  rowGroups.filter fun rg => couldSatisfy rg predicate

/-- `Table::satisfies_predicate`, with `RowGroup::satisfies_predicate` as `rgSatisfies`. -/
def satisfiesPredicate (rgSatisfies : RowGroup V → List BinaryExpr → Bool) (t : Table V)
    (predicate : List BinaryExpr) : Bool :=
  match t.meta.validateExprs predicate with
  | .error _ => false
  | .ok predicate =>
    if !predicate.all fun expr => (t.meta.columns.get? expr.column).isSome then false
    else t.data.any fun rg => rgSatisfies rg predicate

/-- `satisfies_predicate` is `true` exactly when the predicate is valid and some row group
satisfies it as given: the check that every column of the validated predicate exists never
fails. -/
theorem satisfiesPredicate_eq (rgSatisfies : RowGroup V → List BinaryExpr → Bool) (t : Table V)
    (predicate : List BinaryExpr) :
    t.satisfiesPredicate rgSatisfies predicate =
      ((t.meta.validateExprs predicate).toBool && t.data.any fun rg => rgSatisfies rg predicate) := by
  unfold satisfiesPredicate
  rw [MetaData.validateExprs, MetaData.foldlM_validateExpr, List.nil_append]
  cases h : predicate.findSome? t.meta.exprError with
  | some e => rfl
  | none =>
    have hall : (predicate.all fun expr => (t.meta.columns.get? expr.column).isSome) = true :=
      List.all_eq_true.mpr fun expr hexpr =>
        MetaData.get?_isSome_of_exprError (List.findSome?_eq_none_iff.mp h expr hexpr)
    simp [hall, Except.toBool]

/-! ## Reading rows -/

/-- `Table::read_filter`; `none` where `schema_for_all_columns` panics. -/
def readFilter (couldSatisfy : RowGroup V → List BinaryExpr → Bool) (t : Table V)
    (columns : Selection) (predicate : List BinaryExpr)
    (negatedPredicates : List (List BinaryExpr)) :
    Option (Except TableError (ReadFilterResults V)) :=
  match (do
      let predicate ← t.meta.validateExprs predicate
      let nPredicates ← negatedPredicates.mapM t.meta.validateExprs
      pure (predicate, nPredicates) : Except TableError _) with
  | .error e => some (.error e)
  | .ok (predicate, nPredicates) =>
    (t.meta.selectColumns columns).map fun selectColumns =>
      .ok ⟨predicate, nPredicates, selectColumns, filterRowGroups couldSatisfy predicate t.data⟩

/-- Validating a list of predicates in turn stops at the first error, and otherwise hands them
back unchanged. -/
theorem mapM_validateExprs (this : MetaData V) :
    ∀ predicates : List (List BinaryExpr),
      predicates.mapM this.validateExprs =
        match predicates.findSome? (·.findSome? this.exprError) with
        | none => .ok predicates
        | some e => .error e
  | [] => rfl
  | exprs :: predicates => by
    rw [List.mapM_cons, List.findSome?_cons, MetaData.validateExprs,
      MetaData.foldlM_validateExpr, List.nil_append]
    cases exprs.findSome? this.exprError with
    | some e => rfl
    | none =>
      simp only [except_ok_bind, mapM_validateExprs this predicates]
      cases predicates.findSome? (·.findSome? this.exprError) <;> rfl

/-- `read_filter` fails with the first error of the predicate, then of the negated predicates in
order; otherwise it hands both back unchanged with the selected columns' schema and the row
groups that could satisfy the predicate, in order. A selected name the table does not have is
dropped from the schema without an error. -/
theorem readFilter_eq (couldSatisfy : RowGroup V → List BinaryExpr → Bool) (t : Table V)
    (columns : Selection) (predicate : List BinaryExpr)
    (negatedPredicates : List (List BinaryExpr)) :
    t.readFilter couldSatisfy columns predicate negatedPredicates =
      match (predicate :: negatedPredicates).findSome? (·.findSome? t.meta.exprError) with
      | some e => some (.error e)
      | none => (t.meta.selectColumns columns).map fun selectColumns =>
          .ok ⟨predicate, negatedPredicates, selectColumns,
            t.data.filter fun rg => couldSatisfy rg predicate⟩ := by
  rw [readFilter, MetaData.validateExprs, MetaData.foldlM_validateExpr, List.nil_append,
    List.findSome?_cons]
  cases predicate.findSome? t.meta.exprError with
  | some e => rfl
  | none =>
    simp only [except_ok_bind, mapM_validateExprs]
    cases negatedPredicates.findSome? (·.findSome? t.meta.exprError) <;> rfl

/-- `could_pass_predicate` answers, from the meta data and the row groups' tests, exactly whether
`read_filter` with that predicate and no deletes would read some row group. -/
theorem couldPassPredicate_iff_readFilter (couldSatisfy : RowGroup V → List BinaryExpr → Bool)
    (t : Table V) (predicate : List BinaryExpr) (names : List String) :
    t.couldPassPredicate couldSatisfy predicate = true ↔
      ∃ r, t.readFilter couldSatisfy (.some names) predicate [] = some (.ok r) ∧
        r.rowGroups ≠ [] := by
  unfold couldPassPredicate readFilter
  cases t.meta.validateExprs predicate with
  | error e => exact iff_of_false (by simp) fun ⟨r, h, _⟩ => by cases h
  | ok exprs =>
    show (t.data.any fun rg => couldSatisfy rg exprs) = true ↔
      ∃ r : ReadFilterResults V, (some (.ok ⟨exprs, [], t.meta.schemaForColumnNames names,
        filterRowGroups couldSatisfy exprs t.data⟩) : Option (Except TableError _)) =
          some (.ok r) ∧ r.rowGroups ≠ []
    simp [filterRowGroups, List.any_eq_true, List.filter_eq_nil_iff]

/-- Where a row group that satisfies a predicate could satisfy it, `could_pass_predicate` never
rules out a table that `satisfies_predicate` accepts. -/
theorem couldPassPredicate_of_satisfiesPredicate
    {couldSatisfy rgSatisfies : RowGroup V → List BinaryExpr → Bool}
    (hsound : ∀ rg exprs, rgSatisfies rg exprs = true → couldSatisfy rg exprs = true)
    {t : Table V} {predicate : List BinaryExpr}
    (h : t.satisfiesPredicate rgSatisfies predicate = true) :
    t.couldPassPredicate couldSatisfy predicate = true := by
  unfold satisfiesPredicate at h
  unfold couldPassPredicate
  revert h
  cases t.meta.validateExprs predicate with
  | error e => simp
  | ok exprs =>
    intro h
    dsimp only at h ⊢
    split_ifs at h
    obtain ⟨rg, hrg, hs⟩ := List.any_eq_true.mp h
    exact List.any_eq_true.mpr ⟨rg, hrg, hsound rg exprs hs⟩

/-- A row-group test for predicates on integer literals, read off the column ranges: the greatest
value of each expression's column is above the literal, or, where `strict` is false, at least the
literal. -/
def maxAbove (strict : Bool) (rg : RowGroup Nat) (exprs : List BinaryExpr) : Bool :=
  exprs.all fun e => match e.literal, (rg.columns.get? e.column).bind (·.range.2) with
    | .integer v, some hi => if strict then decide (v < hi) else decide (v ≤ hi)
    | _, _ => false

theorem maxAbove_strict {rg : RowGroup Nat} {exprs : List BinaryExpr}
    (h : maxAbove true rg exprs = true) : maxAbove false rg exprs = true := by
  simp only [maxAbove, List.all_eq_true] at h ⊢
  intro e he
  have := h e he
  split at this <;> simp_all
  omega

/-- `time > 6` rules out the row group of times 1 to 5 and not the one of times 3 to 9, so the
table satisfies it, and the weaker range test lets it pass. -/
theorem twoRowGroups_couldPassPredicate :
    twoRowGroups.data.map (maxAbove true · [⟨"time", .gt, .integer 6⟩]) = [false, true] ∧
      twoRowGroups.satisfiesPredicate (maxAbove true) [⟨"time", .gt, .integer 6⟩] = true ∧
      twoRowGroups.couldPassPredicate (maxAbove false) [⟨"time", .gt, .integer 6⟩] = true :=
  have hmeta : twoRowGroups.meta.columns.get? "time" = some (summaryColumn twoRowGroups.data "time"
      ⟨.timestamp "time", .integer, (some 1, some 5), some 2, 0⟩) := by
    rw [BTreeMap.get?, twoRowGroups_summarises.columns_eq, twoRowGroups_data]
    simp only [BTreeMap.lookup, ↓reduceIte, timeRowGroup]
  have hsat : twoRowGroups.satisfiesPredicate (maxAbove true) [⟨"time", .gt, .integer 6⟩] = true := by
    rw [satisfiesPredicate_eq, MetaData.validateExprs_eq]
    simp only [List.findSome?_cons, List.findSome?_nil, MetaData.exprError, hmeta]
    simp only [Except.toBool, literalFits, summaryColumn, ↓reduceIte, twoRowGroups_data, maxAbove,
      List.all_cons, List.all_nil, List.any_cons, List.any_nil, timeRowGroup_get?_time,
      Option.some_bind, Nat.cast_ofNat, Int.reduceLT, decide_False, decide_True, Bool.and_true,
      Bool.or_false, Bool.or_true]
  ⟨by simp only [twoRowGroups_data, List.map_cons, List.map_nil, maxAbove, List.all_cons,
      List.all_nil, timeRowGroup_get?_time, Option.some_bind, ↓reduceIte, Nat.cast_ofNat,
      Int.reduceLT, decide_False, decide_True, Bool.and_true], hsat,
    couldPassPredicate_of_satisfiesPredicate (fun _ _ => maxAbove_strict) hsat⟩

/-- A lookup that finds every key gives back the found values. -/
theorem mapM_eq_some_filterMap {α β : Type} {f : α → Option β} :
    ∀ {l : List α}, (∀ a ∈ l, (f a).isSome) → l.mapM f = some (l.filterMap f)
  | [], _ => rfl
  | a :: l, h => by
    obtain ⟨b, hb⟩ := Option.isSome_iff_exists.mp (h a (List.mem_cons_self _ _))
    rw [List.mapM_cons, hb, mapM_eq_some_filterMap fun a ha => h a (List.mem_cons_of_mem _ ha),
      List.filterMap_cons_some hb]
    rfl

/-! ## Column sizes -/

/-- `ChunkColumnSummary`: a column and its estimated size in memory. -/
structure ChunkColumnSummary where
  name : String
  memoryBytes : Nat

/-- One step of the fold of `column_sizes`: `*map.entry(name).or_insert(0) += memory_bytes`. The
sizes are byte counts of data held in memory, so their sums stay far below the `usize` bound. -/
def addColumnSize (map : BTreeMap String Nat) (p : String × Nat) : BTreeMap String Nat :=
  map.insert p.1 ((map.get? p.1).getD 0 + p.2)

/-- `Table::column_sizes`, with `RowGroup::column_sizes` as `rgColumnSizes`. -/
def columnSizes (rgColumnSizes : RowGroup V → List (String × Nat)) (t : Table V) :
    List ChunkColumnSummary :=
  ((t.data.flatMap rgColumnSizes).foldl addColumnSize BTreeMap.empty).entries.map fun p =>
    ⟨p.1, p.2⟩

/-- The fold sums, for each name, the sizes reported for it. -/
theorem getD_foldl_addColumnSize (name : String) :
    ∀ (sizes : List (String × Nat)) (map : BTreeMap String Nat),
      ((sizes.foldl addColumnSize map).get? name).getD 0 =
        (map.get? name).getD 0 + ((sizes.filter (·.1 = name)).map Prod.snd).sum
  | [], map => by simp
  | p :: sizes, map => by
    rw [List.foldl_cons, getD_foldl_addColumnSize name sizes, addColumnSize,
      BTreeMap.get?_insert]
    by_cases hp : p.1 = name
    · subst hp
      simp [List.filter_cons, Nat.add_assoc]
    · simp [List.filter_cons, hp]

/-- The fold has an entry for each name reported. -/
theorem isSome_foldl_addColumnSize (name : String) :
    ∀ (sizes : List (String × Nat)) (map : BTreeMap String Nat),
      ((sizes.foldl addColumnSize map).get? name).isSome ↔
        (map.get? name).isSome ∨ name ∈ sizes.map Prod.fst
  | [], map => by simp
  | p :: sizes, map => by
    rw [List.foldl_cons, isSome_foldl_addColumnSize name sizes, addColumnSize,
      BTreeMap.get?_insert]
    by_cases hp : p.1 = name
    · simp [hp]
    · simp [hp, Ne.symm hp]

/-- `column_sizes` lists each column that some row group reports once, in ascending order of
name, with the sum of the sizes reported for it over all the row groups. -/
theorem columnSizes_spec (rgColumnSizes : RowGroup V → List (String × Nat)) (t : Table V) :
    ((t.columnSizes rgColumnSizes).map ChunkColumnSummary.name).Pairwise (· < ·) ∧
      ∀ name memoryBytes, ⟨name, memoryBytes⟩ ∈ t.columnSizes rgColumnSizes ↔
        (∃ rg ∈ t.data, name ∈ (rgColumnSizes rg).map Prod.fst) ∧
          memoryBytes = (((t.data.flatMap rgColumnSizes).filter (·.1 = name)).map Prod.snd).sum := by
  refine ⟨?_, fun name memoryBytes => ?_⟩
  · rw [columnSizes, List.map_map]
    exact List.pairwise_map.mpr (BTreeMap.sorted _)
  have hmem : ChunkColumnSummary.mk name memoryBytes ∈ t.columnSizes rgColumnSizes ↔
      ((t.data.flatMap rgColumnSizes).foldl addColumnSize BTreeMap.empty).get? name =
        some memoryBytes := by
    rw [columnSizes, ← BTreeMap.mem_entries_iff, List.mem_map]
    exact ⟨fun ⟨p, hp, he⟩ => by cases he; exact hp, fun h => ⟨_, h, rfl⟩⟩
  have hsome := isSome_foldl_addColumnSize name (t.data.flatMap rgColumnSizes) BTreeMap.empty
  have hsum := getD_foldl_addColumnSize name (t.data.flatMap rgColumnSizes) BTreeMap.empty
  simp only [BTreeMap.get?_empty, Option.isSome_none, Bool.false_eq_true, false_or,
    Option.getD_none, Nat.zero_add, List.map_flatMap, List.mem_flatMap] at hsome hsum
  rw [hmem, ← hsome, ← hsum]
  cases ((t.data.flatMap rgColumnSizes).foldl addColumnSize BTreeMap.empty).get? name <;>
    simp [@eq_comm _ memoryBytes]

/-! ## Column names -/

/-- The part of `Table::column_names` after its short circuit: validate the predicate and the
negated predicates, then let each row group that could satisfy the predicate add its column names
(`RowGroup::column_names`, here `rgColumnNames`). The row groups get the negated predicates as
given, not as validated. -/
def columnNamesScan (couldSatisfy : RowGroup V → List BinaryExpr → Bool)
    (rgColumnNames : RowGroup V → List BinaryExpr → List (List BinaryExpr) → Selection →
      Finset String → Finset String)
    (t : Table V) (predicate : List BinaryExpr) (negatedPredicates : List (List BinaryExpr))
    (columns : Selection) (dst : Finset String) : Except TableError (Finset String) := do
  let predicate ← t.meta.validateExprs predicate
  let _ ← negatedPredicates.mapM t.meta.validateExprs
  pure ((filterRowGroups couldSatisfy predicate t.data).foldl
    (fun dst rg => rgColumnNames rg predicate negatedPredicates columns dst) dst)

/-- `Table::column_names`: a `dst` that already holds every column of the table is returned as it
is, before the predicates are validated. -/
def columnNames (couldSatisfy : RowGroup V → List BinaryExpr → Bool)
    (rgColumnNames : RowGroup V → List BinaryExpr → List (List BinaryExpr) → Selection →
      Finset String → Finset String)
    (t : Table V) (predicate : List BinaryExpr) (negatedPredicates : List (List BinaryExpr))
    (columns : Selection) (dst : Finset String) : Except TableError (Finset String) :=
  if t.meta.columns.entries.all fun p => p.1 ∈ dst then .ok dst
  else columnNamesScan couldSatisfy rgColumnNames t predicate negatedPredicates columns dst

theorem columnNamesScan_eq_ok {couldSatisfy : RowGroup V → List BinaryExpr → Bool}
    {rgColumnNames : RowGroup V → List BinaryExpr → List (List BinaryExpr) → Selection →
      Finset String → Finset String}
    {t : Table V} {predicate : List BinaryExpr} {negatedPredicates : List (List BinaryExpr)}
    {columns : Selection} {dst r : Finset String}
    (h : columnNamesScan couldSatisfy rgColumnNames t predicate negatedPredicates columns dst =
      .ok r) :
    ∃ predicate', t.meta.validateExprs predicate = .ok predicate' ∧
      r = (filterRowGroups couldSatisfy predicate' t.data).foldl
        (fun dst rg => rgColumnNames rg predicate' negatedPredicates columns dst) dst := by
  obtain ⟨predicate', hp, h⟩ := except_bind_eq_ok.mp h
  obtain ⟨_, -, h⟩ := except_bind_eq_ok.mp h
  exact ⟨predicate', hp, (Except.ok.inj h).symm⟩

/-- Row groups that each add only names of their own columns, all of which `dst` holds, leave
`dst` as it is. -/
theorem foldl_rgColumnNames_of_subset {rgColumnNames : RowGroup V → List BinaryExpr →
      List (List BinaryExpr) → Selection → Finset String → Finset String}
    (hadds : ∀ rg predicate negatedPredicates columns dst,
      dst ⊆ rgColumnNames rg predicate negatedPredicates columns dst ∧
      rgColumnNames rg predicate negatedPredicates columns dst ⊆
        dst ∪ (rg.columns.entries.map Prod.fst).toFinset)
    {predicate : List BinaryExpr} {negatedPredicates : List (List BinaryExpr)}
    {columns : Selection} {dst : Finset String} {rgs : List (RowGroup V)}
    (hkeys : ∀ rg ∈ rgs, ∀ name ∈ rg.columns.entries.map Prod.fst, name ∈ dst) :
    rgs.foldl (fun dst rg => rgColumnNames rg predicate negatedPredicates columns dst) dst =
      dst := by
  induction rgs with
  | nil => rfl
  | cons rg rgs ih =>
    have hrg : rgColumnNames rg predicate negatedPredicates columns dst = dst := by
      obtain ⟨hsub, hsup⟩ := hadds rg predicate negatedPredicates columns dst
      refine Finset.Subset.antisymm (hsup.trans (Finset.union_subset le_rfl fun name hname => ?_))
        hsub
      exact hkeys rg (List.mem_cons_self _ _) name (List.mem_toFinset.mp hname)
    rw [List.foldl_cons, hrg]
    exact ih fun rg' hrg' => hkeys rg' (List.mem_cons_of_mem _ hrg')

/-! ## Column values -/

/-- The loop of `Table::column_values` that checks that every requested column is a tag column.
Names and types are zipped, so the `i`-th name is read against the `i`-th column found. -/
def checkTagColumns (names : List String) (schema : List (ColumnType × LogicalDataType)) :
    Except TableError Unit :=
  (names.zip schema).forM fun p =>
    if p.2.1.isTag then .ok () else .error (.unsupportedColumnOperation p.1)

/-- `Table::column_values`, with `RowGroup::column_values` as `rgColumnValues`. -/
def columnValues {D : Type} (couldSatisfy : RowGroup V → List BinaryExpr → Bool)
    (rgColumnValues : RowGroup V → List BinaryExpr → List String → D → D) (t : Table V)
    (predicate : List BinaryExpr) (columns : List String) (dst : D) : Except TableError D := do
  checkTagColumns columns (t.meta.schemaForColumnNames columns)
  let predicate ← t.meta.validateExprs predicate
  pure ((filterRowGroups couldSatisfy predicate t.data).foldl
    (fun dst rg => rgColumnValues rg predicate columns dst) dst)

/-- A loop of checks in `Except` fails with the error of the first element that fails. -/
theorem forM_check_eq {α : Type} (l : List α) (P : α → Bool) (E : α → TableError) :
    l.forM (fun a => if P a then (.ok () : Except TableError Unit) else .error (E a)) =
      match l.find? fun a => !P a with
      | some a => .error (E a)
      | none => .ok () := by
  induction l with
  | nil => rfl
  | cons a l ih =>
    rw [List.forM_cons', List.find?_cons]
    cases h : P a
    · rfl
    · simpa [h] using ih

/-- The tag check passes exactly when every requested column that the table has is a tag
column. -/
theorem checkTagColumns_eq_ok_iff (this : MetaData V) (names : List String) :
    checkTagColumns names (this.schemaForColumnNames names) = .ok () ↔
      ∀ name ∈ names, ∀ cm, this.columns.get? name = some cm → cm.typ.isTag := by
  have hsnd : (names.zip (this.schemaForColumnNames names)).map Prod.snd =
      this.schemaForColumnNames names :=
    List.map_snd_zip _ _ (List.length_filterMap_le _ _)
  unfold checkTagColumns
  rw [forM_check_eq]
  calc _ ↔ ((names.zip (this.schemaForColumnNames names)).find? fun p => !p.2.1.isTag) = none := by
        cases (names.zip (this.schemaForColumnNames names)).find? fun p => !p.2.1.isTag <;> simp
    _ ↔ ∀ p ∈ names.zip (this.schemaForColumnNames names), p.2.1.isTag := by
        simp [List.find?_eq_none]
    _ ↔ ∀ schema ∈ this.schemaForColumnNames names, schema.1.isTag := by
        conv_rhs => rw [← hsnd]
        rw [List.forall_mem_map]
    _ ↔ _ := by
        simp only [MetaData.schemaForColumnNames, List.forall_mem_filterMap, Option.map_eq_some',
          forall_exists_index, and_imp, forall_apply_eq_imp_iff₂]

/-- `column_values` succeeds exactly when every requested column that the table has is a tag
column and the predicate is valid; it then folds the row groups that could satisfy the predicate,
in order. -/
theorem columnValues_eq_ok_iff {D : Type} (couldSatisfy : RowGroup V → List BinaryExpr → Bool)
    (rgColumnValues : RowGroup V → List BinaryExpr → List String → D → D) (t : Table V)
    (predicate : List BinaryExpr) (columns : List String) (dst r : D) :
    t.columnValues couldSatisfy rgColumnValues predicate columns dst = .ok r ↔
      (∀ name ∈ columns, ∀ cm, t.meta.columns.get? name = some cm → cm.typ.isTag) ∧
      t.meta.validateExprs predicate = .ok predicate ∧
      r = (filterRowGroups couldSatisfy predicate t.data).foldl
        (fun dst rg => rgColumnValues rg predicate columns dst) dst := by
  rw [← checkTagColumns_eq_ok_iff]
  unfold columnValues
  constructor
  · intro h
    obtain ⟨⟨⟩, hcheck, h₁⟩ := except_bind_eq_ok.mp h
    obtain ⟨predicate', hp, h₂⟩ := except_bind_eq_ok.mp h₁
    obtain ⟨hpe, -⟩ := MetaData.validateExprs_eq_ok hp
    subst hpe
    exact ⟨hcheck, hp, (Except.ok.inj h₂).symm⟩
  · rintro ⟨hcheck, hp, rfl⟩
    simp only [bind, Except.bind, hcheck, hp]
    rfl

/-- When every requested column exists, the tag check reads each name against its own column. -/
theorem checkTagColumns_eq_of_mem (this : MetaData V) {names : List String}
    (hnames : ∀ name ∈ names, (this.columns.get? name).isSome) :
    checkTagColumns names (this.schemaForColumnNames names) =
      match names.find? fun name => (this.columns.get? name).any fun cm => !cm.typ.isTag with
      | some name => .error (.unsupportedColumnOperation name)
      | none => .ok () := by
  induction names with
  | nil => rfl
  | cons name names ih =>
    obtain ⟨cm, hcm⟩ := Option.isSome_iff_exists.mp (hnames name (List.mem_cons_self _ _))
    have hschema : this.schemaForColumnNames (name :: names) =
        (cm.typ, cm.logicalDataType) :: this.schemaForColumnNames names := by
      simp [MetaData.schemaForColumnNames, hcm]
    rw [hschema, checkTagColumns, List.zip_cons_cons, List.forM_cons', List.find?_cons, hcm]
    cases htag : cm.typ.isTag
    · simp only [htag, Bool.false_eq_true, if_false, Option.any_some, Bool.not_false]
      rfl
    · simpa [htag, checkTagColumns] using ih fun n hn => hnames n (List.mem_cons_of_mem _ hn)

/-- When every requested column exists, `column_values` fails naming the first requested column
that is not a tag column. -/
theorem columnValues_eq_error_of_mem {D : Type} (couldSatisfy : RowGroup V → List BinaryExpr → Bool)
    (rgColumnValues : RowGroup V → List BinaryExpr → List String → D → D) (t : Table V)
    (predicate : List BinaryExpr) {columns : List String} (dst : D)
    (hcolumns : ∀ name ∈ columns, (t.meta.columns.get? name).isSome) {name : String}
    (hfirst : (columns.find? fun name => (t.meta.columns.get? name).any fun cm => !cm.typ.isTag) =
      some name) :
    t.columnValues couldSatisfy rgColumnValues predicate columns dst =
      .error (.unsupportedColumnOperation name) := by
  unfold columnValues
  rw [checkTagColumns_eq_of_mem t.meta hcolumns, hfirst]
  rfl

theorem columnValues_time_eq_error :
    ((withRowGroup (timeRowGroup 1 5)).meta.columns.get? "time").isSome ∧
    (withRowGroup (timeRowGroup 1 5)).columnValues (fun _ _ => true) (fun _ _ _ (d : Unit) => d)
      [] ["time"] () = .error (.unsupportedColumnOperation "time") :=
  have htime := timeRowGroup_get?_time 1 5
  ⟨by simp [withRowGroup, MetaData.new, htime],
    columnValues_eq_error_of_mem _ _ _ [] () (by simp [withRowGroup, MetaData.new, htime])
      (by simp [withRowGroup, MetaData.new, htime, ColumnType.isTag])⟩

/-- A requested column the table does not have, followed by one that is not a tag column: the
error of `column_values` names the missing column as the unsupported one, because the names are
zipped with the types of the columns that were found. -/
theorem columnValues_error_names_missing {D : Type}
    (couldSatisfy : RowGroup V → List BinaryExpr → Bool)
    (rgColumnValues : RowGroup V → List BinaryExpr → List String → D → D) (t : Table V)
    (predicate : List BinaryExpr) (dst : D) {missing name : String} {cm : ColumnMeta V}
    (hmissing : t.meta.columns.get? missing = none) (hname : t.meta.columns.get? name = some cm)
    (htag : cm.typ.isTag = false) :
    t.columnValues couldSatisfy rgColumnValues predicate [missing, name] dst =
      .error (.unsupportedColumnOperation missing) := by
  have hschema : t.meta.schemaForColumnNames [missing, name] = [(cm.typ, cm.logicalDataType)] := by
    simp [MetaData.schemaForColumnNames, hmissing, hname]
  simp only [columnValues, hschema, checkTagColumns, List.zip_cons_cons, List.zip_nil_right,
    List.forM_cons', htag]
  rfl

theorem columnValues_region_time_eq_error :
    ((withRowGroup (timeRowGroup 1 5)).meta.columns.get? "region").isNone ∧
    (withRowGroup (timeRowGroup 1 5)).columnValues (fun _ _ => true) (fun _ _ _ (d : Unit) => d)
      [] ["region", "time"] () = .error (.unsupportedColumnOperation "region") :=
  ⟨by simp [withRowGroup, MetaData.new, timeRowGroup_get?_region],
    columnValues_error_names_missing _ _ _ [] () (timeRowGroup_get?_region 1 5)
      (timeRowGroup_get?_time 1 5) rfl⟩

variable [LinearOrder V]

/-- Every row group of a reachable table whose first row group has a column has the columns of
the table's meta data. -/
theorem Reachable.mem_keys {t : Table V} (h : t.Reachable) {first : RowGroup V}
    {rest : List (RowGroup V)} (hdata : t.data = first :: rest) (hne : first.columns.entries ≠ [])
    {rg : RowGroup V} (hrg : rg ∈ t.data) {name : String}
    (hname : name ∈ rg.columns.entries.map Prod.fst) :
    name ∈ t.meta.columns.entries.map Prod.fst := by
  have hs := summarises_of_ofRowGroups hne (hdata ▸ h.ofRowGroups)
  rwa [← map_fst_columnSchema, hs.schema_columns, ← hs.schema_of_mem (hdata ▸ hrg),
    map_fst_columnSchema]

/-- On a reachable table whose row groups each add only names of their own columns, the short
circuit of `column_names` returns what the full scan returns whenever the scan succeeds. -/
theorem columnNames_eq_scan (couldSatisfy : RowGroup V → List BinaryExpr → Bool)
    (rgColumnNames : RowGroup V → List BinaryExpr → List (List BinaryExpr) → Selection →
      Finset String → Finset String)
    (hadds : ∀ rg predicate negatedPredicates columns dst,
      dst ⊆ rgColumnNames rg predicate negatedPredicates columns dst ∧
      rgColumnNames rg predicate negatedPredicates columns dst ⊆
        dst ∪ (rg.columns.entries.map Prod.fst).toFinset)
    {t : Table V} (h : t.Reachable) {first : RowGroup V} {rest : List (RowGroup V)}
    (hdata : t.data = first :: rest) (hne : first.columns.entries ≠ [])
    {predicate : List BinaryExpr} {negatedPredicates : List (List BinaryExpr)}
    {columns : Selection} {dst r : Finset String}
    (hscan : columnNamesScan couldSatisfy rgColumnNames t predicate negatedPredicates columns dst =
      .ok r) :
    columnNames couldSatisfy rgColumnNames t predicate negatedPredicates columns dst = .ok r := by
  unfold columnNames
  split_ifs with hshort
  · obtain ⟨predicate', -, rfl⟩ := columnNamesScan_eq_ok hscan
    rw [foldl_rgColumnNames_of_subset hadds fun rg hrg name hname => ?_]
    have hmem := h.mem_keys hdata hne (List.mem_of_mem_filter hrg) hname
    obtain ⟨p, hp, rfl⟩ := List.mem_map.mp hmem
    simpa using List.all_eq_true.mp hshort p hp
  · exact hscan

theorem columnNames_time_eq_scan :
    columnNames (fun _ _ => true)
      (fun (rg : RowGroup Nat) _ _ _ dst => dst ∪ (rg.columns.entries.map Prod.fst).toFinset)
      twoRowGroups [] [] .all {"time"} = .ok {"time"} :=
  columnNames_eq_scan _ _ (fun _ _ _ _ _ => ⟨Finset.subset_union_left, le_rfl⟩)
    twoRowGroups_reachable twoRowGroups_data (List.cons_ne_nil _ _)
    (by simp [columnNamesScan, twoRowGroups_data, filterRowGroups, MetaData.validateExprs,
      timeRowGroup]; rfl)

/-! ## The time range -/

/-- `Table::time_range`, with the `i64` of a range end read by `asI64` (`none` for any other
value); `none` where it panics: on a second timestamp column, or on an end of the time column's
range that is not an `i64`, `NULL` included. -/
def timeRange (asI64 : V → Option Int) (t : Table V) : Option (Option (Int × Int)) :=
  match t.meta.columns.values.filter fun cm => cm.typ.isTimestamp with
  | [] => some none
  | [cm] =>
    match cm.range.1.bind asI64, cm.range.2.bind asI64 with
    | some min, some max => some (some (min, max))
    | _, _ => none
  | _ :: _ :: _ => none

/-- On a reachable table whose first row group has one timestamp column `c`, `time_range` is read
off the whole table: it returns the least non-`NULL` lower end of `c` over all the row groups and
the greatest non-`NULL` upper end, and panics when either is missing or not an `i64`. -/
theorem Reachable.timeRange_eq (asI64 : V → Option Int) {t : Table V} (h : t.Reachable)
    {first : RowGroup V} {rest : List (RowGroup V)} (hdata : t.data = first :: rest)
    {c : String} {cm : ColumnMeta V}
    (htime : first.columns.entries.filter (fun p => p.2.typ.isTimestamp) = [(c, cm)]) :
    t.timeRange asI64 =
      match (lows t.data c).min?.bind asI64, (highs t.data c).max?.bind asI64 with
      | some min, some max => some (some (min, max))
      | _, _ => none := by
  have hne : first.columns.entries ≠ [] := fun h0 => by simp [h0] at htime
  have hs := summarises_of_ofRowGroups hne (hdata ▸ h.ofRowGroups)
  have hvalues : (t.meta.columns.values.filter fun cm => cm.typ.isTimestamp) =
      [summaryColumn (first :: rest) c cm] := by
    rw [BTreeMap.values, hs.columns_eq, List.map_map, List.filter_map]
    exact congrArg (List.map _) htime
  rw [timeRange, hvalues, hdata]
  rfl

theorem twoRowGroups_timeRange :
    twoRowGroups.timeRange (fun n : Nat => some (n : Int)) = some (some (1, 9)) :=
  (Reachable.timeRange_eq _ twoRowGroups_reachable twoRowGroups_data rfl).trans
    (by simp [twoRowGroups_data, lows, highs, timeRowGroup_get?_time])

/-- On a reachable table whose first row group has meta data for each of its column names,
`schema_for_all_columns`, and so `read_filter` over every column, never panics: it lists the
types of the first row group's columns in the order of its column names. -/
theorem Reachable.schemaForAllColumns_eq {t : Table V} (h : t.Reachable) {first : RowGroup V}
    {rest : List (RowGroup V)} (hdata : t.data = first :: rest) (hne : first.columns.entries ≠ [])
    (hnames : ∀ name ∈ first.columnNames, (first.columns.get? name).isSome) :
    t.meta.schemaForAllColumns =
      some ((MetaData.new first).schemaForColumnNames first.columnNames) := by
  have hs := summarises_of_ofRowGroups hne (hdata ▸ h.ofRowGroups)
  have hschema : ∀ m : BTreeMap String (ColumnMeta V), m.entries.map columnSchema =
      m.entries.map fun p => (p.1, (p.2.typ, p.2.logicalDataType)) := fun _ => rfl
  have hget : ∀ name, (t.meta.columns.get? name).map (fun cm => (cm.typ, cm.logicalDataType)) =
      (first.columns.get? name).map fun cm => (cm.typ, cm.logicalDataType) := by
    intro name
    have hlookup := congrArg (BTreeMap.lookup name) hs.schema_columns
    have hmap := BTreeMap.lookup_map_snd (fun cm : ColumnMeta V => (cm.typ, cm.logicalDataType)) name
    rwa [hschema, hschema, hmap, hmap] at hlookup
  rw [MetaData.schemaForAllColumns, hs.columnNames_eq]
  simp only [hget]
  exact mapM_eq_some_filterMap fun name hname => by simpa using hnames name hname

theorem twoRowGroups_schemaForAllColumns :
    twoRowGroups.meta.schemaForAllColumns =
      some ((MetaData.new (timeRowGroup 1 5)).schemaForColumnNames ["time"]) :=
  Reachable.schemaForAllColumns_eq twoRowGroups_reachable twoRowGroups_data (List.cons_ne_nil _ _)
    fun name hname => by
      rw [List.mem_singleton.mp hname, timeRowGroup_get?_time]
      rfl

end Table

end IoxCore.ReadBuffer
