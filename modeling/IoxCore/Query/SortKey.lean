import IoxCore.BTreeMap
import IoxCore.Query.Statistics
import Mathlib.Algebra.BigOperators.Group.List
import Mathlib.Algebra.Order.Ring.Nat
import Mathlib.Data.List.Sort
import Mathlib.Data.String.Basic

/-!
# The sort key of a set of chunks

`iox_query/src/lib.rs`. `compute_sort_key` estimates the cardinality of each tag column as the sum
of its distinct counts over the chunks' table summaries, collected in a `HashMap`, sorts the tag
columns by `(cardinality, name)`, and builds a sort key of them followed by the time column.

A `HashMap` hands out its entries in an order Rust leaves unspecified, so the model takes that
order as a parameter, `intoIter`, that only has to permute the entries; the map itself is an
association list in insertion order. `u64` additions wrap, as in a release build.
`compute_sort_key_for_chunks` calls `compute_sort_key` on the summaries of chunks that all have one,
and otherwise takes the primary key; the `schema` crate's `SortKeyBuilder`, `SortKey::from_columns`
and `TIME_COLUMN_NAME` are not in the source tree.

`QueryChunkMeta::delete_predicate_columns` lists the columns of a chunk's delete predicates in the
order of a primary key: the others in lexicographical order through a `BTreeSet`, then the time
column.
-/

namespace IoxCore.Query

/-! ## The model -/

/-- Modelled from the spec: `TIME_COLUMN_NAME`, which is not in the source tree; the timestamp
column, always last in a sort key, is `time`. -/
def timeColumnName : String := "time"

/-- A sort key, as its columns in order; the sort options of each column are left out. -/
@[ext] structure SortKey where
  columns : List String
  deriving DecidableEq, Repr

/-- Modelled from the spec: `SortKeyBuilder`, which is not in the source tree, as the columns
added so far, in order. -/
structure SortKeyBuilder where
  columns : List String

/-- Modelled from the spec: `SortKeyBuilder::with_capacity`, an empty builder. -/
def SortKeyBuilder.withCapacity (_capacity : Nat) : SortKeyBuilder := ⟨[]⟩

/-- Modelled from the spec: `SortKeyBuilder::with_col`, which is not in the source tree. A sort key
is an ordered list of columns, so a new column goes last, and a column already in the key keeps its
place. -/
def SortKeyBuilder.withCol (builder : SortKeyBuilder) (col : String) : SortKeyBuilder :=
  if col ∈ builder.columns then builder else ⟨builder.columns ++ [col]⟩

/-- Modelled from the spec: `SortKeyBuilder::build`, the key of the columns added, in order. -/
def SortKeyBuilder.build (builder : SortKeyBuilder) : SortKey := ⟨builder.columns⟩

/-- `*cardinalities.entry_ref(name).or_default() += cnt`, on the map as an association list in
insertion order: a name not yet in the map enters with `0 + cnt`. -/
def addCardinality : List (String × Nat) → String → Nat → List (String × Nat)
  | [], name, cnt => [(name, cnt % 2 ^ 64)]
  | (k, v) :: rest, name, cnt =>
    if k = name then (k, (v + cnt) % 2 ^ 64) :: rest else (k, v) :: addCardinality rest name cnt

/-- One column of the inner loop: a tag column adds its distinct count, `0` if it has none; the
other columns are skipped. -/
def addColumn (cardinalities : List (String × Nat)) (column : ColumnSummary) :
    List (String × Nat) :=
  if column.influxdbType ≠ some .tag then cardinalities
  else addCardinality cardinalities column.name (column.stats.distinctCount.getD 0)

/-- The loops of `compute_sort_key` over the summaries and their columns. -/
def cardinalitiesOf (summaries : List TableSummary) : List (String × Nat) :=
  summaries.foldl (fun cardinalities summary => summary.columns.foldl addColumn cardinalities) []

/-- `(card_1, name_1).cmp(&(card_2, name_2))`. -/
def cmpCardName (a b : String × Nat) : Ordering :=
  (compare a.2 b.2).then (compare a.1 b.1)

/-- `compute_sort_key`, with the order in which the `HashMap` hands out its entries; `sort_by` is
a stable sort, as `mergeSort` is. -/
def computeSortKey (intoIter : List (String × Nat) → List (String × Nat))
    (summaries : List TableSummary) : SortKey :=
  let cardinalities :=
    (intoIter (cardinalitiesOf summaries)).mergeSort fun a b => cmpCardName a b != .gt
  let builder := cardinalities.foldl (fun builder col => builder.withCol col.1)
    (SortKeyBuilder.withCapacity (cardinalities.length + 1))
  (builder.withCol timeColumnName).build

/-! ## What the key should be -/

/-- The sum of the values `name` has in a list of pairs. -/
def valueSum (pairs : List (String × Nat)) (name : String) : Nat :=
  ((pairs.filter (·.1 = name)).map (·.2)).sum

/-- The distinct counts of the tag columns of all summaries, `0` where a column has none. -/
def tagCounts (summaries : List TableSummary) : List (String × Nat) :=
  summaries.flatMap fun summary => summary.columns.filterMap fun column =>
    if column.influxdbType = some .tag then some (column.name, column.stats.distinctCount.getD 0)
    else none

/-- The estimated cardinality of a column: the sum over all summaries of its distinct counts as a
tag column, `0` where it is absent. -/
def cardinality (summaries : List TableSummary) (name : String) : Nat :=
  valueSum (tagCounts summaries) name

/-- `name` is a tag column of some summary. -/
def IsTag (summaries : List TableSummary) (name : String) : Prop :=
  ∃ summary ∈ summaries, ∃ column ∈ summary.columns,
    column.influxdbType = some .tag ∧ column.name = name

/-- `a` comes before `b` in the order of `(cardinality, name)`. -/
def CardNameLt (summaries : List TableSummary) (a b : String) : Prop :=
  cardinality summaries a < cardinality summaries b ∨
    (cardinality summaries a = cardinality summaries b ∧ a < b)

/-! ## The map of cardinalities -/

@[simp] theorem valueSum_nil (name : String) : valueSum [] name = 0 := rfl

@[simp] theorem valueSum_cons (k : String) (v : Nat) (rest : List (String × Nat)) (name : String) :
    valueSum ((k, v) :: rest) name = (if k = name then v else 0) + valueSum rest name := by
  by_cases h : k = name <;> simp [valueSum, List.filter_cons, h]

@[simp] theorem valueSum_append (ps qs : List (String × Nat)) (name : String) :
    valueSum (ps ++ qs) name = valueSum ps name + valueSum qs name := by
  simp [valueSum, List.sum_append]

theorem valueSum_perm {ps qs : List (String × Nat)} (h : ps.Perm qs) (name : String) :
    valueSum ps name = valueSum qs name :=
  ((h.filter _).map _).sum_eq

theorem valueSum_eq_zero {ps : List (String × Nat)} {name : String}
    (h : name ∉ ps.map Prod.fst) : valueSum ps name = 0 := by
  induction ps with
  | nil => rfl
  | cons p ps ih =>
    simp only [List.map_cons, List.mem_cons, not_or] at h
    rw [valueSum_cons, if_neg (Ne.symm h.1), ih h.2]

/-- A new name goes last; a name already in the map keeps its place. -/
theorem keys_addCardinality (m : List (String × Nat)) (name : String) (cnt : Nat) :
    (addCardinality m name cnt).map Prod.fst =
      if name ∈ m.map Prod.fst then m.map Prod.fst else m.map Prod.fst ++ [name] := by
  induction m with
  | nil => rfl
  | cons p rest ih =>
    obtain ⟨k, v⟩ := p
    by_cases hk : k = name
    · simp [addCardinality, hk]
    · simp only [addCardinality, hk, ite_false, List.map_cons, ih, List.mem_cons, Ne.symm hk,
        false_or]
      split_ifs <;> rfl

theorem mem_keys_addCardinality (m : List (String × Nat)) (name : String) (cnt : Nat)
    (k : String) : k ∈ (addCardinality m name cnt).map Prod.fst ↔ k ∈ m.map Prod.fst ∨ k = name := by
  rw [keys_addCardinality]
  split_ifs with h
  · exact ⟨Or.inl, fun hk => hk.elim id (· ▸ h)⟩
  · rw [List.mem_append, List.mem_singleton]

theorem nodup_addCardinality {m : List (String × Nat)} (hm : (m.map Prod.fst).Nodup)
    (name : String) (cnt : Nat) : ((addCardinality m name cnt).map Prod.fst).Nodup := by
  rw [keys_addCardinality]
  split_ifs with h
  · exact hm
  · exact hm.append (List.nodup_singleton _) (List.disjoint_singleton.mpr h)

/-- `+=` on the entry of `name`, read through `valueSum`. -/
theorem valueSum_addCardinality {m : List (String × Nat)} (hm : (m.map Prod.fst).Nodup)
    (name : String) (cnt : Nat) (k : String) :
    valueSum (addCardinality m name cnt) k =
      if k = name then (valueSum m name + cnt) % 2 ^ 64 else valueSum m k := by
  induction m with
  | nil => by_cases h : k = name <;> simp [addCardinality, h, Ne.symm]
  | cons p rest ih =>
    obtain ⟨k', v⟩ := p
    simp only [List.map_cons, List.nodup_cons] at hm
    by_cases hk' : k' = name
    · subst hk'
      have hzero := valueSum_eq_zero hm.1
      by_cases hk : k = k' <;> simp [addCardinality, hk, hzero, Ne.symm]
    · simp only [addCardinality, hk', ite_false, valueSum_cons, ih hm.2]
      by_cases hk : k = name
      · simp [hk, hk']
      · simp [hk]

/-- The loop of `compute_sort_key` over a list of `(name, count)` pairs. -/
def accumulate (m : List (String × Nat)) (pairs : List (String × Nat)) : List (String × Nat) :=
  pairs.foldl (fun m p => addCardinality m p.1 p.2) m

theorem foldl_addColumn (columns : List ColumnSummary) (m : List (String × Nat)) :
    columns.foldl addColumn m = accumulate m (columns.filterMap fun column =>
      if column.influxdbType = some .tag then some (column.name, column.stats.distinctCount.getD 0)
      else none) := by
  induction columns generalizing m with
  | nil => rfl
  | cons c cs ih =>
    by_cases h : c.influxdbType = some .tag <;> simp [addColumn, h, ih, accumulate]

theorem cardinalitiesOf_eq (summaries : List TableSummary) :
    cardinalitiesOf summaries = accumulate [] (tagCounts summaries) := by
  suffices ∀ m, summaries.foldl (fun m summary => summary.columns.foldl addColumn m) m =
      accumulate m (tagCounts summaries) from this []
  induction summaries with
  | nil => exact fun _ => rfl
  | cons s ss ih =>
    intro m
    rw [List.foldl_cons, ih, foldl_addColumn]
    simp only [tagCounts, List.flatMap_cons, accumulate, List.foldl_append]

/-- The map the loops build: its keys are the names of the pairs, each once, and the value of each
is the sum of its counts, wrapped to `u64`. -/
theorem accumulate_spec (pairs : List (String × Nat)) :
    ∀ m : List (String × Nat), (m.map Prod.fst).Nodup → (∀ k, valueSum m k < 2 ^ 64) →
      ((accumulate m pairs).map Prod.fst).Nodup ∧
      (∀ k, k ∈ (accumulate m pairs).map Prod.fst ↔ k ∈ m.map Prod.fst ∨ k ∈ pairs.map Prod.fst) ∧
      ∀ k, valueSum (accumulate m pairs) k = (valueSum m k + valueSum pairs k) % 2 ^ 64 := by
  induction pairs with
  | nil =>
    refine fun m hm hlt => ⟨hm, fun k => by simp [accumulate], fun k => ?_⟩
    rw [accumulate, List.foldl_nil, valueSum_nil, Nat.add_zero, Nat.mod_eq_of_lt (hlt k)]
  | cons p ps ih =>
    intro m hm hlt
    have hm₁ := nodup_addCardinality hm p.1 p.2
    have hlt₁ : ∀ k, valueSum (addCardinality m p.1 p.2) k < 2 ^ 64 := fun k => by
      rw [valueSum_addCardinality hm]
      split_ifs
      · exact Nat.mod_lt _ (Nat.two_pow_pos 64)
      · exact hlt k
    obtain ⟨hnodup, hkeys, hvalue⟩ := ih _ hm₁ hlt₁
    refine ⟨hnodup, fun k => ?_, fun k => ?_⟩
    · rw [accumulate, List.foldl_cons, ← accumulate, hkeys, mem_keys_addCardinality,
        List.map_cons, List.mem_cons, or_assoc]
    · rw [accumulate, List.foldl_cons, ← accumulate, hvalue, valueSum_addCardinality hm]
      obtain ⟨name, cnt⟩ := p
      by_cases hk : k = name
      · subst hk
        simp only [ite_true, valueSum_cons]
        omega
      · simp [hk, Ne.symm hk]

/-- With distinct keys, an entry is a key with its value. -/
theorem mem_iff_valueSum {m : List (String × Nat)} (hm : (m.map Prod.fst).Nodup) (k : String)
    (v : Nat) : (k, v) ∈ m ↔ k ∈ m.map Prod.fst ∧ v = valueSum m k := by
  induction m with
  | nil => simp
  | cons p rest ih =>
    obtain ⟨k', v'⟩ := p
    simp only [List.map_cons, List.nodup_cons] at hm
    by_cases hk : k = k'
    · subst hk
      have hnot : (k, v) ∉ rest := fun h => hm.1 (List.mem_map.mpr ⟨_, h, rfl⟩)
      simp [hnot, valueSum_eq_zero hm.1, eq_comm]
    · simp [hk, Ne.symm hk, ih hm.2]

theorem mem_tagCounts {summaries : List TableSummary} {name : String} :
    name ∈ (tagCounts summaries).map Prod.fst ↔ IsTag summaries name := by
  simp only [tagCounts, IsTag, List.map_flatMap, List.mem_flatMap, List.map_filterMap,
    List.mem_filterMap, Option.map_if, Option.map_some', Option.map_none',
    Option.ite_none_right_eq_some, Option.some.injEq]

theorem nodup_keys_cardinalitiesOf (summaries : List TableSummary) :
    ((cardinalitiesOf summaries).map Prod.fst).Nodup := by
  rw [cardinalitiesOf_eq]
  exact (accumulate_spec _ [] List.nodup_nil fun _ => Nat.two_pow_pos 64).1

theorem mem_keys_cardinalitiesOf (summaries : List TableSummary) (name : String) :
    name ∈ (cardinalitiesOf summaries).map Prod.fst ↔ IsTag summaries name := by
  rw [cardinalitiesOf_eq, (accumulate_spec _ [] List.nodup_nil fun _ => Nat.two_pow_pos 64).2.1,
    mem_tagCounts, List.map_nil]
  exact or_iff_right (List.not_mem_nil name)

/-- Where no sum wraps, the map the loops build holds each tag column once, with its cardinality. -/
theorem cardinalitiesOf_spec {summaries : List TableSummary}
    (hfits : ∀ name, cardinality summaries name < 2 ^ 64) (name : String) (cnt : Nat) :
    (name, cnt) ∈ cardinalitiesOf summaries ↔
      IsTag summaries name ∧ cnt = cardinality summaries name := by
  rw [mem_iff_valueSum (nodup_keys_cardinalitiesOf summaries), mem_keys_cardinalitiesOf,
    cardinalitiesOf_eq, (accumulate_spec _ [] List.nodup_nil fun _ => Nat.two_pow_pos 64).2.2,
    valueSum_nil, Nat.zero_add,
    Nat.mod_eq_of_lt (show valueSum (tagCounts summaries) name < 2 ^ 64 from hfits name)]
  rfl

/-! ## The sort -/

/-- The comparator `sort_by` is given, as the `≤` of `mergeSort`: the order of
`(cardinality, name)`. -/
theorem cmpCardName_ne_gt (a b : String × Nat) :
    (cmpCardName a b != .gt) = true ↔ a.2 ≤ b.2 ∧ (a.2 = b.2 → a.1 ≤ b.1) := by
  have hbne : ∀ o : Ordering, (o != .gt) = true ↔ o ≠ .gt := fun o => by cases o <;> decide
  rw [hbne, cmpCardName, Ne, Ordering.then_eq_gt, compare_gt_iff_gt, compare_eq_iff_eq,
    compare_gt_iff_gt, not_or, not_and, not_lt, not_lt]

theorem cmpCardName_trans (a b c : String × Nat) :
    (cmpCardName a b != .gt) = true → (cmpCardName b c != .gt) = true →
      (cmpCardName a c != .gt) = true := by
  simp only [cmpCardName_ne_gt]
  rintro ⟨hab, hab'⟩ ⟨hbc, hbc'⟩
  refine ⟨hab.trans hbc, fun hac => ?_⟩
  have hb : a.2 = b.2 := by omega
  exact (hab' hb).trans (hbc' (by omega))

theorem cmpCardName_total (a b : String × Nat) :
    ((cmpCardName a b != .gt) || (cmpCardName b a != .gt)) = true := by
  rw [Bool.or_eq_true, cmpCardName_ne_gt, cmpCardName_ne_gt]
  rcases le_total a.1 b.1 with h | h
  · by_cases hab : a.2 ≤ b.2
    · exact Or.inl ⟨hab, fun _ => h⟩
    · exact Or.inr ⟨by omega, fun _ => by omega⟩
  · by_cases hba : b.2 ≤ a.2
    · exact Or.inr ⟨hba, fun _ => h⟩
    · exact Or.inl ⟨by omega, fun _ => by omega⟩

/-- In the order of the comparator, an entry whose value is its cardinality comes before one of
another name in the order of `(cardinality, name)`. -/
theorem cardNameLt_of_cmpCardName {summaries : List TableSummary} {a b : String × Nat}
    (ha : a.2 = cardinality summaries a.1) (hb : b.2 = cardinality summaries b.1)
    (hle : (cmpCardName a b != .gt) = true) (hne : a.1 ≠ b.1) :
    CardNameLt summaries a.1 b.1 := by
  obtain ⟨h₁, h₂⟩ := (cmpCardName_ne_gt a b).mp hle
  rw [CardNameLt, ← ha, ← hb]
  by_cases heq : a.2 = b.2
  · exact Or.inr ⟨heq, lt_of_le_of_ne (h₂ heq) hne⟩
  · exact Or.inl (lt_of_le_of_ne h₁ heq)

theorem cardNameLt_asymm {summaries : List TableSummary} {a b : String}
    (h : CardNameLt summaries a b) : ¬ CardNameLt summaries b a := by
  rcases h with h | ⟨h, hab⟩ <;> rintro (h' | ⟨h', hba⟩)
  · omega
  · omega
  · omega
  · exact lt_asymm hab hba

/-- Two lists of columns in the order of `(cardinality, name)` with the same members are equal. -/
theorem eq_of_pairwise_cardNameLt {summaries : List TableSummary} {t₁ t₂ : List String}
    (h₁ : t₁.Pairwise (CardNameLt summaries)) (h₂ : t₂.Pairwise (CardNameLt summaries))
    (hmem : ∀ name, name ∈ t₁ ↔ name ∈ t₂) : t₁ = t₂ :=
  have hnodup : ∀ {t : List String}, t.Pairwise (CardNameLt summaries) → t.Nodup :=
    fun h => h.imp fun {a b} hab => show a ≠ b from fun heq => cardNameLt_asymm hab (heq ▸ hab)
  List.Perm.eq_of_sorted (fun _ _ _ _ hab hba => absurd hba (cardNameLt_asymm hab)) h₁ h₂
    ((List.perm_ext_iff_of_nodup (hnodup h₁) (hnodup h₂)).mpr hmem)

/-! ## The key -/

/-- `with_col` of distinct new columns, one after another, appends them. -/
theorem foldl_withCol (cols : List String) (builder : SortKeyBuilder)
    (h : (builder.columns ++ cols).Nodup) :
    (cols.foldl SortKeyBuilder.withCol builder).columns = builder.columns ++ cols := by
  induction cols generalizing builder with
  | nil => simp
  | cons c cs ih =>
    have hc : c ∉ builder.columns := fun hc =>
      (List.nodup_cons.mp (List.nodup_middle.mp h)).1 (List.mem_append_left _ hc)
    rw [List.foldl_cons, SortKeyBuilder.withCol, if_neg hc, ih _ (by simpa using h)]
    simp

/-- The columns of the key: the names of the sorted cardinalities, then the time column. -/
theorem computeSortKey_columns (intoIter : List (String × Nat) → List (String × Nat))
    (hiter : ∀ m, (intoIter m).Perm m) (summaries : List TableSummary)
    (htime : timeColumnName ∉ (cardinalitiesOf summaries).map Prod.fst) :
    (computeSortKey intoIter summaries).columns =
      ((intoIter (cardinalitiesOf summaries)).mergeSort fun a b => cmpCardName a b != .gt).map
        Prod.fst ++ [timeColumnName] := by
  have hperm := (((List.mergeSort_perm (intoIter (cardinalitiesOf summaries))
    fun a b => cmpCardName a b != .gt).trans (hiter _)).map Prod.fst)
  have hnodup := hperm.nodup_iff.mpr (nodup_keys_cardinalitiesOf summaries)
  simp only [computeSortKey, SortKeyBuilder.withCapacity, SortKeyBuilder.build]
  rw [← List.foldl_map Prod.fst SortKeyBuilder.withCol, SortKeyBuilder.withCol,
    foldl_withCol _ _ hnodup]
  simp only [List.nil_append, if_neg (hperm.mem_iff.not.mpr htime)]

theorem ne_time_of_isTag {summaries : List TableSummary}
    (htime : ∀ s ∈ summaries, ∀ c ∈ s.columns, c.influxdbType = some .tag →
      c.name ≠ timeColumnName) {name : String} (h : IsTag summaries name) :
    name ≠ timeColumnName := by
  obtain ⟨s, hs, c, hc, htag, rfl⟩ := h
  exact htime s hs c hc htag

/-- `compute_sort_key` on the summaries it is given: the tag columns, each once and in the order of
`(cardinality, name)`, then the time column. -/
theorem computeSortKey_spec {intoIter : List (String × Nat) → List (String × Nat)}
    (hiter : ∀ m, (intoIter m).Perm m) {summaries : List TableSummary}
    (htime : ∀ s ∈ summaries, ∀ c ∈ s.columns, c.influxdbType = some .tag →
      c.name ≠ timeColumnName)
    (hfits : ∀ name, cardinality summaries name < 2 ^ 64) :
    ∃ tags, (computeSortKey intoIter summaries).columns = tags ++ [timeColumnName] ∧
      tags.Nodup ∧ (∀ name, name ∈ tags ↔ IsTag summaries name) ∧
      tags.Pairwise (CardNameLt summaries) := by
  have hperm := (List.mergeSort_perm (intoIter (cardinalitiesOf summaries))
    fun a b => cmpCardName a b != .gt).trans (hiter _)
  have hnodup := (hperm.map Prod.fst).nodup_iff.mpr (nodup_keys_cardinalitiesOf summaries)
  refine ⟨_, computeSortKey_columns intoIter hiter summaries fun h =>
      ne_time_of_isTag htime ((mem_keys_cardinalitiesOf _ _).mp h) rfl, hnodup,
    fun name => ((hperm.map Prod.fst).mem_iff).trans (mem_keys_cardinalitiesOf _ name), ?_⟩
  have hvalue : ∀ p ∈ (intoIter (cardinalitiesOf summaries)).mergeSort
      (fun a b => cmpCardName a b != .gt), p.2 = cardinality summaries p.1 :=
    fun p hp => ((cardinalitiesOf_spec hfits p.1 p.2).mp (hperm.subset hp)).2
  refine List.pairwise_map.mpr (((List.sorted_mergeSort cmpCardName_trans cmpCardName_total _).and
    (List.pairwise_map.mp hnodup)).imp_of_mem fun ha hb h => ?_)
  exact cardNameLt_of_cmpCardName (hvalue _ ha) (hvalue _ hb) h.1 h.2

/-! ## Independence of the order of the chunks -/

theorem cardinality_perm {summaries summaries' : List TableSummary}
    (h : summaries'.Perm summaries) : cardinality summaries' = cardinality summaries :=
  funext (valueSum_perm (h.flatMap_right _))

theorem cardNameLt_perm {summaries summaries' : List TableSummary}
    (h : summaries'.Perm summaries) : CardNameLt summaries' = CardNameLt summaries := by
  unfold CardNameLt
  rw [cardinality_perm h]

theorem isTag_perm {summaries summaries' : List TableSummary} (h : summaries'.Perm summaries)
    (name : String) : IsTag summaries' name ↔ IsTag summaries name := by
  rw [← mem_tagCounts, ← mem_tagCounts]
  exact ((h.flatMap_right _).map _).mem_iff

/-- The key depends neither on the order of the summaries nor on that of the map. -/
theorem computeSortKey_perm {intoIter intoIter' : List (String × Nat) → List (String × Nat)}
    (hiter : ∀ m, (intoIter m).Perm m) (hiter' : ∀ m, (intoIter' m).Perm m)
    {summaries summaries' : List TableSummary} (hperm : summaries'.Perm summaries)
    (htime : ∀ s ∈ summaries, ∀ c ∈ s.columns, c.influxdbType = some .tag →
      c.name ≠ timeColumnName)
    (hfits : ∀ name, cardinality summaries name < 2 ^ 64) :
    computeSortKey intoIter' summaries' = computeSortKey intoIter summaries := by
  obtain ⟨tags, hcols, -, hmem, hsorted⟩ := computeSortKey_spec hiter htime hfits
  obtain ⟨tags', hcols', -, hmem', hsorted'⟩ := computeSortKey_spec hiter'
    (fun s hs => htime s (hperm.subset hs)) (cardinality_perm hperm ▸ hfits)
  have htags : tags' = tags := eq_of_pairwise_cardNameLt (cardNameLt_perm hperm ▸ hsorted')
    hsorted fun name => by rw [hmem', hmem, isTag_perm hperm]
  exact SortKey.ext (by rw [hcols', hcols, htags])

/-- For summaries with no tag column named `time` and no cardinality past `u64`, and for
every order in which the `HashMap` hands out its entries: the key is the tag columns, each once
and in the order of `(cardinality, name)`, then the time column; so it is the same for every
order of the summaries and of the map. -/
theorem computeSortKey_tags_by_cardinality (intoIter : List (String × Nat) → List (String × Nat))
    (hiter : ∀ m, (intoIter m).Perm m) (summaries : List TableSummary)
    (htime : ∀ s ∈ summaries, ∀ c ∈ s.columns, c.influxdbType = some .tag →
      c.name ≠ timeColumnName)
    (hfits : ∀ name, cardinality summaries name < 2 ^ 64) :
    ∃ tags, (computeSortKey intoIter summaries).columns = tags ++ [timeColumnName] ∧
      tags.Nodup ∧ (∀ name, name ∈ tags ↔ IsTag summaries name) ∧
      tags.Pairwise (CardNameLt summaries) ∧
      ∀ intoIter' : List (String × Nat) → List (String × Nat), (∀ m, (intoIter' m).Perm m) →
        ∀ summaries' : List TableSummary, summaries'.Perm summaries →
          computeSortKey intoIter' summaries' = computeSortKey intoIter summaries := by
  obtain ⟨tags, hcols, hnodup, hmem, hsorted⟩ := computeSortKey_spec hiter htime hfits
  exact ⟨tags, hcols, hnodup, hmem, hsorted, fun _ hiter' _ hperm =>
    computeSortKey_perm hiter hiter' hperm htime hfits⟩

/-- Two chunks of one table: `host` a tag in both, `region` a tag with no distinct count, and
the timestamp column. -/
def twoChunks : List TableSummary :=
  [⟨[⟨"host", some .tag, .string ⟨none, none, 10, none, some 3⟩⟩,
    ⟨"time", some .timestamp, .i64 ⟨none, none, 10, none, some 10⟩⟩]⟩,
   ⟨[⟨"host", some .tag, .string ⟨none, none, 4, none, some 2⟩⟩,
    ⟨"region", some .tag, .string ⟨none, none, 4, none, none⟩⟩]⟩]

theorem computeSortKey_tags_by_cardinality_two_chunks :
    (∀ m : List (String × Nat), (id m).Perm m) ∧
    (∀ s ∈ twoChunks, ∀ c ∈ s.columns, c.influxdbType = some .tag → c.name ≠ timeColumnName) ∧
    (∀ name, cardinality twoChunks name < 2 ^ 64) ∧
    ∃ tags, (computeSortKey id twoChunks).columns = tags ++ [timeColumnName] ∧
      tags.Nodup ∧ (∀ name, name ∈ tags ↔ IsTag twoChunks name) ∧
      tags.Pairwise (CardNameLt twoChunks) ∧
      ∀ intoIter' : List (String × Nat) → List (String × Nat), (∀ m, (intoIter' m).Perm m) →
        ∀ summaries' : List TableSummary, summaries'.Perm twoChunks →
          computeSortKey intoIter' summaries' = computeSortKey id twoChunks :=
  have hiter : ∀ m : List (String × Nat), (id m).Perm m := fun m => List.Perm.refl m
  have htime : ∀ s ∈ twoChunks, ∀ c ∈ s.columns, c.influxdbType = some .tag →
      c.name ≠ timeColumnName := by decide
  have hfits : ∀ name, cardinality twoChunks name < 2 ^ 64 := fun name => by
    simp [cardinality, tagCounts, twoChunks, Statistics.distinctCount]
    split_ifs <;> omega
  ⟨hiter, htime, hfits, computeSortKey_tags_by_cardinality id hiter twoChunks htime hfits⟩

/-! ## The sort key of a set of chunks -/

/-- `chunks_have_stats`, on what `summary()` returns for each chunk. -/
def chunksHaveStats (chunks : List (Option TableSummary)) : Bool :=
  chunks.all Option.isSome

/-- `compute_sort_key_for_chunks`, with `SortKey::from_columns(schema.primary_key())`, which is
computed outside the source tree, as `primaryKey`. On the branch that calls
`compute_sort_key` every chunk has a summary, so the `expect` never fails and the summaries
are those of the chunks, in order. -/
def computeSortKeyForChunks (intoIter : List (String × Nat) → List (String × Nat))
    (primaryKey : SortKey) (chunks : List (Option TableSummary)) : SortKey :=
  if !chunksHaveStats chunks then primaryKey else computeSortKey intoIter (chunks.filterMap id)

theorem chunksHaveStats_perm {chunks chunks' : List (Option TableSummary)}
    (h : chunks'.Perm chunks) : chunksHaveStats chunks' = chunksHaveStats chunks :=
  Bool.eq_iff_iff.mpr (by simp only [chunksHaveStats, List.all_eq_true, h.mem_iff])

/-- The key of a set of chunks does not depend on their order, nor on that of the map. -/
theorem computeSortKeyForChunks_perm
    {intoIter intoIter' : List (String × Nat) → List (String × Nat)}
    (hiter : ∀ m, (intoIter m).Perm m) (hiter' : ∀ m, (intoIter' m).Perm m) (primaryKey : SortKey)
    {chunks chunks' : List (Option TableSummary)} (hperm : chunks'.Perm chunks)
    (htime : ∀ s ∈ chunks.filterMap id, ∀ c ∈ s.columns, c.influxdbType = some .tag →
      c.name ≠ timeColumnName)
    (hfits : ∀ name, cardinality (chunks.filterMap id) name < 2 ^ 64) :
    computeSortKeyForChunks intoIter' primaryKey chunks' =
      computeSortKeyForChunks intoIter primaryKey chunks := by
  unfold computeSortKeyForChunks
  rw [chunksHaveStats_perm hperm]
  split_ifs
  · rfl
  · exact computeSortKey_perm hiter hiter' (hperm.filterMap id) htime hfits

theorem computeSortKeyForChunks_twoChunks_reverse :
    computeSortKeyForChunks List.reverse ⟨[]⟩ (twoChunks.map some).reverse =
      computeSortKeyForChunks id ⟨[]⟩ (twoChunks.map some) :=
  have hchunks : (twoChunks.map some).filterMap id = twoChunks := by simp
  computeSortKeyForChunks_perm (fun m => List.Perm.refl m) List.reverse_perm ⟨[]⟩
    (List.reverse_perm _) (by rw [hchunks]; decide) fun name => by
      rw [hchunks]
      simp [cardinality, tagCounts, twoChunks, Statistics.distinctCount]
      split_ifs <;> omega

/-! ## The columns of the delete predicates -/

/-- Modelled from the spec: a `DeleteExpr` of the `predicate` crate, which is not in the source
tree, by the field `delete_predicate_columns` reads: its column. -/
structure DeleteExpr where
  column : String

/-- Modelled from the spec: a `DeletePredicate` of the `predicate` crate, by its expressions; its
time range is not read. -/
structure DeletePredicate where
  exprs : List DeleteExpr

/-- The inner loop of `delete_predicate_columns`: every column but the time column goes into the
`BTreeSet`, a map to `()`. -/
def insertColumn (colNames : BTreeMap String Unit) (expr : DeleteExpr) : BTreeMap String Unit :=
  if expr.column ≠ timeColumnName then colNames.insert expr.column () else colNames

/-- `QueryChunkMeta::delete_predicate_columns`. -/
def deletePredicateColumns (deletePredicates : List DeletePredicate) : List String :=
  (deletePredicates.foldl (fun colNames pred => pred.exprs.foldl insertColumn colNames)
    BTreeMap.empty).entries.map Prod.fst ++ [timeColumnName]

/-- One expression puts its column into the set, unless it is the time column. -/
theorem isSome_insertColumn (colNames : BTreeMap String Unit) (expr : DeleteExpr) (c : String) :
    ((insertColumn colNames expr).get? c).isSome ↔
      (colNames.get? c).isSome ∨ (c ≠ timeColumnName ∧ expr.column = c) := by
  unfold insertColumn
  split_ifs with ht
  · by_cases hc : expr.column = c
    · subst hc
      simp [ht]
    · simp [hc]
  · refine ⟨.inl, ?_⟩
    rintro (h | ⟨hc, rfl⟩)
    · exact h
    · exact absurd hc ht

/-- The set holds a column once an expression names it, unless it is the time column. -/
theorem isSome_foldl_insertColumn (c : String) :
    ∀ (exprs : List DeleteExpr) (colNames : BTreeMap String Unit),
      ((exprs.foldl insertColumn colNames).get? c).isSome ↔
        (colNames.get? c).isSome ∨ (c ≠ timeColumnName ∧ ∃ expr ∈ exprs, expr.column = c)
  | [], colNames => by simp
  | expr :: exprs, colNames => by
    rw [List.foldl_cons, isSome_foldl_insertColumn c exprs, isSome_insertColumn]
    simp only [List.mem_cons, exists_eq_or_imp, and_or_left, or_assoc]

theorem isSome_foldl_deletePredicates (c : String) :
    ∀ (deletePredicates : List DeletePredicate) (colNames : BTreeMap String Unit),
      ((deletePredicates.foldl (fun colNames pred => pred.exprs.foldl insertColumn colNames)
          colNames).get? c).isSome ↔
        (colNames.get? c).isSome ∨
          (c ≠ timeColumnName ∧ ∃ pred ∈ deletePredicates, ∃ expr ∈ pred.exprs, expr.column = c)
  | [], colNames => by simp
  | pred :: deletePredicates, colNames => by
    rw [List.foldl_cons, isSome_foldl_deletePredicates c deletePredicates,
      isSome_foldl_insertColumn]
    simp only [List.mem_cons, exists_eq_or_imp, and_or_left, or_assoc]

/-- `delete_predicate_columns` lists each column named by an expression of the delete predicates
once, in lexicographical order, and the time column last, named or not. -/
theorem deletePredicateColumns_spec (deletePredicates : List DeletePredicate) :
    ∃ cols, deletePredicateColumns deletePredicates = cols ++ [timeColumnName] ∧
      cols.Pairwise (· < ·) ∧
      ∀ c, c ∈ cols ↔
        c ≠ timeColumnName ∧ ∃ pred ∈ deletePredicates, ∃ expr ∈ pred.exprs, expr.column = c := by
  let colNames := deletePredicates.foldl (fun colNames pred => pred.exprs.foldl insertColumn
    colNames) BTreeMap.empty
  refine ⟨colNames.entries.map Prod.fst, rfl, List.pairwise_map.mpr colNames.sorted, fun c => ?_⟩
  rw [← BTreeMap.get?_isSome_iff, isSome_foldl_deletePredicates]
  simp

end IoxCore.Query
