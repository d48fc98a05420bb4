import IoxCore.DataTypes

/-!
# Ordered maps

The lifecycle manager keeps its per-partition statistics, and the per-sequencer maxima of a
persist pass, in a `BTreeMap`. Its iteration order is the order of its keys, and
`LifecycleManager::stats` hands that order on to the persist pass, so the model keeps it: a map is
its association list sorted strictly by key, and the sortedness is a field of the structure. Every
map the model builds therefore has unique keys.

Two permutation lemmas, `entries_perm_insert` and `entries_perm_remove`, are all that later proofs
need about the entry list: sums and memberships over `values` follow from them.
-/

namespace IoxCore

/-- A `BTreeMap K V`, as its entries in strictly ascending key order. -/
structure BTreeMap (K V : Type) [LinearOrder K] where
  entries : List (K × V)
  sorted : entries.Pairwise (fun a b => a.1 < b.1)

namespace BTreeMap

variable {K V : Type} [LinearOrder K]

/-! ## Association lists -/

/-- The value of the first entry with key `k`. -/
def lookup (k : K) : List (K × V) → Option V
  | [] => none
  | p :: ps => if p.1 = k then some p.2 else lookup k ps

/-- Insert into a sorted association list, replacing the entry with key `k` if there is one. -/
def insertEntry (k : K) (v : V) : List (K × V) → List (K × V)
  | [] => [(k, v)]
  | p :: ps =>
    if k < p.1 then (k, v) :: p :: ps
    else if k = p.1 then (k, v) :: ps
    else p :: insertEntry k v ps

theorem lookup_insertEntry (j k : K) (v : V) (ps : List (K × V)) :
    lookup j (insertEntry k v ps) = if k = j then some v else lookup j ps := by
  induction ps with
  | nil => rfl
  | cons p ps ih =>
    unfold insertEntry
    by_cases h₁ : k < p.1
    · simp only [h₁, ite_true, lookup]
    by_cases h₂ : k = p.1
    · subst h₂
      simp only [lt_irrefl, ite_false, ite_true, lookup]
      split_ifs <;> rfl
    · simp only [h₁, h₂, ite_false, lookup, ih]
      split_ifs <;> simp_all

/-- Looking up a key commutes with mapping the values. -/
theorem lookup_map_snd {W : Type} (f : V → W) (k : K) :
    ∀ ps : List (K × V), lookup k (ps.map fun p => (p.1, f p.2)) = (lookup k ps).map f
  | [] => rfl
  | p :: ps => by
    by_cases h : p.1 = k <;> simp [lookup, h, lookup_map_snd f k ps]

theorem mem_insertEntry {k : K} {v : V} {ps : List (K × V)} {q : K × V}
    (h : q ∈ insertEntry k v ps) : q.1 = k ∨ q ∈ ps := by
  induction ps with
  | nil => simp_all [insertEntry]
  | cons p ps ih =>
    unfold insertEntry at h
    split_ifs at h <;> simp only [List.mem_cons] at h
    · rcases h with rfl | h <;> simp_all
    · rcases h with rfl | h <;> simp_all
    · rcases h with rfl | h
      · simp
      · rcases ih h with h | h <;> simp_all

theorem sorted_insertEntry (k : K) (v : V) {ps : List (K × V)}
    (hs : ps.Pairwise (fun a b => a.1 < b.1)) :
    (insertEntry k v ps).Pairwise (fun a b => a.1 < b.1) := by
  induction ps with
  | nil => simp [insertEntry]
  | cons p ps ih =>
    rw [List.pairwise_cons] at hs
    unfold insertEntry
    split_ifs with h₁ h₂
    · refine List.Pairwise.cons (fun q hq => ?_) (List.Pairwise.cons hs.1 hs.2)
      rcases List.mem_cons.mp hq with rfl | hq
      · exact h₁
      · exact h₁.trans (hs.1 q hq)
    · exact List.Pairwise.cons (fun q hq => h₂ ▸ hs.1 q hq) hs.2
    · refine List.Pairwise.cons (fun q hq => ?_) (ih hs.2)
      rcases mem_insertEntry hq with h | h
      · rw [h]; exact lt_of_le_of_ne (not_lt.mp h₁) (Ne.symm h₂)
      · exact hs.1 q h

/-- Inserting a key the sorted list holds replaces its entry in place. -/
theorem insertEntry_eq_map {k : K} {v : V} {ps : List (K × V)}
    (hs : ps.Pairwise (fun a b => a.1 < b.1)) (hk : k ∈ ps.map Prod.fst) :
    insertEntry k v ps = ps.map fun p => if p.1 = k then (k, v) else p := by
  induction ps with
  | nil => simp at hk
  | cons p ps ih =>
    rw [List.pairwise_cons] at hs
    unfold insertEntry
    by_cases hkp : k = p.1
    · subst hkp
      have hrest : ∀ q ∈ ps, (if q.1 = p.1 then (p.1, v) else q) = q :=
        fun q hq => if_neg (hs.1 q hq).ne'
      rw [if_neg (lt_irrefl _), if_pos rfl, List.map_cons, if_pos rfl, List.map_congr_left hrest,
        List.map_id']
    · have hin : k ∈ ps.map Prod.fst := by simpa [hkp] using hk
      obtain ⟨q, hq, rfl⟩ := List.mem_map.mp hin
      rw [if_neg (not_lt.mpr (hs.1 q hq).le), if_neg hkp, ih hs.2 hin, List.map_cons,
        if_neg (Ne.symm hkp)]

/-! ## The map operations -/

/-- `BTreeMap::new`. -/
def empty : BTreeMap K V := ⟨[], .nil⟩

/-- `BTreeMap::get`. -/
def get? (m : BTreeMap K V) (k : K) : Option V := lookup k m.entries

/-- `BTreeMap::insert`. -/
def insert (m : BTreeMap K V) (k : K) (v : V) : BTreeMap K V :=
  ⟨insertEntry k v m.entries, sorted_insertEntry k v m.sorted⟩

/-- `BTreeMap::remove`, without its return value (which is `get? m k`). -/
def remove (m : BTreeMap K V) (k : K) : BTreeMap K V :=
  ⟨m.entries.filter (fun p => p.1 ≠ k), m.sorted.filter _⟩

/-- `BTreeMap::values`, in key order. -/
def values (m : BTreeMap K V) : List V := m.entries.map Prod.snd

@[simp] theorem get?_empty (k : K) : (empty : BTreeMap K V).get? k = none := rfl

@[simp] theorem get?_insert (m : BTreeMap K V) (j k : K) (v : V) :
    (m.insert k v).get? j = if k = j then some v else m.get? j :=
  lookup_insertEntry j k v m.entries

theorem lookup_filter (j k : K) (ps : List (K × V)) :
    lookup j (ps.filter (fun p => p.1 ≠ k)) = if k = j then none else lookup j ps := by
  induction ps with
  | nil => simp [lookup]
  | cons p ps ih =>
    by_cases hp : p.1 = k
    · rw [List.filter_cons_of_neg (by simpa using hp), ih]
      simp only [lookup]
      split_ifs <;> simp_all
    · rw [List.filter_cons_of_pos (by simpa using hp)]
      simp only [lookup, ih]
      split_ifs <;> simp_all

@[simp] theorem get?_remove (m : BTreeMap K V) (j k : K) :
    (m.remove k).get? j = if k = j then none else m.get? j :=
  lookup_filter j k m.entries

/-- Keys above the head of a sorted list are never the key `k` below it. -/
theorem filter_eq_self_of_lt {k : K} {ps : List (K × V)} (h : ∀ q ∈ ps, k < q.1) :
    ps.filter (fun p => p.1 ≠ k) = ps :=
  List.filter_eq_self.mpr fun q hq => by simpa using (h q hq).ne'

theorem lookup_eq_none_of_lt {k : K} {ps : List (K × V)} (h : ∀ q ∈ ps, k < q.1) :
    lookup k ps = none := by
  induction ps with
  | nil => rfl
  | cons p ps ih =>
    simp only [List.mem_cons, forall_eq_or_imp] at h
    simp [lookup, h.1.ne', ih h.2]

/-! ## The entry list up to permutation -/

theorem entries_perm_insert (m : BTreeMap K V) (k : K) (v : V) :
    (m.insert k v).entries.Perm ((k, v) :: (m.remove k).entries) := by
  obtain ⟨ps, hs⟩ := m
  simp only [insert, remove]
  induction ps with
  | nil => simp [insertEntry]
  | cons p ps ih =>
    rw [List.pairwise_cons] at hs
    unfold insertEntry
    split_ifs with h₁ h₂
    · rw [filter_eq_self_of_lt]
      simp only [List.mem_cons, forall_eq_or_imp]
      exact ⟨h₁, fun q hq => h₁.trans (hs.1 q hq)⟩
    · subst h₂
      rw [List.filter_cons_of_neg (by simp), filter_eq_self_of_lt hs.1]
    · rw [List.filter_cons_of_pos (by simpa using fun h => h₂ h.symm)]
      exact ((ih hs.2).cons p).trans (List.Perm.swap _ _ _)

theorem entries_perm_remove (m : BTreeMap K V) (k : K) :
    m.entries.Perm (((m.get? k).map (k, ·)).toList ++ (m.remove k).entries) := by
  obtain ⟨ps, hs⟩ := m
  simp only [get?, remove]
  induction ps with
  | nil => simp [lookup]
  | cons p ps ih =>
    rw [List.pairwise_cons] at hs
    by_cases hp : p.1 = k
    · subst hp
      rw [List.filter_cons_of_neg (by simp), filter_eq_self_of_lt hs.1]
      simp [lookup]
    · rw [List.filter_cons_of_pos (by simpa using hp)]
      simp only [lookup, hp, ite_false]
      exact ((ih hs.2).cons p).trans List.perm_middle.symm

/-- The sum of a quantity over the values, after an insert. -/
theorem sum_values_insert (m : BTreeMap K V) (k : K) (v : V) (f : V → Nat) :
    ((m.insert k v).values.map f).sum = ((m.remove k).values.map f).sum + f v := by
  simp only [values, List.map_map]
  rw [((entries_perm_insert m k v).map _).sum_eq]
  simp [Nat.add_comm]

/-- The sum of a quantity over the values splits into the removed entry and the rest. -/
theorem sum_values_remove (m : BTreeMap K V) (k : K) (f : V → Nat) :
    (m.values.map f).sum = ((m.get? k).map f).getD 0 + ((m.remove k).values.map f).sum := by
  simp only [values, List.map_map]
  rw [((entries_perm_remove m k).map _).sum_eq]
  cases m.get? k <;> simp

/-- An entry of the map is what `get?` returns for its key. -/
theorem mem_entries_iff (m : BTreeMap K V) (k : K) (v : V) :
    (k, v) ∈ m.entries ↔ m.get? k = some v := by
  rw [(entries_perm_remove m k).mem_iff]
  cases h : m.get? k with
  | none => simp [remove]
  | some w => simp [remove, eq_comm]

theorem get?_isSome_iff (m : BTreeMap K V) (k : K) :
    (m.get? k).isSome ↔ k ∈ m.entries.map Prod.fst := by
  simp [Option.isSome_iff_exists, ← mem_entries_iff]

/-- Overwriting a key the map holds keeps the other entries and their order. -/
theorem entries_insert_of_get? {m : BTreeMap K V} {k : K} {v w : V} (h : m.get? k = some w) :
    (m.insert k v).entries = m.entries.map fun p => if p.1 = k then (k, v) else p :=
  insertEntry_eq_map m.sorted (List.mem_map.mpr ⟨(k, w), (mem_entries_iff m k w).mpr h, rfl⟩)

theorem mem_values_iff (m : BTreeMap K V) (v : V) :
    v ∈ m.values ↔ ∃ k, m.get? k = some v := by
  simp [values, ← mem_entries_iff]

end BTreeMap

end IoxCore
