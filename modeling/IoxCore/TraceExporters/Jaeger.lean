import Mathlib.Algebra.Order.Ring.Int
import Mathlib.Data.List.Basic
import Mathlib.Data.String.Basic

/-!
# The Jaeger exporter

`trace_exporters/src/jaeger.rs`. Two pieces of it are logic rather than plumbing:

* `JaegerTag::from_str` reads a static span tag from a `key=value` argument: it splits on `=`
  and wants exactly two non-empty parts. It accepts exactly the texts `key ++ "=" ++ value` with a
  non-empty key and value free of `=`, and gives back that key and value.
* `JaegerAgentExporter::make_batch` numbers the batches it sends with a sequence number that
  grows by one per batch (`next_sequence += 1` on an `i64`), so that the agent can tell a batch
  was dropped: over any run of fewer than `2^63` exports from a new exporter, the `k`-th batch
  carries `k`.

The thrift types, the UDP socket and the conversion of a span to its thrift form are outside the
source tree; a span's thrift form is a parameter.
-/

namespace IoxCore.TraceExporters

/-- `JaegerTag`: a `key=value` pair for span annotations. -/
structure JaegerTag where
  key : String
  value : String
  deriving DecidableEq, Repr

namespace JaegerTag

/-- `<JaegerTag as FromStr>::from_str`. -/
def fromStr (s : String) : Except String JaegerTag :=
  match s.split (· == '=') with
  | [key, value] =>
    if key ≠ "" ∧ value ≠ "" then .ok ⟨key, value⟩
    else .error s!"invalid key=value pair ({s})"
  | _ => .error s!"invalid key=value pair ({s})"

/-- No part of a split holds the separator. -/
theorem not_mem_of_mem_splitOn {x : Char} :
    ∀ {xs : List Char} {l : List Char}, l ∈ xs.splitOn x → x ∉ l
  | [], l, h => by simp_all
  | a :: xs, l, h => by
    have ih : ∀ {l}, l ∈ xs.splitOn x → x ∉ l := fun h => not_mem_of_mem_splitOn h
    unfold List.splitOn at h ih
    rw [List.splitOnP_cons] at h
    split_ifs at h with ha
    · rcases List.mem_cons.mp h with rfl | h
      · simp
      · exact ih h
    · obtain ⟨hd, tl, hsplit⟩ := List.exists_cons_of_ne_nil (List.splitOnP_ne_nil (· == x) xs)
      rw [hsplit] at h ih
      rcases List.mem_cons.mp h with rfl | h
      · have hx : a ≠ x := fun hax => ha (by simp [hax])
        simpa [Ne.symm hx] using ih (List.mem_cons_self hd tl)
      · exact ih (List.mem_cons_of_mem _ h)

theorem split_eq (s : String) :
    s.split (· == '=') = (s.data.splitOn '=').map String.mk :=
  String.split_of_valid s _

/-- A text splits on `=` into exactly two parts when it is two `=`-free parts joined by `=`. -/
theorem splitOn_eq_pair_iff (s k v : List Char) :
    s.splitOn '=' = [k, v] ↔ '=' ∉ k ∧ '=' ∉ v ∧ s = k ++ '=' :: v := by
  constructor
  · intro hs
    refine ⟨not_mem_of_mem_splitOn (hs ▸ List.mem_cons_self k [v]),
      not_mem_of_mem_splitOn (hs ▸ List.mem_cons_of_mem k (List.mem_singleton_self v)), ?_⟩
    rw [← List.intercalate_splitOn s '=', hs]
    simp [List.intercalate]
  · rintro ⟨hk, hv, rfl⟩
    simpa [List.intercalate] using
      @List.splitOn_intercalate _ [k, v] _ '=' (by simp [hk, hv]) (by simp)

/-- `from_str` accepts exactly a non-empty key and a non-empty value, neither holding `=`, joined
by `=`, and returns them. -/
theorem fromStr_eq_ok_iff (s : String) (tag : JaegerTag) :
    fromStr s = .ok tag ↔ tag.key ≠ "" ∧ tag.value ≠ "" ∧ '=' ∉ tag.key.data ∧
      '=' ∉ tag.value.data ∧ s = tag.key ++ "=" ++ tag.value := by
  obtain ⟨⟨key⟩, ⟨value⟩⟩ := tag
  unfold fromStr
  rw [split_eq]
  constructor
  · intro h
    match hs : s.data.splitOn '=', h with
    | [k, v], h =>
      simp only [List.map_cons, List.map_nil] at h
      split_ifs at h with hne
      cases h
      obtain ⟨hk, hv, hdata⟩ := (splitOn_eq_pair_iff _ _ _).mp hs
      exact ⟨hne.1, hne.2, hk, hv, String.ext (by simpa using hdata)⟩
    | [], h | [_], h | _ :: _ :: _ :: _, h => simp [hs] at h
  · rintro ⟨hk, hv, hkeq, hveq, rfl⟩
    rw [(splitOn_eq_pair_iff _ key value).mpr ⟨hkeq, hveq, by simp⟩]
    exact if_pos ⟨hk, hv⟩

end JaegerTag

/-! ## Batches -/

/-- `jaeger::Batch`, by what `make_batch` puts in it, over the thrift form `JS` of a span and the
thrift form `T` of a tag. -/
structure Batch (JS T : Type) where
  serviceName : String
  tags : Option (List T)
  spans : List JS
  seqNo : Option Int

/-- `JaegerAgentExporter`, without its client. -/
structure JaegerAgentExporter (T : Type) where
  serviceName : String
  nextSequence : Int
  tags : Option (List T)

namespace JaegerAgentExporter

variable {Sp JS T : Type} (toJaeger : Sp → JS)

/-- `JaegerAgentExporter::new`, past the socket set-up. -/
def new (serviceName : String) : JaegerAgentExporter T := ⟨serviceName, 0, none⟩

/-- `JaegerAgentExporter::make_batch`: `next_sequence += 1` on an `i64`, wrapping as a release
build does. -/
def makeBatch (this : JaegerAgentExporter T) (spans : List Sp) :
    Batch JS T × JaegerAgentExporter T :=
  (⟨this.serviceName, this.tags, spans.map toJaeger, some this.nextSequence⟩,
    { this with nextSequence := (this.nextSequence + 1).bmod (2 ^ 64) })

/-- The batches of successive calls of `export`, in order. -/
def exportAll (this : JaegerAgentExporter T) : List (List Sp) → List (Batch JS T)
  | [] => []
  | spans :: rest =>
    (makeBatch toJaeger this spans).1 :: exportAll (makeBatch toJaeger this spans).2 rest

/-- The batches of a run from an exporter whose next sequence number is `k`, short of the
`i64` bound, are numbered `k, k + 1, ...`. -/
theorem seqNo_exportAll (this : JaegerAgentExporter T) :
    ∀ (runs : List (List Sp)), 0 ≤ this.nextSequence →
      this.nextSequence + runs.length < 2 ^ 63 →
      (exportAll toJaeger this runs).map Batch.seqNo =
        (List.range runs.length).map fun i : Nat => some (this.nextSequence + (i : Int))
  | [], _, _ => rfl
  | spans :: rest, h0, hlen => by
    rw [List.length_cons] at hlen
    push_cast at hlen
    have hnext : (makeBatch toJaeger this spans).2.nextSequence = this.nextSequence + 1 := by
      have hmod : (this.nextSequence + 1) % ((2 ^ 64 : Nat) : Int) = this.nextSequence + 1 :=
        Int.emod_eq_of_lt (by omega) (by push_cast; omega)
      show (this.nextSequence + 1).bmod (2 ^ 64) = _
      rw [Int.bmod_pos _ _ (by rw [hmod]; omega), hmod]
    rw [exportAll, List.map_cons, List.length_cons, List.range_succ_eq_map, List.map_cons,
      seqNo_exportAll (makeBatch toJaeger this spans).2 rest (by omega) (by omega), hnext]
    simp [makeBatch, List.map_map, Function.comp_def]
    intro i _
    omega

/-- From a new exporter, the `k`-th batch of any run of fewer than `2^63` exports carries the
sequence number `k`. -/
theorem seqNo_exportAll_new (serviceName : String) (runs : List (List Sp))
    (hruns : runs.length < 2 ^ 63) :
    (exportAll toJaeger (new serviceName : JaegerAgentExporter T) runs).map Batch.seqNo =
      (List.range runs.length).map fun i : Nat => some (i : Int) := by
  rw [seqNo_exportAll toJaeger _ runs (by simp [new]) (by simp [new]; exact_mod_cast hruns)]
  simp [new]

theorem seqNo_exportAll_new_twoExports :
    ([[], []] : List (List Unit)).length < 2 ^ 63 ∧
      (exportAll (id : Unit → Unit) (new "iox" : JaegerAgentExporter Unit) [[], []]).map
        Batch.seqNo =
        [some 0, some 1] :=
  ⟨by decide, seqNo_exportAll_new (id : Unit → Unit) "iox" [[], []] (by decide)⟩

end JaegerAgentExporter

end IoxCore.TraceExporters
