import IoxCore.DataTypes

/-!
# The headers of a write-buffer message

`write_buffer/src/codec.rs`. Every message in the write buffer carries `IoxHeaders`: its content
type, the span context of the write (if any) and its namespace. `IoxHeaders::headers` writes them
as a list of name-value pairs; `IoxHeaders::from_headers` reads such a list back, matching names
without regard to ASCII case, letting a later header overwrite an earlier one, and failing on the
first value it cannot decode.

The span context, its Jaeger text form (`format_jaeger_trace_context`), the trace header parser
of `trace_http` and UTF-8 decoding (`std::str::from_utf8`) live outside the source tree; they are
the fields of `Env`. Header values travel as the bytes of their text.

The results: the headers a message was written with read back to its content type and namespace,
and to its span context when the reader has a trace collector whose parser reads back what the
formatter wrote (an unsampled span context is dropped), to none without a collector; a later
namespace header overrides what the earlier ones said; and reading does not depend on the ASCII
case of the header names.
-/

namespace IoxCore.WriteBuffer

/-- `CONTENT_TYPE_PROTOBUF`. -/
def contentTypeProtobuf : String :=
  "application/x-protobuf; schema=\"influxdata.iox.write_buffer.v1.WriteBufferPayload\""

/-- `HEADER_CONTENT_TYPE`. -/
def headerContentType : String := "content-type"

/-- `HEADER_TRACE_CONTEXT`. -/
def headerTraceContext : String := "uber-trace-id"

/-- `HEADER_NAMESPACE`. -/
def headerNamespace : String := "iox-namespace"

/-- `ContentType`. -/
inductive ContentType
  | protobuf
  deriving DecidableEq, Repr

/-- `IoxHeaders`, over span contexts `S`. -/
structure IoxHeaders (S : Type) where
  contentType : ContentType
  spanContext : Option S
  «namespace» : String

/-- What the codec uses from outside the source tree, for span contexts `S` and trace collectors
`C`: the UTF-8 bytes of a text (`str::as_bytes`) and their decoding with the text of its error
(`std::str::from_utf8`), the Jaeger formatter, the trace header parser (`none` where
`HeaderValue::from_bytes` rejects the bytes and the header is skipped), and whether a span context
is sampled. -/
structure Env (S C : Type) where
  asBytes : String → List UInt8
  fromUtf8 : List UInt8 → Except String String
  formatJaegerTraceContext : S → String
  parseTraceHeader : C → List UInt8 → Option (Except String (Option S))
  sampled : S → Bool

/-- `str::eq_ignore_ascii_case`: the same length, and the same letters up to ASCII case. The
source compares bytes; the names it compares with are ASCII, for which comparing characters
gives the same answer. -/
def eqIgnoreAsciiCase (a b : String) : Bool :=
  a.length == b.length && (a.data.zip b.data).all fun p => p.1.toLower == p.2.toLower

/-- Names equal up to ASCII case are those with the same lower-case letters. -/
theorem eqIgnoreAsciiCase_iff {a b : String} :
    eqIgnoreAsciiCase a b = true ↔ a.data.map Char.toLower = b.data.map Char.toLower := by
  obtain ⟨l⟩ := a
  obtain ⟨l'⟩ := b
  simp only [eqIgnoreAsciiCase, String.length_mk]
  induction l generalizing l' with
  | nil => cases l' <;> simp
  | cons c l ih =>
    cases l' with
    | nil => simp
    | cons c' l' =>
      simp only [List.length_cons, List.zip_cons_cons, List.all_cons, List.map_cons,
        List.cons.injEq, ← ih l', Nat.add_right_cancel_iff, beq_iff_eq, Bool.and_eq_true]
      tauto

/-- A name read in place of another with the same letters up to case is compared alike. -/
theorem eqIgnoreAsciiCase_congr {a b : String} (h : eqIgnoreAsciiCase a b = true) (k : String) :
    eqIgnoreAsciiCase a k = eqIgnoreAsciiCase b k :=
  Bool.eq_iff_iff.mpr (by rw [eqIgnoreAsciiCase_iff, eqIgnoreAsciiCase_iff, eqIgnoreAsciiCase_iff.mp h])

namespace IoxHeaders

variable {S C : Type}

/-- `IoxHeaders::headers`: the content type, the span context in Jaeger form if there is one, and
the namespace. -/
def headers (formatJaegerTraceContext : S → String) (this : IoxHeaders S) :
    List (String × String) :=
  let contentType := match this.contentType with
    | .protobuf => contentTypeProtobuf
  [(headerContentType, contentType)] ++
    (this.spanContext.map fun ctx => (headerTraceContext, formatJaegerTraceContext ctx)).toList ++
    [(headerNamespace, this.«namespace»)]

/-- The variables of the loop of `from_headers`. -/
structure Scan (S : Type) where
  spanContext : Option S
  contentType : Option ContentType
  «namespace» : Option String

/-- One header of the loop of `IoxHeaders::from_headers`. -/
def fromHeadersStep (env : Env S C) (traceCollector : Option C) (scan : Scan S)
    (header : String × List UInt8) : Except String (Scan S) := do
  let scan ← if eqIgnoreAsciiCase header.1 headerContentType then
      match env.fromUtf8 header.2 with
      | .ok c =>
        if c = contentTypeProtobuf then pure { scan with contentType := some .protobuf }
        else throw s!"Unknown message format: {c}"
      | .error e => throw s!"Error decoding content type header: {e}"
    else pure scan
  let scan ← match traceCollector with
    | some traceCollector =>
      if eqIgnoreAsciiCase header.1 headerTraceContext then
        match env.parseTraceHeader traceCollector header.2 with
        | none => pure scan
        | some (.ok none) => pure { scan with spanContext := none }
        | some (.ok (some ctx)) =>
          pure { scan with spanContext := if env.sampled ctx then some ctx else none }
        | some (.error e) => throw s!"Error decoding trace context: {e}"
      else pure scan
    | none => pure scan
  if eqIgnoreAsciiCase header.1 headerNamespace then
    match env.fromUtf8 header.2 with
    | .ok ns => pure { scan with «namespace» := some ns }
    | .error e => throw s!"Error decoding namespace header: {e}"
  else pure scan

/-- `IoxHeaders::from_headers`. -/
def fromHeaders (env : Env S C) (headers : List (String × List UInt8))
    (traceCollector : Option C) : Except String (IoxHeaders S) := do
  let scan ← headers.foldlM (fromHeadersStep env traceCollector) ⟨none, none, none⟩
  match scan.contentType with
  | some contentType => pure ⟨contentType, scan.spanContext, scan.«namespace».getD ""⟩
  | none => throw "No content type header"

/-! ## One header -/

theorem eqIgnoreAsciiCase_self (a : String) : eqIgnoreAsciiCase a a = true :=
  eqIgnoreAsciiCase_iff.mpr rfl

/-- The three header names are told apart. -/
theorem headerNames_distinct :
    eqIgnoreAsciiCase headerContentType headerTraceContext = false ∧
    eqIgnoreAsciiCase headerContentType headerNamespace = false ∧
    eqIgnoreAsciiCase headerTraceContext headerContentType = false ∧
    eqIgnoreAsciiCase headerTraceContext headerNamespace = false ∧
    eqIgnoreAsciiCase headerNamespace headerContentType = false ∧
    eqIgnoreAsciiCase headerNamespace headerTraceContext = false := by
  decide

variable (env : Env S C) (traceCollector : Option C) (scan : Scan S)

/-- Two headers whose names agree up to ASCII case and whose values agree are read alike. -/
theorem fromHeadersStep_congr {a b : String × List UInt8} (h : eqIgnoreAsciiCase a.1 b.1 = true)
    (hv : a.2 = b.2) :
    fromHeadersStep env traceCollector scan a = fromHeadersStep env traceCollector scan b := by
  simp only [fromHeadersStep, eqIgnoreAsciiCase_congr h, hv]

theorem fromHeadersStep_contentType (hutf8 : ∀ s, env.fromUtf8 (env.asBytes s) = .ok s) :
    fromHeadersStep env traceCollector scan (headerContentType, env.asBytes contentTypeProtobuf) =
      .ok { scan with contentType := some .protobuf } := by
  obtain ⟨h₁, h₂, -⟩ := headerNames_distinct
  cases traceCollector <;>
    simp [fromHeadersStep, hutf8, eqIgnoreAsciiCase_self, h₁, h₂] <;> rfl

theorem fromHeadersStep_traceContext_none (value : List UInt8) :
    fromHeadersStep env none scan (headerTraceContext, value) = .ok scan := by
  obtain ⟨-, -, h₃, h₄, -⟩ := headerNames_distinct
  simp [fromHeadersStep, h₃, h₄]
  rfl

theorem fromHeadersStep_traceContext_some {c : C} {ctx : S}
    (htrace : env.parseTraceHeader c (env.asBytes (env.formatJaegerTraceContext ctx)) =
      some (.ok (some ctx))) :
    fromHeadersStep env (some c) scan
        (headerTraceContext, env.asBytes (env.formatJaegerTraceContext ctx)) =
      .ok { scan with spanContext := if env.sampled ctx then some ctx else none } := by
  obtain ⟨-, -, h₃, h₄, -⟩ := headerNames_distinct
  simp [fromHeadersStep, h₃, h₄, eqIgnoreAsciiCase_self, htrace]
  rfl

theorem fromHeadersStep_namespace (hutf8 : ∀ s, env.fromUtf8 (env.asBytes s) = .ok s) (ns : String) :
    fromHeadersStep env traceCollector scan (headerNamespace, env.asBytes ns) =
      .ok { scan with «namespace» := some ns } := by
  obtain ⟨-, -, -, -, h₅, h₆⟩ := headerNames_distinct
  cases traceCollector <;> simp [fromHeadersStep, hutf8, eqIgnoreAsciiCase_self, h₅, h₆] <;> rfl

/-! ## Whole header lists -/

/-- `from_headers` reads header names without regard to their ASCII case. -/
theorem fromHeaders_congr_case {hs hs' : List (String × List UInt8)}
    (h : List.Forall₂ (fun a b => eqIgnoreAsciiCase a.1 b.1 = true ∧ a.2 = b.2) hs hs') :
    fromHeaders env hs traceCollector = fromHeaders env hs' traceCollector := by
  suffices hfold : ∀ scan, hs.foldlM (fromHeadersStep env traceCollector) scan =
      hs'.foldlM (fromHeadersStep env traceCollector) scan by
    simp only [fromHeaders, hfold]
  induction h with
  | nil => exact fun _ => rfl
  | cons hab _ ih =>
    intro scan
    simp only [List.foldlM_cons, fromHeadersStep_congr env traceCollector scan hab.1 hab.2, ih]

/-- Each character as the four bytes of its code point. -/
def charBytes (c : Char) : List UInt8 :=
  [UInt8.ofNat (c.toNat / 2 ^ 24 % 256), UInt8.ofNat (c.toNat / 2 ^ 16 % 256),
    UInt8.ofNat (c.toNat / 2 ^ 8 % 256), UInt8.ofNat (c.toNat % 256)]

/-- Reads `charBytes` back, four bytes at a time. -/
def charsOfBytes : List UInt8 → List Char
  | a :: b :: c :: d :: rest =>
    Char.ofNat (a.toNat * 2 ^ 24 + b.toNat * 2 ^ 16 + c.toNat * 2 ^ 8 + d.toNat) ::
      charsOfBytes rest
  | _ => []

theorem charsOfBytes_flatMap (l : List Char) : charsOfBytes (l.flatMap charBytes) = l := by
  induction l with
  | nil => rfl
  | cons c l ih =>
    have hc : c.toNat < 2 ^ 32 := c.val.toNat_lt_size
    have hbyte : ∀ n, (UInt8.ofNat (n % 256)).toNat = n % 256 := fun n =>
      UInt8.toNat_ofNat_of_lt (Nat.mod_lt _ (by decide))
    have hsum : c.toNat / 2 ^ 24 % 256 * 2 ^ 24 + c.toNat / 2 ^ 16 % 256 * 2 ^ 16 +
        c.toNat / 2 ^ 8 % 256 * 2 ^ 8 + c.toNat % 256 = c.toNat := by omega
    rw [List.flatMap_cons]
    simp only [charBytes, List.cons_append, List.nil_append, charsOfBytes, hbyte, hsum,
      Char.ofNat_toNat]
    exact congrArg (c :: ·) ih

/-- A codec environment with `charBytes` for the encoding of texts, span contexts that are their
own Jaeger text, and every span context sampled. -/
def textEnv : Env String Unit where
  asBytes s := s.data.flatMap charBytes
  fromUtf8 b := .ok ⟨charsOfBytes b⟩
  formatJaegerTraceContext ctx := ctx
  parseTraceHeader _ b := some (.ok (some ⟨charsOfBytes b⟩))
  sampled _ := true

theorem textEnv_fromUtf8 (s : String) : textEnv.fromUtf8 (textEnv.asBytes s) = .ok s := by
  simp [textEnv, charsOfBytes_flatMap]

theorem fromHeaders_congr_case_textEnv :
    eqIgnoreAsciiCase "Content-Type" headerContentType = true ∧
    fromHeaders textEnv [("Content-Type", textEnv.asBytes contentTypeProtobuf)] none =
      fromHeaders textEnv [(headerContentType, textEnv.asBytes contentTypeProtobuf)] none :=
  have hname : eqIgnoreAsciiCase "Content-Type" headerContentType = true := by decide
  ⟨hname, fromHeaders_congr_case textEnv none (.cons ⟨hname, rfl⟩ .nil)⟩

/-- A namespace header read after a list of headers overrides the namespace they gave. -/
theorem fromHeaders_append_namespace (hutf8 : ∀ s, env.fromUtf8 (env.asBytes s) = .ok s)
    {hs : List (String × List UInt8)} {h : IoxHeaders S}
    (hread : fromHeaders env hs traceCollector = .ok h) (ns : String) :
    fromHeaders env (hs ++ [(headerNamespace, env.asBytes ns)]) traceCollector =
      .ok { h with «namespace» := ns } := by
  obtain ⟨scan, hfold, hread⟩ := except_bind_eq_ok.mp hread
  cases hct : scan.contentType with
  | none => simp [hct] at hread
  | some ct =>
    simp only [hct] at hread
    cases hread
    simp [fromHeaders, List.foldlM_append, hfold, fromHeadersStep_namespace env traceCollector _ hutf8,
      hct]
    rfl

theorem fromHeaders_append_namespace_textEnv :
    fromHeaders textEnv ([(headerContentType, textEnv.asBytes contentTypeProtobuf)] ++
        [(headerNamespace, textEnv.asBytes "ns")]) none =
      .ok ⟨.protobuf, none, "ns"⟩ :=
  have hread : fromHeaders textEnv [(headerContentType, textEnv.asBytes contentTypeProtobuf)]
      none = .ok ⟨.protobuf, none, ""⟩ := by
    simp [fromHeaders, fromHeadersStep_contentType textEnv none _ textEnv_fromUtf8]
    rfl
  fromHeaders_append_namespace textEnv none textEnv_fromUtf8 hread "ns"

/-- The headers a message was written with read back to its content type and namespace, and to
its span context when the reader has a trace collector whose parser reads back what the Jaeger
formatter wrote, an unsampled one being dropped; without a trace collector, to no span context. -/
theorem fromHeaders_headers (hutf8 : ∀ s, env.fromUtf8 (env.asBytes s) = .ok s)
    (htrace : ∀ c ∈ traceCollector, ∀ ctx,
      env.parseTraceHeader c (env.asBytes (env.formatJaegerTraceContext ctx)) = some (.ok (some ctx)))
    (this : IoxHeaders S) :
    fromHeaders env ((this.headers env.formatJaegerTraceContext).map fun p => (p.1, env.asBytes p.2))
        traceCollector =
      .ok { this with spanContext := traceCollector.bind fun _ => this.spanContext.filter env.sampled } := by
  obtain ⟨⟨⟩, spanContext, ns⟩ := this
  cases spanContext with
  | none =>
    simp [fromHeaders, headers, fromHeadersStep_contentType env traceCollector _ hutf8,
      fromHeadersStep_namespace env traceCollector _ hutf8]
    cases traceCollector <;> rfl
  | some ctx =>
    cases traceCollector with
    | none =>
      simp [fromHeaders, headers, fromHeadersStep_contentType env none _ hutf8,
        fromHeadersStep_traceContext_none, fromHeadersStep_namespace env none _ hutf8]
      rfl
    | some c =>
      simp [fromHeaders, headers, fromHeadersStep_contentType env (some c) _ hutf8,
        fromHeadersStep_traceContext_some env _ (htrace c rfl ctx),
        fromHeadersStep_namespace env (some c) _ hutf8, Option.filter]
      rfl

theorem fromHeaders_headers_textEnv :
    fromHeaders textEnv ((IoxHeaders.headers textEnv.formatJaegerTraceContext
        ⟨.protobuf, some "1:2:3:1", "namespace"⟩).map fun p => (p.1, textEnv.asBytes p.2)) (some ()) =
      .ok ⟨.protobuf, some "1:2:3:1", "namespace"⟩ :=
  fromHeaders_headers textEnv (some ()) textEnv_fromUtf8
    (fun _ _ ctx => by simp [textEnv, charsOfBytes_flatMap]) _

end IoxHeaders

end IoxCore.WriteBuffer
