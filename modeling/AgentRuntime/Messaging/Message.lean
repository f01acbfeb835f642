import AgentRuntime.Domain.Text
import AgentRuntime.Observability.TraceContext
import AgentRuntime.Security.Envelope

/-!
# The messages of the broker

The publisher writes an outbox event down as a small JSON document; the worker reads the run and
the trace context back out of it. The worker trusts the broker no further than it has to: the
run id goes through `UUID()`, the trace context through a filter and once more through
`sanitize_trace_context`.

* `messagePayload`, `publishedBody`: what the publisher sends;
* `uuidOfText?`: `UUID(text)` for any text;
* `runIdFromMessage`, `traceContextFromMessage`: what the worker reads;
* `message_round_trip`: the worker reads the run and the sanitised context of the event.
-/

namespace AgentRuntime.Messaging

open Domain Application Database Security
open Observability

/-! ### The publisher -/

/-- `event.payload.get("trace_context", {})`, or an empty mapping where that is not a mapping. -/
def traceContextOf (payload : JsonObject) : JsonObject :=
  match JsonObject.getD payload "trace_context" (.obj []) with
  | .obj context => context
  | _ => []

/-- Keep messages small; workers rehydrate all authoritative data from PostgreSQL. -/
def messagePayload (event : OutboxEvent) : JsonObject :=
  [("event_id", .str event.id.str), ("run_id", .str event.aggregateId.str),
    ("trace_context", .obj (sanitizeTraceContext (traceContextOf event.payload)))]

/-- The body of the message:
`json.dumps(payload, separators=(",", ":"), sort_keys=True).encode("utf-8")`. -/
def publishedBody (event : OutboxEvent) : Bytes :=
  encodeText (String.ofList (compactStyle.text (canon (.obj (messagePayload event)))))

/-! ### `UUID(text)` -/

/-- `text.replace(pattern, "")`; the number is how many characters of a match are still to go. -/
def removeText (pattern : List Char) : ℕ → List Char → List Char
  | _, [] => []
  | skip + 1, _ :: cs => removeText pattern skip cs
  | 0, c :: cs =>
    if pattern.isPrefixOf (c :: cs) then removeText pattern (pattern.length - 1) cs
    else c :: removeText pattern 0 cs

/-- `text.strip("{}")`. -/
def stripBraces (text : List Char) : List Char :=
  (text.dropWhile fun c => c == '{' || c == '}').rdropWhile fun c => c == '{' || c == '}'

/-- The blanks `int()` allows around a number: unlike `str.strip()` not the separators 28 to 31. -/
def isNumberBlank (c : Char) : Bool := isSpaceChar c && !(28 ≤ c.toNat && c.toNat ≤ 31)

/-- A digit of `int(text, 16)`. -/
def hexDigitValue? (c : Char) : Option ℕ := (hexValue? c).orElse fun _ => decimalValue? c

/-- Hexadecimal digits with single underscores between them, after the number `n`. -/
def scanHexDigits (n : ℕ) (afterDigit : Bool) : List Char → Option ℕ
  | [] => if afterDigit then some n else none
  | c :: cs =>
    if c = '_' then if afterDigit then scanHexDigits n false cs else none
    else (hexDigitValue? c).bind fun d => scanHexDigits (16 * n + d) true cs

/-- The digits after the sign, behind `0x` or not. -/
def scanUnsignedHex : List Char → Option ℕ
  | '0' :: 'x' :: '_' :: cs => scanHexDigits 0 false cs
  | '0' :: 'X' :: '_' :: cs => scanHexDigits 0 false cs
  | '0' :: 'x' :: cs => scanHexDigits 0 false cs
  | '0' :: 'X' :: cs => scanHexDigits 0 false cs
  | cs => scanHexDigits 0 false cs

/-- `int(text, 16)`. -/
def hexInt? (text : List Char) : Option ℤ :=
  match (text.dropWhile isNumberBlank).rdropWhile isNumberBlank with
  | '+' :: cs => (scanUnsignedHex cs).map fun n => (n : ℤ)
  | '-' :: cs => (scanUnsignedHex cs).map fun n => -(n : ℤ)
  | cs => (scanUnsignedHex cs).map fun n => (n : ℤ)

/-- The UUID with a number that is in range. -/
def uuidOfInt? (n : ℤ) : Option Uuid :=
  if 0 ≤ n ∧ n < 2 ^ 128 then some ⟨BitVec.ofNat 128 n.toNat⟩ else none

/-- `UUID(text)`; `none` where it raises `ValueError`. -/
def uuidOfText? (text : List Char) : Option Uuid :=
  let hex := (stripBraces (removeText "uuid:".toList 0 (removeText "urn:".toList 0 text))).filter
    fun c => c ≠ '-'
  if hex.length ≠ 32 then none else (hexInt? hex).bind uuidOfInt?

/-! ### The worker -/

section Worker

variable [FloatRepr]

/-- The payload in what `json.loads` came to. -/
def payloadOf : Except PyError Json → Except PyError JsonObject
  | .ok (.obj payload) => .ok payload
  | .ok _ => .error (.valueError "Message body is not an object")
  | .error _ => .error (.valueError "Message body is not JSON")

/-- `_message_payload(body)`. -/
def messageOf (body : Bytes) : Except PyError JsonObject := do
  let text ← decodeText body
  payloadOf (loads text)

/-- The run in `payload.get("run_id")`. -/
def runIdOf : Option Json → Except PyError Uuid
  | some (.str text) =>
    match uuidOfText? text.toList with
    | some id => .ok id
    | none => .error (.valueError "Message run_id is invalid")
  | _ => .error (.valueError "Message does not contain a run_id")

/-- `run_id_from_message(body)`. -/
def runIdFromMessage (body : Bytes) : Except PyError Uuid := do
  let payload ← messageOf body
  runIdOf (JsonObject.get? payload "run_id")

/-- The members of a trace context the worker looks at. -/
def isTraceMember (m : String × Json) : Bool :=
  match m.2 with
  | .str _ => m.1 == "traceparent" || m.1 == "tracestate"
  | _ => false

/-- `trace_context_from_message(body)`: every error of `_message_payload` is a `ValueError`. -/
def traceContextFromMessage (body : Bytes) : JsonObject :=
  match messageOf body with
  | .error _ => []
  | .ok payload =>
    match JsonObject.getD payload "trace_context" (.obj []) with
    | .obj context => sanitizeTraceContext (context.filter isTraceMember)
    | _ => []

end Worker

/-! ### The body is read back -/

/-- A sanitised context, in its three forms. -/
theorem context_cases (carrier : JsonObject) :
    sanitizeTraceContext carrier = []
      ∨ (∃ parent, sanitizeTraceContext carrier = [("traceparent", .str parent)])
      ∨ ∃ parent state, sanitizeTraceContext carrier
        = [("traceparent", .str parent), ("tracestate", .str state)] := by
  obtain hempty | ⟨parent, -, -, hresult | ⟨state, -, -, hresult⟩⟩ :=
    sanitizeTraceContext_cases carrier
  · exact .inl hempty
  · exact .inr (.inl ⟨parent, hresult⟩)
  · exact .inr (.inr ⟨parent, state, hresult⟩)

/-- The keys of a message are in order. -/
theorem canon_messagePayload (event : OutboxEvent) :
    canon (.obj (messagePayload event)) = .obj (messagePayload event) := by
  have hcontext : canon (.obj (sanitizeTraceContext (traceContextOf event.payload)))
      = .obj (sanitizeTraceContext (traceContextOf event.payload)) := by
    obtain h | ⟨parent, h⟩ | ⟨parent, state, h⟩ := context_cases (traceContextOf event.payload)
    · rw [h]
      rfl
    · rw [h]
      rfl
    · rw [h]
      have horder : "traceparent" ≤ "tracestate" := by decide
      simp [canon, canonMembers, sortMembers, horder]
  have horder : "event_id" ≤ "run_id" ∧ "run_id" ≤ "trace_context" := by decide
  unfold messagePayload
  rw [canon, canonMembers, canonMembers, canonMembers, canonMembers, hcontext]
  simp [canon, sortMembers, horder.1, horder.2]

/-! ### The text of a UUID is read back -/

/-- A text without the first character of the pattern stays. -/
theorem removeText_eq_self {first : Char} (pattern : List Char) {text : List Char}
    (h : first ∉ text) : removeText (first :: pattern) 0 text = text := by
  induction text with
  | nil => rfl
  | cons c cs ih =>
    obtain ⟨hc, hcs⟩ := List.ne_and_not_mem_of_not_mem_cons h
    have hne : (first :: pattern).isPrefixOf (c :: cs) = false := by
      simp [List.isPrefixOf, hc]
    rw [removeText, hne, ih hcs]
    rfl

/-- A text without the characters to strip stays. -/
theorem strip_eq_self {p : Char → Bool} {text : List Char} (h : ∀ c ∈ text, p c = false) :
    (text.dropWhile p).rdropWhile p = text := by
  have hdrop : ∀ {cs : List Char}, (∀ c ∈ cs, p c = false) → cs.dropWhile p = cs := by
    intro cs hcs
    cases cs with
    | nil => rfl
    | cons c rest =>
      exact List.dropWhile_cons_of_neg (by rw [hcs c List.mem_cons_self]; decide)
  have hreverse : ∀ c ∈ text.reverse, p c = false := fun c hc => h c (List.mem_reverse.mp hc)
  rw [hdrop h, List.rdropWhile, hdrop hreverse, List.reverse_reverse]

/-- A lower-case digit is none of the characters that mean something else to `UUID` or `int`. -/
theorem hexDigit_plain {n : ℕ} (h : n < 16) :
    hexDigit n ≠ 'u' ∧ (hexDigit n == '\x7b' || hexDigit n == '\x7d') = false
      ∧ isNumberBlank (hexDigit n) = false ∧ hexDigit n ≠ '+' ∧ hexDigit n ≠ '-'
      ∧ hexDigit n ≠ 'x' ∧ hexDigit n ≠ 'X' ∧ hexDigit n ≠ '_' := by
  have hall : ∀ k : Fin 16, hexDigit k ≠ 'u'
      ∧ (hexDigit k == '\x7b' || hexDigit k == '\x7d') = false
      ∧ isNumberBlank (hexDigit k) = false ∧ hexDigit k ≠ '+' ∧ hexDigit k ≠ '-'
      ∧ hexDigit k ≠ 'x' ∧ hexDigit k ≠ 'X' ∧ hexDigit k ≠ '_' := by decide
  exact hall ⟨n, h⟩

/-- The digits of a UUID. -/
theorem exists_of_mem_hex {u : Uuid} {c : Char} (h : c ∈ u.hex) : ∃ n < 16, c = hexDigit n := by
  obtain ⟨i, -, rfl⟩ := List.mem_map.mp h
  exact ⟨_, Nat.mod_lt _ (by decide), rfl⟩

/-- Plain digits after another are read as a number. -/
theorem scanHexDigits_hex {digits : List Char} (h : ∀ c ∈ digits, ∃ n < 16, c = hexDigit n)
    (n : ℕ) :
    scanHexDigits n true digits
      = some (digits.foldl (fun n c => 16 * n + (hexValue? c).getD 0) n) := by
  induction digits generalizing n with
  | nil => rfl
  | cons c cs ih =>
    obtain ⟨⟨d, hd, rfl⟩, hcs⟩ := List.forall_mem_cons.mp h
    have hunderscore := (hexDigit_plain hd).2.2.2.2.2.2.2
    rw [scanHexDigits, if_neg hunderscore, hexDigitValue?, hexValue?_hexDigit hd,
      List.foldl_cons, hexValue?_hexDigit hd]
    exact ih hcs _

/-- Digits that are not behind `0x`. -/
theorem scanUnsignedHex_eq {cs : List Char} (hx : ∀ rest, cs ≠ '0' :: 'x' :: rest)
    (hX : ∀ rest, cs ≠ '0' :: 'X' :: rest) : scanUnsignedHex cs = scanHexDigits 0 false cs := by
  unfold scanUnsignedHex
  split
  next => exact absurd rfl (hx _)
  next => exact absurd rfl (hX _)
  next => exact absurd rfl (hx _)
  next => exact absurd rfl (hX _)
  next => rfl

/-- **`int(text, 16)`** on plain digits. -/
theorem hexInt?_hex {digits : List Char} (h : ∀ c ∈ digits, ∃ n < 16, c = hexDigit n)
    (hne : digits ≠ []) : hexInt? digits = some (hexNumber digits : ℤ) := by
  have hplain : ∀ {c}, c ∈ digits → isNumberBlank c = false ∧ c ≠ '+' ∧ c ≠ '-' ∧ c ≠ 'x'
      ∧ c ≠ 'X' ∧ c ≠ '_' := by
    intro c hc
    obtain ⟨d, hd, rfl⟩ := h c hc
    exact (hexDigit_plain hd).2.2
  have hunsigned : scanUnsignedHex digits = some (hexNumber digits) := by
    have hmark : ∀ {a x : Char} {rest : List Char}, digits = a :: x :: rest →
        x ≠ 'x' ∧ x ≠ 'X' := by
      rintro a x rest rfl
      obtain ⟨-, -, -, hx, hX, -⟩ := hplain (List.mem_cons_of_mem a List.mem_cons_self)
      exact ⟨hx, hX⟩
    rw [scanUnsignedHex_eq (fun rest hrest => (hmark hrest).1 rfl)
      (fun rest hrest => (hmark hrest).2 rfl)]
    -- the first digit starts the number, the others follow it
    obtain ⟨c, cs, rfl⟩ := List.exists_cons_of_ne_nil hne
    obtain ⟨⟨d, hd, rfl⟩, hcs⟩ := List.forall_mem_cons.mp h
    have hunderscore := (hplain List.mem_cons_self).2.2.2.2.2
    rw [scanHexDigits, if_neg hunderscore, hexDigitValue?, hexValue?_hexDigit hd, hexNumber,
      List.foldl_cons, hexValue?_hexDigit hd]
    exact scanHexDigits_hex hcs _
  unfold hexInt?
  rw [strip_eq_self fun c hc => (hplain hc).1]
  split
  next cs => exact absurd rfl (hplain List.mem_cons_self).2.1
  next cs => exact absurd rfl (hplain List.mem_cons_self).2.2.1
  next => rw [hunsigned]; rfl

theorem uuidOfInt?_toNat (u : Uuid) : uuidOfInt? (u.value.toNat : ℤ) = some u := by
  have hlt : u.value.toNat < 2 ^ 128 := u.value.isLt
  unfold uuidOfInt?
  rw [if_pos ⟨Int.natCast_nonneg _, by exact_mod_cast hlt⟩, Int.toNat_natCast, BitVec.ofNat_toNat,
    BitVec.setWidth_eq]

/-- **`UUID(str(u))`** is `u`. -/
theorem uuidOfText?_str (u : Uuid) : uuidOfText? u.str.toList = some u := by
  have hchars : ∀ c ∈ u.str.toList, c = '-' ∨ ∃ n < 16, c = hexDigit n := by
    intro c hc
    by_cases hyphen : c = '-'
    · exact .inl hyphen
    · have hmem : c ∈ u.str.toList.filter fun c => c ≠ '-' :=
        List.mem_filter.mpr ⟨hc, decide_eq_true hyphen⟩
      rw [Uuid.filter_str] at hmem
      exact .inr (exists_of_mem_hex hmem)
  have hu : 'u' ∉ u.str.toList := by
    intro hmem
    obtain hyphen | ⟨n, hn, hdigit⟩ := hchars _ hmem
    · exact absurd hyphen (by decide)
    · exact (hexDigit_plain hn).1 hdigit.symm
  have hbraces : ∀ c ∈ u.str.toList, (c == '\x7b' || c == '\x7d') = false := by
    intro c hc
    obtain rfl | ⟨n, hn, rfl⟩ := hchars c hc
    · decide
    · exact (hexDigit_plain hn).2.1
  have hhex : (stripBraces (removeText "uuid:".toList 0
      (removeText "urn:".toList 0 u.str.toList))).filter (fun c => c ≠ '-') = u.hex := by
    have hurn : removeText "urn:".toList 0 u.str.toList = u.str.toList := removeText_eq_self _ hu
    have huuid : removeText "uuid:".toList 0 u.str.toList = u.str.toList := removeText_eq_self _ hu
    rw [hurn, huuid, stripBraces, strip_eq_self hbraces, Uuid.filter_str]
  have hlength : ¬ u.hex.length ≠ 32 := not_not_intro u.length_hex
  have hne : u.hex ≠ [] := List.ne_nil_of_length_pos (by rw [u.length_hex]; decide)
  unfold uuidOfText?
  dsimp only
  rw [hhex, if_neg hlength, hexInt?_hex (fun c hc => exists_of_mem_hex hc) hne, hexNumber_hex,
    Option.bind_some, uuidOfInt?_toNat]

section RoundTrip

variable [FloatRepr]

/-- A message consists of texts and of mappings with different keys. -/
theorem held_messagePayload (event : OutboxEvent) : Held (.obj (messagePayload event)) := by
  have hcontext : Held (.obj (sanitizeTraceContext (traceContextOf event.payload))) := by
    obtain h | ⟨parent, h⟩ | ⟨parent, state, h⟩ := context_cases (traceContextOf event.payload)
    · rw [h]
      exact ⟨List.nodup_nil, trivial⟩
    · rw [h]
      exact ⟨List.nodup_singleton _, trivial, trivial⟩
    · rw [h]
      have hkeys : ["traceparent", "tracestate"].Nodup := by decide
      exact ⟨hkeys, trivial, trivial, trivial⟩
  have hkeys : ["event_id", "run_id", "trace_context"].Nodup := by decide
  exact ⟨hkeys, trivial, trivial, hcontext, trivial⟩

theorem messageOf_encodeText (text : String) :
    messageOf (encodeText text) = payloadOf (loads text) := by
  unfold messageOf
  rw [decodeText_encodeText]
  rfl

/-- **The body** of a published event is read back as its payload. -/
theorem messageOf_publishedBody (event : OutboxEvent) :
    messageOf (publishedBody event) = .ok (messagePayload event) := by
  unfold publishedBody
  rw [messageOf_encodeText, canon_messagePayload,
    loads_text readable_compactStyle (held_messagePayload event)]
  rfl

/-- **The trace context** the worker reads is the one that was sent. -/
theorem traceContextFromMessage_publishedBody (event : OutboxEvent) :
    traceContextFromMessage (publishedBody event)
      = sanitizeTraceContext (traceContextOf event.payload) := by
  have hget : JsonObject.getD (messagePayload event) "trace_context" (.obj [])
      = .obj (sanitizeTraceContext (traceContextOf event.payload)) := by
    simp [messagePayload, JsonObject.getD, JsonObject.get?]
  have hfilter : (sanitizeTraceContext (traceContextOf event.payload)).filter isTraceMember
      = sanitizeTraceContext (traceContextOf event.payload) := by
    obtain h | ⟨parent, h⟩ | ⟨parent, state, h⟩ := context_cases (traceContextOf event.payload)
    all_goals rw [h]; simp [isTraceMember]
  unfold traceContextFromMessage
  rw [messageOf_publishedBody]
  dsimp only
  rw [hget]
  dsimp only
  rw [hfilter, sanitizeTraceContext_idem]

theorem runIdFromMessage_eq {body : Bytes} {payload : JsonObject}
    (h : messageOf body = .ok payload) :
    runIdFromMessage body = runIdOf (JsonObject.get? payload "run_id") := by
  unfold runIdFromMessage
  rw [h]
  rfl

/-- **The run** the worker reads is the event's. -/
theorem runIdFromMessage_publishedBody (event : OutboxEvent) :
    runIdFromMessage (publishedBody event) = .ok event.aggregateId := by
  have hget : JsonObject.get? (messagePayload event) "run_id"
      = some (.str event.aggregateId.str) := by
    simp [messagePayload, JsonObject.get?]
  rw [runIdFromMessage_eq (messageOf_publishedBody event), hget, runIdOf, uuidOfText?_str]

/-- **Messages.** For every outbox event the worker reads the event's run and the sanitised form
of its trace context out of the body the publisher sends. Sanitising keeps only a supported
`traceparent` and a supported `tracestate` of the carrier, unchanged, and changes nothing the second
time. -/
theorem message_round_trip (event : OutboxEvent) :
    runIdFromMessage (publishedBody event) = .ok event.aggregateId
      ∧ traceContextFromMessage (publishedBody event)
        = sanitizeTraceContext (traceContextOf event.payload)
      ∧ ∀ carrier, Sanitized carrier (sanitizeTraceContext carrier)
        ∧ sanitizeTraceContext (sanitizeTraceContext carrier) = sanitizeTraceContext carrier :=
  ⟨runIdFromMessage_publishedBody event, traceContextFromMessage_publishedBody event,
    fun carrier => ⟨sanitizeTraceContext_sanitized carrier, sanitizeTraceContext_idem carrier⟩⟩

end RoundTrip

end AgentRuntime.Messaging
