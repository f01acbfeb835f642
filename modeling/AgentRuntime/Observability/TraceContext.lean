import AgentRuntime.Domain.Primitives
import AgentRuntime.Lib.FixedPattern
import Mathlib.Data.List.DropRight

/-!
# The trace context

`sanitize_trace_context` keeps of a carrier what a W3C trace context may hold: a `traceparent` of
version 00 with ids that are not zero, and a `tracestate` of at most 32 members with different
keys. A `traceparent` that is not supported drops the whole context, a `tracestate` only itself.

* `sanitizeTraceContext`: the function;
* `SupportedParent`, `SupportedState`: what the two texts look like that it lets through;
* `Sanitized`: what a result has to do with its carrier;
* `sanitizeTraceContext_sanitized`, `sanitizeTraceContext_idem`: every result is of that form, and
  is left alone the second time.
-/

namespace AgentRuntime.Observability

open Domain Lib
open JsonObject (get? getD)

/-! ### `traceparent` -/

/-- `[0-9a-f]`. -/
def isLowerHex (c : Char) : Bool := ('0' ≤ c && c ≤ '9') || ('a' ≤ c && c ≤ 'f')

/-- `00-[0-9a-f]{32}-[0-9a-f]{16}-0[0-3]`. -/
def parentPattern : FixedPattern Char :=
  FixedPattern.literal "00-".toList
    ++ (FixedPattern.times 32 isLowerHex
    ++ (FixedPattern.literal ['-']
    ++ (FixedPattern.times 16 isLowerHex
    ++ (FixedPattern.literal "-0".toList
    ++ FixedPattern.times 1 fun c => '0' ≤ c && c ≤ '3'))))

/-- `text[start:stop]`. -/
def slice (text : List Char) (start stop : ℕ) : List Char := (text.take stop).drop start

/-- The `traceparent` is kept: it matches, and neither `int(parent[3:35], 16)` nor
`int(parent[36:52], 16)` is zero. -/
def keepsParent (parent : List Char) : Bool :=
  parentPattern.accepts parent
    && !(hexNumber (slice parent 3 35) == 0 || hexNumber (slice parent 36 52) == 0)

/-! ### `tracestate` -/

/-- `[a-z]`. -/
def isLowercase (c : Char) : Bool := 'a' ≤ c && c ≤ 'z'

/-- `[a-z0-9]` or one of `_`, `*`, `/` and `-`. -/
def isKeyChar (c : Char) : Bool :=
  isLowercase c || ('0' ≤ c && c ≤ '9') || c == '_' || c == '*' || c == '/' || c == '-'

/-- A character to start with, and at most so many key characters. -/
def isPlainKey (most : ℕ) (start : Char → Bool) : List Char → Bool
  | [] => false
  | c :: cs => start c && cs.length ≤ most && cs.all isKeyChar

/-- The expression for keys: a plain key of at most 256 characters, or a tenant of at most 241 and
a vendor of at most 14 characters with `@` between them. -/
def isMemberKey (key : List Char) : Bool :=
  isPlainKey 255 isLowercase key
    || match key.splitOn '@' with
      | [tenant, vendor] =>
        isPlainKey 240 (fun c => isLowercase c || ('0' ≤ c && c ≤ '9')) tenant
          && isPlainKey 13 isLowercase vendor
      | _ => false

/-- `1 <= len(value) <= 256`, no blank at the end and only printable ASCII without `,` and `=`. -/
def isMemberValue (value : List Char) : Bool :=
  (1 ≤ value.length && value.length ≤ 256)
    && !(value.getLast? == some ' ')
    && value.all fun c => !(c.toNat < 32 || 126 < c.toNat || c == ',' || c == '=')

/-- The characters of `strip(" \t")`. -/
def isEntryBlank (c : Char) : Bool := c == ' ' || c == '\t'

/-- `entry.strip(" \t")`. -/
def stripEntry (entry : List Char) : List Char :=
  (entry.dropWhile isEntryBlank).rdropWhile isEntryBlank

/-- The key of an entry, where the entry passes the checks of the loop that look at it alone. -/
def memberKey? (entry : List Char) : Option (List Char) :=
  match (stripEntry entry).span fun c => c != '=' with
  | (_, []) => none
  | (key, _ :: value) => if isMemberKey key && isMemberValue value then some key else none

/-- The loop over the entries. -/
def keepsEntries : List (List Char) → List (List Char) → Bool
  | _, [] => true
  | seen, entry :: entries =>
    match memberKey? entry with
    | none => false
    | some key => !seen.contains key && keepsEntries (key :: seen) entries

/-- The `tracestate` is kept. -/
def keepsState (state : List Char) : Bool :=
  !state.isEmpty && state.length ≤ 512 && (state.splitOn ',').length ≤ 32
    && keepsEntries [] (state.splitOn ',')

/-! ### The context -/

/-- `sanitize_trace_context(carrier)`. -/
def sanitizeTraceContext (carrier : JsonObject) : JsonObject :=
  match getD carrier "traceparent" (.str "") with
  | .str parent =>
    if keepsParent parent.toList then
      match getD carrier "tracestate" (.str "") with
      | .str state =>
        if keepsState state.toList then
          [("traceparent", .str parent), ("tracestate", .str state)]
        else [("traceparent", .str parent)]
      | _ => [("traceparent", .str parent)]
    else []
  | _ => []

/-! ### What is kept -/

/-- A `traceparent` of version 00: an id of the trace and an id of the span, neither of them zero,
and two flags. -/
def SupportedParent (parent : List Char) : Prop :=
  ∃ (traceId spanId : List Char) (flags : Char),
    parent = "00-".toList ++ (traceId ++ ('-' :: (spanId ++ ("-0".toList ++ [flags]))))
      ∧ (traceId.length = 32 ∧ (∀ c ∈ traceId, isLowerHex c = true) ∧ ∃ c ∈ traceId, c ≠ '0')
      ∧ (spanId.length = 16 ∧ (∀ c ∈ spanId, isLowerHex c = true) ∧ ∃ c ∈ spanId, c ≠ '0')
      ∧ '0' ≤ flags ∧ flags ≤ '3'

/-- A member of a `tracestate` between blanks. -/
def IsMember (entry key : List Char) : Prop :=
  ∃ before value after, entry = before ++ (key ++ '=' :: value) ++ after
    ∧ (∀ c ∈ before ++ after, isEntryBlank c = true)
    ∧ isMemberKey key = true ∧ isMemberValue value = true

/-- A `tracestate` of at most 512 characters and at most 32 members with different keys. -/
def SupportedState (state : List Char) : Prop :=
  state.length ≤ 512 ∧ (state.splitOn ',').length ≤ 32
    ∧ ∃ keys, List.Forall₂ IsMember (state.splitOn ',') keys ∧ keys.Nodup

/-- What a sanitised context has to do with its carrier: it is empty, or it holds the carrier's
`traceparent`, which is supported, and maybe the carrier's `tracestate`, if that is supported. -/
def Sanitized (carrier result : JsonObject) : Prop :=
  result = [] ∨ ∃ parent, get? carrier "traceparent" = some (.str parent)
    ∧ SupportedParent parent.toList
    ∧ (result = [("traceparent", .str parent)]
      ∨ ∃ state, get? carrier "tracestate" = some (.str state)
        ∧ SupportedState state.toList
        ∧ result = [("traceparent", .str parent), ("tracestate", .str state)])

theorem hexValue?_eq_zero_iff {c : Char} (h : isLowerHex c = true) :
    (hexValue? c).getD 0 = 0 ↔ c = '0' := by
  have hzero : c = '0' ↔ c.toNat = 48 :=
    ⟨fun hc => congrArg Char.toNat hc, fun hc => Char.toNat_inj.mp hc⟩
  rw [isLowerHex, Bool.or_eq_true, Bool.and_eq_true, Bool.and_eq_true, decide_eq_true_iff,
    decide_eq_true_iff, decide_eq_true_iff, decide_eq_true_iff] at h
  unfold hexValue?
  by_cases hdigit : '0' ≤ c ∧ c ≤ '9'
  · rw [if_pos hdigit, hzero]
    have hlow : 48 ≤ c.toNat := hdigit.1
    show c.toNat - 48 = 0 ↔ _
    omega
  · have hletter := h.resolve_left hdigit
    rw [if_neg hdigit, if_pos hletter, hzero]
    have hlow : 97 ≤ c.toNat := hletter.1
    show c.toNat - 87 = 0 ↔ _
    omega

/-- A number of lower-case digits is zero if all of them are. -/
theorem hexNumber_eq_zero_iff {digits : List Char} (h : ∀ c ∈ digits, isLowerHex c = true) :
    hexNumber digits = 0 ↔ ∀ c ∈ digits, c = '0' := by
  have hfold : ∀ n : ℕ, digits.foldl (fun n c => 16 * n + (hexValue? c).getD 0) n = 0
      ↔ n = 0 ∧ ∀ c ∈ digits, c = '0' := by
    induction digits with
    | nil => simp
    | cons c rest ih =>
      intro n
      obtain ⟨hc, hrest⟩ := List.forall_mem_cons.mp h
      have hsum : 16 * n + (hexValue? c).getD 0 = 0 ↔ n = 0 ∧ (hexValue? c).getD 0 = 0 := by
        omega
      rw [List.foldl_cons, ih hrest, List.forall_mem_cons, hsum, hexValue?_eq_zero_iff hc,
        and_assoc]
  exact (hfold 0).trans (and_iff_right rfl)

/-- The ids of a `traceparent` are where the slices are taken. -/
theorem slices_of_parent {traceId spanId : List Char} (htrace : traceId.length = 32)
    (hspan : spanId.length = 16) (rest : List Char) :
    slice ("00-".toList ++ (traceId ++ '-' :: (spanId ++ rest))) 3 35 = traceId
      ∧ slice ("00-".toList ++ (traceId ++ '-' :: (spanId ++ rest))) 36 52 = spanId := by
  unfold slice
  constructor
  · rw [List.drop_take]
    show List.take 32 (traceId ++ '-' :: (spanId ++ rest)) = traceId
    exact List.take_left' htrace
  · have hsplit : "00-".toList ++ (traceId ++ '-' :: (spanId ++ rest))
        = ("00-".toList ++ (traceId ++ ['-'])) ++ (spanId ++ rest) := by simp
    have hlength : ("00-".toList ++ (traceId ++ ['-'])).length = 36 := by simp [htrace]
    rw [List.drop_take, hsplit, List.drop_left' hlength]
    exact List.take_left' hspan

theorem parentPattern_iff {parent : List Char} :
    parentPattern.accepts parent = true
      ↔ ∃ (traceId spanId : List Char) (flags : Char),
        parent = "00-".toList ++ (traceId ++ ('-' :: (spanId ++ ("-0".toList ++ [flags]))))
          ∧ (traceId.length = 32 ∧ ∀ c ∈ traceId, isLowerHex c = true)
          ∧ (spanId.length = 16 ∧ ∀ c ∈ spanId, isLowerHex c = true)
          ∧ '0' ≤ flags ∧ flags ≤ '3' := by
  unfold parentPattern
  simp only [FixedPattern.accepts_append_iff, FixedPattern.accepts_literal_iff,
    FixedPattern.accepts_times_iff]
  constructor
  · rintro ⟨_, _, rfl, rfl, traceId, _, rfl, htrace, _, _, rfl, rfl, spanId, _, rfl, hspan, _, _,
      rfl, rfl, hlength, hflags⟩
    obtain ⟨flags, rfl⟩ := List.length_eq_one_iff.mp hlength
    have hrange := hflags flags List.mem_cons_self
    rw [Bool.and_eq_true, decide_eq_true_iff, decide_eq_true_iff] at hrange
    exact ⟨traceId, spanId, flags, rfl, htrace, hspan, hrange⟩
  · rintro ⟨traceId, spanId, flags, rfl, htrace, hspan, hrange⟩
    refine ⟨_, _, rfl, rfl, traceId, _, rfl, htrace, ['-'], _, rfl, rfl, spanId, _, rfl, hspan,
      _, _, rfl, rfl, rfl, ?_⟩
    rintro c hc
    rw [List.mem_singleton.mp hc, Bool.and_eq_true, decide_eq_true_iff, decide_eq_true_iff]
    exact hrange

/-- **The `traceparent`** is kept if and only if it is supported. -/
theorem keepsParent_iff {parent : List Char} :
    keepsParent parent = true ↔ SupportedParent parent := by
  unfold keepsParent SupportedParent
  rw [Bool.and_eq_true, parentPattern_iff]
  have hids : ∀ {traceId spanId : List Char} {flags : Char},
      parent = "00-".toList ++ (traceId ++ ('-' :: (spanId ++ ("-0".toList ++ [flags])))) →
      (traceId.length = 32 ∧ ∀ c ∈ traceId, isLowerHex c = true) →
      (spanId.length = 16 ∧ ∀ c ∈ spanId, isLowerHex c = true) →
      ((!(hexNumber (slice parent 3 35) == 0 || hexNumber (slice parent 36 52) == 0)) = true
        ↔ (∃ c ∈ traceId, c ≠ '0') ∧ ∃ c ∈ spanId, c ≠ '0') := by
    rintro traceId spanId flags rfl htrace hspan
    obtain ⟨hfirst, hsecond⟩ := slices_of_parent htrace.1 hspan.1 ("-0".toList ++ [flags])
    rw [hfirst, hsecond, Bool.not_eq_true', Bool.or_eq_false_iff, beq_eq_false_iff_ne,
      beq_eq_false_iff_ne, ne_eq, ne_eq, hexNumber_eq_zero_iff htrace.2,
      hexNumber_eq_zero_iff hspan.2]
    simp only [not_forall, exists_prop, ne_eq]
  constructor
  · rintro ⟨⟨traceId, spanId, flags, hparent, htrace, hspan, hrange⟩, hnonzero⟩
    obtain ⟨htrace', hspan'⟩ := (hids hparent htrace hspan).mp hnonzero
    exact ⟨traceId, spanId, flags, hparent, ⟨htrace.1, htrace.2, htrace'⟩,
      ⟨hspan.1, hspan.2, hspan'⟩, hrange⟩
  · rintro ⟨traceId, spanId, flags, hparent, ⟨htrace, hhex, htrace'⟩, ⟨hspan, hhex', hspan'⟩,
      hrange⟩
    exact ⟨⟨traceId, spanId, flags, hparent, ⟨htrace, hhex⟩, ⟨hspan, hhex'⟩, hrange⟩,
      (hids hparent ⟨htrace, hhex⟩ ⟨hspan, hhex'⟩).mpr ⟨htrace', hspan'⟩⟩

/-- An entry is its stripped text between blanks. -/
theorem exists_stripEntry (entry : List Char) :
    ∃ before after, entry = before ++ stripEntry entry ++ after
      ∧ ∀ c ∈ before ++ after, isEntryBlank c = true := by
  let rest := entry.dropWhile isEntryBlank
  have hrest : rest = stripEntry entry ++ (rest.reverse.takeWhile isEntryBlank).reverse := by
    have hreverse := congrArg List.reverse
      (List.takeWhile_append_dropWhile (p := isEntryBlank) (l := rest.reverse))
    rw [List.reverse_append, List.reverse_reverse] at hreverse
    exact hreverse.symm
  refine ⟨entry.takeWhile isEntryBlank, (rest.reverse.takeWhile isEntryBlank).reverse, ?_, ?_⟩
  · rw [List.append_assoc, ← hrest]
    exact List.takeWhile_append_dropWhile.symm
  · intro c hc
    rcases List.mem_append.mp hc with hc | hc
    · exact List.mem_takeWhile_imp hc
    · exact List.mem_takeWhile_imp (List.mem_reverse.mp hc)

/-- An entry that passes the checks is a member with the key that was found. -/
theorem isMember_of_memberKey? {entry key : List Char} (h : memberKey? entry = some key) :
    IsMember entry key := by
  obtain ⟨before, after, hentry, hblank⟩ := exists_stripEntry entry
  unfold memberKey? at h
  rw [List.span_eq_takeWhile_dropWhile] at h
  have hjoin := List.takeWhile_append_dropWhile (p := fun c => c != '=') (l := stripEntry entry)
  cases hdrop : (stripEntry entry).dropWhile fun c => c != '=' with
  | nil =>
    rw [hdrop] at h
    cases h
  | cons c value =>
    rw [hdrop] at h hjoin
    dsimp only at h
    split_ifs at h with hchecks
    obtain ⟨hkey, hvalue⟩ := Bool.and_eq_true_iff.mp hchecks
    -- the walk stopped at the first equality sign
    have hsign : c = '=' := by
      have hhead := List.head?_dropWhile_not (fun c => c != '=') (stripEntry entry)
      rw [hdrop] at hhead
      simpa using hhead
    rw [hsign, Option.some.inj h] at hjoin
    rw [Option.some.inj h] at hkey
    exact ⟨before, value, after, by rw [hjoin]; exact hentry, hblank, hkey, hvalue⟩

/-- The loop finds different keys, and none of those it has seen. -/
theorem keys_of_keepsEntries {seen entries : List (List Char)}
    (h : keepsEntries seen entries = true) :
    ∃ keys, List.Forall₂ IsMember entries keys ∧ keys.Nodup ∧ ∀ key ∈ keys, key ∉ seen := by
  induction entries generalizing seen with
  | nil => exact ⟨[], .nil, List.nodup_nil, List.forall_mem_nil _⟩
  | cons entry entries ih =>
    unfold keepsEntries at h
    cases hkey : memberKey? entry with
    | none =>
      rw [hkey] at h
      cases h
    | some key =>
      rw [hkey] at h
      obtain ⟨hnew, hrest⟩ := Bool.and_eq_true_iff.mp h
      have hunseen : key ∉ seen := by simpa using hnew
      obtain ⟨keys, hmembers, hnodup, hkeys⟩ := ih hrest
      refine ⟨key :: keys, .cons (isMember_of_memberKey? hkey) hmembers, ?_, ?_⟩
      · exact List.nodup_cons.mpr
          ⟨fun hmem => hkeys key hmem List.mem_cons_self, hnodup⟩
      · refine List.forall_mem_cons.mpr ⟨hunseen, fun other hother hmem => ?_⟩
        exact hkeys other hother (List.mem_cons_of_mem _ hmem)

/-- **The `tracestate`** that is kept is supported. -/
theorem supportedState_of_keepsState {state : List Char} (h : keepsState state = true) :
    SupportedState state := by
  simp only [keepsState, Bool.and_eq_true, decide_eq_true_iff] at h
  obtain ⟨⟨⟨-, hlength⟩, hcount⟩, hentries⟩ := h
  obtain ⟨keys, hmembers, hnodup, -⟩ := keys_of_keepsEntries hentries
  exact ⟨hlength, hcount, keys, hmembers, hnodup⟩

example : keepsState "v=x,2@vendor=y".toList = true ∧ keepsState "a=1,a=2".toList = false
    ∧ keepsState "a=bad=secret".toList = false := by decide +kernel

/-- A `traceparent` or a `tracestate` that is kept is not the empty default. -/
theorem get?_of_getD {carrier : JsonObject} {key text : String}
    (h : getD carrier key (.str "") = .str text) (hne : text ≠ "") :
    get? carrier key = some (.str text) := by
  unfold getD at h
  cases hget : get? carrier key with
  | none =>
    rw [hget] at h
    exact absurd (Json.str.inj h).symm hne
  | some value =>
    rw [hget] at h
    exact congrArg some h

/-- The three results, with the checks that were passed. -/
theorem sanitizeTraceContext_cases (carrier : JsonObject) :
    sanitizeTraceContext carrier = [] ∨
      ∃ parent, get? carrier "traceparent" = some (.str parent)
        ∧ keepsParent parent.toList = true
        ∧ (sanitizeTraceContext carrier = [("traceparent", .str parent)]
          ∨ ∃ state, get? carrier "tracestate" = some (.str state)
            ∧ keepsState state.toList = true
            ∧ sanitizeTraceContext carrier
              = [("traceparent", .str parent), ("tracestate", .str state)]) := by
  unfold sanitizeTraceContext
  split
  next parent hparent =>
    split_ifs with hkept
    · have hne : parent ≠ "" := by
        rintro rfl
        exact absurd hkept (by decide)
      refine .inr ⟨parent, get?_of_getD hparent hne, hkept, ?_⟩
      split
      next state hstate =>
        split_ifs with hkept'
        · have hne' : state ≠ "" := by
            rintro rfl
            exact absurd hkept' (by decide)
          exact .inr ⟨state, get?_of_getD hstate hne', hkept', rfl⟩
        · exact .inl rfl
      next => exact .inl rfl
    · exact .inl rfl
  next => exact .inl rfl

/-- **Sanitising.** Every result is empty or made of supported texts of its carrier. -/
theorem sanitizeTraceContext_sanitized (carrier : JsonObject) :
    Sanitized carrier (sanitizeTraceContext carrier) := by
  obtain hempty | ⟨parent, hparent, hkept, hresult⟩ := sanitizeTraceContext_cases carrier
  · exact .inl hempty
  · refine .inr ⟨parent, hparent, keepsParent_iff.mp hkept, ?_⟩
    obtain hresult | ⟨state, hstate, hkept', hresult⟩ := hresult
    · exact .inl hresult
    · exact .inr ⟨state, hstate, supportedState_of_keepsState hkept', hresult⟩

/-- **Sanitising twice** changes nothing more. -/
theorem sanitizeTraceContext_idem (carrier : JsonObject) :
    sanitizeTraceContext (sanitizeTraceContext carrier) = sanitizeTraceContext carrier := by
  obtain hempty | ⟨parent, -, hkept, hresult⟩ := sanitizeTraceContext_cases carrier
  · rw [hempty]
    decide
  · obtain hresult | ⟨state, -, hkept', hresult⟩ := hresult
    · rw [hresult]
      simp [sanitizeTraceContext, getD, get?, hkept, keepsState]
    · rw [hresult]
      simp [sanitizeTraceContext, getD, get?, hkept, hkept']

end AgentRuntime.Observability
