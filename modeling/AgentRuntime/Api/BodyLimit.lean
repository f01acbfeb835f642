import Mathlib.Data.List.Basic
import Mathlib.Tactic.Linarith

/-!
# The body limiter

`BodyLimitMiddleware` reads the whole body of a request before the application sees it, and stops as
soon as it is too long. The messages are those that have arrived; a request whose body has not
ended yet is still read.

* `readBody`, `bodyLimit`: the loop and the middleware;
* `boundedReceive`: what the application reads instead;
* `WholeBody`, `Cut`: a body that ends, and one that a disconnect cuts off;
* `readBody_complete_iff`: the loop returns exactly the bounded bodies that end;
* `body_forwarded_iff`: what is forwarded, answered and buffered.
-/

namespace AgentRuntime.Api

namespace BodyLimit

abbrev Bytes := List UInt8

/-! ### Headers -/

/-- `text.encode()` for a name of a header. -/
def headerName (text : String) : Bytes := text.toUTF8.data.toList

/-- `bytes.lower()`. -/
def lower (name : Bytes) : Bytes := name.map fun b => if 65 ≤ b ∧ b ≤ 90 then b + 32 else b

/-- The values of a header. -/
def headerValues (headers : List (Bytes × Bytes)) (name : String) : List Bytes :=
  (headers.filter fun h => lower h.1 == headerName name).map Prod.snd

def isDigitByte (b : UInt8) : Bool := decide (48 ≤ b ∧ b ≤ 57)

/-- `value.isdigit()`. -/
def isDigits (value : Bytes) : Bool := !value.isEmpty && value.all isDigitByte

/-- `int(value)` of digits. -/
def intOfDigits (value : Bytes) : ℕ := value.foldl (fun n b => 10 * n + (b.toNat - 48)) 0

/-! ### Messages -/

/-- What `receive` returns; the fields of a request may be missing. -/
inductive Message where
  | disconnect
  | request (body : Option Bytes) (moreBody : Option Bool)
  deriving DecidableEq

/-- How reading the body ends. -/
inductive Reading where
  | disconnected
  | tooLarge
  /-- No message is left; `receive` has not returned. -/
  | waiting (body : Bytes)
  | complete (body : Bytes) (rest : List Message)
  deriving DecidableEq

/-- The loop that reads the body. -/
def readBody (maxBytes : ℤ) : Bytes → List Message → Reading
  | body, [] => .waiting body
  | _, .disconnect :: _ => .disconnected
  | body, .request chunk moreBody :: rest =>
    if maxBytes < (body.length + (chunk.getD []).length : ℕ) then .tooLarge
    else if moreBody.getD false then readBody maxBytes (body ++ chunk.getD []) rest
    else .complete (body ++ chunk.getD []) rest

/-- What the middleware does. -/
inductive Outcome where
  | rejected (status : ℕ) (code : String)
  | disconnected
  | waiting (body : Bytes)
  /-- The application is called; it reads `body` first and then `rest`. -/
  | invoked (body : Bytes) (rest : List Message)
  deriving DecidableEq

/-- The check of the headers. -/
def invalidLength (headers : List (Bytes × Bytes)) : Bool :=
  match headerValues headers "content-length" with
  | [] => false
  | [value] =>
    !(headerValues headers "transfer-encoding").isEmpty || !isDigits value
      || decide (10 < value.length)
  | _ => true

/-- The declared length. -/
def declaredLength (headers : List (Bytes × Bytes)) : Option ℕ :=
  (headerValues headers "content-length").head?.map intOfDigits

/-- `BodyLimitMiddleware.__call__` for a scope of the type `http`. -/
def bodyLimit (maxBytes : ℤ) (headers : List (Bytes × Bytes)) (messages : List Message) : Outcome :=
  if invalidLength headers then .rejected 400 "INVALID_CONTENT_LENGTH"
  else if (declaredLength headers).any fun n : ℕ => decide (maxBytes < (n : ℤ)) then
    .rejected 413 "REQUEST_TOO_LARGE"
  else
    match readBody maxBytes [] messages with
    | .disconnected => .disconnected
    | .tooLarge => .rejected 413 "REQUEST_TOO_LARGE"
    | .waiting body => .waiting body
    | .complete body rest =>
      if (declaredLength headers).any fun n => decide (n ≠ body.length) then
        .rejected 400 "INVALID_CONTENT_LENGTH"
      else .invoked body rest

/-- The responses the middleware itself sends: the status and the code of the error. -/
def Outcome.sent : Outcome → List (ℕ × String)
  | .rejected status code => [(status, code)]
  | _ => []

/-- The variables of `bounded_receive`. -/
structure BoundedReceive where
  delivered : Bool
  body : Bytes
  rest : List Message

/-- `bounded_receive`: the whole body once, then whatever `receive` returns. -/
def boundedReceive (r : BoundedReceive) : Option (Message × BoundedReceive) :=
  if r.delivered then
    match r.rest with
    | [] => none
    | m :: rest => some (m, { r with rest })
  else some (.request (some r.body) (some false), { r with delivered := true })

/-! ### Bodies -/

/-- The messages start with a body of these chunks that ends. -/
inductive WholeBody : List Message → List Bytes → List Message → Prop
  | last {chunk : Option Bytes} {moreBody : Option Bool} (rest : List Message) :
      moreBody.getD false = false →
      WholeBody (.request chunk moreBody :: rest) [chunk.getD []] rest
  | more {chunk : Option Bytes} {moreBody : Option Bool} {messages rest : List Message}
      {chunks : List Bytes} : moreBody.getD false = true → WholeBody messages chunks rest →
      WholeBody (.request chunk moreBody :: messages) (chunk.getD [] :: chunks) rest

/-- A disconnect comes after these chunks, before the body has ended. -/
inductive Cut : List Message → List Bytes → Prop
  | now (rest : List Message) : Cut (.disconnect :: rest) []
  | later {chunk : Option Bytes} {moreBody : Option Bool} {messages : List Message}
      {chunks : List Bytes} : moreBody.getD false = true → Cut messages chunks →
      Cut (.request chunk moreBody :: messages) (chunk.getD [] :: chunks)

variable {maxBytes : ℤ} {body : Bytes} {messages rest : List Message}

/-- A body that ends starts with the chunk of its first message. -/
theorem WholeBody.cases_request {chunk : Option Bytes} {moreBody : Option Bool}
    {chunks : List Bytes} (h : WholeBody (.request chunk moreBody :: messages) chunks rest) :
    (moreBody.getD false = false ∧ chunks = [chunk.getD []] ∧ rest = messages)
      ∨ ∃ others, moreBody.getD false = true ∧ chunks = chunk.getD [] :: others
          ∧ WholeBody messages others rest := by
  cases h with
  | last rest hmore => exact .inl ⟨hmore, rfl, rfl⟩
  | more hmore hothers => exact .inr ⟨_, hmore, rfl, hothers⟩

/-- **The loop returns exactly the bounded bodies that end.** -/
theorem readBody_complete_iff {whole : Bytes} :
    readBody maxBytes body messages = .complete whole rest
      ↔ ∃ chunks, WholeBody messages chunks rest ∧ whole = body ++ chunks.flatten
          ∧ (whole.length : ℤ) ≤ maxBytes := by
  fun_induction readBody maxBytes body messages with
  | case1 body =>
    refine iff_of_false (by simp) ?_
    rintro ⟨chunks, hwhole, -⟩
    cases hwhole
  | case2 body messages =>
    refine iff_of_false (by simp) ?_
    rintro ⟨chunks, hwhole, -⟩
    cases hwhole
  | case3 body chunk moreBody messages hlarge =>
    -- the chunk does not fit, so no body that starts with it is bounded
    refine iff_of_false (by simp) ?_
    rintro ⟨chunks, hwhole, rfl, hbound⟩
    have hstart : (chunk.getD []).length ≤ chunks.flatten.length := by
      obtain ⟨-, rfl, -⟩ | ⟨others, -, rfl, -⟩ := hwhole.cases_request
      · simp
      · simp
    rw [List.length_append] at hbound
    omega
  | case4 body chunk moreBody messages hlarge hmore ih =>
    rw [ih]
    constructor
    · rintro ⟨chunks, hwhole, rfl, hbound⟩
      exact ⟨_, .more hmore hwhole, by simp, hbound⟩
    · rintro ⟨chunks, hwhole, rfl, hbound⟩
      obtain ⟨hother, -⟩ | ⟨others, -, rfl, hothers⟩ := hwhole.cases_request
      · rw [hmore] at hother
        cases hother
      · exact ⟨others, hothers, by simp, hbound⟩
  | case5 body chunk moreBody messages hlarge hmore =>
    constructor
    · intro h
      cases h
      refine ⟨_, .last _ (by simpa using hmore), by simp, ?_⟩
      rw [List.length_append]
      omega
    · rintro ⟨chunks, hwhole, rfl, -⟩
      obtain ⟨-, rfl, rfl⟩ | ⟨others, hother, -⟩ := hwhole.cases_request
      · simp
      · exact absurd hother hmore

/-- **The disconnect ends the loop** exactly if all that came before it fits. -/
theorem readBody_disconnected_iff :
    readBody maxBytes body messages = .disconnected
      ↔ ∃ chunks, Cut messages chunks
          ∧ (chunks ≠ [] → ((body ++ chunks.flatten).length : ℤ) ≤ maxBytes) := by
  fun_induction readBody maxBytes body messages with
  | case1 body =>
    refine iff_of_false (by simp) ?_
    rintro ⟨chunks, hcut, -⟩
    cases hcut
  | case2 body messages => exact iff_of_true rfl ⟨[], .now messages, by simp⟩
  | case3 body chunk moreBody messages hlarge =>
    refine iff_of_false (by simp) ?_
    rintro ⟨chunks, hcut, hbound⟩
    cases hcut with
    | later _ hothers =>
      have hfits := hbound (by simp)
      simp only [List.flatten_cons, List.length_append] at hfits
      omega
  | case4 body chunk moreBody messages hlarge hmore ih =>
    rw [ih]
    constructor
    · rintro ⟨others, hcut, hbound⟩
      refine ⟨_, .later hmore hcut, fun _ => ?_⟩
      cases others with
      | nil =>
        simp only [List.flatten_cons, List.flatten_nil, List.append_nil, List.length_append]
        omega
      | cons other others => simpa using hbound (by simp)
    · rintro ⟨chunks, hcut, hbound⟩
      cases hcut with
      | later _ hothers => exact ⟨_, hothers, fun _ => by simpa using hbound (by simp)⟩
  | case5 body chunk moreBody messages hlarge hmore =>
    refine iff_of_false (by simp) ?_
    rintro ⟨chunks, hcut, -⟩
    cases hcut with
    | later hmore' _ => exact hmore hmore'

variable {held : Bytes}

/-- While the loop waits, the body has not ended and was not cut off, and the buffer is bounded. -/
theorem readBody_waiting (h : readBody maxBytes body messages = .waiting held) :
    (∀ chunks rest, ¬ WholeBody messages chunks rest) ∧ (∀ chunks, ¬ Cut messages chunks)
      ∧ ((body.length : ℤ) ≤ max 0 maxBytes → (held.length : ℤ) ≤ max 0 maxBytes) := by
  fun_induction readBody maxBytes body messages with
  | case1 body =>
    cases h
    refine ⟨fun chunks rest hwhole => ?_, fun chunks hcut => ?_, id⟩
    · cases hwhole
    · cases hcut
  | case4 body chunk moreBody messages hlarge hmore ih =>
    obtain ⟨hwhole, hcut, hbound⟩ := ih h
    refine ⟨fun chunks rest hstart => ?_, fun chunks hstart => ?_, fun _ => hbound ?_⟩
    · obtain ⟨hother, -⟩ | ⟨others, -, -, hothers⟩ := hstart.cases_request
      · rw [hmore] at hother
        cases hother
      · exact hwhole others rest hothers
    · cases hstart with
      | later _ hrest => exact hcut _ hrest
    · rw [List.length_append]
      omega
  | _ => cases h

/-- Once some messages were read, the loop goes on with what it holds. -/
theorem readBody_append {received later : List Message}
    (h : readBody maxBytes body received = .waiting held) :
    readBody maxBytes body (received ++ later) = readBody maxBytes held later := by
  fun_induction readBody maxBytes body received with
  | case1 body =>
    cases h
    rfl
  | case4 body chunk moreBody messages hlarge hmore ih =>
    rw [List.cons_append, readBody, if_neg hlarge, if_pos hmore, ih h]
  | _ => cases h

/-! ### The middleware -/

/-- At most one `content-length`, which is one to ten digits and stands alone. -/
def HonestHeaders (headers : List (Bytes × Bytes)) : Prop :=
  headerValues headers "content-length" = []
    ∨ ∃ value, headerValues headers "content-length" = [value]
        ∧ (∀ b ∈ value, isDigitByte b = true) ∧ 1 ≤ value.length ∧ value.length ≤ 10
        ∧ headerValues headers "transfer-encoding" = []

variable {headers : List (Bytes × Bytes)}

theorem invalidLength_iff : invalidLength headers = false ↔ HonestHeaders headers := by
  unfold invalidLength HonestHeaders
  cases hvalues : headerValues headers "content-length" with
  | nil => simp
  | cons value others =>
    cases others with
    | nil =>
      simp only [Bool.or_eq_false_iff, Bool.not_eq_false', List.isEmpty_iff, isDigits,
        Bool.and_eq_true, Bool.not_eq_true', List.all_eq_true, decide_eq_false_iff_not,
        not_lt, List.isEmpty_eq_false_iff, reduceCtorEq, false_or, List.cons.injEq, and_true,
        exists_eq_left', ← List.length_pos_iff]
      constructor
      · rintro ⟨⟨htransfer, hne, hdigits⟩, hlength⟩
        exact ⟨hdigits, hne, hlength, htransfer⟩
      · rintro ⟨hdigits, hne, hlength, htransfer⟩
        exact ⟨⟨htransfer, hne, hdigits⟩, hlength⟩
    | cons other others => simp

/-- What the application is called with: a complete body of the declared length. -/
theorem bodyLimit_invoked_iff :
    bodyLimit maxBytes headers messages = .invoked body rest
      ↔ HonestHeaders headers ∧ readBody maxBytes [] messages = .complete body rest
          ∧ ∀ n ∈ declaredLength headers, n = body.length := by
  have hlength : ((declaredLength headers).any fun n => decide (n ≠ body.length)) = false
      ↔ ∀ n ∈ declaredLength headers, n = body.length := by simp [Option.any_eq_false]
  rw [← invalidLength_iff, ← hlength]
  unfold bodyLimit
  constructor
  · intro h
    split_ifs at h with hinvalid hlarge
    split at h
    · cases h
    · cases h
    · cases h
    · rename_i whole others hread
      split_ifs at h with hmismatch
      cases h
      exact ⟨by simpa using hinvalid, hread, by simpa using hmismatch⟩
  · rintro ⟨hvalid, hread, hmatch⟩
    have hbound : (body.length : ℤ) ≤ maxBytes := (readBody_complete_iff.mp hread).choose_spec.2.2
    have hsmall : ((declaredLength headers).any fun n : ℕ => decide (maxBytes < (n : ℤ))) = false := by
      rw [Option.any_eq_false]
      intro n hn
      have hn' := hlength.mp hmatch n hn
      simp only [decide_eq_false_iff_not]
      omega
    rw [if_neg (by simp [hvalid]), if_neg (by simp [hsmall]), hread]
    simp only [hmatch, Bool.false_eq_true, if_false]

theorem bodyLimit_waiting (h : bodyLimit maxBytes headers messages = .waiting held) :
    readBody maxBytes [] messages = .waiting held := by
  unfold bodyLimit at h
  split_ifs at h
  split at h
  · cases h
  · cases h
  · rename_i hread
    cases h
    exact hread
  · split_ifs at h

/-- The middleware gives up silently if it has accepted the headers and the disconnect then ends the
loop. -/
theorem bodyLimit_disconnected_iff :
    bodyLimit maxBytes headers messages = .disconnected
      ↔ HonestHeaders headers ∧ (∀ n ∈ declaredLength headers, (n : ℤ) ≤ maxBytes)
          ∧ readBody maxBytes [] messages = .disconnected := by
  have hlength : ((declaredLength headers).any fun n : ℕ => decide (maxBytes < (n : ℤ))) = false
      ↔ ∀ n ∈ declaredLength headers, (n : ℤ) ≤ maxBytes := by simp [Option.any_eq_false]
  rw [← invalidLength_iff, ← hlength]
  unfold bodyLimit
  constructor
  · intro h
    split_ifs at h with hinvalid hlarge
    refine ⟨by simpa using hinvalid, by simpa using hlarge, ?_⟩
    split at h
    · rename_i hread
      exact hread
    · cases h
    · cases h
    · split_ifs at h
  · rintro ⟨hvalid, hsmall, hread⟩
    rw [if_neg (by simp [hvalid]), if_neg (by simp [hsmall]), hread]

/-- There are two kinds of rejection. -/
theorem bodyLimit_rejected {status : ℕ} {code : String}
    (h : bodyLimit maxBytes headers messages = .rejected status code) :
    (status, code) = (400, "INVALID_CONTENT_LENGTH")
      ∨ (status, code) = (413, "REQUEST_TOO_LARGE") := by
  unfold bodyLimit at h
  split_ifs at h
  · cases h
    exact .inl rfl
  · cases h
    exact .inr rfl
  · split at h
    · cases h
    · cases h
      exact .inr rfl
    · cases h
    · split_ifs at h
      cases h
      exact .inl rfl

/-- **The body limiter forwards exactly bounded, honest bodies.** It ends once the body has ended
or was cut off. The application is called if and only if the headers are honest, the body ends
before any disconnect, and its length is within the limit and is the declared one; its first
`receive` then returns all the chunks as one body. The middleware gives up without a response if
and only if the headers and the declared length are accepted and the disconnect comes before the
body has ended or outgrown the limit; in all other cases it sends exactly one of its two
rejections. What the loop holds when it asks for the next message decides how it goes on, and is
never more than the limit; neither is the body it returns. -/
theorem body_forwarded_iff (maxBytes : ℤ) (headers : List (Bytes × Bytes))
    (messages : List Message) :
    ((∃ chunks rest, WholeBody messages chunks rest) ∨ (∃ chunks, Cut messages chunks) →
      ∀ held, bodyLimit maxBytes headers messages ≠ .waiting held)
    ∧ ((∃ body rest, bodyLimit maxBytes headers messages = .invoked body rest)
        ↔ HonestHeaders headers ∧ ∃ chunks rest, WholeBody messages chunks rest
            ∧ (chunks.flatten.length : ℤ) ≤ maxBytes
            ∧ ∀ n ∈ declaredLength headers, n = chunks.flatten.length)
    ∧ (∀ body rest, bodyLimit maxBytes headers messages = .invoked body rest →
        ∃ chunks, WholeBody messages chunks rest
          ∧ boundedReceive ⟨false, body, rest⟩
              = some (.request (some chunks.flatten) (some false), ⟨true, body, rest⟩))
    ∧ (bodyLimit maxBytes headers messages = .disconnected
        ↔ HonestHeaders headers ∧ (∀ n ∈ declaredLength headers, (n : ℤ) ≤ maxBytes)
            ∧ ∃ chunks, Cut messages chunks
                ∧ (chunks ≠ [] → (chunks.flatten.length : ℤ) ≤ maxBytes))
    ∧ (bodyLimit maxBytes headers messages = .disconnected →
        (bodyLimit maxBytes headers messages).sent = [])
    ∧ ((∀ held, bodyLimit maxBytes headers messages ≠ .waiting held) →
        (∀ body rest, bodyLimit maxBytes headers messages ≠ .invoked body rest) →
        bodyLimit maxBytes headers messages ≠ .disconnected →
        (bodyLimit maxBytes headers messages).sent = [(400, "INVALID_CONTENT_LENGTH")]
          ∨ (bodyLimit maxBytes headers messages).sent = [(413, "REQUEST_TOO_LARGE")])
    ∧ (∀ received later, messages = received ++ later →
        ∀ held, readBody maxBytes [] received = .waiting held →
          readBody maxBytes [] messages = readBody maxBytes held later
            ∧ (held.length : ℤ) ≤ max 0 maxBytes)
    ∧ ∀ body rest, readBody maxBytes [] messages = .complete body rest →
        (body.length : ℤ) ≤ maxBytes := by
  refine ⟨?ends, ?forwarded, ?received, ?cut, ?silent, ?answered, ?bounded, ?complete⟩
  case ends =>
    intro hends held hwaiting
    obtain ⟨hwhole, hcut, -⟩ := readBody_waiting (bodyLimit_waiting hwaiting)
    obtain ⟨chunks, rest, h⟩ | ⟨chunks, h⟩ := hends
    · exact hwhole chunks rest h
    · exact hcut chunks h
  case forwarded =>
    constructor
    · rintro ⟨body, rest, h⟩
      obtain ⟨hhonest, hread, hdeclared⟩ := bodyLimit_invoked_iff.mp h
      obtain ⟨chunks, hwhole, rfl, hbound⟩ := readBody_complete_iff.mp hread
      exact ⟨hhonest, chunks, rest, hwhole, hbound, hdeclared⟩
    · rintro ⟨hhonest, chunks, rest, hwhole, hbound, hdeclared⟩
      exact ⟨chunks.flatten, rest, bodyLimit_invoked_iff.mpr
        ⟨hhonest, readBody_complete_iff.mpr ⟨chunks, hwhole, rfl, hbound⟩, hdeclared⟩⟩
  case received =>
    intro body rest h
    obtain ⟨-, hread, -⟩ := bodyLimit_invoked_iff.mp h
    obtain ⟨chunks, hwhole, rfl, -⟩ := readBody_complete_iff.mp hread
    exact ⟨chunks, hwhole, rfl⟩
  case cut =>
    rw [bodyLimit_disconnected_iff, readBody_disconnected_iff]
    rfl
  case silent =>
    intro h
    rw [h]
    rfl
  case answered =>
    intro hended hnot hconnected
    cases houtcome : bodyLimit maxBytes headers messages with
    | rejected status code => simpa [Outcome.sent] using bodyLimit_rejected houtcome
    | disconnected => exact absurd houtcome hconnected
    | waiting held => exact absurd houtcome (hended held)
    | invoked body rest => exact absurd houtcome (hnot body rest)
  case bounded =>
    rintro received later rfl held h
    exact ⟨readBody_append h, (readBody_waiting h).2.2 (by simp)⟩
  case complete =>
    intro body rest h
    exact (readBody_complete_iff.mp h).choose_spec.2.2

/-- Two chunks of the declared length. -/
theorem body_forwarded_two_chunks :
    let headers := [(headerName "Content-Length", [53])]
    let messages := [.request (some [1, 2]) (some true), .request none (some true),
      .request (some [3, 4, 5]) none]
    ∃ body rest, bodyLimit 8 headers messages = .invoked body rest
      ∧ boundedReceive ⟨false, body, rest⟩
          = some (.request (some [1, 2, 3, 4, 5]) (some false), ⟨true, body, rest⟩) := by
  intro headers messages
  obtain ⟨-, hforwarded, -⟩ := body_forwarded_iff 8 headers messages
  obtain ⟨body, rest, h⟩ := hforwarded.mpr ⟨invalidLength_iff.mp (by decide +kernel),
    [[1, 2], [], [3, 4, 5]], [], .more rfl (.more rfl (.last [] rfl)), by decide, by decide +kernel⟩
  have heval : bodyLimit 8 headers messages = .invoked [1, 2, 3, 4, 5] [] := by decide +kernel
  cases heval.symm.trans h
  exact ⟨_, _, h, rfl⟩

end BodyLimit

end AgentRuntime.Api
