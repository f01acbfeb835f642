import AgentRuntime.Application.CanonicalText
import AgentRuntime.Lib.Fallible
import AgentRuntime.Security.Envelope

/-!
# What an envelope is bound to

A wrapped key is opened for its tenant only, and an envelope for its tenant, run and field only;
what was sealed comes back as it was. Key creation and the time of the last use are written before
the field and the value are checked, which the caller of a rejected encryption can observe.

* `unbindKey_bindKey`, `eq_of_unbindKey`: wrapped keys;
* `openEnvelope_sealEnvelope`, `eq_of_openEnvelope`: envelopes;
* `loadKey_found`, `loadKey_new`: what loading a key returns and leaves;
* `envelope_bound`: round trip and binding of the operations;
* `rejected_keeps_keys_iff`: when a rejected encryption leaves the registry as it was.
-/

namespace AgentRuntime.Security

open Lib Table Domain Application Database
open Tx hiding exec bind

/-! ### Bound keys -/

theorem unbindKey_bindKey (tenantId : String) {dek : Bytes} (h : dek.length = 32) :
    unbindKey tenantId (bindKey tenantId dek) = .ok dek := by
  have hdrop : (bindKey tenantId dek).drop (tenantMark tenantId).length = dek := List.drop_left
  unfold unbindKey
  rw [if_neg (by simp [bindKey, h]), hdrop]

/-- **Binding.** A bound key is unbound for its tenant only, whatever the ids are. -/
theorem eq_of_unbindKey {tenantId other : String} {dek key : Bytes} (hlength : dek.length = 32)
    (h : unbindKey other (bindKey tenantId dek) = .ok key) : tenantId = other := by
  unfold unbindKey at h
  split_ifs at h with hcheck
  rw [not_or, not_not, ne_eq, not_not] at hcheck
  obtain ⟨hmark, hraw⟩ := hcheck
  obtain ⟨rest, hsplit⟩ : tenantMark other <+: bindKey tenantId dek := by
    rwa [ List.isPrefixOf_iff_prefix] at hmark
  have hsame : (tenantMark tenantId).length = (tenantMark other).length := by
    rw [bindKey, List.length_append, hlength] at hraw
    omega
  have hmarks : tenantMark tenantId = tenantMark other := (List.append_inj hsplit.symm hsame).1
  exact encodeText_injective (List.append_inj hmarks (by
    simp only [tenantMark, List.length_append, List.length_singleton] at hsame
    omega)).1

/-! ### Sealed values -/

/-- **The associated data names the tenant, the run and the field.** -/
theorem associatedData_injective {t t' : String} {r r' : Uuid} {f f' : String} {a : Bytes}
    (h : associatedData t r f = .ok a) (h' : associatedData t' r' f' = .ok a) :
    t = t' ∧ r = r' ∧ f = f' := by
  unfold associatedData at h h'
  split_ifs at h h' with hf hf'
  have htext := encodeText_injective (Except.ok.inj (h.trans h'.symm))
  have hvalue := readable_defaultStyle.text_injective (String.ofList_injective htext)
  simp only [Json.arr.injEq, List.cons.injEq, Json.str.injEq, and_true, true_and] at hvalue
  exact ⟨hvalue.1, Uuid.str_injective hvalue.2.1, hvalue.2.2⟩

theorem plaintextOf_ok {v : Json} {p : Bytes} (h : plaintextOf v = .ok p) :
    p = encodeText (String.ofList (compactStyle.text v)) := by
  unfold plaintextOf at h
  split_ifs at h
  exact (Except.ok.inj h).symm

section Cipher

variable [IdealAead] {key : Bytes} {nonce : Nonce} {t : String} {r : Uuid} {f : String}
  {plaintext : Except PyError Bytes} {envelope : JsonObject}

omit [IdealAead] in
theorem b64decode_encode (bytes : Bytes) :
    b64decode (String.ofList (Base64.encode bytes)) = .ok bytes := by
  have hascii : ((Base64.encode bytes).any fun c => decide (127 < c.toNat)) = false := by
    rw [List.any_eq_false]
    intro c hc
    have := Base64.encode_ascii bytes c hc
    simp only [decide_eq_true_eq]
    omega
  unfold b64decode
  rw [String.toList_ofList, hascii, Base64.decode?_encode]
  rfl

omit [IdealAead] in
theorem envelopeData_envelopeOf (bytes : Bytes) : envelopeData (envelopeOf bytes) = .ok bytes :=
  b64decode_encode bytes

theorem aesDecrypt_encrypt (key : Bytes) (nonce : Nonce) (p a : Bytes) :
    aesDecrypt key nonce.val (IdealAead.encrypt key nonce.val p a) a = .ok p := by
  unfold aesDecrypt
  rw [if_neg (by rw [nonce.2]; decide), IdealAead.decrypt?_encrypt]

/-- What a sealed envelope is made of. -/
theorem sealEnvelope_ok (h : sealEnvelope key nonce t r f plaintext = .ok envelope) :
    ∃ p a, plaintext = .ok p ∧ associatedData t r f = .ok a
      ∧ envelope = envelopeOf (nonce.val ++ IdealAead.encrypt key nonce.val p a) := by
  obtain ⟨p, hp, h⟩ := bind_eq_ok.mp h
  obtain ⟨a, ha, h⟩ := bind_eq_ok.mp h
  exact ⟨p, a, hp, ha, (Except.ok.inj h).symm⟩

variable [FloatRepr]

/-- **Round trip.** A sealed value is opened with the same key for the same tenant, run and
field. -/
theorem openEnvelope_sealEnvelope {v : Json} (hv : Held v)
    (h : sealEnvelope key nonce t r f (plaintextOf v) = .ok envelope) :
    openEnvelope key t r f envelope = .ok v := by
  obtain ⟨p, a, hp, ha, rfl⟩ := sealEnvelope_ok h
  obtain rfl := plaintextOf_ok hp
  have hloads := loads_text readable_compactStyle hv
  unfold openEnvelope
  simp only [envelopeData_envelopeOf, ha, List.take_left' nonce.2, List.drop_left' nonce.2,
    aesDecrypt_encrypt, decodeText_encodeText, hloads, bind, Except.bind]

/-- **An envelope is opened for nobody else**: not for another tenant, run or field. -/
theorem eq_of_openEnvelope {key' : Bytes} {t' : String} {r' : Uuid} {f' : String} {v : Json}
    (h : sealEnvelope key nonce t r f plaintext = .ok envelope)
    (hopen : openEnvelope key' t' r' f' envelope = .ok v) : t = t' ∧ r = r' ∧ f = f' := by
  obtain ⟨p, a, -, ha, rfl⟩ := sealEnvelope_ok h
  obtain ⟨data, hdata, hopen⟩ := bind_eq_ok.mp hopen
  obtain ⟨a', ha', hopen⟩ := bind_eq_ok.mp hopen
  obtain ⟨p', hp', -⟩ := bind_eq_ok.mp hopen
  rw [envelopeData_envelopeOf] at hdata
  obtain rfl := Except.ok.inj hdata
  unfold aesDecrypt at hp'
  split_ifs at hp' with hlength
  split at hp'
  · rename_i q hq
    rw [List.take_left' nonce.2, List.drop_left' nonce.2] at hq
    obtain ⟨-, -, rfl⟩ := IdealAead.eq_of_decrypt? hq
    exact associatedData_injective ha ha'
  · exact absurd hp' (by simp)

end Cipher

/-! ### Loading a key -/

/-- A row with a key of its tenant. -/
structure LiveKey (W : KeyWrapper) (tenantId : String) (dek : Bytes) (row : TenantKey) : Prop where
  length_dek : dek.length = 32
  destroyedAt : row.destroyedAt = none
  wrappedDek : ∃ nonce, row.wrappedDek = some (W.wrap nonce (bindKey tenantId dek))

section Loading

variable {W : KeyWrapper} {c : KeyCall} {t : String} {s : Vault} {row : TenantKey} {dek : Bytes}
  (busy : Lock → Bool)

theorem openRow_eq {blob : Bytes} (hdestroyed : row.destroyedAt = none)
    (hblob : row.wrappedDek = some blob) {raw : Bytes} (hraw : W.unwrap? blob = some raw) :
    openRow W t row = unbindKey t raw := by
  unfold openRow
  rw [hdestroyed, hblob]
  simp only [hraw]

theorem LiveKey.openRow (h : LiveKey W t dek row) : openRow W t row = .ok dek := by
  obtain ⟨nonce, hblob⟩ := h.wrappedDek
  rw [openRow_eq h.destroyedAt hblob (W.unwrap?_wrap _ _)]
  exact unbindKey_bindKey t h.length_dek

theorem liveKey_newKey : LiveKey W t c.dek.val (newKey W c t) where
  length_dek := c.dek.2
  destroyedAt := rfl
  wrappedDek := ⟨c.wrapNonce, rfl⟩

/-- The registry after the tenant's key was used. -/
def touched (s : Vault) (tenantId : String) (now : Timestamp) : Vault :=
  (s.1, { s.2 with
    keys := s.2.keys.update tenantId (assignAll KeySet.assign [.lastEncryptedAt now])
      (assignAll_keeps KeySet.ident_assign [.lastEncryptedAt now]) })

theorem observe_touch (now : Timestamp) :
    (execKey (.updateKey t [.lastEncryptedAt now])).observe busy s
      = (.ok (), touched s t now) := rfl

theorem get?_touched (now : Timestamp) (h : s.2.keys.get? t = some row) :
    (touched s t now).2.keys.get? t = some { row with lastEncryptedAt := now } := by
  unfold touched
  rw [get?_update, if_pos rfl, h]
  rfl

/-- **A stored key** is opened and, if it is to be used for writing, touched. -/
theorem loadKey_found (create : Bool) (h : s.2.keys.get? t = some row) :
    (loadKey W c t create).observe busy s
      = match openRow W t row with
        | .ok key => (.ok key, if create then touched s t c.now else s)
        | .error e => (.error e, s) := by
  unfold loadKey lockTenant lockedKey
  simp only [bind_eq, pure_eq, observe_bind, observe_acquire, observe_read,
    Tx.follow_ok, h, findOrCreate, observe_done, observe_ofExcept]
  cases openRow W t row with
  | error e => rfl
  | ok key =>
    cases create with
    | false => rfl
    | true => rfl

/-- The row of a new key is refused. -/
theorem loadKey_refused (h : s.2.keys.get? t = none) (hlong : fitsVarchar128 t = false) :
    (loadKey W c t true).observe busy s = (.error .dataError, s) := by
  have hinsert : Writes.apply (Sum.inr (.insertKey (newKey W c t)) : VaultWrite) s
      = .error .dataError := by
    show (KeyWrite.apply (.insertKey (newKey W c t)) s.2).map _ = _
    simp [KeyWrite.apply, newKey, hlong]
  unfold loadKey lockTenant lockedKey
  simp only [bind_eq, pure_eq, observe_bind, observe_acquire, observe_read,
    Tx.follow_ok, h, findOrCreate, Bool.not_true, Bool.false_eq_true, if_false, execKey]
  rw [observe_exec_error busy s hinsert]
  rfl

/-- **A new key** is stored, and it is the one the call has drawn. -/
theorem loadKey_new (h : s.2.keys.get? t = none) (hfits : fitsVarchar128 t = true) :
    ∃ s', (loadKey W c t true).observe busy s = (.ok c.dek.val, s')
      ∧ s'.2.keys.get? t = some { newKey W c t with lastEncryptedAt := c.now } := by
  obtain ⟨keys, hkeys⟩ : ∃ keys, s.2.keys.insert? (newKey W c t) = some keys := by
    refine insert?_isSome fun b hb => ?_
    have hne : b.tenantId ≠ t := get?_eq_none_iff.mp h b hb
    exact decide_eq_false hne
  have hinsert : Writes.apply (Sum.inr (.insertKey (newKey W c t)) : VaultWrite) s
      = .ok (s.1, { s.2 with keys }) := by
    show (KeyWrite.apply (.insertKey (newKey W c t)) s.2).map _ = _
    have hfits' : fitsVarchar128 (newKey W c t).tenantId = true := hfits
    simp only [KeyWrite.apply, hfits', if_true, hkeys]
    rfl
  have hget : keys.get? t = some (newKey W c t) := by
    rw [get?_insert hkeys]
    exact if_pos rfl
  refine ⟨touched (s.1, { s.2 with keys }) t c.now, ?_, get?_touched c.now hget⟩
  unfold loadKey lockTenant lockedKey
  simp only [bind_eq, pure_eq, observe_bind, observe_acquire, observe_read,
    Tx.follow_ok, h, findOrCreate, Bool.not_true, Bool.false_eq_true, if_false, if_true]
  rw [execKey, observe_exec_ok busy s hinsert]
  simp only [Tx.follow_ok, observe_done, observe_ofExcept,
    LiveKey.openRow (liveKey_newKey (W := W) (c := c) (t := t)), observe_touch]

/-- **A swapped key** is refused, whatever the two tenants are called. -/
theorem loadKey_swapped {t' : String} {nonce : Nonce} (create : Bool) (hne : t' ≠ t)
    (hlength : dek.length = 32) (hget : s.2.keys.get? t' = some row)
    (hblob : row.wrappedDek = some (W.wrap nonce (bindKey t dek))) :
    ∃ e, (loadKey W c t' create).run busy s = .error e := by
  have hopen : ∃ e, openRow W t' row = .error e := by
    cases hrow : openRow W t' row with
    | error e => exact ⟨e, rfl⟩
    | ok key =>
      exfalso
      cases hdestroyed : row.destroyedAt with
      | some at_ => simp [openRow, hdestroyed] at hrow
      | none =>
        rw [openRow_eq hdestroyed hblob (W.unwrap?_wrap _ _)] at hrow
        exact hne (eq_of_unbindKey hlength hrow).symm
  obtain ⟨e, he⟩ := hopen
  refine ⟨e, ?_⟩
  rw [run_eq_observe, loadKey_found busy create hget, he]
  rfl

end Loading

/-! ### Round trip and binding -/

/-- The tenant has a key, or its first encryption can create one. -/
def HasKey (W : KeyWrapper) (tenantId : String) (s : Vault) : Prop :=
  match s.2.keys.get? tenantId with
  | none => fitsVarchar128 tenantId
  | some row => ∃ dek, LiveKey W tenantId dek row

/-- **A tenant with a key** loads it, and the row that is left holds the key. -/
theorem loadKey_hasKey {W : KeyWrapper} {c : KeyCall} {t : String} {s : Vault} (busy : Lock → Bool)
    (h : HasKey W t s) :
    ∃ dek s' row, (loadKey W c t true).observe busy s = (.ok dek, s')
      ∧ s'.2.keys.get? t = some row ∧ LiveKey W t dek row := by
  unfold HasKey at h
  cases hget : s.2.keys.get? t with
  | none =>
    rw [hget] at h
    obtain ⟨s', hload, hrow⟩ := loadKey_new (W := W) (c := c) busy hget h
    exact ⟨_, s', _, hload, hrow, c.dek.2, rfl, c.wrapNonce, rfl⟩
  | some row =>
    rw [hget] at h
    obtain ⟨dek, hlive⟩ := h
    refine ⟨dek, touched s t c.now, _, ?_, get?_touched c.now hget, hlive.length_dek,
      hlive.destroyedAt, hlive.wrappedDek⟩
    rw [loadKey_found busy true hget, hlive.openRow]
    rfl

section Operations

variable [IdealAead] {W : KeyWrapper} {c : KeyCall} {t : String} {r : Uuid} {f : String} {s : Vault}
  (busy : Lock → Bool)

theorem encryptText_observe (plaintext : Except PyError Bytes) :
    (encryptText W c t r f plaintext).observe busy s
      = Tx.follow ((loadKey W c t true).observe busy s) fun key s' =>
          (sealEnvelope key c.nonce t r f plaintext, s') := by
  unfold encryptText
  simp only [bind_eq, observe_bind, observe_ofExcept]

omit [IdealAead] in
theorem associatedData_isOk (t : String) (r : Uuid) (hf : f ∈ encryptedFields) :
    ∃ a, associatedData t r f = .ok a := by
  unfold associatedData
  rw [if_neg (by simpa using hf)]
  exact ⟨_, rfl⟩

/-- A supported field and a finite value are sealed. -/
theorem sealEnvelope_isOk {v : Json} (key : Bytes) (nonce : Nonce) (hv : allFinite v = true)
    (hf : f ∈ encryptedFields) :
    ∃ envelope, sealEnvelope key nonce t r f (plaintextOf v) = .ok envelope := by
  obtain ⟨a, ha⟩ := associatedData_isOk t r hf
  unfold sealEnvelope plaintextOf
  rw [if_pos hv, ha]
  exact ⟨_, rfl⟩

omit [IdealAead] in
theorem hasFormat_envelopeOf (data : Bytes) : hasFormat (envelopeOf data) = true := by
  simp [hasFormat, envelopeOf, JsonObject.get?]

variable [FloatRepr]

/-- **Decryption** with a live key opens the envelope with that key and changes nothing. -/
theorem run_decrypt {row : TenantKey} {dek : Bytes} {envelope : JsonObject}
    (hformat : hasFormat envelope = true) (hget : s.2.keys.get? t = some row)
    (hlive : LiveKey W t dek row) :
    (decrypt W c t r f envelope).run busy s
      = (openEnvelope dek t r f envelope).map fun v => (v, s) := by
  unfold decrypt
  rw [hformat]
  simp only [Bool.not_true, Bool.false_eq_true, if_false, bind_eq, run_eq_observe,
    observe_bind, observe_ofExcept, loadKey_found busy false hget, hlive.openRow,
    Tx.follow_ok]

/-- What is decrypted was opened for the tenant, the run and the field of the call. -/
theorem openEnvelope_of_decrypt {envelope : JsonObject} {v : Json} {s' : Vault}
    (h : (decrypt W c t r f envelope).run busy s = .ok (v, s')) :
    ∃ key, openEnvelope key t r f envelope = .ok v := by
  unfold decrypt at h
  split_ifs at h
  · exact absurd h (by simp)
  · rw [bind_eq, run_bind] at h
    obtain ⟨p, -, h⟩ := bind_eq_ok.mp h
    rw [run_ofExcept] at h
    obtain ⟨w, hopen, hpair⟩ := map_eq_ok.mp h
    obtain rfl : w = v := congrArg Prod.fst hpair
    exact ⟨p.1, hopen⟩

/-- **Round trip and binding.** While the key that sealed a value is in the tenant's row, the
value comes back for its tenant, run and field; for any others nothing ever comes back; and the
wrapped key of one tenant opens no other tenant's row. -/
theorem envelope_bound (W : KeyWrapper) (t : String) (r : Uuid) (f : String) :
    (∀ c v s, Held v → allFinite v = true → f ∈ encryptedFields → HasKey W t s →
      ∃ envelope s' row, (encrypt W c t r f v).run busy s = .ok (envelope, s')
        ∧ s'.2.keys.get? t = some row ∧ row.destroyedAt = none
        ∧ ∀ c' later row', later.2.keys.get? t = some row' → row'.destroyedAt = none →
            row'.wrappedDek = row.wrappedDek →
            (decrypt W c' t r f envelope).run busy later = .ok (v, later))
    ∧ (∀ c v s envelope s', (encrypt W c t r f v).run busy s = .ok (envelope, s') →
        ∀ W' c' t' r' f' later, (t', r', f') ≠ (t, r, f) →
          ∀ w later', (decrypt W' c' t' r' f' envelope).run busy later ≠ .ok (w, later'))
    ∧ (∀ t' c create nonce dek s row, t' ≠ t → dek.length = 32 →
        s.2.keys.get? t' = some row → row.wrappedDek = some (W.wrap nonce (bindKey t dek)) →
        ∃ e, (loadKey W c t' create).run busy s = .error e) := by
  refine ⟨?roundTrip, ?binding, ?swapped⟩
  case roundTrip =>
    intro c v s hv hfinite hf hkey
    obtain ⟨dek, s', row, hload, hget, hlive⟩ := loadKey_hasKey (c := c) busy hkey
    obtain ⟨envelope, hseal⟩ := sealEnvelope_isOk (t := t) (r := r) dek c.nonce hfinite hf
    refine ⟨envelope, s', row, ?_, hget, hlive.destroyedAt, ?_⟩
    · rw [encrypt, run_eq_observe, encryptText_observe, hload, Tx.follow_ok, hseal]
      rfl
    · intro c' later row' hget' hdestroyed hsame
      have hlive' : LiveKey W t dek row' := by
        refine ⟨hlive.length_dek, hdestroyed, ?_⟩
        rw [hsame]
        exact hlive.wrappedDek
      have hformat : hasFormat envelope = true := by
        obtain ⟨p, a, -, -, rfl⟩ := sealEnvelope_ok hseal
        exact hasFormat_envelopeOf _
      rw [run_decrypt busy hformat hget' hlive', openEnvelope_sealEnvelope hv hseal]
      rfl
  case binding =>
    intro c v s envelope s' henc W' c' t' r' f' later hne w later' hdec
    obtain ⟨key', hopen⟩ := openEnvelope_of_decrypt busy hdec
    rw [encrypt, encryptText, bind_eq, run_bind] at henc
    obtain ⟨p, -, henc⟩ := bind_eq_ok.mp henc
    rw [run_ofExcept] at henc
    obtain ⟨sealed, hseal, hpair⟩ := map_eq_ok.mp henc
    obtain rfl : sealed = envelope := congrArg Prod.fst hpair
    obtain ⟨rfl, rfl, rfl⟩ := eq_of_openEnvelope hseal hopen
    exact hne rfl
  case swapped =>
    intro t' c create nonce dek s row hne hlength hget hblob
    exact loadKey_swapped busy create hne hlength hget hblob

end Operations

/-- A registry in which `tenantId` holds the key of `owner`. -/
def registryOf (W : KeyWrapper) (c : KeyCall) (tenantId owner : String) : Vault :=
  (Store.empty, { KeyStore.empty with
    keys := ⟨[{ newKey W c owner with tenantId }], List.pairwise_singleton _ _⟩ })

/-- A member of an object that is sealed, the same envelope for another tenant, and the key of
a tenant in the row of one whose id starts with the first one's. -/
theorem envelope_bound_prompt :
    let _ : IdealAead := framedAead
    let _ : FloatRepr := exactRepr
    let W := aesWrapper (List.replicate 32 5)
    let c := plainCall ⟨0, Nat.zero_le _⟩
    let v := Json.obj [("prompt", .str "private")]
    (∃ envelope s', (encrypt W c "acme" ⟨1⟩ "input" v).run (fun _ => false)
          (Store.empty, KeyStore.empty) = .ok (envelope, s')
        ∧ (decrypt W c "acme" ⟨1⟩ "input" envelope).run (fun _ => false) s' = .ok (v, s')
        ∧ ∀ w s'', (decrypt W c "acme2" ⟨1⟩ "input" envelope).run (fun _ => false) s'
            ≠ .ok (w, s''))
      ∧ ∃ e, (loadKey W c "acme2" false).run (fun _ => false) (registryOf W c "acme2" "acme")
          = .error e := by
  intro _ _ W c v
  have hheld : Held v := ⟨by simp [HeldNode], trivial, trivial⟩
  obtain ⟨roundTrip, binding, swapped⟩ := envelope_bound (fun _ => false) W "acme" ⟨1⟩ "input"
  obtain ⟨envelope, s', row, henc, hget, hlive, hback⟩ :=
    roundTrip c v (Store.empty, KeyStore.empty) hheld rfl (by decide)
      (show fitsVarchar128 "acme" = true by decide)
  refine ⟨⟨envelope, s', henc, hback c s' row hget hlive rfl, ?_⟩, ?_⟩
  · exact binding c v _ envelope s' henc W c "acme2" ⟨1⟩ "input" s' (by decide)
  · exact swapped "acme2" c false c.wrapNonce c.dek.val _ { newKey W c "acme" with
      tenantId := "acme2" } (by decide) c.dek.2 rfl rfl

/-! ### Rejected encryptions -/

section Rejections

variable {W : KeyWrapper} {c : KeyCall} {t : String} {s s' : Vault} (busy : Lock → Bool)

/-- The key load fails before anything is written, or the row already holds the time of the
call. -/
def LeavesNoTrace (W : KeyWrapper) (c : KeyCall) (tenantId : String) (s : Vault) : Prop :=
  match s.2.keys.get? tenantId with
  | none => fitsVarchar128 tenantId = false
  | some row => (∃ e, openRow W tenantId row = .error e) ∨ row.lastEncryptedAt = c.now

/-- Touching a key changes the registry, unless the row already holds the time. -/
theorem touched_keys_eq_iff {row : TenantKey} {now : Timestamp} (h : s.2.keys.get? t = some row) :
    (touched s t now).2.keys = s.2.keys ↔ row.lastEncryptedAt = now := by
  have hafter := get?_touched now h
  constructor
  · intro hkeys
    rw [hkeys, h] at hafter
    exact congrArg TenantKey.lastEncryptedAt (Option.some.inj hafter)
  · intro hnow
    refine eq_of_rows ?_
    rw [touched, update_rows]
    refine (List.map_congr_left ?_).trans (List.map_id _)
    intro row' hrow'
    split
    · rename_i hid
      obtain rfl : row' = row := Option.some.inj
        ((get?_eq_some_iff.mpr ⟨hrow', hid⟩).symm.trans h)
      rw [← hnow]
      rfl
    · rfl

/-- **A rejected encryption** leaves the registry as it was exactly if the key load left no
trace. -/
theorem keys_of_rejected [IdealAead] {r : Uuid} {f : String} {plaintext : Except PyError Bytes}
    {e : PyError} (h : (encryptText W c t r f plaintext).observe busy s = (.error e, s')) :
    s'.2.keys = s.2.keys ↔ LeavesNoTrace W c t s := by
  rw [encryptText_observe] at h
  unfold LeavesNoTrace
  cases hget : s.2.keys.get? t with
  | none =>
    cases hfits : fitsVarchar128 t with
    | false =>
      rw [loadKey_refused busy hget hfits] at h
      obtain rfl : s = s' := congrArg Prod.snd h
      simp
    | true =>
      -- the row was created before the value was looked at
      obtain ⟨s1, hload, hrow⟩ := loadKey_new (W := W) (c := c) busy hget hfits
      rw [hload] at h
      obtain rfl : s1 = s' := congrArg Prod.snd h
      simp only [Bool.true_eq_false, iff_false]
      intro hkeys
      rw [hkeys, hget] at hrow
      exact absurd hrow (by simp)
  | some row =>
    rw [loadKey_found busy true hget] at h
    cases hopen : openRow W t row with
    | error e' =>
      rw [hopen] at h
      obtain rfl : s = s' := congrArg Prod.snd h
      simp [hopen]
    | ok key =>
      rw [hopen] at h
      obtain rfl : touched s t c.now = s' := congrArg Prod.snd h
      simpa [hopen] using touched_keys_eq_iff hget

/-- **Rejected calls and the registry.** Whatever the content of the registry and however the
value is serialized, an `encrypt` that raises leaves the keys as they were if and only if the key
load left no trace; a `protect_policy` that raises, if and only if that or the policy was already
protected. -/
theorem rejected_keeps_keys_iff [IdealAead] (W : KeyWrapper) (c : KeyCall) (t : String) (r : Uuid)
    (s : Vault) :
    (∀ f plaintext e s', (encryptText W c t r f plaintext).observe busy s = (.error e, s') →
      (s'.2.keys = s.2.keys ↔ LeavesNoTrace W c t s))
    ∧ (∀ policy dump e s',
        (protectPolicyText W c t r policy dump).observe busy s = (.error e, s') →
        (s'.2.keys = s.2.keys ↔
          (JsonObject.get? policy "_encrypted_instructions").isSome ∨ LeavesNoTrace W c t s)) := by
  refine ⟨fun f plaintext e s' h => keys_of_rejected busy h, ?_⟩
  intro policy dump e s' h
  unfold protectPolicyText at h
  split_ifs at h with hprotected
  · obtain rfl : s = s' := congrArg Prod.snd h
    simp [hprotected]
  · rw [or_iff_right hprotected]
    split at h
    · exact absurd (congrArg Prod.fst h) (by simp)
    · rename_i instructions _
      rw [bind_eq, observe_bind] at h
      cases henc : (encryptText W c t r "instructions" (dump instructions)).observe busy s with
      | mk result s1 =>
        rw [henc] at h
        cases result with
        | ok envelope => exact absurd (congrArg Prod.fst h) (by simp)
        | error e' =>
          obtain rfl : s1 = s' := congrArg Prod.snd h
          exact keys_of_rejected busy henc

end Rejections

/-- The first call of a tenant names a field that cannot be sealed: it is rejected, and the tenant
has a key. -/
theorem unsupported_field_creates_key :
    let _ : IdealAead := framedAead
    let W := aesWrapper (List.replicate 32 5)
    let c := plainCall ⟨0, Nat.zero_le _⟩
    let seen := (encrypt W c "acme" ⟨1⟩ "prompt" .null).observe (fun _ => false)
      (Store.empty, KeyStore.empty)
    errorOf seen.1 = some (.valueError "Unsupported encrypted field")
      ∧ seen.2.2.keys.rows.map TenantKey.tenantId = ["acme"] := by
  decide +kernel

/-- The same call by the condition: nothing stands in the way of the key load. -/
theorem rejected_first_call_changes_keys :
    let _ : IdealAead := framedAead
    let W := aesWrapper (List.replicate 32 5)
    let c := plainCall ⟨0, Nat.zero_le _⟩
    ((encrypt W c "acme" ⟨1⟩ "prompt" .null).observe (fun _ => false)
      (Store.empty, KeyStore.empty)).2.2.keys ≠ KeyStore.empty.keys := by
  intro _ W c hkeys
  have hraised : (encrypt W c "acme" ⟨1⟩ "prompt" .null).observe (fun _ => false)
      (Store.empty, KeyStore.empty) = (.error (.valueError "Unsupported encrypted field"), _) :=
    Prod.ext (eq_error_of_errorOf (by decide +kernel)) rfl
  have htrace : fitsVarchar128 "acme" = false :=
    ((rejected_keeps_keys_iff (fun _ => false) W c "acme" ⟨1⟩ (Store.empty, KeyStore.empty)).1
      "prompt" _ _ _ hraised).mp hkeys
  exact absurd htrace (by decide)

end AgentRuntime.Security
