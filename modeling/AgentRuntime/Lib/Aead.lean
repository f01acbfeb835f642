import Mathlib.Data.List.Basic

/-!
# Ideal authenticated encryption

An ideal cipher decrypts exactly what was encrypted: with the key, the nonce and the associated
data of the encryption the plaintext comes back, and a ciphertext determines all three.
`framedAead` writes them down in front of the plaintext; it hides nothing, but it shows that there
are ciphers with these laws.

* `IdealAead`: the two functions and their laws;
* `IdealAead.eq_of_decrypt?`: a ciphertext is decrypted only with what it was encrypted with.
-/

namespace AgentRuntime.Lib

/-- An authenticated cipher with associated data; decryption can fail. -/
class IdealAead where
  encrypt : (key nonce plaintext associated : List UInt8) → List UInt8
  decrypt? : (key nonce ciphertext associated : List UInt8) → Option (List UInt8)
  decrypt?_encrypt : ∀ k n p a, decrypt? k n (encrypt k n p a) a = some p
  /-- What is decrypted was encrypted. -/
  encrypt_of_decrypt? : ∀ {k n c a p}, decrypt? k n c a = some p → c = encrypt k n p a
  /-- A ciphertext determines the key, the nonce and the associated data. -/
  encrypt_injective : ∀ {k n p a k' n' p' a'},
    encrypt k n p a = encrypt k' n' p' a' → k = k' ∧ n = n' ∧ a = a'

/-- **Binding.** A ciphertext is decrypted only with what it was encrypted with. -/
theorem IdealAead.eq_of_decrypt? [IdealAead] {k n p a k' n' a' p' : List UInt8}
    (h : decrypt? k' n' (encrypt k n p a) a' = some p') : k = k' ∧ n = n' ∧ a = a' :=
  encrypt_injective (encrypt_of_decrypt? h)

/-! ### A cipher with these laws -/

/-- Bytes with a mark before each of them and another one at the end. -/
def frame : List UInt8 → List UInt8
  | [] => [0]
  | b :: bs => 1 :: b :: frame bs

/-- Frames are self-delimiting. -/
theorem frame_append_injective {xs ys r s : List UInt8} (h : frame xs ++ r = frame ys ++ s) :
    xs = ys ∧ r = s := by
  induction xs generalizing ys with
  | nil =>
    cases ys with
    | nil => exact ⟨rfl, (List.cons.inj h).2⟩
    | cons y ys => exact absurd (List.cons.inj h).1 (by decide)
  | cons x xs ih =>
    cases ys with
    | nil => exact absurd (List.cons.inj h).1 (by decide)
    | cons y ys =>
      obtain ⟨hxy, hrest⟩ := List.cons.inj (List.cons.inj h).2
      obtain ⟨rfl, hr⟩ := ih hrest
      exact ⟨by rw [hxy], hr⟩

/-- The frames of everything but the plaintext. -/
def header (k n a : List UInt8) : List UInt8 := frame k ++ (frame n ++ frame a)

theorem header_append_injective {k n a k' n' a' r s : List UInt8}
    (h : header k n a ++ r = header k' n' a' ++ s) : (k = k' ∧ n = n' ∧ a = a') ∧ r = s := by
  unfold header at h
  rw [List.append_assoc, List.append_assoc, List.append_assoc, List.append_assoc] at h
  obtain ⟨hk, h⟩ := frame_append_injective h
  obtain ⟨hn, h⟩ := frame_append_injective h
  obtain ⟨ha, h⟩ := frame_append_injective h
  exact ⟨⟨hk, hn, ha⟩, h⟩

/-- The cipher that writes its header in front of the plaintext. -/
@[reducible] def framedAead : IdealAead where
  encrypt k n p a := header k n a ++ p
  decrypt? k n c a :=
    if c.take (header k n a).length = header k n a then some (c.drop (header k n a).length)
    else none
  decrypt?_encrypt k n p a := by
    rw [if_pos List.take_left, List.drop_left]
  encrypt_of_decrypt? := by
    intro k n c a p h
    split_ifs at h with hstart
    calc c = c.take (header k n a).length ++ c.drop (header k n a).length :=
          (List.take_append_drop _ c).symm
      _ = header k n a ++ p := by rw [hstart, Option.some.inj h]
  encrypt_injective h := (header_append_injective h).1

end AgentRuntime.Lib
