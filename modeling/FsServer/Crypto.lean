import FsServer.Metadata
import FsServer.Lib.Base64

/-!
# Encryption at rest

`crypto/crypto.go`: AES-GCM with a random nonce in front, written in base64. The cipher itself is
left open; what is used of it is that opening undoes sealing and that a sealed text is 16 bytes
longer than its plaintext.
-/

namespace FsServer

open Lib

structure Nonce where
  bytes : Bytes
  length_eq : bytes.length = 12

structure Cipher where
  sealing : Bytes → Bytes → Bytes
  opening : Bytes → Bytes → Option Bytes
  opening_sealing : ∀ nonce plaintext, opening nonce (sealing nonce plaintext) = some plaintext
  length_sealing : ∀ nonce plaintext, (sealing nonce plaintext).length = plaintext.length + 16
  length_opening : ∀ nonce ciphertext plaintext, opening nonce ciphertext = some plaintext →
    ciphertext.length = plaintext.length + 16

structure CryptoService where
  cipher : Cipher
  enabled : Bool

inductive CryptoError where
  | decodeBase64
  | tooShort
  | decrypt
  deriving DecidableEq

namespace CryptoService

variable (crypto : CryptoService)

def encrypt (nonce : Nonce) (plaintext : Bytes) : Bytes :=
  if crypto.enabled then
    Base64.encodeToString (nonce.bytes ++ crypto.cipher.sealing nonce.bytes plaintext)
  else plaintext

def decrypt (ciphertext : Bytes) : Except CryptoError Bytes :=
  if crypto.enabled then
    match Base64.decodeString ciphertext with
    | none => .error .decodeBase64
    | some data =>
      if data.length < 12 then .error .tooShort
      else
        match crypto.cipher.opening (data.take 12) (data.drop 12) with
        | some plaintext => .ok plaintext
        | none => .error .decrypt
  else .ok ciphertext

theorem decrypt_encrypt (nonce : Nonce) (plaintext : Bytes) :
    crypto.decrypt (crypto.encrypt nonce plaintext) = .ok plaintext := by
  unfold decrypt encrypt
  by_cases henabled : crypto.enabled = true
  · have hlong : ¬ (nonce.bytes ++ crypto.cipher.sealing nonce.bytes plaintext).length < 12 := by
      rw [List.length_append, nonce.length_eq]
      omega
    rw [if_pos henabled, if_pos henabled, Base64.decodeString_encodeToString]
    simp only [hlong, if_false, List.take_left' nonce.length_eq, List.drop_left' nonce.length_eq,
      crypto.cipher.opening_sealing]
  · rw [if_neg henabled, if_neg henabled]

theorem length_decrypt_lt (henabled : crypto.enabled = true) {ciphertext plaintext : Bytes}
    (h : crypto.decrypt ciphertext = .ok plaintext) : plaintext.length < ciphertext.length := by
  rw [decrypt, if_pos henabled] at h
  cases hdecode : Base64.decodeString ciphertext with
  | none => simp [hdecode] at h
  | some data =>
    have hdata := Base64.length_decodeString_le hdecode
    rw [hdecode] at h
    dsimp only at h
    split_ifs at h with hshort
    cases hopen : crypto.cipher.opening (data.take 12) (data.drop 12) with
    | none => simp [hopen] at h
    | some opened =>
      rw [hopen] at h
      cases h
      have hopened := crypto.cipher.length_opening _ _ _ hopen
      rw [List.length_drop] at hopened
      omega

end CryptoService

end FsServer
