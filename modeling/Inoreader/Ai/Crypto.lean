import Mathlib.Data.List.Basic
import Inoreader.Core.Article

/-!
# Sealed credentials (`reader-ai/src/crypto.rs`)

A credential is stored behind its nonce of twelve bytes, sealed for the account it belongs to. The cipher is a parameter.
-/

namespace Inoreader

/-- AES-256-GCM under the key of the server: `seal_in_place_append_tag` and `open_in_place`. -/
structure Aead where
  sealInPlace : (nonce aad body : List UInt8) → Option (List UInt8)
  openInPlace : (nonce aad body : List UInt8) → Option (List UInt8)

/-- A body that was sealed can be opened with its nonce and its associated data. -/
def Aead.Correct (A : Aead) : Prop :=
  ∀ nonce aad body sealed, A.sealInPlace nonce aad body = some sealed → A.openInPlace nonce aad sealed = some body

namespace CredentialCipher

/-- `Uuid::as_bytes` -/
def accountBytes (account : AccountId) : List UInt8 := (List.range 16).map fun i => UInt8.ofNat (account.uuid / 256 ^ (15 - i))

def toUtf8 (text : List Char) : List UInt8 := text.flatMap String.utf8EncodeChar

/-- `String::from_utf8` -/
def ofUtf8 (bytes : List UInt8) : Option (List Char) := (ByteArray.mk bytes.toArray).utf8Decode?.map Array.toList

theorem ofUtf8_toUtf8 (text : List Char) : ofUtf8 (toUtf8 text) = some text := by
  have hbytes : ByteArray.mk (toUtf8 text).toArray = text.utf8Encode :=
    ByteArray.ext (by simp [toUtf8, List.utf8Encode])
  unfold ofUtf8
  rw [hbytes, List.utf8Decode?_utf8Encode]
  rfl

section
variable (A : Aead)

/-- `encrypt`; `nonce` is what the system's random source filled in. -/
def encrypt (nonce : Vector UInt8 12) (account : AccountId) (plaintext : List Char) : Option (List UInt8) :=
  (A.sealInPlace nonce.toList (accountBytes account) (toUtf8 plaintext)).map (nonce.toList ++ ·)

def decrypt (account : AccountId) (ciphertext : List UInt8) : Option (List Char) :=
  if ciphertext.length < 12 then none
  else (A.openInPlace (ciphertext.take 12) (accountBytes account) (ciphertext.drop 12)).bind ofUtf8

/-- An account reads again what was sealed for it. -/
theorem decrypt_encrypt {A : Aead} (hA : A.Correct) {nonce : Vector UInt8 12} {account : AccountId} {plaintext : List Char}
    {ciphertext : List UInt8} (h : encrypt A nonce account plaintext = some ciphertext) :
    decrypt A account ciphertext = some plaintext := by
  obtain ⟨body, hbody, rfl⟩ := Option.map_eq_some_iff.1 h
  have hlen : nonce.toList.length = 12 := nonce.length_toList
  unfold decrypt
  rw [if_neg (by simp), List.take_left' hlen, List.drop_left' hlen, hA _ _ _ _ hbody]
  exact ofUtf8_toUtf8 plaintext

end

end CredentialCipher
end Inoreader
