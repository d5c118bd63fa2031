/-
  Peer tokens: opaque, URL-safe stand-ins for employee ids.
-/
import Marketplace.Chats
import Marketplace.Lib.Base64Url

namespace Marketplace

def IV_LENGTH : ℕ := 12
def TAG_LENGTH : ℕ := 16

/-- `Buffer.from(s, 'utf8')` -/
def utf8 (s : String) : List UInt8 := s.toByteArray.data.toList

/-- HMAC-SHA-256 and AES-256-GCM under the keys derived from the secret of the application. -/
structure PeerCipher where
  hmac : List UInt8 → List UInt8
  hmac_length : ∀ plain, (hmac plain).length = 32
  /-- the ciphertext and the tag, for an IV and a plaintext -/
  encrypt : List UInt8 → List UInt8 → List UInt8 × List UInt8
  encrypt_length : ∀ iv plain, (encrypt iv plain).1.length = plain.length
  tag_length : ∀ iv plain, (encrypt iv plain).2.length = TAG_LENGTH
  /-- the plaintext of an IV, a ciphertext and a tag, if they authenticate -/
  decrypt : List UInt8 → List UInt8 → List UInt8 → Option (List UInt8)
  decrypt_encrypt : ∀ userId iv, iv = (hmac (utf8 userId)).take IV_LENGTH →
    decrypt iv (encrypt iv (utf8 userId)).1 (encrypt iv (utf8 userId)).2 = some (utf8 userId)
  /-- only what `encode` produces for some string authenticates -/
  authentic : ∀ iv encrypted tag plain, decrypt iv encrypted tag = some plain →
    ∃ userId, iv = (hmac (utf8 userId)).take IV_LENGTH ∧ encrypt iv (utf8 userId) = (encrypted, tag)
  /-- the `toString('utf8')` of bytes that are not UTF-8 -/
  replaceInvalid : List UInt8 → String

namespace PeerTokenService

variable (cipher : PeerCipher)

/-- `plain.toString('utf8')` -/
def toUtf8String (bytes : List UInt8) : String :=
  (String.fromUTF8? ⟨⟨bytes⟩⟩).getD (cipher.replaceInvalid bytes)

def encode (userId : String) : String :=
  let plain := utf8 userId
  let iv := (cipher.hmac plain).take IV_LENGTH
  let encrypted := cipher.encrypt iv plain
  Base64Url.encode (iv ++ encrypted.1 ++ encrypted.2)

/-- Returns the employee ID, or null if the value is not a valid token. -/
def decode (token : String) : Option String :=
  let raw := Base64Url.decode token
  if raw.length ≤ IV_LENGTH + TAG_LENGTH ∨ Base64Url.encode raw ≠ token then none
  else
    (cipher.decrypt (raw.take IV_LENGTH)
      ((raw.take (raw.length - TAG_LENGTH)).drop IV_LENGTH)
      (raw.drop (raw.length - TAG_LENGTH))).map (toUtf8String cipher)

end PeerTokenService

/-- The application with the peer tokens of a cipher. -/
def Config.withPeerTokens (cfg : Config) (cipher : PeerCipher) : Config :=
  { cfg with encode := PeerTokenService.encode cipher, decode := PeerTokenService.decode cipher }

@[simp] theorem Config.withPeerTokens_encode (cfg : Config) (cipher : PeerCipher) :
    (cfg.withPeerTokens cipher).encode = PeerTokenService.encode cipher := rfl

@[simp] theorem Config.withPeerTokens_decode (cfg : Config) (cipher : PeerCipher) :
    (cfg.withPeerTokens cipher).decode = PeerTokenService.decode cipher := rfl

end Marketplace
