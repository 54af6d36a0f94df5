import Mathlib.Data.List.Basic

/-!
# Format ids

The registry of payload formats that may stand in the human-readable part of a
markl id, with the wire name and the payload size of each.
-/

namespace Piggy.Markl

/-- Format id as it appears in the blech32 human-readable part. -/
inductive FormatId where
  | pivyEcdhP256Pub
  | sha256
  | blake2b256
  | ed25519Pub
  | ed25519Sec
  | ed25519Sig
  | ecdsaP256Pub
  | ecdsaP256Sig
  | ageX25519Pub
  | ageX25519Sec
  | nonce
  | ed25519Ssh
  | ecdsaP256Ssh
  | sshEcdsaNistp256Pub
  | sshEd25519Pub
  | sshEcdsaNistp384Pub
  | pigpenWrapP256
  | pigpenWrapX25519
  | pigpenHeaderMac
  deriving DecidableEq

namespace FormatId

/-- Wire name as it appears in the human-readable part. -/
def asStr : FormatId → String
  | pivyEcdhP256Pub => "pivy_ecdh_p256_pub"
  | sha256 => "sha256"
  | blake2b256 => "blake2b256"
  | ed25519Pub => "ed25519_pub"
  | ed25519Sec => "ed25519_sec"
  | ed25519Sig => "ed25519_sig"
  | ecdsaP256Pub => "ecdsa_p256_pub"
  | ecdsaP256Sig => "ecdsa_p256_sig"
  | ageX25519Pub => "age_x25519_pub"
  | ageX25519Sec => "age_x25519_sec"
  | nonce => "nonce"
  | ed25519Ssh => "ed25519_ssh"
  | ecdsaP256Ssh => "ecdsa_p256_ssh"
  | sshEcdsaNistp256Pub => "ssh_ecdsa_nistp256_pub"
  | sshEd25519Pub => "ssh_ed25519_pub"
  | sshEcdsaNistp384Pub => "ssh_ecdsa_nistp384_pub"
  | pigpenWrapP256 => "pigpen_wrap_p256"
  | pigpenWrapX25519 => "pigpen_wrap_x25519"
  | pigpenHeaderMac => "pigpen_header_mac"

/-- Required payload size in bytes. -/
def size : FormatId → Nat
  | pivyEcdhP256Pub | ecdsaP256Pub | ecdsaP256Ssh | sshEcdsaNistp256Pub => 33
  | sha256 | blake2b256 | ed25519Pub | ageX25519Pub | ageX25519Sec | nonce | ed25519Ssh
  | sshEd25519Pub | pigpenHeaderMac => 32
  | ed25519Sec | ed25519Sig | ecdsaP256Sig | pigpenWrapX25519 => 64
  | sshEcdsaNistp384Pub => 49
  | pigpenWrapP256 => 65

/-- The name `{:?}` prints for a format. -/
def debugName : FormatId → String
  | pivyEcdhP256Pub => "PivyEcdhP256Pub"
  | sha256 => "Sha256"
  | blake2b256 => "Blake2b256"
  | ed25519Pub => "Ed25519Pub"
  | ed25519Sec => "Ed25519Sec"
  | ed25519Sig => "Ed25519Sig"
  | ecdsaP256Pub => "EcdsaP256Pub"
  | ecdsaP256Sig => "EcdsaP256Sig"
  | ageX25519Pub => "AgeX25519Pub"
  | ageX25519Sec => "AgeX25519Sec"
  | nonce => "Nonce"
  | ed25519Ssh => "Ed25519Ssh"
  | ecdsaP256Ssh => "EcdsaP256Ssh"
  | sshEcdsaNistp256Pub => "SshEcdsaNistp256Pub"
  | sshEd25519Pub => "SshEd25519Pub"
  | sshEcdsaNistp384Pub => "SshEcdsaNistp384Pub"
  | pigpenWrapP256 => "PigpenWrapP256"
  | pigpenWrapX25519 => "PigpenWrapX25519"
  | pigpenHeaderMac => "PigpenHeaderMac"

/-- The format a human-readable part names; an unknown name is the error. -/
def parse (s : String) : Except String FormatId :=
  match s with
  | "pivy_ecdh_p256_pub" => .ok pivyEcdhP256Pub
  | "sha256" => .ok sha256
  | "blake2b256" => .ok blake2b256
  | "ed25519_pub" => .ok ed25519Pub
  | "ed25519_sec" => .ok ed25519Sec
  | "ed25519_sig" => .ok ed25519Sig
  | "ecdsa_p256_pub" => .ok ecdsaP256Pub
  | "ecdsa_p256_sig" => .ok ecdsaP256Sig
  | "age_x25519_pub" => .ok ageX25519Pub
  | "age_x25519_sec" => .ok ageX25519Sec
  | "nonce" => .ok nonce
  | "ed25519_ssh" => .ok ed25519Ssh
  | "ecdsa_p256_ssh" => .ok ecdsaP256Ssh
  | "ssh_ecdsa_nistp256_pub" => .ok sshEcdsaNistp256Pub
  | "ssh_ed25519_pub" => .ok sshEd25519Pub
  | "ssh_ecdsa_nistp384_pub" => .ok sshEcdsaNistp384Pub
  | "pigpen_wrap_p256" => .ok pigpenWrapP256
  | "pigpen_wrap_x25519" => .ok pigpenWrapX25519
  | "pigpen_header_mac" => .ok pigpenHeaderMac
  | other => .error other

/-- A name parses to a format exactly when it is that format's wire name. -/
theorem parse_eq_ok {s : String} {f : FormatId} : parse s = .ok f ↔ s = f.asStr := by
  constructor
  · intro h
    unfold parse at h
    split at h <;> cases h <;> rfl
  · rintro rfl
    cases f <;> rfl

end FormatId

end Piggy.Markl
