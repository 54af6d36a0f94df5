import Piggy.Fibby.Requests

/-!
# The attestation of a card

A card attests a key that it generated with a certificate over the key's point, which carries
the firmware version and the policy of the slot. How a certificate is encoded and signed is left
open; what stands in it is not.
-/

namespace Piggy.Fibby

open Piggy.Core Piggy.Box

def oidBasicConstraints : String := "2.5.29.19"

/-- The basic constraints of an authority. -/
def basicConstraintsCa : Bytes := [0x30, 0x03, 0x01, 0x01, 0xFF]

/-- The extension with the firmware version. -/
def oidYkFirmwareVersion : String := "1.3.6.1.4.1.41482.3.3"

/-- The extension with the policy of the slot. -/
def oidYkPolicy : String := "1.3.6.1.4.1.41482.3.8"

def attestationSubject : String := "CN=fibby attestation"

/-- An extension of a certificate. -/
structure Extension where
  extnId : String
  critical : Bool
  extnValue : Bytes
  deriving DecidableEq

/-- What is signed as a certificate. The algorithms and the years of its validity are the same in
all of them. -/
structure TbsCertificate where
  serialNumber : UInt32
  issuer : String
  subject : String
  subjectPublicKey : Bytes
  extensions : List Extension
  deriving DecidableEq

/-- The policy that is read off a certificate: the two bytes of its extension. -/
def TbsCertificate.policy (cert : TbsCertificate) : Option Policy :=
  match cert.extensions.find? fun e => e.extnId = oidYkPolicy with
  | some ⟨_, _, [pin, touch]⟩ => some ⟨pin, touch⟩
  | _ => none

/-- The attestation key of a card: its point, and the certificates it signs, in DER. -/
structure AttestationAuthority where
  point : Bytes
  issueCertificate : TbsCertificate → Bytes

/-- An extension that is not critical. -/
def octetStringExtension (oid : String) (value : Bytes) : Extension := ⟨oid, false, value⟩

/-- The certificate over the key of a slot. -/
def slotCertificate (slot : UInt8) (slotPoint : Bytes) (policy : Policy) (firmwareVersion : Bytes) :
    TbsCertificate where
  serialNumber := 0x100 + slot.toUInt32
  issuer := attestationSubject
  subject := "CN=fibby PIV attestation " ++ hexByte slot
  subjectPublicKey := slotPoint
  extensions := [octetStringExtension oidYkFirmwareVersion firmwareVersion,
    octetStringExtension oidYkPolicy [policy.pin, policy.touch]]

namespace AttestationAuthority

/-- The certificate of the attestation key, which it signs itself. -/
def certDer (authority : AttestationAuthority) : Bytes :=
  authority.issueCertificate
    { serialNumber := 1
      issuer := attestationSubject
      subject := attestationSubject
      subjectPublicKey := authority.point
      extensions := [⟨oidBasicConstraints, true, basicConstraintsCa⟩] }

/-- The data object with that certificate. -/
def certObject (authority : AttestationAuthority) : Bytes :=
  let inner := 0x70 :: pushBerLen authority.certDer.length ++ authority.certDer ++
    [0x71, 0x01, 0x00, 0xFE, 0x00]
  0x53 :: pushBerLen inner.length ++ inner

/-- Attests the key of a slot. -/
def attestSlot (authority : AttestationAuthority) (slot : UInt8) (slotPoint : Bytes)
    (policy : Policy) (firmwareVersion : Bytes) : Bytes :=
  authority.issueCertificate (slotCertificate slot slotPoint policy firmwareVersion)

end AttestationAuthority

/-- The policy of a slot is read off its certificate, behind the firmware version. -/
theorem policy_slotCertificate (slot : UInt8) (slotPoint : Bytes) (policy : Policy)
    (firmwareVersion : Bytes) :
    (slotCertificate slot slotPoint policy firmwareVersion).policy = some policy := by
  have hother : oidYkFirmwareVersion ≠ oidYkPolicy := by decide
  simp [TbsCertificate.policy, slotCertificate, octetStringExtension, hother]

end Piggy.Fibby
