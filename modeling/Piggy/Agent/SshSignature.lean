import Piggy.Agent.Signing
import Piggy.Ecdsa.Standard

/-!
# The signatures that an agent gives

An agent frames the signature of a card for SSH. It takes the integers over as the card has
encoded them; the library that makes an SSH signature of them refuses what is no pair of
multiple-precision integers.
-/

namespace Piggy.Agent

open Piggy.Core Piggy.Box Piggy.Card Piggy.Ecdsa

/-- What an agent uses of a library for SSH keys. -/
structure SshKey (Algorithm Signature : Type) where
  algorithmNew : String → Except String Algorithm
  signatureNew : Algorithm → Bytes → Except String Signature
  asBytes : Signature → Bytes
  /-- Decodes a multiple-precision integer: its bytes, and what is left behind it. -/
  mpintDecode : Bytes → Except String (Bytes × Bytes)
  asPositiveBytes : Bytes → Option Bytes

/-- The name of the algorithm of an elliptic-curve key. -/
def ecdsaName (alg : PivAlgorithm) : String :=
  if alg = .ecP256 then "ecdsa-sha2-nistp256" else "ecdsa-sha2-nistp384"

/-- What the library is documented to do. -/
structure SshKey.Documented {Algorithm Signature : Type} (lib : SshKey Algorithm Signature) :
    Prop where
  /-- A signature has the bytes that it is made of. -/
  keeps : ∀ algorithm data sig, lib.signatureNew algorithm data = .ok sig → lib.asBytes sig = data
  /-- An ECDSA signature is checked: it is two integers that are positive, and nothing else. -/
  ecdsa : ∀ alg algorithm data sig, lib.algorithmNew (ecdsaName alg) = .ok algorithm →
    lib.signatureNew algorithm data = .ok sig →
    ∃ a b rest, lib.mpintDecode data = .ok (a, rest) ∧ lib.mpintDecode rest = .ok (b, []) ∧
      (lib.asPositiveBytes a).isSome ∧ (lib.asPositiveBytes b).isSome
  /-- An integer is decoded from a string; one with a zero in front that is not needed is
  refused. -/
  mpint : ∀ data a rest, lib.mpintDecode data = .ok (a, rest) →
    a.length < 2 ^ 32 ∧ data = sshString a ++ rest ∧ a ≠ [0] ∧
      ∀ b more, a = 0 :: b :: more → 0x80 ≤ b
  /-- A positive integer has bytes, and its highest bit is clear. -/
  positive : ∀ a, (lib.asPositiveBytes a).isSome → ∃ b rest, a = b :: rest ∧ b < 0x80

section

variable {Algorithm Signature : Type} (lib : SshKey Algorithm Signature)

/-- The SSH signature made of a signature of the card. -/
def toSshSignature (alg : PivAlgorithm) (sigBytes : Bytes) (flags : UInt32) : Checked Signature :=
  match alg with
  | .ecP256 | .ecP384 => do
    let algorithm ← Checked.ofExcept (lib.algorithmNew (ecdsaName alg))
    let (r, s) ← decodeDerEcdsaSignature sigBytes
    Checked.ofExcept (lib.signatureNew algorithm (encodeEcdsaSshSignature r s))
  | .rsa1024 | .rsa2048 => do
    let algorithm ← Checked.ofExcept (lib.algorithmNew
      (if flags &&& rsaSha2512 ≠ 0 then "rsa-sha2-512" else "rsa-sha2-256"))
    Checked.ofExcept (lib.signatureNew algorithm sigBytes)
  | .ed25519 => do
    let algorithm ← Checked.ofExcept (lib.algorithmNew "ssh-ed25519")
    Checked.ofExcept (lib.signatureNew algorithm sigBytes)

variable {lib}

/-- What the library decodes and finds positive is an integer as SSH has it. -/
theorem SshKey.Documented.positiveMpint (h : lib.Documented) {data a rest : Bytes}
    (hdecode : lib.mpintDecode data = .ok (a, rest)) (hpositive : (lib.asPositiveBytes a).isSome) :
    PositiveMpint a := by
  obtain ⟨-, -, hzero, hneeded⟩ := h.mpint _ _ _ hdecode
  obtain ⟨b, more, rfl, hb⟩ := h.positive _ hpositive
  refine ⟨b, more, rfl, hb, ?_⟩
  rintro rfl
  rcases more with _ | ⟨b', more⟩
  · exact absurd rfl hzero
  · exact ⟨b', more, rfl, hneeded _ _ rfl⟩

/-- The signature of an elliptic-curve key consists of the integers that the card gave, and both
are integers as SSH has them. -/
theorem toSshSignature_mpints (h : lib.Documented) {alg : PivAlgorithm}
    (halg : alg = .ecP256 ∨ alg = .ecP384) {der : Bytes} {flags : UInt32} {sig : Signature}
    (hsig : toSshSignature lib alg der flags = .ok sig) :
    ∃ r s, decodeDerEcdsaSignature der = .ok (r, s) ∧
      lib.asBytes sig = sshString r ++ sshString s ∧ PositiveMpint r ∧ PositiveMpint s := by
  have hcode : toSshSignature lib alg der flags = (do
      let algorithm ← Checked.ofExcept (lib.algorithmNew (ecdsaName alg))
      let (r, s) ← decodeDerEcdsaSignature der
      Checked.ofExcept (lib.signatureNew algorithm (encodeEcdsaSshSignature r s))) := by
    rcases halg with rfl | rfl
    · rfl
    · rfl
  rw [hcode] at hsig
  rcases halgorithm : lib.algorithmNew (ecdsaName alg) with e | algorithm
  · rw [halgorithm] at hsig
    cases hsig
  rw [halgorithm, Checked.ofExcept_ok, Checked.ok_bind] at hsig
  rcases (answers_decodeDerEcdsaSignature der).cases with ⟨message, hfailed⟩ |
    ⟨⟨r, s⟩, hdecode, -, hr, hs⟩
  · rw [hfailed] at hsig
    cases hsig
  rw [hdecode, Checked.ok_bind] at hsig
  dsimp only at hsig hr hs
  rcases hnew : lib.signatureNew algorithm (encodeEcdsaSshSignature r s) with e | sig'
  · rw [hnew] at hsig
    cases hsig
  rw [hnew] at hsig
  cases hsig
  obtain ⟨a, b, rest, ha, hb, haPositive, hbPositive⟩ := h.ecdsa _ _ _ _ halgorithm hnew
  obtain ⟨haLength, hdata, -⟩ := h.mpint _ _ _ ha
  obtain ⟨hbLength, hrest, -⟩ := h.mpint _ _ _ hb
  obtain ⟨rfl, hrest'⟩ := sshString_inj (by omega) haLength hdata
  rw [← List.append_nil (sshString s), hrest] at hrest'
  obtain ⟨rfl, -⟩ := sshString_inj (by omega) hbLength hrest'
  exact ⟨r, s, hdecode, h.keeps _ _ _ hnew, h.positiveMpint ha haPositive,
    h.positiveMpint hb hbPositive⟩

end

/-- The signature of two integers comes out as they are; the card and an agent in front of it
agree on every answer of the card, and read nothing out of bounds; and what an agent gives away
for an elliptic-curve key are two integers as SSH has them. -/
theorem reframings_agree {Algorithm Signature : Type} {lib : SshKey Algorithm Signature}
    (h : lib.Documented) :
    (∀ n r s, n = 32 ∨ n = 48 → 1 ≤ r → r < 256 ^ n → 1 ≤ s → s < 256 ^ n →
        derToRawRs (derSignature r s) n = .ok (toBe n r ++ toBe n s)) ∧
      (∀ der n, der.length < 65000 → Checked.Same (derToRawRs der n) (agentToRawRs der n)) ∧
      (∀ alg der flags sig, alg = .ecP256 ∨ alg = .ecP384 →
        toSshSignature lib alg der flags = .ok sig →
        ∃ r s, decodeDerEcdsaSignature der = .ok (r, s) ∧
          lib.asBytes sig = sshString r ++ sshString s ∧ PositiveMpint r ∧ PositiveMpint s) := by
  refine ⟨?_, fun der n hder => agentToRawRs_same hder n,
    fun alg der flags sig halg hsig => toSshSignature_mpints h halg hsig⟩
  intro n r s hn _ hr _ hs
  exact derToRawRs_derSignature (by omega) hr hs

/-! ## A library that does so -/

/-- Decodes an integer as the library does. -/
def sampleMpint (data : Bytes) : Except String (Bytes × Bytes) :=
  let a := (data.drop 4).take (ofBe (data.take 4))
  if data.length < 4 + ofBe (data.take 4) then .error "unexpected end of input"
  else
    match a with
    | [0] => .error "encoding error"
    | 0 :: b :: _ =>
      if b < 0x80 then .error "encoding error" else .ok (a, data.drop (4 + ofBe (data.take 4)))
    | _ => .ok (a, data.drop (4 + ofBe (data.take 4)))

def samplePositive : Bytes → Option Bytes
  | [] => none
  | b :: rest => if b = 0 then some rest else if b < 0x80 then some (b :: rest) else none

/-- Whether data are two positive integers. -/
def sampleChecks (data : Bytes) : Bool :=
  match sampleMpint data with
  | .error _ => false
  | .ok (a, rest) =>
    match sampleMpint rest with
    | .error _ => false
    | .ok (b, left) => left = [] ∧ (samplePositive a).isSome ∧ (samplePositive b).isSome

/-- Names are taken for algorithms, and a signature is its name and its bytes. -/
def sampleLibrary : SshKey String (String × Bytes) where
  algorithmNew name := .ok name
  signatureNew name data :=
    if (name = "ecdsa-sha2-nistp256" ∨ name = "ecdsa-sha2-nistp384") ∧ !sampleChecks data then
      .error "encoding error"
    else .ok (name, data)
  asBytes := Prod.snd
  mpintDecode := sampleMpint
  asPositiveBytes := samplePositive

theorem sampleMpint_spec {data a rest : Bytes} (h : sampleMpint data = .ok (a, rest)) :
    a.length < 2 ^ 32 ∧ data = sshString a ++ rest ∧ a ≠ [0] ∧
      ∀ b more, a = 0 :: b :: more → 0x80 ≤ b := by
  rw [sampleMpint] at h
  split at h
  · cases h
  next hlength =>
  have hnumber : ofBe (data.take 4) < 2 ^ 32 :=
    (ofBe_lt _).trans_le (Nat.pow_le_pow_right (by decide : 0 < 256) (List.length_take_le _ _))
  have htaken : ((data.drop 4).take (ofBe (data.take 4))).length = ofBe (data.take 4) := by
    rw [List.length_take_of_le]
    rw [List.length_drop]
    omega
  have hdata : data = sshString ((data.drop 4).take (ofBe (data.take 4))) ++
      data.drop (4 + ofBe (data.take 4)) := by
    have hfour : (data.take 4).length = 4 := List.length_take_of_le (by omega)
    rw [sshString, htaken, toBe_ofBe hfour, List.append_assoc, ← List.drop_drop,
      List.take_append_drop, List.take_append_drop]
  generalize ha : (data.drop 4).take (ofBe (data.take 4)) = a' at h htaken hdata
  split at h
  · cases h
  · next b more =>
    split at h
    · cases h
    · next hb =>
      cases h
      refine ⟨by omega, hdata, (fun h => by cases h), ?_⟩
      rintro b' more' hcons
      cases hcons
      exact UInt8.not_lt.mp hb
  · next hzero hpair =>
    cases h
    exact ⟨by omega, hdata, hzero, fun b more hcons => absurd hcons (hpair b more)⟩

theorem samplePositive_spec {a : Bytes} (h : (samplePositive a).isSome) :
    ∃ b rest, a = b :: rest ∧ b < 0x80 := by
  rcases a with _ | ⟨b, rest⟩
  · cases h
  · refine ⟨b, rest, rfl, ?_⟩
    rw [samplePositive] at h
    split at h
    · next hzero =>
      rw [hzero]
      decide
    split at h
    · next hsmall => exact hsmall
    · cases h

theorem sampleLibrary_documented : sampleLibrary.Documented where
  keeps := by
    intro algorithm data sig h
    dsimp only [sampleLibrary] at h
    split at h
    · cases h
    · cases h
      rfl
  ecdsa := by
    intro alg algorithm data sig halgorithm h
    have hname : algorithm = "ecdsa-sha2-nistp256" ∨ algorithm = "ecdsa-sha2-nistp384" := by
      cases halgorithm
      rw [ecdsaName]
      split
      · exact .inl rfl
      · exact .inr rfl
    have hchecks : sampleChecks data = true := by
      dsimp only [sampleLibrary] at h
      split at h
      · cases h
      · next hgood =>
        by_contra hbad
        exact hgood ⟨hname, by simpa using hbad⟩
    rw [sampleChecks] at hchecks
    split at hchecks
    · cases hchecks
    next a rest hfirst =>
    split at hchecks
    · cases hchecks
    next b left hsecond =>
    simp only [decide_eq_true_eq] at hchecks
    obtain ⟨rfl, ha, hb⟩ := hchecks
    exact ⟨a, b, rest, hfirst, hsecond, ha, hb⟩
  mpint := fun _ _ _ => sampleMpint_spec
  positive := fun _ => samplePositive_spec

/-- The signature of two integers whose bytes are all the same. -/
def sampleDer : Bytes :=
  [0x30, 0x44, 0x02, 0x20] ++ List.replicate 32 0x11 ++ [0x02, 0x20] ++ List.replicate 32 0x22

theorem reframings_agree_sample :
    derToRawRs (derSignature 1 2) 32 = .ok (toBe 32 1 ++ toBe 32 2) ∧
      Checked.Same (derToRawRs sampleDer 32) (agentToRawRs sampleDer 32) ∧
      ∃ r s, decodeDerEcdsaSignature sampleDer = .ok (r, s) ∧
        sshString (List.replicate 32 0x11) ++ sshString (List.replicate 32 0x22) =
          sshString r ++ sshString s ∧ PositiveMpint r ∧ PositiveMpint s := by
  obtain ⟨hvalues, hsame, hmpints⟩ := reframings_agree sampleLibrary_documented
  refine ⟨hvalues 32 1 2 (.inl rfl) le_rfl (by decide) (by decide) (by decide),
    hsame sampleDer 32 (by decide), ?_⟩
  exact hmpints .ecP256 sampleDer 0 ("ecdsa-sha2-nistp256",
    sshString (List.replicate 32 0x11) ++ sshString (List.replicate 32 0x22)) (.inl rfl)
    (by decide +kernel)

end Piggy.Agent
