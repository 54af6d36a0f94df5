import Piggy.Box.Ebox

/-!
# Ebox round trip

An ebox of version 2 or later is read back from its own serialization, whatever
follows it, as the ebox with the fields the wire does not carry set to what the
reader puts in their place. The writer accepts more than the reader can give back:
the length of a `string` is truncated to its 32 bits.
-/

namespace Piggy.Box

open Piggy.Core

/-- The box fields that an inline box bounds. -/
theorem putInlineBox_asRead {w w' : WireWriter} {b : PivBox} (h : putInlineBox w b = .ok w')
    (hct : FitsString b.ciphertext) : b.asRead.Fits := by
  simp only [putInlineBox, bind_ok, putEckey8, putCstring8_ok, putString8_ok] at h
  obtain ⟨_, ⟨hcipher, -⟩, _, ⟨hkdf, -⟩, _, ⟨hnonce, -⟩, _, -, _, ⟨hrecipient, -⟩, _, ⟨hiv, -⟩, -⟩ := h
  exact ⟨hcipher, hkdf, hnonce, hrecipient, Nat.zero_le _, hiv, hct⟩

/-- A part that was written fits as the reader returns it. -/
theorem writeEboxPart_asRead {version : UInt8} (hv : 2 ≤ version) {w w' : WireWriter}
    {p : EboxPart} (h : writeEboxPart version w p = .ok w') (hcak : ∀ k ∈ p.cak, FitsString k)
    (hct : FitsString p.pivBox.ciphertext) : p.asRead.Fits := by
  simp only [writeEboxPart, bind_ok, putBox, if_pos hv] at h
  obtain ⟨_, -, _, hname, _, hbox, -⟩ := h
  have hn : ∀ n ∈ p.name, FitsCstring8 n := by
    intro n hn
    rw [Option.mem_def.mp hn, putNameTag, putCstring8_ok] at hname
    exact hname.1
  have hb := putInlineBox_asRead hbox hct
  exact ⟨⟨hn, hcak⟩, ⟨hb.cipher, hb.kdf, hb.nonce, hb.recipientPubkey, hb.ephemeralPubkey, hb.iv,
    hb.ciphertext⟩⟩

/-- The nonce of a config that was written fits. -/
private theorem putConfigNonce_fits {w w' : WireWriter} {nonce : Bytes}
    (h : putConfigNonce w nonce = .ok w') : FitsString8 nonce := by
  rw [putConfigNonce] at h
  split at h
  · next he =>
    rw [List.isEmpty_iff.mp he]
    exact Nat.zero_le _
  · exact (putString8_ok.mp h).1

/-- The parts of an ebox whose 32-bit lengths are not truncated. -/
def Ebox.FitsStrings (e : Ebox) : Prop :=
  ∀ c ∈ e.configs, ∀ p ∈ c.parts, (∀ k ∈ p.cak, FitsString k) ∧ FitsString p.pivBox.ciphertext

/-- The ephemeral keys that were written fit. -/
private theorem writeEphemeralKeys_fits {version : UInt8} (hv : 2 ≤ version) {w w' : WireWriter}
    {eks : List EphemeralKey} (h : writeEphemeralKeys version w eks = .ok w') :
    ∀ ek ∈ eks, FitsString8 ek.pubkey := by
  intro ek hek
  rw [writeEphemeralKeys, if_pos hv] at h
  obtain ⟨v, v', hput⟩ := putMany_written h hek
  simp only [writeEphemeralKey, bind_ok, putEckey8, putString8_ok] at hput
  obtain ⟨_, -, hfits, -⟩ := hput
  exact hfits

/-- An ebox that was written fits as the reader returns it. -/
theorem Ebox.asRead_fits {e : Ebox} (hv : 2 ≤ e.version) {b : Bytes} (h : e.toBytes = .ok b)
    (hs : e.FitsStrings) : e.asRead.Fits := by
  simp only [Ebox.toBytes, bind_ok, putCstring8_ok, putString8_ok] at h
  obtain ⟨_, ⟨hcipher, -⟩, _, ⟨hiv, -⟩, _, ⟨henc, -⟩, _, hkeys, hconfigs⟩ := h
  refine ⟨hcipher, hiv, henc, writeEphemeralKeys_fits hv hkeys, ?_⟩
  intro c' hc'
  obtain ⟨c, hc, rfl⟩ := List.mem_map.mp hc'
  obtain ⟨v, v', hput⟩ := putMany_written hconfigs hc
  simp only [writeEboxConfig, bind_ok] at hput
  obtain ⟨_, hnonce, hparts⟩ := hput
  refine ⟨putConfigNonce_fits hnonce, ?_⟩
  intro p' hp'
  obtain ⟨p, hp, rfl⟩ := List.mem_map.mp hp'
  obtain ⟨_, _, hpart⟩ := putMany_written hparts hp
  exact writeEboxPart_asRead hv hpart (hs c hc p hp).1 (hs c hc p hp).2

/-- What the reader drops, the writer did not look at. -/
theorem Ebox.toBytes_asRead {e : Ebox} (hv : 2 ≤ e.version) : e.asRead.toBytes = e.toBytes := by
  have hpart : ∀ w p, writeEboxPart e.version w (EboxPart.asRead p) =
      writeEboxPart e.version w p := by
    intro w p
    simp only [writeEboxPart, putBox, if_pos hv]
    rfl
  have hconfig : ∀ w c, writeEboxConfig e.version w (EboxConfig.asRead c) =
      writeEboxConfig e.version w c := by
    intro w c
    have hm : c.asRead.m = c.m := by simp [EboxConfig.m, EboxConfig.asRead]
    simp only [writeEboxConfig, hm]
    simp only [EboxConfig.asRead, putMany_map hpart]
  have hl : e.asRead.configs.length = e.configs.length := by simp [Ebox.asRead]
  simp only [Ebox.toBytes, hl]
  simp only [Ebox.asRead, putMany_map hconfig]

/-- Reading a second time drops nothing more. -/
theorem Ebox.asRead_asRead (e : Ebox) : e.asRead.asRead = e.asRead := by
  have hconfig : ∀ c : EboxConfig, c.asRead.asRead = c.asRead := by
    intro c
    simp only [EboxConfig.asRead, List.map_map]
    rfl
  simp [Ebox.asRead, List.map_map, hconfig]

/-- An ebox is read back from its serialization, with the fields the wire does not
carry dropped, and serializes to the same bytes again. -/
theorem Ebox.readFrom_toBytes {e : Ebox} {b : Bytes} (hv : e.version = 2 ∨ e.version = 3)
    (ht : e.eboxType ≠ .template) (hek : e.ephemeralKeys.length ≤ 255)
    (hc : e.configs.length ≤ 255) (hp : ∀ c ∈ e.configs, c.parts.length ≤ 255)
    (hs : e.FitsStrings) (h : e.toBytes = .ok b) :
    Reads Ebox.readFrom b e.asRead ∧ e.asRead.toBytes = .ok b := by
  have hv' : 2 ≤ e.version := by
    rcases hv with hv | hv <;> rw [hv] <;> decide
  have hagain : e.asRead.toBytes = .ok b := by rw [Ebox.toBytes_asRead hv', h]
  have hfits := Ebox.asRead_fits hv' h hs
  have hb : e.asRead.encoding = b := by
    have hw := Ebox.toBytes_of_fits hfits
    rw [hagain] at hw
    exact (Except.ok.inj hw).symm
  have hread := Ebox.readFrom_reads (e := e.asRead) hv' ht hfits hek (by simpa [Ebox.asRead] using hc)
    (by
      intro c' hc'
      obtain ⟨c, hc, rfl⟩ := List.mem_map.mp hc'
      simpa [EboxConfig.asRead] using hp c hc)
  rw [hb, Ebox.asRead_asRead] at hread
  exact ⟨hread, hagain⟩

/-- A part with every optional field, whose box is of the given version. -/
def sampleWirePart (boxVersion : UInt8) : EboxPart where
  guid := some ⟨List.replicate 16 0xA5, rfl⟩
  slot := 0x9C
  name := some "laptop"
  pubkey := some [0x04, 0x01]
  pubkeyCurve := some .nistP256
  cak := some [0x10, 0x20]
  pivBox := { PivBox.new .nistP384 with
    version := boxVersion, nonce := [1, 2], recipientPubkey := [0x04, 0x01],
    ephemeralPubkey := [0x04, 0x02], iv := [3], ciphertext := [7, 8, 9], plaintext := some [0] }

/-- An unlocked ebox with one ephemeral key and one part. -/
def sampleWireEbox (boxVersion : UInt8) : Ebox where
  version := 3
  eboxType := .stream
  recoveryCipher := ""
  recoveryIv := []
  recoveryEnc := []
  ephemeralKeys := [⟨.nistP384, [0x04, 0x02]⟩]
  configs := [⟨.primary, 1, [], [sampleWirePart boxVersion]⟩]
  key := some [5]

theorem sampleWireEbox_fits (boxVersion : UInt8) : (sampleWireEbox boxVersion).Fits where
  recoveryCipher := (by decide : FitsCstring8 "")
  recoveryIv := Nat.zero_le _
  recoveryEnc := Nat.zero_le _
  ephemeralKeys := by simp [sampleWireEbox, FitsString8]
  configs := by
    intro c hc
    obtain rfl := List.mem_singleton.mp hc
    refine ⟨Nat.zero_le _, ?_⟩
    intro p hp
    obtain rfl := List.mem_singleton.mp hp
    refine ⟨⟨?_, ?_⟩, ⟨?_, ?_, ?_, ?_, ?_, ?_, ?_⟩⟩ <;>
      simp [sampleWirePart, PivBox.new, FitsString8, FitsString] <;> decide

theorem readFrom_toBytes_sampleWireEbox :
    Reads Ebox.readFrom (sampleWireEbox 2).encoding (sampleWireEbox 2).asRead ∧
      (sampleWireEbox 2).asRead.toBytes = .ok (sampleWireEbox 2).encoding := by
  refine Ebox.readFrom_toBytes (Or.inr rfl) (by decide) (by decide) (by decide) ?_ ?_
    (Ebox.toBytes_of_fits (sampleWireEbox_fits 2))
  · simp [sampleWireEbox]
  · simp [Ebox.FitsStrings, sampleWireEbox, sampleWirePart, FitsString]

/-- A part without the mirrored key, the ephemeral key and the contents of its box, and
with the box's guid and slot taken from the part. -/
def EboxPart.unmirrored (p : EboxPart) : EboxPart :=
  { p with
    pubkey := none, pubkeyCurve := none,
    pivBox := { p.pivBox with
      ephemeralPubkey := [], plaintext := none, guidSlot := p.guid.map fun g => (g, p.slot) } }

/-- An ebox with its parts unmirrored and without its key. -/
def Ebox.unmirrored (e : Ebox) : Ebox :=
  { e with
    configs := e.configs.map fun c => { c with parts := c.parts.map EboxPart.unmirrored }
    key := none }

/-- The version of a box is not carried either: the reader makes every box a box of
version 2. -/
theorem not_reads_unmirrored_boxVersionOne :
    (sampleWireEbox 1).toBytes = .ok (sampleWireEbox 1).encoding ∧
      ¬ Reads Ebox.readFrom (sampleWireEbox 1).encoding (sampleWireEbox 1).unmirrored := by
  refine ⟨Ebox.toBytes_of_fits (sampleWireEbox_fits 1), ?_⟩
  intro h
  have hread := Ebox.readFrom_reads (e := sampleWireEbox 1) (by decide) (by decide)
    (sampleWireEbox_fits 1) (by decide) (by decide) (by simp [sampleWireEbox])
  have heq := (hread 0 []).symm.trans (h 0 [])
  have hne : (sampleWireEbox 1).asRead ≠ (sampleWireEbox 1).unmirrored := by decide
  exact hne (congrArg Prod.fst (Except.ok.inj heq))

end Piggy.Box
