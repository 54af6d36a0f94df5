import Piggy.Box.Template

/-!
# Eboxes: records and wire format

An ebox seals one key to the configs of a template. From version 2 on the
ephemeral keys stand once per curve at the head, and the parts carry their box
fields inline; earlier versions embed standalone boxes.
-/

namespace Piggy.Box

open Piggy.Core

/-- The kinds of ebox data. -/
inductive EboxType where
  | template
  | key
  | stream
  deriving DecidableEq

namespace EboxType

/-- The byte of an ebox type. -/
def toU8 : EboxType → UInt8
  | template => 1
  | key => 2
  | stream => 3

/-- The ebox type a byte stands for. -/
def fromU8 (v : UInt8) : Except BoxError EboxType :=
  if v = 1 then .ok template
  else if v = 2 then .ok key
  else if v = 3 then .ok stream
  else .error (.badEboxType v)

theorem fromU8_ok {v : UInt8} {t : EboxType} : fromU8 v = .ok t ↔ v = t.toU8 := by
  constructor
  · intro h
    unfold fromU8 at h
    split at h
    · cases h
      assumption
    · split at h
      · cases h
        assumption
      · split at h
        · cases h
          assumption
        · cases h
  · rintro rfl
    cases t <;> rfl

end EboxType

/-- An ephemeral key shared by the parts on one curve. -/
structure EphemeralKey where
  curve : EcCurve
  pubkey : Bytes
  deriving DecidableEq

/-- A part of an ebox: the template part's fields and the sealed box. -/
structure EboxPart where
  guid : Option Guid
  slot : UInt8
  name : Option String
  pubkey : Option Bytes
  pubkeyCurve : Option EcCurve
  cak : Option Bytes
  pivBox : PivBox
  deriving DecidableEq

/-- A config of an ebox. -/
structure EboxConfig where
  configType : EboxConfigType
  n : UInt8
  nonce : Bytes
  parts : List EboxPart
  deriving DecidableEq

/-- The number of parts, truncated to the byte it is written in. -/
def EboxConfig.m (c : EboxConfig) : UInt8 := UInt8.ofNat c.parts.length

/-- An ebox; the key is there once it is unlocked. -/
structure Ebox where
  version : UInt8
  eboxType : EboxType
  recoveryCipher : String
  recoveryIv : Bytes
  recoveryEnc : Bytes
  ephemeralKeys : List EphemeralKey
  configs : List EboxConfig
  key : Option Bytes
  deriving DecidableEq

/-! ## Writing -/

/-- Appends the fields of a box inline. -/
def putInlineBox (w : WireWriter) (b : PivBox) : Except BoxError WireWriter := do
  let w ← putCstring8 w b.cipher
  let w ← putCstring8 w b.kdf
  let w ← putString8 w b.nonce
  let w ← putCstring8 w b.curve.wireName
  let w ← putEckey8 w b.recipientPubkey
  let w ← putString8 w b.iv
  pure (putString w b.ciphertext)

/-- Appends the box of a part: inline from version 2 on, standalone before. -/
def putBox (w : WireWriter) (version : UInt8) (b : PivBox) : Except BoxError WireWriter :=
  if 2 ≤ version then putInlineBox w b
  else do
    let boxBytes ← b.toBytes
    pure (putRaw w boxBytes)

/-- Appends an ebox part. -/
def writeEboxPart (version : UInt8) (w : WireWriter) (part : EboxPart) :
    Except BoxError WireWriter := do
  let w ← putGuidTag w part.guid
  let w ← putNameTag w part.name
  let w := putCakTag w part.cak
  let w := putSlotTag w part.slot
  let w := putU8 w partBox
  let w ← putBox w version part.pivBox
  pure (putU8 w partEnd)

/-- Appends the nonce of a config; an empty one is a lone zero length. -/
def putConfigNonce (w : WireWriter) (nonce : Bytes) : Except BoxError WireWriter :=
  if nonce.isEmpty then .ok (putU8 w 0) else putString8 w nonce

/-- Appends an ebox config. -/
def writeEboxConfig (version : UInt8) (w : WireWriter) (config : EboxConfig) :
    Except BoxError WireWriter := do
  let w := putU8 w config.configType.toU8
  let w := putU8 w config.n
  let w := putU8 w config.m
  let w ← putConfigNonce w config.nonce
  putMany (writeEboxPart version) w config.parts

/-- Appends an ephemeral key. -/
def writeEphemeralKey (w : WireWriter) (ek : EphemeralKey) : Except BoxError WireWriter := do
  let w ← putCstring8 w ek.curve.wireName
  putEckey8 w ek.pubkey

/-- Appends the ephemeral keys, which version 1 does not have. -/
def writeEphemeralKeys (version : UInt8) (w : WireWriter) (eks : List EphemeralKey) :
    Except BoxError WireWriter :=
  if 2 ≤ version then
    putMany writeEphemeralKey (putU8 w (UInt8.ofNat eks.length)) eks
  else .ok w

/-- The serialization of an ebox. -/
def Ebox.toBytes (ebox : Ebox) : Except BoxError Bytes := do
  let w := putU8 [] (eboxMagic >>> 8).toUInt8
  let w := putU8 w (eboxMagic &&& 0xFF).toUInt8
  let w := putU8 w ebox.version
  let w := putU8 w ebox.eboxType.toU8
  let w ← putCstring8 w ebox.recoveryCipher
  let w ← putString8 w ebox.recoveryIv
  let w ← putString8 w ebox.recoveryEnc
  let w ← writeEphemeralKeys ebox.version w ebox.ephemeralKeys
  let w := putU8 w (UInt8.ofNat ebox.configs.length)
  putMany (writeEboxConfig ebox.version) w ebox.configs

/-! ## Reading -/

/-- Reads the fields of an inline box. The ephemeral key is left to the ebox. -/
def readInlineBox (r : WireReader) : Except BoxError (PartTag × WireReader) := do
  let (cipher, r) ← getCstring8 r
  let (kdf, r) ← getCstring8 r
  let (nonce, r) ← getString8 r
  let (curve, r) ← getCurve r
  let (recipientPubkey, r) ← getEckey8 r
  let (iv, r) ← getString8 r
  let (ciphertext, r) ← getString r
  let b : PivBox := { PivBox.new curve with
    cipher, kdf, nonce, recipientPubkey, ephemeralPubkey := [], iv, ciphertext }
  pure (.inlineBox b, r)

/-- Reads a standalone box from the unread bytes, and leaves the reader where it
stands. -/
def readRawBox (r : WireReader) : Except BoxError (PartTag × WireReader) := do
  let b ← PivBox.fromBytes r.rest
  pure (.rawBox b, r)

/-- Reads the box of a part. -/
def readBox (version : UInt8) (r : WireReader) : Except BoxError (PartTag × WireReader) :=
  if 2 ≤ version then readInlineBox r else readRawBox r

/-- Reads what stands behind a tag of an ebox part. -/
def readEboxPartTag (version : UInt8) : UInt8 → WireReader → Except BoxError (PartTag × WireReader) :=
  readPartTag "unknown ebox part tag" (some (readBox version))

/-- Reads an ebox part. -/
def readEboxPart (version : UInt8) (r : WireReader) : Except BoxError (EboxPart × WireReader) := do
  let (p, r) ← readPart (readEboxPartTag version) r
  match p.pivBox with
  | some pivBox =>
    .ok ({ guid := p.guid, slot := p.slot, name := p.name, pubkey := p.pubkey.map Prod.snd,
           pubkeyCurve := p.pubkey.map Prod.fst, cak := p.cak, pivBox }, r)
  | none => .error (.wire "ebox part missing BOX tag")

/-- Reads an ebox config. -/
def readEboxConfig (version : UInt8) (r : WireReader) :
    Except BoxError (EboxConfig × WireReader) := do
  let (raw, r) ← getU8 r
  let configType ← EboxConfigType.fromU8 raw
  let (n, r) ← getU8 r
  let (m, r) ← getU8 r
  let (nonce, r) ← getString8 r
  let (parts, r) ← getMany (readEboxPart version) m.toNat r
  pure ({ configType, n, nonce, parts }, r)

/-- Reads an ephemeral key. -/
def readEphemeralKey (r : WireReader) : Except BoxError (EphemeralKey × WireReader) := do
  let (curve, r) ← getCurve r
  let (pubkey, r) ← getEckey8 r
  pure ({ curve, pubkey }, r)

/-- Reads the ephemeral keys, which version 1 does not have. -/
def readEphemeralKeys (version : UInt8) (r : WireReader) :
    Except BoxError (List EphemeralKey × WireReader) :=
  if 2 ≤ version then do
    let (neeks, r) ← getU8 r
    getMany readEphemeralKey neeks.toNat r
  else .ok ([], r)

/-- Reads the type byte; a template is not an ebox. -/
def readEboxType (r : WireReader) : Except BoxError (EboxType × WireReader) := do
  let (raw, r) ← getU8 r
  let eboxType ← EboxType.fromU8 raw
  if eboxType = .template then .error (.badEboxType raw) else .ok (eboxType, r)

/-- Reads an ebox, of any version byte. -/
def Ebox.readFrom (r : WireReader) : Except BoxError (Ebox × WireReader) := do
  let ((), r) ← getMagic eboxMagic r
  let (version, r) ← getU8 r
  let (eboxType, r) ← readEboxType r
  let (recoveryCipher, r) ← getCstring8 r
  let (recoveryIv, r) ← getString8 r
  let (recoveryEnc, r) ← getString8 r
  let (ephemeralKeys, r) ← readEphemeralKeys version r
  let (nconfigs, r) ← getU8 r
  let (configs, r) ← getMany (readEboxConfig version) nconfigs.toNat r
  pure ({ version, eboxType, recoveryCipher, recoveryIv, recoveryEnc, ephemeralKeys, configs,
          key := none }, r)

/-- Parses an ebox; bytes behind it are ignored. -/
def Ebox.fromBytes (data : Bytes) : Except BoxError Ebox := do
  let (ebox, _) ← Ebox.readFrom (WireReader.new data)
  pure ebox

/-! ## Encodings -/

/-- The bytes of a part's box. -/
def boxBytes (version : UInt8) (b : PivBox) : Bytes :=
  if 2 ≤ version then b.inlineBytes else b.encoding

/-- The bytes of a part. -/
def EboxPart.encoding (version : UInt8) (p : EboxPart) : Bytes :=
  (fieldTags p.guid p.name p.cak p.slot).flatMap PartTag.bytes ++
    (partBox :: boxBytes version p.pivBox) ++ [partEnd]

/-- The bytes of a config. -/
def EboxConfig.encoding (version : UInt8) (c : EboxConfig) : Bytes :=
  [c.configType.toU8, c.n, c.m] ++ string8 c.nonce ++ c.parts.flatMap (EboxPart.encoding version)

/-- The bytes of an ephemeral key. -/
def EphemeralKey.encoding (ek : EphemeralKey) : Bytes :=
  cstring8 ek.curve.wireName ++ string8 ek.pubkey

/-- The bytes of the ephemeral keys. -/
def ephemeralBytes (version : UInt8) (eks : List EphemeralKey) : Bytes :=
  if 2 ≤ version then UInt8.ofNat eks.length :: eks.flatMap EphemeralKey.encoding else []

/-- The bytes of an ebox in front of its configs. -/
def Ebox.headBytes (e : Ebox) : Bytes :=
  magicBytes eboxMagic ++ ([e.version, e.eboxType.toU8] ++ (cstring8 e.recoveryCipher ++
    (string8 e.recoveryIv ++ (string8 e.recoveryEnc ++
      (ephemeralBytes e.version e.ephemeralKeys ++ [UInt8.ofNat e.configs.length])))))

/-- The bytes of an ebox. -/
def Ebox.encoding (e : Ebox) : Bytes :=
  e.headBytes ++ e.configs.flatMap (EboxConfig.encoding e.version)

/-- The parts that can be written. -/
structure EboxPart.Fits (p : EboxPart) : Prop where
  fields : FitsFields p.name p.cak
  pivBox : p.pivBox.Fits

/-- The configs that can be written. -/
structure EboxConfig.Fits (c : EboxConfig) : Prop where
  nonce : FitsString8 c.nonce
  parts : ∀ p ∈ c.parts, p.Fits

/-- The eboxes that can be written. -/
structure Ebox.Fits (e : Ebox) : Prop where
  recoveryCipher : FitsCstring8 e.recoveryCipher
  recoveryIv : FitsString8 e.recoveryIv
  recoveryEnc : FitsString8 e.recoveryEnc
  ephemeralKeys : ∀ ek ∈ e.ephemeralKeys, FitsString8 ek.pubkey
  configs : ∀ c ∈ e.configs, c.Fits

theorem putInlineBox_eq (w : WireWriter) {b : PivBox} (h : b.Fits) :
    putInlineBox w b = .ok (w ++ b.inlineBytes) := by
  simp only [putInlineBox, bind_ok, putEckey8, putCstring8_ok, putString8_ok, pure_ok,
    putString_eq _ h.ciphertext]
  refine ⟨_, ⟨h.cipher, rfl⟩, _, ⟨h.kdf, rfl⟩, _, ⟨h.nonce, rfl⟩, _,
    ⟨b.curve.fitsCstring8_wireName, rfl⟩, _, ⟨h.recipientPubkey, rfl⟩, _, ⟨h.iv, rfl⟩, ?_⟩
  simp [PivBox.inlineBytes]

theorem putBox_eq (w : WireWriter) (version : UInt8) {b : PivBox} (h : b.Fits) :
    putBox w version b = .ok (w ++ boxBytes version b) := by
  unfold putBox boxBytes
  split
  · exact putInlineBox_eq w h
  · rw [PivBox.toBytes_of_fits h, ok_bind]
    rfl

/-- A part that fits is appended as its encoding. -/
theorem writeEboxPart_eq (version : UInt8) {p : EboxPart} (h : p.Fits) (w : WireWriter) :
    writeEboxPart version w p = .ok (w ++ p.encoding version) := by
  simp only [writeEboxPart, putGuidTag_eq, putNameTag_eq _ h.fields.name,
    putCakTag_eq _ h.fields.cak, putSlotTag_eq, putBox_eq _ _ h.pivBox, ok_bind]
  simp [EboxPart.encoding, fieldTags, putU8, pure, Except.pure]

/-- A config that fits is appended as its encoding. -/
theorem writeEboxConfig_eq (version : UInt8) {c : EboxConfig} (h : c.Fits) (w : WireWriter) :
    writeEboxConfig version w c = .ok (w ++ c.encoding version) := by
  have hn : ∀ w, putConfigNonce w c.nonce = .ok (w ++ string8 c.nonce) := by
    intro w
    unfold putConfigNonce
    split
    · next he =>
      rw [List.isEmpty_iff.mp he]
      rfl
    · exact putString8_ok.mpr ⟨h.nonce, rfl⟩
  have hp : ∀ p ∈ c.parts, ∀ w, writeEboxPart version w p = .ok (w ++ p.encoding version) :=
    fun p hp => writeEboxPart_eq version (h.parts p hp)
  simp only [writeEboxConfig, hn, ok_bind, putMany_of hp]
  simp [EboxConfig.encoding, putU8]

theorem writeEphemeralKeys_eq (version : UInt8) {eks : List EphemeralKey}
    (h : ∀ ek ∈ eks, FitsString8 ek.pubkey) (w : WireWriter) :
    writeEphemeralKeys version w eks = .ok (w ++ ephemeralBytes version eks) := by
  have hk : ∀ ek ∈ eks, ∀ w, writeEphemeralKey w ek = .ok (w ++ ek.encoding) := by
    intro ek hek w
    simp only [writeEphemeralKey, bind_ok, putCstring8_ok, putEckey8, putString8_ok]
    refine ⟨_, ⟨ek.curve.fitsCstring8_wireName, rfl⟩, h ek hek, ?_⟩
    simp [EphemeralKey.encoding]
  unfold writeEphemeralKeys ephemeralBytes
  split
  · rw [putMany_of hk]
    simp [putU8]
  · simp

/-- An ebox that fits serializes to its encoding. -/
theorem Ebox.toBytes_of_fits {e : Ebox} (h : e.Fits) : e.toBytes = .ok e.encoding := by
  have hc : ∀ c ∈ e.configs, ∀ w, writeEboxConfig e.version w c = .ok (w ++ c.encoding e.version) :=
    fun c hc => writeEboxConfig_eq e.version (h.configs c hc)
  simp only [Ebox.toBytes, bind_ok, putCstring8_ok, putString8_ok,
    writeEphemeralKeys_eq _ h.ephemeralKeys, putMany_of hc]
  refine ⟨_, ⟨h.recoveryCipher, rfl⟩, _, ⟨h.recoveryIv, rfl⟩, _, ⟨h.recoveryEnc, rfl⟩, _, rfl, ?_⟩
  simp [Ebox.encoding, Ebox.headBytes, putU8, magicBytes]

/-! ## Reading back -/

/-- A box as the inline reader returns it: the ephemeral key is left to the ebox. -/
def PivBox.asRead (b : PivBox) : PivBox :=
  { PivBox.new b.curve with
    cipher := b.cipher, kdf := b.kdf, nonce := b.nonce, recipientPubkey := b.recipientPubkey,
    ephemeralPubkey := [], iv := b.iv, ciphertext := b.ciphertext }

/-- A part as the reader returns it: the key mirror is dropped, and the guid of the
box is the part's. -/
def EboxPart.asRead (p : EboxPart) : EboxPart :=
  { p with
    pubkey := none, pubkeyCurve := none,
    pivBox := { p.pivBox.asRead with guidSlot := p.guid.map fun g => (g, p.slot) } }

/-- A config as the reader returns it. -/
def EboxConfig.asRead (c : EboxConfig) : EboxConfig :=
  { c with parts := c.parts.map EboxPart.asRead }

/-- An ebox as the reader returns it: locked. -/
def Ebox.asRead (e : Ebox) : Ebox :=
  { e with configs := e.configs.map EboxConfig.asRead, key := none }

theorem readInlineBox_reads {b : PivBox} (h : b.Fits) :
    Reads readInlineBox b.inlineBytes (.inlineBox b.asRead) := by
  intro pos tail
  simp only [readInlineBox, PivBox.inlineBytes, List.append_assoc,
    getCstring8_exact.reads h.cipher _ _, getCstring8_exact.reads h.kdf _ _,
    getString8_exact.reads h.nonce _ _, getCurve_exact.reads trivial _ _, getEckey8,
    getString8_exact.reads h.recipientPubkey _ _, getString8_exact.reads h.iv _ _,
    getString_exact.reads h.ciphertext _ _, ok_bind, List.length_append, Nat.add_assoc]
  rfl

/-- A tag as the reader returns it. -/
def PartTag.asRead : PartTag → PartTag
  | .inlineBox b => .inlineBox b.asRead
  | t => t

/-- The tags a part is written as from version 2 on. -/
def EboxPart.tags (p : EboxPart) : List PartTag :=
  fieldTags p.guid p.name p.cak p.slot ++ [.inlineBox p.pivBox]

private theorem asRead_of_isField {t : PartTag} (h : t.IsField) : t.asRead = t := by
  cases t <;> first | rfl | exact h.elim

private theorem readEboxPartTag_reads {version : UInt8} (hv : 2 ≤ version) {p : EboxPart}
    (h : p.Fits) {t : PartTag} (ht : t ∈ p.tags) :
    t.byte ≠ partEnd ∧ Reads (readEboxPartTag version t.byte) t.payload t.asRead := by
  rcases List.mem_append.mp ht with ht | ht
  · obtain ⟨hf, hfits, hb⟩ := fieldTags_fits h.fields ht
    rw [asRead_of_isField hf]
    exact ⟨hb, readPartTag_reads _ _ hf hfits⟩
  · obtain rfl := List.mem_singleton.mp ht
    refine ⟨(by decide : partBox ≠ partEnd), ?_⟩
    intro pos tail
    change readPartTag _ _ partBox _ = _
    rw [readPartTag_partBox, readBox, if_pos hv]
    exact readInlineBox_reads h.pivBox pos tail

private theorem foldl_written (p : EboxPart) (h : p.Fits) :
    (p.tags.map PartTag.asRead).foldl PartLocals.assign {} =
    { guid := p.guid, name := p.name, cak := p.cak, slot := p.slot,
      pivBox := some p.asRead.pivBox } := by
  have hmap : (fieldTags p.guid p.name p.cak p.slot).map PartTag.asRead =
      fieldTags p.guid p.name p.cak p.slot := by
    refine (List.map_congr_left fun t ht => ?_).trans (List.map_id _)
    exact asRead_of_isField (fieldTags_fits h.fields ht).1
  rw [EboxPart.tags, List.map_append, hmap, List.foldl_append, foldl_fieldTags]
  rfl

/-- A written part is read back. -/
theorem readEboxPart_reads {version : UInt8} (hv : 2 ≤ version) {p : EboxPart} (h : p.Fits) :
    Reads (readEboxPart version) (p.encoding version) p.asRead := by
  intro pos tail
  have henc : p.encoding version = p.tags.flatMap PartTag.bytes ++ [partEnd] := by
    simp [EboxPart.encoding, EboxPart.tags, boxBytes, hv, PartTag.bytes, PartTag.byte,
      PartTag.payload]
  have hread := readPart_reads (fun t ht => readEboxPartTag_reads hv h ht) pos tail
  rw [foldl_written p h, ← henc] at hread
  rw [readEboxPart, hread, ok_bind]
  rfl

/-- A config with as many parts as its count byte says. -/
def EboxConfig.counted (c : EboxConfig) : EboxConfig :=
  { c with parts := c.parts.take c.m.toNat }

/-- The bytes of a config up to the last part its count byte covers. -/
def EboxConfig.countedBytes (version : UInt8) (c : EboxConfig) : Bytes :=
  [c.configType.toU8] ++ ([c.n] ++ ([c.m] ++
    (string8 c.nonce ++ (c.parts.take c.m.toNat).flatMap (EboxPart.encoding version))))

theorem EboxConfig.toNat_m_le (c : EboxConfig) : c.m.toNat ≤ c.parts.length := by
  rw [EboxConfig.m, UInt8.toNat_ofNat']
  exact Nat.mod_le _ _

/-- The parts beyond the count byte stand behind the bytes it covers. -/
theorem EboxConfig.encoding_eq_counted (version : UInt8) (c : EboxConfig) :
    c.encoding version = c.countedBytes version ++
      (c.parts.drop c.m.toNat).flatMap (EboxPart.encoding version) := by
  have hp : c.parts.flatMap (EboxPart.encoding version) =
      (c.parts.take c.m.toNat).flatMap (EboxPart.encoding version) ++
        (c.parts.drop c.m.toNat).flatMap (EboxPart.encoding version) := by
    rw [← List.flatMap_append, List.take_append_drop]
  simp [EboxConfig.encoding, EboxConfig.countedBytes, hp]

/-- A written config is read back up to the part its count byte says. -/
theorem readEboxConfig_counted {version : UInt8} (hv : 2 ≤ version) {c : EboxConfig}
    (h : c.Fits) :
    Reads (readEboxConfig version) (c.countedBytes version) c.counted.asRead := by
  intro pos tail
  have hcount : (c.parts.take c.m.toNat).length = c.m.toNat :=
    List.length_take_of_le c.toNat_m_le
  have hparts := getMany_reads fun p (hp : p ∈ c.parts.take c.m.toNat) =>
    readEboxPart_reads hv (h.parts p (List.mem_of_mem_take hp))
  rw [hcount] at hparts
  have hu := fun v : UInt8 => getU8_exact.reads (a := v) trivial
  simp only [readEboxConfig, EboxConfig.countedBytes, List.append_assoc, hu _ _ _, ok_bind,
    EboxConfigType.fromU8_ok.mpr rfl, getString8_exact.reads h.nonce _ _, hparts _ _,
    List.length_append, Nat.add_assoc]
  rfl

/-- A written config with few enough parts is read back whole. -/
theorem readEboxConfig_reads {version : UInt8} (hv : 2 ≤ version) {c : EboxConfig} (h : c.Fits)
    (hm : c.parts.length ≤ 255) :
    Reads (readEboxConfig version) (c.encoding version) c.asRead := by
  have hcount : c.m.toNat = c.parts.length :=
    UInt8.toNat_ofNat_of_lt' (by omega : c.parts.length < 256)
  have hread := readEboxConfig_counted hv h
  have hall : c.counted = c := by
    rw [EboxConfig.counted, hcount, List.take_length]
  have henc : c.countedBytes version = c.encoding version := by
    rw [c.encoding_eq_counted, hcount, List.drop_length, List.flatMap_nil, List.append_nil]
  rwa [hall, henc] at hread

private theorem readEphemeralKeys_reads (version : UInt8) {eks : List EphemeralKey}
    (h : ∀ ek ∈ eks, FitsString8 ek.pubkey) (hl : eks.length ≤ 255) (hv : 2 ≤ version) :
    Reads (readEphemeralKeys version) (ephemeralBytes version eks) eks := by
  intro pos tail
  have hk : ∀ ek ∈ eks, Reads readEphemeralKey ek.encoding (id ek) := by
    intro ek hek pos tail
    simp only [readEphemeralKey, EphemeralKey.encoding, List.append_assoc,
      getCurve_exact.reads trivial _ _, ok_bind, getEckey8, getString8_exact.reads (h ek hek) _ _,
      List.length_append, Nat.add_assoc]
    rfl
  have hcount : (UInt8.ofNat eks.length).toNat = eks.length :=
    UInt8.toNat_ofNat_of_lt' (by omega : eks.length < 256)
  have hkeys := getMany_reads hk
  have hu := fun v : UInt8 => getU8_exact.reads (a := v) trivial
  rw [readEphemeralKeys, if_pos hv, ephemeralBytes, if_pos hv, ← List.singleton_append]
  simp only [List.append_assoc, hu _ _ _, ok_bind, hcount, hkeys _ _, List.map_id,
    List.length_append, Nat.add_assoc]

/-- Reading the configs is all that is left behind the head of a written ebox. -/
theorem Ebox.readFrom_head {e : Ebox} (hv : 2 ≤ e.version) (ht : e.eboxType ≠ .template)
    (h : e.Fits) (hek : e.ephemeralKeys.length ≤ 255) (hc : e.configs.length ≤ 255)
    (pos : Nat) (tail : Bytes) :
    Ebox.readFrom ⟨pos, e.headBytes ++ tail⟩ =
      (getMany (readEboxConfig e.version) e.configs.length ⟨pos + e.headBytes.length, tail⟩ >>=
        fun x => pure ({ e with configs := x.1, key := none }, x.2)) := by
  have hmagic : Reads (getMagic eboxMagic) (magicBytes eboxMagic) () :=
    (getMagic_exact eboxMagic).reads trivial
  have hu := fun v : UInt8 => getU8_exact.reads (a := v) trivial
  have hcount : (UInt8.ofNat e.configs.length).toNat = e.configs.length :=
    UInt8.toNat_ofNat_of_lt' (by omega : e.configs.length < 256)
  have hty : ∀ pos tail, readEboxType ⟨pos, [e.eboxType.toU8] ++ tail⟩ =
      .ok (e.eboxType, ⟨pos + 1, tail⟩) := by
    intro pos tail
    simp only [readEboxType, hu _ _ _, ok_bind, EboxType.fromU8_ok.mpr rfl, if_neg ht]
    rfl
  have henc : e.headBytes = magicBytes eboxMagic ++ ([e.version] ++ ([e.eboxType.toU8] ++
      (cstring8 e.recoveryCipher ++ (string8 e.recoveryIv ++ (string8 e.recoveryEnc ++
        (ephemeralBytes e.version e.ephemeralKeys ++ [UInt8.ofNat e.configs.length])))))) := rfl
  simp only [Ebox.readFrom, henc, List.append_assoc, hmagic _ _, hu _ _ _, hty _ _, getCstring8_exact.reads h.recoveryCipher _ _,
    getString8_exact.reads h.recoveryIv _ _, getString8_exact.reads h.recoveryEnc _ _,
    readEphemeralKeys_reads e.version h.ephemeralKeys hek hv _ _, ok_bind, hcount,
    List.length_append, List.length_singleton, Nat.add_assoc]

/-- A written ebox is read back. -/
theorem Ebox.readFrom_reads {e : Ebox} (hv : 2 ≤ e.version) (ht : e.eboxType ≠ .template)
    (h : e.Fits) (hek : e.ephemeralKeys.length ≤ 255) (hc : e.configs.length ≤ 255)
    (hp : ∀ c ∈ e.configs, c.parts.length ≤ 255) :
    Reads Ebox.readFrom e.encoding e.asRead := by
  intro pos tail
  have hconfigs := getMany_reads fun c hc => readEboxConfig_reads hv (h.configs c hc) (hp c hc)
  rw [Ebox.encoding, List.append_assoc, Ebox.readFrom_head hv ht h hek hc, hconfigs, ok_bind,
    List.length_append, Nat.add_assoc]
  rfl

/-- An ebox with one config is read back up to the part the count byte says. -/
theorem Ebox.fromBytes_single {e : Ebox} {c : EboxConfig} (hcs : e.configs = [c])
    (hv : 2 ≤ e.version) (ht : e.eboxType ≠ .template) (h : e.Fits)
    (hek : e.ephemeralKeys.length ≤ 255) :
    Ebox.fromBytes e.encoding = .ok { e with configs := [c.counted.asRead], key := none } := by
  have hfits := h.configs c (by simp [hcs])
  have hlist : e.configs.flatMap (EboxConfig.encoding e.version) = c.countedBytes e.version ++
      (c.parts.drop c.m.toNat).flatMap (EboxPart.encoding e.version) := by
    rw [hcs, List.flatMap_singleton, c.encoding_eq_counted]
  have hlen : e.configs.length = 1 := by rw [hcs, List.length_singleton]
  rw [Ebox.fromBytes, Ebox.encoding, WireReader.new,
    Ebox.readFrom_head hv ht h hek (by omega), hlen, hlist]
  simp only [getMany, readEboxConfig_counted hv hfits _ _, ok_bind]
  rfl

/-- What is written with the type of a template is not read back. -/
theorem Ebox.fromBytes_template {e : Ebox} (ht : e.eboxType = .template) :
    Ebox.fromBytes e.encoding = .error (.badEboxType EboxType.template.toU8) := by
  have hmagic : Reads (getMagic eboxMagic) (magicBytes eboxMagic) () :=
    (getMagic_exact eboxMagic).reads trivial
  simp only [Ebox.fromBytes, Ebox.readFrom, Ebox.encoding, Ebox.headBytes, WireReader.new,
    List.append_assoc, hmagic _ _, ok_bind, readEboxType, ht]
  rfl

/-- What is read back from a written ebox can be written again. -/
theorem Ebox.Fits.asRead {e : Ebox} (h : e.Fits) : e.asRead.Fits := by
  refine ⟨h.recoveryCipher, h.recoveryIv, h.recoveryEnc, h.ephemeralKeys, ?_⟩
  intro c' hc'
  obtain ⟨c, hc, rfl⟩ := List.mem_map.mp hc'
  refine ⟨(h.configs c hc).nonce, ?_⟩
  intro p' hp'
  obtain ⟨p, hp, rfl⟩ := List.mem_map.mp hp'
  obtain ⟨hf, hb⟩ := (h.configs c hc).parts p hp
  exact ⟨hf, ⟨hb.cipher, hb.kdf, hb.nonce, hb.recipientPubkey, Nat.zero_le _, hb.iv,
    hb.ciphertext⟩⟩

/-- What is read back from a written ebox is written as the same bytes. -/
theorem Ebox.encoding_asRead {e : Ebox} (hv : 2 ≤ e.version) : e.asRead.encoding = e.encoding := by
  have hpart : ∀ p : EboxPart, p.asRead.encoding e.version = p.encoding e.version := by
    intro p
    simp only [EboxPart.encoding, boxBytes, if_pos hv]
    rfl
  have hconfig : ∀ c : EboxConfig, c.asRead.encoding e.version = c.encoding e.version := by
    intro c
    simp [EboxConfig.encoding, EboxConfig.asRead, EboxConfig.m, List.flatMap_map, hpart]
  simp [Ebox.encoding, Ebox.headBytes, Ebox.asRead, List.flatMap_map, hconfig]

/-! ## Eboxes are read locked -/

/-- A box is read without contents, inline or standalone. -/
private theorem readBox_closed {version : UInt8} {r r' : WireReader} {t : PartTag}
    (h : readBox version r = .ok (t, r')) :
    ∃ b : PivBox, (t = .inlineBox b ∨ t = .rawBox b) ∧ b.plaintext = none := by
  rw [readBox] at h
  by_cases hv : 2 ≤ version
  · rw [if_pos hv] at h
    simp only [readInlineBox, bind_ok, pure_ok, Prod.mk.injEq] at h
    obtain ⟨_, -, _, -, _, -, _, -, _, -, _, -, _, -, rfl, -⟩ := h
    exact ⟨_, Or.inl rfl, rfl⟩
  · rw [if_neg hv] at h
    simp only [readRawBox, bind_ok, pure_ok, Prod.mk.injEq] at h
    obtain ⟨b, hb, rfl, -⟩ := h
    refine ⟨b, Or.inr rfl, ?_⟩
    simp only [PivBox.fromBytes, bind_ok, guard_ok, pure_ok] at hb
    obtain ⟨_, -, _, -, -, _, -, _, -, _, -, _, -, _, -, _, -, _, -, _, -, _, -, rfl⟩ := hb
    rfl

/-- No box with contents among the local variables. -/
def PartLocals.Closed (p : PartLocals) : Prop := ∀ b ∈ p.pivBox, b.plaintext = none

private theorem readEboxPart_closed {version : UInt8} {r r' : WireReader} {part : EboxPart}
    (h : readEboxPart version r = .ok (part, r')) : part.pivBox.plaintext = none := by
  simp only [readEboxPart, bind_ok] at h
  obtain ⟨⟨p, r₁⟩, hp, h⟩ := h
  have hinit : PartLocals.Closed {} := by simp [PartLocals.Closed]
  have hclosed : p.Closed := by
    refine readPart_invariant hinit ?_ hp
    intro tag r t r' p ht hinv
    rcases readPartTag_inv ht with ⟨hbox, -, -⟩ | ⟨read, hread, hbox⟩
    · cases t with
      | inlineBox b => exact hbox.elim
      | rawBox b => exact hbox.elim
      | _ => exact hinv
    · obtain rfl := Option.mem_some_iff.mp hread
      obtain ⟨b, rfl | rfl, hb⟩ := readBox_closed hbox
      · intro b' hb'
        obtain rfl := Option.mem_some_iff.mp hb'
        exact hb
      · intro b' hb'
        obtain rfl := Option.mem_some_iff.mp hb'
        exact hb
  rcases hb : p.pivBox with _ | b
  · simp only [hb] at h
    cases h
  · simp only [hb] at h
    cases h
    exact hclosed b hb

/-- An ebox is read without its key and without the contents of its boxes. -/
theorem Ebox.fromBytes_locked {data : Bytes} {e : Ebox} (h : Ebox.fromBytes data = .ok e) :
    e.key = none ∧ ∀ c ∈ e.configs, ∀ part ∈ c.parts, part.pivBox.plaintext = none := by
  simp only [Ebox.fromBytes, Ebox.readFrom, bind_ok, pure_ok] at h
  obtain ⟨⟨_, _⟩, ⟨_, -, ⟨version, _⟩, -, _, -, _, -, _, -, _, -, _, -, _, -, ⟨configs, _⟩,
    hconfigs, hpair⟩, rfl⟩ := h
  cases hpair
  refine ⟨rfl, (getMany_forall ?_ hconfigs).2⟩
  intro r c r' hc part hpart
  simp only [readEboxConfig, bind_ok, pure_ok] at hc
  obtain ⟨_, -, _, -, _, -, _, -, _, -, ⟨parts, _⟩, hparts, hpair⟩ := hc
  cases hpair
  exact (getMany_forall (fun _ _ _ => readEboxPart_closed) hparts).2 part hpart

end Piggy.Box
