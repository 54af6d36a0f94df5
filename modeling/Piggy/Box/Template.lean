import Piggy.Box.Part

/-!
# Ebox templates

A template names the keys an ebox is to be sealed to, as configs of parts.
-/

namespace Piggy.Box

open Piggy.Core

def eboxMagic : UInt16 := 0xEB0C

def eboxTypeTemplate : UInt8 := 0x01

/-- The kinds of a config: any one part opens a PRIMARY config, a RECOVERY config
needs a threshold of its parts. -/
inductive EboxConfigType where
  | primary
  | recovery
  deriving DecidableEq

namespace EboxConfigType

/-- The byte of a config type. -/
def toU8 : EboxConfigType → UInt8
  | primary => 1
  | recovery => 2

/-- The config type a byte stands for. -/
def fromU8 (v : UInt8) : Except BoxError EboxConfigType :=
  if v = 1 then .ok primary
  else if v = 2 then .ok recovery
  else .error (.badConfigType v)

theorem fromU8_ok {v : UInt8} {t : EboxConfigType} : fromU8 v = .ok t ↔ v = t.toU8 := by
  constructor
  · intro h
    unfold fromU8 at h
    split at h
    · cases h
      assumption
    · split at h
      · cases h
        assumption
      · cases h
  · rintro rfl
    cases t <;> rfl

end EboxConfigType

/-- One recipient key of a template. -/
structure EboxTplPart where
  guid : Option Guid
  slot : UInt8
  name : Option String
  pubkey : Bytes
  pubkeyCurve : EcCurve
  cak : Option Bytes
  deriving DecidableEq

/-- One config of a template. -/
structure EboxTplConfig where
  configType : EboxConfigType
  n : UInt8
  parts : List EboxTplPart
  deriving DecidableEq

/-- The number of parts, truncated to the byte it is written in. -/
def EboxTplConfig.m (c : EboxTplConfig) : UInt8 := UInt8.ofNat c.parts.length

/-- A template. -/
structure EboxTemplate where
  version : UInt8
  configs : List EboxTplConfig
  deriving DecidableEq

/-- Appends a template part. -/
def writeTplPart (w : WireWriter) (part : EboxTplPart) : Except BoxError WireWriter := do
  let w := putU8 w partPubkey
  let w ← putCstring8 w part.pubkeyCurve.wireName
  let w ← putEckey8 w part.pubkey
  let w ← putGuidTag w part.guid
  let w ← putNameTag w part.name
  let w := putCakTag w part.cak
  let w := putSlotTag w part.slot
  pure (putU8 w partEnd)

/-- Reads a template part. -/
def readTplPart (r : WireReader) : Except BoxError (EboxTplPart × WireReader) := do
  let (p, r) ← readPart (readPartTag "unknown part tag" none) r
  match p.pubkey with
  | some (pubkeyCurve, pubkey) =>
    .ok ({ guid := p.guid, slot := p.slot, name := p.name, pubkey, pubkeyCurve, cak := p.cak }, r)
  | none => .error (.wire "template part missing PUBKEY")

/-- Appends a template config. -/
def writeTplConfig (w : WireWriter) (config : EboxTplConfig) : Except BoxError WireWriter :=
  let w := putU8 w config.configType.toU8
  let w := putU8 w config.n
  let w := putU8 w config.m
  putMany writeTplPart w config.parts

/-- Reads a template config. -/
def readTplConfig (r : WireReader) : Except BoxError (EboxTplConfig × WireReader) := do
  let (raw, r) ← getU8 r
  let configType ← EboxConfigType.fromU8 raw
  let (n, r) ← getU8 r
  let (m, r) ← getU8 r
  if configType = .primary ∧ 1 < n then
    .error (.wire s!"PRIMARY config must have n=1, got n={n.toNat}")
  else do
    let (parts, r) ← getMany readTplPart m.toNat r
    pure ({ configType, n, parts }, r)

/-- The serialization of a template. -/
def EboxTemplate.toBytes (tpl : EboxTemplate) : Except BoxError Bytes :=
  let w := putU8 [] (eboxMagic >>> 8).toUInt8
  let w := putU8 w (eboxMagic &&& 0xFF).toUInt8
  let w := putU8 w tpl.version
  let w := putU8 w eboxTypeTemplate
  let w := putU8 w (UInt8.ofNat tpl.configs.length)
  putMany writeTplConfig w tpl.configs

/-- Parses a template; bytes behind it are ignored. -/
def EboxTemplate.fromBytes (data : Bytes) : Except BoxError EboxTemplate := do
  let ((), r) ← getMagic eboxMagic (WireReader.new data)
  let (version, r) ← getU8 r
  let (etype, r) ← getU8 r
  if etype ≠ eboxTypeTemplate then .error (.badEboxType etype)
  else do
    let (nconfigs, r) ← getU8 r
    let (configs, _) ← getMany readTplConfig nconfigs.toNat r
    pure { version, configs }

/-! ## What is accepted can be written -/

/-- The templates whose counts and fields can be written. -/
structure EboxTemplate.Fits (tpl : EboxTemplate) : Prop where
  configs : tpl.configs.length ≤ 255
  parts : ∀ c ∈ tpl.configs, c.parts.length ≤ 255
  fields : ∀ c ∈ tpl.configs, ∀ p ∈ c.parts, FitsFields p.name p.cak
  pubkeys : ∀ c ∈ tpl.configs, ∀ p ∈ c.parts, FitsString8 p.pubkey

private theorem readTplPart_fits {r r' : WireReader} {p : EboxTplPart}
    (h : readTplPart r = .ok (p, r')) : FitsFields p.name p.cak ∧ FitsString8 p.pubkey := by
  simp only [readTplPart, bind_ok] at h
  obtain ⟨⟨q, r₁⟩, hq, h⟩ := h
  have htag : ∀ tag r t r', readPartTag "unknown part tag" none tag r = .ok (t, r') → t.Fits := by
    intro tag r t r' ht
    obtain ⟨-, hf, -⟩ | ⟨read, ⟨⟩, -⟩ := readPartTag_inv ht
    exact hf
  have hf := readPart_fits htag hq
  dsimp only at h
  split at h
  · next curve pubkey hk =>
    cases h
    exact ⟨hf.fields, hf.pubkey _ hk⟩
  · cases h

/-- A loop of reads returns as many values as it was told, each as the getter gives
them. -/
theorem getMany_forall {α : Type} {get : WireReader → Except BoxError (α × WireReader)}
    {q : α → Prop} (h : ∀ r a r', get r = .ok (a, r') → q a) {n : Nat} {r r' : WireReader}
    {as : List α} (hget : getMany get n r = .ok (as, r')) : as.length = n ∧ ∀ a ∈ as, q a := by
  induction n generalizing r as with
  | zero =>
    cases hget
    exact ⟨rfl, by simp⟩
  | succ n ih =>
    simp only [getMany, bind_ok, pure_ok, Prod.mk.injEq] at hget
    obtain ⟨⟨a, r₁⟩, ha, ⟨as, r₂⟩, has, rfl, rfl⟩ := hget
    obtain ⟨hl, hall⟩ := ih has
    exact ⟨by simp [hl], by simpa using ⟨h _ _ _ ha, hall⟩⟩

/-- Every template the parser accepts can be written. -/
theorem EboxTemplate.fromBytes_fits {data : Bytes} {tpl : EboxTemplate}
    (h : EboxTemplate.fromBytes data = .ok tpl) : tpl.Fits := by
  simp only [EboxTemplate.fromBytes, bind_ok] at h
  obtain ⟨⟨⟨⟩, r₁⟩, -, ⟨version, r₂⟩, -, ⟨etype, r₃⟩, -, h⟩ := h
  obtain ⟨-, h⟩ := guard_ok.mp h
  simp only [bind_ok, pure_ok] at h
  obtain ⟨⟨n, r₄⟩, -, ⟨configs, r₅⟩, hconfigs, rfl⟩ := h
  have hconfig : ∀ r c r', readTplConfig r = .ok (c, r') → c.parts.length ≤ 255 ∧
      ∀ p ∈ c.parts, FitsFields p.name p.cak ∧ FitsString8 p.pubkey := by
    intro r c r' hc
    simp only [readTplConfig, bind_ok] at hc
    obtain ⟨⟨raw, r₁⟩, -, ty, -, ⟨k, r₂⟩, -, ⟨m, r₃⟩, -, hc⟩ := hc
    obtain ⟨-, hc⟩ := guard_ok.mp hc
    simp only [bind_ok, pure_ok, Prod.mk.injEq] at hc
    obtain ⟨⟨parts, r₄⟩, hparts, rfl, rfl⟩ := hc
    obtain ⟨hl, hall⟩ := getMany_forall (fun _ _ _ => readTplPart_fits) hparts
    have hm : m.toNat < 256 := m.toNat_lt
    refine ⟨?_, hall⟩
    dsimp only at hl ⊢
    omega
  obtain ⟨hl, hall⟩ := getMany_forall hconfig hconfigs
  have hn : n.toNat < 256 := n.toNat_lt
  refine ⟨?_, fun c hc => (hall c hc).1, fun c hc p hp => ((hall c hc).2 p hp).1,
    fun c hc p hp => ((hall c hc).2 p hp).2⟩
  dsimp only at hl ⊢
  omega

/-! ## Encodings -/

/-- The tags a template part is written as. -/
def EboxTplPart.tags (p : EboxTplPart) : List PartTag :=
  .pubkey p.pubkeyCurve p.pubkey :: fieldTags p.guid p.name p.cak p.slot

/-- The bytes of a template part. -/
def EboxTplPart.encoding (p : EboxTplPart) : Bytes := p.tags.flatMap PartTag.bytes ++ [partEnd]

/-- The bytes of a template config. -/
def EboxTplConfig.encoding (c : EboxTplConfig) : Bytes :=
  [c.configType.toU8, c.n, c.m] ++ c.parts.flatMap EboxTplPart.encoding

/-- The bytes of a template. -/
def EboxTemplate.encoding (tpl : EboxTemplate) : Bytes :=
  magicBytes eboxMagic ++ ([tpl.version] ++ ([eboxTypeTemplate] ++
    ([UInt8.ofNat tpl.configs.length] ++ tpl.configs.flatMap EboxTplConfig.encoding)))

/-- The template parts that can be written. -/
structure EboxTplPart.Fits (p : EboxTplPart) : Prop where
  fields : FitsFields p.name p.cak
  pubkey : FitsString8 p.pubkey

theorem writeTplPart_eq {p : EboxTplPart} (h : p.Fits) (w : WireWriter) :
    writeTplPart w p = .ok (w ++ p.encoding) := by
  have hcurve := putCstring8_ok.mpr
    ⟨p.pubkeyCurve.fitsCstring8_wireName, (rfl : putU8 w partPubkey ++ _ = _)⟩
  have hkey : ∀ w, putEckey8 w p.pubkey = .ok (w ++ string8 p.pubkey) :=
    fun w => putString8_ok.mpr ⟨h.pubkey, rfl⟩
  simp only [writeTplPart, hcurve, hkey, ok_bind, putGuidTag_eq, putNameTag_eq _ h.fields.name,
    putCakTag_eq _ h.fields.cak, putSlotTag_eq]
  simp [EboxTplPart.encoding, EboxTplPart.tags, fieldTags, putU8, PartTag.bytes, PartTag.byte,
    PartTag.payload, pure, Except.pure]

/-- A template whose parts fit serializes to its encoding. -/
theorem EboxTemplate.toBytes_of_fits {tpl : EboxTemplate}
    (h : ∀ c ∈ tpl.configs, ∀ p ∈ c.parts, p.Fits) : tpl.toBytes = .ok tpl.encoding := by
  have hconfig : ∀ c ∈ tpl.configs, ∀ w, writeTplConfig w c = .ok (w ++ c.encoding) := by
    intro c hc w
    rw [writeTplConfig, putMany_of fun p hp => writeTplPart_eq (h c hc p hp)]
    simp [EboxTplConfig.encoding, putU8]
  rw [EboxTemplate.toBytes, putMany_of hconfig]
  simp [EboxTemplate.encoding, putU8, magicBytes]

/-- A written template part is read back. -/
theorem readTplPart_reads {p : EboxTplPart} (h : p.Fits) : Reads readTplPart p.encoding p := by
  intro pos tail
  have htags : ∀ t ∈ p.tags, t.byte ≠ partEnd ∧
      Reads (readPartTag "unknown part tag" none t.byte) t.payload (id t) := by
    intro t ht
    rcases List.mem_cons.mp ht with rfl | ht
    · exact ⟨(by decide : partPubkey ≠ partEnd), readPartTag_reads _ _ trivial h.pubkey⟩
    · obtain ⟨hf, hfits, hb⟩ := fieldTags_fits h.fields ht
      exact ⟨hb, readPartTag_reads _ _ hf hfits⟩
  have hread := readPart_reads htags pos tail
  rw [List.map_id, EboxTplPart.tags, List.foldl_cons] at hread
  change _ = Except.ok ((fieldTags p.guid p.name p.cak p.slot).foldl PartLocals.assign
    { pubkey := some (p.pubkeyCurve, p.pubkey) }, _) at hread
  rw [foldl_fieldTags] at hread
  rw [readTplPart, EboxTplPart.encoding, EboxTplPart.tags, hread, ok_bind]

/-- A template config with as many parts as its count byte says. -/
def EboxTplConfig.counted (c : EboxTplConfig) : EboxTplConfig :=
  { c with parts := c.parts.take c.m.toNat }

/-- The bytes of a template config up to the last part its count byte covers. -/
def EboxTplConfig.countedBytes (c : EboxTplConfig) : Bytes :=
  [c.configType.toU8] ++ ([c.n] ++ ([c.m] ++
    (c.parts.take c.m.toNat).flatMap EboxTplPart.encoding))

/-- The parts beyond the count byte stand behind the bytes it covers. -/
theorem EboxTplConfig.encoding_eq_counted (c : EboxTplConfig) :
    c.encoding = c.countedBytes ++ (c.parts.drop c.m.toNat).flatMap EboxTplPart.encoding := by
  have hp : c.parts.flatMap EboxTplPart.encoding =
      (c.parts.take c.m.toNat).flatMap EboxTplPart.encoding ++
        (c.parts.drop c.m.toNat).flatMap EboxTplPart.encoding := by
    rw [← List.flatMap_append, List.take_append_drop]
  simp [EboxTplConfig.encoding, EboxTplConfig.countedBytes, hp]

/-- A template config is read back up to the part its count byte says. -/
theorem readTplConfig_counted {c : EboxTplConfig} (h : ∀ p ∈ c.parts, p.Fits)
    (hn : ¬ (c.configType = .primary ∧ 1 < c.n)) :
    Reads readTplConfig c.countedBytes c.counted := by
  intro pos tail
  have hle : c.m.toNat ≤ c.parts.length := by
    rw [EboxTplConfig.m, UInt8.toNat_ofNat']
    exact Nat.mod_le _ _
  have hparts := getMany_reads fun p (hp : p ∈ c.parts.take c.m.toNat) =>
    readTplPart_reads (h p (List.mem_of_mem_take hp))
  rw [List.length_take_of_le hle, List.map_id'] at hparts
  have hu := fun v : UInt8 => getU8_exact.reads (a := v) trivial
  simp only [readTplConfig, EboxTplConfig.countedBytes, List.append_assoc, hu _ _ _, ok_bind,
    EboxConfigType.fromU8_ok.mpr rfl, if_neg hn, hparts _ _, List.length_append, Nat.add_assoc]
  rfl

/-- A template with one config is read back up to the part the count byte says. -/
theorem EboxTemplate.fromBytes_single {version : UInt8} {c : EboxTplConfig}
    (h : ∀ p ∈ c.parts, p.Fits) (hn : ¬ (c.configType = .primary ∧ 1 < c.n)) :
    EboxTemplate.fromBytes (EboxTemplate.encoding { version, configs := [c] }) =
      .ok { version, configs := [c.counted] } := by
  have hmagic : Reads (getMagic eboxMagic) (magicBytes eboxMagic) () :=
    (getMagic_exact eboxMagic).reads trivial
  have hu := fun v : UInt8 => getU8_exact.reads (a := v) trivial
  have hone : (UInt8.ofNat [c].length).toNat = 1 := rfl
  have hlist : [c].flatMap EboxTplConfig.encoding =
      c.countedBytes ++ (c.parts.drop c.m.toNat).flatMap EboxTplPart.encoding := by
    rw [List.flatMap_singleton, c.encoding_eq_counted]
  simp only [EboxTemplate.fromBytes, EboxTemplate.encoding, WireReader.new, hmagic _ _, hu _ _ _,
    ok_bind, hone, hlist, getMany, readTplConfig_counted h hn _ _]
  rfl

end Piggy.Box
