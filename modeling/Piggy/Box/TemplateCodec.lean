import Piggy.Box.Template
import Piggy.Core.Base64

/-!
# Templates, written and read

A template is read back from its bytes, and from its text in lines of base 64 however that text
is spaced. The length of a card authentication key is cut off at 32 bits, which is the only way
to lose a template that fits its counts.
-/

namespace Piggy.Box

open Piggy.Core

/-! ## The text of a template -/

def base64LineLen : Nat := 65

/-- The engine that a library has for base 64. A text is its bytes. -/
structure Base64Engine where
  encode : Bytes → Bytes
  decode : Bytes → Except String Bytes

/-- The blanks that are left out of a text. -/
def isAsciiWhitespace (b : UInt8) : Bool :=
  b = 0x20 || b = 0x09 || b = 0x0A || b = 0x0C || b = 0x0D

/-- The lines of a text, each of them ended. -/
def wrapLines : Nat → Bytes → Bytes
  | 0, _ => []
  | turns + 1, raw =>
    if raw = [] then []
    else raw.take base64LineLen ++ 0x0A :: wrapLines turns (raw.drop base64LineLen)

/-- The text of a template. -/
def EboxTemplate.toB64Wrapped (base64 : Base64Engine) (tpl : EboxTemplate) : Except BoxError Bytes := do
  let bin ← tpl.toBytes
  let raw := base64.encode bin
  pure (wrapLines raw.length raw)

/-- A text without its blanks. -/
def stripped (data : Bytes) : Bytes := data.filter fun b => !isAsciiWhitespace b

/-- Parses the text of a template. -/
def EboxTemplate.fromB64Bytes (base64 : Base64Engine) (data : Bytes) : Except BoxError EboxTemplate := do
  let bin ← (base64.decode (stripped data)).mapError fun e => .wire s!"base64 decode failed: {e}"
  EboxTemplate.fromBytes bin

/-! ## Bytes -/

/-- The templates whose counts fit their bytes. -/
structure EboxTemplate.Bounded (tpl : EboxTemplate) : Prop where
  configs : tpl.configs.length ≤ 255
  parts : ∀ c ∈ tpl.configs, c.parts.length ≤ 255
  primary : ∀ c ∈ tpl.configs, c.configType = .primary → c.n ≤ 1

/-- The lengths of the card authentication keys fit 32 bits. -/
def EboxTemplate.ShortCaks (tpl : EboxTemplate) : Prop :=
  ∀ c ∈ tpl.configs, ∀ p ∈ c.parts, ∀ k ∈ p.cak, k.length < 2 ^ 32

theorem writeTplPart_fits {w w' : WireWriter} {p : EboxTplPart} (h : writeTplPart w p = .ok w')
    (hcak : ∀ k ∈ p.cak, FitsString k) : p.Fits := by
  simp only [writeTplPart, bind_ok, putEckey8, putString8_ok] at h
  obtain ⟨_, -, _, ⟨hpubkey, -⟩, _, -, _, hname, -⟩ := h
  refine ⟨⟨?_, hcak⟩, hpubkey⟩
  intro n hn
  rw [Option.mem_def.mp hn, putNameTag, putCstring8_ok] at hname
  exact hname.1

/-- The parts of a template that was written fit. -/
theorem EboxTemplate.parts_fit {tpl : EboxTemplate} {bytes : Bytes} (h : tpl.toBytes = .ok bytes)
    (hcaks : tpl.ShortCaks) : ∀ c ∈ tpl.configs, ∀ p ∈ c.parts, p.Fits := by
  intro c hc p hp
  obtain ⟨_, _, hconfig⟩ := putMany_written h hc
  obtain ⟨_, _, hpart⟩ := putMany_written hconfig hp
  exact writeTplPart_fits hpart (hcaks c hc p hp)

/-- A config with a part for each of its count is read back as it is. -/
theorem readTplConfig_reads {c : EboxTplConfig} (h : ∀ p ∈ c.parts, p.Fits) (hm : c.parts.length ≤ 255)
    (hn : c.configType = .primary → c.n ≤ 1) : Reads readTplConfig c.encoding c := by
  have hcount : c.m.toNat = c.parts.length := by
    rw [EboxTplConfig.m, UInt8.toNat_ofNat_of_lt' (by omega : c.parts.length < 256)]
  have hall : c.counted = c := by
    rw [EboxTplConfig.counted, hcount, List.take_length]
  have hbytes : c.encoding = c.countedBytes := by
    rw [c.encoding_eq_counted, hcount, List.drop_length, List.flatMap_nil, List.append_nil]
  have hprimary : ¬ (c.configType = .primary ∧ 1 < c.n) :=
    fun h => absurd (hn h.1) (UInt8.not_le.mpr h.2)
  have hread := readTplConfig_counted h hprimary
  rwa [hall, ← hbytes] at hread

theorem EboxTemplate.fromBytes_encoding {tpl : EboxTemplate} (hb : tpl.Bounded)
    (h : ∀ c ∈ tpl.configs, ∀ p ∈ c.parts, p.Fits) :
    EboxTemplate.fromBytes tpl.encoding = .ok tpl := by
  have hmagic : Reads (getMagic eboxMagic) (magicBytes eboxMagic) () :=
    (getMagic_exact eboxMagic).reads trivial
  have hu := fun v : UInt8 => getU8_exact.reads (a := v) trivial
  have hcount : (UInt8.ofNat tpl.configs.length).toNat = tpl.configs.length :=
    UInt8.toNat_ofNat_of_lt' (Nat.lt_succ_of_le hb.configs)
  have hconfigs := getMany_reads fun c (hc : c ∈ tpl.configs) =>
    readTplConfig_reads (h c hc) (hb.parts c hc) (hb.primary c hc)
  rw [List.map_id'] at hconfigs
  simp only [EboxTemplate.fromBytes, EboxTemplate.encoding, WireReader.new, hmagic _ _, hu _ _ _,
    ok_bind, hcount]
  rw [if_neg (not_not.mpr rfl)]
  have hall := hconfigs (0 + (magicBytes eboxMagic).length + [tpl.version].length +
    [eboxTypeTemplate].length + [UInt8.ofNat tpl.configs.length].length) []
  rw [List.append_nil] at hall
  rw [hall]
  rfl

/-- A template is read back exactly when no length was cut off. -/
theorem EboxTemplate.fromBytes_toBytes_iff {tpl : EboxTemplate} {bytes : Bytes} (hb : tpl.Bounded)
    (h : tpl.toBytes = .ok bytes) :
    EboxTemplate.fromBytes bytes = .ok tpl ↔ tpl.ShortCaks := by
  constructor
  · intro hread c hc p hp
    exact ((EboxTemplate.fromBytes_fits hread).fields c hc p hp).cak
  · intro hcaks
    have hfits := EboxTemplate.parts_fit h hcaks
    have hbytes : tpl.encoding = bytes := by
      have hwritten := EboxTemplate.toBytes_of_fits hfits
      rw [h] at hwritten
      exact (Except.ok.inj hwritten).symm
    rw [← hbytes]
    exact EboxTemplate.fromBytes_encoding hb hfits

/-- A template that was read has counts that fit. -/
theorem EboxTemplate.bounded_of_fromBytes {data : Bytes} {tpl : EboxTemplate}
    (h : EboxTemplate.fromBytes data = .ok tpl) : tpl.Bounded := by
  have hfits := EboxTemplate.fromBytes_fits h
  refine ⟨hfits.configs, hfits.parts, ?_⟩
  simp only [EboxTemplate.fromBytes, bind_ok] at h
  obtain ⟨⟨⟨⟩, r₁⟩, -, ⟨version, r₂⟩, -, ⟨etype, r₃⟩, -, h⟩ := h
  obtain ⟨-, h⟩ := guard_ok.mp h
  simp only [bind_ok, pure_ok] at h
  obtain ⟨⟨n, r₄⟩, -, ⟨configs, r₅⟩, hconfigs, rfl⟩ := h
  have hconfig : ∀ r c r', readTplConfig r = .ok (c, r') → c.configType = .primary → c.n ≤ 1 := by
    intro r c r' hc
    simp only [readTplConfig, bind_ok] at hc
    obtain ⟨⟨raw, r₁⟩, -, ty, -, ⟨k, r₂⟩, -, ⟨m, r₃⟩, -, hc⟩ := hc
    obtain ⟨hprimary, hc⟩ := guard_ok.mp hc
    simp only [bind_ok, pure_ok, Prod.mk.injEq] at hc
    obtain ⟨⟨parts, r₄⟩, -, rfl, rfl⟩ := hc
    intro htype
    exact UInt8.not_lt.mp fun hlarge => hprimary ⟨htype, hlarge⟩
  exact (getMany_forall hconfig hconfigs).2

/-! ## Lines -/

/-- What the code relies on: a text is decoded to the bytes it was encoded from, and has no
blanks. -/
structure Base64Engine.Lawful (base64 : Base64Engine) : Prop where
  decode_encode : ∀ bytes, base64.decode (base64.encode bytes) = .ok bytes
  no_blank : ∀ bytes, ∀ b ∈ base64.encode bytes, isAsciiWhitespace b = false

/-- Lines add blanks only. -/
theorem stripped_wrapLines (turns : Nat) {raw : Bytes} (h : raw.length ≤ turns) :
    stripped (wrapLines turns raw) = stripped raw := by
  induction turns generalizing raw with
  | zero =>
    obtain rfl := List.length_eq_zero_iff.mp (Nat.le_zero.mp h)
    rfl
  | succ turns ih =>
    rw [wrapLines]
    split
    · next hempty => rw [hempty]
    · have hdrop : (raw.drop base64LineLen).length ≤ turns := by
        rw [List.length_drop, base64LineLen]
        omega
      have hline : stripped (0x0A :: wrapLines turns (raw.drop base64LineLen)) =
          stripped (raw.drop base64LineLen) := ih hdrop
      rw [stripped, List.filter_append]
      rw [stripped] at hline
      rw [hline, stripped, ← List.filter_append, List.take_append_drop]
      rfl

theorem stripped_of_no_blank {raw : Bytes} (h : ∀ b ∈ raw, isAsciiWhitespace b = false) :
    stripped raw = raw := by
  refine List.filter_eq_self.mpr fun b hb => ?_
  rw [h b hb]
  rfl

/-- A text is parsed like the bytes it was made from, however it is spaced. -/
theorem EboxTemplate.fromB64Bytes_respaced {base64 : Base64Engine} (hbase : base64.Lawful)
    {tpl : EboxTemplate} {bytes text data : Bytes} (hbytes : tpl.toBytes = .ok bytes)
    (htext : tpl.toB64Wrapped base64 = .ok text) (hdata : stripped data = stripped text) :
    EboxTemplate.fromB64Bytes base64 data = EboxTemplate.fromBytes bytes := by
  rw [EboxTemplate.toB64Wrapped, hbytes, ok_bind, pure_ok] at htext
  rw [← htext, stripped_wrapLines _ (Nat.le_refl _), stripped_of_no_blank (hbase.no_blank bytes)] at hdata
  rw [EboxTemplate.fromB64Bytes, hdata, hbase.decode_encode]
  rfl

/-- A template is read back from its bytes, and from its text in any spacing, exactly when the
lengths of its card authentication keys fit 32 bits; and a template that was read is written and
read again as it is. -/
theorem EboxTemplate.roundTrip_iff {base64 : Base64Engine} (hbase : base64.Lawful) :
    (∀ (tpl : EboxTemplate) (bytes : Bytes), tpl.Bounded → tpl.toBytes = .ok bytes →
      (EboxTemplate.fromBytes bytes = .ok tpl ↔ tpl.ShortCaks)) ∧
    (∀ (tpl : EboxTemplate) (text : Bytes), tpl.Bounded → tpl.toB64Wrapped base64 = .ok text →
      ∀ data, stripped data = stripped text →
        (EboxTemplate.fromB64Bytes base64 data = .ok tpl ↔ tpl.ShortCaks)) ∧
    ∀ (data : Bytes) (tpl : EboxTemplate), EboxTemplate.fromBytes data = .ok tpl →
      ∃ bytes, tpl.toBytes = .ok bytes ∧ EboxTemplate.fromBytes bytes = .ok tpl := by
  refine ⟨fun tpl bytes hb h => EboxTemplate.fromBytes_toBytes_iff hb h, ?_, ?_⟩
  · intro tpl text hb htext data hdata
    obtain ⟨bytes, hbytes⟩ : ∃ bytes, tpl.toBytes = .ok bytes := by
      rw [EboxTemplate.toB64Wrapped, bind_ok] at htext
      obtain ⟨bytes, hbytes, -⟩ := htext
      exact ⟨bytes, hbytes⟩
    rw [EboxTemplate.fromB64Bytes_respaced hbase hbytes htext hdata]
    exact EboxTemplate.fromBytes_toBytes_iff hb hbytes
  · intro data tpl h
    have hfits := EboxTemplate.fromBytes_fits h
    have hparts : ∀ c ∈ tpl.configs, ∀ p ∈ c.parts, p.Fits :=
      fun c hc p hp => ⟨hfits.fields c hc p hp, hfits.pubkeys c hc p hp⟩
    refine ⟨tpl.encoding, EboxTemplate.toBytes_of_fits hparts, ?_⟩
    exact EboxTemplate.fromBytes_encoding (EboxTemplate.bounded_of_fromBytes h) hparts

/-- The engine of the standard alphabet. -/
def standardBase64 : Base64Engine where
  encode := Base64.encode
  decode text := match Base64.decode text with
    | some bytes => .ok bytes
    | none => .error "Invalid input"

theorem standardBase64_lawful : standardBase64.Lawful where
  decode_encode bytes := by
    show (match Base64.decode (Base64.encode bytes) with
      | some bytes => _
      | none => _) = _
    rw [Base64.decode_encode]
  no_blank bytes b hb := by
    have hdigit : ∀ n < 64, isAsciiWhitespace (Base64.digit n) = false := by decide
    rcases Base64.mem_encode hb with rfl | ⟨n, hn, rfl⟩
    · rfl
    · exact hdigit n hn

/-- A template with one part whose card authentication key has so many zero bytes. -/
def cakTemplate (length : Nat) : EboxTemplate :=
  ⟨1, [⟨.primary, 1, [⟨none, 0x9D, some "laptop", [0x02, 0x01], .nistP256, some (List.replicate length 0)⟩]⟩]⟩

theorem cakTemplate_bounded (length : Nat) : (cakTemplate length).Bounded := by
  refine ⟨(by decide : 1 ≤ 255), ?_, ?_⟩
  · intro c hc
    obtain rfl := List.mem_singleton.mp hc
    exact (by decide : 1 ≤ 255)
  · intro c hc _
    obtain rfl := List.mem_singleton.mp hc
    exact (by decide : (1 : UInt8) ≤ 1)

theorem cakTemplate_shortCaks (length : Nat) : (cakTemplate length).ShortCaks ↔ length < 2 ^ 32 := by
  simp [EboxTemplate.ShortCaks, cakTemplate]

theorem toBytes_cakTemplate (length : Nat) : ∃ bytes, (cakTemplate length).toBytes = .ok bytes := by
  have hname : FitsCstring8 "laptop" := by decide
  have hcurve := EcCurve.fitsCstring8_wireName .nistP256
  have hkey : FitsString8 [0x02, 0x01] := by decide
  simp only [EboxTemplate.toBytes, cakTemplate, putMany, writeTplConfig, writeTplPart, bind_ok,
    putEckey8, putCstring8_ok, putString8_ok, putGuidTag, putNameTag, pure_ok]
  exact ⟨_, _, ⟨_, ⟨_, ⟨hcurve, rfl⟩, _, ⟨hkey, rfl⟩, _, rfl, _, ⟨hname, rfl⟩, rfl⟩, rfl⟩, rfl⟩

/-- The text of a small template with blanks in front of it. -/
theorem roundTrip_cakTemplate : ∃ text, (cakTemplate 2).toB64Wrapped standardBase64 = .ok text ∧
    EboxTemplate.fromB64Bytes standardBase64 (0x09 :: 0x20 :: text) = .ok (cakTemplate 2) := by
  obtain ⟨bytes, hbytes⟩ := toBytes_cakTemplate 2
  have htext : (cakTemplate 2).toB64Wrapped standardBase64 =
      .ok (wrapLines (standardBase64.encode bytes).length (standardBase64.encode bytes)) := by
    rw [EboxTemplate.toB64Wrapped, hbytes]
    rfl
  refine ⟨_, htext, ?_⟩
  exact ((EboxTemplate.roundTrip_iff standardBase64_lawful).2.1 (cakTemplate 2) _
    (cakTemplate_bounded 2) htext _ rfl).mpr ((cakTemplate_shortCaks 2).mpr (by decide))

/-- The length of a key of four gigabytes is written as zero. -/
theorem not_roundTrip_cakTemplate : (cakTemplate (2 ^ 32)).Bounded ∧
    ¬ ∀ bytes, (cakTemplate (2 ^ 32)).toBytes = .ok bytes →
      EboxTemplate.fromBytes bytes = .ok (cakTemplate (2 ^ 32)) := by
  refine ⟨cakTemplate_bounded _, fun h => ?_⟩
  obtain ⟨bytes, hbytes⟩ := toBytes_cakTemplate (2 ^ 32)
  have hshort := (EboxTemplate.fromBytes_toBytes_iff (cakTemplate_bounded _) hbytes).mp (h bytes hbytes)
  exact absurd ((cakTemplate_shortCaks _).mp hshort) (Nat.lt_irrefl _)

end Piggy.Box
