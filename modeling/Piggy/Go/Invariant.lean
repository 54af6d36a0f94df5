import Piggy.Go.Receivers

/-!
# What an id keeps through every call

An id is null, or it has a format and as many bytes of data as the format says. The
mutators keep this, failing or not, as long as none of them takes a format without data.
That the text of an id is read back asks for more: the purpose is text and admits the
format, and no call that leaves the format alone may put another purpose beside it.
-/

namespace Piggy.Go.Markl

open Piggy.Core

/-- The calls that change an id, with their arguments. -/
inductive Op where
  | set (value : Bytes)
  | unmarshalText (bites : Bytes)
  | unmarshalBinary (bites : Bytes)
  | setMarklId (formatId bites : Bytes)
  | setDigest (digest : Id)
  | setPurposeId (value : Bytes)
  | setPurposeFromWireSlot (slot : Bytes)
  | setHexBytes (formatId bites : Bytes)
  | reset
  | resetWithPurpose (purpose : Bytes)
  | resetWith (src : Id)
  | resetWithMarklId (src : Id)

section Calls

variable (reg : Registry) (t : CaseTables)

/-- One call on an id. -/
def Op.run : Op → Id → Outcome
  | .set value, id => id.set reg t value
  | .unmarshalText bites, id => id.unmarshalText reg t bites
  | .unmarshalBinary bites, id => id.unmarshalBinary reg bites
  | .setMarklId formatId bites, id => id.setMarklId reg formatId bites
  | .setDigest digest, id => Id.setDigest reg digest id
  | .setPurposeId value, id => (.ok (), id.setPurposeId value)
  | .setPurposeFromWireSlot slot, id => id.setPurposeFromWireSlot slot
  | .setHexBytes formatId bites, id => id.setHexBytes reg formatId bites
  | .reset, id => (.ok (), id.reset)
  | .resetWithPurpose purpose, id => (.ok (), id.resetWithPurpose purpose)
  | .resetWith src, id => Id.resetWith src id
  | .resetWithMarklId src, id => Id.resetWithMarklId reg src id

/-- A sequence of calls; an id is used on after a failure too. -/
def Op.runs : List Op → Id → Id
  | [], id => id
  | op :: ops, id => Op.runs ops (op.run reg t id).2

/-! ## The invariant -/

/-- Null, or a format and as much data as it says. -/
def Id.WellFormed (id : Id) : Prop :=
  (id.format = none ∧ id.data = []) ∨ ∃ f, id.format = some f ∧ id.data.length = f.size

/-- The questions are answered and the text is read back: with the same format and data,
and for an id that is not null with the same purpose. -/
structure Id.Answers (id : Id) : Prop where
  string : id.string t ≠ .panic
  stringWithFormat : id.stringWithFormat t ≠ .panic
  isNull : id.isNull reg ≠ .panic
  marshalText : ∃ text back, id.marshalText t = .ok text ∧ Id.zero.set reg t text = (.ok (), back) ∧
    back.format = id.format ∧ back.data = id.data ∧ (id.format ≠ none → back.purposeId = id.purposeId)

/-- The bytes are text. -/
def IsText (s : Bytes) : Prop := ∃ cs, s = utf8 cs

/-- A purpose that admits what format there is. -/
def Admits (p : Bytes) (format : Option Format) : Prop :=
  ∀ f, format = some f → reg.validatePurposeAndFormatId p f.id = .ok ()

/-- What the mutators keep: the form of the id, a format that is registered, and a purpose
that is text and admits the format. -/
structure Id.Sound (id : Id) : Prop where
  wellFormed : id.WellFormed
  registered : ∀ f, id.format = some f → reg.getFormatOrError f.id = .ok f
  text : IsText id.purposeId
  admits : Admits reg id.purposeId id.format

/-! ## When a call keeps it -/

/-- A purpose may be set beside the format. -/
def TakesPurpose (p : Bytes) (id : Id) : Prop := IsText p ∧ Admits reg p id.format

/-- Where format and payload are taken under a purpose, there is a payload, and the purpose
is text and admits the format under its own name. -/
def TakesMarkl (p formatId bites : Bytes) : Prop :=
  ∀ f, reg.Fits p formatId bites f →
    bites ≠ [] ∧ IsText p ∧ reg.validatePurposeAndFormatId p f.id = .ok ()

/-- A text whose parts may be taken: a purpose that is followed by a body that is read is
taken with it, any other is set beside the format. -/
def TakesText (decoder : Bytes → Result Blech32.Error (Bytes × Bytes)) (value : Bytes) (id : Id) : Prop :=
  value ≠ [] →
    match Purpose.splitPurposeSlot value with
    | (some slot, body) => ∀ p, Purpose.unquotePurpose slot = .ok p →
        (∀ formatId data, decoder body = .ok (formatId, data) → TakesMarkl reg p formatId data) ∧
        ∀ e, decoder body = .error e → TakesPurpose reg p id
    | (none, body) => ∀ formatId data, decoder body = .ok (formatId, data) →
        TakesMarkl reg id.purposeId formatId data

/-- The condition on a call and the id before it. -/
def Op.Keeps : Op → Id → Prop
  | .set value, id => TakesText reg (Blech32.decodeString t) value id
  | .unmarshalText bites, id => TakesText reg (Blech32.decode t) bites id
  | .unmarshalBinary bites, id => ∀ p rest, cut 0 bites = some (p, rest) →
      (cut 0 rest = none → TakesPurpose reg p id) ∧
      ∀ formatId data, cut 0 rest = some (formatId, data) → TakesMarkl reg p formatId data
  | .setMarklId formatId bites, id => TakesMarkl reg id.purposeId formatId bites
  | .setDigest digest, id =>
      (digest.format = none → TakesPurpose reg digest.purposeId id) ∧
      ∀ f, digest.format = some f → TakesMarkl reg digest.purposeId f.id digest.data
  | .setPurposeId value, id => TakesPurpose reg value id
  | .setPurposeFromWireSlot slot, id =>
      ∀ p, Purpose.unquotePurpose slot = .ok p → TakesPurpose reg p id
  | .setHexBytes formatId bites, id =>
      ∀ f data, reg.getFormatOrError formatId = .ok f → Id.hexDecode (Id.trimSpace bites) = some data →
        data.length = f.size → reg.validatePurposeAndFormatId id.purposeId f.id = .ok ()
  | .reset, _ => True
  | .resetWithPurpose purpose, _ => IsText purpose
  | .resetWith src, _ => src.Sound reg
  | .resetWithMarklId src, _ =>
      ∀ f, src.format = some f → TakesMarkl reg src.purposeId f.id src.data

/-- Every call of a sequence meets its condition where it is made. -/
def Op.KeepsAll : List Op → Id → Prop
  | [], _ => True
  | op :: ops, id => op.Keeps reg t id ∧ Op.KeepsAll ops (op.run reg t id).2

end Calls

section Steps

variable {reg : Registry} {t : CaseTables}

theorem sound_zero : Id.zero.Sound reg where
  wellFormed := .inl ⟨rfl, rfl⟩
  registered _ h := nomatch h
  text := ⟨[], rfl⟩
  admits _ h := nomatch h

/-- An id with another purpose that may be taken is sound. -/
theorem Id.Sound.setPurposeId {id : Id} (h : id.Sound reg) {p : Bytes} (hp : TakesPurpose reg p id) :
    (id.setPurposeId p).Sound reg where
  wellFormed := h.wellFormed
  registered := h.registered
  text := hp.1
  admits := hp.2

/-- The setter of format and data leaves a sound id behind. -/
theorem sound_setMarklId {id : Id} {formatId bites : Bytes}
    (h : TakesMarkl reg id.purposeId formatId bites) : (id.setMarklId reg formatId bites).2.Sound reg := by
  rcases Id.setMarklId_cases reg formatId bites id with ⟨-, -, hres⟩ | ⟨-, -, e, hres⟩ | ⟨f, hf, hres⟩
  · rw [hres]
    exact sound_zero
  · rw [hres]
    exact sound_zero
  · obtain ⟨hbites, htext, hadmits⟩ := h f hf
    rw [hres, if_neg hbites]
    refine ⟨.inr ⟨f, rfl, hf.size hbites⟩, ?_, htext, ?_⟩
    · rintro g ⟨⟩
      exact (reg.getFormatOrError_spec hf.format).2.2.2.1
    · rintro g ⟨⟩
      exact hadmits

/-- A reader of texts leaves a sound id behind. -/
theorem Id.ReadsText.sound {decoder : Bytes → Result Blech32.Error (Bytes × Bytes)}
    {read : Bytes → Id → Outcome} (hread : Id.ReadsText reg decoder read) {value : Bytes} {id : Id}
    (hid : id.Sound reg) (h : TakesText reg decoder value id) : (read value id).2.Sound reg := by
  by_cases hempty : value = []
  · rw [hempty, hread.empty]
    exact sound_zero
  have htext := h hempty
  rcases hsplit : Purpose.splitPurposeSlot value with ⟨_ | slot, body⟩
  · rw [hsplit] at htext
    obtain ⟨hok, herr⟩ := hread.noSlot value body hempty hsplit
    rcases hdec : decoder body with ⟨formatId, data⟩ | e | _
    · rw [hok formatId data hdec]
      exact sound_setMarklId (htext formatId data hdec)
    · obtain ⟨e', he'⟩ := herr e hdec
      rw [he']
      exact hid
    · exact absurd hdec (hread.returns body)
  · rw [hsplit] at htext
    rcases hslot : Purpose.unquotePurpose slot with e | p
    · rw [hread.slotMalformed value slot body e hempty hsplit hslot]
      exact hid
    · obtain ⟨hok, herr⟩ := hread.slotTaken value slot body p hempty hsplit hslot
      obtain ⟨hmarkl, hpurpose⟩ := htext p hslot
      rcases hdec : decoder body with ⟨formatId, data⟩ | e | _
      · rw [hok formatId data hdec]
        exact sound_setMarklId (hmarkl formatId data hdec)
      · obtain ⟨e', he'⟩ := herr e hdec
        rw [he']
        exact hid.setPurposeId (hpurpose e hdec)
      · exact absurd hdec (hread.returns body)

theorem hexDecode_length {s data : Bytes} (h : Id.hexDecode s = some data) :
    data.length = s.length / 2 := by
  fun_induction Id.hexDecode s generalizing data with
  | case1 =>
    cases h
    rfl
  | case2 => cases h
  | case3 a b rest ih =>
    simp only [Option.bind_eq_bind, Option.bind_eq_some_iff] at h
    obtain ⟨high, -, low, -, out, hout, heq⟩ := h
    cases heq
    rw [List.length_cons, ih hout, List.length_cons, List.length_cons]
    omega

theorem sound_setHexBytes {id : Id} (hid : id.Sound reg) {formatId bites : Bytes}
    (h : (Op.setHexBytes formatId bites).Keeps reg t id) :
    (id.setHexBytes reg formatId bites).2.Sound reg := by
  rcases hformat : reg.getFormatOrError formatId with e | f
  · simp only [Id.setHexBytes, hformat]
    exact hid
  · simp only [Id.setHexBytes, hformat]
    by_cases hlen : (Id.trimSpace bites).length / 2 = f.size
    · rw [if_neg (not_not.mpr hlen)]
      rcases hdec : Id.hexDecode (Id.trimSpace bites) with _ | data
      · exact sound_zero
      · have hsize := (hexDecode_length hdec).trans hlen
        refine ⟨.inr ⟨f, rfl, hsize⟩, ?_, hid.text, ?_⟩
        · rintro g ⟨⟩
          exact (reg.getFormatOrError_spec hformat).2.2.2.1
        · rintro g ⟨⟩
          exact h f data hformat hdec hsize
    · rw [if_pos hlen]
      exact hid

theorem sound_resetWith {src id : Id} (h : src.Sound reg) : (Id.resetWith src id).2.Sound reg := by
  by_cases hdata : src.data = []
  · have hres : (Id.resetWith src id).2 = src := by
      simp only [Id.resetWith, if_pos hdata]
      rw [← hdata]
    rw [hres]
    exact h
  · -- Data come with a format of their size, so the last step does not fail.
    rcases h.wellFormed with ⟨-, hempty⟩ | ⟨f, hf, hsize⟩
    · exact absurd hempty hdata
    · have hres : (Id.resetWith src id).2 = src := by
        simp only [Id.resetWith, if_neg hdata, Id.setData, hf, if_neg (not_not.mpr hsize)]
        rw [← hf]
      rw [hres]
      exact h

/-- A call that meets its condition keeps the invariant, whether it succeeds or fails. -/
theorem Op.sound_run (op : Op) {id : Id} (hid : id.Sound reg) (h : op.Keeps reg t id) :
    (op.run reg t id).2.Sound reg := by
  cases op with
  | set value => exact (Id.readsText_set reg t).sound hid h
  | unmarshalText bites => exact (Id.readsText_unmarshalText reg t).sound hid h
  | unmarshalBinary bites =>
    simp only [run, Id.unmarshalBinary]
    by_cases hempty : bites = []
    · rw [if_pos hempty]
      exact hid
    rw [if_neg hempty]
    rcases hcut : cut 0 bites with _ | ⟨p, rest⟩
    · exact hid
    · obtain ⟨hpurpose, hmarkl⟩ := h p rest hcut
      dsimp only
      rcases hcut' : cut 0 rest with _ | ⟨formatId, data⟩
      · exact hid.setPurposeId (hpurpose hcut')
      · exact sound_setMarklId (hmarkl formatId data hcut')
  | setMarklId formatId bites => exact sound_setMarklId h
  | setDigest digest =>
    simp only [run, Id.setDigest]
    rcases hformat : digest.format with _ | f
    · exact hid.setPurposeId (h.1 hformat)
    · exact sound_setMarklId (h.2 f hformat)
  | setPurposeId value => exact hid.setPurposeId h
  | setPurposeFromWireSlot slot =>
    simp only [run, Id.setPurposeFromWireSlot]
    rcases hslot : Purpose.unquotePurpose slot with e | p
    · exact hid
    · exact hid.setPurposeId (h p hslot)
  | setHexBytes formatId bites => exact sound_setHexBytes hid h
  | reset => exact sound_zero
  | resetWithPurpose purpose => exact ⟨.inl ⟨rfl, rfl⟩, (fun _ h => by cases h), h, (fun _ h => by cases h)⟩
  | resetWith src => exact sound_resetWith h
  | resetWithMarklId src =>
    simp only [run, Id.resetWithMarklId]
    by_cases hpanic : src.format = none ∧ src.data ≠ []
    · rw [if_pos hpanic]
      exact hid
    · rw [if_neg hpanic]
      have hsound : ((id.setPurposeId src.purposeId).setMarklId reg
          ((src.format.map Format.id).getD []) src.data).2.Sound reg := by
        rcases hformat : src.format with _ | f
        · have hdata : src.data = [] := by
            by_contra hdata
            exact hpanic ⟨hformat, hdata⟩
          rw [hdata]
          exact sound_zero
        · exact sound_setMarklId (h f hformat)
      rcases hset : (id.setPurposeId src.purposeId).setMarklId reg
        ((src.format.map Format.id).getD []) src.data with ⟨_ | e | _, back⟩
      all_goals
        rw [hset] at hsound
        exact hsound

/-- Calls that meet their conditions keep the invariant. -/
theorem Op.sound_runs {ops : List Op} {id : Id} (hid : id.Sound reg) (h : Op.KeepsAll reg t ops id) :
    (Op.runs reg t ops id).Sound reg := by
  induction ops generalizing id with
  | nil => exact hid
  | cons op ops ih => exact ih (op.sound_run hid h.1) h.2

/-! ## What a sound id answers -/

/-- The text of a registered format and of data: it is encoded, has no slot and decodes. -/
theorem encode_registered {f : Format} (h : reg.getFormatOrError f.id = .ok f) (data : Bytes) :
    ∃ text, Blech32.encode t f.id data = .ok (utf8 text) ∧ utf8 text ≠ [] ∧
      Markl.splitPurposeSlot text = (none, text) ∧
      Blech32.decodeString t (utf8 text) = .ok (f.id, data) := by
  obtain ⟨-, hne, hchars, -⟩ := reg.getFormatOrError_spec h
  obtain ⟨groups, hcarries⟩ := Markl.Blech32.exists_carries (Blech32.hrpExpand t f.id) data
  have htext := Blech32.utf8_spelled hchars hcarries.range
  have hlower : ∀ c ∈ f.id.map asciiChar, Markl.Blech32.isLowerHrpChar c = true := by
    intro c hc
    obtain ⟨b, hb, rfl⟩ := List.mem_map.mp hc
    exact hchars b hb
  refine ⟨_, ?_, ?_,
    Markl.Id.splitPurposeSlot_wire (Markl.Blech32.isWireChar_of_spelled hlower hcarries.range), ?_⟩
  · rw [htext, Blech32.encode_eq_ok]
    refine ⟨hne, ?_, groups, rfl, hcarries⟩
    intro b hb
    obtain ⟨hlow, hhigh⟩ := Blech32.printable_of_lowerHrp (hchars b hb)
    exact ⟨hlow, hhigh, (Blech32.isLowerHrpByte_spec (hchars b hb)).2.1⟩
  · rw [htext]
    simp
  · rw [htext, Blech32.decodeString_eq_ok]
    exact ⟨hne, hchars, groups, rfl, hcarries⟩

/-- What is taken into the null id under a purpose. -/
theorem setMarklId_fits {p : Bytes} {f : Format} {data : Bytes}
    (hformat : reg.getFormatOrError f.id = .ok f)
    (hadmits : reg.validatePurposeAndFormatId p f.id = .ok ()) (hsize : data.length = f.size) :
    Id.setMarklId reg f.id data ⟨p, none, []⟩ = (.ok (), ⟨p, some f, data⟩) := by
  have hfits : reg.Fits p f.id data f := ⟨hformat, hadmits, fun _ => hsize⟩
  rcases Id.setMarklId_cases reg f.id data ⟨p, none, []⟩ with ⟨he, -⟩ | ⟨-, hno, -⟩ | ⟨g, hg, hres⟩
  · exact absurd he (reg.getFormatOrError_spec hformat).1
  · exact absurd hfits (hno f)
  · obtain rfl : f = g := Except.ok.inj (hformat.symm.trans hg.format)
    rw [hres]
    by_cases hdata : data = []
    · rw [if_pos hdata, hdata]
    · rw [if_neg hdata]

/-- The text of a sound id with a format is read back into that id. -/
theorem Id.Sound.readBack {id : Id} (h : id.Sound reg) {f : Format} (hf : id.format = some f) :
    ∃ text, id.marshalText t = .ok text ∧ Id.zero.set reg t text = (.ok (), id) := by
  obtain ⟨body, henc, hne, hslot, hdec⟩ := @encode_registered reg t f (h.registered f hf) id.data
  have hsize : id.data.length = f.size := by
    rcases h.wellFormed with ⟨hnone, -⟩ | ⟨g, hg, hsize⟩
    · rw [hf] at hnone
      cases hnone
    · rw [hf] at hg
      cases hg
      exact hsize
  have hid : (⟨id.purposeId, some f, id.data⟩ : Id) = id := by rw [← hf]
  have htake := setMarklId_fits (h.registered f hf) (h.admits f hf) hsize
  rw [hid] at htake
  refine ⟨id.withPurpose (utf8 body), by simp only [marshalText, hf, henc], ?_⟩
  rw [withPurpose]
  by_cases hp : id.purposeId = []
  · have hsplit := Purpose.splitPurposeSlot_utf8 body
    rw [hslot] at hsplit
    rw [if_neg (not_not.mpr hp), set, if_neg hne, hsplit]
    simp only [Option.map_none, setWithoutPurpose, hdec]
    rw [hp] at htake
    exact htake
  · obtain ⟨p, hp'⟩ := h.text
    obtain ⟨hsplit, hback⟩ := Purpose.splitPurposeSlot_spell p body
    rw [if_pos hp, set, if_neg (by simp), hp', hsplit]
    simp only [setWithPurpose, setPurposeFromWireSlot, hback, setWithoutPurpose, hdec]
    rw [← hp']
    exact htake

theorem Id.Sound.answers {id : Id} (h : id.Sound reg) : id.Answers reg t := by
  rcases h.wellFormed with ⟨hformat, hdata⟩ | ⟨f, hf, hsize⟩
  · refine ⟨?_, ?_, ?_, [], Id.zero, ?_, rfl, hformat.symm, hdata.symm, fun hno => absurd hformat hno⟩
    · rw [string, if_pos hdata]
      exact nofun
    · rw [stringWithFormat, if_pos hdata]
      exact nofun
    · rw [isNull, if_pos hdata]
      exact nofun
    · rw [marshalText, hformat]
  · obtain ⟨body, henc, -⟩ := @encode_registered reg t f (h.registered f hf) id.data
    obtain ⟨text, htext, hback⟩ := @readBack reg t id h f hf
    refine ⟨?_, ?_, ?_, text, id, htext, hback, rfl, rfl, fun _ => rfl⟩
    · rw [string, hf]
      split
      · exact nofun
      · simp only [Option.map_some, Option.getD_some, mustEncode, henc]
        exact nofun
    · rw [stringWithFormat, hf]
      split
      · exact nofun
      · simp only [mustEncode, henc, Result.ok_bind]
        exact nofun
    · rw [isNull, hf]
      split
      · exact nofun
      · exact nofun

end Steps

/-- In every sequence of calls from the zero id that all meet their condition, the id is
well formed and answers after each call. -/
theorem runs_wellFormed (reg : Registry) (t : CaseTables) (ops : List Op)
    (h : Op.KeepsAll reg t ops Id.zero) (n : Nat) :
    (Op.runs reg t (ops.take n) Id.zero).WellFormed ∧
      (Op.runs reg t (ops.take n) Id.zero).Answers reg t := by
  have hkeeps : ∀ (ops : List Op) (n : Nat) (id : Id), Op.KeepsAll reg t ops id →
      Op.KeepsAll reg t (ops.take n) id := by
    intro ops
    induction ops with
    | nil => simp
    | cons op ops ih =>
      intro n id h
      cases n with
      | zero => trivial
      | succ n => exact ⟨h.1, ih n _ h.2⟩
  have hsound := Op.sound_runs sound_zero (hkeeps ops n Id.zero h)
  exact ⟨hsound.wellFormed, hsound.answers⟩

/-- Calls that set a purpose, then format and data, and then fail. -/
def sampleOps : List Op :=
  [.setPurposeId (utf8 "md".toList), .setMarklId (utf8 "nonce".toList) (List.replicate 32 0),
    .set (utf8 "x".toList)]

set_option maxRecDepth 20000 in
theorem runs_wellFormed_sample :
    Op.KeepsAll production asciiTables sampleOps Id.zero ∧
      (Op.runs production asciiTables (sampleOps.take 3) Id.zero).WellFormed ∧
      (Op.runs production asciiTables (sampleOps.take 3) Id.zero).Answers production asciiTables := by
  have hkeeps : Op.KeepsAll production asciiTables sampleOps Id.zero := by
    refine ⟨⟨⟨"md".toList, rfl⟩, nofun⟩, ?_, ?_, trivial⟩
    · intro f _
      refine ⟨by decide, ⟨"md".toList, rfl⟩, ?_⟩
      have hunknown : production.purposes.lookup (utf8 "md".toList) = none := by decide
      change production.validatePurposeAndFormatId (utf8 "md".toList) f.id = .ok ()
      simp only [Registry.validatePurposeAndFormatId, hunknown, ite_self]
    · intro _
      have hsplit : Purpose.splitPurposeSlot (utf8 "x".toList) = (none, utf8 "x".toList) := by decide
      have hdec : Blech32.decodeString asciiTables (utf8 "x".toList) = .error .separatorMissing := by
        decide
      rw [hsplit]
      intro formatId data hok
      rw [hdec] at hok
      cases hok
  exact ⟨hkeeps, runs_wellFormed production asciiTables sampleOps hkeeps 3⟩

/-- A format taken without data is neither null nor complete; a purpose that does not admit
the format beside it makes a text that is not read back. -/
theorem not_wellFormed_samples :
    ¬ (Op.runs production asciiTables [.setMarklId (utf8 "sha256".toList) []] Id.zero).WellFormed ∧
      ¬ (Op.runs production asciiTables
        [.setMarklId (utf8 "nonce".toList) (List.replicate 32 0),
          .setPurposeId (utf8 "piggy-recipient-v1".toList)] Id.zero).Answers production asciiTables := by
  refine ⟨?_, ?_⟩
  · have hrun : Op.runs production asciiTables [.setMarklId (utf8 "sha256".toList) []] Id.zero =
        ⟨[], some ⟨utf8 "sha256".toList, 32⟩, []⟩ := by decide +kernel
    rw [hrun]
    rintro (⟨hnone, -⟩ | ⟨f, hf, hsize⟩)
    · cases hnone
    · cases hf
      cases hsize
  · intro h
    obtain ⟨text, back, htext, hback, -⟩ := h.marshalText
    have hrun : Op.runs production asciiTables
        [.setMarklId (utf8 "nonce".toList) (List.replicate 32 0),
          .setPurposeId (utf8 "piggy-recipient-v1".toList)] Id.zero =
        ⟨utf8 "piggy-recipient-v1".toList, some ⟨utf8 "nonce".toList, 32⟩, List.replicate 32 0⟩ := by
      decide +kernel
    have hmarshal : Id.marshalText asciiTables
        ⟨utf8 "piggy-recipient-v1".toList, some ⟨utf8 "nonce".toList, 32⟩, List.replicate 32 0⟩ =
        .ok (utf8 ("piggy-recipient-v1@nonce-qqqqqqqqqqqqqqqqqqqqqqqqqq" ++
          "qqqqqqqqqqqqqqqqqqqqqqqqqqdqkt5x").toList) :=
      of_toList_append (p := fun s => Id.marshalText asciiTables _ = .ok (utf8 s))
        (by decide +kernel)
    have hset : Id.zero.set production asciiTables (utf8 ("piggy-recipient-v1@nonce-qqqqqqqqqqqqqqqqqqqqqqqqqq" ++
          "qqqqqqqqqqqqqqqqqqqqqqqqqqdqkt5x").toList) =
        (.error (.notSupported (utf8 "nonce".toList) (utf8 "piggy-recipient-v1".toList)), Id.zero) :=
      of_toList_append (p := fun s => Id.zero.set production asciiTables (utf8 s) = _)
        (by decide +kernel)
    rw [hrun, hmarshal] at htext
    cases htext
    rw [hset] at hback
    cases hback

end Piggy.Go.Markl
