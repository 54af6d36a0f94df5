import Piggy.Go.Decoders
import Piggy.Go.Id

/-!
# Parsing into a used id

A reader that works on its receiver step by step should still give a result that depends
on the text alone, and leave nothing half done when it fails. Which texts meet this is
decided by three things: whether the text sets the purpose at all, whether it has been
set when the body fails, and whether the payload is empty, which leaves the old data.
-/

namespace Piggy.Go.Markl

open Piggy.Core
open Piggy.Go.Blech32 (isLowerHrpByte)

/-! ## The registry -/

namespace Registry

variable (reg : Registry)

/-- A name that resolves is the id of its format, unless it has the shape of a purpose. -/
theorem getFormatOrError_spec {name : Bytes} {f : Format} (h : reg.getFormatOrError name = .ok f) :
    name ≠ [] ∧ f.id ≠ [] ∧ (∀ b ∈ f.id, isLowerHrpByte b = true) ∧
      reg.getFormatOrError f.id = .ok f ∧ (Blech32.separator ∉ name → name = f.id) := by
  have hfound : ∀ n, Blech32.separator ∉ n → reg.aliases.lookup n = none := by
    intro n hn
    rw [List.lookup_eq_none_iff]
    intro a ha
    rw [bne_iff_ne]
    rintro rfl
    exact hn (reg.shaped a ha)
  simp only [getFormatOrError] at h
  rcases hfind : reg.formats.find? (fun f => f.id == (reg.aliases.lookup name).getD name) with _ | g
  · rw [hfind] at h
    cases h
  · rw [hfind] at h
    cases h
    obtain ⟨hne, hchars⟩ := reg.charset f (List.mem_of_find?_eq_some hfind)
    have hbeq := List.find?_some hfind
    have hid : f.id = (reg.aliases.lookup name).getD name := eq_of_beq hbeq
    have hself : reg.aliases.lookup f.id = none := hfound _ (Blech32.separator_of_lowerHrp hchars)
    refine ⟨?_, hne, hchars, ?_, ?_⟩
    · rintro rfl
      rw [hfound [] (by simp)] at hid
      exact hne hid
    · simp only [getFormatOrError, hself, Option.getD_none]
      rw [hid, hfind]
    · intro hn
      rw [hfound _ hn] at hid
      exact hid.symm

/-- A format and a payload that a purpose lets through, the empty payload included. -/
structure Fits (purposeId formatId bites : Bytes) (f : Format) : Prop where
  format : reg.getFormatOrError formatId = .ok f
  purpose : reg.validatePurposeAndFormatId purposeId formatId = .ok ()
  size : bites ≠ [] → bites.length = f.size

end Registry

/-! ## What the setter of format and data does -/

namespace Id

variable (reg : Registry) (t : CaseTables)

/-- A call that succeeds. -/
def Succeeds (o : Outcome) : Prop := o.1 = .ok ()

instance (o : Outcome) : Decidable (Succeeds o) := inferInstanceAs (Decidable (o.1 = .ok ()))

/-- The setter resets the receiver, also by way of an error, or takes format and data; with
an empty payload it takes the format only. -/
theorem setMarklId_cases (formatId bites : Bytes) (id : Id) :
    (formatId = [] ∧ bites = [] ∧ setMarklId reg formatId bites id = (.ok (), zero)) ∨
    (¬ (formatId = [] ∧ bites = []) ∧ (∀ f, ¬ reg.Fits id.purposeId formatId bites f) ∧
      ∃ e, setMarklId reg formatId bites id = (.error e, zero)) ∨
    ∃ f, reg.Fits id.purposeId formatId bites f ∧ setMarklId reg formatId bites id =
      (.ok (), ⟨id.purposeId, some f, if bites = [] then id.data else bites⟩) := by
  by_cases hempty : formatId = [] ∧ bites = []
  · exact .inl ⟨hempty.1, hempty.2, by rw [setMarklId, if_pos hempty]; rfl⟩
  right
  rcases hformat : reg.getFormatOrError formatId with e | f
  · refine .inl ⟨hempty, ?_, e, ?_⟩
    · intro f hf
      rw [hf.format] at hformat
      cases hformat
    · simp only [setMarklId, if_neg hempty, setFormatId, hformat]
      rfl
  rcases hpurpose : reg.validatePurposeAndFormatId id.purposeId formatId with e | ⟨⟩
  · refine .inl ⟨hempty, ?_, e, ?_⟩
    · intro g hg
      rw [hg.purpose] at hpurpose
      cases hpurpose
    · simp only [setMarklId, if_neg hempty, setFormatId, hformat, hpurpose, Result.lift]
      rfl
  by_cases hbites : bites = []
  · refine .inr ⟨f, ⟨hformat, hpurpose, fun h => absurd hbites h⟩, ?_⟩
    simp only [setMarklId, if_neg hempty, setFormatId, hformat, hpurpose, Result.lift, setData,
      if_pos hbites]
  by_cases hsize : bites.length = f.size
  · refine .inr ⟨f, ⟨hformat, hpurpose, fun _ => hsize⟩, ?_⟩
    simp only [setMarklId, if_neg hempty, setFormatId, hformat, hpurpose, Result.lift, setData,
      if_neg hbites, if_neg (not_not.mpr hsize)]
  · refine .inl ⟨hempty, ?_, .wrongSize f.size bites.length, ?_⟩
    · intro g hg
      obtain rfl : f = g := Except.ok.inj (hformat.symm.trans hg.format)
      exact hsize (hg.size hbites)
    · simp only [setMarklId, if_neg hempty, setFormatId, hformat, hpurpose, Result.lift, setData,
        if_neg hbites, if_pos hsize]
      rfl

/-! ## The law of a reader -/

/-- A reader's end does not depend on its receiver, nor does the result; and where it fails,
the receiver is what it was or null. -/
structure Law (read : Id → Outcome) : Prop where
  ends : ∀ id id', Succeeds (read id) → Succeeds (read id')
  result : ∀ id id', Succeeds (read id) → (read id).2 = (read id').2
  failed : ∀ id, ¬ Succeeds (read id) → (read id).2 = id ∨ (read id).2 = zero

/-- A reader that fails before it does anything meets the law. -/
theorem law_of_untouched (e : Id → Error) : Law fun id => (.error (e id), id) where
  ends _ _ h := nomatch h
  result _ _ h := nomatch h
  failed _ _ := .inl rfl

/-- A reader that fails with the purpose set does not. -/
theorem not_law_of_halfSet (p : Bytes) (e : Id → Error) :
    ¬ Law fun id => (.error (e id), id.setPurposeId p) := by
  intro h
  -- A receiver with another purpose and with data is left in neither state.
  rcases h.failed ⟨0 :: p, some ⟨[97], 1⟩, [0]⟩ nofun with hid | hid
  · have hp := congrArg Id.purposeId hid
    exact absurd (congrArg List.length hp) (by simp [setPurposeId])
  · cases congrArg Id.data hid

/-- With the purpose given, the setter depends on its receiver where it takes a format and no
data. -/
theorem law_setMarklId_purpose {p formatId bites : Bytes} :
    Law (fun id => setMarklId reg formatId bites (id.setPurposeId p)) ↔
      (formatId ≠ [] → bites = [] → ∀ f, ¬ reg.Fits p formatId [] f) := by
  constructor
  · rintro h hne rfl f hf
    have hread : ∀ id : Id, setMarklId reg formatId [] (id.setPurposeId p) =
        (.ok (), ⟨p, some f, id.data⟩) := by
      intro id
      rcases setMarklId_cases reg formatId [] (id.setPurposeId p) with
        ⟨he, -⟩ | ⟨-, hno, -⟩ | ⟨g, hg, hres⟩
      · exact absurd he hne
      · exact absurd hf (hno f)
      · obtain rfl : f = g := Except.ok.inj (hf.format.symm.trans hg.format)
        exact hres
    have hres := h.result zero ⟨[], some ⟨[97], 1⟩, [0]⟩ (by rw [hread]; rfl)
    rw [hread, hread] at hres
    cases congrArg Id.data hres
  · intro h
    -- Every receiver takes the same way, and the data come from the arguments.
    have hread : ∃ o : Outcome, (∀ id : Id, setMarklId reg formatId bites (id.setPurposeId p) = o) ∧
        (¬ Succeeds o → o.2 = zero) := by
      rcases setMarklId_cases reg formatId bites (zero.setPurposeId p) with
        ⟨rfl, rfl, -⟩ | ⟨hne, hno, e, he⟩ | ⟨f, hf, -⟩
      · exact ⟨(.ok (), zero), fun id => rfl, fun hs => absurd rfl hs⟩
      · refine ⟨(.error e, zero), ?_, fun _ => rfl⟩
        intro id
        rcases hformat : reg.getFormatOrError formatId with e' | f
        · simp only [setMarklId, if_neg hne, setFormatId, hformat] at he ⊢
          exact he
        · rcases hpurpose : reg.validatePurposeAndFormatId p formatId with e' | ⟨⟩
          · simp only [setMarklId, if_neg hne, setFormatId, hformat, setPurposeId, hpurpose,
              Result.lift] at he ⊢
            exact he
          · have hsize : ¬ (bites ≠ [] → bites.length = f.size) :=
              fun hs => hno f ⟨hformat, hpurpose, hs⟩
            obtain ⟨hbites, hlen⟩ := Classical.not_imp.mp hsize
            simp only [setMarklId, if_neg hne, setFormatId, hformat, setPurposeId, hpurpose,
              Result.lift, setData, if_neg hbites, if_pos hlen] at he ⊢
            exact he
      · refine ⟨(.ok (), ⟨p, some f, bites⟩), ?_, fun hs => absurd rfl hs⟩
        have hne : formatId ≠ [] := (reg.getFormatOrError_spec hf.format).1
        have hbites : bites ≠ [] := by
          rintro rfl
          exact h hne rfl f hf
        intro id
        rcases setMarklId_cases reg formatId bites (id.setPurposeId p) with
          ⟨he, -⟩ | ⟨-, hno, -⟩ | ⟨g, hg, hres⟩
        · exact absurd he hne
        · exact absurd hf (hno f)
        · obtain rfl : f = g := Except.ok.inj (hf.format.symm.trans hg.format)
          rw [hres, if_neg hbites]
          rfl
    obtain ⟨o, hall, hzero⟩ := hread
    refine ⟨?_, ?_, ?_⟩
    · intro id id' hs
      simp only [hall] at hs ⊢
      exact hs
    · intro id id' _
      simp only [hall]
    · intro id hs
      simp only [hall] at hs ⊢
      exact .inr (hzero hs)

/-- Without a purpose the setter depends on its receiver wherever it may take anything. -/
theorem law_setMarklId {formatId bites : Bytes} (hne : formatId ≠ []) :
    Law (fun id => setMarklId reg formatId bites id) ↔
      ∀ f, reg.getFormatOrError formatId = .ok f → bites ≠ [] ∧ bites.length ≠ f.size := by
  constructor
  · intro h f hf
    by_contra hno
    have hfits : reg.Fits [] formatId bites f := by
      refine ⟨hf, ?_, ?_⟩
      · rw [Registry.validatePurposeAndFormatId, if_pos (.inr rfl)]
      · intro hbites
        by_contra hlen
        exact hno ⟨hbites, hlen⟩
    -- The null receiver takes the format; one with a purpose keeps that purpose or fails.
    have hzero : Succeeds (setMarklId reg formatId bites zero) ∧
        (setMarklId reg formatId bites zero).2.purposeId = [] := by
      rcases setMarklId_cases reg formatId bites zero with ⟨he, -⟩ | ⟨-, hno, -⟩ | ⟨g, -, hres⟩
      · exact absurd he hne
      · exact absurd hfits (hno f)
      · rw [hres]
        exact ⟨rfl, rfl⟩
    have hother := h.ends zero ⟨[0], none, []⟩ hzero.1
    have hres := h.result zero ⟨[0], none, []⟩ hzero.1
    rcases setMarklId_cases reg formatId bites ⟨[0], none, []⟩ with
      ⟨he, -⟩ | ⟨-, -, e, he⟩ | ⟨g, -, hres'⟩
    · exact hne he
    · simp only [he] at hother
      cases hother
    · have hp := congrArg Id.purposeId hres
      simp only [hres', hzero.2] at hp
      cases hp
  · intro h
    have hread : ∀ id, ∃ e, setMarklId reg formatId bites id = (.error e, zero) := by
      intro id
      rcases setMarklId_cases reg formatId bites id with ⟨he, -⟩ | ⟨-, -, e, he⟩ | ⟨f, hf, -⟩
      · exact absurd he hne
      · exact ⟨e, he⟩
      · obtain ⟨hbites, hlen⟩ := h f hf.format
        exact absurd (hf.size hbites) hlen
    refine ⟨?_, ?_, ?_⟩
    · intro id _ hs
      obtain ⟨e, he⟩ := hread id
      simp only [he] at hs
      cases hs
    · intro id _ hs
      obtain ⟨e, he⟩ := hread id
      simp only [he] at hs
      cases hs
    · intro id _
      obtain ⟨e, he⟩ := hread id
      right
      simp only [he]

/-! ## The readers -/

/-- A text that a reader takes or refuses on its own: it is empty, or its purpose slot is
malformed, or it has a purpose and a body that is read, with a payload where the format may
be taken; or it has no purpose and no format takes it. -/
def TextSound (decoder : Bytes → Result Blech32.Error (Bytes × Bytes)) (value : Bytes) : Prop :=
  value = [] ∨
    match Purpose.splitPurposeSlot value with
    | (some slot, body) => ∀ p, Purpose.unquotePurpose slot = .ok p →
        ∃ formatId data, decoder body = .ok (formatId, data) ∧
          (data = [] → ∀ f, ¬ reg.Fits p formatId [] f)
    | (none, body) => ∀ formatId data, decoder body = .ok (formatId, data) →
        ∀ f, reg.getFormatOrError formatId = .ok f → data ≠ [] ∧ data.length ≠ f.size

/-- A binary form that is taken or refused on its own: it is not empty, and behind a purpose
there is a format id, with data where the format may be taken. -/
def BinarySound (bites : Bytes) : Prop :=
  bites ≠ [] ∧ ∀ p rest, cut 0 bites = some (p, rest) →
    ∃ formatId data, cut 0 rest = some (formatId, data) ∧
      (formatId ≠ [] → data = [] → ∀ f, ¬ reg.Fits p formatId [] f)

/-- A reader of texts, by its decoder: the slot first, then the body. -/
structure ReadsText (decoder : Bytes → Result Blech32.Error (Bytes × Bytes))
    (read : Bytes → Id → Outcome) : Prop where
  returns : ∀ body, decoder body ≠ .panic
  name : ∀ body formatId data, decoder body = .ok (formatId, data) → formatId ≠ []
  empty : read [] = fun _ => (.ok (), zero)
  slotMalformed : ∀ value slot body e, value ≠ [] →
    Purpose.splitPurposeSlot value = (some slot, body) → Purpose.unquotePurpose slot = .error e →
    read value = fun id => (.error (.purpose e), id)
  slotTaken : ∀ value slot body p, value ≠ [] →
    Purpose.splitPurposeSlot value = (some slot, body) → Purpose.unquotePurpose slot = .ok p →
    (∀ formatId data, decoder body = .ok (formatId, data) →
      read value = fun id => setMarklId reg formatId data (id.setPurposeId p)) ∧
    ∀ e, decoder body = .error e → ∃ e' : Id → Error,
      read value = fun id => (.error (e' id), id.setPurposeId p)
  noSlot : ∀ value body, value ≠ [] → Purpose.splitPurposeSlot value = (none, body) →
    (∀ formatId data, decoder body = .ok (formatId, data) →
      read value = fun id => setMarklId reg formatId data id) ∧
    ∀ e, decoder body = .error e → ∃ e' : Id → Error, read value = fun id => (.error (e' id), id)

variable {reg} in
/-- Such a reader meets the law exactly on the sound texts. -/
theorem ReadsText.law_iff {decoder : Bytes → Result Blech32.Error (Bytes × Bytes)}
    {read : Bytes → Id → Outcome} (hread : ReadsText reg decoder read) (value : Bytes) :
    Law (read value) ↔ TextSound reg decoder value := by
  by_cases hempty : value = []
  · subst hempty
    rw [hread.empty]
    refine iff_of_true ⟨fun _ _ h => h, fun _ _ _ => rfl, fun _ h => absurd rfl h⟩ (.inl rfl)
  rw [TextSound, or_iff_right hempty]
  rcases hsplit : Purpose.splitPurposeSlot value with ⟨_ | slot, body⟩
  · obtain ⟨hok, herr⟩ := hread.noSlot value body hempty hsplit
    rcases hdec : decoder body with ⟨formatId, data⟩ | e | _
    · rw [hok formatId data hdec, law_setMarklId reg (hread.name body formatId data hdec)]
      constructor
      · intro h formatId' data' heq
        rw [hdec] at heq
        cases heq
        exact h
      · exact fun h => h formatId data hdec
    · obtain ⟨e', he'⟩ := herr e hdec
      rw [he']
      refine iff_of_true (law_of_untouched e') ?_
      intro formatId data heq
      rw [hdec] at heq
      cases heq
    · exact absurd hdec (hread.returns body)
  · rcases hslot : Purpose.unquotePurpose slot with e | p
    · rw [hread.slotMalformed value slot body e hempty hsplit hslot]
      refine iff_of_true (law_of_untouched _) ?_
      intro p heq
      rw [hslot] at heq
      cases heq
    · obtain ⟨hok, herr⟩ := hread.slotTaken value slot body p hempty hsplit hslot
      rcases hdec : decoder body with ⟨formatId, data⟩ | e | _
      · rw [hok formatId data hdec, law_setMarklId_purpose]
        constructor
        · intro h p' hp
          rw [hslot] at hp
          cases hp
          exact ⟨formatId, data, hdec, h (hread.name body formatId data hdec)⟩
        · intro h _ hdata
          obtain ⟨formatId', data', heq, hfits⟩ := h p hslot
          rw [hdec] at heq
          cases heq
          exact hfits hdata
      · obtain ⟨e', he'⟩ := herr e hdec
        rw [he']
        refine iff_of_false (not_law_of_halfSet p e') ?_
        intro h
        obtain ⟨formatId, data, heq, -⟩ := h p hslot
        rw [hdec] at heq
        cases heq
      · exact absurd hdec (hread.returns body)

theorem readsText_set : ReadsText reg (Blech32.decodeString t) (set reg t) where
  returns := Blech32.decodeString_returns t
  name _ _ _ h := ((Blech32.decodeString_eq_ok t).mp h).1
  empty := rfl
  slotMalformed value slot body e hne hsplit hslot := by
    funext id
    rw [set, if_neg hne, hsplit]
    simp only [setWithPurpose, setPurposeFromWireSlot, hslot]
  slotTaken value slot body p hne hsplit hslot := by
    refine ⟨?_, ?_⟩
    · intro formatId data hdec
      funext id
      rw [set, if_neg hne, hsplit]
      simp only [setWithPurpose, setPurposeFromWireSlot, hslot, setWithoutPurpose, hdec]
    · intro e hdec
      refine ⟨fun _ => .blech32 e, ?_⟩
      funext id
      rw [set, if_neg hne, hsplit]
      simp only [setWithPurpose, setPurposeFromWireSlot, hslot, setWithoutPurpose, hdec]
  noSlot value body hne hsplit := by
    have hbody : body = value := (Purpose.splitPurposeSlot_none hsplit).symm
    subst hbody
    refine ⟨?_, ?_⟩
    · intro formatId data hdec
      funext id
      rw [set, if_neg hne, hsplit]
      simp only [setWithoutPurpose, hdec]
    · intro e hdec
      refine ⟨fun _ => .blech32 e, ?_⟩
      funext id
      rw [set, if_neg hne, hsplit]
      simp only [setWithoutPurpose, hdec]

theorem unmarshalBody_error {bites body : Bytes} {e : Blech32.Error}
    (h : Blech32.decode t body = .error e) :
    ∃ e' : Id → Error, ∀ id, unmarshalBody reg t bites body id = (.error (e' id), id) := by
  refine ⟨fun id => if id.purposeId ≠ [] ∧ e = .invalidChecksum then
    (buildLegacyCombinedHRPError t id.purposeId bites body).getD (.blech32 e) else .blech32 e, ?_⟩
  intro id
  simp only [unmarshalBody, h]
  split <;> rfl

theorem readsText_unmarshalText : ReadsText reg (Blech32.decode t) (unmarshalText reg t) where
  returns := Blech32.decode_returns t
  name _ _ _ h := ((Blech32.decode_eq_ok t).mp h).1
  empty := rfl
  slotMalformed value slot body e hne hsplit hslot := by
    funext id
    rw [unmarshalText, if_neg hne, hsplit]
    simp only [setPurposeFromWireSlot, hslot]
  slotTaken value slot body p hne hsplit hslot := by
    refine ⟨?_, ?_⟩
    · intro formatId data hdec
      funext id
      rw [unmarshalText, if_neg hne, hsplit]
      simp only [setPurposeFromWireSlot, hslot, unmarshalBody, hdec]
    · intro e hdec
      obtain ⟨e', he'⟩ := @unmarshalBody_error reg t value body e hdec
      refine ⟨fun id => e' (id.setPurposeId p), ?_⟩
      funext id
      rw [unmarshalText, if_neg hne, hsplit]
      simp only [setPurposeFromWireSlot, hslot]
      exact he' _
  noSlot value body hne hsplit := by
    have hbody : body = value := (Purpose.splitPurposeSlot_none hsplit).symm
    subst hbody
    refine ⟨?_, ?_⟩
    · intro formatId data hdec
      funext id
      rw [unmarshalText, if_neg hne, hsplit]
      simp only [unmarshalBody, hdec]
    · intro e hdec
      obtain ⟨e', he'⟩ := @unmarshalBody_error reg t body body e hdec
      refine ⟨e', ?_⟩
      funext id
      rw [unmarshalText, if_neg hne, hsplit]
      exact he' id

/-- The binary reader meets the law exactly on the sound binary forms. -/
theorem law_unmarshalBinary (bites : Bytes) :
    Law (unmarshalBinary reg bites) ↔ BinarySound reg bites := by
  by_cases hempty : bites = []
  · refine iff_of_false ?_ fun h => h.1 hempty
    intro h
    -- Nothing is read and every receiver stays as it is.
    have hres := h.result zero ⟨[0], none, []⟩ (by rw [unmarshalBinary, if_pos hempty]; rfl)
    rw [unmarshalBinary, unmarshalBinary, if_pos hempty, if_pos hempty] at hres
    cases hres
  rcases hcut : cut 0 bites with _ | ⟨p, rest⟩
  · have hread : unmarshalBinary reg bites = fun id => (.error .emptyByteMissing, id) := by
      funext id
      rw [unmarshalBinary, if_neg hempty, hcut]
    rw [hread]
    refine iff_of_true (law_of_untouched _) ⟨hempty, ?_⟩
    intro p rest heq
    rw [hcut] at heq
    cases heq
  rcases hcut' : cut 0 rest with _ | ⟨formatId, data⟩
  · have hread : unmarshalBinary reg bites =
        fun id => (.error .emptyByteMissing, id.setPurposeId p) := by
      funext id
      rw [unmarshalBinary, if_neg hempty, hcut]
      simp only [hcut']
    rw [hread]
    refine iff_of_false (not_law_of_halfSet p _) ?_
    rintro ⟨-, h⟩
    obtain ⟨formatId, data, heq, -⟩ := h p rest hcut
    rw [hcut'] at heq
    cases heq
  · have hread : unmarshalBinary reg bites =
        fun id => setMarklId reg formatId data (id.setPurposeId p) := by
      funext id
      rw [unmarshalBinary, if_neg hempty, hcut]
      simp only [hcut']
    rw [hread, law_setMarklId_purpose]
    constructor
    · intro h
      refine ⟨hempty, ?_⟩
      intro p' rest' heq
      rw [hcut] at heq
      cases heq
      exact ⟨formatId, data, hcut', h⟩
    · rintro ⟨-, h⟩
      obtain ⟨formatId', data', heq, hfits⟩ := h p rest hcut
      rw [hcut'] at heq
      cases heq
      exact hfits

/-- Behind the slot the two decoders differ only where the human-readable part is no format. -/
theorem body_cases (body : Bytes) (id : Id) :
    (∃ formatId data, Blech32.decodeString t body = .ok (formatId, data) ∧
      Blech32.decode t body = .ok (formatId, data)) ∨
    ((∃ e, Blech32.decodeString t body = .error e) ∧
      ((∃ e, Blech32.decode t body = .error e) ∨ ∃ formatId data,
        Blech32.decode t body = .ok (formatId, data) ∧
        ∃ e, setMarklId reg formatId data id = (.error e, zero))) := by
  rcases hstr : Blech32.decodeString t body with ⟨formatId, data⟩ | e | _
  · exact .inl ⟨formatId, data, rfl, Blech32.decode_of_decodeString t hstr⟩
  · refine .inr ⟨⟨e, rfl⟩, ?_⟩
    rcases hdec : Blech32.decode t body with ⟨formatId, data⟩ | e' | _
    · refine .inr ⟨formatId, data, rfl, ?_⟩
      obtain ⟨hne, hnot, -, groups, hspelled, hcarries⟩ := (Blech32.decode_eq_ok t).mp hdec
      rcases setMarklId_cases reg formatId data id with ⟨he, -⟩ | ⟨-, -, he⟩ | ⟨f, hf, -⟩
      · exact absurd he hne
      · exact he
      · obtain ⟨-, -, hchars, -, hid⟩ := reg.getFormatOrError_spec hf.format
        rw [← hid hnot] at hchars
        rw [(Blech32.decodeString_eq_ok t).mpr ⟨hne, hchars, groups, hspelled, hcarries⟩] at hstr
        cases hstr
    · exact .inl ⟨e', rfl⟩
    · exact absurd hdec (Blech32.decode_returns t body)
  · exact absurd hstr (Blech32.decodeString_returns t body)

/-- The two readers of texts succeed on the same texts and with the same result. -/
theorem set_unmarshalText (value : Bytes) (id : Id) :
    (Succeeds (set reg t value id) ↔ Succeeds (unmarshalText reg t value id)) ∧
      (Succeeds (set reg t value id) → (set reg t value id).2 = (unmarshalText reg t value id).2) := by
  have hset := readsText_set reg t
  have htext := readsText_unmarshalText reg t
  by_cases hempty : value = []
  · subst hempty
    rw [hset.empty, htext.empty]
    exact ⟨Iff.rfl, fun _ => rfl⟩
  rcases hsplit : Purpose.splitPurposeSlot value with ⟨_ | slot, body⟩
  · obtain ⟨hok, herr⟩ := hset.noSlot value body hempty hsplit
    obtain ⟨hok', herr'⟩ := htext.noSlot value body hempty hsplit
    rcases body_cases reg t body id with
      ⟨formatId, data, hd, hd'⟩ | ⟨⟨e, hd⟩, ⟨e', hd'⟩ | ⟨formatId, data, hd', e', he'⟩⟩
    · rw [hok _ _ hd, hok' _ _ hd']
      exact ⟨Iff.rfl, fun _ => rfl⟩
    · obtain ⟨f, hf⟩ := herr e hd
      obtain ⟨f', hf'⟩ := herr' e' hd'
      rw [hf, hf']
      exact ⟨iff_of_false nofun nofun, nofun⟩
    · obtain ⟨f, hf⟩ := herr e hd
      rw [hf, hok' _ _ hd']
      dsimp only
      rw [he']
      exact ⟨iff_of_false nofun nofun, nofun⟩
  · rcases hslot : Purpose.unquotePurpose slot with e | p
    · rw [hset.slotMalformed value slot body e hempty hsplit hslot,
        htext.slotMalformed value slot body e hempty hsplit hslot]
      exact ⟨Iff.rfl, fun _ => rfl⟩
    · obtain ⟨hok, herr⟩ := hset.slotTaken value slot body p hempty hsplit hslot
      obtain ⟨hok', herr'⟩ := htext.slotTaken value slot body p hempty hsplit hslot
      rcases body_cases reg t body (id.setPurposeId p) with
        ⟨formatId, data, hd, hd'⟩ | ⟨⟨e, hd⟩, ⟨e', hd'⟩ | ⟨formatId, data, hd', e', he'⟩⟩
      · rw [hok _ _ hd, hok' _ _ hd']
        exact ⟨Iff.rfl, fun _ => rfl⟩
      · obtain ⟨f, hf⟩ := herr e hd
        obtain ⟨f', hf'⟩ := herr' e' hd'
        rw [hf, hf']
        exact ⟨iff_of_false nofun nofun, nofun⟩
      · obtain ⟨f, hf⟩ := herr e hd
        rw [hf, hok' _ _ hd']
        dsimp only
        rw [he']
        exact ⟨iff_of_false nofun nofun, nofun⟩

/-- The readers meet their law exactly on the sound inputs; the two readers of texts always
agree. -/
theorem readers_law_iff (value : Bytes) :
    (Law (set reg t value) ↔ TextSound reg (Blech32.decodeString t) value) ∧
      (Law (unmarshalText reg t value) ↔ TextSound reg (Blech32.decode t) value) ∧
      (Law (unmarshalBinary reg value) ↔ BinarySound reg value) ∧
      ∀ id, (Succeeds (set reg t value id) ↔ Succeeds (unmarshalText reg t value id)) ∧
        (Succeeds (set reg t value id) →
          (set reg t value id).2 = (unmarshalText reg t value id).2) :=
  ⟨(readsText_set reg t).law_iff value, (readsText_unmarshalText reg t).law_iff value,
    law_unmarshalBinary reg value, set_unmarshalText reg t value⟩

/-- A purpose set before the body fails is a mixture; a text without a purpose keeps the
old one; an empty payload keeps the old data; nothing read is taken for a success. -/
theorem not_law_samples :
    ¬ Law (set production asciiTables (utf8 "md@x".toList)) ∧
      ¬ Law (set production asciiTables
        (utf8 "nonce-qqqqqqqqqqqqqqqqqqqqqqqqqqqqqqqqqqqqqqqqqqqqqqqqqqqqdqkt5x".toList)) ∧
      ¬ Law (set production asciiTables (utf8 "md@sha256-a4ee6e".toList)) ∧
      ¬ Law (unmarshalBinary production []) := by
  refine ⟨?_, ?_, ?_, ?_⟩
  · intro h
    rcases h.failed ⟨utf8 "old".toList, none, []⟩ (by decide +kernel) with hid | hid
    · exact absurd hid (by decide +kernel)
    · exact absurd hid (by decide +kernel)
  · intro h
    exact absurd (h.result zero ⟨utf8 "old".toList, none, []⟩ (by decide +kernel)) (by decide +kernel)
  · intro h
    exact absurd (h.result zero ⟨[], some ⟨utf8 "nonce".toList, 32⟩, List.replicate 32 0⟩ (by decide +kernel))
      (by decide +kernel)
  · intro h
    exact absurd (h.result zero ⟨utf8 "old".toList, none, []⟩ (by decide +kernel)) (by decide +kernel)

end Id

end Piggy.Go.Markl
