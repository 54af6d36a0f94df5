import Piggy.Go.Decoders
import Piggy.Go.Id

/-!
# The combined wire form

For a while ids were written with a checksum made over purpose and format together. Such a
text fails the check of the split form; the reader then tries the combined one and, when
that verifies, says what the text holds and which six characters would make it a split one.
-/

namespace Piggy.Go

open Piggy.Core
open Piggy.Markl.Blech32 (Carries carries_iff exists_carries checksumOf_range)

/-! ## Slots as they are spelled -/

namespace Purpose

/-- What is scanned ends with the quote and stands in front, whatever follows. -/
theorem scanQuoted_eq_some {quote : UInt8} {s front back : Bytes}
    (h : scanQuoted quote s = some (front, back)) :
    s = front ++ back ∧ front.getLast? = some quote ∧
      ∀ back', scanQuoted quote (front ++ back') = some (front, back') := by
  fun_induction scanQuoted quote s generalizing front with
  | case1 => cases h
  | case2 => cases h
  | case3 escaped bs ih =>
    obtain ⟨⟨front', back'⟩, hscan, heq⟩ := Option.map_eq_some_iff.mp h
    obtain ⟨rfl, rfl⟩ := Prod.mk.inj heq
    obtain ⟨rfl, hlast, hall⟩ := ih hscan
    refine ⟨rfl, ?_, ?_⟩
    · rw [List.getLast?_cons, List.getLast?_cons, hlast]
      rfl
    · intro other
      simp [scanQuoted, hall other]
  | case4 bs hne =>
    obtain ⟨rfl, rfl⟩ := Prod.mk.inj (Option.some.inj h)
    refine ⟨rfl, rfl, ?_⟩
    intro other
    cases other <;> simp [scanQuoted, hne]
  | case5 b bs hesc hquote ih =>
    obtain ⟨⟨front', back'⟩, hscan, heq⟩ := Option.map_eq_some_iff.mp h
    obtain ⟨rfl, rfl⟩ := Prod.mk.inj heq
    obtain ⟨rfl, hlast, hall⟩ := ih hscan
    refine ⟨rfl, ?_, ?_⟩
    · rw [List.getLast?_cons, hlast]
      rfl
    · intro other
      have hcons : ∀ rest, scanQuoted quote (b :: rest) =
          (scanQuoted quote rest).map fun x => (b :: x.1, x.2) := by
        intro rest
        cases rest <;> simp [scanQuoted, hesc, hquote]
      rw [List.cons_append, hcons, hall other]
      rfl

/-- A slot spells a purpose bare, or between quotes of which only the last one closes. -/
def Spells (slot purpose : Bytes) : Prop :=
  (purposeIsBareExpressible slot = true ∧ purpose = slot) ∨
    ∃ quote interior, slot = quote :: interior ∧ (quote = quoteDouble ∨ quote = quoteSingle) ∧
      scanQuoted quote interior = some (interior, []) ∧
      purpose = unescapePurposeInterior interior.dropLast

/-- A bare purpose starts with no quote and has no join in it. -/
theorem bare_spec {slot : Bytes} (h : purposeIsBareExpressible slot = true) :
    slot ≠ [] ∧ ∀ b ∈ slot, b ≠ join ∧ b ≠ quoteDouble ∧ b ≠ quoteSingle := by
  simp only [purposeIsBareExpressible, Bool.and_eq_true, List.all_eq_true, decide_eq_true_eq] at h
  obtain ⟨hne, hbare⟩ := h
  have hascii : IsAscii slot := by
    apply isAscii_of_runes
    intro r hr
    have hchar := hbare r hr
    simp only [Markl.isBareChar, Bool.or_eq_true, beq_iff_eq] at hchar
    rcases hchar with (halnum | hslash) | hdash
    · exact Blech32.ascii_of_isHrpChar (by simpa [Piggy.Markl.Blech32.isHrpChar] using halnum)
    · rw [hslash]
      decide
    · rw [hdash]
      decide
  refine ⟨hne, ?_⟩
  intro b hb
  have hmem : asciiChar b ∈ (runes slot).map Prod.snd := by
    rw [runes_ascii hascii]
    exact List.mem_map_of_mem hb
  obtain ⟨r, hr, hchar⟩ := List.mem_map.mp hmem
  have hbareByte : Markl.isBareChar (asciiChar b) = true := by
    rw [← hchar]
    exact hbare r hr
  refine ⟨?_, ?_, ?_⟩
  all_goals
    rintro rfl
    revert hbareByte
    decide

/-- A spelled slot is split off whatever body follows and read as its purpose. -/
theorem Spells.split {slot purpose : Bytes} (h : Spells slot purpose) (body : Bytes) :
    splitPurposeSlot (slot ++ join :: body) = (some slot, body) ∧
      unquotePurpose slot = .ok purpose := by
  rcases h with ⟨hbare, rfl⟩ | ⟨quote, interior, rfl, hquote, hscan, rfl⟩
  · obtain ⟨hne, hbytes⟩ := bare_spec hbare
    cases purpose with
    | nil => exact absurd rfl hne
    | cons b bs =>
      obtain ⟨-, hd, hs⟩ := hbytes b List.mem_cons_self
      have hcut : cut join (b :: bs ++ join :: body) = some (b :: bs, body) :=
        cut_eq_some.mpr ⟨rfl, fun hmem => (hbytes join hmem).1 rfl⟩
      refine ⟨?_, ?_⟩
      · rw [List.cons_append] at hcut ⊢
        simp only [splitPurposeSlot, if_pos (And.intro hd hs), hcut]
      · rw [unquotePurpose, if_pos ⟨hd, hs⟩, if_pos hbare]
  · obtain ⟨-, hlast, hall⟩ := scanQuoted_eq_some hscan
    have hisQuote : ¬ (quote ≠ quoteDouble ∧ quote ≠ quoteSingle) := by
      rintro ⟨hd, hs⟩
      exact hquote.elim hd hs
    refine ⟨?_, ?_⟩
    · rw [List.cons_append, splitPurposeSlot, if_neg hisQuote, hall]
      simp only [if_pos]
    · rw [unquotePurpose, if_neg hisQuote, if_pos hlast]

/-- What is split off in front of a body and read as a purpose spells it. -/
theorem spells_of_split {value slot body purpose : Bytes} (hbody : body ≠ [])
    (hsplit : splitPurposeSlot value = (some slot, body))
    (hslot : unquotePurpose slot = .ok purpose) :
    value = slot ++ join :: body ∧ Spells slot purpose := by
  cases value with
  | nil => cases hsplit
  | cons quote bs =>
    rw [splitPurposeSlot] at hsplit
    by_cases hquote : quote ≠ quoteDouble ∧ quote ≠ quoteSingle
    · rw [if_pos hquote] at hsplit
      rcases hcut : cut join (quote :: bs) with _ | ⟨front, back⟩
      · simp only [hcut] at hsplit
        cases hsplit
      · simp only [hcut, Prod.mk.injEq, Option.some.injEq] at hsplit
        obtain ⟨rfl, rfl⟩ := hsplit
        obtain ⟨hvalue, -⟩ := cut_eq_some.mp hcut
        refine ⟨hvalue, .inl ?_⟩
        cases front with
        | nil => cases hslot
        | cons b front =>
          obtain rfl : quote = b := (List.cons.inj hvalue).1
          rw [unquotePurpose, if_pos hquote] at hslot
          split at hslot
          · next hbare =>
            cases hslot
            exact ⟨hbare, rfl⟩
          · cases hslot
    · rw [if_neg hquote] at hsplit
      rcases hscan : scanQuoted quote bs with _ | ⟨interior, _ | ⟨b, back⟩⟩
      · simp only [hscan, Prod.mk.injEq] at hsplit
        exact absurd hsplit.2.symm hbody
      · simp only [hscan, Prod.mk.injEq] at hsplit
        exact absurd hsplit.2.symm hbody
      · simp only [hscan] at hsplit
        split at hsplit
        · next hjoin =>
          obtain ⟨hsome, rfl⟩ := Prod.mk.inj hsplit
          obtain rfl := Option.some.inj hsome
          obtain ⟨rfl, hlast, hall⟩ := scanQuoted_eq_some hscan
          rw [unquotePurpose, if_neg hquote, if_pos hlast] at hslot
          refine ⟨by rw [hjoin, List.cons_append], .inr ⟨quote, interior, rfl, ?_, ?_, ?_⟩⟩
          · by_contra hno
            exact hquote (not_or.mp hno)
          · simpa using hall []
          · exact (Except.ok.inj hslot).symm
        · exact absurd (Prod.mk.inj hsplit).2.symm hbody

/-- Every purpose that is text is spelled by its canonical slot. -/
theorem spells_spellPurpose (p : List Char) : Spells (spellPurpose (utf8 p)) (utf8 p) := by
  obtain ⟨hsplit, hslot⟩ := splitPurposeSlot_spell p ['-']
  exact (spells_of_split (by decide) hsplit hslot).2

end Purpose

/-! ## The two decoders over one body -/

namespace Blech32

variable (t : CaseTables)

theorem lastSeparator_spelled {rest : Bytes} (h : separator ∉ rest) (hrp : Bytes) :
    lastSeparator (hrp ++ separator :: rest) = some hrp.length := by
  have hidx : (hrp ++ separator :: rest).reverse.idxOf? separator = some rest.length := by
    rw [idxOf?_eq_some_iff]
    refine ⟨rest.reverse, hrp.reverse, by simp, by simpa using h, (List.length_reverse).symm⟩
  rw [lastSeparator, hidx, Option.map_some, List.length_append, List.length_cons]
  congr 1
  omega

theorem validateCase_ne_invalidChecksum (s : Bytes) :
    validateCase t s ≠ .error .invalidChecksum := by
  simp only [validateCase]
  split
  · exact fun h => by cases h
  · split <;> exact fun h => by cases h

theorem validateSeparatorPosition_ne_invalidChecksum (input : Bytes) (pos : Option Nat) :
    validateSeparatorPosition input pos ≠ .error .invalidChecksum := by
  cases pos with
  | none => exact fun h => by cases h
  | some pos =>
    rw [validateSeparatorPosition]
    split
    · exact fun h => by cases h
    · split <;> exact fun h => by cases h

/-- Reading groups fails only as the caller says it does. -/
theorem readGroups_error {α : Type} {index : α → Option Nat} {fail : Nat → α → Error}
    {l : List (Nat × α)} {e : Error} (h : readGroups index fail l = .error e) :
    ∃ pos c, e = fail pos c := by
  induction l with
  | nil => cases h
  | cons r rest ih =>
    obtain ⟨pos, c⟩ := r
    rw [readGroups] at h
    rcases hc : index c with _ | d
    · simp only [hc, Except.error.injEq] at h
      exact ⟨pos, c, h.symm⟩
    · simp only [hc] at h
      rcases hrest : readGroups index fail rest with e' | data
      · rw [hrest] at h
        obtain rfl : e' = e := Except.error.inj h
        exact ih hrest
      · rw [hrest] at h
        cases h

theorem payloadOf_eq_invalidChecksum {hrp groups : Bytes} :
    payloadOf t hrp groups = .error .invalidChecksum ↔ verifyChecksum t hrp groups = false := by
  rw [payloadOf]
  by_cases hsum : verifyChecksum t hrp groups = false
  · rw [if_pos hsum]
    exact iff_of_true rfl hsum
  · rw [if_neg hsum]
    refine iff_of_false ?_ hsum
    intro h
    rcases Result.bind_eq_error.mp h with hdrop | ⟨values, -, hconv⟩
    · rw [dropChecksum] at hdrop
      split at hdrop <;> cases hdrop
    · have hbits := Result.lift_eq_error.mp hconv
      rw [convertBits] at hbits
      rcases hrun : Markl.Blech32.convertBits values 5 8 false with e | data
      · rw [hrun] at hbits
        have herror : convertError 5 e = .invalidChecksum := Except.error.inj hbits
        cases e <;> cases herror
      · rw [hrun] at hbits
        cases hbits

/-- Only the residue makes the decoder report the checksum. -/
theorem decode_eq_invalidChecksum {body : Bytes} :
    decode t body = .error .invalidChecksum ↔
      ∃ hrp groups, body = hrp ++ separator :: groups.map charsetByte ∧ hrp ≠ [] ∧
        separator ∉ hrp ∧ validateCase t body = .ok () ∧ (∀ v ∈ groups, v.toNat < 2 ^ 5) ∧
        6 ≤ groups.length ∧ verifyChecksum t hrp groups = false := by
  simp only [decode, decodeData, Result.bind_eq_error, Result.lift_eq_error, Result.lift_eq_ok,
    Result.pure_ne_error, and_false, exists_false, or_false, validateSeparatorPosition_eq_ok,
    validateCase_ne_invalidChecksum, validateSeparatorPosition_ne_invalidChecksum, false_or]
  constructor
  · rintro ⟨⟨⟩, hcase, pos, ⟨hrp, rest, rfl, hnot, hne, hlen, rfl⟩, ⟨⟩, -, h⟩
    obtain ⟨htake, hdrop⟩ := take_drop_separator hrp rest
    rw [htake, hdrop] at h
    rcases h with hfail | ⟨groups, hgroups, hsum⟩
    · obtain ⟨_, _, he⟩ := readGroups_error hfail
      cases he
    · obtain ⟨rfl, hrange⟩ := readGroups_bytes.mp hgroups
      rw [List.length_map] at hlen
      exact ⟨hrp, groups, rfl, hne, hnot, hcase, hrange, hlen, (payloadOf_eq_invalidChecksum t).mp hsum⟩
  · rintro ⟨hrp, groups, rfl, hne, hnot, hcase, hrange, hlen, hsum⟩
    obtain ⟨htake, hdrop⟩ := take_drop_separator hrp (groups.map charsetByte)
    have hlower := lowerHrp_map_charsetByte hrange
    refine ⟨(), hcase, hrp.length, ⟨hrp, _, rfl, hnot, hne, by rwa [List.length_map], rfl⟩, (), ?_, ?_⟩
    · rw [hdrop]
      exact (validateCase_eq_ok t (isAscii_of_lowerHrp hlower)).mpr
        fun b hb => (isLowerHrpByte_spec (hlower b hb)).2.1
    · rw [htake, hdrop]
      exact .inr ⟨groups, readGroups_bytes.mpr ⟨rfl, hrange⟩, (payloadOf_eq_invalidChecksum t).mpr hsum⟩

/-- The bytes of groups are in lower case already and each has its index. -/
theorem mapM_charsetByte {groups : Bytes} (h : ∀ v ∈ groups, v.toNat < 2 ^ 5) :
    ((groups.map charsetByte).map lowerByte).mapM charset.idxOf? = some (groups.map UInt8.toNat) := by
  induction groups with
  | nil => rfl
  | cons v vs ih =>
    have hv := h v List.mem_cons_self
    have hspec : lowerByte (charsetByte v) = charsetByte v ∧
        charset.idxOf? (charsetByte v) = some v.toNat := by
      refine ⟨?_, (charsetByte_spec hv).1⟩
      have hall : ∀ n < 2 ^ 5, lowerByte charset[n]! = charset[n]! := by decide
      exact hall v.toNat hv
    rw [List.map_cons, List.map_cons, List.mapM_cons, hspec.1, hspec.2,
      ih fun w hw => h w (List.mem_cons_of_mem v hw)]
    rfl

/-- On a spelled body the override changes what the checksum is made over and no more. -/
theorem decodeWithHRPOverride_spelled {under hrp groups f d : Bytes} (hne : hrp ≠ [])
    (hcase : validateCase t (hrp ++ separator :: groups.map charsetByte) = .ok ())
    (hrange : ∀ v ∈ groups, v.toNat < 2 ^ 5) (hlen : 6 ≤ groups.length) :
    decodeWithHRPOverride t under (hrp ++ separator :: groups.map charsetByte) = some (f, d) ↔
      f = hrp ∧ Carries (hrpExpand t under) groups d := by
  have hlast := lastSeparator_spelled (separator_of_lowerHrp (lowerHrp_map_charsetByte hrange)) hrp
  have hpos : validateSeparatorPosition (hrp ++ separator :: groups.map charsetByte)
      (some hrp.length) = .ok hrp.length := by
    rw [validateSeparatorPosition, if_neg (mt List.length_eq_zero_iff.mp hne), if_neg]
    rw [List.length_append, List.length_cons, List.length_map, dataPortionMinWidth]
    omega
  obtain ⟨htake, hdrop⟩ := take_drop_separator hrp (groups.map charsetByte)
  have hback : (groups.map UInt8.toNat).map UInt8.ofNat = groups := by
    rw [List.map_map]
    exact List.map_id'' (fun v => UInt8.ofNat_toNat) groups
  have hrun : decodeWithHRPOverride t under (hrp ++ separator :: groups.map charsetByte) =
      if verifyChecksum t under groups then
        (convertBits (groups.take (groups.length - 6)) 5 8 false).toOption.map fun data => (hrp, data)
      else none := by
    simp only [decodeWithHRPOverride, hcase, hlast, hpos, hdrop, htake, mapM_charsetByte hrange, hback,
      Except.toOption, Option.bind_eq_bind, Option.bind_some]
    split
    · cases convertBits (groups.take (groups.length - 6)) 5 8 false <;> rfl
    · rfl
  rw [hrun]
  constructor
  · intro h
    split at h
    · next hsum =>
      rcases hbits : convertBits (groups.take (groups.length - 6)) 5 8 false with e | data
      · rw [hbits] at h
        cases h
      · rw [hbits] at h
        obtain ⟨rfl, rfl⟩ := Prod.mk.inj (Option.some.inj h)
        exact ⟨rfl, hrange, hlen, of_decide_eq_true hsum, convertBits_eq_ok.mp hbits⟩
    · cases h
  · rintro ⟨rfl, hcarries⟩
    have hsum : verifyChecksum t under groups = true := decide_eq_true hcarries.residue
    have hbits : convertBits (groups.take (groups.length - 6)) 5 8 false = .ok d :=
      convertBits_eq_ok.mpr hcarries.payload
    rw [if_pos hsum, hbits]
    rfl

/-- The groups of a payload differ in their checksum only. -/
theorem take_carries {fed fed' groups groups' d : Bytes} (h : Carries fed groups d)
    (h' : Carries fed' groups' d) :
    groups.length = groups'.length ∧
      groups.take (groups.length - 6) ++ groups'.drop (groups'.length - 6) = groups' := by
  obtain ⟨values, hconv, rfl⟩ := carries_iff.mp h
  obtain ⟨values', hconv', rfl⟩ := carries_iff.mp h'
  obtain rfl : values = values' := Except.ok.inj (hconv.symm.trans hconv')
  simp only [List.length_append, (checksumOf_range _).1, Nat.add_sub_cancel, List.take_left,
    List.drop_left, true_and]

end Blech32

/-! ## What the reader says of a combined text -/

namespace Markl

open Blech32 (separator charsetByte hrpExpand verifyChecksum convertBits createChecksum)
open Purpose (Spells spells_spellPurpose splitPurposeSlot unquotePurpose join)

variable (reg : Registry) (t : CaseTables)

/-- A body as it was written before the split: the format in front, the checksum made over
the purpose and the format joined. -/
def combinedBody (purpose formatId data : Bytes) : Except Blech32.Error Bytes := do
  let values ← convertBits data 8 5 true
  pure (formatId ++ separator ::
    (values ++ createChecksum t (purpose ++ join :: formatId) values).map charsetByte)

theorem combinedBody_eq_ok {purpose formatId data body : Bytes} :
    combinedBody t purpose formatId data = .ok body ↔
      ∃ groups, body = formatId ++ separator :: groups.map charsetByte ∧
        Carries (hrpExpand t (purpose ++ join :: formatId)) groups data := by
  simp only [combinedBody, bind_ok, pure_ok, Blech32.convertBits_eq_ok, carries_iff, createChecksum]
  constructor
  · rintro ⟨values, hconv, rfl⟩
    exact ⟨_, rfl, values, hconv, rfl⟩
  · rintro ⟨groups, rfl, values, hconv, rfl⟩
    exact ⟨values, hconv, rfl⟩

/-- The body verifies under the human-readable part it shows. -/
def VerifiesAlone (body : Bytes) : Prop :=
  ∃ hrp groups, body = hrp ++ separator :: groups.map charsetByte ∧
    (∀ v ∈ groups, v.toNat < 2 ^ 5) ∧ verifyChecksum t hrp groups = true

/-- The text that purpose, format and payload have in the combined form. -/
def IsCombined (text purpose formatId data : Bytes) : Prop :=
  ∃ slot body, text = slot ++ join :: body ∧ Spells slot purpose ∧
    combinedBody t purpose formatId data = .ok body

/-- The last separator divides a body. -/
theorem body_inj {f f' groups groups' : Bytes} (hrange : ∀ v ∈ groups, v.toNat < 2 ^ 5)
    (hrange' : ∀ v ∈ groups', v.toNat < 2 ^ 5)
    (h : f ++ separator :: groups.map charsetByte = f' ++ separator :: groups'.map charsetByte) :
    f = f' ∧ groups = groups' := by
  have hlast := Blech32.lastSeparator_spelled
    (Blech32.separator_of_lowerHrp (Blech32.lowerHrp_map_charsetByte hrange)) f
  have hlast' := Blech32.lastSeparator_spelled
    (Blech32.separator_of_lowerHrp (Blech32.lowerHrp_map_charsetByte hrange')) f'
  rw [h, hlast'] at hlast
  obtain ⟨rfl, hrest⟩ := List.append_inj h (Option.some.inj hlast).symm
  have hread : Blech32.readGroups Blech32.charset.idxOf? (fun _ _ => .invalidChecksum)
      ((groups'.map charsetByte).zipIdx.map Prod.swap) = .ok groups :=
    Blech32.readGroups_bytes.mpr ⟨(List.cons.inj hrest).2.symm, hrange⟩
  rw [Blech32.readGroups_bytes.mpr ⟨rfl, hrange'⟩] at hread
  exact ⟨rfl, (Except.ok.inj hread).symm⟩

theorem verifiesAlone_spelled {f groups : Bytes} (hrange : ∀ v ∈ groups, v.toNat < 2 ^ 5) :
    VerifiesAlone t (f ++ separator :: groups.map charsetByte) ↔ verifyChecksum t f groups = true := by
  constructor
  · rintro ⟨f', groups', heq, hrange', hsum⟩
    obtain ⟨rfl, rfl⟩ := body_inj hrange hrange' heq
    exact hsum
  · intro hsum
    exact ⟨f, groups, rfl, hrange, hsum⟩

/-- A text has one purpose, format and payload in the combined form. -/
theorem IsCombined.unique {text p p' f f' d d' : Bytes} (h : IsCombined t text p f d)
    (h' : IsCombined t text p' f' d') : p = p' ∧ f = f' ∧ d = d' := by
  obtain ⟨slot, body, rfl, hspell, hbody⟩ := h
  obtain ⟨slot', body', heq, hspell', hbody'⟩ := h'
  obtain ⟨hsplit, hslot⟩ := hspell.split body
  obtain ⟨hsplit', hslot'⟩ := hspell'.split body'
  rw [heq, hsplit'] at hsplit
  obtain ⟨hsome, rfl⟩ := Prod.mk.inj hsplit
  obtain rfl := Option.some.inj hsome
  obtain rfl : p' = p := Except.ok.inj (hslot'.symm.trans hslot)
  obtain ⟨groups, rfl, hcarries⟩ := (combinedBody_eq_ok t).mp hbody
  obtain ⟨groups', hsame, hcarries'⟩ := (combinedBody_eq_ok t).mp hbody'
  obtain ⟨rfl, rfl⟩ := body_inj hcarries.range hcarries'.range hsame
  refine ⟨rfl, rfl, ?_⟩
  exact Except.ok.inj (hcarries.payload.symm.trans hcarries'.payload)

namespace Id

theorem setMarklId_ne_legacy {formatId bites p f d c raw : Bytes} {id : Id} :
    (setMarklId reg formatId bites id).1 ≠ .error (.legacyCombinedHRP p f d c raw) := by
  have hformat : ∀ e, reg.getFormatOrError formatId = .error e → e = .unknownFormat
      ((reg.aliases.lookup formatId).getD formatId) := by
    intro e he
    simp only [Registry.getFormatOrError] at he
    split at he
    · cases he
    · exact (Except.error.inj he).symm
  have hpurpose : reg.validatePurposeAndFormatId id.purposeId formatId ≠
      .error (.legacyCombinedHRP p f d c raw) := by
    rw [Registry.validatePurposeAndFormatId]
    split
    · nofun
    · split
      · nofun
      · split <;> nofun
  intro h
  rw [setMarklId] at h
  split at h
  · cases h
  rcases hget : reg.getFormatOrError formatId with e | fmt
  · simp only [setFormatId, hget, hformat e hget] at h
    cases h
  rcases hvalid : reg.validatePurposeAndFormatId id.purposeId formatId with e | ⟨⟩
  · simp only [setFormatId, hget, hvalid, Result.lift] at h
    rw [hvalid, Result.error.inj h] at hpurpose
    exact hpurpose rfl
  simp only [setFormatId, hget, hvalid, Result.lift, setData] at h
  by_cases hbites : bites = []
  · simp only [if_pos hbites] at h
    cases h
  by_cases hsize : bites.length = fmt.size
  · simp only [if_neg hbites, if_neg (not_not.mpr hsize)] at h
    cases h
  · simp only [if_neg hbites, ne_eq, hsize, not_false_eq_true, if_true] at h
    cases h

/-- The combined form is tried after the check of the split form has failed, and only when
there is a purpose. -/
theorem unmarshalBody_legacy {bites body p f d c raw : Bytes} {id : Id} :
    (unmarshalBody reg t bites body id).1 = .error (.legacyCombinedHRP p f d c raw) ↔
      Blech32.decode t body = .error .invalidChecksum ∧ id.purposeId ≠ [] ∧
        buildLegacyCombinedHRPError t id.purposeId bites body =
          some (.legacyCombinedHRP p f d c raw) := by
  rw [unmarshalBody]
  rcases hdec : Blech32.decode t body with ⟨formatId, data⟩ | e | _
  · simp only [reduceCtorEq, false_and, iff_false]
    exact setMarklId_ne_legacy reg
  · by_cases htry : id.purposeId ≠ [] ∧ e = .invalidChecksum
    · obtain ⟨hne, rfl⟩ := htry
      simp only [hne, ne_eq, not_false_eq_true, and_self, if_true, true_and]
      rcases buildLegacyCombinedHRPError t id.purposeId bites body with _ | err
      · simp
      · simp
    · simp only [if_neg htry]
      constructor
      · intro h
        cases h
      · rintro ⟨he, hne, -⟩
        exact absurd ⟨hne, Result.error.inj he⟩ htry
  · simp

/-- On a body that fails the check alone, what is built is read off its groups. -/
theorem buildLegacyCombinedHRPError_spelled {p bites hrp groups : Bytes} {e : Error} (hne : hrp ≠ [])
    (hcase : Blech32.validateCase t (hrp ++ separator :: groups.map charsetByte) = .ok ())
    (hrange : ∀ v ∈ groups, v.toNat < 2 ^ 5) (hlen : 6 ≤ groups.length) :
    buildLegacyCombinedHRPError t p bites (hrp ++ separator :: groups.map charsetByte) = some e ↔
      ∃ d canonical, Carries (hrpExpand t (p ++ join :: hrp)) groups d ∧
        Blech32.encode t hrp d = .ok canonical ∧ 6 ≤ canonical.length ∧
        e = .legacyCombinedHRP p hrp d (canonical.drop (canonical.length - 6)) bites := by
  have hlast := Blech32.lastSeparator_spelled
    (Blech32.separator_of_lowerHrp (Blech32.lowerHrp_map_charsetByte hrange)) hrp
  have hover := fun f d => @Blech32.decodeWithHRPOverride_spelled t (p ++ join :: hrp) hrp groups f d
    hne hcase hrange hlen
  obtain ⟨htake, -⟩ := Blech32.take_drop_separator hrp (groups.map charsetByte)
  simp only [buildLegacyCombinedHRPError, hlast, Option.bind_eq_bind, Option.bind_some,
    if_neg (mt List.length_eq_zero_iff.mp hne), htake]
  rw [Option.bind_eq_some_iff]
  constructor
  · rintro ⟨⟨f, d⟩, hdec, h⟩
    obtain ⟨rfl, hcarries⟩ := (hover f d).mp hdec
    rcases henc : Blech32.encode t f d with _ | canonical
    · rw [henc] at h
      cases h
    · rw [henc] at h
      change (if canonical.length < 6 then none else _) = _ at h
      split at h
      · cases h
      · next hlong =>
        exact ⟨d, canonical, hcarries, henc, Nat.le_of_not_lt hlong, (Option.some.inj h).symm⟩
  · rintro ⟨d, canonical, hcarries, henc, hlong, rfl⟩
    refine ⟨(hrp, d), (hover hrp d).mpr ⟨rfl, hcarries⟩, ?_⟩
    rw [henc]
    exact if_neg (Nat.not_lt.mpr hlong)

/-- The reader reports the combined form of a slot and a body, or of a body alone and the
purpose the receiver came with. -/
theorem unmarshalText_legacy {bites p f d c raw : Bytes} {id : Id} :
    (unmarshalText reg t bites id).1 = .error (.legacyCombinedHRP p f d c raw) ↔
      ∃ q body, ((∃ slot, splitPurposeSlot bites = (some slot, body) ∧ unquotePurpose slot = .ok q) ∨
          (splitPurposeSlot bites = (none, body) ∧ id.purposeId = q)) ∧
        q ≠ [] ∧ Blech32.decode t body = .error .invalidChecksum ∧
        buildLegacyCombinedHRPError t q bites body = some (.legacyCombinedHRP p f d c raw) := by
  have hbody : ∀ {rest : Bytes} {id' : Id},
      (unmarshalBody reg t bites rest id').1 = .error (.legacyCombinedHRP p f d c raw) →
      id'.purposeId ≠ [] ∧ Blech32.decode t rest = .error .invalidChecksum ∧
        buildLegacyCombinedHRPError t id'.purposeId bites rest =
          some (.legacyCombinedHRP p f d c raw) := by
    intro rest id' h
    obtain ⟨hdec, hne, hbuild⟩ := (unmarshalBody_legacy reg t).mp h
    exact ⟨hne, hdec, hbuild⟩
  by_cases hnil : bites = []
  · subst hnil
    refine iff_of_false (by rw [unmarshalText, if_pos rfl]; nofun) ?_
    rintro ⟨q, body, ⟨slot, hsplit, -⟩ | ⟨hsplit, -⟩, -, hdec, -⟩
    · cases hsplit
    · obtain rfl : [] = body := (Prod.mk.inj hsplit).2
      obtain ⟨hrp, groups, hnil, -⟩ := (Blech32.decode_eq_invalidChecksum t).mp hdec
      simp at hnil
  rw [unmarshalText, if_neg hnil]
  rcases hsplit : splitPurposeSlot bites with ⟨_ | slot, rest⟩
  · have hrest : rest = bites := (Purpose.splitPurposeSlot_none hsplit).symm
    subst hrest
    constructor
    · intro h
      exact ⟨id.purposeId, rest, .inr ⟨rfl, rfl⟩, hbody h⟩
    · rintro ⟨q, body, ⟨slot, hslot, -⟩ | ⟨hnone, rfl⟩, hne, hdec, hbuild⟩
      · cases hslot
      · obtain rfl : rest = body := (Prod.mk.inj hnone).2
        exact (unmarshalBody_legacy reg t).mpr ⟨hdec, hne, hbuild⟩
  · rcases hslot : unquotePurpose slot with e | q
    · simp only [setPurposeFromWireSlot, hslot]
      refine iff_of_false nofun ?_
      rintro ⟨q, body, ⟨slot', heq, hread⟩ | ⟨hnone, -⟩, -⟩
      · obtain rfl : slot = slot' := Option.some.inj (Prod.mk.inj heq).1
        rw [hslot] at hread
        cases hread
      · cases hnone
    · simp only [setPurposeFromWireSlot, hslot]
      constructor
      · intro h
        exact ⟨q, rest, .inl ⟨slot, rfl, hslot⟩, hbody h⟩
      · rintro ⟨q', body, ⟨slot', heq, hread⟩ | ⟨hnone, -⟩, hne, hdec, hbuild⟩
        · obtain ⟨hsome, rfl⟩ := Prod.mk.inj heq
          obtain rfl : slot = slot' := Option.some.inj hsome
          obtain rfl : q = q' := Except.ok.inj (hslot.symm.trans hread)
          exact (unmarshalBody_legacy reg t).mpr ⟨hdec, hne, hbuild⟩
        · cases hnone

/-- A combined text with a purpose is recognised, and six of its characters make it split. -/
theorem unmarshalText_combined {slot p f d : Bytes} (hspell : Spells slot p) (hp : p ≠ [])
    (hne : f ≠ []) (hf : ∀ b ∈ f, Blech32.isLowerHrpByte b = true) (id : Id) :
    ∃ body, combinedBody t p f d = .ok body ∧ (¬ VerifiesAlone t body →
      ∃ c, c.length = 6 ∧
        (unmarshalText reg t (slot ++ join :: body) id).1 =
          .error (.legacyCombinedHRP p f d c (slot ++ join :: body)) ∧
        Blech32.decode t (body.take (body.length - 6) ++ c) = .ok (f, d)) := by
  obtain ⟨groups, hcarries⟩ := exists_carries (hrpExpand t (p ++ join :: f)) d
  obtain ⟨split, hsplit⟩ := exists_carries (hrpExpand t f) d
  have hnot := Blech32.separator_of_lowerHrp hf
  have hcase : ∀ gs : Bytes, (∀ v ∈ gs, v.toNat < 2 ^ 5) →
      Blech32.validateCase t (f ++ separator :: gs.map charsetByte) = .ok () := by
    intro gs hgs
    obtain ⟨hascii, hupper⟩ := Blech32.lower_of_spelled hf hgs
    exact (Blech32.validateCase_eq_ok t hascii).mpr hupper
  have hcanonical : Blech32.encode t f d = .ok (f ++ separator :: split.map charsetByte) := by
    refine (Blech32.encode_eq_ok t).mpr ⟨hne, ?_, split, rfl, hsplit⟩
    intro b hb
    obtain ⟨hlow, hhigh⟩ := Blech32.printable_of_lowerHrp (hf b hb)
    exact ⟨hlow, hhigh, (Blech32.isLowerHrpByte_spec (hf b hb)).2.1⟩
  refine ⟨_, (combinedBody_eq_ok t).mpr ⟨groups, rfl, hcarries⟩, ?_⟩
  intro halone
  rw [verifiesAlone_spelled t hcarries.range, Bool.not_eq_true] at halone
  obtain ⟨hread, hslot⟩ := hspell.split (f ++ separator :: groups.map charsetByte)
  obtain ⟨hlen, hsplice⟩ := Blech32.take_carries hcarries hsplit
  have hlong : 6 ≤ groups.length := hcarries.length
  have hdec : Blech32.decode t (f ++ separator :: groups.map charsetByte) = .error .invalidChecksum :=
    (Blech32.decode_eq_invalidChecksum t).mpr
      ⟨f, groups, rfl, hne, hnot, hcase groups hcarries.range, hcarries.range, hlong, halone⟩
  -- Six characters from the end of both texts are six groups.
  have hsix : ∀ gs : Bytes, 6 ≤ gs.length →
      (f ++ separator :: gs.map charsetByte).length - 6 = (f ++ [separator]).length + (gs.length - 6) := by
    intro gs hgs
    simp only [List.length_append, List.length_cons, List.length_map, List.length_nil]
    omega
  have hbody : ∀ gs : Bytes, f ++ separator :: gs.map charsetByte =
      (f ++ [separator]) ++ gs.map charsetByte := by
    intro gs
    rw [List.append_assoc]
    rfl
  have hdrop : (f ++ separator :: split.map charsetByte).drop
      ((f ++ separator :: split.map charsetByte).length - 6) =
        (split.drop (split.length - 6)).map charsetByte := by
    rw [hsix split (hlen ▸ hlong), hbody, List.drop_length_add_append, List.map_drop]
  have htake : (f ++ separator :: groups.map charsetByte).take
      ((f ++ separator :: groups.map charsetByte).length - 6) =
        f ++ separator :: (groups.take (groups.length - 6)).map charsetByte := by
    rw [hsix groups hlong, hbody, hbody, List.take_length_add_append, List.map_take]
  refine ⟨(split.drop (split.length - 6)).map charsetByte, ?_, ?_, ?_⟩
  · rw [List.length_map, List.length_drop, ← hlen]
    omega
  · refine (unmarshalText_legacy reg t).mpr ⟨p, _, .inl ⟨slot, hread, hslot⟩, hp, hdec, ?_⟩
    refine (buildLegacyCombinedHRPError_spelled t hne (hcase groups hcarries.range) hcarries.range
      hlong).mpr ⟨d, _, hcarries, hcanonical, ?_, by rw [hdrop]⟩
    rw [List.length_append, List.length_cons, List.length_map, ← hlen]
    omega
  · rw [htake, List.append_assoc, List.cons_append, ← List.map_append, hsplice]
    exact (Blech32.decode_eq_ok t).mpr ⟨hne, hnot, hcase split hsplit.range, split, rfl, hsplit⟩

/-- What is reported failed the check alone, and the text is what the report says it is. -/
theorem legacy_of_unmarshalText {text p f d c raw : Bytes} {id : Id}
    (h : (unmarshalText reg t text id).1 = .error (.legacyCombinedHRP p f d c raw)) :
    ¬ VerifiesAlone t (splitPurposeSlot text).2 ∧ raw = text ∧
      ((splitPurposeSlot text).1 ≠ none ∨ id.purposeId = [] → IsCombined t text p f d) := by
  obtain ⟨q, body, hpurpose, hq, hdec, hbuild⟩ := (unmarshalText_legacy reg t).mp h
  obtain ⟨hrp, groups, rfl, hne, -, hcase, hrange, hlen, hsum⟩ :=
    (Blech32.decode_eq_invalidChecksum t).mp hdec
  obtain ⟨d', canonical, hcarries, -, -, heq⟩ :=
    (buildLegacyCombinedHRPError_spelled t hne hcase hrange hlen).mp hbuild
  obtain ⟨rfl, rfl, rfl, -, rfl⟩ := Error.legacyCombinedHRP.inj heq
  have hbody : (splitPurposeSlot raw).2 = f ++ separator :: groups.map charsetByte := by
    rcases hpurpose with ⟨slot, hsplit, -⟩ | ⟨hsplit, -⟩
    · rw [hsplit]
    · rw [hsplit]
  refine ⟨?_, rfl, ?_⟩
  · rw [hbody, verifiesAlone_spelled t hrange, hsum]
    exact Bool.false_ne_true
  · intro hfresh
    rcases hpurpose with ⟨slot, hsplit, hslot⟩ | ⟨hsplit, rfl⟩
    · obtain ⟨hvalue, hspell⟩ := Purpose.spells_of_split (by simp) hsplit hslot
      exact ⟨slot, _, hvalue, hspell, (combinedBody_eq_ok t).mpr ⟨groups, rfl, hcarries⟩⟩
    · rw [hsplit] at hfresh
      rcases hfresh with hsome | hnil
      · exact absurd rfl hsome
      · exact absurd hnil hq

/-- Combined texts of a purpose that is not empty are recognised and can be made split, in
whatever receiver. The reader reports none whose body verifies alone; and where the purpose
it reports was read from the text, the text is the combined one of what it reports, and of
that alone. -/
theorem combined_migrates :
    (∀ slot p f d id, Spells slot p → p ≠ [] → f ≠ [] → (∀ b ∈ f, Blech32.isLowerHrpByte b = true) →
      ∃ body, combinedBody t p f d = .ok body ∧ (¬ VerifiesAlone t body →
        ∃ c, c.length = 6 ∧
          (unmarshalText reg t (slot ++ join :: body) id).1 =
            .error (.legacyCombinedHRP p f d c (slot ++ join :: body)) ∧
          Blech32.decode t (body.take (body.length - 6) ++ c) = .ok (f, d))) ∧
    (∀ text id, VerifiesAlone t (splitPurposeSlot text).2 → ∀ p f d c raw,
      (unmarshalText reg t text id).1 ≠ .error (.legacyCombinedHRP p f d c raw)) ∧
    ∀ text id p f d c raw, (splitPurposeSlot text).1 ≠ none ∨ id.purposeId = [] →
      (unmarshalText reg t text id).1 = .error (.legacyCombinedHRP p f d c raw) →
      raw = text ∧ IsCombined t text p f d ∧
        ∀ p' f' d', IsCombined t text p' f' d' → p' = p ∧ f' = f ∧ d' = d := by
  refine ⟨?_, ?_, ?_⟩
  · intro slot p f d id hspell hp hne hf
    exact unmarshalText_combined reg t hspell hp hne hf id
  · intro text id halone p f d c raw h
    exact (legacy_of_unmarshalText reg t h).1 halone
  · intro text id p f d c raw hfresh h
    obtain ⟨-, hraw, hcombined⟩ := legacy_of_unmarshalText reg t h
    refine ⟨hraw, hcombined hfresh, ?_⟩
    intro p' f' d' h'
    exact IsCombined.unique t h' (hcombined hfresh)

example : (unmarshalText production asciiTables (utf8 "p@a-qqwj0fv7".toList) zero).1 =
    .error (.legacyCombinedHRP (utf8 "p".toList) (utf8 "a".toList) [0] (utf8 "qd87cq".toList)
      (utf8 "p@a-qqwj0fv7".toList)) := by
  decide +kernel

/-- The empty purpose can be spelled, and its combined text is reported as a failed checksum
like any other. A receiver that comes with a purpose reports it of a text that has none. -/
theorem not_combined_migrates :
    (Spells (utf8 "\"\"".toList) [] ∧
      combinedBody asciiTables [] (utf8 "a".toList) [0] = .ok (utf8 "a-qq37dd6q".toList) ∧
      ¬ VerifiesAlone asciiTables (utf8 "a-qq37dd6q".toList) ∧
      (unmarshalText production asciiTables (utf8 "\"\"@a-qq37dd6q".toList) zero).1 =
        .error (.blech32 .invalidChecksum)) ∧
    ((unmarshalText production asciiTables (utf8 "a-qqwj0fv7".toList)
        ⟨utf8 "p".toList, none, []⟩).1 =
      .error (.legacyCombinedHRP (utf8 "p".toList) (utf8 "a".toList) [0] (utf8 "qd87cq".toList)
        (utf8 "a-qqwj0fv7".toList)) ∧
      ¬ IsCombined asciiTables (utf8 "a-qqwj0fv7".toList) (utf8 "p".toList) (utf8 "a".toList) [0]) := by
  refine ⟨⟨spells_spellPurpose [], by decide +kernel, ?_, by decide +kernel⟩, by decide +kernel, ?_⟩
  · have hspelled : utf8 "a-qq37dd6q".toList = utf8 "a".toList ++ separator ::
        ([0, 0, 17, 30, 13, 13, 26, 0] : Bytes).map charsetByte := by
      decide +kernel
    rw [hspelled, verifiesAlone_spelled asciiTables (by decide +kernel)]
    decide +kernel
  · rintro ⟨slot, body, htext, -⟩
    have hjoin : join ∈ utf8 "a-qqwj0fv7".toList := by
      rw [htext]
      exact List.mem_append_right slot List.mem_cons_self
    revert hjoin
    decide +kernel

end Id

end Markl

end Piggy.Go
