import Piggy.Agent.Rebox
import Piggy.Ecdh.BoxReads

/-!
# Sealing a box again keeps its contents

Whatever bytes a client sends, the agent reads them within their bounds. A box for a served key comes
back sealed for the key that the client asked for, with the same contents, and with the guid and slot
that it asked for.
-/

namespace Piggy.Agent

open Piggy.Core Piggy.Box Piggy.Card Piggy.Markl
open Piggy.Ecdsa (sshString length_sshString)

variable {Scalar Point Rng : Type} {ssl : OpenSsl Scalar Point Rng}

/-! ## Reading a request -/

/-- The slot at a position, and the position behind it. -/
def slotIdAt (inner : Bytes) (pos : Nat) : Checked (UInt8 × Nat) :=
  match inner[pos]? with
  | none => .failed "ecdh-rebox: truncated slot_id"
  | some slotId => if pos + 1 < 2 ^ 64 then .ok (slotId, pos + 1) else .stopped

variable (ssl) in
/-- A request, read at its positions. -/
def readReboxRequest (details : Bytes) : Checked ReboxRequest := do
  let (inner, _) ← Ecdh.readSshString details 0
  let (box, pos) ← Ecdh.readSshString inner 0
  let (guid, pos) ← Ecdh.readSshString inner pos
  let (slotId, pos) ← slotIdAt inner pos
  let (partner, pos) ← Ecdh.readSshString inner pos
  let flags ← Ecdh.readU32Be inner pos "ecdh-rebox"
  if flags ≠ 0 then
    .failed s!"ecdh-rebox: unsupported flags 0x{String.ofList (Nat.toDigits 16 flags.toNat)}"
  else
    match Ecdh.readBox box with
    | .stopped => .stopped
    | .failed e => .failed s!"ecdh-rebox: bad box: {e}"
    | .ok b => .ok ⟨box, boxParts ssl b, guid, slotId, partner⟩

/-- The readers that check their sums read what the others read, of bytes that a machine can hold. -/
theorem follows_readSshString {data : Bytes} (hsize : data.length < 2 ^ 64) (offset : Nat) :
    (Ecdh.readSshString data offset).Follows id Eq (readSshString data offset) := by
  rw [Ecdh.readSshString, readSshString]
  rcases Nat.lt_or_ge data.length (offset + 4) with hfour | hfour
  · rw [if_pos hfour, Checked.checkedAdd]
    split
    · rw [Checked.ok_bind, if_pos hfour]
      rfl
    · rfl
  · obtain ⟨b0, b1, b2, b3, htake, h0, h1, h2, h3⟩ := Ecdh.four_bytes hfour
    dsimp only
    rw [if_neg (Nat.not_lt.mpr hfour), Checked.checkedAdd_of_lt (by omega), Checked.ok_bind,
      if_neg (Nat.not_lt.mpr hfour), h0, Checked.ok_bind, h1, Checked.ok_bind, h2, Checked.ok_bind, h3,
      Checked.ok_bind, htake, List.length_drop]
    rcases Nat.lt_or_ge (data.length - (offset + 4)) (ofBe [b0, b1, b2, b3]) with hlen | hlen
    · rw [if_pos hlen, Checked.checkedAdd]
      split
      · rw [Checked.ok_bind, if_pos (by omega)]
        rfl
      · rfl
    · rw [if_neg (Nat.not_lt.mpr hlen), Checked.checkedAdd_of_lt (by omega), Checked.ok_bind,
        if_neg (by omega), Checked.slice, if_pos ⟨by omega, by omega⟩, Checked.ok_bind, List.drop_take,
        Nat.add_sub_cancel_left]
      rfl

theorem follows_readU32Be {data : Bytes} (hsize : data.length < 2 ^ 64) (offset : Nat) (label : String) :
    (Ecdh.readU32Be data offset label).Follows id (fun word n => word.toNat = n)
      (readU32Be data offset label) := by
  rw [Ecdh.readU32Be, readU32Be]
  rcases Nat.lt_or_ge data.length (offset + 4) with hfour | hfour
  · rw [if_pos hfour, Checked.checkedAdd]
    split
    · rw [Checked.ok_bind, if_pos hfour]
      rfl
    · rfl
  · obtain ⟨b0, b1, b2, b3, htake, h0, h1, h2, h3⟩ := Ecdh.four_bytes hfour
    rw [if_neg (Nat.not_lt.mpr hfour), Checked.checkedAdd_of_lt (by omega), Checked.ok_bind,
      if_neg (Nat.not_lt.mpr hfour), h0, Checked.ok_bind, h1, Checked.ok_bind, h2, Checked.ok_bind, h3,
      Checked.ok_bind, htake]
    have hlt := ofBe_lt [b0, b1, b2, b3]
    rw [show [b0, b1, b2, b3].length = 4 from rfl] at hlt
    exact (UInt32.toNat_ofNat' ..).trans (Nat.mod_eq_of_lt hlt)

/-- A string that is read is shorter than 32 bits can tell, and it ends inside of the data. -/
theorem readSshString_ok {data bytes : Bytes} {offset pos : Nat}
    (h : readSshString data offset = .ok (bytes, pos)) :
    pos = offset + 4 + bytes.length ∧ pos ≤ data.length ∧ bytes.length < 2 ^ 32 := by
  rw [readSshString] at h
  split at h
  · cases h
  next hfour =>
  dsimp only at h
  split at h
  · cases h
  next hlen =>
  obtain ⟨rfl, rfl⟩ := Prod.mk.inj (Except.ok.inj h)
  have hword := ofBe_lt ((data.drop offset).take 4)
  rw [List.length_take_of_le (by rw [List.length_drop]; omega)] at hword
  rw [List.length_drop] at hlen
  rw [List.length_take_of_le (by rw [List.length_drop]; omega)]
  exact ⟨rfl, by omega, hword⟩

/-- The readers agree on a string, and it is short and ends inside of the data. -/
theorem follows_shortString {data : Bytes} (hsize : data.length < 2 ^ 64) (offset : Nat) :
    (Ecdh.readSshString data offset).Follows id
      (fun a b => a = b ∧ a.1.length < 2 ^ 32 ∧ a.2 ≤ data.length) (readSshString data offset) := by
  refine (follows_readSshString hsize offset).and_ok ?_
  rintro ⟨bytes, pos⟩ h
  obtain ⟨-, hpos, hshort⟩ := readSshString_ok h
  exact ⟨hshort, hpos⟩

variable (ssl) in
/-- A request is read within its bounds, and as the model reads it. -/
theorem readReboxRequest_eq (base : SignCrates) (rng : Rng) {details : Bytes}
    (hsize : details.length < 2 ^ 64) :
    readReboxRequest ssl details = .ofExcept (reboxRequest (boxCrates ssl base rng) details) := by
  have hfollows : (readReboxRequest ssl details).Follows id Eq
      (reboxRequest (boxCrates ssl base rng) details) := by
    rw [readReboxRequest, reboxRequest]
    refine (follows_shortString hsize 0).bind ?_
    rintro ⟨inner, _⟩ _ ⟨rfl, hinner, -⟩
    replace hinner : inner.length < 2 ^ 32 := hinner
    have hbound : inner.length < 2 ^ 64 := by omega
    refine (follows_shortString hbound 0).bind ?_
    rintro ⟨box, pos⟩ _ ⟨rfl, -⟩
    refine (follows_shortString hbound pos).bind ?_
    rintro ⟨guid, pos⟩ _ ⟨rfl, -, hpos⟩
    dsimp only at hpos ⊢
    rw [slotIdAt]
    rcases inner[pos]? with _ | slotId
    · rfl
    dsimp only
    rw [if_pos (by omega)]
    refine (follows_shortString hbound (pos + 1)).bind ?_
    rintro ⟨partner, pos⟩ _ ⟨rfl, -⟩
    refine (follows_readU32Be hbound pos "ecdh-rebox").bind ?_
    rintro flags _ rfl
    have hflags : flags = 0 ↔ flags.toNat = 0 := UInt32.toNat_inj.symm
    by_cases hzero : flags = 0
    · rw [if_neg (not_not.mpr hzero), if_neg (not_not.mpr (hflags.mp hzero)), Ecdh.readBox_eq]
      have hparse : (boxCrates ssl base rng).parseBox box = parseBoxParts ssl box := rfl
      rw [hparse, parseBoxParts]
      rcases PivBox.fromBytes box with e | b
      · rfl
      · rfl
    · rw [if_pos hzero, if_pos (mt hflags.mpr hzero)]
      rfl
  rw [hfollows.eq_ofExcept]
  rcases reboxRequest (boxCrates ssl base rng) details with e | request
  · rfl
  · rfl

/-- A request is larger than the box and the guid in it. -/
theorem reboxRequest_size {crates : SignCrates} {details : Bytes} {request : ReboxRequest}
    (h : reboxRequest crates details = .ok request) :
    request.box.length + request.guid.length < 2 ^ 32 ∧
      crates.parseBox request.box = .ok request.parts := by
  rw [reboxRequest, bind_ok] at h
  obtain ⟨⟨inner, _⟩, hinner, h⟩ := h
  rw [bind_ok] at h
  obtain ⟨⟨box, pos₁⟩, hbox, h⟩ := h
  rw [bind_ok] at h
  obtain ⟨⟨guid, pos₂⟩, hguid, h⟩ := h
  obtain ⟨-, -, hlength⟩ := readSshString_ok hinner
  obtain ⟨hpos₁, -, -⟩ := readSshString_ok hbox
  obtain ⟨hpos₂, hle, -⟩ := readSshString_ok hguid
  dsimp only at h hpos₁ hpos₂ hle
  split at h
  · cases h
  next slotId _ =>
  rw [bind_ok] at h
  obtain ⟨_, hid, h⟩ := h
  cases hid
  rw [bind_ok] at h
  obtain ⟨⟨partner, pos₃⟩, -, h⟩ := h
  rw [bind_ok] at h
  obtain ⟨flags, -, h⟩ := h
  split at h
  · cases h
  split at h
  · cases h
  next hparse =>
  cases h
  exact ⟨by dsimp only; omega, hparse⟩

/-- The request of a client: a box, the guid and slot that the new box is to name, and the target's
key. -/
def encodeReboxRequest (box guid : Bytes) (slotId : UInt8) (partner : Bytes) : Bytes :=
  sshString (sshString box ++ sshString guid ++ [slotId] ++ sshString partner ++ toBe 4 0)

/-- A string is read wherever it stands. -/
theorem readSshString_at {data bytes : Bytes} (front back : Bytes) {offset : Nat}
    (hdata : data = front ++ sshString bytes ++ back) (hoffset : offset = front.length)
    (hsize : data.length < 2 ^ 64) (hshort : bytes.length < 2 ^ 32) :
    readSshString data offset = .ok (bytes, offset + (sshString bytes).length) := by
  subst hdata hoffset
  exact (Ecdh.dispatch_readSshString hsize _ _).mpr (Ecdh.readSshString_append front bytes back hshort hsize)

theorem readU32Be_at {data : Bytes} (front back : Bytes) (value : UInt32) {offset : Nat}
    (hdata : data = front ++ toBe 4 value.toNat ++ back) (hoffset : offset = front.length)
    (hsize : data.length < 2 ^ 64) (label : String) :
    readU32Be data offset label = .ok value.toNat := by
  subst hdata hoffset
  have hread := follows_readU32Be hsize front.length label
  rw [Ecdh.readU32Be_append front back value hsize label] at hread
  obtain ⟨n, hn, rfl⟩ := hread.of_ok
  exact hn

/-- A request that is not too long is read back. -/
theorem reboxRequest_encode (crates : SignCrates) {box guid partner : Bytes} (slotId : UInt8)
    (hsize : box.length + guid.length + partner.length + 17 < 2 ^ 32) {parts : BoxParts}
    (hparse : crates.parseBox box = .ok parts) :
    reboxRequest crates (encodeReboxRequest box guid slotId partner) =
      .ok ⟨box, parts, guid, slotId, partner⟩ := by
  obtain ⟨inner, hinner⟩ : ∃ inner, inner =
      sshString box ++ sshString guid ++ [slotId] ++ sshString partner ++ toBe 4 0 := ⟨_, rfl⟩
  have hlength : inner.length = box.length + guid.length + partner.length + 17 := by
    rw [hinner]
    simp only [List.length_append, length_sshString, length_toBe, List.length_singleton]
    omega
  have houter : readSshString (sshString inner) 0 = .ok (inner, 0 + (sshString inner).length) :=
    readSshString_at [] [] (List.append_nil _).symm rfl (by rw [length_sshString]; omega) (by omega)
  have hbox : readSshString inner 0 = .ok (box, 0 + (sshString box).length) :=
    readSshString_at [] (sshString guid ++ [slotId] ++ sshString partner ++ toBe 4 0)
      (by rw [hinner]; simp only [List.nil_append, List.append_assoc]) rfl (by omega) (by omega)
  have hguid : readSshString inner (0 + (sshString box).length) =
      .ok (guid, 0 + (sshString box).length + (sshString guid).length) :=
    readSshString_at (sshString box) ([slotId] ++ sshString partner ++ toBe 4 0)
      (by rw [hinner]; simp only [List.append_assoc]) (Nat.zero_add _) (by omega) (by omega)
  have hslot : inner[0 + (sshString box).length + (sshString guid).length]? = some slotId := by
    rw [hinner, Nat.zero_add, ← List.length_append, List.append_assoc, List.append_assoc,
      List.getElem?_append_right le_rfl, Nat.sub_self]
    rfl
  have hpartner : readSshString inner (0 + (sshString box).length + (sshString guid).length + 1) =
      .ok (partner, 0 + (sshString box).length + (sshString guid).length + 1 + (sshString partner).length) :=
    readSshString_at (sshString box ++ sshString guid ++ [slotId]) (toBe 4 0) hinner
      (by simp only [List.length_append, List.length_singleton]; omega) (by omega) (by omega)
  have hflags : readU32Be inner
      (0 + (sshString box).length + (sshString guid).length + 1 + (sshString partner).length) "ecdh-rebox" =
      .ok 0 :=
    readU32Be_at (sshString box ++ sshString guid ++ [slotId] ++ sshString partner) [] 0
      (by rw [hinner, List.append_nil]; rfl)
      (by simp only [List.length_append, List.length_singleton]; omega) (by omega) "ecdh-rebox"
  rw [encodeReboxRequest, ← hinner, reboxRequest, houter]
  change (readSshString inner 0 >>= _) = _
  rw [hbox]
  change (readSshString inner (0 + (sshString box).length) >>= _) = _
  rw [hguid]
  dsimp only [bind, Except.bind]
  rw [hslot]
  dsimp only
  rw [hpartner]
  dsimp only
  rw [hflags]
  dsimp only
  rw [if_neg (not_not.mpr rfl), hparse]

/-! ## What is sealed again -/

/-- A box is sealed again exactly when the secret opens it and the target can be read. -/
theorem resealed_ok {rng : Rng} {b : PivBox} {secret partner guid bytes : Bytes} {slotId : UInt8} :
    resealed ssl rng b secret partner guid slotId = .ok bytes ↔
      ∃ plain point target hint new rng', OpensTo ssl b secret plain ∧
        extractEcPointFromSshBlob partner = .ok point ∧
        ecPublicKeyFromPoint ssl point b.curve = .ok target ∧ targetGuidSlot guid slotId = .ok hint ∧
        sealOffline ssl (freshBox b.curve hint plain) target rng = .ok (new, rng') ∧
        new.toBytes = .ok bytes := by
  simp only [resealed, bind_ok, mapError_ok, openWithSecret_ok]
  constructor
  · rintro ⟨_, ⟨plain, hplain, rfl⟩, point, hpoint, target, htarget, hint, hhint, ⟨taken, _⟩, htaken,
      ⟨new, rng'⟩, hnew, hbytes⟩
    obtain ⟨rfl, -⟩ := Prod.mk.inj (Except.ok.inj htaken)
    exact ⟨plain, point, target, hint, new, rng', hplain, hpoint, htarget, hhint, hnew, hbytes⟩
  · rintro ⟨plain, point, target, hint, new, rng', hplain, hpoint, htarget, hhint, hnew, hbytes⟩
    exact ⟨_, ⟨plain, hplain, rfl⟩, point, hpoint, target, htarget, hint, hhint, (plain, _), rfl,
      (new, rng'), hnew, hbytes⟩

/-- A new box for a target, with the contents and the hint that were asked for. -/
structure ResealedFor (ssl : OpenSsl Scalar Point Rng) (curve : EcCurve) (plain : Bytes) (target : Point)
    (hint : Option (Guid × UInt8)) (new : PivBox) : Prop where
  guidSlot : new.guidSlot = hint
  onCurve : new.curve = curve
  opens : ∀ d, ssl.publicPoint curve d = target →
    openOffline ssl new d = .ok { new with plaintext := some plain }

/-- A guid that is named has its sixteen bytes. -/
theorem targetGuidSlot_size {guid : Bytes} {slotId : UInt8} {hint : Option (Guid × UInt8)}
    (h : targetGuidSlot guid slotId = .ok hint) :
    (PivBox.guidSlotBytes hint).length ≤ 3 + guid.length := by
  rw [length_guidSlotBytes]
  rw [targetGuidSlot] at h
  split at h
  · cases h
    exact Nat.le_add_right 3 _
  split at h
  · cases h
  next g hg =>
  cases h
  rw [Guid.fromBytes_ok.mp hg, g.length_bytes]
  exact le_of_eq (if_pos rfl)

/-- The contents of a sealed box are sealed for every target, in a box that a string can hold. -/
theorem exists_resealed (hssl : ssl.Lawful) (havail : ssl.Available) {plain : Bytes} {p : Point}
    {b : PivBox} (h : SealedTo ssl plain p b) {secret : Bytes} (hsecret : TrueSecret ssl b secret)
    {partner point guid sent : Bytes} {slotId : UInt8} {target : Point} {hint : Option (Guid × UInt8)}
    (hpoint : extractEcPointFromSshBlob partner = .ok point)
    (htarget : ssl.pointFromBytes b.curve point = .ok target)
    (hhint : targetGuidSlot guid slotId = .ok hint) (hsent : PivBox.fromBytes sent = .ok b)
    (hsize : sent.length + guid.length < 2 ^ 32) (rng : Rng) :
    ∃ bytes new, resealed ssl rng b secret partner guid slotId = .ok bytes ∧
      bytes.length < 2 ^ 32 ∧ PivBox.fromBytes bytes = .ok new ∧
      ResealedFor ssl b.curve plain target hint new := by
  have hcurve : ssl.OnCurve b.curve target := ⟨point, htarget⟩
  obtain ⟨new, rng', hnew⟩ := exists_sealOffline hssl havail b.curve hint plain hcurve rng
  obtain ⟨hsealed, hnewCurve, hguidSlot⟩ := sealOffline_fresh hssl hcurve hnew
  -- The new box is as long as the one that was sent, but for the guid that it names.
  obtain ⟨hreadable, field, rest, hfield, rfl⟩ := PivBox.fromBytes_ok.mp hsent
  obtain ⟨hlength, hciphertext⟩ := h.length_eq hssl havail hsealed hnewCurve
  have hfits : FitsString new.ciphertext := by
    rw [FitsString, hciphertext]
    exact hreadable.fits.ciphertext
  obtain ⟨hbytes, hread⟩ := hsealed.toBytes hssl hfits
  have hsmall : new.encoding.length < 2 ^ 32 := by
    have hfield := length_guidSlotField hfield
    have hthree : 3 ≤ (PivBox.guidSlotBytes b.guidSlot).length := by
      rw [length_guidSlotBytes]
      split <;> decide
    have hnamed := targetGuidSlot_size hhint
    rw [List.length_append, length_encodingWith] at hsize
    rw [← PivBox.encodingWith_guidSlotBytes, length_encodingWith, hlength, hguidSlot]
    omega
  refine ⟨new.encoding, { new with plaintext := none }, resealed_ok.mpr
    ⟨plain, point, target, hint, new, rng', h.opensTo hssl hsecret, hpoint, ?_, hhint, hnew, hbytes⟩,
    hsmall, hread, hguidSlot, hnewCurve, ?_⟩
  · rw [ecPublicKeyFromPoint, htarget]
    rfl
  · intro d hd
    have hclosed : SealedTo ssl plain target { new with plaintext := none } := {
      header := hsealed.header
      nonce := hsealed.nonce
      iv := hsealed.iv
      onCurve := hsealed.onCurve
      contents := hsealed.contents }
    rw [← hnewCurve] at hd
    exact hclosed.openOffline hssl hd

/-! ## The key of a served box -/

/-- A point of one of the two curves that cards have, whose compressed form has the length that tells
the curve. -/
def CardPoint (ssl : OpenSsl Scalar Point Rng) (curve : EcCurve) (p : Point) : Prop :=
  (curve = .nistP256 ∧ (ssl.pointToBytes curve .compressed p).length = 33) ∨
    (curve = .nistP384 ∧ (ssl.pointToBytes curve .compressed p).length = 49)

/-- A served key has the point of a box's recipient, and the box names its card and slot or no card. -/
def ServedBy (ssl : OpenSsl Scalar Point Rng) (ecdsaPoint : Bytes → Option Bytes) (keys : List NativeKey)
    (b : PivBox) (p : Point) : Prop :=
  CardPoint ssl b.curve p ∧
    ∃ key ∈ keys, ecdsaPoint key.publicKey = some (ssl.pointToBytes b.curve .uncompressed p) ∧
      (b.guidSlot = none ∨ b.guidSlot = some (key.guid, key.slotId))

/-- A key goes with a box: its card is the one that the box names, and the slot too, or the key has the
recipient's point. -/
def GoesWith (ssl : OpenSsl Scalar Point Rng) (ecdsaPoint : Bytes → Option Bytes) (parts : BoxParts)
    (key : NativeKey) (slot : UInt8) : Prop :=
  match parts.guidSlot with
  | some (g, named) => key.guid = g ∧ slot = named
  | none => slot = key.slotId ∧ ∃ want, canonicalizeUncompressed ssl parts.recipient = .ok want ∧
      ecdsaPoint key.publicKey = some want

variable {ecdsaPoint : Bytes → Option Bytes} {keys : List NativeKey}

/-- A key that is found is served, and goes with the box. -/
theorem keyFor_ok {parts : BoxParts} {key : NativeKey} {slot : UInt8}
    (h : keyFor ssl ecdsaPoint keys parts = .ok (key, slot)) :
    key ∈ keys ∧ GoesWith ssl ecdsaPoint parts key slot := by
  obtain ⟨_ | ⟨g, named⟩, recipient, ephemeral⟩ := parts
  · simp only [keyFor] at h
    rcases hfound : findKeyByRecipientPubkey ssl ecdsaPoint keys recipient with _ | found
    · rw [hfound] at h
      cases h
    rw [hfound] at h
    cases h
    rw [findKeyByRecipientPubkey] at hfound
    rcases hwant : canonicalizeUncompressed ssl recipient with e | want
    · rw [hwant] at hfound
      cases hfound
    rw [hwant] at hfound
    have hpoint := List.find?_some hfound
    exact ⟨List.mem_of_find?_eq_some hfound, rfl, want, hwant, of_decide_eq_true hpoint⟩
  · simp only [keyFor] at h
    rcases hfound : findKeyByGuid keys g with _ | found
    · rw [hfound] at h
      cases h
    rw [hfound] at h
    cases h
    rw [findKeyByGuid] at hfound
    have hcard := List.find?_some hfound
    exact ⟨List.mem_of_find?_eq_some hfound, of_decide_eq_true hcard, rfl⟩

/-- No key is found exactly when no served key goes with the box. -/
theorem keyFor_error {parts : BoxParts} {text : String}
    (h : keyFor ssl ecdsaPoint keys parts = .error text) :
    ∀ key ∈ keys, ∀ slot, ¬ GoesWith ssl ecdsaPoint parts key slot := by
  intro key hkey slot hgoes
  obtain ⟨_ | ⟨g, named⟩, recipient, ephemeral⟩ := parts
  · obtain ⟨-, want, hwant, hpoint⟩ := hgoes
    simp only [keyFor] at h
    rcases hfound : findKeyByRecipientPubkey ssl ecdsaPoint keys recipient with _ | found
    · rw [findKeyByRecipientPubkey, hwant] at hfound
      exact List.find?_eq_none.mp hfound key hkey (decide_eq_true hpoint)
    · rw [hfound] at h
      cases h
  · simp only [keyFor] at h
    rcases hfound : findKeyByGuid keys g with _ | found
    · exact List.find?_eq_none.mp hfound key hkey (decide_eq_true hgoes.1)
    · rw [hfound] at h
      cases h

/-- The recipient of a sealed box is told by its length. -/
theorem canonicalize_recipient (hssl : ssl.Lawful) {plain : Bytes} {p : Point} {b : PivBox}
    (h : SealedTo ssl plain p b) (hcard : CardPoint ssl b.curve p) :
    canonicalizeUncompressed ssl b.recipientPubkey = .ok (ssl.pointToBytes b.curve .uncompressed p) := by
  obtain ⟨d, -, -, -, hr, -⟩ := h.contents
  have hpoint := hssl.pointFromBytes_pointToBytes .compressed h.onCurve
  rw [hr, canonicalizeUncompressed, if_neg (hssl.compressed_bounds h.onCurve).2.2]
  dsimp only
  rcases hcard with ⟨hcurve, hlength⟩ | ⟨hcurve, hlength⟩
  · rw [if_pos hlength, ← hcurve, hpoint]
  · rw [if_neg (by omega), if_pos hlength, ← hcurve, hpoint]

/-- For a box of a served key, a key is found. -/
theorem ServedBy.keyFor (hssl : ssl.Lawful) {plain : Bytes} {p : Point} {b : PivBox}
    (h : ServedBy ssl ecdsaPoint keys b p) (hsealed : SealedTo ssl plain p b) :
    ∃ key slot, Agent.keyFor ssl ecdsaPoint keys (boxParts ssl b) = .ok (key, slot) := by
  obtain ⟨hcard, key, hkey, hpoint, hnamed⟩ := h
  rcases hfound : Agent.keyFor ssl ecdsaPoint keys (boxParts ssl b) with text | ⟨found, slot⟩
  · refine absurd ?_ (keyFor_error hfound key hkey key.slotId)
    rw [GoesWith]
    rcases hnamed with hnamed | hnamed
    · rw [show (boxParts ssl b).guidSlot = none from hnamed]
      exact ⟨rfl, _, canonicalize_recipient hssl hsealed hcard, hpoint⟩
    · rw [show (boxParts ssl b).guidSlot = some (key.guid, key.slotId) from hnamed]
      exact ⟨rfl, rfl⟩
  · exact ⟨found, slot, rfl⟩

/-! ## A card in working order -/

/-- The PIN and the card are there, and the card derives a secret. -/
def Works (secret : Bytes) : (op : AgentOp) → AgentAns op → Prop
  | .ensurePin _ _, ans => ∃ acquired, ans = .ok acquired ∧ acquired.offered = false
  | .reconnectToToken _, ans => ans = .ok ()
  | .beginPinSession _, ans => ans = .ok ()
  | .readSlot _ _, ans => ∃ info, ans = .ok info
  | .verifyPin _ _, ans => ans = .ok ()
  | .ecdhDerive _ _ _ _, ans => ans = .ok secret
  | _, _ => True

/-- One call to a card in working order, noted in front of those before it. -/
def NotedWorking (ssl : OpenSsl Scalar Point Rng) (ecdsaPoint : Bytes → Option Bytes)
    (keys : List NativeKey) (secret : Bytes) (calls : List AgentCall) (op : AgentOp) (ans : AgentAns op)
    (calls' : List AgentCall) : Prop :=
  Noted ssl ecdsaPoint keys calls op ans calls' ∧ Works secret op ans

/-- The first round gets to the use of the slot. -/
theorem ensures_withPin_working {α : Type} {secret : Bytes} {op : String} {g : Guid} {slot : UInt8}
    {run : SlotInfo → AgentProg (Except String α)} {post : Except String α → Prop}
    (hrun : ∀ info calls, (run info).Ensures (NotedWorking ssl ecdsaPoint keys secret)
      (fun result _ => post result) calls) (rounds : Nat) (calls : List AgentCall) :
    (withPin op g slot run (rounds + 1) 0).Ensures (NotedWorking ssl ecdsaPoint keys secret)
      (fun result _ => ∃ answer, result = some answer ∧ post answer) calls := by
  have hrun' : ∀ info calls, (run info >>= fun answer => pure (some answer)).Ensures
      (NotedWorking ssl ecdsaPoint keys secret)
      (fun result _ => ∃ answer, result = some answer ∧ post answer) calls := by
    intro info calls
    exact (hrun info calls).bind fun answer _ h => ⟨answer, rfl, h⟩
  have hacquired : (acquirePin op g slot).Ensures (NotedWorking ssl ecdsaPoint keys secret)
      (fun result _ => ∃ acquired, result = .ok acquired ∧ ∀ a ∈ acquired, a.offered = false) calls := by
    rw [acquirePin]
    split
    · rintro _ _ ⟨-, acquired, rfl, hoffered⟩
      refine ⟨some acquired, rfl, ?_⟩
      rintro _ ⟨⟩
      exact hoffered
    · exact ⟨none, rfl, fun _ h => by cases h⟩
  rw [withPin]
  refine hacquired.bind ?_
  rintro _ calls ⟨acquired, rfl, hoffered⟩
  rintro _ _ ⟨-, rfl⟩ _ _ ⟨-, rfl⟩ _ calls ⟨-, info, rfl⟩
  rcases acquired with _ | acquired
  · exact hrun' info calls
  have hsafe : offerTooRisky g acquired = pure false := by
    rw [offerTooRisky, hoffered acquired rfl]
    rfl
  dsimp only
  rw [hsafe]
  rintro _ _ ⟨-, rfl⟩ _ calls -
  exact hrun' info calls

/-- A request whose key is found is answered by what the secret comes to. -/
theorem ensures_handleEcdhRebox_working {crates : SignCrates} {details secret point : Bytes}
    {request : ReboxRequest} {key : NativeKey} {slot : UInt8}
    (hrequest : reboxRequest crates details = .ok request)
    (hkey : keyFor ssl ecdsaPoint keys request.parts = .ok (key, slot))
    (hpoint : request.parts.ephemeral = .ok point) (rounds : Nat) :
    (handleEcdhRebox crates (rounds + 1) details).Ensures (NotedWorking ssl ecdsaPoint keys secret)
      (fun r _ => r = some (derivedReply crates request (.ok secret))) [] := by
  have hderive : ∀ info calls, (ecdhDerive key.guid slot point info).Ensures
      (NotedWorking ssl ecdsaPoint keys secret) (fun result _ => result = .ok secret) calls := by
    rintro info calls _ _ ⟨-, rfl⟩
    rfl
  have hfound : (boxKey request.parts).Ensures (NotedWorking ssl ecdsaPoint keys secret)
      (fun found _ => found = .ok (key, slot)) [] := by
    refine Prog.ensures_iff.mpr fun found calls hexec => ?_
    have hnoted := hexec.mono fun _ _ _ _ h => h.1
    exact (Prog.ensures_iff.mp (ensures_boxKey request.parts) found calls hnoted).1.trans hkey
  rw [handleEcdhRebox, hrequest]
  refine hfound.bind ?_
  rintro _ calls rfl
  dsimp only
  rw [hpoint]
  refine (ensures_withPin_working hderive rounds calls).bind ?_
  rintro _ calls ⟨_, rfl, rfl⟩
  rw [derivedReply]
  dsimp only
  rcases crates.rebox request.box secret request.partner request.guid request.slotId with e | box
  · rfl
  · rfl

/-! ## Every request -/

/-- An agent with boxes and points as the code has them. -/
def AgentSetup.withBoxes (ssl : OpenSsl Scalar Point Rng) (rng : Rng) (setup : AgentSetup) : AgentSetup :=
  { setup with crates := boxCrates ssl setup.crates rng }

theorem parseBox_withBoxes (rng : Rng) (setup : AgentSetup) {bytes : Bytes} {b : PivBox}
    (h : PivBox.fromBytes bytes = .ok b) :
    (setup.withBoxes ssl rng).crates.parseBox bytes = .ok (boxParts ssl b) := by
  change parseBoxParts ssl bytes = .ok (boxParts ssl b)
  rw [parseBoxParts, h]

def ecdhRebox : String := "ecdh-rebox@joyent.com"

/-- A request to seal a box again, as a client makes it. -/
structure AsksFor (ssl : OpenSsl Scalar Point Rng) (request : ReboxRequest) (b : PivBox) (target : Point)
    (hint : Option (Guid × UInt8)) : Prop where
  box : PivBox.fromBytes request.box = .ok b
  target : ∃ point, extractEcPointFromSshBlob request.partner = .ok point ∧
    ssl.pointFromBytes b.curve point = .ok target
  hint : targetGuidSlot request.guid request.slotId = .ok hint

/-- An answer with the bytes of a box that carries the contents for the target. -/
def Carries (ssl : OpenSsl Scalar Point Rng) (curve : EcCurve) (plain : Bytes) (target : Point)
    (hint : Option (Guid × UInt8)) (answer : Answer) : Prop :=
  ∃ details bytes new, answer = .extension (some (ecdhRebox, details)) ∧
    readSshString details 0 = .ok (bytes, details.length) ∧ PivBox.fromBytes bytes = .ok new ∧
    ResealedFor ssl curve plain target hint new

/-- How the agent goes on with a request whose key is found. It stays with the card and the slot of
the key, and it answers with a box only after the card's secret opened the one that was sent. -/
structure AnswersBox (ssl : OpenSsl Scalar Point Rng) (request : ReboxRequest) (key : NativeKey)
    (slot : UInt8) (answer : Answer) (calls : List AgentCall) : Prop where
  stays : ∀ call ∈ calls, call.1.Lookup ∨ call.1.Prepares key.guid slot ∨
    ∃ alg point, call.1 = .ecdhDerive key.guid slot alg point
  fails : (∃ e, answer = .failure e) ∨ answer = .pending ∨
    ∃ secret b plain target hint new bytes alg point, AsksFor ssl request b target hint ∧
      (⟨.ecdhDerive key.guid slot alg point, .ok secret⟩ : AgentCall) ∈ calls ∧
      OpensTo ssl b secret plain ∧ SealedTo ssl plain target new ∧ new.curve = b.curve ∧
      new.guidSlot = hint ∧ new.toBytes = .ok bytes ∧
      answer = .extension (some (ecdhRebox, putString bytes))
  preserves : ∀ {secret b plain p target hint alg point}, AsksFor ssl request b target hint →
    SealedTo ssl plain p b →
    (⟨.ecdhDerive key.guid slot alg point, .ok secret⟩ : AgentCall) ∈ calls → TrueSecret ssl b secret →
    Carries ssl b.curve plain target hint answer

/-- What another agent answers is passed on. -/
def passedOn : Except String (Option (String × Bytes)) → Answer
  | .error e => .failure e
  | .ok reply => .extension reply

/-- How the agent answers a box that goes with none of its keys: it is left to the other agents, and no
card is touched. -/
def LeavesBox (setup : AgentSetup) (details : Bytes) (answer : Answer) (calls : List AgentCall) : Prop :=
  if setup.hasUpstreams then
    ∃ reply before, calls = ⟨.upstreamForward ecdhRebox details, reply⟩ :: before ∧
      (∀ call ∈ before, call.1.Lookup) ∧ answer = passedOn reply
  else (∃ text, answer = .failure text) ∧ ∀ call ∈ calls, call.1.Lookup

/-- How the agent answers a request. -/
def ReboxAnswered (ssl : OpenSsl Scalar Point Rng) (setup : AgentSetup) (ecdsaPoint : Bytes → Option Bytes)
    (keys : List NativeKey) (details : Bytes) (answer : Answer) (calls : List AgentCall) : Prop :=
  match reboxRequest setup.crates details with
  | .error e => answer = .failure e ∧ calls = []
  | .ok request =>
    ((∀ key ∈ keys, ∀ slot, ¬ GoesWith ssl ecdsaPoint request.parts key slot) ∧
        LeavesBox setup details answer calls) ∨
      ∃ key ∈ keys, ∃ slot, GoesWith ssl ecdsaPoint request.parts key slot ∧
        AnswersBox ssl request key slot answer calls

theorem extension_ecdhRebox (setup : AgentSetup) (rounds : Nat) (details : Bytes) :
    extension setup rounds ecdhRebox details =
      handleEcdhRebox setup.crates rounds details >>= cardExtension setup ecdhRebox details := by
  rw [extension, if_neg (by decide), if_neg (by decide), if_neg (by decide), if_neg (by decide),
    if_pos (by decide)]

/-- The reply that comes of a derived secret. -/
theorem derivedReply_ok {setup : AgentSetup} {rng : Rng} {request : ReboxRequest} {b : PivBox}
    (hbox : PivBox.fromBytes request.box = .ok b) {secret bytes : Bytes}
    (hresealed : resealed ssl rng b secret request.partner request.guid request.slotId = .ok bytes) :
    derivedReply (boxCrates ssl setup.crates rng) request (.ok secret) =
      .ok (some (ecdhRebox, putString bytes)) := by
  have hrebox : (boxCrates ssl setup.crates rng).rebox request.box secret request.partner request.guid
      request.slotId = .ok bytes := by
    dsimp only [boxCrates]
    rw [hbox]
    exact hresealed
  rw [derivedReply, hrebox]
  rfl

variable (ssl) in
/-- A derived secret comes to an error, or it opened the box. -/
theorem derivedReply_cases (setup : AgentSetup) (rng : Rng) {request : ReboxRequest} {b : PivBox}
    (hbox : PivBox.fromBytes request.box = .ok b) (secret : Bytes) :
    (∃ e, derivedReply (boxCrates ssl setup.crates rng) request (.ok secret) = .error (.agent e)) ∨
      ∃ bytes, resealed ssl rng b secret request.partner request.guid request.slotId = .ok bytes ∧
        derivedReply (boxCrates ssl setup.crates rng) request (.ok secret) =
          .ok (some (ecdhRebox, putString bytes)) := by
  rcases hresealed : resealed ssl rng b secret request.partner request.guid request.slotId with e | bytes
  · refine .inl ⟨e, ?_⟩
    have hrebox : (boxCrates ssl setup.crates rng).rebox request.box secret request.partner request.guid
        request.slotId = .error e := by
      dsimp only [boxCrates]
      rw [hbox]
      exact hresealed
    rw [derivedReply, hrebox]
  · exact .inr ⟨bytes, rfl, derivedReply_ok hbox hresealed⟩

/-- The reply to a request for a sealed box whose secret was derived. -/
theorem carries_derivedReply (hssl : ssl.Lawful) (havail : ssl.Available) {setup : AgentSetup} {rng : Rng}
    {details : Bytes} {request : ReboxRequest}
    (hrequest : reboxRequest (boxCrates ssl setup.crates rng) details = .ok request) {b : PivBox}
    {target : Point} {hint : Option (Guid × UInt8)} (hasks : AsksFor ssl request b target hint)
    {plain : Bytes} {p : Point} (hsealed : SealedTo ssl plain p b) {secret : Bytes}
    (hsecret : TrueSecret ssl b secret) :
    ∃ bytes, derivedReply (boxCrates ssl setup.crates rng) request (.ok secret) =
        .ok (some (ecdhRebox, putString bytes)) ∧
      Carries ssl b.curve plain target hint (.extension (some (ecdhRebox, putString bytes))) := by
  obtain ⟨point, hpoint, htarget⟩ := hasks.target
  obtain ⟨bytes, new, hbytes, hsmall, hnew, hfor⟩ := exists_resealed hssl havail hsealed hsecret hpoint
    htarget hasks.hint hasks.box (reboxRequest_size hrequest).1 rng
  refine ⟨bytes, derivedReply_ok hasks.box hbytes, putString bytes, bytes, new, rfl, ?_, hnew, hfor⟩
  have hread : readSshString (putString bytes) 0 = .ok (bytes, 0 + (sshString bytes).length) :=
    readSshString_at [] [] (List.append_nil _).symm rfl ?_ hsmall
  · rw [hread, Nat.zero_add]
    rfl
  · change (sshString bytes).length < 2 ^ 64
    rw [length_sshString]
    omega

/-- The box of a request that was read. -/
theorem exists_box {setup : AgentSetup} {rng : Rng} {details : Bytes} {request : ReboxRequest}
    (hrequest : reboxRequest (boxCrates ssl setup.crates rng) details = .ok request) :
    ∃ b, PivBox.fromBytes request.box = .ok b ∧ request.parts = boxParts ssl b := by
  have hparse : parseBoxParts ssl request.box = .ok request.parts := (reboxRequest_size hrequest).2
  rw [parseBoxParts] at hparse
  split at hparse
  · cases hparse
  next b hb =>
  exact ⟨b, hb, (Except.ok.inj hparse).symm⟩

/-- Where the slot was only prepared no secret was derived. -/
theorem not_mem_preparing {g : Guid} {slot : UInt8} {calls : List AgentCall} (h : Preparing g slot calls)
    {g' : Guid} {slot' alg : UInt8} {point : Bytes} {ans : Except PivError Bytes} :
    (⟨.ecdhDerive g' slot' alg point, ans⟩ : AgentCall) ∉ calls :=
  fun hmem => (h _ hmem).elim id id

/-- A request whose key is found. -/
theorem answersBox_of_usesSlot (hssl : ssl.Lawful) (havail : ssl.Available) {setup : AgentSetup}
    {rng : Rng} {details : Bytes} {request : ReboxRequest}
    (hrequest : reboxRequest (boxCrates ssl setup.crates rng) details = .ok request) {g : NativeKey}
    {slot : UInt8} {r : NativeExt} {calls : List AgentCall}
    (h : UsesSlot (boxCrates ssl setup.crates rng) request g.guid slot r calls) :
    ∃ answer, cardExtension (setup.withBoxes ssl rng) ecdhRebox details r = pure answer ∧
      AnswersBox ssl request g slot answer calls := by
  have hprepared : ∀ {calls}, Preparing g.guid slot calls → ∀ call ∈ calls,
      call.1.Lookup ∨ call.1.Prepares g.guid slot ∨ ∃ alg point, call.1 = .ecdhDerive g.guid slot alg point :=
    fun hcalls call hcall => (hcalls call hcall).imp_right .inl
  rcases h with ⟨hcalls, hr⟩ | ⟨alg, point, derived, before, rfl, hbefore, -, rfl⟩
  · rcases hr with rfl | ⟨e, rfl⟩
    · exact ⟨.pending, rfl, hprepared hcalls, .inr (.inl rfl),
        fun _ _ hmem => absurd hmem (not_mem_preparing hcalls)⟩
    · exact ⟨.failure e, rfl, hprepared hcalls, .inl ⟨e, rfl⟩,
        fun _ _ hmem => absurd hmem (not_mem_preparing hcalls)⟩
  have hstays : ∀ call ∈ (⟨.ecdhDerive g.guid slot alg point, derived⟩ : AgentCall) :: before,
      call.1.Lookup ∨ call.1.Prepares g.guid slot ∨ ∃ alg point, call.1 = .ecdhDerive g.guid slot alg point :=
    List.forall_mem_cons.mpr ⟨.inr (.inr ⟨alg, point, rfl⟩), hprepared hbefore⟩
  have honly : ∀ {secret alg' point'}, (⟨.ecdhDerive g.guid slot alg' point', .ok secret⟩ : AgentCall) ∈
      (⟨.ecdhDerive g.guid slot alg point, derived⟩ : AgentCall) :: before → derived = .ok secret := by
    intro secret alg' point' hmem
    rcases List.mem_cons.mp hmem with heq | hmem
    · cases heq
      rfl
    · exact absurd hmem (not_mem_preparing hbefore)
  cases derived with
  | error e =>
    refine ⟨.failure e.text, rfl, hstays, .inl ⟨_, rfl⟩, fun _ _ hmem _ => ?_⟩
    cases honly hmem
  | ok secret =>
    obtain ⟨b, hb, -⟩ := exists_box hrequest
    have hpreserves : ∀ {answer : Answer} {secret' b plain p target hint alg' point'},
        (∀ bytes, derivedReply (boxCrates ssl setup.crates rng) request (.ok secret) =
          .ok (some (ecdhRebox, putString bytes)) → answer = .extension (some (ecdhRebox, putString bytes))) →
        AsksFor ssl request b target hint → SealedTo ssl plain p b →
        (⟨.ecdhDerive g.guid slot alg' point', .ok secret'⟩ : AgentCall) ∈
          (⟨.ecdhDerive g.guid slot alg point, .ok secret⟩ : AgentCall) :: before →
        TrueSecret ssl b secret' → Carries ssl b.curve plain target hint answer := by
      intro answer secret' b plain p target hint alg' point' hanswer hasks hsealed hmem hsecret
      cases honly hmem
      obtain ⟨bytes, hreply, hcarries⟩ :=
        carries_derivedReply hssl havail hrequest hasks hsealed hsecret
      rw [hanswer bytes hreply]
      exact hcarries
    rcases derivedReply_cases ssl setup rng hb secret with ⟨e, hreply⟩ | ⟨bytes, hbytes, hreply⟩
    · refine ⟨.failure e, by rw [hreply]; rfl, hstays, .inl ⟨e, rfl⟩, hpreserves fun bytes hbytes => ?_⟩
      cases hreply.symm.trans hbytes
    · refine ⟨.extension (some (ecdhRebox, putString bytes)), by rw [hreply]; rfl, hstays, .inr (.inr ?_),
        hpreserves fun bytes' hbytes' => ?_⟩
      · obtain ⟨plain, point', target, hint, new, rng', hopens, hpoint, htarget, hhint, hnew, hnewBytes⟩ :=
          resealed_ok.mp hbytes
        have htarget : ssl.pointFromBytes b.curve point' = .ok target := mapError_ok.mp htarget
        obtain ⟨hsealed, hcurve, hguidSlot⟩ := sealOffline_fresh hssl ⟨point', htarget⟩ hnew
        exact ⟨secret, b, plain, target, hint, new, bytes, alg, point,
          ⟨hb, ⟨point', hpoint, htarget⟩, hhint⟩, List.mem_cons_self, hopens, hsealed, hcurve, hguidSlot,
          hnewBytes, rfl⟩
      · rw [hreply] at hbytes'
        exact congrArg Answer.extension (Except.ok.inj hbytes')

/-! ## Every answer -/

/-- A request whose box goes with none of the keys. -/
theorem ensures_leavesBox (setup : AgentSetup) (details : Bytes) (text : String) {calls : List AgentCall}
    (hcalls : ∀ call ∈ calls, call.1.Lookup) :
    (cardExtension setup ecdhRebox details (some (.error (.keyNotNative text)))).Ensures
      (Noted ssl ecdsaPoint keys) (LeavesBox setup details) calls := by
  rw [cardExtension]
  by_cases hupstreams : setup.hasUpstreams
  · rw [if_pos hupstreams]
    rintro reply _ ⟨-, rfl⟩
    have hleaves : ∀ answer, answer = passedOn reply →
        LeavesBox setup details answer (⟨.upstreamForward ecdhRebox details, reply⟩ :: calls) := by
      intro answer hanswer
      rw [LeavesBox, if_pos hupstreams]
      exact ⟨reply, calls, rfl, hcalls, hanswer⟩
    cases reply with
    | ok reply => exact hleaves _ rfl
    | error e =>
      have hname : ¬ ecdhRebox = ecdhCanonical := by decide
      simp only [Prog.bind, hname, if_false]
      exact hleaves _ rfl
  · rw [if_neg hupstreams]
    change LeavesBox setup details (.failure text) calls
    rw [LeavesBox, if_neg hupstreams]
    exact ⟨⟨text, rfl⟩, hcalls⟩

theorem ensures_ecdhRebox (hssl : ssl.Lawful) (havail : ssl.Available) (setup : AgentSetup) (rng : Rng)
    (rounds : Nat) (details : Bytes) :
    (extension (setup.withBoxes ssl rng) rounds ecdhRebox details).Ensures (Noted ssl ecdsaPoint keys)
      (ReboxAnswered ssl (setup.withBoxes ssl rng) ecdsaPoint keys details) [] := by
  rw [extension_ecdhRebox]
  refine (ensures_handleEcdhRebox rounds details).bind ?_
  intro r calls h
  rw [Handled] at h
  rcases hrequest : reboxRequest (setup.withBoxes ssl rng).crates details with e | request
  · rw [hrequest] at h
    obtain ⟨rfl, rfl⟩ := h
    change ReboxAnswered ssl (setup.withBoxes ssl rng) ecdsaPoint keys details (.failure e) []
    rw [ReboxAnswered, hrequest]
    exact ⟨rfl, rfl⟩
  rw [hrequest] at h
  dsimp only at h
  rcases hkey : keyFor ssl ecdsaPoint keys request.parts with text | ⟨key, slot⟩
  · rw [hkey] at h
    obtain ⟨rfl, hcalls⟩ := h
    refine (ensures_leavesBox (setup.withBoxes ssl rng) details text hcalls).mono ?_
    intro answer calls hleaves
    rw [ReboxAnswered, hrequest]
    exact .inl ⟨keyFor_error hkey, hleaves⟩
  · rw [hkey] at h
    obtain ⟨hserved, hgoes⟩ := keyFor_ok hkey
    obtain ⟨answer, hanswer, hbox⟩ := answersBox_of_usesSlot hssl havail hrequest h
    rw [hanswer]
    change ReboxAnswered ssl (setup.withBoxes ssl rng) ecdsaPoint keys details answer calls
    rw [ReboxAnswered, hrequest]
    exact .inr ⟨key, hserved, slot, hgoes, hbox⟩

/-- A card in working order answers with the contents, sealed for the target. -/
theorem ensures_carries (hssl : ssl.Lawful) (havail : ssl.Available) (setup : AgentSetup) (rng : Rng)
    (rounds : Nat) {details : Bytes} {request : ReboxRequest}
    (hrequest : reboxRequest (setup.withBoxes ssl rng).crates details = .ok request) {b : PivBox}
    {target : Point} {hint : Option (Guid × UInt8)} (hasks : AsksFor ssl request b target hint)
    {plain : Bytes} {p : Point} (hsealed : SealedTo ssl plain p b)
    (hserved : ServedBy ssl ecdsaPoint keys b p) {secret : Bytes} (hsecret : TrueSecret ssl b secret) :
    (extension (setup.withBoxes ssl rng) (rounds + 1) ecdhRebox details).Ensures
      (NotedWorking ssl ecdsaPoint keys secret)
      (fun answer _ => Carries ssl b.curve plain target hint answer) [] := by
  obtain ⟨b', hb', hparts⟩ := exists_box hrequest
  obtain rfl : b' = b := Except.ok.inj (hb'.symm.trans hasks.box)
  obtain ⟨key, slot, hkey⟩ := hserved.keyFor hssl hsealed
  have hephemeral : ∃ point, request.parts.ephemeral = .ok point := by
    obtain ⟨d, -, -, -, -, he, -⟩ := hsealed.contents
    have hpoint := hssl.pointFromBytes_pointToBytes .compressed (hssl.publicPoint_onCurve b'.curve d)
    rw [hparts]
    change ∃ point, decompressEcPoint ssl b'.ephemeralPubkey b'.curve = .ok point
    rw [decompressEcPoint, he, hpoint]
    exact ⟨_, rfl⟩
  obtain ⟨point, hpoint⟩ := hephemeral
  rw [← hparts] at hkey
  obtain ⟨bytes, hreply, hcarries⟩ := carries_derivedReply hssl havail hrequest hasks hsealed hsecret
  rw [extension_ecdhRebox]
  refine (ensures_handleEcdhRebox_working hrequest hkey hpoint rounds).bind ?_
  rintro _ calls rfl
  change (cardExtension _ _ _ (some (derivedReply (boxCrates ssl setup.crates rng) request (.ok secret)))).Ensures
    _ _ _
  rw [hreply]
  exact hcarries

/-- The point of a key is read within its bounds. -/
theorem extractEcPoint_eq {blob : Bytes} (hsize : blob.length < 2 ^ 64) :
    Ecdh.extractEcPointFromSshBlob blob = .ofExcept (extractEcPointFromSshBlob blob) := by
  have hfollows : (Ecdh.extractEcPointFromSshBlob blob).Follows id Eq (extractEcPointFromSshBlob blob) := by
    rw [Ecdh.extractEcPointFromSshBlob, extractEcPointFromSshBlob]
    refine (follows_readSshString hsize 0).bind ?_
    rintro ⟨_, pos⟩ _ rfl
    refine (follows_readSshString hsize pos).bind ?_
    rintro ⟨_, pos⟩ _ rfl
    refine (follows_readSshString hsize pos).bind ?_
    rintro ⟨point, pos⟩ _ rfl
    rfl
  rw [hfollows.eq_ofExcept]
  rcases extractEcPointFromSshBlob blob with e | point
  · rfl
  · rfl

/-- What the agent makes of requests to seal boxes again. What a peer sends is read within its bounds,
every request is answered, and a box of a served key keeps its contents. -/
structure Reboxes (ssl : OpenSsl Scalar Point Rng) (rng : Rng) : Prop where
  readsRequest : ∀ (setup : AgentSetup) (details : Bytes), details.length < 2 ^ 64 →
    readReboxRequest ssl details = .ofExcept (reboxRequest (setup.withBoxes ssl rng).crates details)
  readsPartner : ∀ blob : Bytes, blob.length < 2 ^ 64 →
    Ecdh.extractEcPointFromSshBlob blob = .ofExcept (extractEcPointFromSshBlob blob)
  opensBox : ∀ b secret, Ecdh.openBox ssl b secret = Ecdh.stepText (openWithSecret ssl b secret)
  encodes : ∀ (setup : AgentSetup) (box guid partner : Bytes) (slotId : UInt8) (b : PivBox),
    PivBox.fromBytes box = .ok b → box.length + guid.length + partner.length + 17 < 2 ^ 32 →
    reboxRequest (setup.withBoxes ssl rng).crates (encodeReboxRequest box guid slotId partner) =
      .ok ⟨box, boxParts ssl b, guid, slotId, partner⟩
  answers : ∀ (setup : AgentSetup) (ecdsaPoint : Bytes → Option Bytes) (keys : List NativeKey)
    (rounds : Nat) (details : Bytes),
    (extension (setup.withBoxes ssl rng) rounds ecdhRebox details).Ensures (Noted ssl ecdsaPoint keys)
      (ReboxAnswered ssl (setup.withBoxes ssl rng) ecdsaPoint keys details) []
  preserves : ∀ (setup : AgentSetup) (ecdsaPoint : Bytes → Option Bytes) (keys : List NativeKey)
    (rounds : Nat) (details : Bytes) (request : ReboxRequest) (b : PivBox) (plain : Bytes) (p target : Point)
    (hint : Option (Guid × UInt8)) (secret : Bytes),
    reboxRequest (setup.withBoxes ssl rng).crates details = .ok request →
    AsksFor ssl request b target hint → SealedTo ssl plain p b → ServedBy ssl ecdsaPoint keys b p →
    TrueSecret ssl b secret →
    (extension (setup.withBoxes ssl rng) (rounds + 1) ecdhRebox details).Ensures
      (NotedWorking ssl ecdsaPoint keys secret)
      (fun answer _ => Carries ssl b.curve plain target hint answer) []

theorem extension_reboxes (hssl : ssl.Lawful) (havail : ssl.Available) (rng : Rng) : Reboxes ssl rng where
  readsRequest setup _ hsize := readReboxRequest_eq ssl setup.crates rng hsize
  readsPartner _ hsize := extractEcPoint_eq hsize
  opensBox := Ecdh.openBox_eq ssl havail.length_sha512
  encodes setup _ _ _ slotId _ hbox hsize :=
    reboxRequest_encode (boxCrates ssl setup.crates rng) slotId hsize (parseBox_withBoxes rng setup hbox)
  answers setup _ _ rounds details := ensures_ecdhRebox hssl havail setup rng rounds details
  preserves setup _ _ rounds _ _ _ _ _ _ _ _ hrequest hasks hsealed hserved hsecret :=
    ensures_carries hssl havail setup rng rounds hrequest hasks hsealed hserved hsecret

/-! ## A box of the sample library -/

/-- Libraries that know points only. -/
def pointCrates : SignCrates where
  sha := ⟨id, id, id⟩
  publicKeyFromBytes := .ok
  parsePolicy _ := .error (.other "no policy")
  extractPublicKey := .ok
  verifies _ _ := .ok false
  toSshSignature _ _ _ := .error "no signature"
  ecPoint := .ok
  parseBox _ := .error "no box"
  rebox _ _ _ _ _ := .error "no box"

/-- An agent of its own, with boxes of the sample library. -/
def loneAgent : AgentSetup := AgentSetup.withBoxes OpenSsl.sample 0 ⟨pointCrates, false, false⟩

def loneGuid : Guid := .ofByte 1

/-- A box for the key in another slot of the card. -/
def otherSlotBox : PivBox where
  version := boxVersion
  guidSlot := some (loneGuid, 0x9D)
  cipher := defaultCipher
  kdf := defaultKdf
  nonce := List.replicate 16 0
  curve := .nistP256
  recipientPubkey := OpenSsl.samplePoint .compressed 2
  ephemeralPubkey := OpenSsl.samplePoint .compressed 3
  iv := List.replicate 12 0
  ciphertext := pkcs7Pad [] 16 ++ OpenSsl.sampleTag (kdfSha512 OpenSsl.sample [6] (List.replicate 16 0))
  plaintext := none

theorem sealedTo_otherSlot : SealedTo OpenSsl.sample [] 2 otherSlotBox where
  header := ⟨rfl, rfl, rfl⟩
  nonce := rfl
  iv := rfl
  onCurve := OpenSsl.sample_lawful.publicPoint_onCurve .nistP256 2
  contents := ⟨3, [6], pkcs7Pad [] 16, _, rfl, rfl, rfl, rfl, rfl⟩

/-- A request with no hint on the target. -/
def otherSlotRequest (partner : Bytes) : ReboxRequest :=
  ⟨otherSlotBox.encoding, boxParts OpenSsl.sample otherSlotBox, [], 0, partner⟩

theorem reboxRequest_otherSlot {partner : Bytes}
    (hsize : otherSlotBox.encoding.length + ([] : Bytes).length + partner.length + 17 < 2 ^ 32) :
    reboxRequest loneAgent.crates (encodeReboxRequest otherSlotBox.encoding [] 0 partner) =
      .ok (otherSlotRequest partner) := by
  have hread := (sealedTo_otherSlot.toBytes OpenSsl.sample_lawful (by decide +kernel)).2
  exact reboxRequest_encode loneAgent.crates 0 hsize (parseBox_withBoxes 0 _ hread)

/-- The slot that the box names is served. -/
def servedKey : NativeKey := ⟨loneGuid, 0x9D, .ecP256, OpenSsl.samplePoint .uncompressed 2, ""⟩

/-- The key 7 as a partner. -/
def samplePartner : Bytes := ecPointToSshPubkeyBlob .nistP256 (OpenSsl.samplePoint .uncompressed 7)

/-- A request for the box and the key 7, to an agent that serves the key of the box. -/
theorem extension_reboxes_sample :
    (extension loneAgent 1 ecdhRebox
        (encodeReboxRequest otherSlotBox.encoding [] 0 samplePartner)).Ensures
      (NotedWorking OpenSsl.sample some [servedKey] [6])
      (fun answer _ => Carries OpenSsl.sample .nistP256 [] 7 none answer) [] := by
  have hbox := (sealedTo_otherSlot.toBytes OpenSsl.sample_lawful (by decide +kernel)).2
  have hasks : AsksFor OpenSsl.sample (otherSlotRequest samplePartner) otherSlotBox 7 none :=
    ⟨hbox, ⟨OpenSsl.samplePoint .uncompressed 7, by decide +kernel, rfl⟩, rfl⟩
  have hserved : ServedBy OpenSsl.sample some [servedKey] otherSlotBox 2 :=
    ⟨.inl ⟨rfl, rfl⟩, servedKey, List.mem_singleton_self _, rfl, .inr rfl⟩
  have hsecret : TrueSecret OpenSsl.sample otherSlotBox [6] := ⟨2, 3, rfl, rfl, rfl⟩
  have hreboxes := extension_reboxes OpenSsl.sample_lawful OpenSsl.sample_available 0
  have hrequest := @reboxRequest_otherSlot samplePartner (by decide +kernel)
  generalize encodeReboxRequest otherSlotBox.encoding [] 0 samplePartner = details at hrequest ⊢
  exact hreboxes.preserves ⟨pointCrates, false, false⟩ some [servedKey] 0 details _ _ _ _ _ _ _
    hrequest hasks sealedTo_otherSlot hserved hsecret

/-! ## A box for a key that is not served -/

/-- One slot of one card is served. -/
def loneKey : NativeKey := ⟨loneGuid, 0x9A, .ecP256, OpenSsl.samplePoint .uncompressed 1, ""⟩

/-- The card that a box names is tried, whatever slot it names. -/
theorem not_only_lookups {setup : AgentSetup} {rounds : Nat} {details point : Bytes}
    {request : ReboxRequest} {g : Guid} {slot : UInt8} {key : NativeKey}
    (hrequest : reboxRequest setup.crates details = .ok request)
    (hguid : request.parts.guidSlot = some (g, slot)) (hkey : findKeyByGuid keys g = some key)
    (hpoint : request.parts.ephemeral = .ok point) (hslot : slot ≠ 0x9E) :
    ¬ (extension setup (rounds + 1) ecdhRebox details).Ensures (Noted ssl ecdsaPoint keys)
      (fun _ calls => ∀ call ∈ calls, call.1.Lookup) [] := by
  intro h
  rw [extension_ecdhRebox, handleEcdhRebox, hrequest] at h
  dsimp only at h
  rw [boxKey, hguid] at h
  have hfound := h (some key) _ ⟨hkey.symm, rfl⟩
  dsimp only [Prog.bind] at hfound
  rw [hpoint] at hfound
  dsimp only at hfound
  change Prog.Ensures _ ((withPin "ecdh-rebox" key.guid slot (ecdhDerive key.guid slot point) (rounds + 1) 0
    >>= _) >>= _) _ _ at hfound
  rw [withPin, acquirePin, if_pos hslot] at hfound
  have htried := hfound (.error "") _ ⟨trivial, rfl⟩
  exact (htried _ List.mem_cons_self).elim

/-- The box is for no served key, and the card of the served one is tried. -/
theorem not_leftToOthers :
    SealedTo OpenSsl.sample [] 2 otherSlotBox ∧
      loneKey.publicKey ≠ OpenSsl.sample.pointToBytes .nistP256 .uncompressed 2 ∧
      ¬ (extension loneAgent 1 ecdhRebox (encodeReboxRequest otherSlotBox.encoding [] 0 [])).Ensures
        (Noted OpenSsl.sample some [loneKey]) (fun _ calls => ∀ call ∈ calls, call.1.Lookup) [] :=
  ⟨sealedTo_otherSlot, by decide,
    not_only_lookups (reboxRequest_otherSlot (by decide +kernel)) rfl rfl rfl (by decide)⟩

end Piggy.Agent
