import Piggy.Box.Seal
import Piggy.Ecdh.Codecs

/-!
# Boxes from a peer

A box that a peer sent is read and opened without a read outside of its bytes. The reads are those
of the box library, with their positions, and they come to what the library's model says.
-/

namespace Piggy.Ecdh

open Piggy.Core
open Piggy.Box

/-! ## Reads at a position -/

/-- A byte at a position. -/
def getU8At (data : Bytes) (pos : Nat) : Checked (UInt8 × Nat) := do
  needAt data pos 1
  let v ← Checked.get data pos
  .ok (v, pos + 1)

/-- A text with its length in front. -/
def getString8At (data : Bytes) (pos : Nat) : Checked (Bytes × Nat) := do
  let (len, pos) ← getU8At data pos
  needAt data pos len.toNat
  let v ← Checked.slice data pos (pos + len.toNat)
  .ok (v, pos + len.toNat)

/-- The same, without a zero byte and in UTF-8. -/
def getCstring8At (data : Bytes) (pos : Nat) : Checked (String × Nat) := do
  let (raw, pos) ← getString8At data pos
  if raw.contains 0 then .failed (BoxError.wire "cstring8 contains interior NUL").text
  else
    match fromUtf8 raw with
    | .error e => .failed (BoxError.wire s!"cstring8 not UTF-8: {e}").text
    | .ok s => .ok (s, pos)

/-- A point with its length in front. -/
def getEckey8At (data : Bytes) (pos : Nat) : Checked (Bytes × Nat) := getString8At data pos

/-- A step of the box library that reads nothing. -/
def stepText {α : Type} (x : Except BoxError α) : Checked α := .ofExcept (x.mapError BoxError.text)

/-- The magic number at a position. -/
def getMagicAt (expected : UInt16) (data : Bytes) (pos : Nat) : Checked (Unit × Nat) := do
  let (hi, pos) ← getU8At data pos
  let (lo, pos) ← getU8At data pos
  let magic := (hi.toUInt16 <<< 8) ||| lo.toUInt16
  if magic ≠ expected then .failed (BoxError.badMagic expected magic).text else .ok ((), pos)

/-- A GUID with its length in front. -/
def getGuidAt (data : Bytes) (pos : Nat) : Checked (Guid × Nat) := do
  let (bytes, pos) ← getString8At data pos
  let guid ← stepText (Guid.fromBytes bytes)
  .ok (guid, pos)

/-- A GUID and a slot, when the flag says that they are there. -/
def getGuidSlotAt (data : Bytes) (pos : Nat) : Checked (Option (Guid × UInt8) × Nat) := do
  let (valid, pos) ← getU8At data pos
  if valid ≠ 0 then do
    let (guid, pos) ← getGuidAt data pos
    let (slot, pos) ← getU8At data pos
    .ok (some (guid, slot), pos)
  else do
    let (_, pos) ← getString8At data pos
    let (_, pos) ← getU8At data pos
    .ok (none, pos)

/-- The nonce, which the first version has not. -/
def getNonceAt (version : UInt8) (data : Bytes) (pos : Nat) : Checked (Bytes × Nat) :=
  if 2 ≤ version then getString8At data pos else .ok ([], pos)

/-- A curve by its name. -/
def getCurveAt (data : Bytes) (pos : Nat) : Checked (EcCurve × Nat) := do
  let (name, pos) ← getCstring8At data pos
  let curve ← stepText (EcCurve.fromWireName name)
  .ok (curve, pos)

/-- A box, read at its positions. -/
def readBox (data : Bytes) : Checked PivBox := do
  let ((), pos) ← getMagicAt boxMagic data 0
  let (version, pos) ← getU8At data pos
  if ¬ (1 ≤ version ∧ version ≤ boxVersion) then .failed (BoxError.unsupportedVersion version).text
  else do
    let (guidSlot, pos) ← getGuidSlotAt data pos
    let (cipher, pos) ← getCstring8At data pos
    let (kdf, pos) ← getCstring8At data pos
    let (nonce, pos) ← getNonceAt version data pos
    let (curve, pos) ← getCurveAt data pos
    let (recipientPubkey, pos) ← getEckey8At data pos
    let (ephemeralPubkey, pos) ← getEckey8At data pos
    let (iv, pos) ← getString8At data pos
    let (ciphertext, _) ← getStringAt data pos
    .ok { version, guidSlot, cipher, kdf, nonce, curve, recipientPubkey, ephemeralPubkey, iv,
          ciphertext, plaintext := none }

/-! ## The same as the model's -/

/-- Both programs return the same value, and are at the same position inside of the data. -/
structure SamePlace {α : Type} (data : Bytes) (here : α × Nat) (there : α × WireReader) : Prop where
  value : here.1 = there.1
  place : there.2 = ⟨here.2, data.drop here.2⟩
  inside : here.2 ≤ data.length

/-- A getter at a position reads as the model's reader does that is there. -/
def Mirrors {α : Type} (getAt : Bytes → Nat → Checked (α × Nat))
    (get : WireReader → Except BoxError (α × WireReader)) : Prop :=
  ∀ data pos, pos ≤ data.length →
    (getAt data pos).Follows BoxError.text (SamePlace data) (get ⟨pos, data.drop pos⟩)

/-- A getter, and what goes on from there. -/
theorem Mirrors.bind {α β γ : Type} {getAt : Bytes → Nat → Checked (α × Nat)}
    {get : WireReader → Except BoxError (α × WireReader)} (h : Mirrors getAt get) {data : Bytes}
    {pos : Nat} (hpos : pos ≤ data.length) {rel : β → γ → Prop} {f : α × Nat → Checked β}
    {g : α × WireReader → Except BoxError γ}
    (hnext : ∀ a pos, pos ≤ data.length →
      (f (a, pos)).Follows BoxError.text rel (g (a, ⟨pos, data.drop pos⟩))) :
    (getAt data pos >>= f).Follows BoxError.text rel (get ⟨pos, data.drop pos⟩ >>= g) := by
  refine (h data pos hpos).bind ?_
  rintro ⟨a, pos⟩ ⟨_, _⟩ ⟨rfl, rfl, hinside⟩
  exact hnext a pos hinside

/-- So many bytes are left, or both programs say that they are not. -/
theorem follows_need {α β : Type} {data : Bytes} {pos n : Nat} (hpos : pos ≤ data.length)
    {rel : α → β → Prop} {f : Checked α} {g : Except BoxError β}
    (h : pos + n ≤ data.length → f.Follows BoxError.text rel g) :
    (needAt data pos n >>= fun _ => f).Follows BoxError.text rel
      (need ⟨pos, data.drop pos⟩ n >>= fun _ => g) := by
  have hremaining : WireReader.remaining ⟨pos, data.drop pos⟩ = data.length - pos := by
    rw [WireReader.remaining, List.length_drop]
  rcases Nat.lt_or_ge (data.length - pos) n with hn | hn
  · rw [needAt, need, hremaining, if_pos hn]
    rfl
  · rw [needAt, need, hremaining, if_neg (Nat.not_lt.mpr hn)]
    exact h (by omega)

theorem mirrors_getU8 : Mirrors getU8At getU8 := by
  intro data pos hpos
  rw [getU8At, getU8, getBytes, bind_assoc]
  refine follows_need hpos fun hn => ?_
  have hlt : pos < data.length := by omega
  have hget : Checked.get data pos = .ok data[pos] := by rw [Checked.get, List.getElem?_eq_getElem hlt]
  rw [hget]
  refine ⟨?_, ?_, hn⟩
  · rw [List.drop_eq_getElem_cons hlt]
    rfl
  · rw [Cursor.advance, List.drop_drop]

/-- So many bytes. -/
theorem follows_slice {data : Bytes} {pos n : Nat} (hpos : pos ≤ data.length) :
    (needAt data pos n >>= fun _ =>
      Checked.slice data pos (pos + n) >>= fun v => .ok (v, pos + n)).Follows BoxError.text
      (SamePlace data) (getBytes ⟨pos, data.drop pos⟩ n) := by
  rw [getBytes]
  refine follows_need hpos fun hn => ?_
  rw [Checked.slice, if_pos ⟨Nat.le_add_right pos n, hn⟩]
  refine ⟨?_, ?_, hn⟩
  · rw [List.drop_take, Nat.add_sub_cancel_left]
  · rw [Cursor.advance, List.drop_drop]

theorem mirrors_getString8 : Mirrors getString8At getString8 :=
  fun _ _ hpos => mirrors_getU8.bind hpos fun _ _ hpos => follows_slice hpos

/-- A string behind a length of 32 bits. -/
theorem mirrors_getString : Mirrors getStringAt getString := by
  intro data pos hpos
  rw [getStringAt, getString, getU32, getBytes, bind_assoc, bind_assoc]
  refine follows_need hpos fun hn => ?_
  rw [Checked.slice, if_pos ⟨Nat.le_add_right pos 4, hn⟩, List.drop_take, Nat.add_sub_cancel_left]
  have hword : (UInt32.ofNat (ofBe ((data.drop pos).take 4))).toNat = ofBe ((data.drop pos).take 4) := by
    have hlt := ofBe_lt ((data.drop pos).take 4)
    rw [List.length_take_of_le (by rw [List.length_drop]; omega)] at hlt
    rw [UInt32.toNat_ofNat']
    exact Nat.mod_eq_of_lt hlt
  change (needAt data (pos + 4) (ofBe ((data.drop pos).take 4)) >>= fun _ =>
      Checked.slice data (pos + 4) (pos + 4 + ofBe ((data.drop pos).take 4)) >>= fun v =>
        .ok (v, pos + 4 + ofBe ((data.drop pos).take 4))).Follows BoxError.text (SamePlace data)
    (getBytes ⟨pos + 4, (data.drop pos).drop 4⟩ (UInt32.ofNat (ofBe ((data.drop pos).take 4))).toNat)
  rw [hword, List.drop_drop]
  exact follows_slice hn

theorem mirrors_getCstring8 : Mirrors getCstring8At getCstring8 := by
  intro data pos hpos
  refine mirrors_getString8.bind hpos fun raw pos hpos => ?_
  dsimp only
  split
  · rfl
  split
  · next e he => rw [he]; rfl
  · next s hs => rw [hs]; exact ⟨rfl, rfl, hpos⟩

/-- A step that reads nothing, and what goes on from there. -/
theorem follows_stepText {α β γ : Type} {rel : β → γ → Prop} (x : Except BoxError α) {f : α → Checked β}
    {g : α → Except BoxError γ} (h : ∀ a, (f a).Follows BoxError.text rel (g a)) :
    (stepText x >>= f).Follows BoxError.text rel (x >>= g) := by
  refine (Checked.follows_ofExcept x).bind ?_
  rintro a _ rfl
  exact h a

theorem mirrors_getMagic (expected : UInt16) : Mirrors (getMagicAt expected) (getMagic expected) := by
  intro data pos hpos
  refine mirrors_getU8.bind hpos fun hi pos hpos => ?_
  refine mirrors_getU8.bind hpos fun lo pos hpos => ?_
  dsimp only
  split
  · rfl
  · exact ⟨rfl, rfl, hpos⟩

theorem mirrors_getGuid : Mirrors getGuidAt getGuid := by
  intro data pos hpos
  refine mirrors_getString8.bind hpos fun bytes pos hpos => ?_
  exact follows_stepText (Guid.fromBytes bytes) fun guid => ⟨rfl, rfl, hpos⟩

theorem mirrors_getGuidSlot : Mirrors getGuidSlotAt PivBox.getGuidSlot := by
  intro data pos hpos
  refine mirrors_getU8.bind hpos fun valid pos hpos => ?_
  dsimp only
  split
  · refine mirrors_getGuid.bind hpos fun guid pos hpos => ?_
    exact mirrors_getU8.bind hpos fun slot pos hpos => ⟨rfl, rfl, hpos⟩
  · refine mirrors_getString8.bind hpos fun _ pos hpos => ?_
    exact mirrors_getU8.bind hpos fun _ pos hpos => ⟨rfl, rfl, hpos⟩

theorem mirrors_getNonce (version : UInt8) : Mirrors (getNonceAt version) (PivBox.getNonce version) := by
  intro data pos hpos
  rw [getNonceAt, PivBox.getNonce]
  split
  · exact mirrors_getString8 data pos hpos
  · exact ⟨rfl, rfl, hpos⟩

theorem mirrors_getCurve : Mirrors getCurveAt getCurve := by
  intro data pos hpos
  refine mirrors_getCstring8.bind hpos fun name pos hpos => ?_
  exact follows_stepText (EcCurve.fromWireName name) fun curve => ⟨rfl, rfl, hpos⟩

/-- Whatever the bytes of a box are, none outside of them is read. -/
theorem readBox_eq (data : Bytes) : readBox data = stepText (PivBox.fromBytes data) := by
  refine Checked.Follows.eq_ofExcept ?_
  rw [readBox, PivBox.fromBytes]
  refine (mirrors_getMagic boxMagic).bind (Nat.zero_le _) fun _ pos hpos => ?_
  refine mirrors_getU8.bind hpos fun version pos hpos => ?_
  dsimp only
  split
  · rfl
  refine mirrors_getGuidSlot.bind hpos fun guidSlot pos hpos => ?_
  refine mirrors_getCstring8.bind hpos fun cipher pos hpos => ?_
  refine mirrors_getCstring8.bind hpos fun kdf pos hpos => ?_
  refine (mirrors_getNonce version).bind hpos fun nonce pos hpos => ?_
  refine mirrors_getCurve.bind hpos fun curve pos hpos => ?_
  refine mirrors_getString8.bind hpos fun recipient pos hpos => ?_
  refine mirrors_getString8.bind hpos fun ephemeral pos hpos => ?_
  refine mirrors_getString8.bind hpos fun iv pos hpos => ?_
  exact mirrors_getString.bind hpos fun ciphertext pos hpos => rfl

/-! ## Opening -/

variable {Scalar Point Rng : Type} (ssl : OpenSsl Scalar Point Rng)

/-- Padding is taken off with reads of the data. -/
def unpad (data : Bytes) (blockSize : Nat) : Checked Bytes :=
  if data.isEmpty then .failed BoxError.badPadding.text
  else do
    let padByte ← Checked.get data (data.length - 1)
    let padLen := padByte.toNat
    if padLen = 0 ∨ data.length < padLen ∨ blockSize < padLen then .failed BoxError.badPadding.text
    else do
      let padding ← Checked.slice data (data.length - padLen) data.length
      if padding.all (· == padByte) then Checked.slice data 0 (data.length - padLen)
      else .failed BoxError.badPadding.text

/-- Opens a box; the last bytes are the tag. -/
def decrypt (key iv ciphertext : Bytes) : Checked Bytes :=
  if iv.length ≠ cipherIvLen then
    .failed (BoxError.crypto s!"ChaCha20-Poly1305 IV must be 12 bytes, got {iv.length}").text
  else if ciphertext.length < 16 then .failed (BoxError.crypto "ciphertext too short for auth tag").text
  else do
    let tagOffset := ciphertext.length - 16
    let ct ← Checked.slice ciphertext 0 tagOffset
    let tag ← Checked.slice ciphertext tagOffset ciphertext.length
    match ssl.decryptAead .chacha20Poly1305 key iv ct tag with
    | .ok pt => .ok pt
    | .error e => .failed (BoxError.crypto s!"ChaCha20-Poly1305 decrypt: {e}").text

/-- A box is opened; the key is the first half of the hash. -/
def openBox (b : PivBox) (sharedSecret : Bytes) : Checked PivBox :=
  if b.iv.length ≠ cipherIvLen then
    .failed (BoxError.crypto
      s!"wire IV must be 12 bytes for chacha20-poly1305, got {b.iv.length}").text
  else do
    let keyMaterial ← Checked.slice (ssl.sha512 (sharedSecret ++ b.nonce)) 0 32
    let padded ← decrypt ssl keyMaterial b.iv b.ciphertext
    let plain ← unpad padded 16
    .ok { b with plaintext := some plain }

theorem follows_unpad (data : Bytes) (blockSize : Nat) :
    (unpad data blockSize).Follows BoxError.text Eq (pkcs7Unpad data blockSize) := by
  rw [unpad, pkcs7Unpad]
  rcases List.eq_nil_or_concat' data with rfl | ⟨front, padByte, rfl⟩
  · rfl
  have hget : Checked.get (front ++ [padByte]) ((front ++ [padByte]).length - 1) = .ok padByte := by
    refine Checked.get_append rfl ?_
    rw [List.length_append, List.length_singleton, Nat.add_sub_cancel]
  rw [if_neg (by simp), List.getLast?_concat, hget]
  generalize front ++ [padByte] = data
  rw [Checked.ok_bind]
  dsimp only
  split
  · rfl
  next hlen =>
  rw [not_or, not_or] at hlen
  rw [Checked.slice, if_pos ⟨Nat.sub_le _ _, le_rfl⟩, List.take_length, Checked.ok_bind]
  split
  · rw [Checked.slice, if_pos ⟨Nat.zero_le _, Nat.sub_le _ _⟩]
    rfl
  · rfl

theorem follows_decrypt (key iv ciphertext : Bytes) :
    (decrypt ssl key iv ciphertext).Follows BoxError.text Eq
      (chacha20Poly1305Decrypt ssl key iv ciphertext) := by
  rw [decrypt, chacha20Poly1305Decrypt]
  split
  · rfl
  split
  · rfl
  dsimp only
  rw [Checked.slice, if_pos ⟨Nat.zero_le _, Nat.sub_le _ _⟩, Checked.ok_bind, List.drop_zero, Checked.slice,
    if_pos ⟨Nat.sub_le _ _, le_rfl⟩, List.take_length, Checked.ok_bind]
  rcases ssl.decryptAead .chacha20Poly1305 key iv (ciphertext.take (ciphertext.length - 16))
    (ciphertext.drop (ciphertext.length - 16)) with e | pt
  · rfl
  · rfl

/-- Whatever a box holds, it is opened without a read outside of its fields. -/
theorem openBox_eq (hlength : ∀ data, (ssl.sha512 data).length = 64) (b : PivBox) (sharedSecret : Bytes) :
    openBox ssl b sharedSecret = stepText (openWithSecret ssl b sharedSecret) := by
  refine Checked.Follows.eq_ofExcept ?_
  rw [openBox, openWithSecret]
  split
  · rfl
  rw [Checked.slice, if_pos ⟨Nat.zero_le _, by rw [hlength]; decide⟩, List.drop_zero, Checked.ok_bind]
  refine (follows_decrypt ssl _ b.iv b.ciphertext).bind ?_
  rintro padded _ rfl
  refine (follows_unpad padded 16).bind ?_
  rintro plain _ rfl
  rfl

end Piggy.Ecdh
