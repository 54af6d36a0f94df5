import Piggy.Box.Encryptors
import Piggy.Pass.Skip

/-!
# The re-encryption walk

Every ebox below a directory is skipped, or decrypted and sealed again to the recipients of
its file and put in place of the old one. An ebox for which that fails stays as it is, and
the walk goes on. What the walk has written, a later walk skips.
-/

namespace Piggy.Pass

open Piggy.Core Piggy.Markl Piggy.Ids Piggy.Box

/-- An ebox of the walk, and the text of the recipient file it finds where this is not the
live one. -/
structure Entry where
  bytes : Bytes
  own : Option (List Char)
  deriving DecidableEq

/-- What the system does at one ebox: whether its file is read, whether the new file is
written and put in its place, and where the random bytes are drawn. -/
structure Turn (Rng : Type) where
  reads : Bool
  replaces : Bool
  rng : Rng

/-- What a walk has to hand: the agent and the card its one decryptor asks, and its turns. -/
structure Walker (σ τ Rng : Type) where
  agent : Option (EcdhOracle σ)
  card : Option (EcdhOracle τ)
  dealer : Dealer Rng
  turns : Nat → Turn Rng

/-- How re-encrypting one ebox ends. When the decryption panics the program stops. -/
inductive Reencrypted where
  | ok (bytes : Bytes)
  | failed
  | stopped

/-- How a walk ends: all went well, some ebox failed, or the program stopped. -/
inductive WalkEnd where
  | clean
  | failed
  | stopped
  deriving DecidableEq

/-- The end of a walk in which an ebox failed. -/
def WalkEnd.afterFailure : WalkEnd → WalkEnd
  | .stopped => .stopped
  | _ => .failed

theorem WalkEnd.afterFailure_ne_clean (ended : WalkEnd) : ended.afterFailure ≠ .clean := by
  cases ended <;> nofun

section

variable {Scalar Point Rng σ τ : Type} (ssl : OpenSsl Scalar Point Rng)

/-- `piggy-ids encrypt` for a recipient file, with the plaintext on its input. The pieces in
which a pipe brings it make no difference to what is written. -/
def idsEncrypt (dealer : Dealer Rng) (text : List Char) (plaintext : Bytes) (rng : Rng) :
    Option Bytes :=
  match Ids.parse text with
  | .error _ => none
  | .ok rs =>
    match templateFromRecipients ((encryptionRecipients rs).map Recipient.id) with
    | .error _ => none
    | .ok tpl => (cmdEncrypt ssl dealer tpl [plaintext] rng).toOption

/-- Decrypts an ebox and seals it to the recipients of a file. -/
def reencryptOne (w : Walker σ τ Rng) (text : List Char) (turn : Turn Rng) (bytes : Bytes) (s : σ)
    (t : τ) : Reencrypted × σ × τ :=
  if turn.reads then
    match Decryptor.decrypt ssl w.agent w.card s t bytes with
    | (.error .panic, s, t) => (.stopped, s, t)
    | (.error (.message _), s, t) => (.failed, s, t)
    | (.ok plaintext, s, t) =>
      match idsEncrypt ssl w.dealer text plaintext turn.rng with
      | none => (.failed, s, t)
      | some out => (if turn.replaces then .ok out else .failed, s, t)
  else (.failed, s, t)

/-- The walk, from one of its turns on: the eboxes it leaves and how it ends. -/
def reencrypt (w : Walker σ τ Rng) (live : List Char) :
    Nat → List Entry → σ → τ → List Entry × WalkEnd
  | _, [], _, _ => ([], .clean)
  | n, e :: rest, s, t =>
    let text := e.own.getD live
    let turn := w.turns n
    if turn.reads && reencryptUnnecessary ssl e.bytes text then
      let (after, ended) := reencrypt w live (n + 1) rest s t
      (e :: after, ended)
    else
      match reencryptOne ssl w text turn e.bytes s t with
      | (.ok bytes, s, t) =>
        let (after, ended) := reencrypt w live (n + 1) rest s t
        ({ e with bytes } :: after, ended)
      | (.failed, s, t) =>
        let (after, ended) := reencrypt w live (n + 1) rest s t
        (e :: after, ended.afterFailure)
      | (.stopped, _, _) => (e :: rest, .stopped)

/-- A recipient file lists no more encryption recipients than a count byte holds. -/
def Countable (text : List Char) : Prop :=
  ∀ rs, Ids.parse text = .ok rs → (encryptionRecipients rs).length ≤ 255

/-- An ebox is sealed to the encryption recipients of its file. -/
def Entry.Current (live : List Char) (e : Entry) : Prop :=
  reencryptUnnecessary ssl e.bytes (e.own.getD live) = true

variable {ssl}

/-! ## What is written is current -/

/-- Keys that agree one by one are inserted alike. -/
theorem insertKeys_congr {α β : Type} {f : α → Option (UInt8 × Bytes)}
    {g : β → Option (UInt8 × Bytes)} {as : List α} {bs : List β}
    (h : List.Forall₂ (fun a b => f a = g b) as bs) (set : RecipientSet) :
    insertKeys f set as = insertKeys g set bs := by
  induction h generalizing set with
  | nil => rfl
  | cons hab _ ih =>
    rw [insertKeys, insertKeys, hab]
    split
    · rfl
    · exact ih _

/-- The keys are all inserted when none is missing. -/
theorem insertKeys_isSome {α : Type} {key : α → Option (UInt8 × Bytes)} {as : List α}
    (h : ∀ a ∈ as, (key a).isSome) (set : RecipientSet) : (insertKeys key set as).isSome := by
  induction as generalizing set with
  | nil => rfl
  | cons a as ih =>
    obtain ⟨k, hk⟩ := Option.isSome_iff_exists.mp (h a List.mem_cons_self)
    rw [insertKeys, hk]
    exact ih (fun b hb => h b (List.mem_cons_of_mem _ hb)) _

/-- A recipient that gets a part of a template is one of a card. -/
theorem pivPart_of_tplPart {id : Id} {part : EboxTplPart} (h : tplPartFromMarkl id = .ok part) :
    pivPartFromMarkl id = .ok part := by
  have hformat := (tplPartFromMarkl_ok h).format
  rwa [tplPartFromMarkl, hformat] at h

/-- The part sealed for a recipient has the recipient's key, read back too. -/
theorem partKey_sealed (hssl : ssl.Lawful) {key : Bytes} {eph : Ephemerals Scalar} {r : Recipient}
    {tplPart : EboxTplPart} {part : EboxPart} (h : tplPartFromMarkl r.id = .ok tplPart)
    (hs : SealedFor ssl key eph .primary tplPart part) :
    recipientKey ssl r = partKey ssl part.asRead ∧ (recipientKey ssl r).isSome := by
  have hpart := tplPartFromMarkl_ok h
  have hkey : part.pivBox.recipientPubkey = r.id.data := hpart.recipientPubkey hssl hs
  obtain ⟨d, -, hsealed⟩ := hs.primary rfl
  obtain ⟨-, -, hcurve⟩ := hsealed.header
  obtain ⟨p, -, -, -, hp, -⟩ := hsealed.contents
  have hlisted : recipientKey ssl r =
      (canonicalPoint ssl tplPart.pubkeyCurve tplPart.pubkey).map fun pubkey =>
        (curveTag tplPart.pubkeyCurve, pubkey) := by
    rw [recipientKey, pivPart_of_tplPart h]
  have hread : partKey ssl part.asRead =
      (canonicalPoint ssl part.pivBox.curve part.pivBox.recipientPubkey).map fun pubkey =>
        (curveTag part.pivBox.curve, pubkey) := rfl
  refine ⟨?_, ?_⟩
  · rw [hlisted, hread, hcurve, hkey, hpart.pubkey]
  · rw [hlisted, canonicalPoint, hp]
    rfl

/-- A new ebox is read back with the keys of its recipients, one by one. -/
theorem fromBytes_new (hssl : ssl.Lawful) {dealer : Dealer Rng} {rs : List Recipient}
    (hcount : rs.length ≤ 255) {tpl : EboxTemplate}
    (htpl : templateFromRecipients (rs.map Recipient.id) = .ok tpl) {rng rng' : Rng}
    {stream : EboxStream} (hnew : EboxStream.new ssl dealer tpl rng = .ok (stream, rng'))
    (frames : Bytes) :
    ∃ e, Ebox.fromBytes (stream.encoding ++ frames) = .ok e ∧
      List.Forall₂ (fun r part => recipientKey ssl r = partKey ssl part ∧ (recipientKey ssl r).isSome)
        rs (e.configs.flatMap EboxConfig.parts) := by
  have hfits := fits_of_templateFromRecipients htpl (by rwa [List.length_map])
  obtain ⟨key, hklen, hsealed, hty, -⟩ := new_spec hssl (fun c hc hrec =>
    absurd hrec (not_recovery_of_templateFromRecipients htpl c hc)) hnew
  obtain ⟨-, parts, rfl, hparts⟩ := templateFromRecipients_parts htpl
  obtain ⟨eph, -, -, hconfigs⟩ := hsealed.configs
  obtain ⟨c, none, hc, hnone, hcs⟩ := List.forall₂_cons_left_iff.mp hconfigs
  obtain rfl := List.forall₂_nil_left_iff.mp hnone
  refine ⟨stream.ebox.asRead, ?_, ?_⟩
  · rw [Ebox.fromBytes, WireReader.new, EboxStream.encoding, List.append_assoc,
      hsealed.reads hssl (by omega) hfits (by rw [hty]; decide), ok_bind]
    rfl
  · have hflat : stream.ebox.asRead.configs.flatMap EboxConfig.parts =
        c.parts.map EboxPart.asRead := by
      rw [Ebox.asRead, hcs]
      exact List.append_nil _
    rw [hflat, List.forall₂_map_right_iff]
    refine forall₂_comp ?_ (List.forall₂_map_left_iff.mp hparts) hc.parts
    intro r tplPart part hp hs
    exact partKey_sealed hssl hp hs

/-- An ebox sealed to the encryption recipients of a file is current. -/
theorem current_of_new (hssl : ssl.Lawful) {dealer : Dealer Rng} {text : List Char}
    {rs : List Recipient} (hrs : Ids.parse text = .ok rs)
    (hcount : (encryptionRecipients rs).length ≤ 255) {tpl : EboxTemplate}
    (htpl : templateFromRecipients ((encryptionRecipients rs).map Recipient.id) = .ok tpl)
    {rng rng' : Rng} {stream : EboxStream}
    (hnew : EboxStream.new ssl dealer tpl rng = .ok (stream, rng')) (frames : Bytes) :
    reencryptUnnecessary ssl (stream.encoding ++ frames) text = true := by
  obtain ⟨e, hread, hkeys⟩ := fromBytes_new hssl hcount htpl hnew frames
  have hsame : insertKeys (recipientKey ssl) ∅ (encryptionRecipients rs) =
      insertKeys (partKey ssl) ∅ (e.configs.flatMap EboxConfig.parts) :=
    insertKeys_congr (hkeys.imp fun _ _ h => h.1) ∅
  have hsome : ∀ r ∈ encryptionRecipients rs, (recipientKey ssl r).isSome := by
    intro r hr
    obtain ⟨part, -, h⟩ := forall₂_mem_left hkeys hr
    exact h.2
  obtain ⟨want, hwant⟩ := Option.isSome_iff_exists.mp (insertKeys_isSome hsome ∅)
  rw [reencryptUnnecessary, recipientsFromPiggyIds, recipientsFromEbox, hrs, hread]
  dsimp only
  rw [← hsame, hwant]
  dsimp only
  rw [Bool.and_eq_true, decide_eq_true_eq, decide_eq_true_eq]
  refine ⟨?_, rfl⟩
  -- A first recipient is there, so its key is in the set.
  obtain ⟨hne, -⟩ := templateFromRecipients_parts htpl
  obtain ⟨r, hr⟩ := List.exists_mem_of_ne_nil _ (List.map_eq_nil_iff.not.mp hne)
  obtain ⟨k, hk⟩ := Option.isSome_iff_exists.mp (hsome r hr)
  exact Finset.ne_empty_of_mem (((insertKeys_eq_some hwant).2 k).mpr (.inr ⟨r, hr, hk⟩))

/-- What `piggy-ids encrypt` writes for a file is current. -/
theorem current_of_idsEncrypt (hssl : ssl.Lawful) {dealer : Dealer Rng} {text : List Char}
    {plaintext out : Bytes} {rng : Rng} (hcount : Countable text)
    (h : idsEncrypt ssl dealer text plaintext rng = some out) :
    reencryptUnnecessary ssl out text = true := by
  unfold idsEncrypt at h
  split at h
  · cases h
  · next rs hrs =>
    split at h
    · cases h
    · next tpl htpl =>
      have hwrite : cmdEncrypt ssl dealer tpl [plaintext] rng = .ok out := by
        rcases hrun : cmdEncrypt ssl dealer tpl [plaintext] rng with e | bytes
        · rw [hrun] at h
          cases h
        · rw [hrun] at h
          rw [Option.some.inj h]
      simp only [cmdEncrypt, writeReads, bind_ok, liftBox_ok, pure_ok] at hwrite
      obtain ⟨⟨stream, rng'⟩, hnew, header, hheader, frames, -, rfl⟩ := hwrite
      have hfits := fits_of_templateFromRecipients htpl (by rw [List.length_map]; exact hcount rs hrs)
      have henc := toBytes_fresh hssl hfits (fun c hc hrec =>
        absurd hrec (not_recovery_of_templateFromRecipients htpl c hc)) hnew
      rw [hheader] at henc
      rw [Except.ok.inj henc]
      exact current_of_new hssl hrs (hcount rs hrs) htpl hnew frames

/-! ## The walk -/

/-- A re-encrypted ebox is what `piggy-ids encrypt` writes for its file. -/
theorem reencryptOne_ok {w : Walker σ τ Rng} {text : List Char} {turn : Turn Rng}
    {bytes out : Bytes} {s s' : σ} {t t' : τ}
    (h : reencryptOne ssl w text turn bytes s t = (.ok out, s', t')) :
    ∃ plaintext, idsEncrypt ssl w.dealer text plaintext turn.rng = some out := by
  unfold reencryptOne at h
  split at h
  · split at h
    · cases h
    · cases h
    · next plaintext _ _ _ =>
      split at h
      · cases h
      · next written hwritten =>
        obtain ⟨hout, -⟩ := Prod.mk.inj h
        split at hout
        · cases hout
          exact ⟨plaintext, hwritten⟩
        · cases hout
  · cases h

/-- After a walk in which all went well every ebox is current. -/
theorem reencrypt_clean (hssl : ssl.Lawful) {w : Walker σ τ Rng} {live : List Char}
    {entries : List Entry} (hcount : ∀ e ∈ entries, Countable (e.own.getD live)) {n : Nat} {s : σ}
    {t : τ} (h : (reencrypt ssl w live n entries s t).2 = .clean) :
    ∀ e ∈ (reencrypt ssl w live n entries s t).1, e.Current ssl live := by
  induction entries generalizing n s t with
  | nil => exact fun e he => absurd he List.not_mem_nil
  | cons e rest ih =>
    obtain ⟨hfew, hrest⟩ := List.forall_mem_cons.mp hcount
    rw [reencrypt] at h ⊢
    dsimp only at h ⊢
    split at h
    · next hskip =>
      rw [if_pos hskip]
      exact List.forall_mem_cons.mpr ⟨(Bool.and_eq_true_iff.mp hskip).2, ih hrest h⟩
    · next hdue =>
      rw [if_neg hdue]
      split at h
      · next bytes _ _ hone =>
        obtain ⟨plaintext, hwritten⟩ := reencryptOne_ok hone
        exact List.forall_mem_cons.mpr ⟨current_of_idsEncrypt hssl hfew hwritten, ih hrest h⟩
      · exact absurd h (WalkEnd.afterFailure_ne_clean _)
      · cases h

/-- A walk over current eboxes leaves them as they are. -/
theorem reencrypt_current {w : Walker σ τ Rng} {live : List Char} {entries : List Entry}
    (h : ∀ e ∈ entries, e.Current ssl live) (n : Nat) (s : σ) (t : τ) :
    (reencrypt ssl w live n entries s t).1 = entries := by
  induction entries generalizing n s t with
  | nil => rfl
  | cons e rest ih =>
    obtain ⟨hcurrent, hrest⟩ := List.forall_mem_cons.mp h
    rw [Entry.Current] at hcurrent
    rw [reencrypt]
    dsimp only
    rw [hcurrent, Bool.and_true]
    cases hreads : (w.turns n).reads with
    | true =>
      rw [if_pos rfl]
      dsimp only
      rw [ih hrest]
    | false =>
      -- A file that cannot be read is not skipped, and not rewritten either.
      rw [if_neg Bool.false_ne_true, reencryptOne, hreads, if_neg Bool.false_ne_true]
      dsimp only
      rw [ih hrest]

end

end Piggy.Pass
