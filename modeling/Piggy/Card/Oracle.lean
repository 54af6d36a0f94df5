import Piggy.Card.Session
import Piggy.Box.Calls
import Mathlib.Logic.Function.Basic

/-!
# The card oracle

Without an agent a decryptor asks the attached cards. The oracle finds the card of a
query by the key in its slot, asks for the PIN of a card once and keeps it, and sends
it in every session. It keeps the PIN before the card has seen it.
-/

namespace Piggy.Card

open Piggy.Core Piggy.Box

/-- The cards and whoever supplies their PINs. -/
structure CardEnv (ω : Type) extends PivEnv ω where
  pinSupplier : ω → String → Except OracleError String × ω

/-- The oracle of the attached cards: the PINs it keeps, the log of what was asked for and
sent, and the world around it. -/
structure CardEcdhOracle (ω : Type) where
  pinCache : Guid → Option String
  log : PinLog
  world : ω

/-- An oracle without PINs. -/
def CardEcdhOracle.new {ω : Type} (w : ω) : CardEcdhOracle ω :=
  { pinCache := fun _ => none, log := [], world := w }

/-- One upper-case hexadecimal digit. -/
def upperHexDigit (n : Nat) : Char := "0123456789ABCDEF".toList.getD n '0'

/-- A GUID in upper-case hexadecimal digits. -/
def guidToHex (guid : Guid) : String :=
  String.ofList (guid.bytes.flatMap fun b =>
    [upperHexDigit (b.toNat / 16), upperHexDigit (b.toNat % 16)])

section

variable {Scalar Point Rng : Type} (ssl : OpenSsl Scalar Point Rng) {ω : Type}

/-- The first of the tokens whose slot holds a key. A token whose slot cannot be read is
passed over. -/
def findTokenAmong (env : PivEnv ω) (target : Bytes) : List Guid → ω → Option Guid × ω
  | [], w => (none, w)
  | guid :: tokens, w =>
    match env.readSlot w guid defaultSlot with
    | (.error _, w) => findTokenAmong env target tokens w
    | (.ok slot, w) =>
      match slot.key.ecdsa with
      | none => findTokenAmong env target tokens w
      | some (candidate, _) =>
        if candidate = target then (some guid, w) else findTokenAmong env target tokens w

/-- The attached token that holds a key. -/
def findTokenByPubkey (env : PivEnv ω) (target : Bytes) (w : ω) :
    Except OracleError (Option Guid) × ω :=
  match env.enumerateTokens w with
  | (.error e, w) => (.error (.transport s!"enumerate tokens: {e.text}"), w)
  | (.ok tokens, w) =>
    let (token, w) := findTokenAmong env target tokens w
    (.ok token, w)

/-- The token a query is for. -/
def tokenOf (env : PivEnv ω) (selfBlob : Bytes) (w : ω) : Except OracleError (Option Guid) × ω :=
  match (extractPointFromSshkeyBlob selfBlob >>= canonicalizeUncompressed ssl) with
  | .error e => (.error e, w)
  | .ok selfUncompressed => findTokenByPubkey env selfUncompressed w

namespace CardEcdhOracle

/-- The PIN of a card: the one that is kept, or else the answer to a prompt, which is kept. -/
def pinFor (env : CardEnv ω) (guid : Guid) (s : CardEcdhOracle ω) :
    Except OracleError String × CardEcdhOracle ω :=
  match s.pinCache guid with
  | some pin => (.ok pin, s)
  | none =>
    match env.pinSupplier s.world s!"PIV PIN for token {guidToHex guid}" with
    | (.error e, w) =>
      (.error e, { s with log := s.log ++ [(guid, .prompted none)], world := w })
    | (.ok pin, w) =>
      (.ok pin, { pinCache := Function.update s.pinCache guid (some pin),
                  log := s.log ++ [(guid, .prompted (some pin))], world := w })

/-- One session: the slot is read, the PIN is verified and the secret is derived. -/
def session (env : CardEnv ω) (guid : Guid) (pin : String) (partnerUncompressed : Bytes)
    (s : CardEcdhOracle ω) : Except OracleError Bytes × CardEcdhOracle ω :=
  match env.beginPinSession s.world guid with
  | (.error e, w) => (.error (.transport s!"begin_pin_session: {e.text}"), { s with world := w })
  | (.ok (), w) =>
    match env.readSlot w guid defaultSlot with
    | (.error e, w) => (.error (.transport s!"read slot: {e.text}"), { s with world := w })
    | (.ok slot, w) =>
      match verifyPin env.toPivEnv guid pin w with
      | (.error e, events, w) =>
        (.error (pivToOraclePinError e), { s with log := s.log ++ events, world := w })
      | (.ok (), events, w) =>
        let s := { s with log := s.log ++ events }
        match env.ecdhDerive w guid slot partnerUncompressed with
        | (.error e, w) => (.error (.transport s!"ecdh_derive: {e.text}"), { s with world := w })
        | (.ok secret, w) => (.ok secret, { s with world := w })

/-- Answers a query with the card that holds its key. -/
def ecdh (env : CardEnv ω) (s : CardEcdhOracle ω) (selfBlob partnerBlob : Bytes) :
    Except OracleError Bytes × CardEcdhOracle ω :=
  match tokenOf ssl env.toPivEnv selfBlob s.world with
  | (.error e, w) => (.error e, { s with world := w })
  | (.ok none, w) => (.error .noKey, { s with world := w })
  | (.ok (some guid), w) =>
    match pinFor env guid { s with world := w } with
    | (.error e, s) => (.error e, s)
    | (.ok pin, s) =>
      match (extractPointFromSshkeyBlob partnerBlob >>= canonicalizeUncompressed ssl) with
      | .error e => (.error e, s)
      | .ok partnerUncompressed => session env guid pin partnerUncompressed s

/-- The oracle for unlocking. -/
def oracle (env : CardEnv ω) : EcdhOracle (CardEcdhOracle ω) where
  ecdh := ecdh ssl env

/-! ## What one query does -/

/-- A query is for no card, or a prompt for its card fails, or the PIN of the card, kept or
just asked for, is sent at most once. -/
theorem ecdh_cases (env : CardEnv ω) (s : CardEcdhOracle ω) (selfBlob partnerBlob : Bytes) :
    ((ecdh ssl env s selfBlob partnerBlob).2.pinCache = s.pinCache ∧
      (ecdh ssl env s selfBlob partnerBlob).2.log = s.log) ∨
    ∃ guid, (tokenOf ssl env.toPivEnv selfBlob s.world).1 = .ok (some guid) ∧
      ((s.pinCache guid = none ∧ (ecdh ssl env s selfBlob partnerBlob).2.pinCache = s.pinCache ∧
        (ecdh ssl env s selfBlob partnerBlob).2.log = s.log ++ [(guid, .prompted none)]) ∨
      ∃ pin asked sent,
        (s.pinCache guid = some pin ∧ asked = [] ∨
          s.pinCache guid = none ∧ asked = [(guid, .prompted (some pin))]) ∧
        (sent = [] ∨ ∃ answer, sent = [(guid, .verified pin answer)]) ∧
        (ecdh ssl env s selfBlob partnerBlob).2.pinCache =
          Function.update s.pinCache guid (some pin) ∧
        (ecdh ssl env s selfBlob partnerBlob).2.log = s.log ++ asked ++ sent) := by
  rw [ecdh]
  rcases tokenOf ssl env.toPivEnv selfBlob s.world with ⟨e | _ | guid, w⟩
  · exact .inl ⟨rfl, rfl⟩
  · exact .inl ⟨rfl, rfl⟩
  refine .inr ⟨guid, rfl, ?_⟩
  have hsession : ∀ pin partner (s' : CardEcdhOracle ω), ∃ sent : PinLog,
      (sent = [] ∨ ∃ answer, sent = [(guid, .verified pin answer)]) ∧
      (session env guid pin partner s').2.pinCache = s'.pinCache ∧
      (session env guid pin partner s').2.log = s'.log ++ sent := by
    intro pin partner s'
    rw [session]
    rcases env.beginPinSession s'.world guid with ⟨e | ⟨⟩, w⟩
    · exact ⟨[], .inl rfl, rfl, by simp⟩
    dsimp only
    rcases env.readSlot w guid defaultSlot with ⟨e | slot, w⟩
    · exact ⟨[], .inl rfl, rfl, by simp⟩
    dsimp only
    have hevents : (verifyPin env.toPivEnv guid pin w).2.1 = [] ∨
        ∃ answer, (verifyPin env.toPivEnv guid pin w).2.1 = [(guid, .verified pin answer)] := by
      rcases verifyPin_events env.toPivEnv guid pin w with ⟨h, -⟩ | h
      · exact .inl h
      · exact .inr ⟨_, h⟩
    rcases hverify : verifyPin env.toPivEnv guid pin w with ⟨e | ⟨⟩, events, w'⟩
    all_goals rw [hverify] at hevents
    · exact ⟨events, hevents, rfl, rfl⟩
    dsimp only
    rcases env.ecdhDerive w' guid slot partner with ⟨e | secret, w''⟩
    · exact ⟨events, hevents, rfl, rfl⟩
    · exact ⟨events, hevents, rfl, rfl⟩
  dsimp only
  rw [pinFor]
  rcases hcache : s.pinCache guid with _ | pin
  · dsimp only
    rcases env.pinSupplier w _ with ⟨e | pin, w⟩
    · exact .inl ⟨rfl, rfl, rfl⟩
    refine .inr ⟨pin, [(guid, .prompted (some pin))], ?_⟩
    dsimp only
    rcases extractPointFromSshkeyBlob partnerBlob >>= canonicalizeUncompressed ssl with e | partner
    · exact ⟨[], .inr ⟨rfl, rfl⟩, .inl rfl, rfl, by simp⟩
    · obtain ⟨sent, hsent, hpins, hlog⟩ := hsession pin partner _
      exact ⟨sent, .inr ⟨rfl, rfl⟩, hsent, hpins, hlog⟩
  · refine .inr ⟨pin, [], ?_⟩
    have hsame : Function.update s.pinCache guid (some pin) = s.pinCache := by
      rw [← hcache, Function.update_eq_self]
    dsimp only
    rw [hsame, List.append_nil]
    rcases extractPointFromSshkeyBlob partnerBlob >>= canonicalizeUncompressed ssl with e | partner
    · exact ⟨[], .inl ⟨rfl, rfl⟩, .inl rfl, rfl, by simp⟩
    · obtain ⟨sent, hsent, hpins, hlog⟩ := hsession pin partner { s with world := w }
      exact ⟨sent, .inl ⟨rfl, rfl⟩, hsent, hpins, hlog⟩

end CardEcdhOracle

/-! ## Histories of PINs -/

/-- A prompt, whatever it was answered. -/
def PinEvent.isPrompt : PinEvent → Bool
  | prompted _ => true
  | verified _ _ => false

/-- A VERIFY that failed. -/
def PinEvent.isFailure : PinEvent → Bool
  | verified _ (.error _) => true
  | _ => false

/-- What the history of one card must be for a mistyped PIN to cost one try. -/
structure PinDiscipline (history : List PinEvent) : Prop where
  /-- A PIN the card did not take is sent again only when it was given again. -/
  neverAgain : ∀ before pin e between answer after,
    history = before ++ .verified pin (.error e) :: (between ++ .verified pin answer :: after) →
      .prompted (some pin) ∈ between
  /-- There are no more failed VERIFYs than prompts. -/
  failures : history.countP PinEvent.isFailure ≤
    history.countP PinEvent.isPrompt
  /-- A PIN is sent right after it was given, or the card has taken it before. -/
  reuse : ∀ before pin answer after, history = before ++ .verified pin answer :: after →
    .verified pin (.ok ()) ∈ before ∨ ∃ front back, before = front ++ .prompted (some pin) :: back ∧
      ∀ pin' answer', .verified pin' answer' ∉ back

/-- The histories of a card that is not asked again once it has refused its PIN: failed
prompts, one prompt that gave a PIN, and VERIFYs with that PIN, all but the last accepted. -/
inductive Orderly : Option String → List PinEvent → Prop where
  | unasked (failed : Nat) : Orderly none (List.replicate failed (.prompted none))
  | asked (failed : Nat) (pin : String) (sent : List PinEvent)
      (hpin : ∀ x ∈ sent, ∃ answer, x = .verified pin answer)
      (hok : ∀ x ∈ sent.dropLast, x = .verified pin (.ok ())) :
      Orderly (some pin) (List.replicate failed (.prompted none) ++ .prompted (some pin) :: sent)

private theorem mem_dropLast_of_append_cons {α : Type} {l front back : List α} {x y : α}
    (h : l = front ++ x :: (back ++ [y])) : x ∈ l.dropLast := by
  have hsplit : l = (front ++ x :: back) ++ [y] := by simp [h]
  rw [hsplit, List.dropLast_concat]
  simp

/-- In an orderly history a VERIFY with another event behind it was accepted. -/
private theorem Orderly.accepted {cached : Option String} {history : List PinEvent}
    (h : Orderly cached history) {pin : String} {answer : Except PivError Unit}
    (hmem : .verified pin answer ∈ history.dropLast) : answer = .ok () := by
  cases h with
  | unasked failed =>
    have hin := List.dropLast_subset _ hmem
    simp at hin
  | asked failed pin' sent hpin hok =>
    rw [List.dropLast_append_of_ne_nil (by simp)] at hmem
    rcases List.mem_append.mp hmem with hin | hin
    · simp at hin
    · rcases sent with _ | ⟨y, sent⟩
      · simp at hin
      · rw [List.dropLast_cons_of_ne_nil (by simp)] at hin
        rcases List.mem_cons.mp hin with hin | hin
        · cases hin
        · cases hok _ hin
          rfl

/-- Orderly histories are disciplined. -/
theorem Orderly.pinDiscipline {cached : Option String} {history : List PinEvent}
    (h : Orderly cached history) : PinDiscipline history where
  neverAgain := by
    intro before pin e between answer after hsplit
    have hlast : ∃ front y, between ++ .verified pin answer :: after = front ++ [y] :=
      ⟨_, _, (List.dropLast_append_getLast (by simp)).symm⟩
    obtain ⟨front, y, hfront⟩ := hlast
    rw [hfront] at hsplit
    cases h.accepted (mem_dropLast_of_append_cons hsplit)
  failures := by
    have hlast : history.countP PinEvent.isFailure ≤ 1 := by
      rcases List.eq_nil_or_concat history with rfl | ⟨front, y, rfl⟩
      · simp
      · have hnone : front.countP PinEvent.isFailure = 0 := by
          rw [List.countP_eq_zero]
          intro x hx
          rcases x with _ | ⟨pin, e | ⟨⟩⟩
          · simp [PinEvent.isFailure]
          · have hin : PinEvent.verified pin (.error e) ∈ (front.concat y).dropLast := by
              rwa [List.concat_eq_append, List.dropLast_concat]
            cases h.accepted hin
          · simp [PinEvent.isFailure]
        rw [List.concat_eq_append, List.countP_append, hnone, Nat.zero_add]
        exact List.countP_le_length
    cases h with
    | unasked failed => simp [List.countP_replicate, PinEvent.isFailure]
    | asked failed pin sent hpin hok =>
      refine Nat.le_trans hlast ?_
      rw [List.countP_append, List.countP_cons_of_pos rfl]
      omega
  reuse := by
    intro before pin answer after hsplit
    cases h with
    | unasked failed =>
      have hmem : PinEvent.verified pin answer ∈ List.replicate failed (.prompted none) := by
        rw [hsplit]
        simp
      simp at hmem
    | asked failed pin' sent hpin hok =>
      rcases List.append_eq_append_iff.mp hsplit with
        ⟨front, rfl, hrest⟩ | ⟨front, hfront, hrest⟩
      · rcases front with _ | ⟨x, front⟩
        · cases hrest
        · obtain ⟨rfl, rfl⟩ := List.cons.inj hrest
          obtain ⟨answer', hx⟩ := hpin (.verified pin answer) (by simp)
          cases hx
          rcases front with _ | ⟨first, front⟩
          · exact .inr ⟨_, [], rfl, by simp⟩
          · refine .inl ?_
            have hin : first ∈ (first :: (front ++ .verified pin answer :: after)).dropLast := by
              rw [List.dropLast_cons_of_ne_nil (by simp)]
              simp
            have hfirst := hok first hin
            simp [hfirst]
      · have hmem : PinEvent.verified pin answer ∈ List.replicate failed (.prompted none) := by
          rcases front with _ | ⟨x, front⟩
          · cases hrest
          · obtain ⟨rfl, -⟩ := List.cons.inj hrest
            rw [hfront]
            simp
        simp at hmem

/-! ## Runs -/

variable {Scalar Point Rng : Type} (ssl : OpenSsl Scalar Point Rng) {ω : Type}

/-- The card of a query has not refused the PIN that is kept for it. -/
def Unrefused (env : CardEnv ω) (s : CardEcdhOracle ω) (query : Bytes × Bytes) : Prop :=
  ∀ guid pin, (tokenOf ssl env.toPivEnv query.1 s.world).1 = .ok (some guid) →
    s.pinCache guid = some pin → ∀ e, .verified pin (.error e) ∉ s.log.history guid

/-- The invariant: the history of every card is orderly. -/
def CardEcdhOracle.Orderly (s : CardEcdhOracle ω) : Prop :=
  ∀ guid, Card.Orderly (s.pinCache guid) (s.log.history guid)

theorem CardEcdhOracle.orderly_new (w : ω) : (CardEcdhOracle.new w).Orderly :=
  fun _ => .unasked 0

private theorem Orderly.of_none {history : List PinEvent} (h : Orderly none history) :
    ∃ failed, history = List.replicate failed (.prompted none) := by
  cases h with
  | unasked failed => exact ⟨failed, rfl⟩

private theorem Orderly.sent {pin : String} {history : List PinEvent}
    (h : Orderly (some pin) history) (hok : ∀ e, .verified pin (.error e) ∉ history)
    (answer : Except PivError Unit) :
    Orderly (some pin) (history ++ [.verified pin answer]) := by
  cases h with
  | asked failed pin sent hpin hsent =>
    rw [List.append_assoc, List.cons_append]
    refine .asked failed pin _ ?_ ?_
    · intro x hx
      rcases List.mem_append.mp hx with hx | hx
      · exact hpin x hx
      · exact ⟨answer, List.mem_singleton.mp hx⟩
    · intro x hx
      rw [List.dropLast_concat] at hx
      obtain ⟨e | ⟨⟩, rfl⟩ := hpin x hx
      · exact absurd (by simp [hx]) (hok e)
      · rfl

/-- A query whose card has not refused its PIN keeps every history orderly. -/
theorem CardEcdhOracle.Orderly.ecdh {env : CardEnv ω} {s : CardEcdhOracle ω} (hs : s.Orderly)
    {query : Bytes × Bytes} (hq : Unrefused ssl env s query) :
    (CardEcdhOracle.ecdh ssl env s query.1 query.2).2.Orderly := by
  intro guid'
  have hold := hs guid'
  rcases CardEcdhOracle.ecdh_cases ssl env s query.1 query.2 with
    ⟨hcache, hlog⟩ | ⟨guid, hguid, ⟨hnone, hcache, hlog⟩ | ⟨pin, asked, sent, hasked, hsent, hcache,
      hlog⟩⟩
  · rw [hcache, hlog]
    exact hold
  · rw [hcache, hlog, PinLog.history_append]
    by_cases he : guid = guid'
    · subst he
      rw [PinLog.history_single_self]
      rw [hnone] at hold ⊢
      obtain ⟨failed, hfailed⟩ := hold.of_none
      rw [hfailed, ← List.replicate_succ']
      exact .unasked (failed + 1)
    · rw [PinLog.history_single_other he, List.append_nil]
      exact hold
  · by_cases he : guid = guid'
    · subst he
      -- the PIN is kept already, or it has just been given
      have hkept : Card.Orderly (some pin) (PinLog.history (s.log ++ asked) guid) ∧
          ∀ e, .verified pin (.error e) ∉ PinLog.history (s.log ++ asked) guid := by
        rcases hasked with ⟨hpin, rfl⟩ | ⟨hnone, rfl⟩
        · rw [List.append_nil]
          exact ⟨by rwa [hpin] at hold, hq guid pin hguid hpin⟩
        · rw [PinLog.history_append, PinLog.history_single_self]
          rw [hnone] at hold
          obtain ⟨failed, hfailed⟩ := hold.of_none
          rw [hfailed]
          exact ⟨.asked failed pin [] (by simp) (by simp), by simp⟩
      rw [hcache, hlog, Function.update_self]
      rcases hsent with rfl | ⟨answer, rfl⟩
      · rw [List.append_nil]
        exact hkept.1
      · rw [PinLog.history_append, PinLog.history_single_self]
        exact hkept.1.sent hkept.2 answer
    · have hasked' : PinLog.history asked guid' = [] := by
        rcases hasked with ⟨-, rfl⟩ | ⟨-, rfl⟩
        · rfl
        · exact PinLog.history_single_other he _
      have hsent' : PinLog.history sent guid' = [] := by
        rcases hsent with rfl | ⟨answer, rfl⟩
        · rfl
        · exact PinLog.history_single_other he _
      rw [hcache, hlog, Function.update_of_ne (Ne.symm he), PinLog.history_append,
        PinLog.history_append, hasked', hsent', List.append_nil, List.append_nil]
      exact hold

/-- As long as no query is for a card that has refused the PIN kept for it, a mistyped PIN
costs one try. -/
theorem pinDiscipline_of_unrefused (env : CardEnv ω) (w : ω) (queries : List (Bytes × Bytes))
    (h : (CardEcdhOracle.oracle ssl env).EachMeets (Unrefused ssl env) (CardEcdhOracle.new w)
      queries) (guid : Guid) :
    PinDiscipline
      (((CardEcdhOracle.oracle ssl env).after (CardEcdhOracle.new w) queries).log.history guid) :=
  (h.preserves (fun _ _ hq hs => hs.ecdh ssl hq) (CardEcdhOracle.orderly_new w)
    guid).pinDiscipline

end

/-! ## A card with a retry counter -/

/-- The GUID of the sample card. -/
def sampleGuid : Guid := .ofByte 7

/-- One card with the PIN `123456` whose state is the number of tries it has left, and a
person who gives one PIN at every prompt. -/
def sampleCardEnv (typed : String) : CardEnv Nat where
  enumerateTokens tries := (.ok [sampleGuid], tries)
  readSlot tries _ id := (.ok ⟨id, .nistP256 (OpenSsl.samplePoint .uncompressed 5)⟩, tries)
  beginPinSession tries _ := (.ok (), tries)
  transmitVerify tries _ pin :=
    if tries = 0 then (.ok ⟨0x69, 0x83⟩, 0)
    else if pin = strBytes "123456" then (.ok ⟨0x90, 0x00⟩, 3)
    else (.ok ⟨0x63, 0xC0 + UInt8.ofNat (tries - 1)⟩, tries - 1)
  ecdhDerive tries _ _ _ := (.ok [15], tries)
  pinSupplier tries _ := (.ok typed, tries)

/-- The query of a part that is sealed to the sample card. -/
def sampleQuery : Bytes × Bytes :=
  (ecPointToSshPubkeyBlob .nistP256 (OpenSsl.samplePoint .uncompressed 5),
    ecPointToSshPubkeyBlob .nistP256 (OpenSsl.samplePoint .uncompressed 3))

private theorem history_twice_mistyped :
    (((CardEcdhOracle.oracle OpenSsl.sample (sampleCardEnv "654321")).after
      (CardEcdhOracle.new 3) [sampleQuery, sampleQuery]).log.history sampleGuid) =
      [.prompted (some "654321"), .verified "654321" (.error (.pinIncorrect 2)),
        .verified "654321" (.error (.pinIncorrect 1))] := by
  rfl

/-- Two parts for one card and a mistyped PIN cost two tries and one prompt. -/
theorem not_pinDiscipline_mistyped :
    ¬ ∀ (queries : List (Bytes × Bytes)) (guid : Guid),
      PinDiscipline (((CardEcdhOracle.oracle OpenSsl.sample (sampleCardEnv "654321")).after
        (CardEcdhOracle.new 3) queries).log.history guid) := by
  intro h
  have hrun := h [sampleQuery, sampleQuery] sampleGuid
  rw [history_twice_mistyped] at hrun
  have hagain := hrun.neverAgain [.prompted (some "654321")] "654321" (.pinIncorrect 2) []
    (.error (.pinIncorrect 1)) [] rfl
  cases hagain

/-- Two parts for one card and the right PIN. -/
theorem pinDiscipline_of_unrefused_sample :
    PinDiscipline (((CardEcdhOracle.oracle OpenSsl.sample (sampleCardEnv "123456")).after
      (CardEcdhOracle.new 3) [sampleQuery, sampleQuery]).log.history sampleGuid) := by
  refine pinDiscipline_of_unrefused OpenSsl.sample (sampleCardEnv "123456") 3
    [sampleQuery, sampleQuery] ⟨?_, ?_, trivial⟩ sampleGuid
  · intro guid pin _ hcache
    cases hcache
  · intro guid pin hguid hcache e hmem
    obtain rfl : sampleGuid = guid := Option.some.inj (Except.ok.inj hguid)
    have hhistory : (((CardEcdhOracle.oracle OpenSsl.sample (sampleCardEnv "123456")).after
        (CardEcdhOracle.new 3) [sampleQuery]).log.history sampleGuid) =
          [.prompted (some "123456"), .verified "123456" (.ok ())] := rfl
    have hmem' : PinEvent.verified pin (.error e) ∈
        [PinEvent.prompted (some "123456"), .verified "123456" (.ok ())] := hhistory ▸ hmem
    simp at hmem'

end Piggy.Card
