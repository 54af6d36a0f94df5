import Piggy.Go.Seal
import Piggy.Pigpen.OneCall

/-!
# Opening in Go

`Open` of the Go package asks the oracle the same questions as the Rust crate, in the same order, and
with the same answers comes to the same plaintext or refuses for the same reason.
-/

namespace Piggy.Go.Pigpen

open Piggy.Core
open Piggy.Markl (FormatId)
open Piggy.Pigpen (Crates X25519Identity)
open Piggy.Pigpen.Document (CardAnswer answersOf sampleRecipients sampleInputs sampleOracle sampleIdentities)
open Piggy.Go.Markl (Id)
open Piggy.Go.Markl.Id (Same)

/-- Why a document is not opened. -/
inductive OpenError where
  | notSealed
  | noUsableRecipient
  | headerMac
  | payload (detail : String)
  /-- No recipient could be opened; the oracle failed. -/
  | oracle (failures : List String)
  /-- The canonical header cannot be written. -/
  | codec (e : Error)
  deriving DecidableEq

/-- A question to the oracle: the id of the recipient and the ephemeral key of its wrap. -/
abbrev ECDHCall := Id × Bytes

section

variable {Scalar Point : Type} (g : Suite Scalar Point) (t : CaseTables)

/-- The key of the map of tried recipients, with the name of the format in front. -/
def formatKey (format data : Bytes) : Bytes := format ++ 0x00 :: data

/-- The key a recipient is tried under. An id without a format has none, and stops the program. -/
def triedKey (r : Recipient) : Option Bytes :=
  r.wrap.map fun _ =>
    match r.id.format with
    | none => []
    | some f => formatKey f.id r.id.data

/-- What an unwrap comes to. -/
def verdictOf : Except String Bytes → Verdict String (Option Bytes)
  | .ok fileKey => .done (some fileKey)
  | .error _ => .passed

/-- What `unwrapP256` makes of the answer of the oracle. -/
def judgeShared (wrap data : Bytes) : CardAnswer → Verdict String (Option Bytes)
  | .ok shared => verdictOf (g.unwrapP256WithShared wrap data shared)
  | .error cause => .failed cause

/-- The identity of a public key. -/
def findX25519 (ids : List X25519Identity) (pub : Bytes) : Option X25519Identity :=
  ids.find? (·.publicKey == pub)

/-- The attempt on a recipient. -/
def tryRecipient (oracle : Bool) (x25519 : List X25519Identity) (r : Recipient) :
    Attempt ECDHCall CardAnswer String (Option Bytes) :=
  match r.wrap with
  | none => .settled .passed
  | some wrap =>
    match r.id.format with
    | none => .settled (.done none)
    | some f =>
      if f.id = formatAgeX25519 then
        match findX25519 x25519 r.id.data with
        | none => .settled .passed
        | some i => .settled (verdictOf (g.unwrapX25519 wrap r.id.data i.secret))
      else if f.id = formatPivyP256 then
        if !oracle then .settled .passed
        else if wrap.length ≠ 33 + Suite.fileKeyLen + Suite.streamTagLen then .settled .passed
        else .ask (r.id, wrap.take 33) (judgeShared g wrap r.id.data)
      else .settled .passed

/-- What follows the loop over the recipients. -/
def finish (d : Document) (mac : Bytes) : Tried String (Option Bytes) → Result OpenError Bytes
  | .exhausted failures => if 0 < failures.length then .error (.oracle failures) else .error .noUsableRecipient
  | .done none => .panic
  | .done (some fileKey) => do
    let canon ← orElse .codec (d.canonicalHeader t)
    if g.headerMac fileKey canon ≠ mac then .error .headerMac
    else orElse .payload (.lift (g.openPayload fileKey d.payload))

/-- `Open`, as a program over the questions to the oracle. -/
def openRun (d : Document) (oracle : Bool) (x25519 : List X25519Identity) :
    Asks ECDHCall CardAnswer (Result OpenError Bytes) :=
  match d.mac with
  | none => .ret (.error .notSealed)
  | some mac =>
    tryAll triedKey (tryRecipient g oracle x25519) d.recipients [] [] >>= fun r => .ret (finish g t d mac r)

end

/-! ## The same questions -/

variable {Scalar Point : Type} {g : Suite Scalar Point} {c : Crates Scalar Point} {t : CaseTables}

/-- One question in both languages. -/
structure SameCall (rust : Piggy.Pigpen.Document.CardCall) (go : ECDHCall) : Prop where
  id : Same rust.1 go.1
  epk : go.2 = rust.2

/-- A plaintext of a document, or the reason why there is none. The header of a document that was not
read from a file may be one that neither package can write. -/
inductive SameOutcome (t : CaseTables) (rust : Piggy.Pigpen.Document) (go : Document) :
    Except Piggy.Pigpen.Error Bytes → Result OpenError Bytes → Prop where
  | plaintext (plain : Bytes) : SameOutcome t rust go (.ok plain) (.ok plain)
  | notSealed : SameOutcome t rust go (.error (.malformed "document is a recipient set, not sealed"))
      (.error .notSealed)
  | noRecipient : SameOutcome t rust go (.error .noRecipient) (.error .noUsableRecipient)
  | oracle (failures : List String) :
      SameOutcome t rust go (.error (.oracle (String.intercalate "; " failures)))
        (.error (.oracle failures))
  | mac : SameOutcome t rust go (.error .macMismatch) (.error .headerMac)
  | payload (detail : String) :
      SameOutcome t rust go (.error (.payload detail)) (.error (.payload detail))
  | header {e : Piggy.Pigpen.Error} (hrust : rust.canonicalHeader = .error e)
      (hgo : ∀ canon, go.canonicalHeader t ≠ .ok canon) :
      SameOutcome t rust go (.error e) (orElse .codec (go.canonicalHeader t))

/-- The key of the map from the key of a recipient. -/
def mapKey (key : FormatId × Bytes) : Bytes := formatKey (utf8 key.1.asStr.toList) key.2

/-- No format has a zero byte in its name, so the map tells keys apart. -/
theorem mapKey_injective : Function.Injective mapKey := by
  rintro ⟨format, data⟩ ⟨format', data'⟩ h
  have hzero : ∀ f : FormatId, (0x00 : UInt8) ∉ utf8 f.asStr.toList := by
    intro f
    cases f <;> decide +kernel
  obtain ⟨hname, hdata⟩ := append_cons_inj (hzero format) (hzero format') h
  exact Prod.ext (Markl.Id.utf8_format_iff.mp hname) hdata

/-- The file key as `Open` holds it. -/
def SameFileKey (fileKey : Bytes) (held : Option Bytes) : Prop := held = some fileKey

theorem verdictOf_same {rust : Except Piggy.Pigpen.Error Bytes} {go : Except String Bytes}
    (h : ∀ fileKey, go = .ok fileKey ↔ rust = .ok fileKey) :
    (Piggy.Pigpen.Document.verdictOf rust).Alike SameFileKey (verdictOf go) := by
  cases rust with
  | ok fileKey =>
    rw [(h fileKey).mpr rfl]
    exact .done rfl
  | error e =>
    cases go with
    | ok fileKey => cases (h fileKey).mp rfl
    | error text => exact .passed

/-- One recipient is tried alike. -/
theorem tryRecipient_same (h : g.Agrees c) (oracle : Bool) (x25519 : List X25519Identity)
    {rust : Piggy.Pigpen.Recipient} {go : Recipient} (hr : SameRecipient rust go) :
    (Piggy.Pigpen.Document.tryRecipient c oracle x25519 rust).Alike SameCall SameFileKey
      (tryRecipient g oracle x25519 go) := by
  have hpivy : formatPivyP256 = utf8 FormatId.pivyEcdhP256Pub.asStr.toList := rfl
  have hage : formatAgeX25519 = utf8 FormatId.ageX25519Pub.asStr.toList := rfl
  rw [Piggy.Pigpen.Document.tryRecipient.eq_def, tryRecipient.eq_def, hr.wrap, hr.id.format, hr.id.data, findX25519]
  rcases rust.wrap with _ | wrap
  · exact .settled .passed
  · simp only [hpivy, hage, Markl.Id.utf8_format_iff]
    generalize hformat : rust.id.format = format
    cases format
    case ageX25519Pub =>
      rw [if_pos rfl]
      dsimp only
      generalize List.find? _ x25519 = found
      rcases found with _ | i
      · exact .settled .passed
      · exact .settled (verdictOf_same fun _ => h.unwrapX25519)
    case pivyEcdhP256Pub =>
      simp only [reduceCtorEq, if_false, if_true]
      cases oracle with
      | false => exact .settled .passed
      | true =>
        simp only [Bool.not_true, Bool.false_eq_true, if_false, Crates.p256WrapEpk]
        by_cases hlen : wrap.length = 33 + Piggy.Pigpen.fileKeyLen + Piggy.Pigpen.tagLen
        · rw [if_neg (not_not.mpr hlen), if_neg (not_not.mpr (show wrap.length =
            33 + Suite.fileKeyLen + Suite.streamTagLen from hlen))]
          refine .ask ⟨hr.id, rfl⟩ ?_
          rintro (text | shared)
          · exact .failed text
          · exact verdictOf_same fun _ => h.unwrapP256WithShared hlen
        · rw [if_pos hlen, if_pos (show ¬ wrap.length = 33 + Suite.fileKeyLen + Suite.streamTagLen from hlen)]
          exact .settled .passed
    all_goals
      simp only [reduceCtorEq, if_false]
      exact .settled .passed

theorem triedKey_same {rust : Piggy.Pigpen.Recipient} {go : Recipient} (hr : SameRecipient rust go) :
    triedKey go = (Piggy.Pigpen.Document.triedKey rust).map mapKey := by
  rw [triedKey, hr.wrap, hr.id.format, hr.id.data, Piggy.Pigpen.Document.triedKey]
  rcases rust.wrap with _ | wrap <;> rfl

/-- What follows the loop is the same. -/
theorem finish_same (h : g.Agrees c) {rust : Piggy.Pigpen.Document} {go : Document} (hd : SameDocument rust go)
    (mac : Bytes) {r : Tried String Bytes} {r' : Tried String (Option Bytes)} (hr : r.Alike SameFileKey r') :
    SameOutcome t rust go (Piggy.Pigpen.Document.finish c rust mac r) (finish g t go mac r') := by
  cases hr with
  | exhausted failures =>
    rw [Piggy.Pigpen.Document.finish, finish]
    cases failures with
    | nil => exact .noRecipient
    | cons text texts => exact .oracle _
  | @done fileKey held hkey =>
    obtain rfl := hkey
    rw [Piggy.Pigpen.Document.finish, finish]
    rcases hcanon : rust.canonicalHeader with e | canon
    · have hgo : ∀ canon, go.canonicalHeader t ≠ .ok canon := by
        intro canon hcanon'
        cases hcanon.symm.trans ((canonicalHeader_same hd).mp hcanon')
      have hheader := SameOutcome.header hcanon hgo
      rcases hresult : go.canonicalHeader t with canon | e' | _
      · exact absurd hresult (hgo canon)
      all_goals
        rw [hresult] at hheader
        exact hheader
    · have hgo : go.canonicalHeader t = .ok canon := (canonicalHeader_same hd).mpr hcanon
      rw [hgo, ok_bind]
      change SameOutcome t rust go _ (if g.headerMac fileKey canon ≠ mac then .error .headerMac
        else orElse .payload (.lift (g.openPayload fileKey go.payload)))
      have hverify : c.verifyMac fileKey canon mac = decide (g.headerMac fileKey canon = mac) := by
        rw [h.headerMac]
        rfl
      rw [hverify, hd.payload, h.openPayload]
      by_cases hmac : g.headerMac fileKey canon = mac
      · rw [if_neg (by simp [hmac]), if_neg (not_not.mpr hmac)]
        rcases g.openPayload fileKey rust.payload with detail | plain
        · exact .payload detail
        · exact .plaintext plain
      · rw [if_pos (by simp [hmac]), if_pos hmac]
        exact .mac

/-- Opening one document asks one oracle the same questions in both languages. -/
theorem openRun_same (h : g.Agrees c) {rust : Piggy.Pigpen.Document} {go : Document} (hd : SameDocument rust go)
    (oracle : Bool) (x25519 : List X25519Identity) :
    Asks.Alike SameCall (SameOutcome t rust go) (Piggy.Pigpen.Document.openRun c rust oracle x25519)
      (openRun g t go oracle x25519) := by
  rw [Piggy.Pigpen.Document.openRun.eq_def, openRun.eq_def, hd.mac]
  rcases rust.mac with _ | mac
  · exact .notSealed
  · refine (alike_tryAll mapKey_injective ?_ [] []).bind fun r r' hr => finish_same h hd mac hr
    exact hd.recipients.imp fun _ _ hr => ⟨triedKey_same hr, tryRecipient_same h oracle x25519 hr⟩

/-- Two finished runs on a document with the same questions, answers and outcome. -/
structure SameRun (t : CaseTables) (rust : Piggy.Pigpen.Document) (go : Document)
    (calls : List (Σ _ : Piggy.Pigpen.Document.CardCall, CardAnswer))
    (result : Except Piggy.Pigpen.Error Bytes) (calls' : List (Σ _ : ECDHCall, CardAnswer))
    (result' : Result OpenError Bytes) : Prop where
  calls : List.Forall₂ (fun call call' => SameCall call.1 call'.1 ∧ call'.2 = call.2) calls calls'
  outcome : SameOutcome t rust go result result'

/-- Whatever the oracle answers, every way through one opener is a way through the other. -/
theorem open_same (h : g.Agrees c) {rust : Piggy.Pigpen.Document} {go : Document} (hd : SameDocument rust go)
    (oracle : Bool) (x25519 : List X25519Identity) :
    (∀ calls result, Prog.Leads (Piggy.Pigpen.Document.openRun c rust oracle x25519) calls (.ret result) →
        ∃ calls' result', Prog.Leads (openRun g t go oracle x25519) calls' (.ret result') ∧
          SameRun t rust go calls result calls' result') ∧
      ∀ calls' result', Prog.Leads (openRun g t go oracle x25519) calls' (.ret result') →
        ∃ calls result, Prog.Leads (Piggy.Pigpen.Document.openRun c rust oracle x25519) calls (.ret result) ∧
          SameRun t rust go calls result calls' result' := by
  have halike := openRun_same (t := t) h hd oracle x25519
  refine ⟨?_, ?_⟩
  · intro calls result hrun
    obtain ⟨calls', result', hrun', houtcome, hcalls⟩ := halike.leads hrun
    exact ⟨calls', result', hrun', hcalls, houtcome⟩
  · intro calls' result' hrun'
    obtain ⟨calls, result, hrun, houtcome, hcalls⟩ := halike.symm.leads hrun'
    exact ⟨calls, result, hrun, (hcalls.imp fun _ _ h => ⟨h.1, h.2.symm⟩).flip, houtcome⟩

/-- The software identity opens the sealed sample in Go, behind the card's wrong answer. -/
theorem open_same_sample : ∃ d calls,
    Prog.Leads (openRun (Suite.ofCrates Crates.sample) asciiTables d true sampleIdentities)
      calls (.ret (.ok [1, 2, 3])) := by
  obtain ⟨rust, hseal⟩ := exists_ok Piggy.Pigpen.Document.sample_sealed
  have hagrees : (Suite.ofCrates Crates.sample).Agrees Crates.sample := Suite.agrees_ofCrates fun _ _ _ => rfl
  obtain ⟨d, -, hsame⟩ := (sealWith_same (t := asciiTables) hagrees sameKeys_sample
    sampleInputs).follows rust hseal
  obtain ⟨calls, hrun, -⟩ := Asks.leads_answered (answersOf (some sampleOracle))
    (Piggy.Pigpen.Document.openRun Crates.sample rust true sampleIdentities)
  have hplain : (Piggy.Pigpen.Document.sealWith Crates.sample [1, 2, 3] sampleRecipients
      sampleInputs).toOption.map (fun d => Asks.answered
        (answersOf (some sampleOracle))
        (Piggy.Pigpen.Document.openRun Crates.sample d true sampleIdentities)) =
      some (.ok [1, 2, 3]) := by
    decide +kernel
  rw [hseal] at hplain
  have hresult := Option.some.inj hplain
  dsimp only at hresult
  rw [hresult] at hrun
  obtain ⟨calls', result', hrun', -, houtcome⟩ := (open_same (t := asciiTables) hagrees hsame true _).1 calls _ hrun
  cases houtcome
  exact ⟨d, calls', hrun'⟩

end Piggy.Go.Pigpen
