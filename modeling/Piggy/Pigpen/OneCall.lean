import Piggy.Core.Attempts
import Piggy.Pigpen.Seal

/-!
# One question for each key

Opening a document asks the card through an oracle, and a question may cost its holder a touch. The
loop over the recipients is here a program that asks, so that what it asks can be read off its runs,
whatever the oracle answers.
-/

namespace Piggy.Pigpen.Document

open Piggy.Core
open Piggy.Markl
open Piggy.Box (Bytes)

/-- A question to the oracle: the recipient and the ephemeral key of its wrap. -/
abbrev CardCall := Id × Bytes

/-- The x-coordinate, or the text of the error. -/
abbrev CardAnswer := Except String Bytes

/-- The key of a recipient, by which the loop knows what it tried. -/
def keyOf (id : Id) : FormatId × Bytes := (id.format, id.data)

/-- The key that is tried for a recipient with a wrap. -/
def triedKey (r : Recipient) : Option (FormatId × Bytes) := r.wrap.map fun _ => keyOf r.id

/-- What an unwrap comes to: another key's wrap is passed over. -/
def verdictOf : Except Error Bytes → Verdict String Bytes
  | .ok fileKey => .done fileKey
  | .error _ => .passed

/-- The failure that an answer of the oracle is. -/
def failureOf : CardAnswer → Option String
  | .ok _ => none
  | .error text => some text

section

variable {Scalar Point : Type} (c : Crates Scalar Point)

/-- What the answer of the oracle comes to. -/
def judgeShared (wrap data : Bytes) : CardAnswer → Verdict String Bytes
  | .ok shared => verdictOf (c.unwrapP256WithShared wrap data shared)
  | .error text => .failed text

/-- The attempt on a recipient, with an oracle or without one. -/
def tryRecipient (oracle : Bool) (x25519 : List X25519Identity) (r : Recipient) :
    Core.Attempt CardCall CardAnswer String Bytes :=
  match r.wrap with
  | none => .settled .passed
  | some wrap =>
    match r.id.format with
    | .ageX25519Pub =>
      match x25519.find? (·.publicKey == r.id.data) with
      | none => .settled .passed
      | some i => .settled (verdictOf (c.unwrapX25519 wrap r.id.data i.secret))
    | .pivyEcdhP256Pub =>
      if !oracle then .settled .passed
      else
        match Crates.p256WrapEpk wrap with
        | .error _ => .settled .passed
        | .ok epk => .ask (r.id, epk) (judgeShared c wrap r.id.data)
    | _ => .settled .passed

/-- What follows the loop. -/
def finish (d : Document) (mac : Bytes) : Tried String Bytes → Except Error Bytes
  | .exhausted failures =>
    if !failures.isEmpty then .error (.oracle (String.intercalate "; " failures))
    else .error .noRecipient
  | .done fileKey => do
    let canon ← d.canonicalHeader
    if !c.verifyMac fileKey canon mac then .error .macMismatch
    else c.openPayload fileKey d.payload

/-- Opening as a program over the questions to the oracle. -/
def openRun (d : Document) (oracle : Bool) (x25519 : List X25519Identity) :
    Asks CardCall CardAnswer (Except Error Bytes) :=
  match d.mac with
  | none => .ret (.error (.malformed "document is a recipient set, not sealed"))
  | some mac =>
    tryAll triedKey (tryRecipient c oracle x25519) d.recipients [] [] >>= fun r => .ret (finish c d mac r)

end

/-! ## The loop with an oracle -/

variable {Scalar Point : Type} {c : Crates Scalar Point} {d : Document} {x25519 : List X25519Identity}

/-- The answers of an oracle, if there is one. -/
def answersOf (oracle : Option EcdhOracle) (call : CardCall) : CardAnswer :=
  match oracle with
  | none => .error ""
  | some ecdh => ecdh call.1 call.2

/-- The verdict of an attempt. -/
def Attempt.verdict : Attempt → Verdict String Bytes
  | .skipped => .passed
  | .oracleFailed text => .failed text
  | .unwrapped fileKey => verdictOf fileKey

theorem answered_tryRecipient (oracle : Option EcdhOracle) {r : Recipient} {wrap : Bytes}
    (hwrap : r.wrap = some wrap) :
    Asks.answered (answersOf oracle) (tryRecipient c oracle.isSome x25519 r).run =
      (attempt c oracle x25519 r.id wrap).verdict := by
  rw [tryRecipient.eq_def, attempt.eq_def, hwrap]
  dsimp only
  generalize r.id.format = format
  cases format
  case ageX25519Pub => cases x25519.find? (·.publicKey == r.id.data) <;> rfl
  case pivyEcdhP256Pub =>
    cases oracle with
    | none => rfl
    | some ecdh =>
      rw [if_neg (show ¬ (!(some ecdh).isSome) = true from Bool.false_ne_true)]
      rcases Crates.p256WrapEpk wrap with e | epk
      · rfl
      · change judgeShared c wrap r.id.data (ecdh r.id epk) = _
        dsimp only
        rcases ecdh r.id epk with text | shared <;> rfl
  all_goals rfl

theorem answered_tryAll (oracle : Option EcdhOracle) (mac : Bytes) (recipients : List Recipient)
    (tried : List (FormatId × Bytes)) (failures : List String) :
    finish c d mac (Asks.answered (answersOf oracle)
        (tryAll triedKey (tryRecipient c oracle.isSome x25519) recipients tried failures)) =
      openLoop c d mac oracle x25519 recipients tried failures := by
  induction recipients generalizing tried failures with
  | nil => rfl
  | cons r rs ih =>
    rw [tryAll, openLoop.eq_def]
    dsimp only
    rcases hwrap : r.wrap with _ | wrap
    · have hkey : triedKey r = none := by rw [triedKey, hwrap]; rfl
      simp only [hkey]
      exact ih tried failures
    · have hkey : triedKey r = some (r.id.format, r.id.data) := by rw [triedKey, hwrap]; rfl
      simp only [hkey]
      by_cases hmem : (r.id.format, r.id.data) ∈ tried
      · rw [if_pos hmem, if_pos hmem]
        exact ih tried failures
      · rw [if_neg hmem, if_neg hmem, Asks.answered_bind, answered_tryRecipient oracle hwrap]
        rcases attempt c oracle x25519 r.id wrap with _ | text | key
        · exact ih _ failures
        · exact ih _ (failures ++ [text])
        · rcases key with e | fileKey
          · exact ih _ failures
          · rfl

/-- Opening with an oracle is the program with its answers. -/
theorem answered_openRun (oracle : Option EcdhOracle) :
    Asks.answered (answersOf oracle) (openRun c d oracle.isSome x25519) = openDoc c d oracle x25519 := by
  rw [openRun.eq_def, openDoc.eq_def]
  rcases d.mac with _ | mac
  · rfl
  · dsimp only
    rw [Asks.answered_bind]
    exact answered_tryAll oracle mac d.recipients [] []

/-! ## The work of the card -/

theorem p256WrapEpk_ok {wrap epk : Bytes} :
    Crates.p256WrapEpk wrap = .ok epk ↔ wrap.length = 33 + fileKeyLen + tagLen ∧ epk = wrap.take 33 := by
  rw [Crates.p256WrapEpk, guard_ok, not_not, Except.ok.injEq, eq_comm (a := wrap.take 33)]

/-- What a recipient is asked about. -/
theorem tryRecipient_ask {oracle : Bool} {r : Recipient} {call : CardCall}
    {judge : CardAnswer → Verdict String Bytes} :
    tryRecipient c oracle x25519 r = .ask call judge ↔ oracle = true ∧ r.id.format = .pivyEcdhP256Pub ∧
      ∃ wrap, r.wrap = some wrap ∧ wrap.length = 33 + fileKeyLen + tagLen ∧ call = (r.id, wrap.take 33) ∧
        judge = judgeShared c wrap r.id.data := by
  rw [tryRecipient.eq_def]
  rcases r.wrap with _ | wrap
  · simp
  · simp only [Option.some.injEq, exists_eq_left']
    split
    · rename_i hformat
      rw [hformat]
      cases x25519.find? (·.publicKey == r.id.data) <;> simp
    · rename_i hformat
      cases oracle with
      | false => simp
      | true =>
        simp only [Bool.not_true, Bool.false_eq_true, if_false, hformat, true_and]
        rcases hepk : Crates.p256WrapEpk wrap with e | epk
        · refine iff_of_false (fun h => by cases h) ?_
          rintro ⟨hlen, -⟩
          rw [p256WrapEpk_ok.mpr ⟨hlen, rfl⟩] at hepk
          cases hepk
        · obtain ⟨hlen, rfl⟩ := p256WrapEpk_ok.mp hepk
          simp only [Core.Attempt.ask.injEq, hlen, true_and, eq_comm]
    · rename_i hage hpivy
      refine iff_of_false (fun h => by cases h) ?_
      rintro ⟨-, hformat, -⟩
      exact hpivy hformat

/-- A run found a file key in the wrap of a recipient: a software identity opened it, or the answer
of the oracle did. -/
def Opened (c : Crates Scalar Point) (x25519 : List X25519Identity)
    (calls : List (Σ _ : CardCall, CardAnswer)) (r : Recipient) (fileKey : Bytes) : Prop :=
  ∃ wrap, r.wrap = some wrap ∧
    ((r.id.format = .ageX25519Pub ∧ ∃ i, x25519.find? (·.publicKey == r.id.data) = some i ∧
        c.unwrapX25519 wrap r.id.data i.secret = .ok fileKey) ∨
      (r.id.format = .pivyEcdhP256Pub ∧ ∃ shared, ⟨(r.id, wrap.take 33), .ok shared⟩ ∈ calls ∧
        c.unwrapP256WithShared wrap r.id.data shared = .ok fileKey))

/-- What a finished run has asked, and what it ended with. -/
structure CardWork (c : Crates Scalar Point) (d : Document) (oracle : Bool)
    (x25519 : List X25519Identity) (calls : List (Σ _ : CardCall, CardAnswer))
    (result : Except Error Bytes) : Prop where
  /-- No key is asked about twice. -/
  once : (calls.map fun call => keyOf call.1.1).Nodup
  /-- A question is about a card's recipient and the ephemeral key of its wrap. -/
  asked : ∀ call ∈ calls, oracle = true ∧ ∃ r ∈ d.recipients, call.1.1 = r.id ∧
    r.id.format = .pivyEcdhP256Pub ∧ ∃ wrap, r.wrap = some wrap ∧ wrap.length = 33 + fileKeyLen + tagLen ∧
      call.1.2 = wrap.take 33
  /-- Nothing is asked behind the recipient that was opened. -/
  stops : ∀ pre r post fileKey, d.recipients = pre ++ r :: post →
    (∀ other ∈ pre, triedKey other ≠ triedKey r) → Opened c x25519 calls r fileKey →
      ∀ call ∈ calls, ∃ asked ∈ pre ++ [r], call.1.1 = asked.id
  /-- A plaintext comes from a file key whose header MAC was verified. -/
  authentic : ∀ plaintext, result = .ok plaintext → ∃ mac fileKey canon, d.mac = some mac ∧
    (∃ r ∈ d.recipients, Opened c x25519 calls r fileKey) ∧ d.canonicalHeader = .ok canon ∧
      c.verifyMac fileKey canon mac = true ∧ c.openPayload fileKey d.payload = .ok plaintext
  /-- Where nothing was opened, every failure of the oracle is reported, in its order. -/
  reported : d.mac.isSome = true → (∀ r ∈ d.recipients, ∀ fileKey, ¬ Opened c x25519 calls r fileKey) →
    result = .error (if (failuresOf failureOf calls).isEmpty then .noRecipient
      else .oracle (String.intercalate "; " (failuresOf failureOf calls)))

/-- A recipient that the loop passes over without a wrap, and one it asks about, are known by their key. -/
theorem triedKey_of_ask {oracle : Bool} {r : Recipient} {call : CardCall}
    {judge : CardAnswer → Verdict String Bytes} (h : tryRecipient c oracle x25519 r = .ask call judge) :
    triedKey r = some (keyOf call.1) := by
  obtain ⟨-, -, wrap, hwrap, -, rfl, -⟩ := tryRecipient_ask.mp h
  rw [triedKey, hwrap]
  rfl

/-- An attempt that succeeds has opened the wrap. -/
theorem opened_of_succeeded {oracle : Bool} {r : Recipient} {calls : List (Σ _ : CardCall, CardAnswer)}
    {fileKey : Bytes} (h : Succeeded (tryRecipient c oracle x25519) calls r fileKey) :
    Opened c x25519 calls r fileKey := by
  have hdone : ∀ {key : Except Error Bytes}, verdictOf key = .done fileKey → key = .ok fileKey := by
    intro key hkey
    cases key with
    | error e => cases hkey
    | ok k =>
      cases hkey
      rfl
  obtain ⟨own, hsub, hcomes⟩ := h
  generalize hatt : tryRecipient c oracle x25519 r = att at hcomes
  generalize hv : Verdict.done fileKey = v at hcomes
  cases hcomes with
  | settled =>
    subst hv
    rw [tryRecipient.eq_def] at hatt
    rcases hwrap : r.wrap with _ | wrap
    · simp [hwrap] at hatt
    · simp only [hwrap] at hatt
      refine ⟨wrap, hwrap, ?_⟩
      split at hatt
      · rename_i hformat
        rcases hfind : x25519.find? (·.publicKey == r.id.data) with _ | i
        · simp [hfind] at hatt
        · simp only [hfind, Core.Attempt.settled.injEq] at hatt
          exact .inl ⟨hformat, i, hfind, hdone hatt⟩
      · exfalso
        split at hatt
        · cases hatt
        · split at hatt <;> cases hatt
      · cases hatt
  | ask call judge ans =>
    obtain ⟨-, hformat, wrap, hwrap, -, rfl, rfl⟩ := tryRecipient_ask.mp hatt
    refine ⟨wrap, hwrap, .inr ⟨hformat, ?_⟩⟩
    cases ans with
    | error text => cases hv
    | ok shared => exact ⟨shared, hsub (List.mem_singleton_self _), hdone hv.symm⟩

theorem succeeded_of_opened (oracle : Bool) {r : Recipient} {calls : List (Σ _ : CardCall, CardAnswer)}
    {fileKey : Bytes} (h : Opened c x25519 calls r fileKey) (horacle : calls ≠ [] → oracle = true) :
    Succeeded (tryRecipient c oracle x25519) calls r fileKey := by
  obtain ⟨wrap, hwrap, ⟨hformat, i, hfind, hkey⟩ | ⟨hformat, shared, hcall, hkey⟩⟩ := h
  · refine ⟨[], List.nil_subset _, ?_⟩
    have hatt : tryRecipient c oracle x25519 r = .settled (.done fileKey) := by
      simp only [tryRecipient.eq_def, hwrap, hformat, hfind, hkey, verdictOf]
    rw [hatt]
    exact .settled _
  · have hlen : wrap.length = 33 + fileKeyLen + tagLen := by
      rw [Crates.unwrapP256WithShared, guard_ok, not_not] at hkey
      exact hkey.1
    have hatt : tryRecipient c oracle x25519 r = .ask (r.id, wrap.take 33) (judgeShared c wrap r.id.data) :=
      tryRecipient_ask.mpr ⟨horacle (List.ne_nil_of_mem hcall), hformat, wrap, hwrap, hlen, rfl, rfl⟩
    refine ⟨[⟨(r.id, wrap.take 33), .ok shared⟩], by simpa using hcall, ?_⟩
    have hcomes := Core.Attempt.Comes.ask (r.id, wrap.take 33) (judgeShared c wrap r.id.data) (.ok shared)
    rw [judgeShared, hkey] at hcomes
    rw [hatt]
    exact hcomes

theorem failsWith_tryRecipient (oracle : Bool) (r : Recipient) :
    (tryRecipient c oracle x25519 r).FailsWith failureOf := by
  have hnone : ∀ key f, verdictOf key ≠ .failed f := by
    intro key f h
    cases key <;> cases h
  rcases hatt : tryRecipient c oracle x25519 r with v | ⟨call, judge⟩
  · rintro f rfl
    rw [tryRecipient.eq_def] at hatt
    rcases hwrap : r.wrap with _ | wrap
    · simp [hwrap] at hatt
    · simp only [hwrap] at hatt
      split at hatt
      · split at hatt
        · cases hatt
        · exact hnone _ f (Core.Attempt.settled.inj hatt)
      · split at hatt
        · cases hatt
        · split at hatt <;> cases hatt
      · cases hatt
  · obtain ⟨-, -, wrap, -, -, -, rfl⟩ := tryRecipient_ask.mp hatt
    intro ans f
    cases ans with
    | error text => simp [judgeShared, failureOf]
    | ok shared =>
      refine iff_of_false (hnone _ f) ?_
      intro h
      cases h

/-- Whatever the oracle answers, a finished run has asked about each key once, about nothing but the
card's recipients and nothing behind the one that opened; and a plaintext is authentic. -/
theorem cardWork_openRun {oracle : Bool} {calls : List (Σ _ : CardCall, CardAnswer)}
    {result : Except Error Bytes} (h : Prog.Leads (openRun c d oracle x25519) calls (.ret result)) :
    CardWork c d oracle x25519 calls result := by
  rw [openRun.eq_def] at h
  rcases hmac : d.mac with _ | mac
  · simp only [hmac] at h
    obtain ⟨rfl, rfl⟩ := Prog.Leads.of_ret h
    refine ⟨.nil, ?_, ?_, ?_, ?_⟩
    · intro call hcall
      cases hcall
    · intro pre r post fileKey _ _ _ call hcall
      cases hcall
    · intro plaintext hplain
      cases hplain
    · intro hsome
      rw [hmac] at hsome
      cases hsome
  · simp only [hmac] at h
    obtain ⟨tried, hrun, rfl⟩ := Asks.of_leads_map h
    have honce : TriedOnce triedKey (fun call => keyOf call.1) _ d.recipients [] calls tried :=
      triedOnce_tryAll (fun _ _ _ hatt => triedKey_of_ask hatt) hrun
    have horacle : ∀ call ∈ calls, oracle = true := by
      intro call hcall
      obtain ⟨r, -, judge, hatt⟩ := honce.asked call hcall
      exact (tryRecipient_ask.mp hatt).1
    refine ⟨honce.once, ?_, ?_, ?_, ?_⟩
    · intro call hcall
      obtain ⟨r, hr, judge, hatt⟩ := honce.asked call hcall
      obtain ⟨hyes, hformat, wrap, hwrap, hlen, hcall', -⟩ := tryRecipient_ask.mp hatt
      exact ⟨hyes, r, hr, by rw [hcall'], hformat, wrap, hwrap, hlen, by rw [hcall']⟩
    · intro pre r post fileKey hrecs hpre hopened call hcall
      have hsucc := succeeded_of_opened oracle hopened fun hne => by
        obtain ⟨call, hcall⟩ := List.exists_mem_of_ne_nil calls hne
        exact horacle call hcall
      obtain ⟨wrap, hwrap, -⟩ := hopened
      have hkey : triedKey r = some (keyOf r.id) := by rw [triedKey, hwrap]; rfl
      obtain ⟨asked, hasked, judge, hatt⟩ := honce.stops pre r post (keyOf r.id) fileKey hrecs hkey
        List.not_mem_nil (fun other hother => hkey ▸ hpre other hother) hsucc call hcall
      obtain ⟨-, -, _, -, -, hcall', -⟩ := tryRecipient_ask.mp hatt
      exact ⟨asked, hasked, by rw [hcall']⟩
    · intro plaintext hplain
      cases tried with
      | exhausted failures =>
        rw [finish] at hplain
        split at hplain <;> cases hplain
      | done fileKey =>
        obtain ⟨r, hr, -, hsucc⟩ := honce.found fileKey rfl
        simp only [finish, bind_ok, guard_ok, Bool.not_eq_false, Bool.not_eq_eq_eq_not, Bool.not_true] at hplain
        obtain ⟨canon, hcanon, hverify, hpayload⟩ := hplain
        exact ⟨mac, fileKey, canon, hmac, ⟨r, hr, opened_of_succeeded hsucc⟩, hcanon, hverify, hpayload⟩
    · intro _ hnone
      cases tried with
      | exhausted failures =>
        have hall := failures_tryAll (fun r => failsWith_tryRecipient oracle r) hrun
        rw [List.nil_append] at hall
        subst hall
        rw [finish]
        cases (failuresOf failureOf calls).isEmpty <;> rfl
      | done fileKey =>
        obtain ⟨r, hr, -, hsucc⟩ := honce.found fileKey rfl
        exact absurd (opened_of_succeeded hsucc) (hnone r hr fileKey)

/-- A document that names a card's key twice. -/
def sampleRepeated : Document where
  description := none
  recipients := [⟨sampleRecipients.head (by decide), none, some (List.replicate 65 1)⟩,
    ⟨sampleRecipients.head (by decide), none, some (List.replicate 65 2)⟩]
  payload := [0]
  mac := some (List.replicate 32 0)

/-- The oracle that failed is asked, and reported, once. -/
theorem cardWork_openRun_sample : ∃ calls : List (Σ _ : CardCall, CardAnswer),
    (∀ call ∈ calls, call.2 = .error "no card") ∧
      CardWork Crates.sample sampleRepeated true [] calls (.error (.oracle "no card")) := by
  obtain ⟨calls, hrun, hcalls⟩ := Asks.leads_answered (fun _ => .error "no card")
    (openRun Crates.sample sampleRepeated true [])
  have hresult : Asks.answered (fun _ => .error "no card") (openRun Crates.sample sampleRepeated true []) =
      .error (.oracle "no card") := by
    decide +kernel
  rw [hresult] at hrun
  exact ⟨calls, hcalls, cardWork_openRun hrun⟩

end Piggy.Pigpen.Document
