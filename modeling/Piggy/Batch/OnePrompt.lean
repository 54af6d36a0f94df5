import Piggy.Batch.Oracle
import Piggy.Card.Oracle
import Piggy.Secrets.Reconcile

/-!
# One PIN prompt for a batch

A batch promises that the PIN is asked for at most once. The oracle asks again at every
query for its key until the card has taken a PIN, and only some failures stop the batch; so
an ebox with several parts for the card, or an ebox behind one that failed for a reason that
does not stop the batch, may ask again. As long as that does not happen, there is one prompt
and one VERIFY in every run. A failure is reported for the ebox it was met at in any case.
-/

namespace Piggy.Batch

open Piggy.Core Piggy.Box Piggy.Card Piggy.Store

/-! ## What a query asks for -/

/-- How many prompts are in a log. -/
def prompts (log : PinLog) : Nat := log.countP fun x => x.2.isPrompt

/-- How many VERIFYs are in a log. -/
def verifies (log : PinLog) : Nat := log.countP fun x => !x.2.isPrompt

/-- One prompt at most and one VERIFY at most. -/
def AtMostOnce (log : PinLog) : Prop := prompts log ≤ 1 ∧ verifies log ≤ 1

theorem atMostOnce_nil : AtMostOnce [] := ⟨Nat.zero_le 1, Nat.zero_le 1⟩

namespace BatchOracle

variable {ω : Type}

/-- Reading the slot asks nobody. -/
theorem readSlot_keeps (env : BatchEnv ω) (o : BatchOracle) (s : BatchSession ω) :
    (readSlot env o s).2.log = s.log ∧ (readSlot env o s).2.pinVerified = s.pinVerified := by
  rw [readSlot]
  rcases s.slot with _ | slot
  · dsimp only
    rcases env.readSlot s.world o.guid o.slotId with ⟨e | slot, w⟩
    · exact ⟨rfl, rfl⟩
    · exact ⟨rfl, rfl⟩
  · exact ⟨rfl, rfl⟩

theorem verify_of_verified (env : BatchEnv ω) (o : BatchOracle) {s : BatchSession ω}
    (h : s.pinVerified = true) : verify env o s = (.ok (), s) := by
  rw [verify, if_pos h]

/-- The first time, the frontend is asked once and a PIN is sent at most once. -/
theorem verify_atMostOnce {env : BatchEnv ω} {o : BatchOracle} {s : BatchSession ω}
    (h : s.log = []) : AtMostOnce (verify env o s).2.log := by
  rw [verify]
  split
  · rw [h]
    exact atMostOnce_nil
  · rcases env.requestSecret s.world o.request with ⟨e | pin, w⟩
    · rw [h]
      exact ⟨Nat.le_refl 1, Nat.zero_le 1⟩
    · dsimp only
      have hevents := verifyPin_events env.toPivEnv o.guid pin w
      rcases hverify : verifyPin env.toPivEnv o.guid pin w with ⟨e | ⟨⟩, events, w'⟩
      all_goals
        rw [hverify] at hevents
        dsimp only at hevents
        rw [h]
        rcases hevents with ⟨rfl, -⟩ | rfl
        · exact ⟨Nat.le_refl 1, Nat.zero_le 1⟩
        · exact ⟨Nat.le_refl 1, Nat.le_refl 1⟩

theorem verify_ok {env : BatchEnv ω} {o : BatchOracle} {s : BatchSession ω}
    (h : (verify env o s).1 = .ok ()) : (verify env o s).2.pinVerified = true := by
  rw [verify] at h ⊢
  split at h
  · next hverified => rwa [if_pos hverified]
  · next hverified =>
    rw [if_neg hverified]
    rcases hrequest : env.requestSecret s.world o.request with ⟨e | pin, w⟩
    · rw [hrequest] at h
      cases h
    · rw [hrequest] at h
      dsimp only at h ⊢
      rcases hverify : verifyPin env.toPivEnv o.guid pin w with ⟨e | ⟨⟩, events, w'⟩
      · rw [hverify] at h
        cases h
      · rfl

variable {Scalar Point Rng : Type} (ssl : OpenSsl Scalar Point Rng)

/-- Whether a query is for the key of the session. -/
def isFor (o : BatchOracle) (query : Bytes × Bytes) : Bool :=
  match (extractPointFromSshkeyBlob query.1 >>= canonicalizeUncompressed ssl) with
  | .ok key => decide (key = o.selfPubkeyUncompressed)
  | .error _ => false

/-- A query for another key leaves the session as it is. -/
theorem ecdh_of_not_isFor {env : BatchEnv ω} {o : BatchOracle} {s : BatchSession ω}
    {query : Bytes × Bytes} (h : o.isFor ssl query = false) :
    (ecdh ssl env o s query.1 query.2).2 = s := by
  rw [isFor] at h
  rw [ecdh]
  rcases hself : extractPointFromSshkeyBlob query.1 >>= canonicalizeUncompressed ssl with e | key
  · rfl
  · rw [hself] at h
    have hne : key ≠ o.selfPubkeyUncompressed := of_decide_eq_false h
    dsimp only
    rw [if_pos hne]

/-- A query for the key of the session ends when the slot cannot be read, or else asks for the
PIN unless the card has taken it. -/
theorem ecdh_of_isFor {env : BatchEnv ω} {o : BatchOracle} {s : BatchSession ω}
    {query : Bytes × Bytes} (h : o.isFor ssl query = true) :
    (∃ e s', readSlot env o s = (.error e, s') ∧ (ecdh ssl env o s query.1 query.2).2 = s') ∨
    ∃ slot s', readSlot env o s = (.ok slot, s') ∧
      (ecdh ssl env o s query.1 query.2).2.log = (verify env o s').2.log ∧
      (ecdh ssl env o s query.1 query.2).2.pinVerified = (verify env o s').2.pinVerified := by
  rw [isFor] at h
  rw [ecdh]
  rcases hself : extractPointFromSshkeyBlob query.1 >>= canonicalizeUncompressed ssl with e | key
  all_goals rw [hself] at h
  · cases h
  have hmine : ¬ key ≠ o.selfPubkeyUncompressed := not_not_intro (of_decide_eq_true h)
  dsimp only
  rw [if_neg hmine]
  rcases readSlot env o s with ⟨e | slot, s'⟩
  · exact .inl ⟨e, s', rfl, rfl⟩
  refine .inr ⟨slot, s', rfl, ?_⟩
  dsimp only
  rcases verify env o s' with ⟨e | ⟨⟩, s''⟩
  · exact ⟨rfl, rfl⟩
  dsimp only
  rcases extractPointFromSshkeyBlob query.2 >>= canonicalizeUncompressed ssl with e | partner
  · exact ⟨rfl, rfl⟩
  dsimp only
  rcases env.ecdhDerive s''.world o.guid slot partner with ⟨e | secret, w⟩
  · exact ⟨rfl, rfl⟩
  · exact ⟨rfl, rfl⟩

/-- What becomes of a number of queries for the key when nobody has been asked yet: unless the
slot cannot be read, the first one is the last one or its PIN is taken. -/
def Settles (env : BatchEnv ω) (o : BatchOracle) : Nat → BatchSession ω → Prop
  | 0, _ => True
  | n + 1, s =>
    match readSlot env o s with
    | (.error _, s') => Settles env o n s'
    | (.ok _, s') => n = 0 ∨ (verify env o s').1 = .ok ()

theorem Settles.mono {env : BatchEnv ω} {o : BatchOracle} {m n : Nat} {s : BatchSession ω}
    (h : Settles env o n s) (hle : m ≤ n) : Settles env o m s := by
  induction n generalizing m s with
  | zero =>
    obtain rfl : m = 0 := by omega
    trivial
  | succ n ih =>
    cases m with
    | zero => trivial
    | succ m =>
      simp only [Settles] at h ⊢
      rcases hread : readSlot env o s with ⟨e | slot, s'⟩
      all_goals rw [hread] at h
      · exact ih h (by omega)
      · rcases h with hlast | htaken
        · exact .inl (by omega)
        · exact .inr htaken

/-- Where the PIN cannot be asked for a second time: the card has taken it, or there is no query
for the key, or nobody has been asked and the queries for the key settle it. -/
def Asks (env : BatchEnv ω) (o : BatchOracle) (s : BatchSession ω) (n : Nat) : Prop :=
  s.pinVerified = true ∨ n = 0 ∨ s.log = [] ∧ Settles env o n s

/-- A sequence of queries asks once at most. -/
theorem after_atMostOnce {env : BatchEnv ω} {o : BatchOracle} {queries : List (Bytes × Bytes)}
    {s : BatchSession ω} (honce : AtMostOnce s.log)
    (hasks : Asks env o s (queries.countP (o.isFor ssl))) :
    AtMostOnce ((o.toCard ssl env).after s queries).log := by
  induction queries generalizing s with
  | nil => exact honce
  | cons query queries ih =>
    rw [EcdhOracle.after_cons]
    change AtMostOnce ((o.toCard ssl env).after (ecdh ssl env o s query.1 query.2).2 queries).log
    cases hfor : o.isFor ssl query with
    | false =>
      rw [List.countP_cons_of_neg (by simp [hfor])] at hasks
      rw [ecdh_of_not_isFor ssl hfor]
      exact ih honce hasks
    | true =>
      rw [List.countP_cons_of_pos hfor] at hasks
      have hread := readSlot_keeps env o s
      rcases ecdh_of_isFor ssl hfor with ⟨e, s', hslot, hstate⟩ | ⟨slot, s', hslot, hlog, hpin⟩
      · rw [hslot] at hread
        rw [hstate]
        refine ih (hread.1 ▸ honce) ?_
        rcases hasks with hverified | hnone | ⟨hempty, hsettles⟩
        · exact .inl (hread.2.trans hverified)
        · omega
        · refine .inr (.inr ⟨hread.1.trans hempty, ?_⟩)
          simpa only [Settles, hslot] using hsettles
      · rw [hslot] at hread
        rcases hasks with hverified | hnone | ⟨hempty, hsettles⟩
        · have hsame := verify_of_verified env o (hread.2.trans hverified)
          rw [hsame] at hlog hpin
          refine ih ?_ (.inl ?_)
          · rw [hlog, hread.1]
            exact honce
          · rw [hpin, hread.2]
            exact hverified
        · omega
        · have honce' : AtMostOnce (verify env o s').2.log :=
            verify_atMostOnce (hread.1.trans hempty)
          refine ih (hlog ▸ honce') ?_
          simp only [Settles, hslot] at hsettles
          rcases hsettles with hlast | htaken
          · exact .inr (.inl hlast)
          · exact .inl (hpin.trans (verify_ok htaken))

end BatchOracle

/-! ## One ebox -/

section

variable {Scalar Point Rng : Type} (ssl : OpenSsl Scalar Point Rng)

/-- Decrypting one ebox asks the card some queries of its PRIMARY parts and drains the failure,
or does nothing when no part is on the curve of the card. -/
theorem decryptOne_card_after {σ : Type} (stream : EboxStream) (bytes : Bytes)
    (card : CardOracle σ) (s : σ) :
    (∃ mismatch, checkCurveMismatch stream card.targetCurve = some mismatch ∧
      (decryptOne ssl stream bytes (some card) (none : Option (EcdhOracle Unit)) s ()).2.1 = s) ∨
    checkCurveMismatch stream card.targetCurve = none ∧
      ∃ calls, calls.Sublist (primaryQueries ssl stream.ebox) ∧
        (decryptOne ssl stream bytes (some card) (none : Option (EcdhOracle Unit)) s ()).2.1 =
          (card.takeFailure (card.after s calls)).2 := by
  rw [decryptOne]
  rcases checkCurveMismatch stream card.targetCurve with _ | mismatch
  · refine .inr ⟨rfl, ?_⟩
    obtain ⟨_, calls, -, hsub, hstates⟩ := unlockEbox_after ssl (none : Option (EcdhOracle Unit))
      (some card.toEcdhOracle) stream.ebox () s
    refine ⟨calls, hsub, ?_⟩
    dsimp only
    rcases hunlock : unlockEbox ssl (none : Option (EcdhOracle Unit)) (some card.toEcdhOracle)
      stream.ebox () s with ⟨e | ⟨⟩, ebox, _, s'⟩
    all_goals
      rw [hunlock] at hstates
      obtain rfl : s' = card.after s calls := (Prod.mk.inj hstates).2
    · dsimp only
      rcases card.takeFailure (card.after s calls) with ⟨_ | failure, s''⟩
      · rfl
      · rfl
    · rfl
  · exact .inl ⟨mismatch, rfl, rfl⟩

variable {ω : Type}

/-- The condition on an ebox in a session: it is refused for its curve, or its queries cannot ask
for the PIN a second time. -/
def AsksOnce (env : BatchEnv ω) (o : BatchOracle) (s : BatchSession ω) (stream : EboxStream) :
    Prop :=
  checkCurveMismatch stream o.targetCurve ≠ none ∨
    o.Asks env s ((primaryQueries ssl stream.ebox).countP (o.isFor ssl))

private theorem asks_of_sublist {env : BatchEnv ω} {o : BatchOracle} {s : BatchSession ω} {m n : Nat}
    (h : o.Asks env s n) (hle : m ≤ n) : o.Asks env s m := by
  rcases h with hverified | hnone | ⟨hempty, hsettles⟩
  · exact .inl hverified
  · exact .inr (.inl (by omega))
  · exact .inr (.inr ⟨hempty, hsettles.mono hle⟩)

/-- An ebox that meets the condition leaves one prompt and one VERIFY at most. -/
theorem decryptOne_atMostOnce {env : BatchEnv ω} {o : BatchOracle} {s : BatchSession ω}
    {stream : EboxStream} (honce : AtMostOnce s.log) (hasks : AsksOnce ssl env o s stream)
    (bytes : Bytes) :
    AtMostOnce (decryptOne ssl stream bytes (some (o.toCard ssl env))
      (none : Option (EcdhOracle Unit)) s ()).2.1.log := by
  rcases decryptOne_card_after ssl stream bytes (o.toCard ssl env) s with
    ⟨mismatch, -, hstate⟩ | ⟨hcurve, calls, hsub, hstate⟩
  · rw [hstate]
    exact honce
  · rw [hstate]
    refine BatchOracle.after_atMostOnce ssl honce ?_
    rcases hasks with hmismatch | hasks
    · exact absurd hcurve hmismatch
    · exact asks_of_sublist hasks (hsub.countP_le)

/-- No failure is left behind by an ebox. -/
theorem decryptOne_lastFailure {env : BatchEnv ω} {o : BatchOracle} {s : BatchSession ω}
    (h : s.lastFailure = none) (stream : EboxStream) (bytes : Bytes) :
    (decryptOne ssl stream bytes (some (o.toCard ssl env))
      (none : Option (EcdhOracle Unit)) s ()).2.1.lastFailure = none := by
  rcases decryptOne_card_after ssl stream bytes (o.toCard ssl env) s with
    ⟨mismatch, -, hstate⟩ | ⟨-, calls, -, hstate⟩
  · rw [hstate]
    exact h
  · rw [hstate]
    rfl

/-! ## Runs -/

/-- What a run has come to: the card session if there is one, and the failure that was still
kept when each ebox was begun. -/
structure BatchWorld (ω : Type) where
  oracle : Option BatchOracle
  session : BatchSession ω
  begun : List (Option BatchFailure)

/-- Before a backend is opened. -/
def BatchWorld.start (w : ω) : BatchWorld ω :=
  { oracle := none, session := BatchSession.new [] w, begun := [] }

/-- What the operations of a batch do to the session. Opening a backend finds a card with the key
of one of the targets, or goes to the agent, which asks for PINs on its own. -/
def BatchStep (env : BatchEnv ω) (w : BatchWorld ω) :
    (op : BatchOp) → op.Ans → BatchWorld ω → Prop
  | .decrypt stream bytes, answer, w' =>
    match w.oracle with
    | none => w' = w
    | some o =>
      ∃ s, decryptOne ssl stream bytes (some (o.toCard ssl env)) (none : Option (EcdhOracle Unit))
          w.session () = (answer.mapError .error, s, ()) ∧
        w' = { w with session := s, begun := w.begun ++ [w.session.lastFailure] }
  | .openBackend targets names, .ok (), w' =>
    w' = { w with oracle := none } ∨
    ∃ o world, o.selfPubkeyUncompressed ∈ targets.map Prod.fst ∧ o.slotId = defaultSlot ∧
      o.detail = batchDetail names ∧
      w' = { w with oracle := some o, session := BatchSession.new w.session.log world }
  | .endSession, _, w' => ∃ world, w' = { w with session := { w.session with world := world } }
  | _, _, w' => w' = w

/-- The condition on a step. -/
def Meets (env : BatchEnv ω) (w : BatchWorld ω) : BatchOp → Prop
  | .decrypt stream _ => ∀ o, w.oracle = some o → AsksOnce ssl env o w.session stream
  | _ => True

/-- One operation of a batch: it is no decryption in a card session and keeps the log, or it is
one. -/
private theorem BatchStep.cases {env : BatchEnv ω} {w w' : BatchWorld ω} {op : BatchOp}
    {answer : op.Ans} (h : BatchStep ssl env w op answer w') :
    (w'.session.log = w.session.log ∧ w'.begun = w.begun ∧
      (w.session.lastFailure = none → w'.session.lastFailure = none)) ∨
    ∃ stream bytes o, op = .decrypt stream bytes ∧ w.oracle = some o ∧
      w'.session = (decryptOne ssl stream bytes (some (o.toCard ssl env))
        (none : Option (EcdhOracle Unit)) w.session ()).2.1 ∧
      w'.begun = w.begun ++ [w.session.lastFailure] := by
  cases op with
  | decrypt stream bytes =>
    simp only [BatchStep] at h
    rcases horacle : w.oracle with _ | o
    · rw [horacle] at h
      subst h
      exact .inl ⟨rfl, rfl, id⟩
    · rw [horacle] at h
      obtain ⟨s, hrun, rfl⟩ := h
      exact .inr ⟨stream, bytes, o, rfl, rfl, by rw [hrun], rfl⟩
  | openBackend targets names =>
    rcases answer with e | ⟨⟩
    · obtain rfl : w' = w := h
      exact .inl ⟨rfl, rfl, id⟩
    · rcases h with rfl | ⟨o, world, -, -, -, rfl⟩
      · exact .inl ⟨rfl, rfl, id⟩
      · exact .inl ⟨rfl, rfl, fun _ => rfl⟩
  | endSession =>
    obtain ⟨world, rfl⟩ := h
    exact .inl ⟨rfl, rfl, id⟩
  | fs op =>
    obtain rfl : w' = w := h
    exact .inl ⟨rfl, rfl, id⟩
  | sigintCaught =>
    obtain rfl : w' = w := h
    exact .inl ⟨rfl, rfl, id⟩
  | emit r =>
    obtain rfl : w' = w := h
    exact .inl ⟨rfl, rfl, id⟩
  | print lines =>
    obtain rfl : w' = w := h
    exact .inl ⟨rfl, rfl, id⟩

/-- In every run a failure is drained before the next ebox. -/
private theorem exec_begun {env : BatchEnv ω} {p : BatchProg Nat} {w₀ : ω} {code : Nat}
    {w : BatchWorld ω} (h : Prog.Exec (BatchStep ssl env) p (BatchWorld.start w₀) code w) :
    ∀ kept ∈ w.begun, kept = none := by
  have hinv : Prog.Ensures (BatchStep ssl env) p
      (fun _ w => w.session.lastFailure = none ∧ ∀ kept ∈ w.begun, kept = none)
      (BatchWorld.start w₀) := by
    refine Prog.ensures_of_preserved ?_ p ⟨rfl, by simp [BatchWorld.start]⟩
    rintro w op answer w' ⟨hlast, hbegun⟩ hstep
    rcases hstep.cases with ⟨-, hsame, hnext⟩ | ⟨stream, bytes, o, rfl, -, hsession, hmore⟩
    · exact ⟨hnext hlast, hsame ▸ hbegun⟩
    · refine ⟨?_, ?_⟩
      · rw [hsession]
        exact decryptOne_lastFailure ssl hlast stream bytes
      · rw [hmore, hlast]
        intro kept hkept
        rcases List.mem_append.mp hkept with hold | hnew
        · exact hbegun kept hold
        · exact List.mem_singleton.mp hnew
  exact (Prog.ensures_iff.mp hinv code w h).2

/-- In every run whose steps meet the condition, the PIN is asked for at most once. -/
private theorem exec_atMostOnce {env : BatchEnv ω} {p : BatchProg Nat} {w₀ : ω} {code : Nat}
    {w : BatchWorld ω}
    (h : Prog.Exec (fun w op answer w' => Meets ssl env w op ∧ BatchStep ssl env w op answer w') p
      (BatchWorld.start w₀) code w) : AtMostOnce w.session.log := by
  have hinv : Prog.Ensures (fun w op answer w' =>
      Meets ssl env w op ∧ BatchStep ssl env w op answer w') p
      (fun _ w => AtMostOnce w.session.log) (BatchWorld.start w₀) := by
    refine Prog.ensures_of_preserved ?_ p atMostOnce_nil
    rintro w op answer w' honce ⟨hmeets, hstep⟩
    rcases hstep.cases with ⟨hlog, -, -⟩ | ⟨stream, bytes, o, rfl, horacle, hsession, -⟩
    · exact hlog ▸ honce
    · rw [hsession]
      exact decryptOne_atMostOnce ssl honce (hmeets o horacle) bytes
  exact Prog.ensures_iff.mp hinv code w h

/-- The commands that decrypt a batch in one unlock session. -/
inductive BatchCommand where
  | showBatch (args : ShowBatchArgs) (writeStore : Path) (laterStores : List Path)
  | reconcile (libs : Secrets.Libs) (pid : UInt32) (args : Secrets.ReconcileArgs)
      (manifestPath statePath : Path)

/-- What a command does. -/
def BatchCommand.prog : BatchCommand → BatchProg Nat
  | showBatch args writeStore laterStores => Batch.showBatch ssl args writeStore laterStores
  | reconcile libs pid args manifestPath statePath =>
    Secrets.run ssl libs pid args manifestPath statePath

/-- In every run of a batch command no failure is kept from one ebox to the next; and if every
ebox met the condition in the state it was begun in, the frontend was asked for a PIN at most
once and one VERIFY was sent at most. -/
theorem onePrompt_of_asksOnce (env : BatchEnv ω) (command : BatchCommand) (w₀ : ω) (code : Nat)
    (w : BatchWorld ω)
    (hrun : Prog.Exec (BatchStep ssl env) (command.prog ssl) (BatchWorld.start w₀) code w) :
    (∀ kept ∈ w.begun, kept = none) ∧
      (Prog.Exec (fun w op answer w' => Meets ssl env w op ∧ BatchStep ssl env w op answer w')
        (command.prog ssl) (BatchWorld.start w₀) code w → AtMostOnce w.session.log) :=
  ⟨exec_begun ssl hrun, exec_atMostOnce ssl⟩

end

/-! ## A mistyped PIN -/

/-- The sample card with its retry counter, and a frontend that gives one PIN. -/
def sampleBatchEnv (typed : String) : BatchEnv Nat :=
  { (sampleCardEnv typed).toPivEnv with requestSecret := fun tries _ => (.ok typed, tries) }

/-- The sample stream with its part a number of times. -/
def sampleParts (n : Nat) : EboxStream :=
  { sampleStream with
    ebox :=
      { sampleStream.ebox with
        configs := sampleStream.ebox.configs.map fun c =>
          { c with parts := c.parts.flatMap (List.replicate n) } } }

/-- The session of the sample card. -/
def sampleOracle : BatchOracle where
  guid := sampleGuid
  slotId := defaultSlot
  selfPubkeyUncompressed := OpenSsl.samplePoint .uncompressed 5
  targetCurve := .nistP256
  card := { guid := guidToHex sampleGuid, serial := none, cn := none }
  detail := batchDetail ["a"]

/-- One name and an output directory. -/
def sampleArgs : ShowBatchArgs :=
  { names := ["a"], namesFrom := none, outDir := ⟨"/out"⟩, allOrNothing := false, update := false }

/-- The session after an ebox with a mistyped PIN. -/
def sampleRefused (tries : List Nat) : BatchSession Nat where
  slot := some ⟨defaultSlot, .nistP256 (OpenSsl.samplePoint .uncompressed 5)⟩
  pinVerified := false
  lastFailure := none
  log := tries.flatMap fun n =>
    [(sampleGuid, .prompted (some "654321")),
      (sampleGuid, .verified "654321" (.error (.pinIncorrect (UInt32.ofNat n))))]
  world := tries.getLastD 3

/-- What is reported for a PIN that was refused with a number of tries left. -/
def refusedReport (tries : UInt32) : DecryptError :=
  { diagnostic := (BatchFailure.pinIncorrect tries).intoDiagnostic, fatalForBatch := true }

/-- The world of the sample run once its ebox has been refused. -/
def sampleWorld (s : BatchSession Nat) : BatchWorld Nat :=
  { oracle := some sampleOracle, session := s, begun := [none] }

/-- The show-batch of the samples. -/
def sampleCommand : BatchCommand := .showBatch sampleArgs ⟨"/store"⟩ []

/-- A run of show-batch over one ebox that the card refuses. -/
private theorem exec_refused (condition : BatchWorld Nat → BatchOp → Prop) {bytes : Bytes}
    {stream : EboxStream} {targets : List RecipientTarget} {tries : UInt32} {s : BatchSession Nat}
    (hparse : EboxStream.fromBytes bytes = .ok stream)
    (htargets : primaryPartTargets OpenSsl.sample stream = .ok targets)
    (hmem : (OpenSsl.samplePoint .uncompressed 5, .nistP256) ∈ targets)
    (hrefused : decryptOne OpenSsl.sample stream bytes
      (some (sampleOracle.toCard OpenSsl.sample (sampleBatchEnv "654321")))
      (none : Option (EcdhOracle Unit)) (BatchSession.new [] 3) () =
        (.error (.error (refusedReport tries)), s, ()))
    (hother : ∀ w op, (∀ stream bytes, op ≠ .decrypt stream bytes) → condition w op)
    (hdecrypt : condition
      { BatchWorld.start 3 with oracle := some sampleOracle } (.decrypt stream bytes)) :
    Prog.Exec (fun w op answer w' => condition w op ∧
        BatchStep OpenSsl.sample (sampleBatchEnv "654321") w op answer w')
      (sampleCommand.prog OpenSsl.sample) (BatchWorld.start 3) 1 (sampleWorld s) := by
  have hkeep : ∀ w op answer, (∀ stream bytes, op ≠ .decrypt stream bytes) →
      BatchStep OpenSsl.sample (sampleBatchEnv "654321") w op answer w →
      condition w op ∧ BatchStep OpenSsl.sample (sampleBatchEnv "654321") w op answer w :=
    fun w op _ hop hstep => ⟨hother w op hop, hstep⟩
  -- The ebox is read and parsed.
  have hprepared : Prog.Exec (fun w op answer w' => condition w op ∧
        BatchStep OpenSsl.sample (sampleBatchEnv "654321") w op answer w')
      (preflight sampleArgs ⟨"/store"⟩ [⟨"/store"⟩] ["a"]) (BatchWorld.start 3)
      [.ready (canonicalizePassName "a") bytes stream] (BatchWorld.start 3) := by
    refine .answered true _ (hkeep _ _ _ (by simp) rfl) ?_
    refine .answered (.ok bytes) _ (hkeep _ _ _ (by simp) rfl) ?_
    simp only [Prog.bind, hparse]
    exact .ret _ _
  -- The backend is opened, the card refuses, and the batch is over.
  have hlooped : Prog.Exec (fun w op answer w' => condition w op ∧
        BatchStep OpenSsl.sample (sampleBatchEnv "654321") w op answer w')
      (runUnlocked sampleArgs targets 1 [.ready (canonicalizePassName "a") bytes stream]
        { okCount := 0, failedCount := 0, writtenPaths := [], bailReason := none })
      (BatchWorld.start 3) (.ok
        { okCount := 0, failedCount := 1, writtenPaths := []
          bailReason := some (s!"{(refusedReport tries).diagnostic.kind.debug} after decrypt " ++
            s!"n={1} of {1}: " ++ (refusedReport tries).diagnostic.message) })
      (sampleWorld s) := by
    refine .answered (.ok ()) { BatchWorld.start 3 with oracle := some sampleOracle }
      ⟨hother _ _ (by simp), .inr ⟨sampleOracle, 3, List.mem_map_of_mem hmem, rfl, rfl, rfl⟩⟩ ?_
    refine .answered false _ (hkeep _ _ _ (by simp) rfl) ?_
    refine .answered (.error (refusedReport tries)) (sampleWorld s)
      ⟨hdecrypt, s, hrefused, rfl⟩ ?_
    refine .answered (.ok ()) _ (hkeep _ _ _ (by simp) rfl) ?_
    refine .answered none (sampleWorld s) ⟨hother _ _ (by simp), s.world, rfl⟩ ?_
    exact .ret _ _
  change Prog.Exec _ (showBatch OpenSsl.sample sampleArgs ⟨"/store"⟩ []) _ _ _
  rw [showBatch, if_neg (by decide)]
  change Prog.Exec _ (runNames OpenSsl.sample sampleArgs ⟨"/store"⟩ [] ["a"]) _ _ _
  rw [runNames, if_neg (by decide)]
  refine .answered (.ok ()) _ (hkeep _ _ _ (by simp) rfl) ?_
  refine .answered (.ok ()) _ (hkeep _ _ _ (by simp) rfl) ?_
  refine .answered (.ok ()) _ (hkeep _ _ _ (by simp) rfl) ?_
  refine hprepared.bind ?_
  simp only [firstReady, htargets]
  refine hlooped.bind ?_
  refine .answered (.ok ()) _ (hkeep _ _ _ (by simp) rfl) ?_
  exact .ret _ _

set_option maxRecDepth 20000 in
/-- Two parts for the card and a mistyped PIN: the frontend is asked twice. -/
theorem not_onePrompt_mistyped :
    ¬ ∀ code w, Prog.Exec (BatchStep OpenSsl.sample (sampleBatchEnv "654321"))
      (sampleCommand.prog OpenSsl.sample) (BatchWorld.start 3) code w →
        AtMostOnce w.session.log := by
  intro h
  have hrun : (fun stream => (primaryPartTargets OpenSsl.sample stream,
        decryptOne OpenSsl.sample stream (sampleParts 2).encoding
          (some (sampleOracle.toCard OpenSsl.sample (sampleBatchEnv "654321")))
          (none : Option (EcdhOracle Unit)) (BatchSession.new [] 3) ())) <$>
        EboxStream.fromBytes (sampleParts 2).encoding =
      .ok (.ok (List.replicate 2 (OpenSsl.samplePoint .uncompressed 5, .nistP256)),
        .error (.error (refusedReport 1)), sampleRefused [2, 1], ()) := rfl
  obtain ⟨stream, hparse, hboth⟩ := map_ok.mp hrun
  obtain ⟨htargets, hrefused⟩ := Prod.mk.inj hboth
  have hexec := exec_refused (fun _ _ => True) hparse htargets (by simp) hrefused
    (fun _ _ _ => trivial) trivial
  have honce := h 1 (sampleWorld (sampleRefused [2, 1]))
    (hexec.mono fun _ _ _ _ hstep => hstep.2)
  exact absurd honce.1 (by decide)

set_option maxRecDepth 20000 in
/-- One part for the card and a mistyped PIN. -/
theorem onePrompt_of_asksOnce_sample :
    AtMostOnce (sampleRefused [2]).log := by
  have hrun : (fun stream => (primaryPartTargets OpenSsl.sample stream,
        decryptOne OpenSsl.sample stream (sampleParts 1).encoding
          (some (sampleOracle.toCard OpenSsl.sample (sampleBatchEnv "654321")))
          (none : Option (EcdhOracle Unit)) (BatchSession.new [] 3) (),
        (primaryQueries OpenSsl.sample stream.ebox).countP
          (sampleOracle.isFor OpenSsl.sample))) <$>
        EboxStream.fromBytes (sampleParts 1).encoding =
      .ok (.ok [(OpenSsl.samplePoint .uncompressed 5, .nistP256)],
        (.error (.error (refusedReport 2)), sampleRefused [2], ()), 1) := rfl
  obtain ⟨stream, hparse, hall⟩ := map_ok.mp hrun
  obtain ⟨htargets, hrest⟩ := Prod.mk.inj hall
  obtain ⟨hrefused, hcount⟩ := Prod.mk.inj hrest
  have hmeets : AsksOnce OpenSsl.sample (sampleBatchEnv "654321") sampleOracle
      (BatchSession.new [] 3) stream := by
    refine .inr (.inr (.inr ⟨rfl, ?_⟩))
    rw [hcount]
    exact .inl rfl
  have hexec := exec_refused (Meets OpenSsl.sample (sampleBatchEnv "654321")) hparse
    htargets (by simp) hrefused (fun w op hop => by
      cases op with
      | decrypt stream bytes => exact absurd rfl (hop stream bytes)
      | _ => trivial)
    (fun o ho => Option.some.inj ho ▸ hmeets)
  exact (onePrompt_of_asksOnce OpenSsl.sample (sampleBatchEnv "654321") sampleCommand 3 1 _
    (hexec.mono fun _ _ _ _ hstep => hstep.2)).2 hexec

end Piggy.Batch
