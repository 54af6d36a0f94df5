import Piggy.Batch.Run

/-!
# The records of a batch

A run of show-batch writes a plan, one record for every entry it came to, and a last record.
The counters of the loop are the numbers of records of each kind, and what ends a run early is
told in the last record.
-/

namespace Piggy.Batch

open Piggy.Core Piggy.Box Piggy.Store

/-! ## What is seen of a run -/

/-- What is seen of a run: its records, whether something ended it early, the entries that were
parsed, and whether the output directory could not be made. -/
structure Seen where
  records : List Record
  bailed : Bool
  parsed : List EboxStream
  outDirFailed : Bool

/-- Nothing has been seen. -/
def Seen.start : Seen := ⟨[], false, [], false⟩

/-- What an answer adds. An interrupt, an error that is fatal for the batch, and a session that
does not begin or end well are what ends a run early. -/
def Seen.after (outDir : Path) (s : Seen) : (op : BatchOp) → op.Ans → Seen
  | .emit r, .ok () => { s with records := s.records ++ [r] }
  | .sigintCaught, true => { s with bailed := true }
  | .openBackend _ _, .error _ => { s with bailed := true }
  | .decrypt _ _, .error e => { s with bailed := s.bailed || e.fatalForBatch }
  | .endSession, some _ => { s with bailed := true }
  | .fs (.read _), .ok bytes =>
    { s with parsed := s.parsed ++ (EboxStream.fromBytes bytes).toOption.toList }
  | .fs (.createDirAll p _), .error _ =>
    if p = outDir then { s with outDirFailed := true } else s
  | _, _ => s

/-- Standard output takes every record, and a file of names reads as given. -/
def Answered (namesFile : Except IoError String) : (op : BatchOp) → op.Ans → Prop
  | .emit _, ans => ans = .ok ()
  | .fs (.readToString _), ans => ans = namesFile
  | _, _ => True

/-- One operation as it is seen; whatever is not fixed may be answered in any way. -/
def Watch (outDir : Path) (namesFile : Except IoError String) (s : Seen) (op : BatchOp) (ans : op.Ans)
    (s' : Seen) : Prop := Answered namesFile op ans ∧ s' = s.after outDir op ans

/-! ## Records -/

/-- The number and the name of a record about an entry. -/
def Record.entry : Record → Option (Nat × String)
  | .decryptOk n name _ | .decryptSkipped n name _ | .decryptFailed n name _ =>
    some (n.toNat, name)
  | _ => none

/-- The record of an entry that went well. -/
def Record.isOk : Record → Bool
  | .decryptOk _ _ _ | .decryptSkipped _ _ _ => true
  | _ => false

/-- The record of an entry that failed. -/
def Record.isFailed : Record → Bool
  | .decryptFailed _ _ _ => true
  | _ => false

/-- Entries as they are numbered from `n` on. -/
def numbered (n : Nat) (names : List String) : List (Option (Nat × String)) :=
  (names.zipIdx n).map fun x => some (x.2, x.1)

/-- The name of an entry. -/
def PreflightOutcome.name : PreflightOutcome → String
  | .ready name _ _ | .failed name _ | .skipped name _ => name

/-- The stream of an entry that is to be decrypted. -/
def PreflightOutcome.stream? : PreflightOutcome → Option EboxStream
  | .ready _ _ stream => some stream
  | _ => none

/-! ## File operations -/

/-- File operations that read no entry. -/
def OnFiles : BatchOp → Prop
  | .fs (.read _) => False
  | .fs _ => True
  | _ => False

/-- Nothing is reported, ended early or parsed. -/
structure Quiet (s s' : Seen) : Prop where
  records : s'.records = s.records
  bailed : s'.bailed = s.bailed
  parsed : s'.parsed = s.parsed

theorem Quiet.refl (s : Seen) : Quiet s s := ⟨rfl, rfl, rfl⟩

theorem Quiet.trans {s s' s'' : Seen} (h : Quiet s s') (h' : Quiet s' s'') : Quiet s s'' :=
  ⟨h'.records.trans h.records, h'.bailed.trans h.bailed, h'.parsed.trans h.parsed⟩

theorem quiet_after (outDir : Path) (s : Seen) {op : BatchOp} (h : OnFiles op) (ans : op.Ans) :
    Quiet s (s.after outDir op ans) := by
  cases op with
  | fs f =>
    cases f with
    | read p => cases h
    | createDirAll p mode =>
      cases ans with
      | ok _ => exact .refl s
      | error e =>
        simp only [Seen.after]
        split
        · exact ⟨rfl, rfl, rfl⟩
        · exact .refl s
    | _ => exact .refl s
  | _ => cases h

variable {outDir : Path} {namesFile : Except IoError String}

/-- A program on files is not seen. -/
theorem ensures_onFiles {α : Type} {p : BatchProg α} (hp : p.Only OnFiles) (s : Seen) :
    p.Ensures (Watch outDir namesFile) (fun _ s' => Quiet s s') s := by
  induction p generalizing s with
  | ret a => exact .refl s
  | call op next ih =>
    rintro ans _ ⟨-, rfl⟩
    have hop := quiet_after outDir s hp.1 ans
    exact (ih ans (hp.2 ans) _).mono fun _ _ hquiet => hop.trans hquiet

theorem onFiles_wipe (paths : List Path) : (wipe paths).Only OnFiles := by
  induction paths with
  | nil => trivial
  | cons p paths ih => exact ⟨trivial, fun _ => ih⟩

theorem onFiles_passNameToEboxPathIn (writeStore : Path) (raw : String) (roots : List Path) :
    (passNameToEboxPathIn writeStore raw roots).Only OnFiles := by
  induction roots with
  | nil => trivial
  | cons root roots ih =>
    refine ⟨trivial, fun found => ?_⟩
    cases found with
    | true => trivial
    | false => exact ih

theorem onFiles_plaintextIsFresh (eboxPath outPath : Path) :
    (plaintextIsFresh eboxPath outPath).Only OnFiles := by
  refine ⟨trivial, fun eboxMtime => ⟨trivial, fun outMtime => ?_⟩⟩
  dsimp only [Prog.bind]
  split <;> trivial

theorem onFiles_writeNew (plaintext : Bytes) (outPath : Path) :
    (atomicWrite0600.writeNew plaintext outPath).Only OnFiles := by
  refine ⟨trivial, fun made => ?_⟩
  cases made with
  | error e => trivial
  | ok _ =>
    refine ⟨trivial, fun written => ?_⟩
    cases written with
    | error e => trivial
    | ok _ =>
      refine ⟨trivial, fun synced => ?_⟩
      cases synced with
      | error e => trivial
      | ok _ => trivial

theorem onFiles_create (plaintext : Bytes) (outPath : Path) :
    (atomicWrite0600.create plaintext outPath).Only OnFiles := by
  have hnew := onFiles_writeNew plaintext outPath
  rw [atomicWrite0600.create]
  split
  · exact hnew
  · refine ⟨trivial, fun found => ?_⟩
    cases found with
    | ok _ => exact hnew
    | error e =>
      refine ⟨trivial, fun made => ?_⟩
      cases made with
      | error e => trivial
      | ok _ => exact ⟨trivial, fun _ => hnew⟩

theorem onFiles_atomicWrite0600 (dir : Path) (name : String) (plaintext : Bytes) (overwriteStale : Bool) :
    (atomicWrite0600 dir name plaintext overwriteStale).Only OnFiles := by
  have hcreate := onFiles_create plaintext (dir.join ⟨name⟩)
  rw [atomicWrite0600]
  cases overwriteStale with
  | false => exact hcreate
  | true =>
    refine ⟨trivial, fun removed => ?_⟩
    cases removed with
    | ok _ => exact hcreate
    | error e =>
      change Prog.Only OnFiles (if e.notFound = true then _ else _)
      split
      · exact hcreate
      · trivial

/-! ## Preparing -/

theorem firstReady_eq (outcomes : List PreflightOutcome) :
    firstReady outcomes = (outcomes.filterMap PreflightOutcome.stream?).head? := by
  induction outcomes with
  | nil => rfl
  | cons outcome rest ih =>
    cases outcome with
    | ready name bytes stream => rfl
    | failed name diagnostic => exact ih
    | skipped name outPath => exact ih

/-- What preparing entries is seen to do: it parses those that are ready, and every entry has an
outcome under its name. -/
structure Prepared (names : List String) (s : Seen) (outcomes : List PreflightOutcome) (s' : Seen) :
    Prop where
  records : s'.records = s.records
  bailed : s'.bailed = s.bailed
  parsed : s'.parsed = s.parsed ++ outcomes.filterMap PreflightOutcome.stream?
  names : outcomes.map PreflightOutcome.name = names.map canonicalizePassName

theorem ensures_readEntry (canonical : String) (path : Path) (s : Seen) :
    (readEntry canonical path).Ensures (Watch outDir namesFile) (fun outcome s' =>
      s'.records = s.records ∧ s'.bailed = s.bailed ∧
        s'.parsed = s.parsed ++ outcome.stream?.toList ∧ outcome.name = canonical) s := by
  rintro ans _ ⟨-, rfl⟩
  cases ans with
  | error e =>
    have hnone : s.after outDir (.fs (.read path)) (.error e) = s := rfl
    rw [hnone]
    change Prog.Ensures _ (if e.notFound = true then _ else _) _ _
    split <;> exact ⟨rfl, rfl, (List.append_nil _).symm, rfl⟩
  | ok bytes =>
    dsimp only [Prog.bind]
    rcases hparse : EboxStream.fromBytes bytes with e | stream
    · refine ⟨rfl, rfl, ?_, rfl⟩
      simp only [Seen.after, hparse]
      rfl
    · refine ⟨rfl, rfl, ?_, rfl⟩
      simp only [Seen.after, hparse]
      rfl

theorem ensures_preflight (args : ShowBatchArgs) (writeStore : Path) (roots : List Path)
    (names : List String) (s : Seen) :
    (preflight args writeStore roots names).Ensures (Watch outDir namesFile) (Prepared names s) s := by
  induction names generalizing s with
  | nil => exact ⟨rfl, rfl, (List.append_nil _).symm, rfl⟩
  | cons raw names ih =>
    rw [preflight]
    refine (ensures_onFiles (onFiles_passNameToEboxPathIn writeStore raw roots) s).bind ?_
    intro path s₁ hpath
    -- The outcome of this entry, then the others.
    have hrest : ∀ outcome s₂, s₂.records = s.records → s₂.bailed = s.bailed →
        s₂.parsed = s.parsed ++ outcome.stream?.toList → outcome.name = canonicalizePassName raw →
        (do
          let rest ← preflight args writeStore roots names
          pure (outcome :: rest) : BatchProg _).Ensures (Watch outDir namesFile)
          (Prepared (raw :: names) s) s₂ := by
      intro outcome s₂ hrecords hbailed hparsed hname
      refine (ih s₂).bind ?_
      intro rest s₃ hprepared
      refine ⟨?_, ?_, ?_, ?_⟩
      · rw [hprepared.records, hrecords]
      · rw [hprepared.bailed, hbailed]
      · rw [hprepared.parsed, hparsed, List.append_assoc]
        congr 1
        rw [List.filterMap_cons]
        cases outcome.stream? <;> rfl
      · rw [List.map_cons, List.map_cons, hname, hprepared.names]
    have hfresh : ∀ (fresh : Bool) (s₂ : Seen), Quiet s s₂ →
        Prog.Ensures (Watch outDir namesFile)
          (if fresh = true then (do
            let rest ← preflight args writeStore roots names
            pure (.skipped (canonicalizePassName raw) (args.outDir.join ⟨canonicalizePassName raw⟩) :: rest))
          else (do
            let outcome ← readEntry (canonicalizePassName raw) path
            let rest ← preflight args writeStore roots names
            pure (outcome :: rest))) (Prepared (raw :: names) s) s₂ := by
      intro fresh s₂ hquiet
      split
      · exact hrest _ s₂ hquiet.records hquiet.bailed
          (hquiet.parsed.trans (List.append_nil _).symm) rfl
      · refine (ensures_readEntry (canonicalizePassName raw) path s₂).bind ?_
        rintro outcome s₃ ⟨hrecords, hbailed, hparsed, hname⟩
        exact hrest outcome s₃ (hrecords.trans hquiet.records) (hbailed.trans hquiet.bailed)
          (by rw [hparsed, hquiet.parsed]) hname
    dsimp only
    split
    · refine (ensures_onFiles (onFiles_plaintextIsFresh _ _) s₁).bind ?_
      intro fresh s₂ hquiet
      exact hfresh fresh s₂ (hpath.trans hquiet)
    · exact hfresh false s₁ hpath

/-! ## The loop -/

/-- What the loop is seen to do behind `i` entries: its records are about the next of them,
numbered in turn, and it counts them; it comes to the last one unless something ended it. -/
structure Looped (i : Nat) (outcomes : List PreflightOutcome) (totals : LoopTotals) (s : Seen)
    (r : Except Nat LoopTotals) (s' : Seen) : Prop where
  parsed : s'.parsed = s.parsed
  ends : ∃ totals', r = .ok totals' ∧ ∃ records, s'.records = s.records ++ records ∧
    records.map Record.entry <+: numbered (i + 1) (outcomes.map PreflightOutcome.name) ∧
    totals'.okCount = totals.okCount + UInt32.ofNat (records.countP Record.isOk) ∧
    totals'.failedCount = totals.failedCount + UInt32.ofNat (records.countP Record.isFailed) ∧
    ((records.length = outcomes.length ∧ totals'.bailReason = totals.bailReason ∧ s'.bailed = s.bailed) ∨
      (totals'.bailReason.isSome = true ∧ s'.bailed = true))

/-- One more record in front of what the loop does. -/
theorem Looped.cons {i : Nat} {outcome : PreflightOutcome} {rest : List PreflightOutcome}
    {totals totals₁ : LoopTotals} {s s₁ s' : Seen} {r : Except Nat LoopTotals} {record : Record}
    (h : Looped (i + 1) rest totals₁ s₁ r s') (hrecords : s₁.records = s.records ++ [record])
    (hbailed : s₁.bailed = s.bailed) (hparsed : s₁.parsed = s.parsed)
    (hentry : record.entry = some (i + 1, outcome.name))
    (hok : totals₁.okCount = totals.okCount + UInt32.ofNat ([record].countP Record.isOk))
    (hfailed : totals₁.failedCount = totals.failedCount + UInt32.ofNat ([record].countP Record.isFailed))
    (hreason : totals₁.bailReason = totals.bailReason) :
    Looped i (outcome :: rest) totals s r s' := by
  obtain ⟨hp, totals', hr, records, hs', hprefix, hcount, hcount', hend⟩ := h
  have hmore (p : Record → Bool) : UInt32.ofNat ((record :: records).countP p) =
      UInt32.ofNat ([record].countP p) + UInt32.ofNat (records.countP p) := by
    rw [← UInt32.ofNat_add, ← List.countP_append]
    rfl
  refine ⟨hp.trans hparsed, totals', hr, record :: records, ?_, ?_, ?_, ?_, ?_⟩
  · rw [hs', hrecords, List.append_assoc]
    rfl
  · rw [List.map_cons, List.map_cons, numbered, List.zipIdx_cons, List.map_cons, hentry]
    exact List.cons_prefix_cons.mpr ⟨rfl, hprefix⟩
  · rw [hcount, hok, hmore, UInt32.add_assoc]
  · rw [hcount', hfailed, hmore, UInt32.add_assoc]
  · refine hend.imp ?_ id
    rintro ⟨hlen, hreason', hbailed'⟩
    exact ⟨by rw [List.length_cons, List.length_cons, hlen], hreason'.trans hreason, hbailed'.trans hbailed⟩

theorem ensures_emitThen {α : Type} {r : Record} {next : BatchProg (Except Nat α)}
    {post : Except Nat α → Seen → Prop} {s : Seen}
    (h : next.Ensures (Watch outDir namesFile) post { s with records := s.records ++ [r] }) :
    (emitThen r next).Ensures (Watch outDir namesFile) post s := by
  rintro _ _ ⟨rfl, rfl⟩
  exact h

/-- The loop: the end of the list, an interrupt, and one case for each way an entry can go. -/
theorem ensures_runDecryptLoop (dir : Path) (update : Bool) (total : UInt32) (i : Nat)
    (outcomes : List PreflightOutcome) (totals : LoopTotals) (s : Seen)
    (hfits : i + outcomes.length < 2 ^ 32) :
    (runDecryptLoop dir update total i outcomes totals).Ensures (Watch outDir namesFile)
      (Looped i outcomes totals s) s := by
  have hzero (n : UInt32) : n = n + UInt32.ofNat 0 := (UInt32.add_zero n).symm
  induction outcomes generalizing i totals s with
  | nil =>
    exact ⟨rfl, totals, rfl, [], (List.append_nil _).symm, List.nil_prefix, hzero _, hzero _,
      .inl ⟨rfl, rfl, rfl⟩⟩
  | cons outcome rest ih =>
    have hnumber : (UInt32.ofNat (i + 1)).toNat = i + 1 := by
      rw [List.length_cons] at hfits
      exact UInt32.toNat_ofNat_of_lt' (by rw [UInt32.size]; omega)
    have hname (name : String) : some ((UInt32.ofNat (i + 1)).toNat, name) = some (i + 1, name) := by
      rw [hnumber]
    have hnext (totals : LoopTotals) (s : Seen) :=
      ih (i + 1) totals s (by rw [List.length_cons] at hfits; omega)
    rintro caught _ ⟨-, rfl⟩
    cases caught with
    | true =>
      exact ⟨rfl, _, rfl, [], (List.append_nil _).symm, List.nil_prefix, hzero _, hzero _,
        .inr ⟨rfl, rfl⟩⟩
    | false =>
      cases outcome with
      | failed name diagnostic =>
        refine ensures_emitThen ((hnext _ _).mono ?_)
        intro r s' h
        exact h.cons rfl rfl rfl (hname name) (hzero _) rfl rfl
      | skipped name outPath =>
        refine ensures_emitThen ((hnext _ _).mono ?_)
        intro r s' h
        exact h.cons rfl rfl rfl (hname name) rfl (hzero _) rfl
      | ready name bytes stream =>
        rintro answer _ ⟨-, rfl⟩
        cases answer with
        | ok plain =>
          refine (ensures_onFiles (onFiles_atomicWrite0600 dir name plain update) _).bind ?_
          intro written s₁ hquiet
          cases written with
          | ok outPath =>
            refine ensures_emitThen ((hnext _ _).mono ?_)
            intro r s' h
            exact h.cons (congrArg (· ++ [Record.decryptOk _ name outPath]) hquiet.records)
              hquiet.bailed hquiet.parsed (hname name) rfl (hzero _) rfl
          | error e =>
            refine ensures_emitThen ((hnext _ _).mono ?_)
            intro r s' h
            exact h.cons (congrArg (· ++ [Record.decryptFailed _ name _]) hquiet.records)
              hquiet.bailed hquiet.parsed (hname name) (hzero _) rfl rfl
        | error e =>
          refine ensures_emitThen ?_
          split
          · next hfatal =>
            refine ⟨rfl, _, rfl, [.decryptFailed (UInt32.ofNat (i + 1)) name e.diagnostic], rfl, ?_,
              hzero _, rfl, .inr ⟨rfl, ?_⟩⟩
            · rw [List.map_cons, List.map_cons, numbered, List.zipIdx_cons, List.map_cons]
              exact List.cons_prefix_cons.mpr ⟨hname name, List.nil_prefix⟩
            · simp [Seen.after, hfatal]
          · next hgoes =>
            refine (hnext _ _).mono ?_
            intro r s' h
            refine h.cons rfl ?_ rfl (hname name) (hzero _) rfl rfl
            simp [Seen.after, hgoes]

/-! ## The end of a run -/

variable {Scalar Point Rng : Type} (ssl : OpenSsl Scalar Point Rng)

/-- Something ended a run before it went through its entries, or with them: what was seen to, or
the first entry that was parsed names no recipient that a session could be opened for. -/
def Seen.EndedEarly (s : Seen) : Prop :=
  s.bailed = true ∨ ∃ stream e, s.parsed.head? = some stream ∧ primaryPartTargets ssl stream = .error e

/-- How a run ends that came to its last record: the records about entries are numbered in the
order of the names; a run that nothing ended early goes through them all and sums them up, any
other bails out. -/
def Closes (names : List String) (s : Seen) (code : Nat) : Prop :=
  ∃ count entries last, s.records = .plan count :: (entries ++ [last]) ∧
    count.toNat = names.length ∧
    entries.map Record.entry <+: numbered 1 (names.map canonicalizePassName) ∧
    ((¬ s.EndedEarly ssl ∧ entries.length = names.length ∧ ∃ ok failed, last = .summary ok failed ∧
        ok.toNat + failed.toNat = names.length ∧ ok.toNat = entries.countP Record.isOk ∧
        failed.toNat = entries.countP Record.isFailed) ∨
      (s.EndedEarly ssl ∧ ∃ reason, last = .bailOut reason)) ∧
    (code = 0 ↔ ∃ ok, last = .summary ok 0)

/-- A record about an entry is of one kind. -/
theorem countP_kinds {entries : List Record} {n : Nat} {names : List String}
    (h : entries.map Record.entry <+: numbered n names) :
    entries.countP Record.isOk + entries.countP Record.isFailed = entries.length := by
  have hentry : ∀ r ∈ entries, r.isFailed = !r.isOk := by
    intro r hr
    have hmem : r.entry ∈ numbered n names := h.subset (List.mem_map_of_mem hr)
    obtain ⟨x, -, hx⟩ := List.mem_map.mp hmem
    cases r with
    | decryptOk n name outPath => rfl
    | decryptSkipped n name outPath => rfl
    | decryptFailed n name diagnostic => rfl
    | _ => cases hx
  have hfailed : entries.countP Record.isFailed = entries.countP fun r => decide ¬ r.isOk = true := by
    apply List.countP_congr
    intro r hr
    rw [hentry r hr]
    simp
  rw [hfailed]
  exact (List.length_eq_countP_add_countP Record.isOk).symm

/-- What is known of a run whose loop is over. -/
structure Summed (names : List String) (totals : LoopTotals) (s : Seen) : Prop where
  entries : ∃ entries, s.records = .plan (UInt32.ofNat names.length) :: entries ∧
    entries.map Record.entry <+: numbered 1 (names.map canonicalizePassName) ∧
    totals.okCount = UInt32.ofNat (entries.countP Record.isOk) ∧
    totals.failedCount = UInt32.ofNat (entries.countP Record.isFailed) ∧
    ((entries.length = names.length ∧ totals.bailReason = none ∧ ¬ s.EndedEarly ssl) ∨
      (totals.bailReason.isSome = true ∧ s.EndedEarly ssl))

theorem Quiet.endedEarly {s s' : Seen} (h : Quiet s s') : s'.EndedEarly ssl ↔ s.EndedEarly ssl := by
  rw [Seen.EndedEarly, Seen.EndedEarly, h.bailed, h.parsed]

theorem Summed.quiet {names : List String} {totals : LoopTotals} {s s' : Seen}
    (h : Summed ssl names totals s) (hquiet : Quiet s s') : Summed ssl names totals s' := by
  obtain ⟨entries, hrecords, hrest⟩ := h.entries
  refine ⟨entries, hquiet.records.trans hrecords, ?_⟩
  rw [hquiet.endedEarly ssl]
  exact hrest

/-- The last record says how the loop ended. -/
theorem ensures_finish (args : ShowBatchArgs) {names : List String} {totals : LoopTotals} {s : Seen}
    (hfits : names.length < 2 ^ 32) (h : Summed ssl names totals s) :
    (finish args totals).Ensures (Watch outDir namesFile)
      (fun code s' => code ≠ 2 ∧ Closes ssl names s' code) s := by
  -- what is left to do when there is nothing to wipe
  have hlast : ∀ s₁, Summed ssl names totals s₁ →
      (finish { args with allOrNothing := false } totals).Ensures (Watch outDir namesFile)
        (fun code s' => code ≠ 2 ∧ Closes ssl names s' code) s₁ := by
    intro s₁ hs₁
    rw [finish]
    dsimp only
    rw [Bool.false_and, if_neg Bool.false_ne_true]
    obtain ⟨entries, hrecords, hprefix, hok, hfailed, hend⟩ := hs₁.entries
    have hcount : (UInt32.ofNat names.length).toNat = names.length := UInt32.toNat_ofNat_of_lt' hfits
    rcases hend with ⟨hlen, hreason, hwhole⟩ | ⟨hreason, hearly⟩
    · have hkinds := countP_kinds hprefix
      have hok' : totals.okCount.toNat = entries.countP Record.isOk := by
        rw [hok]
        exact UInt32.toNat_ofNat_of_lt' (by rw [UInt32.size]; omega)
      have hfailed' : totals.failedCount.toNat = entries.countP Record.isFailed := by
        rw [hfailed]
        exact UInt32.toNat_ofNat_of_lt' (by rw [UInt32.size]; omega)
      rw [hreason]
      rintro _ _ ⟨rfl, rfl⟩
      refine ⟨?_, _, entries, .summary totals.okCount totals.failedCount, ?_, hcount, hprefix,
        .inl ⟨hwhole, hlen, _, _, rfl, ?_, hok', hfailed'⟩, ?_⟩
      · split <;> decide
      · change s₁.records ++ _ = _
        rw [hrecords]
        rfl
      · rw [hok', hfailed', hkinds, hlen]
      · by_cases hzero : totals.failedCount = 0
        · rw [if_pos hzero, hzero]
          exact iff_of_true rfl ⟨_, rfl⟩
        · rw [if_neg hzero]
          refine iff_of_false (by decide) ?_
          rintro ⟨ok, heq⟩
          exact hzero (Record.summary.inj heq).2
    · obtain ⟨reason, hsome⟩ := Option.isSome_iff_exists.mp hreason
      rw [hsome]
      rintro _ _ ⟨rfl, rfl⟩
      refine ⟨by decide, _, entries, .bailOut reason, ?_, hcount, hprefix,
        .inr ⟨hearly, reason, rfl⟩, ?_⟩
      · change s₁.records ++ _ = _
        rw [hrecords]
        rfl
      · exact iff_of_false (by decide) (by rintro ⟨ok, heq⟩; cases heq)
  rw [finish]
  dsimp only
  split
  · exact (ensures_onFiles (onFiles_wipe totals.writtenPaths) s).bind fun _ s₁ hquiet =>
      hlast s₁ (h.quiet ssl hquiet)
  · exact hlast s h

/-- A run whose entries are prepared and whose plan is out. -/
structure Planned (names : List String) (outcomes : List PreflightOutcome) (s : Seen) : Prop where
  records : s.records = [.plan (UInt32.ofNat names.length)]
  bailed : s.bailed = false
  parsed : s.parsed.head? = firstReady outcomes
  names : outcomes.map PreflightOutcome.name = names.map canonicalizePassName

theorem Planned.length {names : List String} {outcomes : List PreflightOutcome} {s : Seen}
    (h : Planned names outcomes s) : outcomes.length = names.length := by
  simpa using congrArg List.length h.names

theorem Planned.fits {names : List String} {outcomes : List PreflightOutcome} {s : Seen}
    (h : Planned names outcomes s) (hfits : names.length < 2 ^ 32) : 0 + outcomes.length < 2 ^ 32 := by
  rw [h.length, Nat.zero_add]
  exact hfits

/-- The totals before the loop. -/
def LoopTotals.zero : LoopTotals := { okCount := 0, failedCount := 0, writtenPaths := [], bailReason := none }

/-- Nothing but what is seen ends a run whose first entry has a recipient. -/
theorem endedEarly_iff {s : Seen}
    (h : ∀ stream ∈ s.parsed.head?, ∃ targets, primaryPartTargets ssl stream = .ok targets) :
    s.EndedEarly ssl ↔ s.bailed = true := by
  constructor
  · rintro (hbailed | ⟨stream, e, hstream, herror⟩)
    · exact hbailed
    · obtain ⟨targets, hok⟩ := h stream hstream
      rw [hok] at herror
      cases herror
  · exact .inl

/-- The loop over prepared entries is summed up by its totals. -/
theorem Looped.summed {names : List String} {outcomes : List PreflightOutcome} {s s' : Seen}
    {r : Except Nat LoopTotals} (hplan : Planned names outcomes s)
    (htargets : ∀ stream ∈ firstReady outcomes, ∃ targets, primaryPartTargets ssl stream = .ok targets)
    (h : Looped 0 outcomes .zero s r s') :
    ∃ totals, r = .ok totals ∧ Summed ssl names totals s' := by
  obtain ⟨hparsed, totals, hr, entries, hrecords, hprefix, hok, hfailed, hend⟩ := h
  have hlen := hplan.length
  have hearly : s'.EndedEarly ssl ↔ s'.bailed = true := by
    apply endedEarly_iff
    rw [hparsed, hplan.parsed]
    exact htargets
  refine ⟨totals, hr, ⟨entries, ?_, ?_, ?_, ?_, ?_⟩⟩
  · rw [hrecords, hplan.records]
    rfl
  · rw [← hplan.names]
    exact hprefix
  · rw [hok]
    exact UInt32.zero_add _
  · rw [hfailed]
    exact UInt32.zero_add _
  · rw [hearly]
    refine hend.imp ?_ id
    rintro ⟨hall, hreason, hbailed⟩
    exact ⟨hall.trans hlen, hreason, by rw [hbailed, hplan.bailed]; decide⟩

/-- A bail-out right after the plan closes a run. -/
theorem closes_bailOut {names : List String} {s : Seen} (reason : String)
    (hfits : names.length < 2 ^ 32)
    (hrecords : s.records = [.plan (UInt32.ofNat names.length), .bailOut reason])
    (hearly : s.EndedEarly ssl) : Closes ssl names s 1 := by
  refine ⟨_, [], .bailOut reason, hrecords, UInt32.toNat_ofNat_of_lt' hfits, List.nil_prefix,
    .inr ⟨hearly, reason, rfl⟩, ?_⟩
  exact iff_of_false (by decide) (by rintro ⟨ok, heq⟩; cases heq)

/-- The loop in a session: a session that does not begin is the end of the run. -/
theorem ensures_runUnlocked (args : ShowBatchArgs) {names : List String} {targets : List RecipientTarget}
    {outcomes : List PreflightOutcome} {s : Seen} (hfits : names.length < 2 ^ 32)
    (hplan : Planned names outcomes s)
    (htargets : ∀ stream ∈ firstReady outcomes, ∃ targets, primaryPartTargets ssl stream = .ok targets) :
    (runUnlocked args targets (UInt32.ofNat names.length) outcomes .zero).Ensures (Watch outDir namesFile)
      (fun r s' => (∃ totals, r = .ok totals ∧ Summed ssl names totals s') ∨
        (r = .error 1 ∧ Closes ssl names s' 1)) s := by
  rintro begun _ ⟨-, rfl⟩
  cases begun with
  | error reason =>
    rintro _ _ ⟨rfl, rfl⟩
    refine .inr ⟨rfl, closes_bailOut ssl reason hfits ?_ (.inl rfl)⟩
    change s.records ++ _ = _
    rw [hplan.records]
    rfl
  | ok _ =>
    refine (ensures_runDecryptLoop args.outDir args.update _ 0 outcomes .zero s
      (hplan.fits hfits)).bind ?_
    intro r s₁ hlooped
    obtain ⟨totals, rfl, entries, hrecords, hprefix, hok, hfailed, hend⟩ :=
      hlooped.summed ssl hplan htargets
    rintro sessionEnd _ ⟨-, rfl⟩
    refine .inl ⟨_, rfl, ?_⟩
    cases sessionEnd with
    | none =>
      refine ⟨entries, hrecords, hprefix, hok, hfailed, ?_⟩
      rcases hend with ⟨hlen, hreason, hwhole⟩ | ⟨hreason, hearly⟩
      · exact .inl ⟨hlen, by rw [hreason]; rfl, hwhole⟩
      · obtain ⟨reason, hsome⟩ := Option.isSome_iff_exists.mp hreason
        exact .inr ⟨by rw [hsome]; rfl, hearly⟩
    | some text =>
      refine ⟨entries, hrecords, hprefix, hok, hfailed, .inr ⟨?_, .inl rfl⟩⟩
      rcases hreason : totals.bailReason with _ | reason
      · simp
      · simp

/-- What a run from given names comes to: no record at all, for want of a name or of the output
directory, or a report that is closed. -/
def Reports (names : List String) (code : Nat) (s : Seen) : Prop :=
  (code = 2 ∧ s.records = [] ∧ (names = [] ∨ s.outDirFailed = true)) ∨
    (names ≠ [] ∧ code ≠ 2 ∧ Closes ssl names s code)

theorem ensures_runNames (args : ShowBatchArgs) (writeStore : Path) (laterStores : List Path)
    (names : List String) (hfits : names.length < 2 ^ 32) :
    (runNames ssl args writeStore laterStores names).Ensures (Watch args.outDir namesFile)
      (Reports ssl names) .start := by
  rw [runNames]
  split
  · next hempty => exact .inl ⟨rfl, rfl, .inl (List.isEmpty_iff.mp hempty)⟩
  · next hnames =>
    have hsome : names ≠ [] := fun h => hnames (List.isEmpty_iff.mpr h)
    rintro made _ ⟨-, rfl⟩
    cases made with
    | error e =>
      refine .inl ⟨rfl, ?_, .inr ?_⟩
      · simp [Seen.after, Seen.start]
      · simp [Seen.after]
    | ok _ =>
      rintro _ _ ⟨-, rfl⟩
      rintro _ _ ⟨rfl, rfl⟩
      refine (ensures_preflight args writeStore _ names _).bind ?_
      intro outcomes s hprepared
      have hplan : Planned names outcomes s := by
        refine ⟨hprepared.records, hprepared.bailed, ?_, hprepared.names⟩
        rw [hprepared.parsed, firstReady_eq]
        rfl
      have hpost : ∀ code s', code ≠ 2 ∧ Closes ssl names s' code → Reports ssl names code s' :=
        fun code s' h => .inr ⟨hsome, h.1, h.2⟩
      refine Prog.Ensures.mono ?_ hpost
      dsimp only
      split
      · next hnone =>
        have htargets : ∀ stream ∈ firstReady outcomes,
            ∃ targets, primaryPartTargets ssl stream = .ok targets := by
          rw [hnone]
          exact fun _ h => by cases h
        refine (ensures_runDecryptLoop args.outDir args.update _ 0 outcomes .zero s
          (hplan.fits hfits)).bind ?_
        intro r s₁ hlooped
        obtain ⟨totals, rfl, hsummed⟩ := hlooped.summed ssl hplan htargets
        exact ensures_finish ssl args hfits hsummed
      · next stream hready =>
        split
        · next diagnostic herror =>
          rintro _ _ ⟨rfl, rfl⟩
          refine ⟨by decide, closes_bailOut ssl
            s!"cannot identify target recipient for batch: {diagnostic.message}" hfits ?_
            (.inr ⟨stream, diagnostic, ?_, herror⟩)⟩
          · change s.records ++ _ = _
            rw [hplan.records]
            rfl
          · exact hplan.parsed.trans hready
        · next targets hok =>
          have htargets : ∀ stream ∈ firstReady outcomes,
              ∃ targets, primaryPartTargets ssl stream = .ok targets := by
            rw [hready]
            rintro _ ⟨⟩
            exact ⟨targets, hok⟩
          refine (ensures_runUnlocked ssl args hfits hplan htargets).bind ?_
          rintro r s₁ (⟨totals, rfl, hsummed⟩ | ⟨rfl, hcloses⟩)
          · exact ensures_finish ssl args hfits hsummed
          · exact ⟨by decide, hcloses⟩

/-- The names of a run, from its arguments and from the file of names: there are none to go on with
when an argument is empty, or when the file cannot be read. -/
def ShowBatchArgs.given (args : ShowBatchArgs) (namesFile : Except IoError String) : Option (List String) :=
  if args.names.any (·.isEmpty) then none
  else
    match args.namesFrom with
    | none => some args.names
    | some _ => namesFile.toOption.map fun body => args.names ++ readNamesFrom body

/-- A refused run reports nothing. -/
def Reported (args : ShowBatchArgs) (namesFile : Except IoError String) (code : Nat) (s : Seen) : Prop :=
  match args.given namesFile with
  | none => code = 2 ∧ s.records = []
  | some names => Reports ssl names code s

/-- A batch of fewer than 2^32 names reports what it did, or is refused. -/
theorem showBatch_reported (args : ShowBatchArgs) (writeStore : Path) (laterStores : List Path)
    (namesFile : Except IoError String)
    (hfits : ∀ names, args.given namesFile = some names → names.length < 2 ^ 32) :
    (showBatch ssl args writeStore laterStores).Ensures (Watch args.outDir namesFile)
      (Reported ssl args namesFile) .start := by
  rw [showBatch]
  unfold Reported
  revert hfits
  unfold ShowBatchArgs.given
  split
  · exact fun _ => ⟨rfl, rfl⟩
  · rcases args.namesFrom with _ | path
    · exact fun hfits => ensures_runNames ssl args writeStore laterStores args.names (hfits _ rfl)
    · rintro hfits answer _ ⟨hanswer, rfl⟩
      obtain rfl : namesFile = answer := hanswer.symm
      cases namesFile with
      | error e => exact ⟨rfl, rfl⟩
      | ok body =>
        exact ensures_runNames ssl args writeStore laterStores (args.names ++ readNamesFrom body)
          (hfits _ rfl)

/-- Three names, the last of them from a file. -/
def threeNames : ShowBatchArgs :=
  { names := ["a", "b.ebox"], namesFrom := some ⟨"/names"⟩, outDir := ⟨"/out"⟩
    allOrNothing := true, update := false }

theorem showBatch_reported_sample :
    (showBatch OpenSsl.sample threeNames ⟨"/store"⟩ []).Ensures (Watch ⟨"/out"⟩ (.ok "# names\n c"))
      (Reports OpenSsl.sample ["a", "b.ebox", "c"]) .start := by
  have hnames : threeNames.given (.ok "# names\n c") = some ["a", "b.ebox", "c"] := by decide
  have hreported := showBatch_reported OpenSsl.sample threeNames ⟨"/store"⟩ [] (.ok "# names\n c")
    fun names h => by
      rw [hnames] at h
      cases h
      decide
  unfold Reported at hreported
  rw [hnames] at hreported
  exact hreported

/-! ## Runs that are not reported -/

/-- A report begins with the number of the names, as far as 32 bits tell it. -/
def Begun (names : List String) (s : Seen) : Prop :=
  ∃ later, s.records = .plan (UInt32.ofNat names.length) :: later

/-- What is reported stays reported. -/
theorem records_after (dir : Path) (s : Seen) (op : BatchOp) (ans : op.Ans) :
    ∃ later, (s.after dir op ans).records = s.records ++ later := by
  rw [Seen.after.eq_def]
  split
  · exact ⟨_, rfl⟩
  all_goals first
    | exact ⟨[], (List.append_nil _).symm⟩
    | split <;> exact ⟨[], (List.append_nil _).symm⟩

theorem ensures_begun {α : Type} {names : List String} {s : Seen} (p : BatchProg α)
    (h : Begun names s) : p.Ensures (Watch outDir namesFile) (fun _ s' => Begun names s') s := by
  refine Prog.ensures_of_preserved ?_ p h
  rintro s op ans _ ⟨records, hrecords⟩ ⟨-, rfl⟩
  obtain ⟨later, hlater⟩ := records_after outDir s op ans
  exact ⟨records ++ later, by rw [hlater, hrecords, List.cons_append]⟩

/-- Whatever a run reports, it begins with that number. -/
theorem ensures_plan (args : ShowBatchArgs) (writeStore : Path) (laterStores : List Path)
    (names : List String) :
    (runNames ssl args writeStore laterStores names).Ensures (Watch outDir namesFile)
      (fun _ s => s.records = [] ∨ Begun names s) .start := by
  rw [runNames]
  split
  · exact .inl rfl
  · rintro made _ ⟨-, rfl⟩
    cases made with
    | error e =>
      refine .inl ?_
      simp only [Seen.after]
      split <;> rfl
    | ok _ =>
      rintro _ _ ⟨-, rfl⟩
      rintro _ _ ⟨rfl, rfl⟩
      exact (ensures_begun _ ⟨[], rfl⟩).mono fun _ _ h => .inr h

/-- Every operation can be answered. -/
theorem watch_total (s : Seen) (op : BatchOp) :
    ∃ ans s', Watch outDir namesFile s op ans s' := by
  have hanswer : ∃ ans, Answered namesFile op ans := by
    cases op with
    | fs f =>
      cases f with
      | readToString p => exact ⟨namesFile, rfl⟩
      | isFile p => exact ⟨false, trivial⟩
      | _ => exact ⟨.error ⟨false, ""⟩, trivial⟩
    | sigintCaught => exact ⟨false, trivial⟩
    | emit r => exact ⟨.ok (), rfl⟩
    | print lines => exact ⟨.ok (), trivial⟩
    | openBackend targets names => exact ⟨.error "", trivial⟩
    | decrypt stream bytes =>
      exact ⟨.error { diagnostic := { kind := .internal, message := "" } }, trivial⟩
    | endSession => exact ⟨none, trivial⟩
  obtain ⟨ans, hans⟩ := hanswer
  exact ⟨ans, _, hans, rfl⟩

/-- From 2^32 names on, the plan tells a wrong number. -/
theorem not_closes_of_many {names : List String} (hmany : 2 ^ 32 ≤ names.length)
    (args : ShowBatchArgs) (writeStore : Path) (laterStores : List Path) :
    ¬ (runNames ssl args writeStore laterStores names).Ensures (Watch outDir namesFile)
      (fun code s => Closes ssl names s code) .start := by
  intro h
  have htotal : ∀ s op, ∃ ans s', Watch outDir namesFile s op ans s' := watch_total
  obtain ⟨code, s, hexec⟩ :=
    Prog.exists_exec htotal (runNames ssl args writeStore laterStores names) .start
  obtain ⟨count, entries, last, hrecords, hcount, -⟩ := Prog.ensures_iff.mp h code s hexec
  rcases Prog.ensures_iff.mp (ensures_plan ssl args writeStore laterStores names) code s hexec with
    hnone | ⟨later, hbegun⟩
  · rw [hnone] at hrecords
    cases hrecords
  · rw [hbegun] at hrecords
    cases hrecords
    have hlt := (UInt32.ofNat names.length).toNat_lt
    omega

/-- Without a name there is no plan and no last record; and 2^32 names are more than the plan can
tell. -/
theorem not_closes :
    (¬ (showBatch OpenSsl.sample
        { names := [], namesFrom := none, outDir := ⟨"/out"⟩, allOrNothing := false, update := false }
        ⟨"/store"⟩ []).Ensures (Watch ⟨"/out"⟩ (.ok ""))
      (fun code s => Closes OpenSsl.sample [] s code) .start) ∧
    ¬ ∀ names : List String, names ≠ [] → (∀ name ∈ names, name = "a") →
      (showBatch OpenSsl.sample
        { names := names, namesFrom := none, outDir := ⟨"/out"⟩, allOrNothing := false, update := false }
        ⟨"/store"⟩ []).Ensures (Watch ⟨"/out"⟩ (.ok ""))
      (fun code s => Closes OpenSsl.sample names s code) .start := by
  constructor
  · rintro ⟨count, entries, last, hrecords, -⟩
    cases hrecords
  · intro h
    obtain ⟨names, hlen, hmem⟩ : ∃ names : List String, names.length = 2 ^ 32 ∧
        ∀ name ∈ names, name = "a" :=
      ⟨List.replicate (2 ^ 32) "a", List.length_replicate, fun _ => List.eq_of_mem_replicate⟩
    have hsome : names ≠ [] := by
      rintro rfl
      cases hlen
    have hempty : names.any (·.isEmpty) = false := by
      rw [List.any_eq_false]
      intro name hname
      rw [hmem name hname]
      decide
    have hcloses := h names hsome hmem
    rw [showBatch] at hcloses
    dsimp only at hcloses
    rw [if_neg (Bool.eq_false_iff.mp hempty)] at hcloses
    exact not_closes_of_many OpenSsl.sample hlen.ge _ _ _ hcloses

end Piggy.Batch
