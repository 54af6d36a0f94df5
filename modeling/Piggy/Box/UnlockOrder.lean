import Piggy.Box.Calls
import Piggy.Box.RoundTrip

/-!
# The attempts of an unlock

An unlock is a walk over a list of attempts, each of them the query of one part put to one oracle.
The walk ends at the first attempt whose answer opens the box of its part.
-/

namespace Piggy.Box

open Piggy.Core

/-! ## Walks -/

/-- The two oracles, in the order in which they are asked. -/
inductive Helper where
  | agent
  | card
  deriving DecidableEq

/-- The query of one part, put to one oracle. -/
structure Attempt where
  config : Nat
  helper : Helper
  part : Nat
  box : PivBox
  query : Bytes × Bytes

/-- What an answer comes to. -/
inductive Outcome where
  /-- The oracle has no such key. -/
  | noKey
  | failed (reason : String)
  | opened (plain : Bytes)
  deriving DecidableEq

section

variable {Scalar Point Rng : Type} (ssl : OpenSsl Scalar Point Rng) {σ τ ω : Type}

/-- What the answer to an attempt comes to. -/
def Attempt.outcome (a : Attempt) : Except OracleError Bytes → Outcome
  | .error .noKey => .noKey
  | .error e => .failed e.text
  | .ok secret =>
    match openWithSecret ssl a.box secret with
    | .error e => .failed s!"open_with_secret: {e.text}"
    | .ok b => .opened (b.plaintext.getD [])

variable (ask : Attempt → ω → Except OracleError Bytes × ω)

/-- The state after some attempts. -/
def after (attempts : List Attempt) (s : ω) : ω := attempts.foldl (fun s a => (ask a s).2) s

/-- The reasons of the attempts that failed, in order. -/
def failures : List Attempt → ω → List String
  | [], _ => []
  | a :: attempts, s =>
    match a.outcome ssl (ask a s).1 with
    | .failed why => why :: failures attempts (ask a s).2
    | _ => failures attempts (ask a s).2

/-- No attempt of a list opens its box. -/
def NoneOpens (attempts : List Attempt) (s : ω) : Prop :=
  ∀ front a back, attempts = front ++ a :: back → ∀ plain,
    a.outcome ssl (ask a (after ask front s)).1 ≠ .opened plain

/-- Makes the attempts until one opens its box; else the last failure. -/
def walk : List Attempt → Option String → ω → Except (Option String) Bytes × ω
  | [], reason, s => (.error reason, s)
  | a :: attempts, reason, s =>
    match a.outcome ssl (ask a s).1 with
    | .opened plain => (.ok plain, (ask a s).2)
    | .failed why => walk attempts (some why) (ask a s).2
    | .noKey => walk attempts reason (ask a s).2

variable {ssl ask}

theorem noneOpens_nil (s : ω) : NoneOpens ssl ask [] s := by
  intro front a back h
  cases front <;> cases h

theorem noneOpens_cons {a : Attempt} {attempts : List Attempt} {s : ω} :
    NoneOpens ssl ask (a :: attempts) s ↔
      (∀ plain, a.outcome ssl (ask a s).1 ≠ .opened plain) ∧ NoneOpens ssl ask attempts (ask a s).2 := by
  constructor
  · intro h
    refine ⟨h [] a attempts rfl, fun front b back hb => ?_⟩
    exact h (a :: front) b back (by rw [hb, List.cons_append])
  · rintro ⟨hfirst, hrest⟩ (_ | ⟨b, front⟩) c back hb
    · obtain ⟨rfl, rfl⟩ := List.cons.inj hb
      exact hfirst
    · obtain ⟨rfl, hback⟩ := List.cons.inj hb
      exact hrest front c back hback

/-- A walk over attempts that open nothing ends with the last failure. -/
theorem walk_of_noneOpens {attempts : List Attempt} {s : ω} (h : NoneOpens ssl ask attempts s)
    (reason : Option String) :
    walk ssl ask attempts reason s =
      (.error ((failures ssl ask attempts s).getLast?.or reason), after ask attempts s) := by
  induction attempts generalizing reason s with
  | nil => rfl
  | cons a attempts ih =>
    obtain ⟨hfirst, hrest⟩ := noneOpens_cons.mp h
    rw [walk, failures]
    rcases houtcome : a.outcome ssl (ask a s).1 with _ | why | plain
    · dsimp only
      rw [ih hrest]
      rfl
    · dsimp only
      rw [ih hrest, List.getLast?_cons]
      rcases (failures ssl ask attempts (ask a s).2).getLast? with _ | last <;> rfl
    · exact absurd houtcome (hfirst plain)

/-- A walk ends at the first attempt that opens its box. -/
theorem walk_of_opens {front back : List Attempt} {a : Attempt} {s : ω} {plain : Bytes}
    (hfront : NoneOpens ssl ask front s)
    (hopens : a.outcome ssl (ask a (after ask front s)).1 = .opened plain) (reason : Option String) :
    walk ssl ask (front ++ a :: back) reason s = (.ok plain, after ask (front ++ [a]) s) := by
  induction front generalizing reason s with
  | nil =>
    rw [List.nil_append, walk]
    rw [after, List.foldl_nil] at hopens
    rw [hopens]
    rfl
  | cons b front ih =>
    obtain ⟨hfirst, hrest⟩ := noneOpens_cons.mp hfront
    rw [List.cons_append, walk]
    split
    · next plain' hopened => exact absurd hopened (hfirst plain')
    · exact ih hrest hopens _
    · exact ih hrest hopens _

variable (ssl ask) in
/-- A walk finds a box that opens, or there is none. -/
theorem noneOpens_or (attempts : List Attempt) (s : ω) :
    NoneOpens ssl ask attempts s ∨ ∃ front a back plain, attempts = front ++ a :: back ∧
      NoneOpens ssl ask front s ∧ a.outcome ssl (ask a (after ask front s)).1 = .opened plain := by
  induction attempts generalizing s with
  | nil => exact .inl (noneOpens_nil s)
  | cons a attempts ih =>
    by_cases hopens : ∃ plain, a.outcome ssl (ask a s).1 = .opened plain
    · obtain ⟨plain, hopens⟩ := hopens
      exact .inr ⟨[], a, attempts, plain, rfl, noneOpens_nil s, hopens⟩
    · have hfirst : ∀ plain, a.outcome ssl (ask a s).1 ≠ .opened plain :=
        fun plain hplain => hopens ⟨plain, hplain⟩
      rcases ih (ask a s).2 with hnone | ⟨front, b, back, plain, rfl, hfront, hb⟩
      · exact .inl (noneOpens_cons.mpr ⟨hfirst, hnone⟩)
      · exact .inr ⟨a :: front, b, back, plain, rfl, noneOpens_cons.mpr ⟨hfirst, hfront⟩, hb⟩

/-- An earlier reason is kept when no attempt has one. -/
theorem walk_reason (attempts : List Attempt) (reason : Option String) (s : ω) :
    walk ssl ask attempts reason s =
      ((walk ssl ask attempts none s).1.mapError (·.or reason), (walk ssl ask attempts none s).2) := by
  rcases noneOpens_or ssl ask attempts s with hnone | ⟨front, a, back, plain, rfl, hfront, ha⟩
  · rw [walk_of_noneOpens hnone, walk_of_noneOpens hnone, Option.or_none]
    rfl
  · rw [walk_of_opens hfront ha, walk_of_opens hfront ha]
    rfl

theorem walk_append (front back : List Attempt) (reason : Option String) (s : ω) :
    walk ssl ask (front ++ back) reason s =
      match walk ssl ask front reason s with
      | (.ok plain, s) => (.ok plain, s)
      | (.error reason, s) => walk ssl ask back reason s := by
  induction front generalizing reason s with
  | nil => rfl
  | cons a front ih =>
    rw [List.cons_append, walk, walk]
    split
    · rfl
    · exact ih _ _
    · exact ih _ _

end

/-! ## The attempts of an ebox -/

section

variable {Scalar Point Rng : Type} (ssl : OpenSsl Scalar Point Rng) {σ τ : Type}

/-- The attempts at the parts of a config with one oracle, from some part on. -/
def partAttempts (eks : List EphemeralKey) (config : Nat) (helper : Helper) :
    Nat → List EboxPart → List Attempt
  | _, [] => []
  | i, part :: parts =>
    match partQuery ssl eks part.pivBox with
    | none => partAttempts eks config helper (i + 1) parts
    | some query =>
      ⟨config, helper, i, part.pivBox, query⟩ :: partAttempts eks config helper (i + 1) parts

variable {ssl} in
theorem mem_partAttempts {eks : List EphemeralKey} {config : Nat} {helper : Helper} {i : Nat}
    {parts : List EboxPart} {a : Attempt} :
    a ∈ partAttempts ssl eks config helper i parts ↔ a.config = config ∧ a.helper = helper ∧
      i ≤ a.part ∧ ∃ part, parts[a.part - i]? = some part ∧ part.pivBox = a.box ∧
        partQuery ssl eks part.pivBox = some a.query := by
  induction parts generalizing i with
  | nil => simp [partAttempts]
  | cons part parts ih =>
    -- the attempts at the parts behind the first one
    have hlater : a ∈ partAttempts ssl eks config helper (i + 1) parts ↔ a.config = config ∧
        a.helper = helper ∧ i < a.part ∧ ∃ q, (part :: parts)[a.part - i]? = some q ∧
          q.pivBox = a.box ∧ partQuery ssl eks q.pivBox = some a.query := by
      rw [ih]
      refine and_congr_right fun _ => and_congr_right fun _ => and_congr_right fun hlt => ?_
      have hsub : a.part - i = a.part - (i + 1) + 1 := by omega
      rw [hsub, List.getElem?_cons_succ]
    rw [partAttempts]
    split
    · next hquery =>
      rw [hlater]
      refine and_congr_right fun _ => and_congr_right fun _ => ?_
      constructor
      · rintro ⟨hlt, hq⟩
        exact ⟨by omega, hq⟩
      · rintro ⟨hle, q, hq, hbox, hquery'⟩
        refine ⟨?_, q, hq, hbox, hquery'⟩
        refine Nat.lt_of_le_of_ne hle fun heq => ?_
        rw [heq, Nat.sub_self, List.getElem?_cons_zero] at hq
        obtain rfl := Option.some.inj hq
        rw [hquery] at hquery'
        cases hquery'
    · next query hquery =>
      rw [List.mem_cons, hlater]
      constructor
      · rintro (rfl | ⟨hconfig, hhelper, hlt, hq⟩)
        · refine ⟨rfl, rfl, Nat.le_refl _, part, ?_, rfl, hquery⟩
          rw [Nat.sub_self, List.getElem?_cons_zero]
        · exact ⟨hconfig, hhelper, by omega, hq⟩
      · rintro ⟨hconfig, hhelper, hle, q, hq, hbox, hquery'⟩
        rcases Nat.lt_or_eq_of_le hle with hlt | heq
        · exact .inr ⟨hconfig, hhelper, hlt, q, hq, hbox, hquery'⟩
        · left
          rw [← heq, Nat.sub_self, List.getElem?_cons_zero] at hq
          obtain rfl := Option.some.inj hq
          rw [hquery] at hquery'
          obtain rfl := Option.some.inj hquery'
          obtain ⟨config', helper', part', box, query⟩ := a
          dsimp only at hconfig hhelper heq hbox
          subst hconfig hhelper heq hbox
          rfl

/-- The attempts at a config: first those with the agent. -/
def configAttempts (agent : Option (EcdhOracle σ)) (card : Option (EcdhOracle τ)) (ebox : Ebox)
    (config : Nat) : List Attempt :=
  match ebox.configs[config]? with
  | none => []
  | some c =>
    (if agent.isSome then partAttempts ssl ebox.ephemeralKeys config .agent 0 c.parts else []) ++
      if card.isSome then partAttempts ssl ebox.ephemeralKeys config .card 0 c.parts else []

/-- All attempts at an ebox. -/
def attempts (agent : Option (EcdhOracle σ)) (card : Option (EcdhOracle τ)) (ebox : Ebox) :
    List Attempt :=
  (primaryIndices ebox).flatMap (configAttempts ssl agent card ebox)

/-- Puts the query of an attempt to its oracle. -/
def askHelper (agent : Option (EcdhOracle σ)) (card : Option (EcdhOracle τ)) (a : Attempt) (s : σ × τ) :
    Except OracleError Bytes × (σ × τ) :=
  match a.helper with
  | .agent => match agent with
    | none => (.error .noKey, s)
    | some oracle =>
      let (answer, s₁) := oracle.ecdh s.1 a.query.1 a.query.2
      (answer, (s₁, s.2))
  | .card => match card with
    | none => (.error .noKey, s)
    | some oracle =>
      let (answer, s₂) := oracle.ecdh s.2 a.query.1 a.query.2
      (answer, (s.1, s₂))

/-- Puts the query of an attempt to the one oracle there is. -/
def askOne (oracle : EcdhOracle σ) (a : Attempt) (s : σ) : Except OracleError Bytes × σ :=
  oracle.ecdh s a.query.1 a.query.2

/-- No part of a list was opened. -/
def Closed (parts : List EboxPart) : Prop := ∀ part ∈ parts, part.pivBox.plaintext = none

/-- An ebox that was just read. -/
def Ebox.Fresh (e : Ebox) : Prop := e.key = none ∧ ∀ c ∈ e.configs, Closed c.parts

variable {ssl}

/-- A part is tried as its attempt is. -/
theorem tryPart_of_query {eks : List EphemeralKey} {part : EboxPart} {a : Attempt}
    (hquery : partQuery ssl eks part.pivBox = some a.query) (hbox : a.box = part.pivBox)
    (oracle : EcdhOracle σ) (s : σ) :
    tryPart ssl oracle eks part s =
      match a.outcome ssl (askOne oracle a s).1 with
      | .noKey => (.skipped, (askOne oracle a s).2)
      | .failed why => (.failed why, (askOne oracle a s).2)
      | .opened plain =>
        (.opened { part with pivBox := { part.pivBox with plaintext := some plain } },
          (askOne oracle a s).2) := by
  rw [tryPart, hquery, askOne]
  dsimp only
  rcases oracle.ecdh s a.query.1 a.query.2 with ⟨e | secret, s'⟩
  · cases e <;> rfl
  · simp only [Attempt.outcome, hbox]
    rcases hopen : openWithSecret ssl part.pivBox secret with e | b
    · rfl
    · obtain ⟨plain, -, rfl⟩ := openWithSecret_ok.mp hopen
      rfl

/-- What trying some parts came to is what a walk came to: the key is that of the part that was
opened, and else nothing changed. -/
def Mirrors (parts : List EboxPart) (out : PartsOutcome × σ) : Except (Option String) Bytes × σ → Prop
  | (.ok plain, s) => out.1.anyOpened = true ∧ takeKey out.1.parts = some (plain, parts) ∧ out.2 = s
  | (.error why, s) => out = (⟨parts, false, why⟩, s)

theorem Mirrors.cons {part : EboxPart} {parts : List EboxPart} {out : PartsOutcome × σ}
    {result : Except (Option String) Bytes × σ} (hpart : part.pivBox.plaintext = none)
    (h : Mirrors parts out result) :
    Mirrors (part :: parts) (⟨part :: out.1.parts, out.1.anyOpened, out.1.reason⟩, out.2) result := by
  rcases result with ⟨why | plain, s⟩
  · obtain rfl : out = _ := h
    rfl
  · obtain ⟨hopened, htake, rfl⟩ := h
    refine ⟨hopened, ?_, rfl⟩
    simp only [takeKey, hpart, htake]
    rfl

variable (ssl) in
/-- Trying the parts of a config is a walk. -/
theorem mirrors_tryParts (oracle : EcdhOracle σ) (eks : List EphemeralKey) (config : Nat) (helper : Helper)
    {parts : List EboxPart} (h : Closed parts) (i : Nat) (reason : Option String) (s : σ) :
    Mirrors parts (tryParts ssl oracle eks parts reason s)
      (walk ssl (askOne oracle) (partAttempts ssl eks config helper i parts) reason s) := by
  induction parts generalizing i reason s with
  | nil => rfl
  | cons part parts ih =>
    have hpart : part.pivBox.plaintext = none := h part List.mem_cons_self
    have hparts : Closed parts := fun p hp => h p (List.mem_cons_of_mem _ hp)
    rw [partAttempts, tryParts]
    rcases hquery : partQuery ssl eks part.pivBox with _ | query
    · have hskip : tryPart ssl oracle eks part s = (.skipped, s) := by
        rw [tryPart, hquery]
      rw [hskip]
      exact (ih hparts _ _ _).cons hpart
    · have htry := tryPart_of_query (a := ⟨config, helper, i, part.pivBox, query⟩) hquery rfl oracle s
      rw [htry, walk]
      rcases Attempt.outcome ssl ⟨config, helper, i, part.pivBox, query⟩
        (askOne oracle ⟨config, helper, i, part.pivBox, query⟩ s).1 with _ | why | plain
      · exact (ih hparts _ _ _).cons hpart
      · exact (ih hparts _ _ _).cons hpart
      · refine ⟨rfl, ?_, rfl⟩
        simp only [takeKey]
        have hsame : { part with pivBox := { part.pivBox with plaintext := none } } = part := by
          rw [← hpart]
        rw [hsame]

/-- What an unlock returns when a walk has come to something. -/
def unlocked (ebox : Ebox) (s : σ) : Except (Option String) Bytes → Except Fault Unit × Ebox × σ
  | .ok plain => (.ok (), { ebox with key := some plain }, s)
  | .error why => (.error (.error (.unlockFailed why)), ebox, s)

theorem tryUnlockWithOracle_eq {ebox : Ebox} (h : ebox.Fresh) {config : Nat} {c : EboxConfig}
    (hc : ebox.configs[config]? = some c) (oracle : EcdhOracle σ) (helper : Helper) (s : σ) :
    tryUnlockWithOracle ssl oracle ebox config s =
      unlocked ebox
        (walk ssl (askOne oracle) (partAttempts ssl ebox.ephemeralKeys config helper 0 c.parts) none s).2
        (walk ssl (askOne oracle) (partAttempts ssl ebox.ephemeralKeys config helper 0 c.parts) none s).1 := by
  have hset : ∀ {parts}, parts = c.parts → ebox.configs.set config { c with parts } = ebox.configs := by
    rintro parts rfl
    obtain ⟨hlt, rfl⟩ := List.getElem?_eq_some_iff.mp hc
    exact List.set_getElem_self hlt
  have hclosed : Closed c.parts := h.2 c (List.mem_of_getElem? hc)
  have hmirror := mirrors_tryParts ssl oracle ebox.ephemeralKeys config helper hclosed 0 none s
  rw [tryUnlockWithOracle, hc]
  dsimp only
  generalize walk ssl (askOne oracle) (partAttempts ssl ebox.ephemeralKeys config helper 0 c.parts) none s
    = result at hmirror ⊢
  generalize tryParts ssl oracle ebox.ephemeralKeys c.parts none s = out at hmirror ⊢
  rcases result with ⟨why | plain, s'⟩
  · obtain rfl : out = _ := hmirror
    dsimp only
    rw [hset rfl]
    rfl
  · obtain ⟨hopened, htake, rfl⟩ := hmirror
    have hlt : config < ebox.configs.length := (List.getElem?_eq_some_iff.mp hc).1
    have hunlock : Ebox.unlock { ebox with configs := ebox.configs.set config { c with parts := out.1.parts } }
        config = .ok { ebox with key := some plain } := by
      have hkey : ¬ ebox.key.isSome = true := by
        rw [h.1]
        exact nofun
      rw [Ebox.unlock, if_neg hkey]
      dsimp only
      rw [List.getElem?_set_self hlt]
      dsimp only
      rw [htake]
      dsimp only
      rw [List.set_set, hset rfl]
    rw [if_pos hopened, hunlock]
    rfl

/-- A walk of one helper leaves the other one alone. -/
theorem walk_agent {agent : EcdhOracle σ} {card : Option (EcdhOracle τ)} {as : List Attempt}
    (h : ∀ a ∈ as, a.helper = .agent) (reason : Option String) (s : σ) (t : τ) :
    walk ssl (askHelper (some agent) card) as reason (s, t) =
      ((walk ssl (askOne agent) as reason s).1, ((walk ssl (askOne agent) as reason s).2, t)) := by
  induction as generalizing reason s with
  | nil => rfl
  | cons a as ih =>
    have hask : askHelper (some agent) card a (s, t) =
        ((askOne agent a s).1, ((askOne agent a s).2, t)) := by
      simp only [askHelper, h a List.mem_cons_self]
      rfl
    have hrest := fun b hb => h b (List.mem_cons_of_mem a hb)
    rw [walk, walk, hask]
    dsimp only
    rcases a.outcome ssl (askOne agent a s).1 with _ | why | plain
    · exact ih hrest _ _
    · exact ih hrest _ _
    · rfl

theorem walk_card {agent : Option (EcdhOracle σ)} {card : EcdhOracle τ} {as : List Attempt}
    (h : ∀ a ∈ as, a.helper = .card) (reason : Option String) (s : σ) (t : τ) :
    walk ssl (askHelper agent (some card)) as reason (s, t) =
      ((walk ssl (askOne card) as reason t).1, (s, (walk ssl (askOne card) as reason t).2)) := by
  induction as generalizing reason t with
  | nil => rfl
  | cons a as ih =>
    have hask : askHelper agent (some card) a (s, t) =
        ((askOne card a t).1, (s, (askOne card a t).2)) := by
      simp only [askHelper, h a List.mem_cons_self]
      rfl
    have hrest := fun b hb => h b (List.mem_cons_of_mem a hb)
    rw [walk, walk, hask]
    dsimp only
    rcases a.outcome ssl (askOne card a t).1 with _ | why | plain
    · exact ih hrest _ _
    · exact ih hrest _ _
    · rfl

theorem helper_of_mem_partAttempts {eks : List EphemeralKey} {config : Nat} {helper : Helper} {i : Nat}
    {parts : List EboxPart} {a : Attempt} (h : a ∈ partAttempts ssl eks config helper i parts) :
    a.helper = helper := by
  induction parts generalizing i with
  | nil => cases h
  | cons part parts ih =>
    rw [partAttempts] at h
    split at h
    · exact ih h
    · rcases List.mem_cons.mp h with rfl | h
      · rfl
      · exact ih h

/-- The reason that an attempt at a config leaves. -/
theorem noteReason_unlockFailed (reason why : Option String) :
    noteReason reason (.error (.unlockFailed why)) = why.or reason := by
  cases why <;> rfl

/-- What an attempt at a config returns when a walk has come to something. -/
def Attempted (ebox : Ebox) (out : Except Fault Unit × Ebox × Option String × σ) (s : σ) :
    Except (Option String) Bytes → Prop
  | .ok plain => ∃ reason, out = (.ok (), { ebox with key := some plain }, reason, s)
  | .error why => ∃ e, out = (.error e, ebox, why, s)

theorem attempted_of_oracle {ebox : Ebox} (h : ebox.Fresh) {config : Nat} {c : EboxConfig}
    (hc : ebox.configs[config]? = some c) (oracle : EcdhOracle σ) (helper : Helper)
    (reason : Option String) (s : σ) :
    Attempted ebox (attempt ssl (some oracle) ebox config reason s)
      (walk ssl (askOne oracle) (partAttempts ssl ebox.ephemeralKeys config helper 0 c.parts) reason s).2
      (walk ssl (askOne oracle) (partAttempts ssl ebox.ephemeralKeys config helper 0 c.parts)
        reason s).1 := by
  rw [attempt, tryUnlockWithOracle_eq h hc oracle helper, walk_reason _ reason]
  rcases walk ssl (askOne oracle) (partAttempts ssl ebox.ephemeralKeys config helper 0 c.parts) none s
    with ⟨why | plain, s'⟩
  · refine ⟨.error (.unlockFailed why), ?_⟩
    dsimp only
    rw [← noteReason_unlockFailed]
    rfl
  · exact ⟨reason, rfl⟩

variable (ssl) in
/-- An attempt at a config with the agent is a walk. -/
theorem attempted_agent {ebox : Ebox} (h : ebox.Fresh) {config : Nat} {c : EboxConfig}
    (hc : ebox.configs[config]? = some c) (agent : Option (EcdhOracle σ)) (card : Option (EcdhOracle τ))
    (reason : Option String) (s : σ) (t : τ) :
    ∃ result s', walk ssl (askHelper agent card)
        (if agent.isSome then partAttempts ssl ebox.ephemeralKeys config .agent 0 c.parts else [])
        reason (s, t) = (result, (s', t)) ∧
      Attempted ebox (attempt ssl agent ebox config reason s) s' result := by
  cases agent with
  | none => exact ⟨.error reason, s, rfl, _, rfl⟩
  | some oracle =>
    exact ⟨_, _, walk_agent (fun a ha => helper_of_mem_partAttempts ha) reason s t,
      attempted_of_oracle h hc oracle .agent reason s⟩

variable (ssl) in
theorem attempted_card {ebox : Ebox} (h : ebox.Fresh) {config : Nat} {c : EboxConfig}
    (hc : ebox.configs[config]? = some c) (agent : Option (EcdhOracle σ)) (card : Option (EcdhOracle τ))
    (reason : Option String) (s : σ) (t : τ) :
    ∃ result t', walk ssl (askHelper agent card)
        (if card.isSome then partAttempts ssl ebox.ephemeralKeys config .card 0 c.parts else [])
        reason (s, t) = (result, (s, t')) ∧
      Attempted ebox (attempt ssl card ebox config reason t) t' result := by
  cases card with
  | none => exact ⟨.error reason, t, rfl, _, rfl⟩
  | some oracle =>
    exact ⟨_, _, walk_card (fun a ha => helper_of_mem_partAttempts ha) reason s t,
      attempted_of_oracle h hc oracle .card reason t⟩

/-- What unlocking an ebox returns when a walk has come to something. -/
def unlockedBy (ebox : Ebox) : Except (Option String) Bytes × (σ × τ) → Except BoxError Unit × Ebox × σ × τ
  | (.ok plain, s) => (.ok (), { ebox with key := some plain }, s.1, s.2)
  | (.error why, s) => (.error (.unlockFailed why), ebox, s.1, s.2)

/-- The loop over the configs is a walk. -/
theorem unlockLoop_eq {ebox : Ebox} (h : ebox.Fresh) (agent : Option (EcdhOracle σ))
    (card : Option (EcdhOracle τ)) {indices : List Nat}
    (hindices : ∀ i ∈ indices, ∃ c, ebox.configs[i]? = some c) (reason : Option String) (s : σ) (t : τ) :
    unlockLoop ssl agent card indices ebox reason s t =
      unlockedBy ebox (walk ssl (askHelper agent card)
        (indices.flatMap (configAttempts ssl agent card ebox)) reason (s, t)) := by
  induction indices generalizing reason s t with
  | nil => rfl
  | cons i indices ih =>
    obtain ⟨c, hc⟩ := hindices i List.mem_cons_self
    have hrest := fun j hj => hindices j (List.mem_cons_of_mem i hj)
    have hconfig : configAttempts ssl agent card ebox i =
        (if agent.isSome then partAttempts ssl ebox.ephemeralKeys i .agent 0 c.parts else []) ++
          if card.isSome then partAttempts ssl ebox.ephemeralKeys i .card 0 c.parts else [] := by
      rw [configAttempts, hc]
    rw [unlockLoop, List.flatMap_cons, hconfig, List.append_assoc, walk_append]
    obtain ⟨result, s', hwalk, hout⟩ := attempted_agent ssl h hc agent card reason s t
    rw [hwalk]
    rcases result with why | plain
    · obtain ⟨e, hout⟩ := hout
      rw [hout]
      dsimp only
      rw [walk_append]
      obtain ⟨result, t', hwalk, hout⟩ := attempted_card ssl h hc agent card why s' t
      rw [hwalk]
      rcases result with why | plain
      · obtain ⟨e, hout⟩ := hout
        rw [hout]
        exact ih hrest _ _ _
      · obtain ⟨reason', hout⟩ := hout
        rw [hout]
        rfl
    · obtain ⟨reason', hout⟩ := hout
      rw [hout]
      rfl

/-- The message of an ebox that has RECOVERY configs only. -/
def recoveryOnly (ebox : Ebox) : Option String :=
  if ebox.configs ≠ [] ∧ ∀ c ∈ ebox.configs, c.configType = .recovery then
    some "ebox has only RECOVERY config(s), which piggy cannot unlock"
  else none

theorem primaryIndices_spec {ebox : Ebox} {i : Nat} :
    i ∈ primaryIndices ebox ↔ ∃ c, ebox.configs[i]? = some c ∧ c.configType = .primary := by
  rw [primaryIndices, List.mem_filter, List.mem_range]
  constructor
  · rintro ⟨hlt, hany⟩
    rw [List.getElem?_eq_getElem hlt] at hany ⊢
    exact ⟨_, rfl, by simpa using hany⟩
  · rintro ⟨c, hc, htype⟩
    refine ⟨(List.getElem?_eq_some_iff.mp hc).1, ?_⟩
    rw [hc]
    simpa using htype

theorem unlockEbox_walk {ebox : Ebox} (h : ebox.Fresh) (agent : Option (EcdhOracle σ))
    (card : Option (EcdhOracle τ)) (s : σ) (t : τ) :
    unlockEbox ssl agent card ebox s t =
      unlockedBy ebox (walk ssl (askHelper agent card) (attempts ssl agent card ebox)
        (recoveryOnly ebox) (s, t)) := by
  have hindices : ∀ i ∈ primaryIndices ebox, ∃ c, ebox.configs[i]? = some c := by
    intro i hi
    obtain ⟨c, hc, -⟩ := primaryIndices_spec.mp hi
    exact ⟨c, hc⟩
  have hreason : (if (primaryIndices ebox).isEmpty && ebox.configs.any fun c => c.configType = .recovery then
      some "ebox has only RECOVERY config(s), which piggy cannot unlock" else none) = recoveryOnly ebox := by
    rw [recoveryOnly]
    refine if_congr ?_ rfl rfl
    rw [Bool.and_eq_true, List.isEmpty_iff, List.any_eq_true]
    constructor
    · rintro ⟨hnone, c, hc, -⟩
      refine ⟨List.ne_nil_of_mem hc, fun d hd => ?_⟩
      rcases htype : d.configType with _ | _
      · obtain ⟨i, hi⟩ := List.mem_iff_getElem?.mp hd
        have hmem := primaryIndices_spec.mpr ⟨d, hi, htype⟩
        rw [hnone] at hmem
        cases hmem
      · rfl
    · rintro ⟨hne, hall⟩
      obtain ⟨c, hc⟩ := List.exists_mem_of_ne_nil _ hne
      refine ⟨List.eq_nil_iff_forall_not_mem.mpr fun i hi => ?_, c, hc, by simpa using hall c hc⟩
      obtain ⟨d, hd, htype⟩ := primaryIndices_spec.mp hi
      rw [hall d (List.mem_of_getElem? hd)] at htype
      cases htype
  rw [unlockEbox, hreason]
  exact unlockLoop_eq h agent card hindices _ s t

/-! ## The order of the attempts -/

/-- The order by config, oracle and part. -/
def Attempt.Before (a b : Attempt) : Prop :=
  a.config < b.config ∨ a.config = b.config ∧
    (a.helper = .agent ∧ b.helper = .card ∨ a.helper = b.helper ∧ a.part < b.part)

/-- The attempts that are made: at the parts of PRIMARY configs that have a query, with the oracles
that are there. -/
def Attempt.Due (ssl : OpenSsl Scalar Point Rng) (agent : Option (EcdhOracle σ))
    (card : Option (EcdhOracle τ)) (ebox : Ebox) (a : Attempt) : Prop :=
  (a.helper = .agent → agent.isSome = true) ∧ (a.helper = .card → card.isSome = true) ∧
    ∃ c part, ebox.configs[a.config]? = some c ∧ c.configType = .primary ∧
      c.parts[a.part]? = some part ∧ part.pivBox = a.box ∧
      partQuery ssl ebox.ephemeralKeys part.pivBox = some a.query

theorem pairwise_partAttempts (eks : List EphemeralKey) (config : Nat) (helper : Helper) (i : Nat)
    (parts : List EboxPart) : (partAttempts ssl eks config helper i parts).Pairwise Attempt.Before := by
  induction parts generalizing i with
  | nil => exact .nil
  | cons part parts ih =>
    rw [partAttempts]
    split
    · exact ih _
    · refine List.pairwise_cons.mpr ⟨fun b hb => ?_, ih _⟩
      obtain ⟨hconfig, hhelper, hle, -⟩ := mem_partAttempts.mp hb
      exact .inr ⟨hconfig.symm, .inr ⟨hhelper.symm, hle⟩⟩

theorem mem_configAttempts {agent : Option (EcdhOracle σ)} {card : Option (EcdhOracle τ)} {ebox : Ebox}
    {config : Nat} {a : Attempt} (h : a ∈ configAttempts ssl agent card ebox config) :
    a.config = config := by
  rw [configAttempts] at h
  split at h
  · cases h
  · rcases List.mem_append.mp h with h | h
    · split at h
      · exact (mem_partAttempts.mp h).1
      · cases h
    · split at h
      · exact (mem_partAttempts.mp h).1
      · cases h

/-- The attempts come in order. -/
theorem pairwise_attempts (agent : Option (EcdhOracle σ)) (card : Option (EcdhOracle τ)) (ebox : Ebox) :
    (attempts ssl agent card ebox).Pairwise Attempt.Before := by
  have hsorted : (primaryIndices ebox).Pairwise (· < ·) := List.pairwise_lt_range.filter _
  refine List.pairwise_flatMap.mpr ⟨fun i _ => ?_, hsorted.imp fun {i j} hlt a ha b hb => ?_⟩
  · rw [configAttempts]
    split
    · exact .nil
    · refine List.pairwise_append.mpr ⟨?_, ?_, ?_⟩
      · split
        · exact pairwise_partAttempts ..
        · exact .nil
      · split
        · exact pairwise_partAttempts ..
        · exact .nil
      · intro a ha b hb
        split at ha
        · split at hb
          · obtain ⟨hconfig, hhelper, -⟩ := mem_partAttempts.mp ha
            obtain ⟨hconfig', hhelper', -⟩ := mem_partAttempts.mp hb
            exact .inr ⟨hconfig.trans hconfig'.symm, .inl ⟨hhelper, hhelper'⟩⟩
          · cases hb
        · cases ha
  · refine .inl ?_
    rw [mem_configAttempts ha, mem_configAttempts hb]
    exact hlt

theorem mem_attempts {agent : Option (EcdhOracle σ)} {card : Option (EcdhOracle τ)} {ebox : Ebox}
    {a : Attempt} : a ∈ attempts ssl agent card ebox ↔ a.Due ssl agent card ebox := by
  rw [attempts, List.mem_flatMap]
  constructor
  · rintro ⟨i, hi, ha⟩
    obtain ⟨c, hc, htype⟩ := primaryIndices_spec.mp hi
    rw [configAttempts, hc] at ha
    rcases List.mem_append.mp ha with ha | ha
    · split at ha
      · next hagent =>
        obtain ⟨rfl, hhelper, -, part, hpart, hbox, hquery⟩ := mem_partAttempts.mp ha
        rw [Nat.sub_zero] at hpart
        refine ⟨fun _ => hagent, fun hcard => ?_, c, part, hc, htype, hpart, hbox, hquery⟩
        rw [hhelper] at hcard
        cases hcard
      · cases ha
    · split at ha
      · next hcard =>
        obtain ⟨rfl, hhelper, -, part, hpart, hbox, hquery⟩ := mem_partAttempts.mp ha
        rw [Nat.sub_zero] at hpart
        refine ⟨fun hagent => ?_, fun _ => hcard, c, part, hc, htype, hpart, hbox, hquery⟩
        rw [hhelper] at hagent
        cases hagent
      · cases ha
  · rintro ⟨hagent, hcard, c, part, hc, htype, hpart, hbox, hquery⟩
    refine ⟨a.config, primaryIndices_spec.mpr ⟨c, hc, htype⟩, ?_⟩
    rw [configAttempts, hc]
    have hmem : a ∈ partAttempts ssl ebox.ephemeralKeys a.config a.helper 0 c.parts :=
      mem_partAttempts.mpr ⟨rfl, rfl, Nat.zero_le _, part, by rwa [Nat.sub_zero], hbox, hquery⟩
    rcases hhelper : a.helper with _ | _
    · rw [hhelper] at hmem
      refine List.mem_append_left _ ?_
      rwa [if_pos (hagent hhelper)]
    · rw [hhelper] at hmem
      refine List.mem_append_right _ ?_
      rwa [if_pos (hcard hhelper)]

/-- An attempt opens its box when its oracle answers with a secret that opens it. -/
theorem outcome_opened {a : Attempt} {answer : Except OracleError Bytes} {plain : Bytes} :
    a.outcome ssl answer = .opened plain ↔ ∃ secret, answer = .ok secret ∧ OpensTo ssl a.box secret plain := by
  rcases answer with e | secret
  · cases e <;> simp [Attempt.outcome]
  · rw [Attempt.outcome]
    constructor
    · intro h
      rcases hopen : openWithSecret ssl a.box secret with e | b
      · rw [hopen] at h
        cases h
      · rw [hopen] at h
        obtain ⟨plain', hopens, rfl⟩ := openWithSecret_ok.mp hopen
        cases h
        exact ⟨secret, rfl, hopens⟩
    · rintro ⟨secret', hsecret, hopens⟩
      cases hsecret
      rw [openWithSecret_ok.mpr ⟨plain, hopens, rfl⟩]
      rfl

variable (ssl) in
/-- An attempt opens its box after some others were made. -/
def OpensAfter (agent : Option (EcdhOracle σ)) (card : Option (EcdhOracle τ)) (front : List Attempt)
    (a : Attempt) (s : σ × τ) (plain : Bytes) : Prop :=
  ∃ secret, (askHelper agent card a (after (askHelper agent card) front s)).1 = .ok secret ∧
    OpensTo ssl a.box secret plain

/-- An ebox that was just read is unlocked by the first attempt that opens its box, and no attempt is
made after it. If none does, the last failure is the reason, and the ebox is as it was. -/
theorem unlockEbox_spec {data : Bytes} {ebox : Ebox} (h : Ebox.fromBytes data = .ok ebox)
    (agent : Option (EcdhOracle σ)) (card : Option (EcdhOracle τ)) (s : σ) (t : τ) :
    ((attempts ssl agent card ebox).Pairwise Attempt.Before ∧
      ∀ a, a ∈ attempts ssl agent card ebox ↔ a.Due ssl agent card ebox) ∧
    ((unlockEbox ssl agent card ebox s t).1 = .ok () ↔ ∃ front a back plain,
      attempts ssl agent card ebox = front ++ a :: back ∧
        OpensAfter ssl agent card front a (s, t) plain) ∧
    (∀ front a back plain, attempts ssl agent card ebox = front ++ a :: back →
      NoneOpens ssl (askHelper agent card) front (s, t) →
      OpensAfter ssl agent card front a (s, t) plain →
      unlockEbox ssl agent card ebox s t =
        (.ok (), { ebox with key := some plain }, after (askHelper agent card) (front ++ [a]) (s, t))) ∧
    (NoneOpens ssl (askHelper agent card) (attempts ssl agent card ebox) (s, t) →
      unlockEbox ssl agent card ebox s t =
        (.error (.unlockFailed ((failures ssl (askHelper agent card) (attempts ssl agent card ebox)
            (s, t)).getLast?.or (recoveryOnly ebox))),
          ebox, after (askHelper agent card) (attempts ssl agent card ebox) (s, t))) := by
  have hfresh : ebox.Fresh := Ebox.fromBytes_locked h
  have hfirst : ∀ front a back plain, attempts ssl agent card ebox = front ++ a :: back →
      NoneOpens ssl (askHelper agent card) front (s, t) →
      OpensAfter ssl agent card front a (s, t) plain →
      unlockEbox ssl agent card ebox s t =
        (.ok (), { ebox with key := some plain }, after (askHelper agent card) (front ++ [a]) (s, t)) := by
    intro front a back plain hattempts hfront hopens
    rw [unlockEbox_walk hfresh, hattempts, walk_of_opens hfront (outcome_opened.mpr hopens)]
    rfl
  have hnone : NoneOpens ssl (askHelper agent card) (attempts ssl agent card ebox) (s, t) →
      unlockEbox ssl agent card ebox s t =
        (.error (.unlockFailed ((failures ssl (askHelper agent card) (attempts ssl agent card ebox)
            (s, t)).getLast?.or (recoveryOnly ebox))),
          ebox, after (askHelper agent card) (attempts ssl agent card ebox) (s, t)) := by
    intro hnone
    rw [unlockEbox_walk hfresh, walk_of_noneOpens hnone]
    rfl
  refine ⟨⟨pairwise_attempts agent card ebox, fun a => mem_attempts⟩, ?_, hfirst, hnone⟩
  constructor
  · intro hok
    rcases noneOpens_or ssl (askHelper agent card) (attempts ssl agent card ebox) (s, t) with
      hclosed | ⟨front, a, back, plain, hattempts, -, hopens⟩
    · rw [hnone hclosed] at hok
      cases hok
    · exact ⟨front, a, back, plain, hattempts, outcome_opened.mp hopens⟩
  · rintro ⟨front, a, back, plain, hattempts, hopens⟩
    rcases noneOpens_or ssl (askHelper agent card) (attempts ssl agent card ebox) (s, t) with
      hclosed | ⟨front', a', back', plain', hattempts', hfront, hopens'⟩
    · exact absurd (outcome_opened.mpr hopens) (hclosed front a back hattempts plain)
    · rw [hfirst front' a' back' plain' hattempts' hfront (outcome_opened.mp hopens')]

end

/-- An agent that is gone. -/
def goneAgent : EcdhOracle Nat := ⟨fun calls _ _ => (.error (.transport "agent gone"), calls + 1)⟩

/-- The ebox of the sample stream, as it is read. -/
def sampleRead : Ebox := sampleStream.ebox.asRead

/-- The attempt at the one part of that ebox, with an oracle. -/
def sampleAttempt (helper : Helper) : Attempt where
  config := 0
  helper := helper
  part := 0
  box := sampleBox.asRead
  query := (ecPointToSshPubkeyBlob .nistP256 (OpenSsl.samplePoint .uncompressed 5),
    ecPointToSshPubkeyBlob .nistP256 (OpenSsl.samplePoint .uncompressed 3))

/-- An ebox is read and the agent is asked first; the card, asked next, opens it. -/
theorem unlockEbox_spec_gone :
    Ebox.fromBytes sampleStream.ebox.encoding = .ok sampleRead ∧
    attempts OpenSsl.sample (some goneAgent) (some sampleCard) sampleRead =
      [sampleAttempt .agent, sampleAttempt .card] ∧
    unlockEbox OpenSsl.sample (some goneAgent) (some sampleCard) sampleRead 0 () =
      (.ok (), { sampleRead with key := some (List.replicate 32 0) }, 1, ()) := by
  have hdata : Ebox.fromBytes sampleStream.ebox.encoding = .ok sampleRead := by decide +kernel
  have hattempts : attempts OpenSsl.sample (some goneAgent) (some sampleCard) sampleRead =
      [sampleAttempt .agent] ++ sampleAttempt .card :: [] := rfl
  refine ⟨hdata, hattempts, ?_⟩
  refine (unlockEbox_spec hdata (some goneAgent) (some sampleCard) 0 ()).2.2.1 _ _ _ _ hattempts
    ?_ ?_
  · intro front a back hsplit plain hopened
    rcases List.singleton_eq_append_iff.mp hsplit with ⟨rfl, hone⟩ | ⟨-, hnil⟩
    · cases hone
      cases hopened
    · cases hnil
  · refine ⟨[15], rfl, ?_⟩
    obtain ⟨plain, hopens, hbox⟩ := openWithSecret_ok.mp
      (rfl : openWithSecret OpenSsl.sample (sampleAttempt .card).box [15] = .ok
        { sampleBox.asRead with plaintext := some (List.replicate 32 0) })
    cases hbox
    exact hopens

end Piggy.Box
