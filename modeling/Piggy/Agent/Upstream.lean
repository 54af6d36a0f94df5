import Piggy.Agent.Unseen
import Piggy.Core.Handlers
import Piggy.Core.Merge

/-!
# The pool of upstream agents

Keys that are not served here are those of upstream agents. A listing asks them all at the same
time, offers each key once and remembers which upstream was the first to list it; a signature is
asked of that one. The map is shared, and a listing for another client may replace it at any time.
-/

namespace Piggy.Agent

open Piggy.Core Piggy.Box Piggy.Card Piggy.Markl

/-- A public key and its comment. -/
abbrev Identity := Bytes × String

/-- What an upstream listed, or why it did not. -/
abbrev Listed := Except String (List Identity)

/-- The upstream that serves a key. -/
abbrev KnownKeys := List (Bytes × Nat)

/-- What comes of asking an upstream for a signature. An error that it answered may be one of the
connection. -/
inductive SignReply where
  | connectFailed (e : String)
  | answered (reply : Except (String × Bool) (String × Bytes))
  | timedOut

/-- What the pool asks of the world. -/
inductive PoolOp where
  | agent (op : AgentOp)
  /-- Asks every upstream for its keys in a task of its own; the answer has the tasks as they
  ended. -/
  | listEach (upstreams : List String)
  | setKnownKeys (known : KnownKeys)
  | knownKey (publicKey : Bytes)
  | signOn (idx : Nat) (publicKey data : Bytes) (flags : UInt32)
  | now
  | sleep (duration : Nat)

/-- What the operations of the pool answer. -/
@[reducible]
def PoolAns : PoolOp → Type
  | .agent op => AgentAns op
  | .listEach _ => List (Option (Nat × Listed))
  | .setKnownKeys _ | .sleep _ => Unit
  | .knownKey _ => Option Nat
  | .signOn _ _ _ _ => SignReply
  | .now => Nat

/-- The programs of the pool. -/
abbrev PoolProg := Prog PoolOp PoolAns

/-- The upstreams by name, and how long an outage is waited out, in nanoseconds. -/
structure UpstreamPool where
  upstreams : List String
  outageGrace : Nat

/-! ## Listing -/

/-- The routing map and the identities of a listing. -/
structure Routed where
  known : KnownKeys
  identities : List Identity

/-- No key has been offered. -/
def Routed.empty : Routed := ⟨[], []⟩

/-- Offers an identity unless its key was offered before. -/
def offer (idx : Nat) (acc : Routed) (id : Identity) : Routed :=
  if (acc.known.lookup id.1).isSome then acc
  else ⟨acc.known ++ [(id.1, idx)], acc.identities ++ [id]⟩

/-- Offers what the upstreams listed, numbered from `idx` on. -/
def offerAll : Nat → List Listed → Routed → Routed
  | _, [], acc => acc
  | idx, .error _ :: rest, acc => offerAll (idx + 1) rest acc
  | idx, .ok ids :: rest, acc => offerAll (idx + 1) rest (ids.foldl (offer idx) acc)

/-- A task that failed is an upstream that failed. -/
def listedOrFailed (task : Option Listed) : Listed := task.getD (.error "upstream task failed")

/-- The listings of all upstreams, each in its place. -/
def listAllUpstreams (pool : UpstreamPool) : PoolProg (List Listed) := do
  let ended ← Prog.op (PoolOp.listEach pool.upstreams)
  pure ((gather pool.upstreams.length ended).map listedOrFailed)

/-- Why upstreams failed, with their names. -/
def failuresOf (pool : UpstreamPool) (listed : List Listed) : List String :=
  (listed.zip pool.upstreams).filterMap fun r =>
    match r.1 with
    | .error e => some s!"{r.2}: {e}"
    | .ok _ => none

/-- One pass over the upstreams, and the failures if all of them failed. -/
def listOnce (pool : UpstreamPool) : PoolProg (List Identity × Option (List String)) := do
  let listed ← listAllUpstreams pool
  let failures := failuresOf pool listed
  let allFailed := !listed.isEmpty && failures.length == listed.length
  let routed := offerAll 0 listed .empty
  let _ ← Prog.op (PoolOp.setKnownKeys routed.known)
  pure (routed.identities, if allFailed then some failures else none)

/-- The identities that the upstreams offer. -/
def listIdentities (pool : UpstreamPool) : PoolProg (List Identity) := do
  let (ids, _) ← listOnce pool
  pure ids

def firstBackoff : Nat := 100000000

def maxRedialBackoff : Nat := 1000000000

/-- Lists again until an upstream answers or the deadline is over; nothing if that takes more rounds
than given. -/
def redial (pool : UpstreamPool) (deadline : Nat) :
    Nat → Nat → PoolProg (Option (Except String (List Identity)))
  | 0, _ => pure none
  | rounds + 1, backoff => do
    let (ids, failures) ← listOnce pool
    match failures with
    | none => pure (some (.ok ids))
    | some failures => do
      let now ← Prog.op PoolOp.now
      if deadline ≤ now then
        pure (some (.error ("every upstream agent is unreachable: " ++ "; ".intercalate failures)))
      else do
        let _ ← Prog.op (PoolOp.sleep (min backoff (deadline - now)))
        redial pool deadline rounds (min (backoff * 2) maxRedialBackoff)

/-- The identities, or the outage when no upstream is back within the grace. -/
def listIdentitiesOrOutage (pool : UpstreamPool) :
    PoolProg (Option (Except String (List Identity))) := do
  let start ← Prog.op PoolOp.now
  -- A round sleeps for the first backoff at least, or up to the deadline.
  redial pool (start + pool.outageGrace) (pool.outageGrace / firstBackoff + 2) firstBackoff

/-- The keys that are served here, then those of the upstreams that are not. -/
def withUpstreams (native others : List Identity) : List Identity :=
  others.foldl (fun ids other =>
    if ids.any fun known => known.1 = other.1 then ids else ids ++ [other]) native

/-- The identities of the cards and of the upstreams. -/
def requestIdentitiesInner (pool : UpstreamPool) : PoolProg Answer := do
  let keys ← Prog.op (PoolOp.agent .servedKeys)
  let native := keys.map fun key => (key.publicKey, key.comment)
  if pool.upstreams.isEmpty then pure (.identities native)
  else if native.isEmpty then do
    match ← listIdentitiesOrOutage pool with
    | none => pure .pending
    | some (.error outage) => pure (.failure outage)
    | some (.ok others) => pure (.identities (withUpstreams native others))
  else do
    let others ← listIdentities pool
    pure (.identities (withUpstreams native others))

/-! ## Signing -/

/-- The name of an upstream. -/
def UpstreamPool.nameAt (pool : UpstreamPool) (idx : Nat) : String := pool.upstreams.getD idx ""

/-- One request for a signature. The flag of an error is set when the request never got through. -/
def signOn (pool : UpstreamPool) (idx : Nat) (publicKey data : Bytes) (flags : UInt32) :
    PoolProg (Except (String × Bool) (String × Bytes)) := do
  match ← Prog.op (PoolOp.signOn idx publicKey data flags) with
  | .connectFailed e => pure (.error (e, true))
  | .answered reply => pure reply
  | .timedOut => pure (.error (s!"upstream {pool.nameAt idx}: sign request timed out", false))

/-- Where a key is known to be, after one more listing if it is not known. -/
def knownOrListed (pool : UpstreamPool) (publicKey : Bytes) : PoolProg (Option Nat) := do
  match ← Prog.op (PoolOp.knownKey publicKey) with
  | some idx => pure (some idx)
  | none => do
    let _ ← listIdentities pool
    Prog.op (PoolOp.knownKey publicKey)

/-- Asks the upstream that listed the key, and once more behind a new listing. -/
def UpstreamPool.sign (pool : UpstreamPool) (publicKey data : Bytes) (flags : UInt32) :
    PoolProg (Except String (String × Bytes)) := do
  match ← knownOrListed pool publicKey with
  | none => pure (.error "no upstream agent holds the requested key")
  | some idx =>
    match ← signOn pool idx publicKey data flags with
    | .error (e, true) => do
      let _ ← listIdentities pool
      match ← Prog.op (PoolOp.knownKey publicKey) with
      | none => pure (.error e)
      | some idx => do
        let answer ← signOn pool idx publicKey data flags
        pure (answer.mapError Prod.fst)
    | answer => pure (answer.mapError Prod.fst)

/-- A request for a signature goes through the pool. -/
def onPool (pool : UpstreamPool) : (op : AgentOp) → PoolProg (AgentAns op)
  | .upstreamSign publicKey data flags => pool.sign publicKey data flags
  | op => Prog.op (PoolOp.agent op)

/-- The agent's answer to a sign request, with its pool. -/
def pooledSignInner (setup : AgentSetup) (pool : UpstreamPool) (rounds : Nat) (publicKey data : Bytes)
    (flags : UInt32) : PoolProg Answer :=
  (signInner { setup with hasUpstreams := !pool.upstreams.isEmpty } rounds publicKey data flags).handled
    (onPool pool)

/-! ## What a listing says -/

/-- An upstream listed a key. -/
def Lists (listed : List Listed) (publicKey : Bytes) (idx : Nat) : Prop :=
  ∃ ids, listed[idx]? = some (.ok ids) ∧ publicKey ∈ ids.map Prod.fst

/-- The first upstream that listed a key. -/
structure FirstToList (listed : List Listed) (publicKey : Bytes) (idx : Nat) : Prop where
  lists : Lists listed publicKey idx
  first : ∀ j, Lists listed publicKey j → idx ≤ j

/-- All that was listed, with the numbers of the upstreams. -/
def attributed : Nat → List Listed → List (Identity × Nat)
  | _, [] => []
  | idx, .error _ :: rest => attributed (idx + 1) rest
  | idx, .ok ids :: rest => ids.map (fun id => (id, idx)) ++ attributed (idx + 1) rest

theorem mem_attributed {idx : Nat} {listed : List Listed} {id : Identity} {j : Nat} :
    (id, j) ∈ attributed idx listed ↔
      ∃ i ids, listed[i]? = some (.ok ids) ∧ id ∈ ids ∧ j = idx + i := by
  induction listed generalizing idx with
  | nil =>
    refine iff_of_false List.not_mem_nil ?_
    rintro ⟨i, ids, hi, -⟩
    cases hi
  | cons r rest ih =>
    have hrest : (∃ i ids, (r :: rest)[i + 1]? = some (.ok ids) ∧ id ∈ ids ∧ j = idx + (i + 1)) ↔
        (id, j) ∈ attributed (idx + 1) rest := by
      rw [ih]
      simp only [List.getElem?_cons_succ, Nat.add_assoc, Nat.add_comm 1]
    have hsplit : (∃ i ids, (r :: rest)[i]? = some (.ok ids) ∧ id ∈ ids ∧ j = idx + i) ↔
        (∃ ids, r = .ok ids ∧ id ∈ ids ∧ j = idx) ∨ (id, j) ∈ attributed (idx + 1) rest := by
      rw [← hrest]
      constructor
      · rintro ⟨_ | i, ids, hi, hmem, hj⟩
        · exact .inl ⟨ids, Option.some.inj hi, hmem, hj⟩
        · exact .inr ⟨i, ids, hi, hmem, hj⟩
      · rintro (⟨ids, rfl, hmem, hj⟩ | ⟨i, ids, hi, hmem, hj⟩)
        · exact ⟨0, ids, rfl, hmem, hj⟩
        · exact ⟨i + 1, ids, hi, hmem, hj⟩
    rw [hsplit]
    cases r with
    | error e =>
      rw [attributed]
      refine ⟨.inr, fun h => h.resolve_left ?_⟩
      rintro ⟨ids, heq, -⟩
      cases heq
    | ok ids =>
      rw [attributed, List.mem_append, List.mem_map]
      refine or_congr_left ?_
      constructor
      · rintro ⟨_, hmem, heq⟩
        obtain ⟨rfl, rfl⟩ := Prod.mk.inj heq
        exact ⟨ids, rfl, hmem, rfl⟩
      · rintro ⟨_, heq, hmem, rfl⟩
        cases heq
        exact ⟨id, hmem, rfl⟩

theorem lists_iff {listed : List Listed} {publicKey : Bytes} {j : Nat} :
    Lists listed publicKey j ↔ ∃ x ∈ attributed 0 listed, x.1.1 = publicKey ∧ x.2 = j := by
  constructor
  · rintro ⟨ids, hj, hmem⟩
    obtain ⟨id, hid, rfl⟩ := List.mem_map.mp hmem
    exact ⟨(id, j), mem_attributed.mpr ⟨j, ids, hj, hid, (Nat.zero_add j).symm⟩, rfl, rfl⟩
  · rintro ⟨⟨id, _⟩, hx, rfl, rfl⟩
    obtain ⟨i, ids, hi, hid, rfl⟩ := mem_attributed.mp hx
    rw [Nat.zero_add]
    exact ⟨ids, hi, List.mem_map_of_mem hid⟩

/-- What was listed comes in the order of the upstreams. -/
theorem pairwise_attributed (idx : Nat) (listed : List Listed) :
    (attributed idx listed).Pairwise fun x y => x.2 ≤ y.2 := by
  induction listed generalizing idx with
  | nil => exact .nil
  | cons r rest ih =>
    cases r with
    | error e => exact ih (idx + 1)
    | ok ids =>
      rw [attributed, List.pairwise_append]
      refine ⟨?_, ih (idx + 1), ?_⟩
      · rw [List.pairwise_map]
        exact List.pairwise_of_forall fun _ _ => Nat.le_refl idx
      · rintro x hx ⟨id, j⟩ hy
        obtain ⟨_, _, rfl⟩ := List.mem_map.mp hx
        obtain ⟨i, -, -, -, rfl⟩ := mem_attributed.mp hy
        change idx ≤ idx + 1 + i
        omega

/-- The public key of something that was listed. -/
def attributedKey (x : Identity × Nat) : Bytes := x.1.1

/-- What is offered and known of items that are kept. -/
def Routed.ofKept (kept : List (Identity × Nat)) : Routed :=
  ⟨kept.map fun x => (x.1.1, x.2), kept.map Prod.fst⟩

theorem offer_ofKept (idx : Nat) (kept : List (Identity × Nat)) (id : Identity) :
    offer idx (.ofKept kept) id = .ofKept (keepFirst attributedKey kept (id, idx)) := by
  have hknown : ((Routed.ofKept kept).known.lookup id.1).isSome ↔ id.1 ∈ kept.map attributedKey := by
    rw [List.lookup_isSome_iff, List.mem_map]
    constructor
    · rintro ⟨_, hp, heq⟩
      obtain ⟨x, hx, rfl⟩ := List.mem_map.mp hp
      exact ⟨x, hx, (eq_of_beq heq).symm⟩
    · rintro ⟨x, hx, heq⟩
      exact ⟨(x.1.1, x.2), List.mem_map.mpr ⟨x, hx, rfl⟩, beq_iff_eq.mpr heq.symm⟩
  by_cases h : id.1 ∈ kept.map attributedKey
  · rw [offer, if_pos (hknown.mpr h), keepFirst_of_mem attributedKey h]
  · rw [offer, if_neg (fun hsome => h (hknown.mp hsome)), keepFirst_of_notMem attributedKey h]
    simp [Routed.ofKept]

theorem foldl_offer (idx : Nat) (ids : List Identity) (kept : List (Identity × Nat)) :
    ids.foldl (offer idx) (.ofKept kept) =
      .ofKept ((ids.map fun id => (id, idx)).foldl (keepFirst attributedKey) kept) := by
  induction ids generalizing kept with
  | nil => rfl
  | cons id ids ih =>
    rw [List.foldl_cons, offer_ofKept, ih]
    rfl

/-- The two loops of a listing keep the first item of each key. -/
theorem offerAll_ofKept (idx : Nat) (listed : List Listed) (kept : List (Identity × Nat)) :
    offerAll idx listed (.ofKept kept) =
      .ofKept ((attributed idx listed).foldl (keepFirst attributedKey) kept) := by
  induction listed generalizing idx kept with
  | nil => rfl
  | cons r rest ih =>
    cases r with
    | error e => exact ih (idx + 1) kept
    | ok ids =>
      rw [offerAll, foldl_offer, ih, attributed, List.foldl_append]

/-- The items that a listing keeps. -/
theorem offerAll_eq (listed : List Listed) :
    ∃ kept, offerAll 0 listed .empty = .ofKept kept ∧
      FirstOnes attributedKey [] (attributed 0 listed) kept := by
  obtain ⟨kept, heq, hkept⟩ := foldl_keepFirst attributedKey [] (attributed 0 listed)
  refine ⟨kept, ?_, hkept⟩
  rw [List.nil_append] at heq
  rw [← heq]
  exact offerAll_ofKept 0 listed []

/-- The map of a listing. -/
def routes (listed : List Listed) : KnownKeys := (offerAll 0 listed .empty).known

/-- An item that is kept is of the first upstream that listed its key. -/
theorem firstToList_of_kept {listed : List Listed} {kept : List (Identity × Nat)}
    (hkept : FirstOnes attributedKey [] (attributed 0 listed) kept) {x : Identity × Nat}
    (hx : x ∈ kept) : FirstToList listed x.1.1 x.2 := by
  obtain ⟨before, after, hsplit, hbefore⟩ := hkept.first x hx
  constructor
  · refine lists_iff.mpr ⟨x, ?_, rfl, rfl⟩
    rw [hsplit]
    exact List.mem_append_right _ List.mem_cons_self
  · intro j hj
    obtain ⟨y, hy, hkey, rfl⟩ := lists_iff.mp hj
    have hsorted := pairwise_attributed 0 listed
    rw [hsplit] at hy hsorted
    rcases List.mem_append.mp hy with hy | hy
    · exact absurd (List.mem_map.mpr ⟨y, hy, hkey⟩) hbefore
    · rcases List.mem_cons.mp hy with rfl | hy
      · exact Nat.le_refl _
      · exact List.rel_of_pairwise_cons (List.pairwise_append.mp hsorted).2.1 hy

theorem FirstToList.unique {listed : List Listed} {publicKey : Bytes} {i j : Nat}
    (hi : FirstToList listed publicKey i) (hj : FirstToList listed publicKey j) : i = j :=
  Nat.le_antisymm (hi.first j hj.lists) (hj.first i hi.lists)

/-- The map says which upstream was the first to list a key. -/
theorem lookup_routes {listed : List Listed} {publicKey : Bytes} {idx : Nat} :
    (routes listed).lookup publicKey = some idx ↔ FirstToList listed publicKey idx := by
  obtain ⟨kept, heq, hkept⟩ := offerAll_eq listed
  have hroutes : routes listed = kept.map fun x => (x.1.1, x.2) := by
    rw [routes, heq]
    rfl
  have hsound : ∀ i, (routes listed).lookup publicKey = some i → FirstToList listed publicKey i := by
    intro i hlookup
    obtain ⟨before, after, hsplit, -⟩ := List.lookup_eq_some_iff.mp hlookup
    have hmem : (publicKey, i) ∈ routes listed := by
      rw [hsplit]
      exact List.mem_append_right _ List.mem_cons_self
    rw [hroutes] at hmem
    obtain ⟨x, hx, hpair⟩ := List.mem_map.mp hmem
    obtain ⟨rfl, rfl⟩ := Prod.mk.inj hpair
    exact firstToList_of_kept hkept hx
  refine ⟨hsound idx, fun hfirst => ?_⟩
  obtain ⟨y, hy, hkey, -⟩ := lists_iff.mp hfirst.lists
  have hmem : publicKey ∈ kept.map attributedKey :=
    (hkept.covers publicKey List.not_mem_nil).mpr (List.mem_map.mpr ⟨y, hy, hkey⟩)
  obtain ⟨x, hx, hxkey⟩ := List.mem_map.mp hmem
  have hsome : ((routes listed).lookup publicKey).isSome := by
    rw [List.lookup_isSome_iff, hroutes]
    exact ⟨(x.1.1, x.2), List.mem_map.mpr ⟨x, hx, rfl⟩, beq_iff_eq.mpr hxkey.symm⟩
  obtain ⟨i, hi⟩ := Option.isSome_iff_exists.mp hsome
  rw [hi, (hsound i hi).unique hfirst]

end Piggy.Agent
