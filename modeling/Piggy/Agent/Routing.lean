import Piggy.Agent.Upstream

/-!
# Offering and routing

What a client is offered and where its sign requests go, in any run of its requests: the upstreams
answer, fail and end in any order, and between two operations the keys that are served here may change
and other clients may list.
-/

namespace Piggy.Agent

open Piggy.Core Piggy.Box Piggy.Card Piggy.Markl

/-! ## The world of the pool -/

/-- A request for a signature that went to an upstream: the listing that was in place when the
upstream was looked up, and whether the request never got through. -/
structure Try where
  upstream : Nat
  publicKey : Bytes
  listing : List Listed
  dropped : Bool

/-- What there is outside: the clock, the keys served here, and the shared map with the listing it is
from and how often another client's listing replaced it. Of a request it is noted which keys served
here it saw, the passes it made, the listing it looked at last, and its tries. -/
structure PoolWorld where
  time : Nat
  natives : List NativeKey
  known : KnownKeys
  listing : List Listed
  swapped : Nat
  seen : List NativeKey
  passes : List (List Listed)
  looked : List Listed
  tries : List Try

/-- The agent as it starts. -/
def PoolWorld.start (time : Nat) (natives : List NativeKey) : PoolWorld :=
  ⟨time, natives, [], [], 0, [], [], [], []⟩

/-- The connection was lost, or never made. -/
def SignReply.dropped : SignReply → Bool
  | .connectFailed _ => true
  | .answered (.error (_, transport)) => transport
  | _ => false

variable (pool : UpstreamPool)

/-- What happens elsewhere before an operation: time passes, the keys served here change, and the
listings of other clients may replace the map. -/
structure Elsewhere (w w' : PoolWorld) : Prop where
  seen : w'.seen = w.seen
  passes : w'.passes = w.passes
  looked : w'.looked = w.looked
  tries : w'.tries = w.tries
  time : w.time ≤ w'.time
  swapped : w.swapped ≤ w'.swapped
  same : w'.swapped = w.swapped → w'.known = w.known ∧ w'.listing = w.listing
  lists : w'.swapped ≠ w.swapped →
    w'.listing.length = pool.upstreams.length ∧ w'.known = routes w'.listing

/-- An operation of a request: the tasks of a listing end in any order with any results, and an
upstream answers a sign request as it likes. -/
def Own (w : PoolWorld) : (op : PoolOp) → PoolAns op → PoolWorld → Prop
  | .agent .servedKeys, ans, w' => ans = w.natives ∧ w' = { w with seen := w.natives }
  | .agent (.findCachedKey publicKey), ans, w' =>
    ans = w.natives.find? (fun key => key.publicKey = publicKey) ∧ w' = { w with seen := w.natives }
  | .agent _, _, w' => w' = w
  | .listEach upstreams, ended, w' => ∃ results : List (Option Listed),
    results.length = upstreams.length ∧
      ended.Perm (results.zipIdx.map fun r => r.1.map fun v => (r.2, v)) ∧
      w' = { w with passes := w.passes ++ [results.map listedOrFailed] }
  | .setKnownKeys known, _, w' => w' = { w with known := known, listing := w.passes.getLast?.getD [] }
  | .knownKey publicKey, ans, w' => ans = w.known.lookup publicKey ∧ w' = { w with looked := w.listing }
  | .signOn idx publicKey _ _, reply, w' =>
    w' = { w with tries := w.tries ++ [⟨idx, publicKey, w.looked, reply.dropped⟩] }
  | .now, ans, w' => ans = w.time ∧ w' = w
  | .sleep duration, _, w' => ∃ t, w.time + duration ≤ t ∧ w' = { w with time := t }

/-- A step of the pool, other clients' steps before it. -/
def PoolStep (w : PoolWorld) (op : PoolOp) (ans : PoolAns op) (w' : PoolWorld) : Prop :=
  ∃ w₁, Elsewhere pool w w₁ ∧ Own w₁ op ans w'

/-- The map is that of a listing. -/
def PoolWorld.Sound (w : PoolWorld) : Prop := w.known = routes w.listing

/-- A sound map says which upstream was the first to list a key. -/
theorem PoolWorld.Sound.lookup_iff {w : PoolWorld} (h : w.Sound) (key : Bytes) (idx : Nat) :
    w.known.lookup key = some idx ↔ FirstToList w.listing key idx := by
  rw [h]
  exact lookup_routes

variable {pool}

theorem Elsewhere.sound {w w' : PoolWorld} (h : Elsewhere pool w w') (hsound : w.Sound) : w'.Sound := by
  by_cases hsame : w'.swapped = w.swapped
  · obtain ⟨hknown, hlisting⟩ := h.same hsame
    rw [PoolWorld.Sound, hknown, hlisting]
    exact hsound
  · exact (h.lists hsame).2

/-! ## A listing -/

/-- Every upstream failed. -/
def AllFailed (listed : List Listed) : Prop := ∀ r ∈ listed, ∃ e, r = .error e

theorem length_failuresOf {listed : List Listed} (hcount : listed.length = pool.upstreams.length) :
    (failuresOf pool listed).length = listed.length ↔ AllFailed listed := by
  have hzip : (listed.zip pool.upstreams).length = listed.length := by
    rw [List.length_zip, hcount, Nat.min_self]
  have hmap : (listed.zip pool.upstreams).map Prod.fst = listed :=
    List.map_fst_zip (Nat.le_of_eq hcount)
  rw [failuresOf, ← hzip, List.filterMap_length_eq_length]
  constructor
  · intro h r hr
    rw [← hmap] at hr
    obtain ⟨x, hx, rfl⟩ := List.mem_map.mp hr
    have hsome := h x hx
    rcases hx1 : x.1 with e | ids
    · exact ⟨e, rfl⟩
    · rw [hx1] at hsome
      cases hsome
  · intro h x hx
    obtain ⟨e, he⟩ := h x.1 (List.of_mem_zip hx).1
    rw [he]
    rfl

/-- What one pass does: it heard from every upstream, and the map is the one of what it heard. -/
structure Passed (pool : UpstreamPool) (w : PoolWorld) (listed : List Listed) (w' : PoolWorld) :
    Prop where
  count : listed.length = pool.upstreams.length
  seen : w'.seen = w.seen
  passes : w'.passes = w.passes ++ [listed]
  listing : w'.listing = listed
  sound : w'.Sound
  tries : w'.tries = w.tries
  time : w.time ≤ w'.time
  swapped : w.swapped ≤ w'.swapped

theorem ensures_listOnce (w : PoolWorld) :
    (listOnce pool).Ensures (PoolStep pool) (fun r w' => ∃ listed, Passed pool w listed w' ∧
      r.1 = (offerAll 0 listed .empty).identities ∧
      (r.2.isSome ↔ listed ≠ [] ∧ AllFailed listed)) w := by
  rintro ended _ ⟨w₁, h₁, results, hcount, hperm, rfl⟩
  have hgather : gather pool.upstreams.length ended = results := by
    rw [← hcount]
    exact gather_of_perm hperm
  dsimp only [Prog.bind]
  rw [hgather]
  rintro _ _ ⟨w₂, h₂, rfl⟩
  have hlen : (results.map listedOrFailed).length = pool.upstreams.length := by
    rw [List.length_map, hcount]
  have hlast : w₂.passes.getLast?.getD [] = results.map listedOrFailed := by
    rw [h₂.passes]
    simp
  refine ⟨results.map listedOrFailed, ⟨hlen, ?_, ?_, hlast, ?_, ?_, ?_, ?_⟩, rfl, ?_⟩
  · exact h₂.seen.trans h₁.seen
  · exact h₂.passes.trans (congrArg (· ++ _) h₁.passes)
  · change routes _ = routes _
    rw [hlast]
  · exact h₂.tries.trans h₁.tries
  · exact h₁.time.trans h₂.time
  · exact h₁.swapped.trans h₂.swapped
  · rw [← length_failuresOf hlen]
    split
    · next hall =>
      rw [Bool.and_eq_true, Bool.not_eq_true', List.isEmpty_eq_false_iff, beq_iff_eq] at hall
      exact iff_of_true rfl hall
    · next hsome =>
      rw [Bool.and_eq_true, Bool.not_eq_true', List.isEmpty_eq_false_iff, beq_iff_eq] at hsome
      exact iff_of_false nofun hsome

theorem ensures_listIdentities (w : PoolWorld) :
    (listIdentities pool).Ensures (PoolStep pool) (fun ids w' => ∃ listed,
      Passed pool w listed w' ∧ ids = (offerAll 0 listed .empty).identities) w := by
  refine (ensures_listOnce w).bind ?_
  rintro ⟨ids, failures⟩ w' ⟨listed, hpassed, hids, -⟩
  exact ⟨listed, hpassed, hids⟩

/-- How a listing that waits for an outage to end comes out: passes in which every upstream failed,
and a last one; it fails if that one was of the same kind. -/
structure Redialed (pool : UpstreamPool) (w : PoolWorld)
    (result : Option (Except String (List Identity))) (w' : PoolWorld) : Prop where
  seen : w'.seen = w.seen
  tries : w'.tries = w.tries
  ends : ∃ failed listed, w'.passes = w.passes ++ (failed ++ [listed]) ∧
    (∀ pass ∈ failed, AllFailed pass) ∧ listed.length = pool.upstreams.length ∧ w'.Sound ∧
    ((result = some (.ok (offerAll 0 listed .empty).identities) ∧ w'.listing = listed) ∨
      (listed ≠ [] ∧ AllFailed listed ∧ ∃ outage, result = some (.error outage)))

/-- One more pass in front. -/
theorem Redialed.cons {w w₁ w' : PoolWorld} {result : Option (Except String (List Identity))}
    {pass : List Listed} (h : Redialed pool w₁ result w') (hseen : w₁.seen = w.seen) (htries : w₁.tries = w.tries)
    (hpasses : w₁.passes = w.passes ++ [pass]) (hfailed : AllFailed pass) :
    Redialed pool w result w' := by
  obtain ⟨failed, listed, hw', hall, hend⟩ := h.ends
  refine ⟨h.seen.trans hseen, h.tries.trans htries, pass :: failed, listed, ?_, ?_, hend⟩
  · rw [hw', hpasses, List.append_assoc]
    rfl
  · exact List.forall_mem_cons.mpr ⟨hfailed, hall⟩

/-- A round: an answer of some upstream, the deadline, or a sleep and the next round. -/
theorem ensures_round (deadline rounds backoff : Nat) (w : PoolWorld)
    (hnext : ∀ now w₁ pass, w.time ≤ now → now < deadline →
      now + min backoff (deadline - now) ≤ w₁.time → w₁.seen = w.seen → w₁.tries = w.tries →
      w₁.passes = w.passes ++ [pass] → AllFailed pass →
      (redial pool deadline rounds (min (backoff * 2) maxRedialBackoff)).Ensures
        (PoolStep pool) (Redialed pool w) w₁) :
    (redial pool deadline (rounds + 1) backoff).Ensures (PoolStep pool) (Redialed pool w) w := by
  rw [redial]
  refine (ensures_listOnce w).bind ?_
  rintro ⟨ids, failures⟩ w₁ ⟨listed, hpassed, rfl, hfailures⟩
  cases failures with
  | none =>
    exact ⟨hpassed.seen, hpassed.tries, [], listed, hpassed.passes, nofun, hpassed.count,
      hpassed.sound, .inl ⟨rfl, hpassed.listing⟩⟩
  | some failures =>
    obtain ⟨hsome, hall⟩ := hfailures.mp rfl
    rintro now w₂ ⟨_, h₂, rfl, rfl⟩
    have hseen : w₂.seen = w.seen := h₂.seen.trans hpassed.seen
    have htries : w₂.tries = w.tries := h₂.tries.trans hpassed.tries
    have hpasses : w₂.passes = w.passes ++ [listed] := h₂.passes.trans hpassed.passes
    have htime : w.time ≤ w₂.time := hpassed.time.trans h₂.time
    dsimp only [Prog.bind]
    split
    · exact ⟨hseen, htries, [], listed, hpasses, nofun, hpassed.count, h₂.sound hpassed.sound,
        .inr ⟨hsome, hall, _, rfl⟩⟩
    · next hearly =>
      rintro _ _ ⟨w₃, h₃, t, ht, rfl⟩
      refine hnext w₂.time _ listed htime (Nat.lt_of_not_le hearly) ?_ (h₃.seen.trans hseen)
        (h₃.tries.trans htries) (h₃.passes.trans hpasses) hall
      exact (Nat.add_le_add_right h₃.time _).trans ht

/-- Enough rounds are left: each one sleeps for the first backoff, or to the end. -/
theorem ensures_redial (deadline rounds backoff : Nat) (w : PoolWorld)
    (hbackoff : firstBackoff ≤ backoff) (hrounds : deadline ≤ w.time + firstBackoff * rounds) :
    (redial pool deadline (rounds + 1) backoff).Ensures (PoolStep pool) (Redialed pool w) w := by
  induction rounds generalizing backoff w with
  | zero =>
    apply ensures_round
    intro now w₁ pass hnow hearly
    rw [Nat.mul_zero, Nat.add_zero] at hrounds
    exact absurd (hrounds.trans hnow) (Nat.not_le_of_lt hearly)
  | succ rounds ih =>
    apply ensures_round
    intro now w₁ pass hnow hearly hslept hseen htries hpasses hfailed
    have hdouble : firstBackoff ≤ min (backoff * 2) maxRedialBackoff :=
      Nat.le_min.mpr ⟨hbackoff.trans (by omega), by decide⟩
    have hleft : deadline ≤ w₁.time + firstBackoff * rounds := by
      rw [Nat.mul_add_one] at hrounds
      rcases Nat.le_total backoff (deadline - now) with hle | hle
      · rw [Nat.min_eq_left hle] at hslept
        omega
      · rw [Nat.min_eq_right hle] at hslept
        omega
    exact (ih _ w₁ hdouble hleft).mono fun result w' h => h.cons hseen htries hpasses hfailed

theorem ensures_listIdentitiesOrOutage (w : PoolWorld) :
    (listIdentitiesOrOutage pool).Ensures (PoolStep pool) (Redialed pool w) w := by
  rintro now w₁ ⟨_, h₁, rfl, rfl⟩
  have hrounds : w₁.time + pool.outageGrace ≤
      w₁.time + firstBackoff * (pool.outageGrace / firstBackoff + 1) := by
    have hdiv := Nat.div_add_mod pool.outageGrace firstBackoff
    have hmod : pool.outageGrace % firstBackoff < firstBackoff := Nat.mod_lt _ (by decide)
    rw [Nat.mul_add_one]
    omega
  refine (ensures_redial _ _ firstBackoff w₁ (Nat.le_refl _) hrounds).mono ?_
  intro result w' h
  obtain ⟨failed, listed, hpasses, hrest⟩ := h.ends
  exact ⟨h.seen.trans h₁.seen, h.tries.trans h₁.tries, failed, listed, by rw [hpasses, h₁.passes], hrest⟩

/-! ## What is offered -/

/-- The keys that are served here, as they are offered. -/
def nativeIdentities (natives : List NativeKey) : List Identity :=
  natives.map fun key => (key.publicKey, key.comment)

theorem map_nativeIdentities (natives : List NativeKey) :
    (nativeIdentities natives).map Prod.fst = natives.map NativeKey.publicKey := by
  rw [nativeIdentities, List.map_map]
  rfl

/-- The keys that are served here come first; every other key that was listed follows once, as the
first upstream listed it. -/
def OffersFrom (natives : List NativeKey) (listed : List Listed) (ids : List Identity) : Prop :=
  ∃ others, ids = nativeIdentities natives ++ others ∧ (others.map Prod.fst).Nodup ∧
    (∀ o ∈ others, o.1 ∉ natives.map NativeKey.publicKey) ∧
    (∀ key, key ∉ natives.map NativeKey.publicKey →
      (key ∈ others.map Prod.fst ↔ ∃ idx, Lists listed key idx)) ∧
    ∀ o ∈ others, ∃ idx ids, FirstToList listed o.1 idx ∧ listed[idx]? = some (.ok ids) ∧ o ∈ ids

theorem offersFrom_withUpstreams (natives : List NativeKey) (listed : List Listed) :
    OffersFrom natives listed
      (withUpstreams (nativeIdentities natives) (offerAll 0 listed .empty).identities) := by
  obtain ⟨kept, heq, hkept⟩ := offerAll_eq listed
  obtain ⟨others, hids, hothers⟩ :=
    foldl_keepFirst Prod.fst (nativeIdentities natives) (kept.map Prod.fst)
  have hnative := map_nativeIdentities natives
  refine ⟨others, ?_, hothers.nodup, ?_, ?_, ?_⟩
  · rw [heq]
    exact hids
  · rw [← hnative]
    exact hothers.fresh
  · intro key hkey
    rw [← hnative] at hkey
    rw [hothers.covers key hkey, List.map_map]
    refine (hkept.covers key List.not_mem_nil).trans ?_
    constructor
    · intro hmem
      obtain ⟨x, hx, hxkey⟩ := List.mem_map.mp hmem
      exact ⟨x.2, lists_iff.mpr ⟨x, hx, hxkey, rfl⟩⟩
    · rintro ⟨idx, hlists⟩
      obtain ⟨x, hx, hxkey, -⟩ := lists_iff.mp hlists
      exact List.mem_map.mpr ⟨x, hx, hxkey⟩
  · intro o ho
    obtain ⟨before, after, hsplit, -⟩ := hothers.first o ho
    have hmem : o ∈ kept.map Prod.fst := by
      rw [hsplit]
      exact List.mem_append_right _ List.mem_cons_self
    obtain ⟨⟨id, idx⟩, hx, rfl⟩ := List.mem_map.mp hmem
    obtain ⟨before', after', hsplit', -⟩ := hkept.first _ hx
    have hlisted : (id, idx) ∈ attributed 0 listed := by
      rw [hsplit']
      exact List.mem_append_right _ List.mem_cons_self
    obtain ⟨i, ids, hi, hid, hidx⟩ := mem_attributed.mp hlisted
    rw [Nat.zero_add] at hidx
    subst hidx
    exact ⟨idx, ids, firstToList_of_kept hkept hx, hi, hid⟩

/-- What is offered after the keys served here is not offered twice. -/
theorem OffersFrom.nodup {natives : List NativeKey} {listed : List Listed} {ids : List Identity}
    (h : OffersFrom natives listed ids) (hnatives : (natives.map NativeKey.publicKey).Nodup) :
    (ids.map Prod.fst).Nodup := by
  obtain ⟨others, rfl, hnodup, hfresh, -⟩ := h
  rw [List.map_append, map_nativeIdentities]
  refine hnatives.append hnodup ?_
  intro key hkey hother
  obtain ⟨o, ho, rfl⟩ := List.mem_map.mp hother
  exact hfresh o ho hkey

/-- What comes of a request for the identities: without upstreams the keys that are served here; else
what was offered is from the last pass, and the map is that of this pass. A failure means that no key
is served here and that every upstream failed in every pass. -/
structure Offers (pool : UpstreamPool) (w : PoolWorld) (answer : Answer) (w' : PoolWorld) : Prop where
  tries : w'.tries = w.tries
  answered : (pool.upstreams = [] ∧ answer = .identities (nativeIdentities w'.seen)) ∨
    ∃ failed listed, w'.passes = w.passes ++ (failed ++ [listed]) ∧
      (∀ pass ∈ failed, AllFailed pass) ∧ listed.length = pool.upstreams.length ∧
      ((∃ ids, answer = .identities ids ∧ OffersFrom w'.seen listed ids ∧
          ((w'.seen.map NativeKey.publicKey).Nodup → (ids.map Prod.fst).Nodup) ∧ w'.listing = listed ∧
          ∀ key idx, w'.known.lookup key = some idx ↔ FirstToList listed key idx) ∨
        (w'.seen = [] ∧ listed ≠ [] ∧ AllFailed listed ∧ ∃ outage, answer = .failure outage))

theorem ensures_requestIdentitiesInner {w : PoolWorld} (hsound : w.Sound) :
    (requestIdentitiesInner pool).Ensures (PoolStep pool)
      (fun answer w' => w'.Sound ∧ Offers pool w answer w') w := by
  rintro keys _ ⟨w₁, h₁, rfl, rfl⟩
  dsimp only [Prog.bind]
  split
  · next hempty => exact ⟨h₁.sound hsound, h₁.tries, .inl ⟨List.isEmpty_iff.mp hempty, rfl⟩⟩
  · split
    · next hnone =>
      have hnatives : w₁.natives = [] := List.map_eq_nil_iff.mp (List.isEmpty_iff.mp hnone)
      refine (ensures_listIdentitiesOrOutage _).bind ?_
      intro result w' hredialed
      obtain ⟨failed, listed, hpasses, hfailed, hcount, hsound', hend⟩ := hredialed.ends
      have htries := hredialed.tries.trans h₁.tries
      have hseen : w'.seen = w₁.natives := hredialed.seen
      have hpasses' : w'.passes = w.passes ++ (failed ++ [listed]) := by
        rw [hpasses, ← h₁.passes]
      have hoffers := offersFrom_withUpstreams w₁.natives listed
      rw [← hseen] at hoffers
      rcases hend with ⟨rfl, hlisting⟩ | ⟨hsome, hall, outage, rfl⟩
      · refine ⟨hsound', htries, .inr ⟨failed, listed, hpasses', hfailed, hcount,
          .inl ⟨_, congrArg _ (by rw [hseen]; rfl), hoffers, hoffers.nodup, hlisting, ?_⟩⟩⟩
        rw [← hlisting]
        exact hsound'.lookup_iff
      · exact ⟨hsound', htries, .inr ⟨failed, listed, hpasses', hfailed, hcount,
          .inr ⟨hseen.trans hnatives, hsome, hall, outage, rfl⟩⟩⟩
    · refine (ensures_listIdentities _).bind ?_
      rintro others w' ⟨listed, hpassed, rfl⟩
      have hseen : w'.seen = w₁.natives := hpassed.seen
      have hoffers := offersFrom_withUpstreams w₁.natives listed
      rw [← hseen] at hoffers
      refine ⟨hpassed.sound, hpassed.tries.trans h₁.tries, .inr ⟨[], listed, ?_, nofun, hpassed.count,
        .inl ⟨_, congrArg _ (by rw [hseen]; rfl), hoffers, hoffers.nodup, hpassed.listing, ?_⟩⟩⟩
      · rw [hpassed.passes, ← h₁.passes]
        rfl
      · rw [← hpassed.listing]
        exact hpassed.sound.lookup_iff

/-- The dispatcher's answer, from what the other agents answered. -/
def combined (keys : List NativeKey) : Except String (List Identity) → Answer
  | .error e => if nativeIdentities keys = [] then .failure e else .identities (nativeIdentities keys)
  | .ok others => .identities (withUpstreams (nativeIdentities keys) others)

theorem requestIdentities_eq (setup : AgentSetup) :
    requestIdentities setup = .call .servedKeys fun keys =>
      if setup.hasUpstreams then .call .upstreamIdentities fun others => .ret (combined keys others)
      else .ret (.identities (nativeIdentities keys)) := by
  refine congrArg (Prog.call AgentOp.servedKeys) (funext fun keys => ?_)
  cases setup.hasUpstreams with
  | false => rfl
  | true => exact congrArg (Prog.call AgentOp.upstreamIdentities) (funext fun others => by cases others <;> rfl)

/-- The dispatcher's request for identities, without other agents. -/
theorem leads_alone {setup : AgentSetup} (h : setup.hasUpstreams = false) (keys : List NativeKey) :
    (requestIdentities setup).Leads [⟨.servedKeys, keys⟩]
      (.ret (.identities (nativeIdentities keys))) := by
  rw [requestIdentities_eq, h]
  exact .call (.refl _) _

/-- The dispatcher's request for identities, with an answer of the other agents. -/
theorem leads_asked (setup : AgentSetup) (h : setup.hasUpstreams = true) (keys : List NativeKey)
    (others : Except String (List Identity)) :
    (requestIdentities setup).Leads [⟨.upstreamIdentities, others⟩, ⟨.servedKeys, keys⟩]
      (.ret (combined keys others)) := by
  have hkeys : (requestIdentities setup).Leads [⟨.servedKeys, keys⟩]
      (.call .upstreamIdentities fun others => .ret (combined keys others)) := by
    rw [requestIdentities_eq, h]
    exact .call (.refl _) _
  exact .call hkeys others

/-- With its pool the agent answers as the dispatcher does, which leaves the pool to its
surroundings. -/
theorem ensures_dispatched (setup : AgentSetup) (w : PoolWorld) :
    (requestIdentitiesInner pool).Ensures (PoolStep pool) (fun answer w' => ∃ calls,
      (requestIdentities { setup with hasUpstreams := !pool.upstreams.isEmpty }).Leads
        (calls ++ [⟨.servedKeys, w'.seen⟩]) (.ret answer)) w := by
  rintro keys _ ⟨w₁, h₁, rfl, rfl⟩
  dsimp only [Prog.bind]
  split
  · next hempty =>
    refine ⟨[], leads_alone ?_ w₁.natives⟩
    rw [hempty]
    rfl
  · next hsome =>
    have hasked := leads_asked { setup with hasUpstreams := !pool.upstreams.isEmpty }
      (by simp [hsome]) w₁.natives
    split
    · next hnone =>
      refine (ensures_listIdentitiesOrOutage _).bind ?_
      intro result w' hredialed
      obtain ⟨-, listed, -, -, -, -, hend⟩ := hredialed.ends
      rw [← show w'.seen = w₁.natives from hredialed.seen] at hasked hnone ⊢
      rcases hend with ⟨rfl, -⟩ | ⟨-, -, outage, rfl⟩
      · exact ⟨[_], hasked (.ok _)⟩
      · have hfailure := hasked (.error outage)
        have hnative : nativeIdentities w'.seen = [] := List.isEmpty_iff.mp hnone
        rw [combined, if_pos hnative] at hfailure
        exact ⟨[_], hfailure⟩
    · refine (ensures_listIdentities _).bind ?_
      rintro others w' ⟨listed, hpassed, rfl⟩
      rw [← show w'.seen = w₁.natives from hpassed.seen] at hasked ⊢
      exact ⟨[_], hasked (.ok _)⟩

/-! ## Where a signature is asked for -/

/-- Looking up where a key is. What is found is the first upstream that listed it, by the listing that
was in place; and if no other client listed, that is the listing from before, when it has the key. -/
structure LookedUp (publicKey : Bytes) (w : PoolWorld) (found : Option Nat) (w' : PoolWorld) : Prop where
  seen : w'.seen = w.seen
  tries : w'.tries = w.tries
  swapped : w.swapped ≤ w'.swapped
  sound : w'.Sound
  first : ∀ idx, found = some idx → FirstToList w'.looked publicKey idx
  same : w'.swapped = w.swapped → ∀ idx, FirstToList w.listing publicKey idx → found = some idx

theorem ensures_knownKey (publicKey : Bytes) {w : PoolWorld} (hsound : w.Sound) :
    (Prog.op (PoolOp.knownKey publicKey) : PoolProg _).Ensures (PoolStep pool)
      (LookedUp publicKey w) w := by
  rintro _ _ ⟨w₁, h₁, rfl, rfl⟩
  have hsound₁ : w₁.Sound := h₁.sound hsound
  refine ⟨h₁.seen, h₁.tries, h₁.swapped, hsound₁, fun idx => (hsound₁.lookup_iff publicKey idx).mp, ?_⟩
  intro hsame idx hfirst
  rw [hsound₁.lookup_iff, (h₁.same hsame).2]
  exact hfirst

theorem ensures_knownOrListed (publicKey : Bytes) {w : PoolWorld} (hsound : w.Sound) :
    (knownOrListed pool publicKey).Ensures (PoolStep pool) (LookedUp publicKey w) w := by
  refine (ensures_knownKey publicKey hsound).bind ?_
  intro found w₁ hlooked
  cases found with
  | some idx => exact hlooked
  | none =>
    refine (ensures_listIdentities w₁).bind ?_
    rintro _ w₂ ⟨listed, hpassed, -⟩
    refine (ensures_knownKey publicKey hpassed.sound).mono ?_
    intro found w₃ hagain
    refine ⟨hagain.seen.trans (hpassed.seen.trans hlooked.seen),
      hagain.tries.trans (hpassed.tries.trans hlooked.tries),
      hlooked.swapped.trans (hpassed.swapped.trans hagain.swapped), hagain.sound, hagain.first, ?_⟩
    intro hsame idx hfirst
    have hle := hlooked.swapped
    have hle' := hpassed.swapped
    have hle'' := hagain.swapped
    cases hlooked.same (by omega) idx hfirst

/-- One request for a signature: the map it leaves and the try that is noted. -/
structure Tried (idx : Nat) (publicKey : Bytes) (w : PoolWorld)
    (answer : Except (String × Bool) (String × Bytes)) (w' : PoolWorld) : Prop where
  seen : w'.seen = w.seen
  swapped : w.swapped ≤ w'.swapped
  sound : w'.Sound
  tries : ∃ dropped, w'.tries = w.tries ++ [⟨idx, publicKey, w.looked, dropped⟩] ∧
    ∀ e, answer = .error (e, true) → dropped = true

theorem ensures_signOn (idx : Nat) (publicKey data : Bytes) (flags : UInt32) {w : PoolWorld}
    (hsound : w.Sound) :
    (signOn pool idx publicKey data flags).Ensures (PoolStep pool) (Tried idx publicKey w) w := by
  rintro reply _ ⟨w₁, h₁, rfl⟩
  have hdone : ∀ answer : Except (String × Bool) (String × Bytes),
      (∀ e, answer = .error (e, true) → reply.dropped = true) → Tried idx publicKey w answer
        { w₁ with tries := w₁.tries ++ [⟨idx, publicKey, w₁.looked, reply.dropped⟩] } := by
    intro answer hdropped
    exact ⟨h₁.seen, h₁.swapped, h₁.sound hsound, reply.dropped, by rw [h₁.tries, h₁.looked], hdropped⟩
  cases reply with
  | connectFailed e => exact hdone _ fun _ _ => rfl
  | timedOut =>
    refine hdone _ ?_
    intro e heq
    cases heq
  | answered reply =>
    refine hdone _ ?_
    rintro e rfl
    rfl

/-- The tries of a sign request: at most two, the second one only after the first never got through,
and each at the first upstream that listed the key, by the listing that was in place. -/
structure Routes (publicKey : Bytes) (tries : List Try) : Prop where
  count : tries.length ≤ 2
  routed : ∀ t ∈ tries, t.publicKey = publicKey ∧ FirstToList t.listing publicKey t.upstream
  again : ∀ t ∈ tries.dropLast, t.dropped = true

theorem routes_nil (publicKey : Bytes) : Routes publicKey [] := ⟨by decide, nofun, nofun⟩

/-- The tries of a sign request. If no other client listed meanwhile, a key that the listing in place
has is asked for where it was listed first. -/
def Asked (publicKey : Bytes) (w w' : PoolWorld) : Prop :=
  ∃ tries, w'.tries = w.tries ++ tries ∧ Routes publicKey tries ∧
    (w'.swapped = w.swapped → ∀ idx, FirstToList w.listing publicKey idx →
      ∃ t ∈ tries.head?, t.upstream = idx)

/-- What comes of a sign request that goes to the pool. -/
structure Asks (publicKey : Bytes) (w w' : PoolWorld) : Prop where
  seen : w'.seen = w.seen
  swapped : w.swapped ≤ w'.swapped
  sound : w'.Sound
  tries : Asked publicKey w w'

theorem Elsewhere.asked {publicKey : Bytes} {w w₁ w' : PoolWorld} (h : Elsewhere pool w w₁)
    (h' : Asked publicKey { w₁ with seen := w₁.natives } w') (hle : w₁.swapped ≤ w'.swapped) :
    Asked publicKey w w' := by
  obtain ⟨tries, htries, hroutes, hfirst⟩ := h'
  refine ⟨tries, htries.trans (congrArg (· ++ tries) h.tries), hroutes, ?_⟩
  intro hsame idx hidx
  have hle' := h.swapped
  have hstill : w₁.swapped = w.swapped := by omega
  refine hfirst (hsame.trans hstill.symm) idx ?_
  rw [← (h.same hstill).2] at hidx
  exact hidx

theorem ensures_poolSign (publicKey data : Bytes) (flags : UInt32) {w : PoolWorld} (hsound : w.Sound) :
    (pool.sign publicKey data flags).Ensures (PoolStep pool) (fun _ w' => Asks publicKey w w') w := by
  rw [UpstreamPool.sign]
  refine (ensures_knownOrListed publicKey hsound).bind ?_
  intro found w₁ hlooked
  cases found with
  | none =>
    refine ⟨hlooked.seen, hlooked.swapped, hlooked.sound, [],
      hlooked.tries.trans (List.append_nil _).symm, routes_nil publicKey, ?_⟩
    intro hsame idx hfirst
    cases hlooked.same hsame idx hfirst
  | some idx =>
    have hidx := hlooked.first idx rfl
    refine (ensures_signOn idx publicKey data flags hlooked.sound).bind ?_
    intro answer w₂ htried
    obtain ⟨dropped, htries, hdropped⟩ := htried.tries
    rw [hlooked.tries] at htries
    have hseen : w₂.seen = w.seen := htried.seen.trans hlooked.seen
    have hle : w.swapped ≤ w₂.swapped := hlooked.swapped.trans htried.swapped
    have hfirst : ∀ w' : PoolWorld, w₂.swapped ≤ w'.swapped → w'.swapped = w.swapped → ∀ other,
        FirstToList w.listing publicKey other → idx = other := by
      intro w' hle' hsame other hother
      have hle₁ := hlooked.swapped
      have hle₂ := htried.swapped
      exact Option.some.inj (hlooked.same (by omega) other hother)
    -- Without a second request.
    have hone : ∀ w' : PoolWorld, w'.seen = w₂.seen → w'.tries = w₂.tries → w₂.swapped ≤ w'.swapped →
        w'.Sound → Asks publicKey w w' := by
      intro w' hseen' htries' hle' hsound'
      refine ⟨hseen'.trans hseen, hle.trans hle', hsound', _, htries'.trans htries,
        ⟨Nat.le_succ 1, ?_, nofun⟩, ?_⟩
      · exact List.forall_mem_singleton.mpr ⟨rfl, hidx⟩
      · exact fun hsame other hother => ⟨_, rfl, hfirst w' hle' hsame other hother⟩
    have hret : (pure (answer.mapError Prod.fst) : PoolProg _).Ensures (PoolStep pool)
        (fun _ w' => Asks publicKey w w') w₂ := hone w₂ rfl rfl (Nat.le_refl _) htried.sound
    rcases answer with ⟨e, _ | _⟩ | signature
    · exact hret
    · refine (ensures_listIdentities w₂).bind ?_
      rintro _ w₃ ⟨listed, hpassed, -⟩
      refine (ensures_knownKey publicKey hpassed.sound).bind ?_
      intro found w₄ hagain
      have hseen₄ : w₄.seen = w₂.seen := hagain.seen.trans hpassed.seen
      have htries₄ : w₄.tries = w₂.tries := hagain.tries.trans hpassed.tries
      have hle₄ : w₂.swapped ≤ w₄.swapped := hpassed.swapped.trans hagain.swapped
      cases found with
      | none => exact hone w₄ hseen₄ htries₄ hle₄ hagain.sound
      | some idx' =>
        have hidx' := hagain.first idx' rfl
        refine (ensures_signOn idx' publicKey data flags hagain.sound).bind ?_
        intro answer w₅ htried'
        obtain ⟨dropped', htries₅, -⟩ := htried'.tries
        refine ⟨htried'.seen.trans (hseen₄.trans hseen), hle.trans (hle₄.trans htried'.swapped),
          htried'.sound,
          [⟨idx, publicKey, w₁.looked, dropped⟩, ⟨idx', publicKey, w₄.looked, dropped'⟩], ?_,
          ⟨Nat.le_refl 2, ?_, ?_⟩, ?_⟩
        · rw [htries₅, htries₄, htries, List.append_assoc]
          rfl
        · exact List.forall_mem_cons.mpr ⟨⟨rfl, hidx⟩, List.forall_mem_singleton.mpr ⟨rfl, hidx'⟩⟩
        · exact List.forall_mem_singleton.mpr (hdropped e rfl)
        · exact fun hsame other hother =>
            ⟨_, rfl, hfirst w₅ (hle₄.trans htried'.swapped) hsame other hother⟩
    · exact hret

/-! ## The agent's own signatures -/

/-- An operation that asks nothing of the pool and does not look up the keys served here. -/
def AgentOp.Direct : AgentOp → Prop
  | .upstreamSign _ _ _ | .servedKeys | .findCachedKey _ => False
  | _ => True

theorem acquirePin_direct (op : String) (g : Guid) (slotId : UInt8) :
    (acquirePin op g slotId).Only AgentOp.Direct := by
  rw [acquirePin]
  split
  · refine ⟨trivial, ?_⟩
    rintro (e | acquired) <;> trivial
  · trivial

theorem offerTooRisky_direct (g : Guid) (acquired : AcquiredPin) :
    (offerTooRisky g acquired).Only AgentOp.Direct := by
  rw [offerTooRisky]
  split
  · exact ⟨trivial, fun _ => trivial⟩
  · trivial

theorem withPin_direct {α : Type} (op : String) (g : Guid) (slotId : UInt8)
    {run : SlotInfo → AgentProg (Except String α)} (hrun : ∀ slot, (run slot).Only AgentOp.Direct)
    (rounds attempt : Nat) : (withPin op g slotId run rounds attempt).Only AgentOp.Direct := by
  have hrun' : ∀ slot, (run slot >>= fun result => pure (some result)).Only AgentOp.Direct :=
    fun slot => (hrun slot).bind fun _ => trivial
  induction rounds generalizing attempt with
  | zero => trivial
  | succ rounds ih =>
    rw [withPin]
    refine (acquirePin_direct op g slotId).bind ?_
    rintro (e | acquired)
    · trivial
    refine ⟨trivial, ?_⟩
    rintro (e | ⟨⟩)
    · trivial
    refine ⟨trivial, ?_⟩
    rintro (e | ⟨⟩)
    · trivial
    refine ⟨trivial, ?_⟩
    rintro (e | slot)
    · trivial
    rcases acquired with _ | acquired
    · exact hrun' slot
    · refine (offerTooRisky_direct g acquired).bind ?_
      rintro (_ | _)
      · refine ⟨trivial, ?_⟩
        rintro (e | ⟨⟩)
        · cases e with
          | pinIncorrect retries =>
            by_cases hlimit : attempt < pinRetryLimit
            · simp only [hlimit, if_true]
              exact ⟨trivial, fun _ => ih (attempt + 1)⟩
            · simp only [hlimit, if_false]
              trivial
          | _ => trivial
        · exact ⟨trivial, fun _ => hrun' slot⟩
      · exact ⟨trivial, fun _ => ih attempt⟩

theorem signPrehash_direct (g : Guid) (slotId : UInt8) (input : Bytes) (slot : SlotInfo) :
    (signPrehash g slotId input slot).Only AgentOp.Direct := by
  refine ⟨trivial, ?_⟩
  rintro (e | signature) <;> trivial

/-- No sign request has gone to an upstream. -/
structure Untried (natives : List NativeKey) (w w' : PoolWorld) : Prop where
  seen : w'.seen = natives
  sound : w'.Sound
  tries : w'.tries = w.tries

/-- The agent's own operations try no upstream. -/
theorem ensures_direct {natives : List NativeKey} (w : PoolWorld) (op : AgentOp) (h : op.Direct)
    (w₁ : PoolWorld) (hw : Untried natives w w₁) :
    (onPool pool op).Ensures (PoolStep pool) (fun _ w' => Untried natives w w') w₁ := by
  have hsingle : onPool pool op = Prog.op (PoolOp.agent op) := by
    cases op <;> first | rfl | cases h
  rw [hsingle]
  rintro ans w' ⟨w₂, h₂, hown⟩
  have hsame : w' = w₂ := by
    cases op <;> first | exact hown | cases h
  rw [hsame]
  exact ⟨h₂.seen.trans hw.seen, h₂.sound hw.sound, h₂.tries.trans hw.tries⟩

/-- What comes of a sign request: one for a key that is served here, and one that is refused, goes to
no upstream; any other goes where the key was listed. -/
def SignRouted (pool : UpstreamPool) (publicKey data : Bytes) (w w' : PoolWorld) : Prop :=
  if refuseOperatorActSignedData data = .ok () ∧ publicKey ∉ w'.seen.map NativeKey.publicKey ∧
      pool.upstreams ≠ [] then Asked publicKey w w'
  else w'.tries = w.tries

theorem ensures_pooledSignInner (setup : AgentSetup) (rounds : Nat) (publicKey data : Bytes)
    (flags : UInt32) {w : PoolWorld} (hsound : w.Sound) :
    (pooledSignInner setup pool rounds publicKey data flags).Ensures (PoolStep pool)
      (fun _ w' => w'.Sound ∧ SignRouted pool publicKey data w w') w := by
  rw [pooledSignInner, signInner]
  rcases hgate : refuseOperatorActSignedData data with e | ⟨⟩
  · refine ⟨hsound, (if_neg ?_).mpr rfl⟩
    rw [hgate]
    exact fun h => by cases h.1
  rintro found _ ⟨w₁, h₁, hfound, rfl⟩
  have hsound₁ : ({ w₁ with seen := w₁.natives } : PoolWorld).Sound := h₁.sound hsound
  rcases found with _ | key
  · have hnot : publicKey ∉ w₁.natives.map NativeKey.publicKey := by
      intro hmem
      obtain ⟨key, hkey, hsame⟩ := List.mem_map.mp hmem
      exact absurd (decide_eq_true hsame) (List.find?_eq_none.mp hfound.symm key hkey)
    rcases hupstreams : pool.upstreams with _ | ⟨first, rest⟩
    · exact ⟨hsound₁, (if_neg fun h => h.2.2 hupstreams).mpr h₁.tries⟩
    · have hpool : ∀ w' : PoolWorld, Asks publicKey { w₁ with seen := w₁.natives } w' →
          w'.Sound ∧ SignRouted pool publicKey data w w' := by
        intro w' h
        refine ⟨h.sound, (if_pos ⟨hgate, ?_, ?_⟩).mpr (h₁.asked h.tries h.swapped)⟩
        · rw [h.seen]
          exact hnot
        · rw [hupstreams]
          exact List.cons_ne_nil _ _
      refine (ensures_poolSign publicKey data flags hsound₁).bind ?_
      rintro (e | ⟨algorithm, data⟩) w' h
      · exact hpool w' h
      · exact hpool w' h
  · have hkey := List.find?_some hfound.symm
    have hmem : publicKey ∈ w₁.natives.map NativeKey.publicKey :=
      List.mem_map.mpr ⟨key, List.mem_of_find?_eq_some hfound.symm, of_decide_eq_true hkey⟩
    have hstart : Untried w₁.natives w { w₁ with seen := w₁.natives } := ⟨rfl, hsound₁, h₁.tries⟩
    refine (Prog.Only.ensures_handled (onPool pool) ?_ (ensures_direct w) hstart).mono ?_
    · dsimp only [Prog.bind]
      rcases prepareSignData setup.crates.sha key.algorithm data flags with e | input
      · trivial
      refine (withPin_direct "sign" key.guid key.slotId
        (signPrehash_direct key.guid key.slotId input) rounds 0).bind ?_
      rintro (_ | e | signature)
      · trivial
      · trivial
      · dsimp only
        split <;> trivial
    · intro answer w' h
      refine ⟨h.sound, (if_neg fun hcond => hcond.2.1 ?_).mpr h.tries⟩
      rw [h.seen]
      exact hmem

/-! ## Runs -/

/-- The requests that the pool is there for. -/
inductive PoolRequest where
  | requestIdentities
  | sign (publicKey data : Bytes) (flags : UInt32)

/-- The program of a request; the bound is on the rounds of a request that asks for a PIN. -/
def poolProgram (setup : AgentSetup) (pool : UpstreamPool) (rounds : Nat) : PoolRequest → PoolProg Answer
  | .requestIdentities => requestIdentitiesInner pool
  | .sign publicKey data flags => pooledSignInner setup pool rounds publicKey data flags

/-- What comes of a request. -/
def Served (pool : UpstreamPool) (w : PoolWorld) : PoolRequest → Answer → PoolWorld → Prop
  | .requestIdentities, answer, w' => Offers pool w answer w'
  | .sign publicKey data _, _, w' => SignRouted pool publicKey data w w'

/-- Requests one after another. -/
def serveAll (setup : AgentSetup) (pool : UpstreamPool) (rounds : Nat) :
    List PoolRequest → PoolProg (List Answer)
  | [] => pure []
  | request :: rest => do
    let answer ← poolProgram setup pool rounds request
    let answers ← serveAll setup pool rounds rest
    pure (answer :: answers)

/-- Every request of a run is served from the state that the one before it left. -/
inductive AllServed (pool : UpstreamPool) :
    List PoolRequest → PoolWorld → List Answer → PoolWorld → Prop where
  | nil (w : PoolWorld) : AllServed pool [] w [] w
  | cons {request : PoolRequest} {rest : List PoolRequest} {w w₁ w' : PoolWorld} {answer : Answer}
      {answers : List Answer} (hserved : Served pool w request answer w₁)
      (hrest : AllServed pool rest w₁ answers w') :
      AllServed pool (request :: rest) w (answer :: answers) w'

theorem ensures_poolProgram (setup : AgentSetup) (rounds : Nat) (request : PoolRequest) {w : PoolWorld}
    (hsound : w.Sound) : (poolProgram setup pool rounds request).Ensures (PoolStep pool)
      (fun answer w' => w'.Sound ∧ Served pool w request answer w') w := by
  cases request with
  | requestIdentities => exact ensures_requestIdentitiesInner hsound
  | sign publicKey data flags => exact ensures_pooledSignInner setup rounds publicKey data flags hsound

theorem ensures_serveAll (setup : AgentSetup) (rounds : Nat) (requests : List PoolRequest) {w : PoolWorld}
    (hsound : w.Sound) : (serveAll setup pool rounds requests).Ensures (PoolStep pool)
      (fun answers w' => AllServed pool requests w answers w') w := by
  induction requests generalizing w with
  | nil => exact .nil w
  | cons request rest ih =>
    refine (ensures_poolProgram setup rounds request hsound).bind ?_
    rintro answer w₁ ⟨hsound₁, hserved⟩
    refine (ih hsound₁).bind ?_
    intro answers w' hrest
    exact .cons hserved hrest

theorem serveAll_offers_and_routes (setup : AgentSetup) (pool : UpstreamPool) (rounds time : Nat)
    (natives : List NativeKey) (requests : List PoolRequest) :
    (serveAll setup pool rounds requests).Ensures (PoolStep pool)
      (AllServed pool requests (.start time natives)) (.start time natives) := by
  have hstart : (PoolWorld.start time natives).Sound := rfl
  exact ensures_serveAll setup rounds requests hstart

/-- A key in two slots of a card. -/
def twoSlots : List NativeKey :=
  [⟨⟨List.replicate 16 1, rfl⟩, 0x9A, .ecP256, [1], "PIV_slot_9A"⟩,
    ⟨⟨List.replicate 16 1, rfl⟩, 0x9D, .ecP256, [1], "PIV_slot_9D"⟩]

/-- Two agents to ask. -/
def twoUpstreams : UpstreamPool := ⟨["first", "second"], 0⟩

/-- The first of them lists a key, the other one cannot be reached. -/
def listedByFirst : List Listed := [.ok [([7], "")], .error "unreachable"]

/-- The other way round. -/
def listedBySecond : List Listed := [.error "unreachable", .ok [([7], "")]]

/-- What there is after a listing. -/
def listedWorld : PoolWorld :=
  { PoolWorld.start 0 [] with known := routes listedByFirst, listing := listedByFirst }

theorem Elsewhere.refl (pool : UpstreamPool) (w : PoolWorld) : Elsewhere pool w w where
  seen := rfl
  passes := rfl
  looked := rfl
  tries := rfl
  time := Nat.le_refl _
  swapped := Nat.le_refl _
  same := fun _ => ⟨rfl, rfl⟩
  lists := fun hne => absurd rfl hne

/-- A key that two slots hold is offered twice; and a sign whose upstream is gone goes to the one
that lists the key after it. -/
theorem not_offered_once :
    (¬ (requestIdentitiesInner ⟨[], 0⟩).Ensures (PoolStep ⟨[], 0⟩)
      (fun answer _ => ∀ ids, answer = .identities ids → (ids.map Prod.fst).Nodup)
      (.start 0 twoSlots)) ∧
    ¬ (twoUpstreams.sign [7] [] 0).Ensures (PoolStep twoUpstreams)
      (fun _ w => ∀ t ∈ w.tries, FirstToList listedByFirst [7] t.upstream) listedWorld := by
  constructor
  · intro h
    have honce := h twoSlots _ ⟨_, .refl _ _, rfl, rfl⟩ _ rfl
    exact absurd honce (by decide)
  · intro h
    have hlooked := h (some 0) _ ⟨_, .refl _ _, rfl, rfl⟩
    have hgone := hlooked (.connectFailed "unreachable") _ ⟨_, .refl _ _, rfl⟩
    have hasked := hgone [some (0, .error "unreachable"), some (1, .ok [([7], "")])] _
      ⟨_, .refl _ _, listedBySecond.map some, rfl, .refl _, rfl⟩
    have hlisted := hasked () _ ⟨_, .refl _ _, rfl⟩
    have hlooked' := hlisted (some 1) _ ⟨_, .refl _ _, rfl, rfl⟩
    have hsigned := hlooked' (.answered (.ok ("", []))) _ ⟨_, .refl _ _, rfl⟩
    have hsecond := (hsigned _ (List.mem_cons_of_mem _ List.mem_cons_self)).first 0
      ⟨_, rfl, List.mem_singleton_self _⟩
    exact absurd hsecond (by decide)

end Piggy.Agent
