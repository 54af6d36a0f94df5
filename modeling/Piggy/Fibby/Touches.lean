import Piggy.Fibby.CardLog
import Piggy.Fibby.Results

/-!
# Touches

A touch is granted by the operator and taken by an operation of a slot that asks for one. An
operation that finds none leaves the card as it is, and its client parks on the pad until the
pad changes. Every touch that was granted is pending or was taken, and no client sleeps on while
one is pending.
-/

namespace Piggy.Fibby

open Piggy.Core Piggy.Box

/-! ## The pad -/

namespace TouchPad

variable {pad pad' : TouchPad} {slot : UInt8} {cachedPolicy : Bool} {now : Nat}
  {generation : UInt64}

/-- A pending touch is taken. With the policy `cached` it opens the window of its slot. -/
structure Taken (pad : TouchPad) (slot : UInt8) (cachedPolicy : Bool) (now : Nat)
    (pad' : TouchPad) : Prop where
  pending : pad'.pending.toNat + 1 = pad.pending.toNat
  generation : pad'.generation = pad.generation ∨ pad'.generation = pad.generation + 1
  cachedUntil : ∀ slot', pad'.cachedUntil slot' =
    if cachedPolicy = true ∧ slot' = slot then some (now + touchCacheWindow)
    else pad.cachedUntil slot'

/-- The window of a slot is open. -/
def Open (pad : TouchPad) (slot : UInt8) (now : Nat) : Prop :=
  ∃ until', pad.cachedUntil slot = some until' ∧ now < until'

theorem toNat_sub_one {pending : UInt32} (h : pending ≠ 0) :
    (pending - 1).toNat + 1 = pending.toNat := by
  have hpositive : 0 < pending.toNat := Nat.pos_of_ne_zero fun hzero => h (UInt32.toNat_inj.mp hzero)
  have hsub := UInt32.toNat_sub_of_le pending 1 (UInt32.le_iff_toNat_le.mpr hpositive)
  rw [hsub]
  exact Nat.sub_add_cancel hpositive

theorem tryConsume_ok (h : pad.tryConsume slot cachedPolicy now = .ok pad') :
    (cachedPolicy = true ∧ pad.Open slot now ∧ pad' = pad) ∨
      pad.Taken slot cachedPolicy now pad' := by
  rw [tryConsume] at h
  split at h
  · next hopen =>
    obtain ⟨until', huntil, hnow⟩ := (Option.any_eq_true _ _).mp hopen.2
    exact .inl ⟨hopen.1, ⟨until', huntil, by simpa using hnow⟩, (Except.ok.inj h).symm⟩
  · split at h
    · cases h
    next hpending =>
    have hpositive : (pad.pending - 1).toNat + 1 = pad.pending.toNat := toNat_sub_one hpending
    split at h
    · next hcached =>
      cases h
      refine .inr ⟨hpositive, .inr rfl, fun slot' => ?_⟩
      by_cases hslot : slot' = slot
      · subst hslot
        simp [hcached]
      · simp [hslot]
    · next hcached =>
      cases h
      refine .inr ⟨hpositive, .inl rfl, fun slot' => ?_⟩
      simp [hcached]

theorem tryConsume_error (h : pad.tryConsume slot cachedPolicy now = .error generation) :
    pad.pending = 0 ∧ generation = pad.generation := by
  rw [tryConsume] at h
  split at h
  · cases h
  · split at h
    · next hpending => exact ⟨hpending, (Except.error.inj h).symm⟩
    · split at h
      · cases h
      · cases h

end TouchPad

/-! ## Operations -/

namespace VirtualCard

variable {crypto : CardCrypto} {around : Surroundings} {c : VirtualCard} {apdu : Bytes}
  {slot : UInt8}

/-- An event that closes the windows of all slots. -/
def ClearsCache (c : VirtualCard) : CardEvent → Prop
  | .setPresent present => present = false ∧ c.inserted = true
  | .transmit apdu _ => c.FactoryReset apdu
  | _ => False

/-- A slot that asks for a touch. -/
def AsksTouch (c : VirtualCard) (slot : UInt8) : Prop :=
  c.effectiveTouchPolicy slot = TouchPolicy.always ∨
    c.effectiveTouchPolicy slot = TouchPolicy.cached

/-- What the gate does to the pad. -/
theorem passTouchGate_pad {now : Nat} {touch : TouchPad}
    (h : c.passTouchGate slot now = (true, { c with touch := touch })) :
    (touch = c.touch ∧ (¬ c.AsksTouch slot ∨ c.autoTouch = true)) ∨
      c.AsksTouch slot ∧ c.autoTouch = false ∧
        c.touch.tryConsume slot (decide (c.effectiveTouchPolicy slot = TouchPolicy.cached)) now =
          .ok touch := by
  rw [passTouchGate] at h
  split at h
  · next hpolicy =>
    have htouch := congrArg (·.2.touch) h
    exact .inl ⟨htouch.symm, .inl (not_or.mpr hpolicy)⟩
  next hpolicy =>
  split at h
  · next hauto =>
    have htouch := congrArg (·.2.touch) h
    exact .inl ⟨htouch.symm, .inr hauto⟩
  next hauto =>
  have hasks : c.AsksTouch slot := by
    by_contra hother
    exact hpolicy (not_or.mp hother)
  split at h
  · next touch' hok =>
    have htouch : touch' = touch := congrArg (·.2.touch) h
    rw [htouch] at hok
    exact .inr ⟨hasks, by simpa using hauto, hok⟩
  · exact absurd (congrArg Prod.fst h) (fun h => by cases h)

/-- The gate is closed only when no touch is pending, and its mark says what the client saw. -/
theorem passTouchGate_blocked {now : Nat} {b : UInt8 × UInt64}
    (h : c.passTouchGate slot now = (false, { c with touchBlocked := some b })) :
    c.touch.pending = 0 ∧ b.2 = c.touch.generation := by
  rw [passTouchGate] at h
  split at h
  · exact absurd (congrArg Prod.fst h) (fun h => by cases h)
  split at h
  · exact absurd (congrArg Prod.fst h) (fun h => by cases h)
  split at h
  · exact absurd (congrArg Prod.fst h) (fun h => by cases h)
  · next generation herror =>
    obtain ⟨hpending, rfl⟩ := TouchPad.tryConsume_error herror
    have hmark : some (slot, c.touch.generation) = some b := congrArg (·.2.touchBlocked) h
    obtain rfl := Option.some.inj hmark
    exact ⟨hpending, rfl⟩

/-- What an event makes of the pad. -/
inductive TouchEffect (crypto : CardCrypto) (c : VirtualCard) (e : CardEvent) : TouchPad → Prop where
  | same (he : e ≠ .grantTouch) : TouchEffect crypto c e c.touch
  | granted (he : e = .grantTouch) : TouchEffect crypto c e c.touch.grant
  | cleared (h : c.ClearsCache e) : TouchEffect crypto c e c.touch.clearCache
  | taken (apdu : Bytes) (around : Surroundings) (slot : UInt8) (pad : TouchPad)
      (he : e = .transmit apdu around) (huse : c.UsesKey crypto apdu around slot)
      (hasks : c.AsksTouch slot) (hauto : c.autoTouch = false)
      (h : c.touch.Taken slot (decide (c.effectiveTouchPolicy slot = TouchPolicy.cached)) around.now
        pad) : TouchEffect crypto c e pad

theorem touch_finish (r : Bytes × VirtualCard) : (finish apdu r).2.touch = r.2.touch := by
  rw [finish]
  split
  · rfl
  · rfl

theorem touch_consumePin (c : VirtualCard) (pin : UInt8) : (c.consumePin pin).touch = c.touch := by
  rw [consumePin]
  split
  · rfl
  · rfl

theorem dispatch_touch (crypto : CardCrypto) (around : Surroundings) (c : VirtualCard)
    (apdu : Bytes) :
    TouchEffect crypto c (.transmit apdu around) (c.dispatch crypto around apdu).2.touch := by
  have hresult := dispatch_result crypto around c apdu
  generalize hr : c.dispatch crypto around apdu = r at hresult
  cases hresult with
  | notSelected => exact .same (by simp)
  | unheard =>
    rw [touch_finish]
    exact .same (by simp)
  | @ran hin ins p1 p2 hreceived hins r hresult =>
    rw [touch_finish]
    cases hresult with
    | reset hins hpin hpuk =>
      obtain ⟨rfl, rfl, rfl⟩ := hins
      exact .cleared ⟨hreceived, hpin, hpuk⟩
    | used data touch hins hdata hpin hgate =>
      obtain ⟨rfl, rfl⟩ := hins
      rw [touch_consumePin]
      have huse : c.UsesKey crypto apdu around p2 :=
        ⟨hreceived, data, hdata, by rw [hr, finish_fst]⟩
      rcases passTouchGate_pad hgate with ⟨hsame, -⟩ | ⟨hasks, hauto, hok⟩
      · subst hsame
        exact .same (by simp)
      · rcases TouchPad.tryConsume_ok hok with ⟨-, -, hsame⟩ | htaken
        · subst hsame
          exact .same (by simp)
        · exact .taken apdu around p2 touch rfl huse hasks hauto htaken
    | refused | answered | read | selected | objectPut | verified | tried | challenged
    | authenticated | notAuthenticated | mgmtKeySet | generated | imported | blocked => exact .same (by simp)

theorem after_touch (crypto : CardCrypto) (c : VirtualCard) (e : CardEvent) :
    TouchEffect crypto c e (c.after crypto e).touch := by
  cases e with
  | transmit apdu around => exact dispatch_touch crypto around c apdu
  | grantTouch => exact .granted rfl
  | setPresent present =>
    simp only [after, setPresent]
    split
    · next hout =>
      have hout : present = false ∧ c.inserted = true := by simpa using hout
      exact .cleared hout
    · exact .same (by simp)
  | endTransaction disposition =>
    simp only [after, endTransaction]
    split
    · exact .same (by simp)
    · exact .same (by simp)
  | injectFault fault =>
    simp only [after, injectFault]
    split
    · exact .same (by simp)
    · exact .same (by simp)
  | connect | disconnect disposition | clearFaults => exact .same (by simp)

theorem touch_of_clears {e : CardEvent} (h : c.ClearsCache e) :
    (c.after crypto e).touch = c.touch.clearCache := by
  cases e with
  | setPresent present =>
    obtain ⟨rfl, hin⟩ := h
    simp only [after, setPresent, hin]
    rfl
  | transmit apdu around =>
    have hreset : c.FactoryReset apdu := h
    rw [after, dispatch_of_received crypto around hreset.received, touch_finish,
      command_factoryReset, handleFactoryReset]
    simp only [hreset.pin, hreset.puk, ne_eq, not_true_eq_false, or_self, if_false]
  | connect | disconnect disposition | endTransaction disposition | injectFault fault | clearFaults
  | grantTouch => exact h.elim

/-- An operation that is let through without a touch rides an open window, or asks for none. -/
theorem UsesKey.touch_cases (h : c.UsesKey crypto apdu around slot) (hauto : c.autoTouch = false)
    (hasks : c.AsksTouch slot) :
    (c.effectiveTouchPolicy slot = TouchPolicy.cached ∧ c.touch.Open slot around.now ∧
        (c.dispatch crypto around apdu).2.touch = c.touch) ∨
      c.touch.Taken slot (decide (c.effectiveTouchPolicy slot = TouchPolicy.cached)) around.now
        (c.dispatch crypto around apdu).2.touch := by
  obtain ⟨-, -, touch, hgate, hdispatch⟩ := h.dispatch_eq
  have htouch : (c.dispatch crypto around apdu).2.touch = touch := by
    rw [hdispatch]
    exact touch_consumePin _ _
  rw [htouch]
  rcases passTouchGate_pad hgate with ⟨-, hnone | hyes⟩ | ⟨-, -, hok⟩
  · exact absurd hasks hnone
  · exact absurd (hauto.symm.trans hyes) nofun
  · rcases TouchPad.tryConsume_ok hok with ⟨hcached, hopen, hsame⟩ | htaken
    · exact .inl ⟨of_decide_eq_true hcached, hopen, hsame⟩
    · exact .inr htaken

end VirtualCard

/-! ## Accounts -/

namespace Entry

/-- The event grants a touch. -/
def grantsTouch (e : Entry) : Bool :=
  match e.event with
  | .grantTouch => true
  | _ => false

/-- The event leaves fewer touches pending. -/
def takesTouch (crypto : CardCrypto) (e : Entry) : Bool :=
  !e.grantsTouch && decide ((e.card.after crypto e.event).touch.pending < e.card.touch.pending)

/-- A grant that the count of pending touches has room for. -/
def HasRoom (e : Entry) : Prop :=
  e.grantsTouch = true → e.card.touch.pending.toNat + 1 < 2 ^ 32

/-- The event clears the windows of the cached policies. -/
def ClearsCache (e : Entry) : Prop := e.card.ClearsCache e.event

/-- An operation of a slot at a time. -/
def UsesAt (crypto : CardCrypto) (e : Entry) (slot : UInt8) (now : Nat) : Prop :=
  ∃ apdu around, e.event = .transmit apdu around ∧ around.now = now ∧
    e.card.UsesKey crypto apdu around slot

/-- An operation of a slot that waits for a touch. -/
def Blocked (crypto : CardCrypto) (e : Entry) : Prop :=
  ∃ apdu around, e.event = .transmit apdu around ∧
    (e.card.dispatch crypto around apdu).2.touchBlocked ≠ none

end Entry

/-- An operation took a touch that opened the window of its slot at a time, and no event behind
it closed the window. -/
def OpenedAt (crypto : CardCrypto) (log : List Entry) (slot : UInt8) (now : Nat) : Prop :=
  ∃ between first older, log = between ++ first :: older ∧ first.UsesAt crypto slot now ∧
    first.card.effectiveTouchPolicy slot = TouchPolicy.cached ∧
    first.takesTouch crypto = true ∧ ∀ e ∈ between, ¬ e.ClearsCache

/-- The accounts of a pad. Some cards are exempt: their operations pass as they are. -/
structure Accounted (crypto : CardCrypto) (exempt : VirtualCard → Prop) (log : List Entry)
    (c : VirtualCard) : Prop where
  balance : log.countP (·.takesTouch crypto) + c.touch.pending.toNat = log.countP (·.grantsTouch)
  taken : ∀ e ∈ log, e.takesTouch crypto = true →
    ∃ slot now, e.UsesAt crypto slot now ∧ e.card.AsksTouch slot
  always : ∀ e ∈ log, ∀ slot now, e.UsesAt crypto slot now →
    e.card.effectiveTouchPolicy slot = TouchPolicy.always → ¬ exempt e.card →
      e.takesTouch crypto = true
  cached : ∀ newer e older slot now, log = newer ++ e :: older → e.UsesAt crypto slot now →
    e.card.effectiveTouchPolicy slot = TouchPolicy.cached → ¬ exempt e.card →
      e.takesTouch crypto = false →
        ∃ earlier, OpenedAt crypto older slot earlier ∧ now < earlier + touchCacheWindow
  blocked : ∀ e ∈ log, e.Blocked crypto →
    (e.card.after crypto e.event).unmarked = e.card.unmarked

section Runs

variable {crypto : CardCrypto} {log : List Entry} {c c' : VirtualCard} {e : Entry}

/-- A pad that nobody touched yet. -/
def Untouched (c : VirtualCard) : Prop := c.touch = TouchPad.new

theorem Entry.Acts.touch_eq (h : Entry.Acts crypto c e c') :
    c'.touch = (e.card.after crypto e.event).touch := by
  have hsame := congrArg VirtualCard.touch h.2
  rw [h.1]
  exact hsame

theorem not_grantsTouch {apdu : Bytes} {around : VirtualCard.Surroundings}
    (he : e.event = .transmit apdu around) : e.grantsTouch = false := by
  rw [Entry.grantsTouch, he]

theorem takesTouch_of_taken {apdu : Bytes} {around : VirtualCard.Surroundings} {slot : UInt8}
    {cachedPolicy : Bool} {now : Nat} (he : e.event = .transmit apdu around)
    (h : e.card.touch.Taken slot cachedPolicy now (e.card.after crypto e.event).touch) :
    e.takesTouch crypto = true := by
  have hless : (e.card.after crypto e.event).touch.pending < e.card.touch.pending :=
    UInt32.lt_iff_toNat_lt.mpr (by have hpending := h.pending; omega)
  rw [Entry.takesTouch, not_grantsTouch he, decide_eq_true hless]
  rfl

theorem takesTouch_eq (e : Entry) (hgrants : e.grantsTouch = false) :
    e.takesTouch crypto =
      decide ((e.card.after crypto e.event).touch.pending < e.card.touch.pending) := by
  rw [Entry.takesTouch, hgrants, Bool.not_false, Bool.true_and]

theorem grantsTouch_iff : e.grantsTouch = true ↔ e.event = .grantTouch := by
  rw [Entry.grantsTouch]
  split
  · next hgrant => simp [hgrant]
  · next hother => exact ⟨Bool.noConfusion, fun hgrant => (hother hgrant).elim⟩

/-- One event keeps the balance. -/
theorem balance_step (crypto : CardCrypto) (e : Entry) (hroom : e.HasRoom) :
    (if e.takesTouch crypto then 1 else 0) + (e.card.after crypto e.event).touch.pending.toNat =
      e.card.touch.pending.toNat + if e.grantsTouch then 1 else 0 := by
  have heffect := VirtualCard.after_touch crypto e.card e.event
  have htakes : e.grantsTouch = false → e.takesTouch crypto =
      decide ((e.card.after crypto e.event).touch.pending < e.card.touch.pending) :=
    takesTouch_eq e
  generalize hpad : (e.card.after crypto e.event).touch = pad at heffect htakes
  cases heffect with
  | same he =>
    have hgrants : e.grantsTouch = false := Bool.eq_false_iff.mpr fun h => he (grantsTouch_iff.mp h)
    simp [htakes hgrants, hgrants]
  | granted he =>
    have hgrants : e.grantsTouch = true := grantsTouch_iff.mpr he
    have hnext : (e.card.touch.pending + 1).toNat = e.card.touch.pending.toNat + 1 := by
      rw [UInt32.toNat_add]
      exact Nat.mod_eq_of_lt (hroom hgrants)
    simp [Entry.takesTouch, hgrants, TouchPad.grant, hnext]
  | cleared h =>
    have hgrants : e.grantsTouch = false := Bool.eq_false_iff.mpr fun hyes => by
      rw [grantsTouch_iff.mp hyes] at h
      exact h.elim
    simp [htakes hgrants, hgrants, TouchPad.clearCache]
  | taken apdu around slot pad he huse hasks hauto h =>
    have hpending := h.pending
    have hgrants := not_grantsTouch he
    have hless : pad.pending < e.card.touch.pending := UInt32.lt_iff_toNat_lt.mpr (by omega)
    rw [htakes hgrants, hgrants, if_pos (decide_eq_true hless)]
    simp only [Bool.false_eq_true, if_false]
    omega

theorem balance_run (h : Run Untouched (Entry.Acts crypto) anyStep log c)
    (hroom : ∀ e ∈ log, e.HasRoom) :
    log.countP (·.takesTouch crypto) + c.touch.pending.toNat = log.countP (·.grantsTouch) := by
  induction h with
  | start hnew =>
    rw [Untouched] at hnew
    rw [hnew]
    rfl
  | @step log c c' e hrun hstep _ ih =>
    have hbalance := balance_step crypto e (hroom e List.mem_cons_self)
    rw [← hstep.touch_eq, hstep.1] at hbalance
    have hbefore := ih fun x hx => hroom x (List.mem_cons_of_mem _ hx)
    rw [List.countP_cons, List.countP_cons]
    omega

/-- The generation moves with a grant or a taken touch only. -/
theorem generation_step (crypto : CardCrypto) (e : Entry) :
    (e.card.after crypto e.event).touch.generation.toNat ≤ e.card.touch.generation.toNat +
      ((if e.takesTouch crypto then 1 else 0) + if e.grantsTouch then 1 else 0) := by
  have hnext (g : UInt64) : (g + 1).toNat ≤ g.toNat + 1 := by
    rw [UInt64.toNat_add]
    exact Nat.mod_le _ _
  have heffect := VirtualCard.after_touch crypto e.card e.event
  have htakes {apdu around slot cachedPolicy now} :=
    @takesTouch_of_taken crypto e apdu around slot cachedPolicy now
  generalize (e.card.after crypto e.event).touch = pad at heffect htakes ⊢
  cases heffect with
  | same => exact Nat.le_add_right _ _
  | cleared => exact Nat.le_add_right _ _
  | granted he =>
    rw [if_pos (grantsTouch_iff.mpr he)]
    exact (hnext _).trans (by omega)
  | taken apdu around slot pad he huse hasks hauto h =>
    rw [if_pos (htakes he h)]
    rcases h.generation with hsame | hmoved
    · rw [hsame]
      exact Nat.le_add_right _ _
    · rw [hmoved]
      exact (hnext _).trans (by omega)

theorem generation_run (h : Run Untouched (Entry.Acts crypto) anyStep log c) :
    c.touch.generation.toNat ≤ log.countP (·.takesTouch crypto) + log.countP (·.grantsTouch) := by
  induction h with
  | start hnew =>
    rw [Untouched] at hnew
    rw [hnew]
    exact Nat.zero_le _
  | @step log c c' e hrun hstep _ ih =>
    have hmoved := generation_step crypto e
    rw [← hstep.touch_eq, hstep.1] at hmoved
    rw [List.countP_cons, List.countP_cons]
    omega

theorem takesTouch_cases (h : e.takesTouch crypto = true) :
    ∃ slot now, e.UsesAt crypto slot now ∧ e.card.AsksTouch slot ∧
      e.card.touch.Taken slot (decide (e.card.effectiveTouchPolicy slot = TouchPolicy.cached)) now
        (e.card.after crypto e.event).touch := by
  obtain ⟨hgrants, hless⟩ := (Bool.and_eq_true _ _).mp h
  replace hless := of_decide_eq_true hless
  have heffect := VirtualCard.after_touch crypto e.card e.event
  generalize (e.card.after crypto e.event).touch = pad at heffect hless ⊢
  cases heffect with
  | same => exact absurd hless (UInt32.lt_irrefl _)
  | granted he =>
    rw [grantsTouch_iff.mpr he] at hgrants
    cases hgrants
  | cleared => exact absurd hless (UInt32.lt_irrefl _)
  | taken apdu around slot pad he huse hasks hauto h =>
    exact ⟨slot, around.now, ⟨apdu, around, he, rfl, huse⟩, hasks, h⟩

/-- Every window that is open was opened by a touch, and not closed since. -/
theorem opened_run (h : Run Untouched (Entry.Acts crypto) anyStep log c) {slot : UInt8}
    {until' : Nat} (hopen : c.touch.cachedUntil slot = some until') :
    ∃ now, OpenedAt crypto log slot now ∧ until' = now + touchCacheWindow := by
  induction h with
  | start hnew =>
    rw [Untouched] at hnew
    rw [hnew] at hopen
    cases hopen
  | @step log c c' e hrun hstep _ ih =>
    have hkept (hclears : ¬ e.ClearsCache) (hbefore : e.card.touch.cachedUntil slot = some until') :
        ∃ now, OpenedAt crypto (e :: log) slot now ∧ until' = now + touchCacheWindow := by
      rw [hstep.1] at hbefore
      obtain ⟨now, ⟨between, first, older, rfl, huse, hpolicy, htakes, hbetween⟩, hnow⟩ := ih hbefore
      refine ⟨now, ⟨e :: between, first, older, rfl, huse, hpolicy, htakes, fun x hx => ?_⟩, hnow⟩
      rcases List.mem_cons.mp hx with rfl | hx
      · exact hclears
      · exact hbetween x hx
    rw [hstep.touch_eq] at hopen
    by_cases hclears : e.ClearsCache
    · rw [VirtualCard.touch_of_clears hclears] at hopen
      cases hopen
    · have heffect := VirtualCard.after_touch crypto e.card e.event
      generalize hpad : (e.card.after crypto e.event).touch = pad at heffect hopen
      cases heffect with
      | same => exact hkept hclears hopen
      | granted => exact hkept hclears hopen
      | cleared h => exact absurd h hclears
      | taken apdu around slot' pad he huse hasks hauto h =>
        rw [h.cachedUntil] at hopen
        split at hopen
        · next hslot =>
          obtain ⟨hcached, rfl⟩ := hslot
          refine ⟨around.now, ⟨[], e, log, rfl, ⟨apdu, around, he, rfl, huse⟩,
            of_decide_eq_true hcached, ?_, ?_⟩, (Option.some.inj hopen).symm⟩
          · rw [← hpad] at h
            exact takesTouch_of_taken he h
          · exact fun x hx => absurd hx List.not_mem_nil
        · exact hkept hclears hopen

theorem accounted_run (h : Run Untouched (Entry.Acts crypto) anyStep log c)
    (hroom : ∀ e ∈ log, e.HasRoom) :
    Accounted crypto (·.autoTouch = true) log c := by
  constructor
  · exact balance_run h hroom
  · intro e _ htakes
    obtain ⟨slot, now, huse, hasks, -⟩ := takesTouch_cases htakes
    exact ⟨slot, now, huse, hasks⟩
  · rintro e _ slot now ⟨apdu, around, he, rfl, huse⟩ hpolicy hexempt
    apply takesTouch_of_taken he
    rcases huse.touch_cases (by simpa using hexempt) (.inl hpolicy) with ⟨hcached, -⟩ | htaken
    · exact absurd (hpolicy.symm.trans hcached) (by decide)
    · rw [he]
      exact htaken
  · rintro newer e older slot now rfl ⟨apdu, around, he, rfl, huse⟩ hpolicy hexempt htakes
    obtain ⟨before, after, hrun, ⟨rfl, -⟩, -⟩ := h.step_of_append
    rcases huse.touch_cases (by simpa using hexempt) (.inr hpolicy) with
      ⟨-, ⟨until', huntil, hnow⟩, -⟩ | htaken
    · obtain ⟨earlier, hopened, rfl⟩ := opened_run hrun huntil
      exact ⟨earlier, hopened, hnow⟩
    · rw [takesTouch_of_taken he (by rw [he]; exact htaken)] at htakes
      cases htakes
  · rintro e _ ⟨apdu, around, he, hblocked⟩
    obtain ⟨b, hb⟩ := Option.ne_none_iff_exists'.mp hblocked
    obtain ⟨-, -, hdispatch⟩ := VirtualCard.dispatch_blocked hb
    rw [he, VirtualCard.after, hdispatch]
    rfl

end Runs

/-! ## Clients that wait -/

/-- Where the thread of a client stands. -/
inductive TouchWait where
  | idle
  /-- It sleeps on the pad, with its command and the generation that the card saw. -/
  | parked (apdu : Bytes) (seen : UInt64)
  /-- The pad has changed; the command is to be tried again. -/
  | woken (apdu : Bytes)

/-- A card and the threads of its clients. -/
structure Desk where
  card : VirtualCard
  waiters : Nat → TouchWait

/-- What happens at the desk. -/
inductive DeskEvent where
  /-- A client sends a command. -/
  | attempt (i : Nat) (apdu : Bytes) (around : VirtualCard.Surroundings)
  | wake (i : Nat)
  /-- A woken client tries its command again. -/
  | retry (i : Nat) (around : VirtualCard.Surroundings)
  /-- The touch did not come in time, or the client is gone. -/
  | giveUp (i : Nat)
  /-- What else happens to the card, commands of clients that do not wait among it. -/
  | other (event : CardEvent)

namespace Desk

variable {crypto : CardCrypto}

/-- An attempt under the lock of the card. A blocked one parks its client. -/
def attempt (crypto : CardCrypto) (s : Desk) (i : Nat) (apdu : Bytes)
    (around : VirtualCard.Surroundings) : Desk :=
  let c := (s.card.dispatch crypto around apdu).2
  ⟨c.unmarked, Function.update s.waiters i
    (match c.touchBlocked with
      | some (_, seen) => .parked apdu seen
      | none => .idle)⟩

/-- The desk behind an event; nothing when the client is not at that point. -/
def step (crypto : CardCrypto) (s : Desk) : DeskEvent → Option Desk
  | .attempt i apdu around =>
    match s.waiters i with
    | .idle => some (s.attempt crypto i apdu around)
    | _ => none
  | .wake i =>
    match s.waiters i with
    | .parked apdu seen =>
      if s.card.touch.generation ≠ seen then
        some { s with waiters := Function.update s.waiters i (.woken apdu) } else none
    | _ => none
  | .retry i around =>
    match s.waiters i with
    | .woken apdu => some (s.attempt crypto i apdu around)
    | _ => none
  | .giveUp i =>
    match s.waiters i with
    | .idle => none
    | _ => some { s with waiters := Function.update s.waiters i .idle }
  | .other event => some { s with card := (s.card.after crypto event).unmarked }

end Desk

/-- A step at the desk, with the desk as it was. -/
structure DeskAct where
  desk : Desk
  event : DeskEvent

namespace DeskAct

/-- The step is one of the desk from the one state to the other. -/
def Step (crypto : CardCrypto) (s : Desk) (a : DeskAct) (s' : Desk) : Prop :=
  a.desk = s ∧ s.step crypto a.event = some s'

/-- What the card sees of a step. -/
def entry (a : DeskAct) : Option Entry :=
  match a.event with
  | .attempt _ apdu around => some ⟨a.desk.card, .transmit apdu around⟩
  | .retry i around =>
    match a.desk.waiters i with
    | .woken apdu => some ⟨a.desk.card, .transmit apdu around⟩
    | _ => none
  | .other event => some ⟨a.desk.card, event⟩
  | _ => none

end DeskAct

/-- A desk before its first client. -/
structure Desk.Opening (s : Desk) : Prop where
  untouched : Untouched s.card
  idle : ∀ i, s.waiters i = .idle

/-- Nobody sleeps on: while a touch is pending, whoever is parked can be woken. -/
def Desk.Awake (crypto : CardCrypto) (s : Desk) : Prop :=
  ∀ i apdu seen, s.waiters i = .parked apdu seen → 0 < s.card.touch.pending →
    seen < s.card.touch.generation ∧ (s.step crypto (.wake i)).isSome

section Desks

variable {crypto : CardCrypto} {log : List DeskAct} {s s' : Desk} {a : DeskAct}

theorem attempt_acts (s : Desk) (i : Nat) (apdu : Bytes) (around : VirtualCard.Surroundings) :
    Entry.Acts crypto s.card ⟨s.card, .transmit apdu around⟩
      (s.attempt crypto i apdu around).card := ⟨rfl, rfl⟩

/-- What the card sees of a step is what happens to it. -/
theorem entry_step (h : DeskAct.Step crypto s a s') :
    (a.entry = none ∧ s'.card = s.card) ∨
      ∃ e, a.entry = some e ∧ Entry.Acts crypto s.card e s'.card := by
  obtain ⟨desk, event⟩ := a
  obtain ⟨rfl, hstep⟩ := h
  dsimp only at hstep
  cases event with
  | attempt i apdu around =>
    rw [Desk.step] at hstep
    split at hstep
    · cases hstep
      exact .inr ⟨_, rfl, attempt_acts desk i apdu around⟩
    · cases hstep
  | wake i =>
    rw [Desk.step] at hstep
    split at hstep
    · split at hstep
      · cases hstep
        exact .inl ⟨rfl, rfl⟩
      · cases hstep
    · cases hstep
  | retry i around =>
    rw [Desk.step] at hstep
    split at hstep
    · next apdu hwoken =>
      cases hstep
      refine .inr ⟨⟨desk.card, .transmit apdu around⟩, ?_, attempt_acts desk i apdu around⟩
      simp only [DeskAct.entry, hwoken]
    · cases hstep
  | giveUp i =>
    rw [Desk.step] at hstep
    split at hstep
    · cases hstep
    · cases hstep
      exact .inl ⟨rfl, rfl⟩
  | other event =>
    cases hstep
    exact .inr ⟨_, rfl, rfl, rfl⟩

theorem run_entries (h : Run Desk.Opening (DeskAct.Step crypto) anyStep log s) :
    Run Untouched (Entry.Acts crypto) anyStep (log.filterMap DeskAct.entry) s.card := by
  induction h with
  | start hopening => exact .start hopening.untouched
  | step hrun hstep _ ih =>
    rcases entry_step hstep with ⟨hnone, hsame⟩ | ⟨e, he, hacts⟩
    · rw [List.filterMap_cons_none hnone, hsame]
      exact ih
    · rw [List.filterMap_cons_some he]
      exact ih.step hacts trivial

/-- Whoever is parked saw no later pad than the one there is, and an older one while a touch is
pending. -/
def Desk.Parked (s : Desk) : Prop :=
  ∀ i apdu seen, s.waiters i = .parked apdu seen →
    seen ≤ s.card.touch.generation ∧ (0 < s.card.touch.pending → seen < s.card.touch.generation)

/-- A pad only goes on; and where a touch is pending, one was pending before or the generation
has moved. -/
structure GoesOn (pad pad' : TouchPad) : Prop where
  generation : pad.generation ≤ pad'.generation
  pending : 0 < pad'.pending → 0 < pad.pending ∨ pad.generation < pad'.generation

theorem lt_add_one {g : UInt64} (h : g.toNat + 1 < 2 ^ 64) : g < g + 1 := by
  have hnext : (g + 1).toNat = g.toNat + 1 := by
    rw [UInt64.toNat_add]
    exact Nat.mod_eq_of_lt h
  exact UInt64.lt_iff_toNat_lt.mpr (by omega)

theorem goesOn_after (crypto : CardCrypto) (c : VirtualCard) (e : CardEvent)
    (hfits : c.touch.generation.toNat + 1 < 2 ^ 64) :
    GoesOn c.touch (c.after crypto e).touch := by
  have hnext := lt_add_one hfits
  have heffect := VirtualCard.after_touch crypto c e
  generalize (c.after crypto e).touch = pad at heffect ⊢
  cases heffect with
  | same => exact ⟨UInt64.le_refl _, .inl⟩
  | granted => exact ⟨UInt64.le_of_lt hnext, fun _ => .inr hnext⟩
  | cleared => exact ⟨UInt64.le_refl _, .inl⟩
  | taken apdu around slot pad he huse hasks hauto h =>
    refine ⟨?_, fun _ => .inl ?_⟩
    · rcases h.generation with hsame | hmoved
      · exact hsame ▸ UInt64.le_refl _
      · exact hmoved ▸ UInt64.le_of_lt hnext
    · have hpending := h.pending
      exact UInt32.lt_iff_toNat_lt.mpr (hpending ▸ Nat.succ_pos _)

theorem parked_of_goesOn {pad : TouchPad} (h : GoesOn s.card.touch pad) {seen : UInt64}
    (hseen : seen ≤ s.card.touch.generation ∧
      (0 < s.card.touch.pending → seen < s.card.touch.generation)) :
    seen ≤ pad.generation ∧ (0 < pad.pending → seen < pad.generation) := by
  refine ⟨UInt64.le_trans hseen.1 h.generation, fun hpending => ?_⟩
  rcases h.pending hpending with hbefore | hmoved
  · exact UInt64.lt_of_lt_of_le (hseen.2 hbefore) h.generation
  · exact UInt64.lt_of_le_of_lt hseen.1 hmoved

theorem parked_attempt (h : s.Parked) (hfits : s.card.touch.generation.toNat + 1 < 2 ^ 64)
    (i : Nat) (apdu : Bytes) (around : VirtualCard.Surroundings) :
    (s.attempt crypto i apdu around).Parked := by
  intro j apdu' seen hparked
  have hgoes := goesOn_after crypto s.card (.transmit apdu around) hfits
  rw [Desk.attempt] at hparked ⊢
  dsimp only at hparked ⊢
  by_cases hj : j = i
  · subst hj
    rw [Function.update_self] at hparked
    split at hparked
    · next b hblocked =>
      cases hparked
      -- the card is as it was, and no touch is pending
      obtain ⟨-, hgate, hdispatch⟩ := VirtualCard.dispatch_blocked hblocked
      obtain ⟨hpending, hseen⟩ := VirtualCard.passTouchGate_blocked hgate
      rw [hdispatch]
      exact ⟨hseen ▸ UInt64.le_refl _, fun hpositive => absurd hpending.symm (UInt32.ne_of_lt hpositive)⟩
    · cases hparked
  · rw [Function.update_of_ne hj] at hparked
    exact parked_of_goesOn hgoes (h j apdu' seen hparked)

theorem parked_update (h : s.Parked) {i : Nat} {w : TouchWait}
    (hw : ∀ apdu seen, w ≠ .parked apdu seen) :
    Desk.Parked { s with waiters := Function.update s.waiters i w } := by
  intro j apdu seen hparked
  dsimp only at hparked
  by_cases hj : j = i
  · subst hj
    rw [Function.update_self] at hparked
    exact absurd hparked (hw apdu seen)
  · rw [Function.update_of_ne hj] at hparked
    exact h j apdu seen hparked

theorem parked_step (h : DeskAct.Step crypto s a s')
    (hfits : s.card.touch.generation.toNat + 1 < 2 ^ 64) (hparked : s.Parked) : s'.Parked := by
  obtain ⟨desk, event⟩ := a
  obtain ⟨rfl, hstep⟩ := h
  dsimp only at hstep
  cases event with
  | attempt i apdu around =>
    rw [Desk.step] at hstep
    split at hstep
    · cases hstep
      exact parked_attempt hparked hfits i apdu around
    · cases hstep
  | wake i =>
    rw [Desk.step] at hstep
    split at hstep
    · split at hstep
      · cases hstep
        exact parked_update hparked nofun
      · cases hstep
    · cases hstep
  | retry i around =>
    rw [Desk.step] at hstep
    split at hstep
    · cases hstep
      exact parked_attempt hparked hfits i _ around
    · cases hstep
  | giveUp i =>
    rw [Desk.step] at hstep
    split at hstep
    · cases hstep
    · cases hstep
      exact parked_update hparked nofun
  | other event =>
    cases hstep
    intro j apdu seen hwaits
    exact parked_of_goesOn (goesOn_after crypto desk.card event hfits) (hparked j apdu seen hwaits)

/-- No generation comes back while fewer than 2^63 touches are granted. -/
theorem generation_fits {log : List Entry} {c : VirtualCard}
    (h : Run Untouched (Entry.Acts crypto) anyStep log c) (hroom : ∀ e ∈ log, e.HasRoom) (hfew : log.countP (·.grantsTouch) < 2 ^ 63) :
    c.touch.generation.toNat + 1 < 2 ^ 64 := by
  have hbalance := balance_run h hroom
  have hgeneration := generation_run h
  omega

theorem parked_run (h : Run Desk.Opening (DeskAct.Step crypto) anyStep log s)
    (hroom : ∀ e ∈ log.filterMap DeskAct.entry, e.HasRoom)
    (hfew : (log.filterMap DeskAct.entry).countP (·.grantsTouch) < 2 ^ 63) : s.Parked := by
  induction h with
  | start hopening =>
    intro i apdu seen hparked
    rw [hopening.idle i] at hparked
    cases hparked
  | @step log s s' a hrun hstep _ ih =>
    have hsub : (log.filterMap DeskAct.entry).Sublist ((a :: log).filterMap DeskAct.entry) :=
      (List.sublist_cons_self a log).filterMap _
    have hroom' : ∀ e ∈ log.filterMap DeskAct.entry, e.HasRoom := fun e he => hroom e (hsub.mem he)
    have hfew' := (hsub.countP_le (p := Entry.grantsTouch)).trans_lt hfew
    exact parked_step hstep (generation_fits (run_entries hrun) hroom' hfew') (ih hroom' hfew')

theorem awake_of_parked (h : s.Parked) : s.Awake crypto := by
  intro i apdu seen hparked hpending
  obtain ⟨-, hless⟩ := h i apdu seen hparked
  refine ⟨hless hpending, ?_⟩
  have hmoved : s.card.touch.generation ≠ seen :=
    (UInt64.ne_of_lt (hless hpending)).symm
  simp only [Desk.step, hparked, if_pos hmoved, Option.isSome_some]

end Desks

/-- In every run of a card and its clients the touches are accounted for, and nobody sleeps on
while one is pending, as long as the counters of the pad do not overflow. Only a card that
grants every touch by itself lets operations pass without. -/
theorem touches_accounted (crypto : CardCrypto) {log : List DeskAct} {s : Desk}
    (h : Run Desk.Opening (DeskAct.Step crypto) anyStep log s)
    (hroom : ∀ e ∈ log.filterMap DeskAct.entry, e.HasRoom)
    (hfew : (log.filterMap DeskAct.entry).countP (·.grantsTouch) < 2 ^ 63) :
    Accounted crypto (·.autoTouch = true) (log.filterMap DeskAct.entry) s.card ∧ s.Awake crypto :=
  ⟨accounted_run (run_entries h) hroom, awake_of_parked (parked_run h hroom hfew)⟩

/-! ## A key that asks for a touch -/

/-- A card with a key in slot 9A that asks for a touch each time, and for no PIN. -/
def touchCard : VirtualCard :=
  { signingCard with
    slotPolicies := Function.update (fun _ => none) 0x9A
      (some ⟨PinPolicy.never, TouchPolicy.always⟩) }

/-- The desk of a card, no client waiting. -/
def touchDesk : Desk := ⟨touchCard, fun _ => .idle⟩

/-- A client waits, and a touch is granted. -/
def grantedDesk : Desk :=
  ⟨{ touchCard with touch := TouchPad.new.grant },
    Function.update (fun _ => .idle) 0 (.parked signApdu 0)⟩

theorem touches_accounted_granted : (grantedDesk.step sampleCrypto (.wake 0)).isSome = true := by
  have hparked : touchDesk.step sampleCrypto (.attempt 0 signApdu ⟨0, []⟩) =
      some ⟨touchCard, Function.update (fun _ => .idle) 0 (.parked signApdu 0)⟩ := rfl
  have hopening : Desk.Opening touchDesk := ⟨rfl, fun _ => rfl⟩
  have hrun : Run Desk.Opening (DeskAct.Step sampleCrypto) anyStep
      [⟨_, .other .grantTouch⟩, ⟨touchDesk, .attempt 0 signApdu ⟨0, []⟩⟩] grantedDesk :=
    .step (.step (.start hopening) ⟨rfl, hparked⟩ trivial) ⟨rfl, rfl⟩ trivial
  have hroom (e : Entry) (he : e ∈ [(⟨touchCard, .grantTouch⟩ : Entry), ⟨touchCard, sent signApdu⟩]) :
      e.HasRoom := by
    intro _
    rcases List.mem_pair.mp he with rfl | rfl
    · decide
    · decide
  exact ((touches_accounted sampleCrypto hrun hroom (by decide)).2 0 signApdu 0 rfl (by decide)).2

/-- That card, if it grants every touch by itself. -/
def autoCard : VirtualCard := { touchCard with autoTouch := true }

/-- The desk behind so many grants. -/
def grantedTimes (n : Nat) : Desk :=
  ⟨{ touchCard with touch := ⟨UInt32.ofNat n, fun _ => none, UInt64.ofNat n⟩ }, fun _ => .idle⟩

/-- So many grants. -/
def grantLog : Nat → List DeskAct
  | 0 => []
  | n + 1 => ⟨grantedTimes n, .other .grantTouch⟩ :: grantLog n

theorem run_grantLog (n : Nat) :
    Run Desk.Opening (DeskAct.Step sampleCrypto) anyStep (grantLog n) (grantedTimes n) := by
  induction n with
  | zero => exact .start ⟨rfl, fun _ => rfl⟩
  | succ n ih =>
    refine ih.step ⟨rfl, ?_⟩ trivial
    have hpending : UInt32.ofNat (n + 1) = UInt32.ofNat n + 1 := UInt32.ofNat_add n 1
    have hgeneration : UInt64.ofNat (n + 1) = UInt64.ofNat n + 1 := UInt64.ofNat_add n 1
    rw [grantedTimes, grantedTimes, hpending, hgeneration]
    rfl

theorem grantLog_counts (n : Nat) :
    ((grantLog n).filterMap DeskAct.entry).countP (·.takesTouch sampleCrypto) = 0 ∧
      ((grantLog n).filterMap DeskAct.entry).countP (·.grantsTouch) = n := by
  induction n with
  | zero => exact ⟨rfl, rfl⟩
  | succ n ih =>
    have hentries : (grantLog (n + 1)).filterMap DeskAct.entry =
        ⟨(grantedTimes n).card, .grantTouch⟩ :: (grantLog n).filterMap DeskAct.entry := rfl
    rw [hentries, List.countP_cons, List.countP_cons, ih.1, ih.2]
    exact ⟨rfl, rfl⟩

/-- With `--auto-touch` an operation passes that took no touch; and behind 2^32 grants none is
pending. -/
theorem not_accounted :
    (¬ ∀ (log : List DeskAct) (s : Desk),
      Run Desk.Opening (DeskAct.Step sampleCrypto) anyStep log s →
        Accounted sampleCrypto (fun _ => False) (log.filterMap DeskAct.entry) s.card) ∧
    ¬ ∀ (log : List DeskAct) (s : Desk),
      Run Desk.Opening (DeskAct.Step sampleCrypto) anyStep log s →
        Accounted sampleCrypto (·.autoTouch = true) (log.filterMap DeskAct.entry) s.card := by
  constructor
  · intro h
    have hopening : Desk.Opening ⟨autoCard, fun _ => .idle⟩ := ⟨rfl, fun _ => rfl⟩
    have hrun : Run Desk.Opening (DeskAct.Step sampleCrypto) anyStep
        [⟨⟨autoCard, fun _ => .idle⟩, .other (sent signApdu)⟩] _ :=
      .step (.start hopening) ⟨rfl, rfl⟩ trivial
    have huse : Entry.UsesAt sampleCrypto ⟨autoCard, sent signApdu⟩
        0x9A 0 := ⟨signApdu, ⟨0, []⟩, rfl, rfl, rfl, _, by simp, rfl⟩
    have htakes := (h _ _ hrun).always _ List.mem_cons_self 0x9A 0 huse (by decide) id
    exact absurd htakes (by decide)
  · intro h
    have hbalance := (h _ _ (run_grantLog (2 ^ 32))).balance
    obtain ⟨htakes, hgrants⟩ := grantLog_counts (2 ^ 32)
    rw [htakes, hgrants, Nat.zero_add] at hbalance
    have hpending : (grantedTimes (2 ^ 32)).card.touch.pending.toNat = 0 := UInt32.toNat_ofNat'
    omega

end Piggy.Fibby
