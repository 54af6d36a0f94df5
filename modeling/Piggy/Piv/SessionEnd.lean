import Piggy.Piv.Agreement
import Piggy.Piv.Session

/-!
# How sessions end

The flag of a session says whether a VERIFY was answered with success, not whether the card has
taken one. Where every answer to a VERIFY that the card has taken arrives the two agree, and a
PIN that a session has verified is gone with it.
-/

namespace Piggy.Piv

open Piggy.Core Piggy.Box Piggy.Card Piggy.Fibby

/-! ## VERIFYs among the commands -/

namespace Exchange

/-- What the card's answer says. -/
def status (x : Exchange) : Option StatusWord :=
  x.response.bind fun response => (splitResponse response).map Prod.snd

/-- A VERIFY with a PIN. -/
def IsVerify (x : Exchange) : Prop := x.command[1]? = some 0x20 ∧ 5 ≤ x.command.length

/-- A VERIFY that the card has executed with success. -/
def Taken (x : Exchange) : Prop := x.IsVerify ∧ ∃ sw, x.status = some sw ∧ sw.isSuccess = true

/-- The answer to a VERIFY that the card has executed with success has arrived, and no VERIFY is
answered with a part of a longer answer. -/
def Heard (x : Exchange) : Prop :=
  (x.Taken → x.arrived = true) ∧ (x.IsVerify → ∀ sw, x.status = some sw → hasMoreData sw = false)

end Exchange

variable {κ : Type} {m : CardModel κ} {fuel : Nat}

theorem getResponse_command (sw : StatusWord) : (getResponse sw).toBytes[1]? = some 0xC0 := by
  obtain ⟨rest, hbytes⟩ := toBytes_header (getResponse sw)
  rw [hbytes]
  rfl

/-- What the transport adds to the commands. -/
theorem transmitRaw_sent (t : Transaction κ) (command : Bytes) :
    ∃ x, (transmitRaw m t command).2.sent = x :: t.sent ∧ x.command = command ∧
      (∀ response, (transmitRaw m t command).1 = .ok response →
        x.response = some response ∧ x.arrived = true) ∧
      (∀ e, (transmitRaw m t command).1 = .error e → x.response = none ∨ x.arrived = false) := by
  rw [transmitRaw]
  dsimp only
  cases t.deliveries t.sent.length with
  | delivered => exact ⟨_, rfl, rfl, fun response h => ⟨congrArg some (Except.ok.inj h), rfl⟩, nofun⟩
  | answerLost e => exact ⟨_, rfl, rfl, nofun, fun _ _ => .inr rfl⟩
  | notSent e => exact ⟨_, rfl, rfl, nofun, fun _ _ => .inl rfl⟩

/-- Fetching the rest of an answer sends no VERIFY. -/
theorem chainResponses_sent {full : Bytes} {chainSw : StatusWord} {t t' : Transaction κ}
    {r : Except PivError (Bytes × StatusWord)}
    (h : chainResponses (transmitRaw m) fuel full chainSw t = some (r, t')) :
    ∃ chain, t'.sent = chain ++ t.sent ∧ ∀ y ∈ chain, y.command[1]? = some 0xC0 := by
  refine chainResponses_invariant
    (motive := fun t' => ∃ chain, t'.sent = chain ++ t.sent ∧ ∀ y ∈ chain, y.command[1]? = some 0xC0)
    ?_ ⟨[], rfl, nofun⟩ h
  rintro s sw ⟨chain, hchain, hall⟩
  obtain ⟨x, hx, hcommand, -⟩ := transmitRaw_sent (m := m) s (getResponse sw).toBytes
  refine ⟨x :: chain, by rw [hx, hchain, List.cons_append], fun y hy => ?_⟩
  rcases List.mem_cons.mp hy with rfl | hy
  · rw [hcommand, getResponse_command]
  · exact hall y hy

/-- What a command adds to those that were sent: itself, and what fetches the rest of its answer.
A VERIFY that is heard is answered with success when it is taken. -/
theorem transmitOn_sent {apdu : Apdu} {t t' : Transaction κ}
    {r : Except PivError (Bytes × StatusWord)}
    (h : transmitOn (transmitRaw m) fuel apdu t = some (r, t')) :
    ∃ chain x, t'.sent = chain ++ x :: t.sent ∧ x.command = apdu.toBytes ∧
      (∀ y ∈ chain, y.command[1]? = some 0xC0) ∧
      (x.Heard → x.IsVerify → ((∃ data sw, r = .ok (data, sw) ∧ sw.isSuccess = true) ↔ x.Taken)) := by
  obtain ⟨x, hx, hcommand, hok, herror⟩ := transmitRaw_sent (m := m) t apdu.toBytes
  rw [transmitOn] at h
  split at h
  · next e t'' hanswer =>
    cases h
    rw [hanswer] at hx herror
    refine ⟨[], x, hx, hcommand, List.forall_mem_nil _, fun hheard hverify => ⟨?_, fun htaken => ?_⟩⟩
    · rintro ⟨_, _, hr, -⟩
      cases hr
    obtain ⟨sw, hsw, -⟩ := htaken.2
    rcases herror e rfl with hnone | hlost
    · rw [Exchange.status, hnone] at hsw
      cases hsw
    · exact absurd (hheard.1 htaken) (by rw [hlost]; exact fun h => by cases h)
  · next response t'' hanswer =>
    rw [hanswer] at hx hok
    obtain ⟨hresponse, -⟩ := hok response rfl
    split at h
    · next hshort =>
      cases h
      refine ⟨[], x, hx, hcommand, List.forall_mem_nil _, fun _ _ => ⟨?_, ?_⟩⟩
      · rintro ⟨_, _, hr, -⟩
        cases hr
      rintro ⟨_, sw, hsw, -⟩
      rw [Exchange.status, hresponse, Option.bind_some, hshort] at hsw
      cases hsw
    · next data sw hsplit =>
      have hstatus : x.status = some sw := by
        rw [Exchange.status, hresponse, Option.bind_some, hsplit]
        rfl
      obtain ⟨chain, hchain, hall⟩ := chainResponses_sent h
      dsimp only at hx
      refine ⟨chain, x, by rw [hchain, hx], hcommand, hall, fun hheard hverify => ?_⟩
      have hlast := hheard.2 hverify sw hstatus
      rw [chainResponses.eq_def] at h
      obtain ⟨rfl, rfl⟩ : r = .ok (data, sw) ∧ t' = t'' := by
        simpa [hlast, eq_comm] using h
      constructor
      · rintro ⟨data', sw', hr, hsuccess⟩
        cases hr
        exact ⟨hverify, sw, hstatus, hsuccess⟩
      · rintro ⟨-, sw', hsw', hsuccess⟩
        obtain rfl := Option.some.inj (hstatus.symm.trans hsw')
        exact ⟨data, sw, rfl, hsuccess⟩

/-! ## The flag of a session -/

theorem isVerify_of_command {x : Exchange} {apdu : Apdu} (h : x.command = apdu.toBytes) :
    x.IsVerify → apdu.ins = 0x20 := by
  rintro ⟨hins, -⟩
  obtain ⟨rest, hbytes⟩ := toBytes_header apdu
  rw [h, hbytes] at hins
  exact Option.some.inj hins

theorem not_isVerify_of_chain {chain : List Exchange}
    (h : ∀ y ∈ chain, y.command[1]? = some 0xC0) : ∀ y ∈ chain, ¬ y.IsVerify :=
  fun y hy hverify => absurd ((h y hy).symm.trans hverify.1) (by decide)

/-- What every command of a session keeps, the session keeps. -/
def Preserves (m : CardModel κ) (t t' : Transaction κ) : Prop :=
  ∀ motive : Transaction κ → Prop,
    (∀ t command, motive t → motive (transmitRaw m t command).2) → motive t → motive t'

/-- An operation sends commands; when they are heard it sets the flag if a VERIFY among them is
taken, and else leaves it. -/
structure Tracks (m : CardModel κ) (s s' : PinSession κ) : Prop where
  preserves : Preserves m s.session s'.session
  flag : ∃ new, s'.session.sent = new ++ s.session.sent ∧
    ((∀ x ∈ new, x.Heard) →
      (s'.pinVerified = true ↔ s.pinVerified = true ∨ ∃ x ∈ new, x.Taken))

theorem Tracks.refl (s : PinSession κ) : Tracks m s s :=
  ⟨fun _ _ h => h, [], rfl, fun _ => by simp⟩

theorem preserves_transmitOn {apdu : Apdu} {t t' : Transaction κ}
    {r : Except PivError (Bytes × StatusWord)}
    (h : transmitOn (transmitRaw m) fuel apdu t = some (r, t')) : Preserves m t t' :=
  fun _ hlink ht => transmitOn_invariant hlink ht h

/-- Commands that are no VERIFY leave the flag. -/
theorem tracks_of_noVerify {s : PinSession κ} {apdu : Apdu} {t' : Transaction κ}
    {r : Except PivError (Bytes × StatusWord)}
    (h : transmitOn (transmitRaw m) fuel apdu s.session = some (r, t'))
    (hno : ∀ x : Exchange, x.command = apdu.toBytes → ¬ x.IsVerify) :
    Tracks m s { s with session := t' } := by
  obtain ⟨chain, x, hsent, hcommand, hchain, -⟩ := transmitOn_sent h
  have hall : t'.sent = (chain ++ [x]) ++ s.session.sent := by
    rw [List.append_assoc]
    exact hsent
  refine ⟨preserves_transmitOn h, chain ++ [x], hall, fun _ => ?_⟩
  have hnone : ¬ ∃ y ∈ chain ++ [x], y.Taken := by
    rintro ⟨y, hy, htaken⟩
    rcases List.mem_append.mp hy with hy | hy
    · exact not_isVerify_of_chain hchain y hy htaken.1
    · obtain rfl := List.mem_singleton.mp hy
      exact hno y hcommand htaken.1
  exact (or_iff_left hnone).symm

theorem isVerify_verifyPin {pin : Bytes} {apdu : Apdu} (h : Apdu.verifyPin pin = some apdu)
    {x : Exchange} (hx : x.command = apdu.toBytes) : x.IsVerify := by
  rw [Apdu.verifyPin] at h
  split at h
  · next hlength =>
    have hpadded := length_padded hlength
    obtain ⟨rest, hbytes⟩ := toBytes_header apdu
    rw [← Option.some.inj h] at hx
    have hne : padded pin ≠ [] := List.ne_nil_of_length_pos (by rw [hpadded]; decide)
    have hall : x.command = 0x00 :: 0x20 :: 0x00 :: 0x80 :: UInt8.ofNat 8 :: padded pin := by
      rw [hx, Apdu.toBytes]
      simp [Apdu.new, hpadded, hne]
    exact ⟨by rw [hall]; rfl, by rw [hall]; simp only [List.length_cons]; omega⟩
  · cases h

theorem tracks_verifyPin {pin : Bytes} {s s' : PinSession κ} {r : Except PivError Unit}
    (h : s.verifyPin m fuel pin = some (r, s')) : Tracks m s s' := by
  rw [PinSession.verifyPin] at h
  split at h
  · cases h
    exact .refl _
  obtain ⟨apdu, hapdu, h⟩ := Option.bind_eq_some_iff.mp h
  obtain ⟨⟨answer, t'⟩, htransmit, h⟩ := Option.bind_eq_some_iff.mp h
  obtain ⟨chain, x, hsent, hcommand, hchain, hflag⟩ := transmitOn_sent htransmit
  have hverify := isVerify_verifyPin hapdu hcommand
  have hall : t'.sent = (chain ++ [x]) ++ s.session.sent := by
    rw [List.append_assoc]
    exact hsent
  have htaken : (∃ y ∈ chain ++ [x], y.Taken) ↔ x.Taken := by
    constructor
    · rintro ⟨y, hy, htaken⟩
      rcases List.mem_append.mp hy with hy | hy
      · exact absurd htaken.1 (not_isVerify_of_chain hchain y hy)
      · rwa [← List.mem_singleton.mp hy]
    · exact fun htaken => ⟨x, by simp, htaken⟩
  have hheard : (∀ y ∈ chain ++ [x], y.Heard) → x.Heard := fun h => h x (by simp)
  dsimp only at h
  split at h
  · cases h
    refine ⟨preserves_transmitOn htransmit, chain ++ [x], hall, fun hnew => ?_⟩
    have hnot : ¬ x.Taken := fun h => by
      obtain ⟨data, sw, hr, -⟩ := (hflag (hheard hnew) hverify).mpr h
      cases hr
    rw [htaken]
    exact (or_iff_left hnot).symm
  · next data sw =>
    cases h
    refine ⟨preserves_transmitOn htransmit, chain ++ [x], hall, fun hnew => ?_⟩
    have hsuccess : sw.isSuccess = true ↔ x.Taken := by
      rw [← hflag (hheard hnew) hverify]
      constructor
      · exact fun h => ⟨data, sw, rfl, h⟩
      · rintro ⟨data', sw', hr, h⟩
        cases hr
        exact h
    rw [htaken, ← hsuccess]
    dsimp only
    split
    · next h => simp [h]
    · next h => simp [h]

theorem tracks_perform {op : SessionOp} {s s' : PinSession κ} (h : s.perform m fuel op = some s') :
    Tracks m s s' := by
  cases op with
  | verifyPin pin =>
    obtain ⟨⟨r, s''⟩, hperform, rfl⟩ := Option.map_eq_some_iff.mp h
    exact tracks_verifyPin hperform
  | pinRetriesRemaining =>
    obtain ⟨⟨r, s''⟩, hperform, rfl⟩ := Option.map_eq_some_iff.mp h
    obtain ⟨⟨answer, t'⟩, htransmit, h⟩ := Option.bind_eq_some_iff.mp hperform
    cases h
    refine tracks_of_noVerify htransmit fun x hx hverify => ?_
    -- a query has no data
    have hlength := hverify.2
    rw [hx] at hlength
    exact absurd hlength (by decide)
  | other command =>
    obtain ⟨⟨r, s''⟩, hperform, rfl⟩ := Option.map_eq_some_iff.mp h
    obtain ⟨⟨answer, t'⟩, htransmit, h⟩ := Option.bind_eq_some_iff.mp hperform
    cases h
    exact tracks_of_noVerify htransmit fun x hx hverify =>
      command.ins_ne (isVerify_of_command hx hverify)

theorem Tracks.trans {s s' s'' : PinSession κ} (h : Tracks m s s') (h' : Tracks m s' s'') :
    Tracks m s s'' := by
  obtain ⟨hpreserves, new, hsent, hflag⟩ := h
  obtain ⟨hpreserves', new', hsent', hflag'⟩ := h'
  refine ⟨fun motive hlink hs => hpreserves' motive hlink (hpreserves motive hlink hs), new' ++ new, by rw [hsent', hsent, List.append_assoc], fun hheard => ?_⟩
  have hnew := hflag fun x hx => hheard x (List.mem_append_right _ hx)
  have hnew' := hflag' fun x hx => hheard x (List.mem_append_left _ hx)
  rw [hnew', hnew, or_assoc]
  refine or_congr_right ?_
  constructor
  · rintro (⟨x, hx, htaken⟩ | ⟨x, hx, htaken⟩)
    · exact ⟨x, List.mem_append_right _ hx, htaken⟩
    · exact ⟨x, List.mem_append_left _ hx, htaken⟩
  · rintro ⟨x, hx, htaken⟩
    rcases List.mem_append.mp hx with hx | hx
    · exact .inr ⟨x, hx, htaken⟩
    · exact .inl ⟨x, hx, htaken⟩

theorem tracks_performAll {ops : List SessionOp} {s s' : PinSession κ}
    (h : s.performAll m fuel ops = some s') : Tracks m s s' := by
  induction ops generalizing s with
  | nil =>
    cases h
    exact .refl _
  | cons op ops ih =>
    rw [PinSession.performAll, List.foldlM_cons] at h
    obtain ⟨mid, hop, hrest⟩ := Option.bind_eq_some_iff.mp h
    exact (tracks_perform hop).trans (ih hrest)

/-! ## The end of a session -/

/-- Selecting the applet is no VERIFY. -/
theorem select_noVerify (x : Exchange) (hx : x.command = (Apdu.select Apdu.pivAid).toBytes) :
    ¬ x.IsVerify :=
  fun hverify => absurd (isVerify_of_command hx hverify) (by decide)

/-- What a session leaves behind: its commands, a flag that agrees with them, and an end that
follows the flag. -/
theorem runSession_cases {ops : List SessionOp} {ending : Ending} {t t' : Transaction κ}
    (h : runSession m fuel ops ending t = some t') :
    ∃ s : PinSession κ, Tracks m ⟨t, false⟩ s ∧ t' = (s.session.finish m s.disposition).2 := by
  obtain ⟨begun, hbegin, h⟩ := Option.bind_eq_some_iff.mp h
  obtain ⟨⟨answer, selected⟩, hselect, hbegin⟩ := Option.bind_eq_some_iff.mp hbegin
  have htracks : Tracks m ⟨t, false⟩ ⟨selected, false⟩ :=
    @tracks_of_noVerify _ _ _ ⟨t, false⟩ _ _ _ hselect select_noVerify
  dsimp only at hbegin
  split at hbegin
  · cases hbegin
    cases h
    exact ⟨⟨selected, false⟩, htracks, rfl⟩
  · split at hbegin
    · cases hbegin
      obtain ⟨s, hall, h⟩ := Option.bind_eq_some_iff.mp h
      refine ⟨s, htracks.trans (tracks_performAll hall), ?_⟩
      cases ending with
      | ended => exact (Option.some.inj h).symm
      | dropped => exact (Option.some.inj h).symm
    · cases hbegin
      cases h
      exact ⟨⟨selected, false⟩, htracks, rfl⟩

theorem finish_sent (t : Transaction κ) (d : EndDisposition) : (t.finish m d).2.sent = t.sent := by
  rw [Transaction.finish]
  split
  · rfl
  · rfl

theorem finish_ended (t : Transaction κ) (d : EndDisposition) :
    (t.finish m d).2.ended = some d := by
  rw [Transaction.finish]
  split
  · rfl
  · rfl

/-- A session whose VERIFYs are heard resets the card if one of them is taken, and else leaves
it. -/
theorem runSession_ended {ops : List SessionOp} {ending : Ending} {t t' : Transaction κ}
    (hfresh : t.sent = []) (h : runSession m fuel ops ending t = some t')
    (hheard : ∀ x ∈ t'.sent, x.Heard) :
    ((∃ x ∈ t'.sent, x.Taken) → t'.ended = some .resetCard) ∧
      ((¬ ∃ x ∈ t'.sent, x.Taken) → t'.ended = some .leaveCard) := by
  obtain ⟨s, ⟨-, new, hsent, hflag⟩, rfl⟩ := runSession_cases h
  rw [finish_sent] at hheard ⊢
  rw [finish_ended]
  rw [hfresh, List.append_nil] at hsent
  rw [hsent] at hheard ⊢
  have hflag := hflag hheard
  rw [PinSession.disposition]
  constructor
  · intro htaken
    rw [if_pos (hflag.mpr (.inr htaken))]
  · intro hnone
    rw [if_neg fun hv => ?_]
    rcases hflag.mp hv with h | h
    · cases h
    · exact hnone h

/-! ## Over the virtual card -/

open VirtualCard (Surroundings)

/-- The virtual card, which sees its surroundings at each of its commands. -/
def fibby (crypto : CardCrypto) (around : Nat → Surroundings) : CardModel VirtualCard where
  respond n c command := c.dispatch crypto (around n) command
  finish
    | .leaveCard, c => c.endTransaction VirtualCard.Disposition.leave
    | .resetCard, c => c.endTransaction VirtualCard.Disposition.reset

section Fibby

variable {crypto : CardCrypto} {c : VirtualCard} {apdu : Bytes}

/-- A command leaves the PIN unverified, unless it is a VERIFY of the right PIN. -/
theorem pinVerified_dispatch {around : Surroundings}
    (h : (c.dispatch crypto around apdu).2.pinVerified = true) :
    c.pinVerified = true ∨ c.RightVerify apdu := by
  have heffect := VirtualCard.after_effect crypto c (.transmit apdu around)
  generalize hs : (c.after crypto (.transmit apdu around)).pinState = s at heffect
  have hv : s.pinVerified = true := by
    rw [← hs]
    exact h
  cases heffect with
  | same => exact .inl hv
  | cleared => cases hv
  | verified apdu' around' he hright =>
    cases he
    exact .inr hright
  | refused apdu' around' he hwrong hretries => exact .inl hv
  | changed pin hretries => exact .inl hv
  | pukRefused hretries => exact .inl hv
  | pukChanged puk hretries => exact .inl hv
  | unblocked apdu' around' he hreset pin => cases hv
  | wiped apdu' around' he hreset => cases hv

/-- A VERIFY of the right PIN is answered with success. -/
theorem dispatch_rightVerify {around : Surroundings} (h : c.RightVerify apdu) :
    (c.dispatch crypto around apdu).1 = sw 0x90 0x00 := by
  obtain ⟨marked, hdispatch⟩ : ∃ marked, c.dispatch crypto around apdu = _ :=
    VirtualCard.dispatch_received h.received
  have hcommand : (({ c with touchBlocked := none } : VirtualCard).command crypto around 0x20 0x00
      0x80 apdu) = ({ c with touchBlocked := none } : VirtualCard).handleVerify (some c.pin) := by
    simp [VirtualCard.command, VirtualCard.pinCommand, h.body]
  rw [hdispatch, hcommand, VirtualCard.handleVerify]
  simp [h.length, h.retries]

theorem rightVerify_isVerify {response : Option Bytes} {arrived : Bool} (h : c.RightVerify apdu) :
    (⟨apdu, response, arrived⟩ : Exchange).IsVerify := by
  have hreceived := h.received
  have hbody := h.body
  match apdu with
  | cla :: ins :: p1 :: p2 :: rest =>
    rw [VirtualCard.received] at hreceived
    split at hreceived
    · cases hreceived
    split at hreceived
    · cases hreceived
    split at hreceived
    · cases hreceived
      refine ⟨rfl, ?_⟩
      by_contra hlength
      rw [apduBody, if_pos (Nat.lt_of_not_le hlength)] at hbody
      cases hbody
    · cases hreceived
  | [] | [_] | [_, _] | [_, _, _] => cases hreceived

/-- A verified PIN was verified by a command of the session. -/
def VerifiedHere (t : Transaction VirtualCard) : Prop :=
  t.card.pinVerified = true → ∃ x ∈ t.sent, x.Taken

theorem verifiedHere_transmitRaw {around : Nat → Surroundings} (t : Transaction VirtualCard)
    (command : Bytes) (h : VerifiedHere t) :
    VerifiedHere (transmitRaw (fibby crypto around) t command).2 := by
  have hexecuted : ∀ arrived, (t.card.dispatch crypto (around t.sent.length) command).2.pinVerified =
      true → ∃ x ∈ (⟨command, some (t.card.dispatch crypto (around t.sent.length) command).1, arrived⟩ :
        Exchange) :: t.sent, x.Taken := by
    intro arrived hv
    rcases pinVerified_dispatch hv with hv | hright
    · obtain ⟨x, hx, htaken⟩ := h hv
      exact ⟨x, List.mem_cons_of_mem _ hx, htaken⟩
    · refine ⟨_, List.mem_cons_self, rightVerify_isVerify hright, ⟨0x90, 0x00⟩, ?_, rfl⟩
      rw [Exchange.status, dispatch_rightVerify hright]
      rfl
  rw [transmitRaw]
  dsimp only [fibby]
  cases t.deliveries t.sent.length with
  | delivered => exact hexecuted true
  | answerLost e => exact hexecuted false
  | notSent e =>
    intro hv
    obtain ⟨x, hx, htaken⟩ := h hv
    exact ⟨x, List.mem_cons_of_mem _ hx, htaken⟩

theorem endError_transmitRaw (t : Transaction κ) (command : Bytes) :
    (transmitRaw m t command).2.endError = t.endError := by
  rw [transmitRaw]
  dsimp only
  split
  · rfl
  · rfl
  · rfl

/-- After a session whose VERIFYs are heard the PIN is not verified. -/
theorem pinVerified_runSession {around : Nat → Surroundings} {ops : List SessionOp}
    {ending : Ending} {t t' : Transaction VirtualCard} (hfresh : t.sent = [])
    (hcard : t.card.pinVerified = false) (hend : t.endError = none)
    (h : runSession (fibby crypto around) fuel ops ending t = some t')
    (hheard : ∀ x ∈ t'.sent, x.Heard) : t'.card.pinVerified = false := by
  obtain ⟨s, ⟨hpreserves, new, hsent, hflag⟩, rfl⟩ := runSession_cases h
  have hhere : VerifiedHere s.session :=
    hpreserves VerifiedHere verifiedHere_transmitRaw fun hv => absurd hv (by rw [hcard]; nofun)
  have hend : s.session.endError = none :=
    hpreserves (fun t => t.endError = none) (fun t command ht => (endError_transmitRaw t command).trans ht)
      hend
  rw [finish_sent] at hheard
  rw [hfresh, List.append_nil] at hsent
  rw [hsent] at hheard
  have hflag := hflag hheard
  rw [Transaction.finish, hend]
  dsimp only
  rw [PinSession.disposition]
  cases hpin : s.pinVerified with
  | true => rfl
  | false =>
    by_contra hv
    have hv : s.session.card.pinVerified = true := Bool.not_eq_false _ ▸ hv
    obtain ⟨x, hx, htaken⟩ := hhere hv
    rw [hsent] at hx
    exact absurd (hflag.mpr (.inr ⟨x, hx, htaken⟩)) (by rw [hpin]; nofun)

/-- From a card without a verified PIN on, a verified PIN was verified by one of the events. -/
theorem verified_run {log : List Entry} {c' : VirtualCard} (hc : c.pinVerified = false)
    (h : Run (· = c) (Entry.Step crypto) anyStep log c') (hv : c'.pinVerified = true) :
    ∃ e ∈ log, e.RightVerify := by
  refine Run.invariant (motive := fun log s => s.pinVerified = true → ∃ e ∈ log, e.RightVerify)
    ?_ ?_ h hv
  · rintro s rfl hv
    exact absurd hv (by rw [hc]; nofun)
  · rintro log s e s' - ih ⟨rfl, rfl⟩ - hv
    have heffect := VirtualCard.after_effect crypto e.card e.event
    generalize hs : (e.card.after crypto e.event).pinState = st at heffect
    have hst : st.pinVerified = true := by
      rw [← hs]
      exact hv
    have hkept : e.card.pinVerified = true → ∃ x ∈ e :: log, x.RightVerify := fun hv => by
      obtain ⟨x, hx, hright⟩ := ih hv
      exact ⟨x, List.mem_cons_of_mem _ hx, hright⟩
    cases heffect with
    | same => exact hkept hst
    | cleared => cases hst
    | verified apdu around he hright => exact ⟨e, List.mem_cons_self, apdu, around, he, hright⟩
    | refused apdu around he hwrong hretries => exact hkept hst
    | changed pin hretries => exact hkept hst
    | pukRefused hretries => exact hkept hst
    | pukChanged puk hretries => exact hkept hst
    | unblocked apdu around he hreset pin => cases hst
    | wiped apdu around he hreset => cases hst

end Fibby

/-- How sessions end whose commands meet a condition, over any card; and what a later client of
the virtual card needs for a key that is behind the PIN. -/
structure EndsClean (crypto : CardCrypto) (condition : List Exchange → Prop) : Prop where
  disposition : ∀ {κ : Type} (m : CardModel κ) fuel ops ending t t', t.sent = [] →
    runSession m fuel ops ending t = some t' → condition t'.sent →
    ((∃ x ∈ t'.sent, x.Taken) → t'.ended = some .resetCard) ∧
      ((¬ ∃ x ∈ t'.sent, x.Taken) → t'.ended = some .leaveCard)
  laterClients : ∀ around fuel ops ending (t t' : Transaction VirtualCard), t.sent = [] →
    t.card.pinVerified = false → t.endError = none →
    runSession (fibby crypto around) fuel ops ending t = some t' → condition t'.sent →
    ∀ log c, Run (· = t'.card) (Entry.Step crypto) anyStep log c →
    ∀ newer e older slot, log = newer ++ e :: older → e.UsesKey crypto slot →
      e.card.effectivePinPolicy slot ≠ Fibby.PinPolicy.never → ∃ verify ∈ older, verify.RightVerify

/-- Sessions end clean when every answer to a VERIFY that the card has taken is heard. -/
theorem endsClean_of_heard (crypto : CardCrypto) :
    EndsClean crypto fun sent => ∀ x ∈ sent, x.Heard where
  disposition _ _ _ _ _ _ hfresh hrun hheard := runSession_ended hfresh hrun hheard
  laterClients around fuel ops ending t t' hfresh hcard hend hrun hheard log c hlog newer e older slot
      hsplit huse hpolicy := by
    have hclean := pinVerified_runSession hfresh hcard hend hrun hheard
    rw [hsplit] at hlog
    obtain ⟨before, after, holder, ⟨rfl, -⟩, -⟩ := hlog.step_of_append
    obtain ⟨apdu, around, -, huse⟩ := huse
    exact verified_run hclean holder (huse.verified hpolicy)

/-! ## A session with one VERIFY -/

/-- A transaction with a card that has a signing key; the answer to the second command gets lost
or not. -/
def signingTransaction (lost : Bool) : Transaction VirtualCard where
  card := signingCard
  deliveries n := if lost ∧ n = 1 then .answerLost .cardNotFound else .delivered
  endError := none
  sent := []
  ended := none

/-- The PIN `123456`. -/
def samplePin : Bytes := [0x31, 0x32, 0x33, 0x34, 0x35, 0x36]

def selectExchange : Exchange :=
  ⟨(Apdu.select Apdu.pivAid).toBytes, some (Model.yk4.selectFciBytes ++ sw 0x90 0x00), true⟩

def verifyExchange : Exchange := ⟨verifyApdu defaultPin, some (sw 0x90 0x00), true⟩

theorem taken_verifyExchange : verifyExchange.Taken := ⟨⟨rfl, by decide⟩, ⟨0x90, 0x00⟩, rfl, rfl⟩

theorem endsClean_of_heard_sample : ∃ t',
    runSession (fibby sampleCrypto fun _ => ⟨0, []⟩) 0 [.verifyPin samplePin] .dropped
      (signingTransaction false) = some t' ∧ t'.ended = some .resetCard := by
  have hall : (runSession (fibby sampleCrypto fun _ => ⟨0, []⟩) 0 [.verifyPin samplePin] .dropped
      (signingTransaction false)).map Transaction.sent = some [verifyExchange, selectExchange] := by
    decide +kernel
  obtain ⟨t', hrun, hsent⟩ := Option.map_eq_some_iff.mp hall
  have hselect : ¬ selectExchange.IsVerify := fun h => absurd h.1 (by decide)
  refine ⟨t', hrun, ((endsClean_of_heard sampleCrypto).disposition _ _ _ _ _ _ rfl hrun ?_).1 ?_⟩
  · rw [hsent]
    intro x hx
    rcases List.mem_cons.mp hx with rfl | hx
    · refine ⟨fun _ => rfl, fun _ sw hsw => ?_⟩
      rw [← Option.some.inj hsw]
      rfl
    · obtain rfl := List.mem_singleton.mp hx
      exact ⟨fun h => absurd h.1 hselect, fun h => absurd h hselect⟩
  · rw [hsent]
    exact ⟨verifyExchange, List.mem_cons_self, taken_verifyExchange⟩

/-- The card after its applet was selected and its PIN verified. -/
def heldCard : VirtualCard :=
  (signingCard.after sampleCrypto (sent (Apdu.select Apdu.pivAid).toBytes)).after sampleCrypto
    (sent (verifyApdu defaultPin))

theorem usesKey_heldCard : Entry.UsesKey sampleCrypto ⟨heldCard, sent signApdu⟩ 0x9A :=
  usesKey_signApdu rfl rfl

/-- The answer to a VERIFY gets lost that the card has taken: the session leaves the card, and the
next client signs without a VERIFY of its own. -/
theorem not_endsClean_lostAnswer : ¬ EndsClean sampleCrypto fun _ => True := by
  intro h
  obtain ⟨t', hrun, hcard⟩ :
      ∃ t', runSession (fibby sampleCrypto fun _ => ⟨0, []⟩) 0 [.verifyPin samplePin] .dropped
        (signingTransaction true) = some t' ∧ t'.card = heldCard := ⟨_, rfl, rfl⟩
  obtain ⟨verify, hmem, -⟩ := h.laterClients _ _ _ _ _ _ rfl rfl rfl hrun trivial
    [⟨heldCard, sent signApdu⟩] _ (.step (.start hcard.symm) ⟨rfl, rfl⟩ trivial) [] _ [] 0x9A rfl
    usesKey_heldCard (by decide)
  cases hmem

end Piggy.Piv
